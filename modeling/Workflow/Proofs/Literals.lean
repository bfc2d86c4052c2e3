/-
Literals of configurations, as a reader of code sees them.

A literal opens and closes brackets in order and holds no mark but those of
dictionaries, lists and numbers, whatever texts stand in it (`Tame`): on one line
(`tame_literal`) and laid out over several (`tame_layout`). Wherever it is cut into
lines, a bracket is open, so that an assignment of it is one statement
(`exists_spans`).
-/
import Mathlib.Tactic.FinCases
import Workflow.Graph.Plan
import Workflow.Handler.Literal
import Workflow.Proofs.Outline

namespace Workflow

/-! ## Documents -/

namespace Value

mutual

/-- Whether a value is one that a document can hold: nothing, flags, numbers and texts, lists of
these, and dictionaries with texts for keys. -/
def isJson : Value → Bool
  | .none | .bool _ | .int _ | .float _ | .str _ => true
  | .list items => areJson items
  | .dict entries => areJsonEntries entries
  | _ => false
termination_by structural v => v

/-- Whether a document can hold all the values. -/
def areJson : List Value → Bool
  | [] => true
  | v :: rest => isJson v && areJson rest
termination_by structural vs => vs

/-- Whether a document can hold all the entries. -/
def areJsonEntries : List (Value × Value) → Bool
  | [] => true
  | (.str _, v) :: rest => isJson v && areJsonEntries rest
  | _ :: _ => false
termination_by structural es => es

end

theorem areJsonEntries_cons {k v : Value} {rest : List (Value × Value)}
    (h : areJsonEntries ((k, v) :: rest)) :
    ∃ s, k = .str s ∧ v.isJson ∧ areJsonEntries rest := by
  cases k <;> simp [areJsonEntries] at h
  exact ⟨_, rfl, h⟩

end Value

/-- The configurations of a plan are ones that a document can hold. -/
def Plan.IsJson (p : Plan) : Prop := ∀ s ∈ p.steps, (Value.ofFields s.data).isJson

namespace Outline

open Handler

/-! ## Tame texts -/

/-- The marks of literals. -/
def literalMarks : List Char := ['[', ']', '\x7b', '\x7d', ',', ':', '-', '+']

/-- A text that can stand in code as a part of a literal: it is read to its end, and closes what it
opens. -/
def Tame (t : List Char) : Prop :=
  ∀ word, ∃ xs word', scan (.code word) t = some (xs, .code word') ∧
    brackets [] (marks xs) = some [] ∧ ∀ c ∈ marks xs, c ∈ literalMarks

theorem tame_nil : Tame [] := fun word => ⟨[], word, rfl, rfl, by simp⟩

theorem Tame.append {a b : List Char} (ha : Tame a) (hb : Tame b) : Tame (a ++ b) := by
  intro word
  obtain ⟨xs, word', hxs, hbx, hmx⟩ := ha word
  obtain ⟨ys, word'', hys, hby, hmy⟩ := hb word'
  refine ⟨xs ++ ys, word'', by simp [scan_append hxs, hys], ?_, ?_⟩
  · rw [marks_append, brackets_append, hbx, Option.bind_some, hby]
  · intro c hc
    rw [marks_append, List.mem_append] at hc
    exact hc.elim (hmx c) (hmy c)

theorem scan_mark {c : Char} (h : c ∈ literalMarks) (word : List Char) :
    scan (.code word) [c] = some (flush word ++ [.mark c], .code []) := by
  unfold literalMarks at h
  fin_cases h <;> simp [scan, Mode.step, isWordChar]

theorem Reads.mark {c : Char} (h : c ∈ literalMarks) (word : List Char) :
    Reads (.code word) (String.ofList [c]) (flush word ++ [.mark c]) (.code []) where
  scan_eq := by rw [String.toList_ofList, scan_mark h]
  noFeed := by
    rw [String.toList_ofList, List.mem_singleton]
    rintro rfl
    exact absurd h (by decide)

/-- The characters that neither quote nor open nor close. -/
def isFiller (c : Char) : Bool := isWordChar c || c ∈ [' ', '\n', ',', ':', '-', '+']

theorem tame_filler {t : List Char} (h : ∀ c ∈ t, isFiller c) : Tame t := by
  have one : ∀ c, isFiller c → Tame [c] := by
    intro c hc word
    rcases (Bool.or_eq_true _ _).mp hc with hw | hm
    · exact ⟨[], word ++ [c], scan_word (by simpa using hw), rfl, by simp⟩
    · have hm : (c = ' ' ∨ c = '\n') ∨ c ∈ [',', ':', '-', '+'] := by
        simpa [or_assoc] using hm
      rcases hm with hb | hm
      · have hs : scan (.code word) [c] = some (flush word ++ [], .code []) := by
          rcases hb with rfl | rfl <;> rfl
        exact ⟨_, _, hs, by simp, by simp⟩
      · have hl : c ∈ literalMarks := by fin_cases hm <;> decide
        have hb : brackets [] [c] = some [] := by fin_cases hm <;> rfl
        exact ⟨_, _, scan_mark hl word, by simpa using hb, by simpa using hl⟩
  induction t with
  | nil => exact tame_nil
  | cons c rest ih =>
    exact (one c (h c List.mem_cons_self)).append (ih fun d hd => h d (List.mem_cons_of_mem _ hd))

theorem tame_quoted (s : String) : Tame (Text.quoted s).toList := fun word =>
  ⟨_, _, scan_quoted word s, by simp, by simp⟩

/-- A tame text stays so between brackets. -/
theorem Tame.wrap {t : List Char} (h : Tame t) {o c : Char}
    (hoc : (o, c) ∈ [('[', ']'), ('\x7b', '\x7d')]) : Tame (o :: (t ++ [c])) := by
  intro word
  obtain ⟨xs, word', hxs, hb, hm⟩ := h []
  have hopen : o ∈ literalMarks := by fin_cases hoc <;> decide
  have hclose : c ∈ literalMarks := by fin_cases hoc <;> decide
  refine ⟨(flush word ++ [.mark o]) ++ (xs ++ (flush word' ++ [.mark c])), [], ?_, ?_, ?_⟩
  · rw [← List.singleton_append, scan_append (scan_mark hopen word), scan_append hxs,
      scan_mark hclose word']
    rfl
  · have ho : brackets [] (marks [.mark o]) = some [c] := by fin_cases hoc <;> rfl
    have hin : brackets [c] (marks xs) = some [c] := brackets_base hb [c]
    have hc : brackets [c] (marks [.mark c]) = some [] := by fin_cases hoc <;> rfl
    simp only [marks_append, marks_flush, List.nil_append, brackets_append, ho, hin, hc,
      Option.bind_some]
  · intro d hd
    simp only [marks_append, marks_flush, List.nil_append, List.mem_append] at hd
    rcases hd with hd | hd | hd
    · obtain rfl : d = o := by simpa using hd
      exact hopen
    · exact hm d hd
    · obtain rfl : d = c := by simpa using hd
      exact hclose

theorem tame_intercalate {sep : List Char} {ts : List (List Char)} (hs : Tame sep)
    (ht : ∀ t ∈ ts, Tame t) : Tame (sep.intercalate ts) := by
  induction ts with
  | nil => exact tame_nil
  | cons t rest ih =>
    have hrest := ih fun u hu => ht u (List.mem_cons_of_mem _ hu)
    cases rest with
    | nil => simpa using ht t List.mem_cons_self
    | cons u us =>
      rw [List.intercalate_cons_cons]
      exact ((ht t List.mem_cons_self).append hs).append hrest

/-! ## Numbers -/

theorem isWordChar_of_isDigit {c : Char} (h : c.isDigit) : isWordChar c := by
  simp [isWordChar, Char.isAlphanum, h]

theorem isFiller_of_isWordChar {c : Char} (h : isWordChar c) : isFiller c := by
  simp [isFiller, h]

theorem isWordChar_natText {n : Nat} {c : Char} (h : c ∈ (Number.natText n).toList) :
    isWordChar c := by
  rw [Number.natText, String.toList_ofList] at h
  exact isWordChar_of_isDigit (Nat.isDigit_of_mem_toDigits (by decide) (by decide) h)

theorem isName_natText (n : Nat) : IsName (Number.natText n) := by
  refine ⟨fun h => ?_, fun c => isWordChar_natText⟩
  have hl := congrArg String.length h
  have hd : 0 < (Nat.toDigits 10 n).length := Nat.length_toDigits_pos
  simp only [Number.natText, String.length_ofList, String.length_empty] at hl
  omega

/-- A text of characters that neither quote nor open nor close. -/
def Fills (s : String) : Prop := ∀ c ∈ s.toList, isFiller c

theorem Fills.append {a b : String} (ha : Fills a) (hb : Fills b) : Fills (a ++ b) := by
  intro c hc
  rw [String.toList_append, List.mem_append] at hc
  exact hc.elim (ha c) (hb c)

theorem fills_fixed {cs : List Char} (h : cs.all isFiller) : Fills (String.ofList cs) := by
  simpa [Fills] using h

theorem fills_natText (n : Nat) : Fills (Number.natText n) := fun _ hc =>
  isFiller_of_isWordChar (isWordChar_natText hc)

theorem fills_intText (n : Int) : Fills (Number.intText n) := by
  unfold Number.intText
  split
  · exact .append (fills_fixed rfl) (fills_natText _)
  · exact fills_natText _

theorem fills_exponentText (e : Int) : Fills (Number.exponentText e) := by
  unfold Number.exponentText
  refine .append ?_ ?_
  · split <;> exact fills_fixed rfl
  · split
    · exact .append (fills_fixed rfl) (fills_natText _)
    · exact fills_natText _

theorem fills_digits {ds : List Char} (h : ∀ c ∈ ds, c.isDigit) : Fills (String.ofList ds) := by
  intro c hc
  rw [String.toList_ofList] at hc
  exact isFiller_of_isWordChar (isWordChar_of_isDigit (h c hc))

theorem fills_placePoint {ds : List Char} (h : ∀ c ∈ ds, c.isDigit) (n : Int) :
    Fills (Number.placePoint ds n) := by
  have zeros : ∀ k, ∀ c ∈ List.replicate k '0', c.isDigit := by
    intro k c hc
    rw [(List.mem_replicate.mp hc).2]
    rfl
  unfold Number.placePoint
  split
  · refine .append (fills_fixed rfl) (fills_digits fun c hc => ?_)
    exact (List.mem_append.mp hc).elim (zeros _ c) (h c)
  · refine .append (.append (fills_digits fun c hc => ?_) (fills_fixed rfl)) ?_
    · exact (List.mem_append.mp hc).elim (fun hc => h c (List.mem_of_mem_take hc)) (zeros _ c)
    · split
      · exact fills_fixed rfl
      · exact fills_digits fun c hc => h c (List.mem_of_mem_drop hc)

theorem fills_scientific {ds : List Char} (h : ∀ c ∈ ds, c.isDigit) (e : Int) :
    Fills (Number.scientific ds e) := by
  have single : ∀ d ∈ ds, Fills (String.singleton d) := by
    intro d hd c hc
    obtain rfl : c = d := by simpa using hc
    exact isFiller_of_isWordChar (isWordChar_of_isDigit (h c hd))
  unfold Number.scientific
  split
  · exact .append (fills_fixed rfl) (fills_exponentText e)
  · exact .append (.append (single _ List.mem_cons_self) (fills_fixed rfl)) (fills_exponentText e)
  · refine .append (.append (.append (.append (single _ List.mem_cons_self) (fills_fixed rfl)) ?_)
      (fills_fixed rfl)) (fills_exponentText e)
    exact fills_digits fun c hc => h c (List.mem_cons_of_mem _ hc)

theorem fills_floatText (x : Float) : Fills (Number.floatText x) := by
  unfold Number.floatText
  split
  · exact fills_fixed rfl
  · split <;> exact fills_fixed rfl
  · refine .append ?_ ?_
    · split
      · exact fills_fixed rfl
      · exact @fills_fixed [] rfl
    · split
      · exact fills_fixed rfl
      · have digits : ∀ n, ∀ c ∈ Nat.toDigits 10 n, c.isDigit := fun n c hc =>
          Nat.isDigit_of_mem_toDigits (by decide) (by decide) hc
        unfold Number.positiveText
        dsimp only
        split
        · exact fills_placePoint (digits _) _
        · exact fills_scientific (digits _) _

/-! ## Values -/

theorem tame_fills {s : String} (h : Fills s) : Tame s.toList := tame_filler h

theorem Tame.list {s : String} (h : Tame s.toList) : Tame ("[" ++ s ++ "]").toList := by
  simpa using h.wrap (o := '[') (c := ']') (by decide)

theorem Tame.dict {s : String} (h : Tame s.toList) : Tame ("\x7b" ++ s ++ "\x7d").toList := by
  simpa using h.wrap (o := '\x7b') (c := '\x7d') (by decide)

theorem tame_joined {texts : List String} (h : ∀ t ∈ texts, Tame t.toList) {sep : String}
    (hs : Fills sep) : Tame (sep.intercalate texts).toList := by
  rw [String.toList_intercalate]
  refine tame_intercalate (tame_fills hs) fun t ht => ?_
  obtain ⟨u, hu, rfl⟩ := List.mem_map.mp ht
  exact h u hu

mutual

theorem tame_literal : ∀ v : Value, v.isJson → Tame v.literal.toList
  | .none, _ => tame_fills (fills_fixed rfl)
  | .bool true, _ => tame_fills (fills_fixed rfl)
  | .bool false, _ => tame_fills (fills_fixed rfl)
  | .int n, _ => by
    rw [Value.literal]
    exact tame_fills (fills_intText n)
  | .float x, _ => by
    rw [Value.literal]
    exact tame_fills (fills_floatText x)
  | .str s, _ => by
    rw [Value.literal]
    exact tame_quoted s
  | .list items, h => by
    rw [Value.isJson] at h
    rw [Value.literal]
    exact (tame_joined (tame_literals items h) (fills_fixed rfl)).list
  | .dict entries, h => by
    rw [Value.isJson] at h
    rw [Value.literal]
    exact (tame_joined (tame_entryLiterals entries h) (fills_fixed rfl)).dict
  | .complex _ _, h | .bytes _, h | .tuple _, h | .set _, h | .view _ _, h | .slice _ _ _, h
  | .ellipsis, h | .object _, h => by simp [Value.isJson] at h

theorem tame_literals : ∀ items : List Value, Value.areJson items →
    ∀ t ∈ Value.literals items, Tame t.toList
  | [], _ => by simp [Value.literals]
  | v :: rest, h => by
    rw [Value.areJson, Bool.and_eq_true] at h
    rw [Value.literals]
    exact List.forall_mem_cons.mpr ⟨tame_literal v h.1, tame_literals rest h.2⟩

theorem tame_entryLiterals : ∀ entries : List (Value × Value), Value.areJsonEntries entries →
    ∀ t ∈ Value.entryLiterals entries, Tame t.toList
  | [], _ => by simp [Value.entryLiterals]
  | (k, v) :: rest, h => by
    obtain ⟨s, rfl, hv, hrest⟩ := Value.areJsonEntries_cons h
    rw [Value.entryLiterals, Value.literal]
    refine List.forall_mem_cons.mpr ⟨?_, tame_entryLiterals rest hrest⟩
    rw [String.toList_append, String.toList_append]
    exact ((tame_quoted s).append (tame_fills (fills_fixed rfl))).append (tame_literal v hv)

end

theorem tame_packWords (width allowance : Int) (current : List Char) (words : List (List Char)) :
    ∀ t ∈ packWords width allowance current words, Tame t.toList := by
  have here : ∀ current : List Char, ∀ t ∈
      (if current.isEmpty then [] else [Text.quoted (String.ofList current)]), Tame t.toList := by
    intro current t ht
    split at ht
    · simp at ht
    · rw [List.mem_singleton.mp ht]
      exact tame_quoted _
  induction words generalizing current with
  | nil => exact here current
  | cons word rest ih =>
    rw [packWords]
    generalize (if rest.isEmpty then width - allowance else width) = room
    intro t ht
    split at ht
    · exact (List.mem_append.mp ht).elim (here current t) (ih _ t)
    · exact ih _ t ht

theorem tame_packLines (width allowance : Int) (lines : List String) :
    ∀ t ∈ packLines width allowance lines, Tame t.toList := by
  induction lines with
  | nil => simp [packLines]
  | cons line rest ih =>
    rw [packLines]
    generalize (if rest.isEmpty then allowance else 0) = room
    intro t ht
    rcases List.mem_append.mp ht with ht | ht
    · split at ht
      · rw [List.mem_singleton.mp ht]
        exact tame_quoted _
      · exact tame_packWords _ _ _ _ t ht
    · exact ih t ht

theorem fills_newLine (column : Nat) : Fills (newLine column) := by
  refine .append (fills_fixed rfl) fun c hc => ?_
  rw [String.toList_ofList] at hc
  rw [(List.mem_replicate.mp hc).2]
  rfl

mutual

theorem tame_layout : ∀ (v : Value) (column allowance : Nat), v.isJson →
    Tame (layout column allowance v).toList
  | .dict entries, column, allowance, h => by
    rw [layout]
    split
    · exact tame_literal _ h
    · rw [Value.isJson] at h
      exact (tame_layoutEntries entries _ _ h).dict
  | .list items, column, allowance, h => by
    rw [layout]
    split
    · exact tame_literal _ h
    · rw [Value.isJson] at h
      exact (tame_layoutItems items _ _ h).list
  | .str s, column, allowance, _ => by
    rw [layout]
    split
    · exact tame_quoted s
    · exact tame_joined (tame_packLines _ _ _) (fills_newLine _)
  | .none, _, _, h | .bool _, _, _, h | .int _, _, _, h | .float _, _, _, h => by
    rw [layout]
    · exact tame_literal _ h
    all_goals simp
  | .complex _ _, _, _, h | .bytes _, _, _, h | .tuple _, _, _, h | .set _, _, _, h
  | .view _ _, _, _, h | .slice _ _ _, _, _, h | .ellipsis, _, _, h | .object _, _, _, h => by
    simp [Value.isJson] at h

theorem tame_layoutItems : ∀ (items : List Value) (column allowance : Nat), Value.areJson items →
    Tame (layoutItems column allowance items).toList
  | [], _, _, _ => tame_nil
  | [v], column, allowance, h => by
    rw [Value.areJson, Bool.and_eq_true] at h
    rw [layoutItems]
    exact tame_layout v _ _ h.1
  | v :: w :: rest, column, allowance, h => by
    rw [Value.areJson, Bool.and_eq_true] at h
    rw [layoutItems]
    · simp only [String.toList_append]
      exact (((tame_layout v _ _ h.1).append (tame_fills (fills_fixed rfl))).append
        (tame_fills (fills_newLine _))).append (tame_layoutItems (w :: rest) _ _ h.2)
    · simp

theorem tame_layoutEntries : ∀ (entries : List (Value × Value)) (column allowance : Nat),
    Value.areJsonEntries entries → Tame (layoutEntries column allowance entries).toList
  | [], _, _, _ => tame_nil
  | [(k, v)], column, allowance, h => by
    obtain ⟨s, rfl, hv, -⟩ := Value.areJsonEntries_cons h
    rw [layoutEntries]
    simp only [String.toList_append, Value.literal]
    exact ((tame_quoted s).append (tame_fills (fills_fixed rfl))).append (tame_layout v _ _ hv)
  | (k, v) :: e :: rest, column, allowance, h => by
    obtain ⟨s, rfl, hv, hrest⟩ := Value.areJsonEntries_cons h
    rw [layoutEntries]
    · simp only [String.toList_append, Value.literal]
      exact (((((tame_quoted s).append (tame_fills (fills_fixed rfl))).append
        (tame_layout v _ _ hv)).append (tame_fills (fills_fixed rfl))).append
        (tame_fills (fills_newLine _))).append (tame_layoutEntries (e :: rest) _ _ hrest)
    · simp

end

/-! ## Lines of literals -/

/-- A text is a line, or a line and the text below it. -/
theorem lines_induct {motive : List Char → Prop} (last : ∀ t, '\n' ∉ t → motive t)
    (line : ∀ l t, '\n' ∉ l → motive t → motive (l ++ '\n' :: t)) (t : List Char) : motive t := by
  by_cases h : '\n' ∈ t
  · obtain ⟨l, rest, he, hl⟩ := List.eq_append_cons_of_mem h
    have hlt : rest.length < t.length := by
      rw [he, List.length_append, List.length_cons]
      omega
    exact he ▸ line l rest hl (lines_induct last line rest)
  · exact last t h
termination_by t.length

theorem scan_split {m m'' : Mode} {a b : List Char} {xs : List Lexeme}
    (h : scan m (a ++ b) = some (xs, m'')) :
    ∃ ys m' zs, scan m a = some (ys, m') ∧ scan m' b = some (zs, m'') ∧ xs = ys ++ zs := by
  induction a generalizing m xs with
  | nil => exact ⟨[], m, xs, rfl, h, rfl⟩
  | cons c rest ih =>
    obtain ⟨⟨us, k⟩, hc, h⟩ := Option.bind_eq_some_iff.mp h
    obtain ⟨⟨vs, k'⟩, hr, h⟩ := Option.map_eq_some_iff.mp h
    obtain ⟨rfl, rfl⟩ : us ++ vs = xs ∧ k' = m'' := by simpa using h
    obtain ⟨ys, m', zs, hy, hz, rfl⟩ := ih hr
    exact ⟨us ++ ys, m', zs, by simp [scan, hc, hy], hz, by simp⟩

/-- A line end is read in code only, where it ends a word. -/
theorem scan_feed {m m' : Mode} {t : List Char} {xs : List Lexeme}
    (h : scan m ('\n' :: t) = some (xs, m')) :
    ∃ word ys, m = .code word ∧ scan (.code []) t = some (ys, m') ∧ xs = flush word ++ ys := by
  cases m with
  | code word =>
    have hc : (Mode.code word).step '\n' = some (flush word, .code []) := rfl
    rw [scan_cons hc] at h
    obtain ⟨⟨ys, k⟩, hs, h⟩ := Option.map_eq_some_iff.mp h
    obtain ⟨rfl, rfl⟩ : flush word ++ ys = xs ∧ k = m' := by simpa using h
    exact ⟨word, ys, rfl, hs, rfl⟩
  | inside quote read => simp [scan, Mode.step] at h
  | escaped quote read => simp [scan, Mode.step] at h

/-- The lines of a text. -/
def linesOf (t : List Char) : List String := (t.splitOn '\n').map String.ofList

/-- The statements of a script. -/
def outline? (script : String) : Option (List Statement) := statements? (linesOf script.toList)

theorem linesOf_last {t : List Char} (h : '\n' ∉ t) : linesOf t = [String.ofList t] := by
  rw [linesOf, List.splitOn_eq_singleton h]
  rfl

theorem linesOf_line {l : List Char} (h : '\n' ∉ l) (t : List Char) :
    linesOf (l ++ '\n' :: t) = String.ofList l :: linesOf t := by
  rw [linesOf, List.splitOn_append_cons_self_of_not_mem h]
  rfl

/-- A text in which a bracket is open at every line end, and none at its end, is one statement. -/
theorem exists_spans {t : List Char} {awaited : List Char} {xs : List Lexeme} {word : List Char}
    (hscan : scan (.code []) t = some (xs, .code word))
    (hb : brackets awaited (marks xs) = some [])
    (hopen : ∀ a b, t = a ++ '\n' :: b → ∀ ys word', scan (.code []) a = some (ys, .code word') →
      brackets awaited (marks ys) ≠ some []) :
    ∃ x xss next, List.Forall₂ Shows (linesOf t) (x :: xss) ∧
      x ++ xss.flatten = xs ++ flush word ∧ brackets awaited (marks x) = some next ∧
      Spans next xss := by
  induction t using lines_induct generalizing awaited xs with
  | last t ht =>
    refine ⟨xs ++ flush word, [], [], ?_, by simp, by simpa using hb, rfl⟩
    rw [linesOf_last ht]
    refine .cons ⟨?_, ?_⟩ .nil
    · rw [lexemes?, String.toList_ofList, hscan]
    · exact ⟨by simpa using ht, by simpa using return_notMem hscan⟩
  | line l t hl ih =>
    obtain ⟨ys, m, zs, hy, hz, rfl⟩ := scan_split hscan
    obtain ⟨word', zs, rfl, ht, rfl⟩ := scan_feed hz
    simp only [marks_append, marks_flush, List.nil_append, brackets_append,
      Option.bind_eq_some_iff] at hb
    obtain ⟨next, hnext, hb⟩ := hb
    have hne : next ≠ [] := by
      rintro rfl
      exact hopen l t rfl ys word' hy hnext
    obtain ⟨x, xss, next', hlines, hx, hb', hs⟩ := ih ht hb fun a b hab us w hu => by
      obtain ⟨vs, hv⟩ : ∃ vs, scan (.code []) (l ++ '\n' :: a) =
          some (ys ++ (flush word' ++ us), .code vs) := by
        have hc : (Mode.code word').step '\n' = some (flush word', .code []) := rfl
        exact ⟨w, by rw [scan_append hy, scan_cons hc, hu]; rfl⟩
      have := hopen (l ++ '\n' :: a) b (by rw [hab]; simp) _ _ hv
      simpa [brackets_append, hnext] using this
    refine ⟨ys ++ flush word', x :: xss, next, ?_, by simp [hx], by simpa using hnext,
      hne, next', hb', hs⟩
    rw [linesOf_line hl]
    refine .cons ⟨?_, ?_⟩ hlines
    · rw [lexemes?, String.toList_ofList, hy]
    · exact ⟨by simpa using hl, by simpa using return_notMem hy⟩

theorem layout_ofFields (data : Names) (h : (Value.ofFields data).isJson) :
    ∃ inner, (layout 0 0 (Value.ofFields data)).toList = '\x7b' :: (inner ++ ['\x7d']) ∧
      Tame inner := by
  rw [Value.ofFields, Value.isJson] at h
  rw [Value.ofFields, layout]
  split
  · have hs : Fills ", " := fills_fixed rfl
    rw [Value.literal, String.toList_append, String.toList_append]
    exact ⟨_, rfl, tame_joined (tame_entryLiterals _ h) hs⟩
  · rw [String.toList_append, String.toList_append]
    exact ⟨_, rfl, tame_layoutEntries _ _ _ h⟩

/-- What the literal of a configuration consists of. -/
def literalParts (data : Names) : List Lexeme :=
  (lexemes? (layout 0 0 (Value.ofFields data))).getD []

/-- A configuration's literal holds no mark but those of literals, and closes what it opens. -/
theorem literalParts_tame {data : Names} (h : (Value.ofFields data).isJson) :
    brackets [] (marks (literalParts data)) = some [] ∧
      ∀ c ∈ marks (literalParts data), c ∈ literalMarks := by
  obtain ⟨xs, word, hxs, hb, hm⟩ := tame_layout (Value.ofFields data) 0 0 h []
  have hp : literalParts data = xs ++ flush word := by
    rw [literalParts, lexemes?, hxs]
    rfl
  rw [hp]
  exact ⟨by simpa using hb, by simpa using hm⟩

theorem append_eq_cut_left {p x a b : List Char} {c : Char} (h : p ++ x = a ++ c :: b)
    (hc : c ∉ p) : ∃ a', a = p ++ a' ∧ x = a' ++ c :: b := by
  rcases List.append_eq_append_iff.mp h with ⟨a', ha, hx⟩ | ⟨p', hp, hx⟩
  · exact ⟨a', ha, hx⟩
  · cases p' with
    | nil => exact ⟨[], by simpa using hp.symm, by simpa using hx.symm⟩
    | cons d rest =>
      obtain ⟨rfl, -⟩ := List.cons.inj hx
      exact absurd (by simp [hp]) hc

theorem append_eq_cut_right {x q a b : List Char} {c : Char} (h : x ++ q = a ++ c :: b)
    (hc : c ∉ q) : ∃ b', x = a ++ c :: b' := by
  rcases List.append_eq_append_iff.mp h with ⟨a', ha, hq⟩ | ⟨b', hx, hq⟩
  · exact absurd (by simp [hq]) hc
  · cases b' with
    | nil =>
      obtain rfl : c :: b = q := hq
      exact absurd List.mem_cons_self hc
    | cons d rest =>
      obtain ⟨rfl, -⟩ := List.cons.inj hq
      exact ⟨rest, hx⟩

/-- At every line end of a tame text between braces the first brace is open. -/
theorem Tame.open_at_feed {inner : List Char} (ht : Tame inner) {before after : List Char}
    {xs : List Lexeme} {base : List Char} (hbefore : scan (.code []) before = some (xs, .code []))
    (hbase : brackets [] (marks xs) = some base) (hnb : '\n' ∉ before) (hna : '\n' ∉ after)
    {a b : List Char} (h : before ++ '\x7b' :: (inner ++ '\x7d' :: after) = a ++ '\n' :: b)
    {ys : List Lexeme} {word : List Char} (ha : scan (.code []) a = some (ys, .code word)) :
    brackets [] (marks ys) ≠ some [] := by
  obtain ⟨a', rfl, hx⟩ := append_eq_cut_left (p := before ++ ['\x7b']) (by simpa using h)
    (by simpa using hnb)
  obtain ⟨b', rfl⟩ := append_eq_cut_right hx (by simpa using hna)
  obtain ⟨zs, word', hz, hb, -⟩ := ht []
  obtain ⟨us, m, vs, hu, hv, rfl⟩ := scan_split hz
  obtain ⟨w, vs, rfl, -, rfl⟩ := scan_feed hv
  rw [marks_append, brackets_append, Option.bind_eq_some_iff] at hb
  obtain ⟨awaited, hawaited, -⟩ := hb
  have hys : ys = xs ++ (.mark '\x7b' :: us) := by
    rw [List.append_assoc, scan_append hbefore, scan_append (scan_mark (by decide) []), hu] at ha
    simpa [eq_comm] using (Prod.ext_iff.mp (Option.some.inj ha)).1
  have hopen : brackets base ('\x7b' :: marks us) = some (awaited ++ '\x7d' :: base) :=
    brackets_base hawaited ('\x7d' :: base)
  simp [hys, brackets_append, hbase, hopen]

/-- Code around the literal of a configuration is one statement, however the literal is cut into
lines. -/
theorem literal_spans {data : Names} (hj : (Value.ofFields data).isJson) {before after : String}
    {xs ys : List Lexeme} {base : List Char} (hbefore : Reads (.code []) before xs (.code []))
    (hbase : brackets [] (marks xs) = some base) (hafter : Reads (.code []) after ys (.code []))
    (hclose : brackets base (marks ys) = some []) :
    ∃ x xss next,
      List.Forall₂ Shows
        (linesOf (before ++ layout 0 0 (Value.ofFields data) ++ after).toList) (x :: xss) ∧
      x ++ xss.flatten = xs ++ literalParts data ++ ys ∧ brackets [] (marks x) = some next ∧
      Spans next xss := by
  obtain ⟨inner, he, ht⟩ := layout_ofFields data hj
  obtain ⟨zs, word, hz, -, -⟩ := ht []
  have hlit : scan (.code []) (layout 0 0 (Value.ofFields data)).toList =
      some (.mark '\x7b' :: (zs ++ (flush word ++ [.mark '\x7d'])), .code []) := by
    rw [he, ← List.singleton_append, scan_append (scan_mark (by decide) []), scan_append hz,
      scan_mark (by decide)]
    rfl
  have hparts : literalParts data = .mark '\x7b' :: (zs ++ (flush word ++ [.mark '\x7d'])) := by
    rw [literalParts, lexemes?, hlit]
    simp
  have hwhole : scan (.code []) (before ++ layout 0 0 (Value.ofFields data) ++ after).toList =
      some (xs ++ (literalParts data ++ ys), .code []) := by
    rw [String.toList_append, String.toList_append, List.append_assoc, scan_append hbefore.scan_eq,
      scan_append hlit, hafter.scan_eq, hparts]
    rfl
  have hbrackets : brackets [] (marks (xs ++ (literalParts data ++ ys))) = some [] := by
    have hl : brackets base (marks (literalParts data)) = some base :=
      brackets_base (literalParts_tame hj).1 base
    simp only [marks_append, brackets_append, hbase, Option.bind_some, hl, hclose]
  obtain ⟨x, xss, next, hl, hx, hb, hs⟩ := exists_spans hwhole hbrackets fun a b hab us w hu => by
    rw [String.toList_append, String.toList_append, he] at hab
    exact ht.open_at_feed hbefore.scan_eq hbase hbefore.noFeed hafter.noFeed (by simpa using hab) hu
  exact ⟨x, xss, next, hl, by simpa using hx, hb, hs⟩

end Outline

end Workflow
