/-
Literals and the values they denote.

A text denotes a value if it is cut into tokens that are read as an expression
with that value (`DenotesValue`). Lists and dictionaries of texts that denote values
denote the list or dictionary of the values, with any break after a comma
(`DenotesItems.list`, `DenotesEntries.dict`). So the literal of plain data denotes the data,
laid out over lines and moved to any margin (`denotes_layout`), as long as no more
brackets are open than a reader takes.
-/
import Workflow.Formula.Evaluate
import Workflow.Proofs.Literals
import Workflow.Proofs.Parsing

namespace Workflow

/-! ## Plain data -/

namespace Value

mutual

/-- Whether a value is plain data: nothing, flags, integers and texts, lists of these, and
dictionaries with distinct texts for keys. -/
def isPlain : Value → Bool
  | .none | .bool _ | .int _ | .str _ => true
  | .list items => arePlain items
  | .dict entries => arePlainEntries entries
  | _ => false
termination_by structural v => v

/-- Whether all the values are plain data. -/
def arePlain : List Value → Bool
  | [] => true
  | v :: rest => isPlain v && arePlain rest
termination_by structural vs => vs

/-- Whether all the entries are plain data under distinct texts. -/
def arePlainEntries : List (Value × Value) → Bool
  | [] => true
  | (.str k, v) :: rest => isPlain v && (field? k rest).isNone && arePlainEntries rest
  | _ :: _ => false
termination_by structural es => es

end

mutual

/-- How deep lists and dictionaries stand in each other. -/
def nesting : Value → Nat
  | .list items => nestingAll items + 1
  | .dict entries => nestingEntries entries + 1
  | _ => 0
termination_by structural v => v

/-- The deepest nesting of the values. -/
def nestingAll : List Value → Nat
  | [] => 0
  | v :: rest => max (nesting v) (nestingAll rest)
termination_by structural vs => vs

/-- The deepest nesting of the values of the entries. -/
def nestingEntries : List (Value × Value) → Nat
  | [] => 0
  | (_, v) :: rest => max (nesting v) (nestingEntries rest)
termination_by structural es => es

end

/-- Whether a value is a list or a dictionary. -/
def isContainer : Value → Bool
  | .list _ | .dict _ => true
  | _ => false

theorem arePlainEntries_cons {k v : Value} {rest : List (Value × Value)}
    (h : arePlainEntries ((k, v) :: rest)) :
    ∃ s, k = .str s ∧ v.isPlain ∧ field? s rest = Option.none ∧ arePlainEntries rest := by
  cases k <;> simp [arePlainEntries] at h
  exact ⟨_, rfl, h.1.1, h.1.2, h.2⟩

theorem same_str (a b : String) : same (.str a) (.str b) = decide (a = b) := by
  simp only [same, equal, atomEqual, numeric?, bothNan, Bool.or_false]
  rfl

theorem insertEntry_new {key v : Value} {entries : List (Value × Value)}
    (h : ∀ e ∈ entries, same key e.1 = false) :
    insertEntry key v entries = entries ++ [(key, v)] := by
  induction entries with
  | nil => rfl
  | cons e rest ih =>
    obtain ⟨he, hrest⟩ := List.forall_mem_cons.mp h
    rw [insertEntry, he, if_neg (by decide), ih hrest]
    rfl

theorem same_of_field?_none {s : String} {entries : List (Value × Value)}
    (h : arePlainEntries entries) (hs : field? s entries = Option.none) :
    ∀ e ∈ entries, same e.1 (.str s) = false := by
  induction entries with
  | nil => simp
  | cons e rest ih =>
    obtain ⟨k, v⟩ := e
    obtain ⟨t, rfl, -, -, hrest⟩ := arePlainEntries_cons h
    rw [field?] at hs
    split at hs
    · cases hs
    · next ht =>
      refine List.forall_mem_cons.mpr ⟨?_, ih hrest hs⟩
      rw [same_str, decide_eq_false_iff_not]
      exact ht

/-- Entries under distinct texts are a dictionary as they are. -/
theorem dictOf_plain {entries : List (Value × Value)} (h : arePlainEntries entries) :
    dictOf entries = .dict entries := by
  have hfold : ∀ done : List (Value × Value), (∀ e ∈ done, ∀ f ∈ entries, same f.1 e.1 = false) →
      entries.foldl (fun acc e => insertEntry e.1 e.2 acc) done = done ++ entries := by
    induction entries with
    | nil => simp
    | cons e rest ih =>
      intro done hdone
      obtain ⟨k, v⟩ := e
      obtain ⟨s, rfl, -, hs, hrest⟩ := arePlainEntries_cons h
      have hnew := insertEntry_new (v := v) fun e he => hdone e he _ List.mem_cons_self
      rw [List.foldl_cons, hnew, ih hrest, List.append_assoc]
      · rfl
      · intro e he f hf
        rcases List.mem_append.mp he with he | he
        · exact hdone e he f (List.mem_cons_of_mem _ hf)
        · rw [List.mem_singleton.mp he]
          exact same_of_field?_none hrest hs f hf
  exact congrArg Value.dict (hfold [] (by simp))

end Value

namespace Source

open Text (quoted)

/-! ## Spelled texts -/

/-- Whether every line after the first starts with a blank. -/
def indents : List Char → Bool
  | [] => true
  | c :: rest => (c ≠ '\n' || rest.head? = some ' ') && indents rest

/-- A text can stand in a script: it has no returns and no zeros, and its further lines are
indented. -/
structure Stands (t : List Char) : Prop where
  clean : ∀ c ∈ t, c ≠ '\r' ∧ c ≠ Char.ofNat 0
  indented : indents t

theorem indents_append {a b : List Char} (ha : indents a) (hb : indents b) : indents (a ++ b) := by
  induction a with
  | nil => exact hb
  | cons c rest ih =>
    simp only [indents, Bool.and_eq_true, Bool.or_eq_true, decide_eq_true_eq] at ha
    simp only [List.cons_append, indents, Bool.and_eq_true, Bool.or_eq_true, decide_eq_true_eq]
    refine ⟨ha.1.imp_right fun hhead => ?_, ih ha.2⟩
    rw [List.head?_append, hhead]
    rfl

theorem indents_line {t : List Char} (h : '\n' ∉ t) : indents t := by
  induction t with
  | nil => rfl
  | cons c rest ih =>
    obtain ⟨hc, hrest⟩ := not_or.mp (mt List.mem_cons.mpr h)
    simp [indents, ih hrest, Ne.symm hc]

namespace Stands

theorem append {a b : List Char} (ha : Stands a) (hb : Stands b) : Stands (a ++ b) where
  clean := fun c hc => (List.mem_append.mp hc).elim (ha.clean c) (hb.clean c)
  indented := indents_append ha.indented hb.indented

theorem line {t : List Char} (h : ∀ c ∈ t, c ≠ '\n' ∧ c ≠ '\r' ∧ c ≠ Char.ofNat 0) : Stands t where
  clean := fun c hc => (h c hc).2
  indented := indents_line fun hc => (h _ hc).1 rfl

/-- A text of letters, digits and signs. -/
theorem ascii {t : List Char} (h : ∀ c ∈ t, ' ' ≤ c) : Stands t := by
  refine line fun c hc => ⟨?_, ?_, ?_⟩ <;> rintro rfl <;> exact absurd (h _ hc) (by decide)

theorem fixed {t : List Char} (h : t.all (' ' ≤ ·)) : Stands t :=
  ascii fun c hc => by simpa using List.all_eq_true.mp h c hc

end Stands

theorem stands_quoted (s : String) : Stands (quoted s).toList := by
  have hq := Outline.quoteFor_eq s.toList
  have hquote : ∀ c, c = Text.quoteFor s.toList → c ≠ '\r' ∧ c ≠ Char.ofNat 0 := by
    rintro c rfl
    rcases hq with h | h <;> rw [h] <;> decide
  refine ⟨fun c hc => ?_, indents_line (Outline.feed_notMem_quoted s)⟩
  rw [toList_quoted, List.cons_append, List.mem_cons, List.mem_append, List.mem_singleton,
    quotedBody, List.mem_flatMap] at hc
  rcases hc with hc | ⟨d, -, hc⟩ | hc
  · exact hquote c hc
  · rcases quoteChar_cases hq d with
      ⟨e, -, hr, hz, he⟩ | ⟨-, -, -, hr, hz, he⟩ | ⟨e, width, hm, -, he⟩
    · rw [he] at hc
      rcases List.mem_pair.mp hc with rfl | rfl
      · decide
      · exact ⟨hr, hz⟩
    · rw [he, List.mem_singleton] at hc
      exact hc ▸ ⟨hr, hz⟩
    · rw [he, List.mem_cons, List.mem_cons] at hc
      rcases hc with rfl | rfl | hc
      · decide
      · fin_cases hm <;> decide
      · have hhex := isHexDigit_hexPadded hc
        constructor <;> rintro rfl <;> exact absurd hhex (by decide)
  · exact hquote c hc

/-- A text is cut into tokens wherever it stands, if there is room for its brackets: inside
brackets, or anywhere if it is free. -/
structure Spelled (free : Bool) (depth : Nat) (t : List Char) (ts : List Token) : Prop where
  cuts : ∀ l : Layout, free ∨ l.brackets ≠ [] → l.brackets.length + depth ≤ Layout.maxBrackets →
    Cuts endsToken l l t ts
  starts : ∃ c cs, t = c :: cs ∧ startsToken c
  length_le : ts.length ≤ t.length
  stands : Stands t

/-- What may stand after a comma: a blank, or a line end and some blanks. -/
def IsBreak (g : List Char) : Prop := g = [' '] ∨ ∃ n, g = '\n' :: List.replicate (n + 1) ' '

namespace IsBreak

variable {g : List Char}

theorem ne_nil (h : IsBreak g) : g ≠ [] := by
  rcases h with rfl | ⟨n, rfl⟩ <;> simp

theorem cuts (h : IsBreak g) {l : Layout} (hl : l.brackets ≠ []) : Cuts startsToken l l g [] := by
  rcases h with rfl | ⟨n, rfl⟩
  · exact (Cuts.blank l).mono fun _ _ => rfl
  · exact .lineEnd hl _

theorem endsToken (h : IsBreak g) : ∀ c ∈ g.head?, endsToken c := by
  rcases h with rfl | ⟨n, rfl⟩ <;> simp <;> decide

theorem stands (h : IsBreak g) : Stands g := by
  rcases h with rfl | ⟨n, rfl⟩
  · exact .fixed rfl
  · refine ⟨fun c hc => ?_, ?_⟩
    · rcases List.mem_cons.mp hc with rfl | hc
      · decide
      · rw [(List.mem_replicate.mp hc).2]
        decide
    · have hblank : '\n' ∉ List.replicate n ' ' := by simp
      simp [indents, indents_line hblank, List.replicate_succ]

end IsBreak

namespace Spelled

variable {free free' : Bool} {d d' : Nat} {t t' g : List Char} {ts ts' : List Token}

theorem inside (h : Spelled free d t ts) : Spelled false d t ts :=
  { h with cuts := fun l hl => h.cuts l (.inr (hl.resolve_left (by decide))) }

theorem head_starts (h : Spelled free d t ts) : ∀ c ∈ t.head?, startsToken c := by
  obtain ⟨c, cs, rfl, hc⟩ := h.starts
  simpa using hc

theorem ne_nil (h : Spelled free d t ts) : t ≠ [] := by
  obtain ⟨c, cs, rfl, -⟩ := h.starts
  simp

/-- Two texts with a break between them. -/
theorem broken (h : Spelled free d t ts) (hg : IsBreak g) (h' : Spelled free' d' t' ts') :
    Spelled false (max d d') (t ++ (g ++ t')) (ts ++ ts') where
  cuts l hl hd := by
    have hl := hl.resolve_left (by decide)
    have hrest : Cuts Source.endsToken l l (g ++ t') ([] ++ ts') :=
      (hg.cuts hl).append (h'.cuts l (.inr hl) (by omega)) h'.ne_nil h'.head_starts
    refine (h.cuts l (.inr hl) (by omega)).append hrest (by simp [hg.ne_nil]) ?_
    rw [List.head?_append_of_ne_nil _ hg.ne_nil]
    exact hg.endsToken
  starts := by
    obtain ⟨c, cs, rfl, hc⟩ := h.starts
    exact ⟨c, _, rfl, hc⟩
  length_le := by
    have := h.length_le
    have := h'.length_le
    simp only [List.length_append]
    omega
  stands := h.stands.append (hg.stands.append h'.stands)

/-- A comma after a text. -/
theorem comma (h : Spelled free d t ts) : Spelled free d (t ++ [',']) (ts ++ [.sign ","]) where
  cuts l hl hd :=
    (h.cuts l hl hd).append ((Cuts.comma l).mono fun _ _ => rfl) (by simp) (by simp; decide)
  starts := by
    obtain ⟨c, cs, rfl, hc⟩ := h.starts
    exact ⟨c, _, rfl, hc⟩
  length_le := by simpa using h.length_le
  stands := h.stands.append (.fixed rfl)

/-- A text in brackets. -/
theorem bracketed {o c : Char} (hoc : closer? o = some c) (hc : c = ')' ∨ c = ']' ∨ c = '\x7d')
    (h : Spelled free d t ts) :
    Spelled true (d + 1) (o :: t ++ [c])
      (.sign (String.singleton o) :: ts ++ [.sign (String.singleton c)]) := by
  have ho : o = '(' ∨ o = '[' ∨ o = '\x7b' := by
    unfold closer? at hoc
    split at hoc <;> simp_all
  refine ⟨fun l _ hd => ?_, ?_, ?_, ?_⟩
  · have hopen := Cuts.opening hoc (l := l) (by omega)
    have hin := h.cuts { l with brackets := c :: l.brackets } (.inr (by simp)) (by simp; omega)
    have hends : Source.endsToken c := by rcases hc with rfl | rfl | rfl <;> decide
    have hclose : Cuts Source.endsToken { l with brackets := c :: l.brackets } l [c]
      [.sign (String.singleton c)] := (Cuts.closing hc).mono fun _ _ => rfl
    exact hopen.append (hin.append hclose (by simp) (by simpa using hends)) (by simp) (by simp)
  · exact ⟨o, _, rfl, by rcases ho with rfl | rfl | rfl <;> decide⟩
  · simpa using h.length_le
  · refine (Stands.append (a := [o]) (.fixed ?_) h.stands).append (.fixed ?_)
    · rcases ho with rfl | rfl | rfl <;> rfl
    · rcases hc with rfl | rfl | rfl <;> rfl

/-- An entry of a dictionary. -/
theorem entry (k : String) (h : Spelled free d t ts) :
    Spelled false d ((quoted k).toList ++ ':' :: ' ' :: t) (textToken k :: .sign ":" :: ts) where
  cuts l hl hd := by
    have hl := hl.resolve_left (by decide)
    have hvalue : Cuts Source.endsToken l l ([' '] ++ t) ([] ++ ts) :=
      (Cuts.blank l).append (h.cuts l (.inr hl) hd) h.ne_nil (by simp)
    have hcolon : Cuts Source.endsToken l l ([':'] ++ ([' '] ++ t)) ([.sign ":"] ++ ([] ++ ts)) :=
      (Cuts.colonOrEquals l (.inl rfl)).append hvalue (by simp) (by simp)
    exact (Cuts.quoted l k).append hcolon (by simp) (by simp; decide)
  starts := by
    rw [toList_quoted]
    refine ⟨_, _, rfl, ?_⟩
    rcases Outline.quoteFor_eq k.toList with hq | hq <;> rw [hq] <;> decide
  length_le := by
    have := h.length_le
    simp only [toList_quoted, List.length_append, List.length_cons]
    omega
  stands := (stands_quoted k).append (Stands.append (a := [':', ' ']) (.fixed rfl) h.stands)

theorem quoted (s : String) : Spelled true 0 (Text.quoted s).toList [textToken s] where
  cuts l _ _ := Cuts.quoted l s
  starts := by
    rw [toList_quoted]
    refine ⟨_, _, rfl, ?_⟩
    rcases Outline.quoteFor_eq s.toList with hq | hq <;> rw [hq] <;> decide
  length_le := by simp [toList_quoted]
  stands := stands_quoted s

/-- Quoted texts with breaks between them. -/
theorem pieces (hg : IsBreak g) {ss : List String} (hss : ss ≠ []) :
    Spelled false 0 (g.intercalate (ss.map fun s => (Text.quoted s).toList))
      (ss.map textToken) := by
  induction ss with
  | nil => exact absurd rfl hss
  | cons s rest ih =>
    cases rest with
    | nil => simpa using (quoted s).inside
    | cons u us =>
      simp only [List.map_cons, List.intercalate_cons_cons] at ih ⊢
      rw [List.append_assoc]
      exact (quoted s).broken hg (ih (by simp))

theorem word {c : Char} {cs : List Char} {t : Token} (hc : c.isAlpha || c = '_')
    (hword : ∀ d ∈ c :: cs, isNameChar d ∧ ' ' ≤ d) (ht : wordToken (c :: cs) = some t) :
    Spelled true 0 (c :: cs) [t] where
  cuts l _ _ := by
    refine (Cuts.word l hc (fun d hd => (hword d hd).1) ht).mono fun d hd => ?_
    obtain ⟨hn, -, hq, hq'⟩ := endsToken_iff.mp hd
    simp [endsWord, hn, hq, hq']
  starts := by
    refine ⟨c, cs, rfl, decide_eq_true fun hm => ?_⟩
    fin_cases hm <;> exact absurd hc (by decide)
  length_le := by simp
  stands := .ascii fun d hd => (hword d hd).2

theorem number {n : Nat} (hn : Number.isOverlong n = false) :
    Spelled true 0 (Number.natText n).toList [.number (.int n)] := by
  have htext : (Number.natText n).toList = Nat.toDigits 10 n := String.toList_ofList
  have hpos : 0 < (Nat.toDigits 10 n).length := Nat.length_toDigits_pos
  have hdigit : ∀ c ∈ Nat.toDigits 10 n, c.isDigit := fun c hc =>
    Nat.isDigit_of_mem_toDigits (by decide) (by decide) hc
  refine ⟨fun l _ _ => .number l hn, ?_, by rw [htext]; exact hpos, ?_⟩
  · obtain ⟨c, cs, hcs⟩ := List.exists_cons_of_ne_nil (List.length_pos_iff.mp hpos)
    have hc := hdigit c (hcs ▸ List.mem_cons_self)
    refine ⟨c, cs, htext.trans hcs, decide_eq_true fun hm => ?_⟩
    fin_cases hm <;> exact absurd hc (by decide)
  · refine .line fun c hc => ?_
    have hc := hdigit c (htext ▸ hc)
    refine ⟨?_, ?_, ?_⟩ <;> rintro rfl <;> exact absurd hc (by decide)

theorem negative {n : Nat} (hn : Number.isOverlong n = false) :
    Spelled true 0 ('-' :: (Number.natText n).toList) [.sign "-", .number (.int n)] where
  cuts l _ hd := by
    have hnumber := number hn
    have hdigit : ∀ c ∈ (Number.natText n).toList.head?, c.isDigit := by
      intro c hc
      rw [Number.natText, String.toList_ofList] at hc
      exact Nat.isDigit_of_mem_toDigits (by decide) (by decide) (List.mem_of_mem_head? hc)
    exact (Cuts.minus l).append (hnumber.cuts l (.inl rfl) hd) hnumber.ne_nil hdigit
  starts := ⟨_, _, rfl, by decide⟩
  length_le := by
    have := (number hn).length_le
    simpa using this
  stands := .append (a := ['-']) (.fixed rfl) (number hn).stands

end Spelled

/-! ## Denoting texts -/

/-- A text is cut into the tokens of an expression whose value, whatever names stand for, is the
one given. -/
def DenotesValue (v : Value) (t : List Char) : Prop :=
  ∃ ts e, Spelled v.isContainer v.nesting t ts ∧ Parses ts e ∧ ∀ names, Formula.eval names e = .ok v

/-- A text is cut into the tokens of items with these values. -/
def DenotesItems (vs : List Value) (t : List Char) : Prop :=
  ∃ chunks : List (List Token × Expr), Spelled false (Value.nestingAll vs) t (listed chunks) ∧
    chunks ≠ [] ∧ (∀ c ∈ chunks, Parses c.1 c.2) ∧
    ∀ names, Formula.evalAll names (chunks.map (·.2)) = .ok vs

/-- A text is cut into the tokens of entries with these keys and values. -/
def DenotesEntries (es : List (Value × Value)) (t : List Char) : Prop :=
  ∃ chunks : List (List Token × DictItem),
    Spelled false (Value.nestingEntries es) t (listed chunks) ∧ chunks ≠ [] ∧
    (∀ c ∈ chunks, ∃ k ts e, Parses ts e ∧ c = entryChunk k (ts, e)) ∧
    ∀ names, Formula.evalEntries names (chunks.map (·.2)) = .ok es

section Items

variable {v : Value} {vs : List Value} {es : List (Value × Value)} {t t' g : List Char}

theorem DenotesValue.item (h : DenotesValue v t) : DenotesItems [v] t := by
  obtain ⟨ts, e, hs, hp, he⟩ := h
  refine ⟨[(ts, e)], ?_, by simp, by simpa using hp, fun names => ?_⟩
  · simpa [listed, Value.nestingAll] using hs.inside
  · simp only [List.map_cons, List.map_nil, Formula.evalAll, he]
    rfl

theorem DenotesItems.cons (h : DenotesValue v t) (hg : IsBreak g) (h' : DenotesItems vs t') :
    DenotesItems (v :: vs) (t ++ [','] ++ (g ++ t')) := by
  obtain ⟨ts, e, hs, hp, he⟩ := h
  obtain ⟨chunks, hs', hne, hp', he'⟩ := h'
  refine ⟨(ts, e) :: chunks, ?_, by simp, List.forall_mem_cons.mpr ⟨hp, hp'⟩, fun names => ?_⟩
  · have := hs.comma.broken hg hs'
    rw [listed_cons _ hne]
    simpa [Value.nestingAll] using this
  · rw [List.map_cons, Formula.evalAll, he, he']
    rfl

theorem DenotesItems.list (h : DenotesItems vs t) :
    DenotesValue (.list vs) ('[' :: t ++ [']']) := by
  obtain ⟨chunks, hs, hne, hp, he⟩ := h
  refine ⟨_, _, hs.bracketed rfl (by decide), .list hne hp, fun names => ?_⟩
  rw [Formula.eval, he]
  rfl

theorem DenotesValue.emptyList : DenotesValue (.list []) ['[', ']'] := by
  refine ⟨[.sign "[", .sign "]"], _, ⟨fun l _ hd => ?_, ⟨_, _, rfl, by decide⟩, le_rfl, .fixed rfl⟩,
    .emptyList, fun names => rfl⟩
  have hd : l.brackets.length + 1 ≤ Layout.maxBrackets := hd
  have hclose : Cuts endsToken { l with brackets := ']' :: l.brackets } l [']'] [.sign "]"] :=
    (Cuts.closing (by decide)).mono fun _ _ => rfl
  exact (Cuts.opening (c := '[') rfl (by omega)).append hclose (by simp) (by simp)

theorem DenotesValue.entry (k : String) (h : DenotesValue v t) :
    DenotesEntries [(.str k, v)] ((quoted k).toList ++ ':' :: ' ' :: t) := by
  obtain ⟨ts, e, hs, hp, he⟩ := h
  refine ⟨[entryChunk k (ts, e)], ?_, by simp, ?_, fun names => ?_⟩
  · simpa [listed, entryChunk, Value.nestingEntries] using hs.entry k
  · intro c hc
    exact ⟨k, ts, e, hp, List.mem_singleton.mp hc⟩
  · simp only [List.map_cons, List.map_nil, entryChunk, Formula.evalEntries, he]
    rfl

theorem DenotesEntries.cons {k : String} (h : DenotesValue v t) (hg : IsBreak g)
    (h' : DenotesEntries es t') :
    DenotesEntries ((.str k, v) :: es)
      ((quoted k).toList ++ ':' :: ' ' :: t ++ [','] ++ (g ++ t')) := by
  obtain ⟨ts, e, hs, hp, he⟩ := h
  obtain ⟨chunks, hs', hne, hp', he'⟩ := h'
  refine ⟨entryChunk k (ts, e) :: chunks, ?_, by simp,
    List.forall_mem_cons.mpr ⟨⟨k, ts, e, hp, rfl⟩, hp'⟩, fun names => ?_⟩
  · have := (hs.entry k).comma.broken hg hs'
    rw [listed_cons _ hne]
    simpa [entryChunk, Value.nestingEntries] using this
  · rw [List.map_cons, entryChunk, Formula.evalEntries, he, he']
    rfl

theorem DenotesEntries.dict (h : DenotesEntries es t) (hes : Value.arePlainEntries es) :
    DenotesValue (.dict es) ('\x7b' :: t ++ ['\x7d']) := by
  obtain ⟨chunks, hs, hne, hp, he⟩ := h
  refine ⟨_, _, hs.bracketed rfl (by decide), .dict hne hp, fun names => ?_⟩
  have hspread : Formula.hasSpread (chunks.map (·.2)) = false := by
    clear hs hne he
    induction chunks with
    | nil => rfl
    | cons c rest ih =>
      obtain ⟨⟨k, ts, e, -, rfl⟩, hrest⟩ := List.forall_mem_cons.mp hp
      exact ih hrest
  rw [Formula.eval, hspread, if_neg (by decide), he]
  exact congrArg Except.ok (Value.dictOf_plain hes)

theorem DenotesValue.emptyDict : DenotesValue (.dict []) ['\x7b', '\x7d'] := by
  refine ⟨[.sign "\x7b", .sign "\x7d"], _,
    ⟨fun l _ hd => ?_, ⟨_, _, rfl, by decide⟩, le_rfl, .fixed rfl⟩, .emptyDict, fun names => rfl⟩
  have hd : l.brackets.length + 1 ≤ Layout.maxBrackets := hd
  have hclose : Cuts endsToken { l with brackets := '\x7d' :: l.brackets } l ['\x7d']
      [.sign "\x7d"] := (Cuts.closing (by decide)).mono fun _ _ => rfl
  exact (Cuts.opening (c := '\x7b') rfl (by omega)).append hclose (by simp) (by simp)

end Items

/-! ## Atoms -/

section Atoms

/-- A value that is no list and no dictionary. -/
theorem DenotesValue.of_atom {v : Value} (hv : v.isContainer = false) (hn : v.nesting = 0)
    {free : Bool} {t : List Char} {ts : List Token} {e : Expr} (hs : Spelled free 0 t ts)
    (hp : Parses ts e) (he : ∀ names, Formula.eval names e = .ok v) : DenotesValue v t :=
  ⟨ts, e, by rw [hv, hn]; exact hs.inside, hp, he⟩

theorem DenotesValue.none : DenotesValue .none "None".toList := by
  have hword : Spelled true 0 ['N', 'o', 'n', 'e'] [.keyword "None"] :=
    .word rfl (by simp [isNameChar]) rfl
  exact .of_atom rfl rfl hword .none fun _ => rfl

theorem DenotesValue.bool (b : Bool) :
    DenotesValue (.bool b) (if b then "True" else "False").toList := by
  have hword : Spelled true 0 (if b then "True" else "False").toList
      [.keyword (if b then "True" else "False")] := by
    cases b
    · have hfalse : Spelled true 0 ['F', 'a', 'l', 's', 'e'] [.keyword "False"] :=
        .word rfl (by simp [isNameChar]) rfl
      exact hfalse
    · have htrue : Spelled true 0 ['T', 'r', 'u', 'e'] [.keyword "True"] :=
        .word rfl (by simp [isNameChar]) rfl
      exact htrue
  exact .of_atom rfl rfl hword (.bool b) fun _ => rfl

theorem DenotesValue.int {n : Int} (hn : Number.isOverlong n = false) :
    DenotesValue (.int n) (Number.intText n).toList := by
  have hnat : Number.isOverlong (n.natAbs : Int) = false := by
    rwa [Number.isOverlong, Int.natAbs_natCast]
  unfold Number.intText
  split
  · next hneg =>
    rw [String.toList_append]
    refine .of_atom rfl rfl (.negative hnat) (.negative _) fun _ => ?_
    refine congrArg (fun m => Except.ok (Value.int m)) ?_
    omega
  · next hpos =>
    refine .of_atom rfl rfl (.number hnat) (.number _) fun _ => ?_
    refine congrArg (fun m => Except.ok (Value.int m)) ?_
    omega

theorem DenotesValue.pieces {s : String} {ss : List String} (hss : ss ≠ [])
    (hs : s.toList = (ss.map (·.toList)).flatten) {g : List Char} (hg : IsBreak g) :
    DenotesValue (.str s) (g.intercalate (ss.map fun s => (quoted s).toList)) :=
  .of_atom rfl rfl (.pieces hg hss) (.text hss hs) fun _ => rfl

theorem DenotesValue.quoted (s : String) : DenotesValue (.str s) (Text.quoted s).toList := by
  have hone : DenotesValue (.str s) ([' '].intercalate ([s].map fun s => (Text.quoted s).toList)) :=
    .pieces (by simp) (by simp) (.inl rfl)
  simpa using hone

end Atoms

/-! ## Layouts -/

section Layouts

open Workflow.Handler

/-- Moves the further lines of a text to the right. -/
def reindent (m : Nat) (t : List Char) : List Char :=
  t.flatMap fun c => if c = '\n' then '\n' :: List.replicate m ' ' else [c]

@[simp] theorem reindent_nil (m : Nat) : reindent m [] = [] := rfl

@[simp] theorem reindent_append (m : Nat) (a b : List Char) :
    reindent m (a ++ b) = reindent m a ++ reindent m b := List.flatMap_append

@[simp] theorem reindent_zero (t : List Char) : reindent 0 t = t := by
  induction t with
  | nil => rfl
  | cons c rest ih =>
    rw [reindent, List.flatMap_cons, ← reindent, ih]
    split
    · next hc => simp [hc]
    · rfl

@[simp] theorem reindent_cons {c : Char} (h : c ≠ '\n') (m : Nat) (t : List Char) :
    reindent m (c :: t) = c :: reindent m t := by
  simp [reindent, h]

theorem reindent_line {t : List Char} (h : '\n' ∉ t) (m : Nat) : reindent m t = t := by
  induction t with
  | nil => rfl
  | cons c rest ih =>
    obtain ⟨hc, hrest⟩ := not_or.mp (mt List.mem_cons.mpr h)
    rw [reindent_cons (Ne.symm hc), ih hrest]

theorem reindent_newLine (m column : Nat) :
    reindent m (newLine column).toList = '\n' :: List.replicate (m + column) ' ' := by
  have hblank : '\n' ∉ List.replicate column ' ' := by simp
  have htext : (newLine column).toList = ['\n'] ++ List.replicate column ' ' := by
    simp [newLine]
  have hfeed : reindent m ['\n'] = '\n' :: List.replicate m ' ' := by simp [reindent]
  rw [htext, reindent_append, reindent_line hblank, hfeed, List.cons_append,
    List.replicate_append_replicate]

theorem isBreak_newLine (m : Nat) {column : Nat} (h : 0 < column) :
    IsBreak (reindent m (newLine column).toList) := by
  refine .inr ⟨m + column - 1, ?_⟩
  rw [reindent_newLine, Nat.sub_add_cancel (by omega)]

@[simp] theorem reindent_quoted (m : Nat) (s : String) :
    reindent m (Text.quoted s).toList = (Text.quoted s).toList :=
  reindent_line (Outline.feed_notMem_quoted s) m

theorem toList_intercalate_cons (sep a b : String) (rest : List String) :
    (sep.intercalate (a :: b :: rest)).toList =
      a.toList ++ sep.toList ++ (sep.intercalate (b :: rest)).toList := by
  simp [String.toList_intercalate]

/-! A text is cut into pieces that make it up. -/

theorem flatten_wordsWithBlanks (current cs : List Char) :
    (wordsWithBlanks current cs).flatten = current.reverse ++ cs := by
  induction cs generalizing current with
  | nil => cases current <;> simp [wordsWithBlanks]
  | cons c rest ih =>
    rw [wordsWithBlanks]
    split <;> simp [ih]

theorem flatten_linesFrom (current cs : List Char) :
    (Text.linesFrom current cs).flatten = current.reverse ++ cs := by
  fun_induction Text.linesFrom current cs with
  | case1 current h => simp_all
  | case2 current h => simp
  | case3 current rest ih => simp [ih]
  | case4 current c rest hne hc ih => simp [ih]
  | case5 current c rest hne hc ih => simp [ih]

theorem exists_packWords (width allowance : Int) (current : List Char) (words : List (List Char)) :
    ∃ ss : List String, packWords width allowance current words = ss.map quoted ∧
      (ss.map (·.toList)).flatten = current ++ words.flatten := by
  have here : ∀ current : List Char, ∃ ss : List String,
      (if current.isEmpty then [] else [quoted (String.ofList current)]) = ss.map quoted ∧
        (ss.map (·.toList)).flatten = current := by
    intro current
    split
    · exact ⟨[], rfl, by simp_all⟩
    · exact ⟨[String.ofList current], rfl, by simp⟩
  induction words generalizing current with
  | nil => simpa [packWords] using here current
  | cons word rest ih =>
    rw [packWords]
    generalize (if rest.isEmpty then width - allowance else width) = room
    split
    · obtain ⟨ss, hss, hcurrent⟩ := here current
      obtain ⟨us, hus, hrest⟩ := ih word
      exact ⟨ss ++ us, by rw [hss, hus, List.map_append], by simp [hcurrent, hrest]⟩
    · obtain ⟨us, hus, hrest⟩ := ih (current ++ word)
      exact ⟨us, hus, by simp [hrest]⟩

theorem exists_packLines (width allowance : Int) (lines : List String) :
    ∃ ss : List String, packLines width allowance lines = ss.map quoted ∧
      (ss.map (·.toList)).flatten = (lines.map (·.toList)).flatten := by
  induction lines with
  | nil => exact ⟨[], rfl, rfl⟩
  | cons line rest ih =>
    rw [packLines]
    generalize (if rest.isEmpty then allowance else 0) = room
    obtain ⟨us, hus, hrest⟩ := ih
    split
    · exact ⟨line :: us, by simp [hus], by simp [hrest]⟩
    · obtain ⟨ss, hss, hline⟩ := exists_packWords width room [] (wordsWithBlanks [] line.toList)
      rw [flatten_wordsWithBlanks] at hline
      exact ⟨ss ++ us, by simp [hss, hus], by simp [hline, hrest]⟩

/-- A text that is cut into pieces below each other denotes the text. -/
theorem denotes_layoutText {s : String} (hs : s.isEmpty = false) {column : Nat} (hc : 0 < column)
    (allowance m : Nat) :
    DenotesValue (.str s) (reindent m (layoutText column allowance s).toList) := by
  obtain ⟨ss, hss, hflat⟩ := exists_packLines (lineWidth - column) allowance (Text.lines s)
  have hlines : ((Text.lines s).map (·.toList)).flatten = s.toList := by
    have hid : (String.toList ∘ String.ofList) = id := funext fun cs => String.toList_ofList
    rw [Text.lines, List.map_map, hid, List.map_id, flatten_linesFrom]
    rfl
  have hne : ss ≠ [] := by
    rintro rfl
    rw [hlines] at hflat
    simp [String.toList_eq_nil_iff.mp hflat.symm] at hs
  have hpieces : reindent m ((newLine column).toList.intercalate
      ((ss.map quoted).map String.toList)) =
      (reindent m (newLine column).toList).intercalate (ss.map fun s => (quoted s).toList) := by
    clear hss hflat hne
    induction ss with
    | nil => rfl
    | cons s rest ih =>
      cases rest with
      | nil => simp [reindent_quoted]
      | cons u us =>
        simp only [List.map_cons, List.intercalate_cons_cons, reindent_append,
          reindent_quoted] at ih ⊢
        rw [ih]
  rw [layoutText, hss, String.toList_intercalate, hpieces]
  exact .pieces hne (hflat.trans hlines).symm (isBreak_newLine m hc)

theorem feed_notMem_intText (n : Int) : '\n' ∉ (Number.intText n).toList := by
  have hnat : ∀ n, '\n' ∉ (Number.natText n).toList := fun n hc =>
    absurd (Outline.isWordChar_natText hc) (by decide)
  unfold Number.intText
  split <;> simp [hnat]

mutual

theorem denotes_literal (m : Nat) : ∀ v : Value, v.isPlain → v.hasOverlong = false →
    DenotesValue v (reindent m v.literal.toList)
  | .none => by
    intro _ _
    simpa [Value.literal] using DenotesValue.none
  | .bool true => by
    intro _ _
    simpa [Value.literal] using DenotesValue.bool true
  | .bool false => by
    intro _ _
    simpa [Value.literal] using DenotesValue.bool false
  | .int n => by
    intro _ hn
    rw [Value.hasOverlong] at hn
    rw [Value.literal, reindent_line (feed_notMem_intText n)]
    exact .int hn
  | .str s => by
    intro _ _
    simpa [Value.literal] using DenotesValue.quoted s
  | .list items => by
    intro h hn
    rw [Value.isPlain] at h
    rw [Value.hasOverlong] at hn
    by_cases hne : items = []
    · simpa [hne, Value.literal, Value.literals] using DenotesValue.emptyList
    · simpa [Value.literal] using (denotes_literals m items hne h hn).list
  | .dict entries => by
    intro h hn
    rw [Value.isPlain] at h
    rw [Value.hasOverlong] at hn
    by_cases hne : entries = []
    · simpa [hne, Value.literal, Value.entryLiterals] using DenotesValue.emptyDict
    · simpa [Value.literal] using (denotes_entryLiterals m entries hne h hn).dict h
  | .float _ | .complex _ _ | .bytes _ | .tuple _ | .set _ | .view _ _ | .slice _ _ _ | .ellipsis
  | .object _ => by
    intro h
    simp [Value.isPlain] at h

theorem denotes_literals (m : Nat) : ∀ items : List Value, items ≠ [] → Value.arePlain items →
    Value.anyOverlong items = false →
    DenotesItems items (reindent m (", ".intercalate (Value.literals items)).toList)
  | [] => fun hne => absurd rfl hne
  | [v] => by
    intro _ h hn
    rw [Value.arePlain, Bool.and_eq_true] at h
    rw [Value.anyOverlong, Bool.or_eq_false_iff] at hn
    simpa [Value.literals] using (denotes_literal m v h.1 hn.1).item
  | v :: w :: rest => by
    intro _ h hn
    rw [Value.arePlain, Bool.and_eq_true] at h
    rw [Value.anyOverlong, Bool.or_eq_false_iff] at hn
    have hcons := DenotesItems.cons (denotes_literal m v h.1 hn.1) (.inl rfl)
      (denotes_literals m (w :: rest) (by simp) h.2 hn.2)
    rw [Value.literals, Value.literals, toList_intercalate_cons, ← Value.literals]
    simpa using hcons

theorem denotes_entryLiterals (m : Nat) : ∀ entries : List (Value × Value), entries ≠ [] →
    Value.arePlainEntries entries → Value.anyOverlongEntry entries = false →
    DenotesEntries entries (reindent m (", ".intercalate (Value.entryLiterals entries)).toList)
  | [] => fun hne => absurd rfl hne
  | [(k, v)] => by
    intro _ h hn
    obtain ⟨s, rfl, hv, -, -⟩ := Value.arePlainEntries_cons h
    rw [Value.anyOverlongEntry, Bool.or_eq_false_iff, Bool.or_eq_false_iff] at hn
    simpa [Value.entryLiterals, Value.literal] using (denotes_literal m v hv hn.1.2).entry s
  | (k, v) :: (k', v') :: rest => by
    intro _ h hn
    obtain ⟨s, rfl, hv, -, hrest⟩ := Value.arePlainEntries_cons h
    rw [Value.anyOverlongEntry, Bool.or_eq_false_iff, Bool.or_eq_false_iff] at hn
    have hcons := DenotesEntries.cons (k := s) (denotes_literal m v hv hn.1.2) (.inl rfl)
      (denotes_entryLiterals m ((k', v') :: rest) (by simp) hrest hn.2)
    rw [Value.entryLiterals, Value.entryLiterals, toList_intercalate_cons, ← Value.entryLiterals]
    simpa [Value.literal] using hcons

end

mutual

/-- The literal of plain data, laid out and moved to a margin, denotes the data. -/
theorem denotes_layout (m : Nat) : ∀ (v : Value) (column allowance : Nat),
    v.isContainer ∨ 0 < column → v.isPlain → v.hasOverlong = false →
    DenotesValue v (reindent m (layout column allowance v).toList)
  | .dict entries, column, allowance => by
    intro _ h hn
    rw [layout]
    split
    · exact denotes_literal m _ h hn
    · rw [Value.isPlain] at h
      rw [Value.hasOverlong] at hn
      by_cases hne : entries = []
      · simpa [hne, layoutEntries] using DenotesValue.emptyDict
      · simpa using (denotes_layoutEntries m entries (column + 1) (allowance + 1) hne
          (Nat.succ_pos _) h hn).dict h
  | .list items, column, allowance => by
    intro _ h hn
    rw [layout]
    split
    · exact denotes_literal m _ h hn
    · rw [Value.isPlain] at h
      rw [Value.hasOverlong] at hn
      by_cases hne : items = []
      · simpa [hne, layoutItems] using DenotesValue.emptyList
      · simpa using (denotes_layoutItems m items (column + 1) (allowance + 1) hne
          (Nat.succ_pos _) h hn).list
  | .str s, column, allowance => by
    intro hc h hn
    rw [layout]
    split
    · simpa using DenotesValue.quoted s
    · next hlong =>
      simp only [Bool.or_eq_true, not_or, Bool.not_eq_true] at hlong
      exact denotes_layoutText hlong.1 (hc.resolve_left (by simp [Value.isContainer])) allowance m
  | .none, _, _ | .bool _, _, _ | .int _, _, _ => by
    intro _ h hn
    rw [layout]
    · exact denotes_literal m _ h hn
    all_goals simp
  | .float _, _, _ | .complex _ _, _, _ | .bytes _, _, _ | .tuple _, _, _ | .set _, _, _
  | .view _ _, _, _ | .slice _ _ _, _, _ | .ellipsis, _, _ | .object _, _, _ => by
    intro _ h
    simp [Value.isPlain] at h

theorem denotes_layoutItems (m : Nat) : ∀ (items : List Value) (column allowance : Nat),
    items ≠ [] → 0 < column → Value.arePlain items → Value.anyOverlong items = false →
    DenotesItems items (reindent m (layoutItems column allowance items).toList)
  | [], _, _ => fun hne => absurd rfl hne
  | [v], column, allowance => by
    intro _ hc h hn
    rw [Value.arePlain, Bool.and_eq_true] at h
    rw [Value.anyOverlong, Bool.or_eq_false_iff] at hn
    rw [layoutItems]
    exact (denotes_layout m v _ _ (.inr hc) h.1 hn.1).item
  | v :: w :: rest, column, allowance => by
    intro _ hc h hn
    rw [Value.arePlain, Bool.and_eq_true] at h
    rw [Value.anyOverlong, Bool.or_eq_false_iff] at hn
    have hcons := DenotesItems.cons (denotes_layout m v column 1 (.inr hc) h.1 hn.1)
      (isBreak_newLine m hc)
      (denotes_layoutItems m (w :: rest) column allowance (by simp) hc h.2 hn.2)
    rw [layoutItems]
    · simpa using hcons
    · simp

theorem denotes_layoutEntries (m : Nat) : ∀ (entries : List (Value × Value))
    (column allowance : Nat), entries ≠ [] → 0 < column → Value.arePlainEntries entries →
    Value.anyOverlongEntry entries = false →
    DenotesEntries entries (reindent m (layoutEntries column allowance entries).toList)
  | [], _, _ => fun hne => absurd rfl hne
  | [(k, v)], column, allowance => by
    intro _ hc h hn
    obtain ⟨s, rfl, hv, -, -⟩ := Value.arePlainEntries_cons h
    rw [Value.anyOverlongEntry, Bool.or_eq_false_iff, Bool.or_eq_false_iff] at hn
    rw [layoutEntries, Value.literal]
    have hvalue := denotes_layout m v (column + (quoted s).length + 2) allowance
      (.inr (Nat.succ_pos _)) hv hn.1.2
    simpa using hvalue.entry s
  | (k, v) :: e :: rest, column, allowance => by
    intro _ hc h hn
    obtain ⟨s, rfl, hv, -, hrest⟩ := Value.arePlainEntries_cons h
    rw [Value.anyOverlongEntry, Bool.or_eq_false_iff, Bool.or_eq_false_iff] at hn
    have hvalue := denotes_layout m v (column + (quoted s).length + 2) 1
      (.inr (Nat.succ_pos _)) hv hn.1.2
    have hcons := DenotesEntries.cons (k := s) hvalue (isBreak_newLine m hc)
      (denotes_layoutEntries m (e :: rest) column allowance (by simp) hc hrest hn.2)
    rw [layoutEntries, Value.literal]
    · simpa using hcons
    · simp

end

end Layouts

end Source

end Workflow
