/-
The tokens of a text whose lines are moved to the right.

Where the lines of a text keep their order of depths (`Shifts`), both texts are cut into tokens that
belong together: each line enters and leaves the same blocks, one block further in
(`Goes.of_fuel`). Nothing is said of a text that breaks off, of one with a quotation over several
lines (`Token.unbroken`), and of one that has no room for a block more (`shallow`).
-/
import Mathlib
import Workflow.Proofs.Indentation

namespace Workflow.Source

open Text (isLineEnd isBlank)

/-! ## The start of a line -/

theorem measureBlanks_margin {m : List Char} (hm : ∀ c ∈ m, c = ' ' ∨ c = '\t')
    (column narrow : Nat) (held : Option (Nat × Nat)) (rest : List Char) :
    measureBlanks column narrow held (m ++ rest) =
      measureBlanks (depthFrom column narrow m).1 (depthFrom column narrow m).2 held rest := by
  induction m generalizing column narrow with
  | nil => rfl
  | cons c m ih =>
    have ih := fun column narrow => ih (List.forall_mem_cons.mp hm).2 column narrow
    rcases hm c (by simp) with rfl | rfl
    · exact ih _ _
    · exact ih _ _

theorem le_depthFrom (column narrow : Nat) (m : List Char) :
    column ≤ (depthFrom column narrow m).1 := by
  fun_induction depthFrom column narrow m with
  | case1 column narrow rest ih => omega
  | case2 column narrow rest ih => omega
  | case3 => exact le_rfl

theorem lt_depthFrom {m : List Char} (hm : ∀ c ∈ m, c = ' ' ∨ c = '\t') (hne : m ≠ [])
    (column narrow : Nat) : column < (depthFrom column narrow m).1 := by
  obtain ⟨c, m, rfl⟩ := List.exists_cons_of_ne_nil hne
  rcases hm c (by simp) with rfl | rfl
  · exact Nat.lt_of_succ_le (le_depthFrom (column + 1) (narrow + 1) m)
  · exact Nat.lt_of_lt_of_le (by omega) (le_depthFrom ((column / 8 + 1) * 8) (narrow + 1) m)

theorem measureBlanks_other {d : Char} (hs : d ≠ ' ') (ht : d ≠ '\t') (hf : d ≠ '\x0c')
    (hb : d ≠ '\\') (column narrow : Nat) (held : Option (Nat × Nat)) (rest : List Char) :
    measureBlanks column narrow held (d :: rest) =
      some ((held.getD (column, narrow)).1, (held.getD (column, narrow)).2, d :: rest) := by
  simp [measureBlanks, hs, ht, hf, hb]

theorem isBlank_ne {c d : Char} (hd : isBlank d) (hc : isBlank c = false) : d ≠ c := by
  rintro rfl
  rw [hd] at hc
  cases hc

theorem readSign_blank {d : Char} (hd : isBlank d) (r : List Char) : readSign (d :: r) = none := by
  have hsigns : signs.all fun s => s.toList.head?.any fun c => !isBlank c := by cbv
  rw [readSign, List.find?_eq_none.mpr, Option.map_none]
  intro s hs
  have hhead := List.all_eq_true.mp hsigns s hs
  cases hs : s.toList with
  | nil => simp [hs] at hhead
  | cons c cs =>
    have hc : isBlank c = false := by simpa [hs] using hhead
    simp [List.isPrefixOf, (isBlank_ne hd hc).symm]

/-- Blanks other than spaces, tabs and form feeds stand nowhere between tokens. -/
theorem scanToken_blank {d : Char} (hd : isBlank d) (hd' : d ∉ [' ', '\t', '\x0c', '\n'])
    (l : Layout) (r : List Char) : scanToken l (d :: r) = .failed := by
  simp only [List.mem_cons, List.not_mem_nil, or_false, not_or] at hd'
  have halpha := isAlphanum_of_isBlank hd
  simp only [Char.isAlphanum, Bool.or_eq_false_iff] at halpha
  have hmarks : d ≠ '#' ∧ d ≠ '\\' ∧ d ≠ '"' ∧ d ≠ '\'' ∧ d ≠ '_' ∧ d ≠ '.' := by
    refine ⟨?_, ?_, ?_, ?_, ?_, ?_⟩ <;> exact isBlank_ne hd rfl
  by_cases hwide : 0x80 ≤ d.toNat
  · have hword : d ∈ (d :: r).takeWhile isNameChar := by
      rw [List.takeWhile_cons_of_pos (by simp [isNameChar, hwide])]
      exact List.mem_cons_self
    simp only [scanToken, hd', hmarks, hwide, wordToken_of_isBlank hword hd,
      isTextMark_of_isBlank hword hd, or_false, if_false, decide_true, Bool.or_true, if_true,
      Bool.false_eq_true, and_false]
    split <;> rfl
  · have hbrackets : d ≠ '(' ∧ d ≠ '[' ∧ d ≠ '\x7b' ∧ d ≠ ')' ∧ d ≠ ']' ∧ d ≠ '\x7d' := by
      refine ⟨?_, ?_, ?_, ?_, ?_, ?_⟩ <;> exact isBlank_ne hd rfl
    have hprint : Text.isPrintable d = false := by
      have hspace : d.toNat ≠ 32 := fun h => hd'.1 (Char.toNat_inj.mp h)
      rw [isBlank, decide_eq_true_eq] at hd
      rw [Text.isPrintable, if_pos (by omega), decide_eq_false_iff_not]
      omega
    simp [scanToken, hd', hmarks, hbrackets, halpha, hwide, hprint, closer?, readSign_blank hd]

section

variable {M : Shift} {extra : List Char} {k : Nat} {q x : List Char}

/-- Behind a backslash the depth is settled, and both texts go on at the same character. -/
theorem measureBlanks_held {d d' : Nat × Nat} {held : Option (Nat × Nat)}
    {column narrow c n : Nat} {r : List Char} (h : Along M extra k q x)
    (hne : q ≠ []) (hheld : held = some d)
    (hq : measureBlanks column narrow held q = some (c, n, r)) (column' narrow' : Nat) :
    (c, n) = d ∧ r ≠ [] ∧ ∃ j ≤ k, ∃ y, Along M extra j r y ∧
      measureBlanks column' narrow' (some d') x = some (d'.1, d'.2, y) := by
  have hspaces : ∀ i, ∀ c ∈ List.replicate i ' ', c = ' ' ∨ c = '\t' := by simp
  fun_induction measureBlanks column narrow held q generalizing x k column' narrow' with
  | case1 column narrow held rest ih =>
    obtain ⟨y, rfl⟩ := h.head
    obtain ⟨hne, hy⟩ := h.tail rfl
    exact ih hy hne hheld hq _ _
  | case2 column narrow held rest ih =>
    obtain ⟨y, rfl⟩ := h.head
    obtain ⟨hne, hy⟩ := h.tail rfl
    exact ih hy hne hheld hq _ _
  | case3 column narrow held rest ih =>
    obtain ⟨y, rfl⟩ := h.head
    obtain ⟨i, j, z, rfl, -, hz, hj, hnext⟩ := h.tail_of_lineEnd rfl
    obtain ⟨hd, hr, j', hj', y, hy, hm⟩ := ih hz (hnext (by decide)) hheld hq _ _
    refine ⟨hd, hr, j', by omega, y, hy, ?_⟩
    rw [measureBlanks, measureBlanks_margin (hspaces i), hm]
  | case4 column narrow held e rest =>
    rename_i ih
    obtain ⟨y, rfl⟩ := h.head
    obtain ⟨-, hy⟩ := h.tail rfl
    obtain ⟨z, rfl⟩ := hy.head
    obtain ⟨i, j, w, rfl, -, hw, hj, -⟩ := hy.tail_of_lineEnd rfl
    obtain ⟨v, rfl⟩ := hw.head
    obtain ⟨hd, hr, j', hj', y, hy, hm⟩ :=
      ih hw (by simp) (show held.or _ = some d by rw [hheld]; rfl) hq _ _
    refine ⟨hd, hr, j', by omega, y, hy, ?_⟩
    obtain ⟨f, u, hfu⟩ : ∃ f u, List.replicate i ' ' ++ e :: v = f :: u :=
      List.exists_cons_of_ne_nil (by simp)
    rw [hfu, measureBlanks, ← hfu, measureBlanks_margin (hspaces i)]
    exact hm
  | case5 => cases hq
  | case6 column narrow held cs hs ht hf _ hb column narrow hheld' =>
    obtain ⟨e, cs, y, rfl, rfl⟩ := h.exists_cons hne
    have hother := @measureBlanks_other e (fun h => hs cs (h ▸ rfl)) (fun h => ht cs (h ▸ rfl))
      (fun h => hf cs (h ▸ rfl)) fun h => hb cs (h ▸ rfl)
    cases hq
    rw [hheld, Option.getD_some] at hheld'
    exact ⟨hheld'.symm, hne, k, le_rfl, _, h, hother _ _ _ _⟩

/-- What is found at the start of a line of one text and of the other. -/
inductive Begun (M : Shift) (extra : List Char) (k : Nat) :
    Option (Nat × Nat × List Char) → Option (Nat × Nat × List Char) → Prop
  | failed {o : Option (Nat × Nat × List Char)} : Begun M extra k none o
  | doomed {column narrow : Nat} {d : Char} {r : List Char} {o : Option (Nat × Nat × List Char)} :
      isBlank d → d ∉ [' ', '\t', '\x0c', '\n'] → Begun M extra k (some (column, narrow, d :: r)) o
  | finished : extra.length ≤ k → Begun M extra k (some (0, 0, [])) (some (0, 0, extra))
  | line {c n c' n' j : Nat} {r y : List Char} : M (c, n) (c', n') ∨ r.head? = some '\n' →
      r ≠ [] → Along M extra j r y → j ≤ k → Begun M extra k (some (c, n, r)) (some (c', n', y))

theorem Begun.mono {j : Nat} {o o' : Option (Nat × Nat × List Char)} (h : Begun M extra j o o')
    (hj : j ≤ k) : Begun M extra k o o' := by
  cases h with
  | failed => exact .failed
  | doomed hd hd' => exact .doomed hd hd'
  | finished h => exact .finished (h.trans hj)
  | line hd hne h hi => exact .line hd hne h (hi.trans hj)

/-- A blank line is blank in both texts, up to a form feed, behind which a line starts again. -/
theorem measureBlanks_blank {b r : List Char} {e : Char}
    (hb : ∀ c ∈ b, isBlank c ∧ isLineEnd c = false) (he : isLineEnd e)
    (h : Along M extra k (b ++ e :: r) x)
    (hfeed : ∀ {j n : Nat} {z : List Char}, Margin M n r → Along M extra j r z →
      Begun M extra (j + n) (measureBlanks 0 0 none r)
        (measureBlanks 0 0 none (List.replicate n ' ' ++ z)))
    (column narrow column' narrow' : Nat) :
    Begun M extra k (measureBlanks column narrow none (b ++ e :: r))
      (measureBlanks column' narrow' none x) := by
  induction b generalizing x column narrow column' narrow' with
  | nil =>
    obtain ⟨y, rfl⟩ := h.head
    by_cases hn : e = '\n'
    · subst hn
      exact .line (.inr rfl) (by simp) h le_rfl
    by_cases hf : e = '\x0c'
    · subst hf
      obtain ⟨n, j, z, rfl, hm, hz, hj, -⟩ := h.tail_of_lineEnd he
      exact (hfeed hm hz).mono hj.le
    · have hs : e ≠ ' ' := by rintro rfl; cases he
      have ht : e ≠ '\t' := by rintro rfl; cases he
      have hblank := isBlank_of_isLineEnd he
      rw [List.nil_append, measureBlanks_other hs ht hf (isBlank_ne hblank rfl)]
      exact .doomed hblank (by simp [hs, ht, hf, hn])
  | cons c b ih =>
    obtain ⟨hc, hb'⟩ := List.forall_mem_cons.mp hb
    obtain ⟨y, rfl⟩ := h.head
    obtain ⟨-, hy⟩ := h.tail hc.2
    by_cases hs : c = ' '
    · subst hs
      exact ih hb' hy _ _ _ _
    by_cases ht : c = '\t'
    · subst ht
      exact ih hb' hy _ _ _ _
    · have hf : c ≠ '\x0c' := by rintro rfl; exact absurd hc.2 (by decide)
      have hn : c ≠ '\n' := by rintro rfl; exact absurd hc.2 (by decide)
      rw [List.cons_append, measureBlanks_other hs ht hf (isBlank_ne hc.1 rfl)]
      exact .doomed hc.1 (by simp [hs, ht, hf, hn])

/-- A line starts at the same character in both texts. -/
theorem measureBlanks_along {n : Nat} (hextra : extra = [] ∨ extra = ['\n'])
    (h : Along M extra k q x) (hn : Margin M n q) :
    Begun M extra (k + n) (measureBlanks 0 0 none q)
      (measureBlanks 0 0 none (List.replicate n ' ' ++ x)) := by
  induction hlen : q.length using Nat.strong_induction_on generalizing q x k n with
  | _ len ih =>
  cases hn with
  | finished =>
    cases h
    rcases hextra with rfl | rfl <;> exact .finished le_rfl
  | @blank b r e hb he =>
    exact measureBlanks_blank hb he h (fun hm hz => ih r.length (by simp [← hlen]; omega) hz hm rfl)
      0 0 0 0
  | @line m r d hm hs ht hd hback hM =>
    have hmd : ∀ c ∈ m, isLineEnd c = false := by
      intro c hc
      rcases hm c hc with rfl | rfl <;> rfl
    obtain ⟨y, rfl, hy⟩ := h.of_append hmd (by simp)
    obtain ⟨z, rfl⟩ := hy.head
    have hf : d ≠ '\x0c' := by rintro rfl; cases hd
    rw [measureBlanks_margin hm, measureBlanks_margin (by simp), measureBlanks_margin hm]
    by_cases hb : d = '\\'
    · subst hb
      have hpos : ∀ column narrow, (depthFrom column narrow m).1 ≠ 0 := fun column narrow =>
        (Nat.zero_lt_of_lt (lt_depthFrom hm (hback rfl) column narrow)).ne'
      cases r with
      | nil => exact .failed
      | cons e r =>
        obtain ⟨-, hz⟩ := hy.tail rfl
        obtain ⟨w, rfl⟩ := hz.head
        by_cases hn : e = '\n'
        · subst hn
          obtain ⟨i, j, v, rfl, -, hv, hj, -⟩ := hz.tail_of_lineEnd rfl
          cases r with
          | nil => exact .failed
          | cons f r =>
            obtain ⟨u, rfl⟩ := hv.head
            obtain ⟨g, s, hgs⟩ : ∃ g s, List.replicate i ' ' ++ f :: u = g :: s :=
              List.exists_cons_of_ne_nil (by simp)
            rw [hgs, measureBlanks, measureBlanks, ← hgs, measureBlanks_margin (by simp),
              if_neg (hpos _ _), if_neg (hpos _ _), Option.none_or, Option.none_or]
            cases hq : measureBlanks _ _ _ (f :: r) with
            | none => exact .failed
            | some o =>
              obtain ⟨column, narrow, o⟩ := o
              obtain ⟨hd, hne, j', hj', y, hy', hx⟩ := measureBlanks_held hv (by simp) rfl hq _ _
              rw [hx]
              cases hd
              exact .line (.inl hM) hne hy' (by omega)
        · have hfail : ∀ c n, measureBlanks c n none ('\\' :: e :: r) = none := by
            intro c n
            simp [measureBlanks, hn]
          rw [hfail]
          exact .failed
    · rw [measureBlanks_other hs ht hf hb, measureBlanks_other hs ht hf hb]
      exact .line (.inl hM) (by simp) hy (by omega)

end

/-! ## Layouts -/

/-- Depths that a move takes to depths in the same order, four columns further in. -/
structure Shifts (M : Shift) : Prop where
  base : M (0, 0) (4, 4)
  low : ∀ {d d'}, M d d' → 0 < d'.1
  narrow : ∀ {d d'}, M d d' → d'.2 = d.2 + 4
  same : ∀ {d d' e'}, M d d' → M d e' → d' = e'
  rise : ∀ {d d' e e'}, M d d' → M e e' → d.1 < e.1 → d.2 < e.2 → d'.1 < e'.1

/-- The open depths of the two texts; the second has a block around it. -/
structure Stack (M : Shift) (level : Nat) (ds ds' : List (Nat × Nat)) :
    Prop where
  pairs : List.Forall₂ M ds ds'
  rises : ds.Pairwise fun d e => e.1 < d.1 ∧ e.2 < d.2
  last : ds.getLast? = some (0, 0)
  length : ds.length = level + 1

/-- How the tokens at the start of a line change the number of open blocks. -/
inductive Enters : Nat → Nat → List Token → Prop
  | stay {n : Nat} : Enters n n []
  | enter {n : Nat} : Enters n (n + 1) [.indent]
  | leave (n k : Nat) : Enters (n + k) n (List.replicate k .dedent)

section

variable {M : Shift} {level : Nat} {ds ds' : List (Nat × Nat)}
  {d d' : Nat × Nat} {b : List Char} {ts : List Token} {l : Layout}

theorem close_moved (hM : Shifts M) (hds : List.Forall₂ M ds ds')
    (hrises : ds.Pairwise fun d e => e.1 < d.1 ∧ e.2 < d.2) (hd : M d d') {closed : Nat}
    {left : List (Nat × Nat)} (h : Layout.close d.1 ds = (closed, d :: left)) :
    ∃ left', Layout.close d'.1 (ds' ++ [(0, 0)]) = (closed, d' :: (left' ++ [(0, 0)])) ∧
      List.Forall₂ M left left' ∧ ∃ tops, ds = tops ++ d :: left ∧ tops.length = closed := by
  induction hds generalizing closed with
  | nil => simp [Layout.close] at h
  | @cons e e' ds ds' he hds ih =>
    obtain ⟨htop, hrises⟩ := List.pairwise_cons.mp hrises
    rw [Layout.close] at h
    rw [List.cons_append, Layout.close]
    by_cases hlt : d.1 < e.1
    · rw [if_pos hlt] at h
      cases hclose : Layout.close d.1 ds with
      | mk n rest =>
        rw [hclose] at h
        cases h
        obtain ⟨left', hclose', hleft, tops, rfl, htops⟩ := ih hrises hclose
        have hlt' : d'.1 < e'.1 := hM.rise hd he hlt (htop d (by simp)).2
        exact ⟨left', by rw [if_pos hlt', hclose'], hleft, e :: tops, rfl, by simp [htops]⟩
    · rw [if_neg hlt] at h
      cases h
      obtain rfl := hM.same hd he
      exact ⟨ds', by rw [if_neg (lt_irrefl _)], hds, [], rfl, rfl⟩

/-- A line enters and leaves the same blocks in both texts. -/
theorem enterLine_moved (hM : Shifts M) (hs : Stack M level ds ds') (hd : M d d')
    (h : Layout.enterLine ⟨b, ds⟩ d.1 d.2 = .ok (ts, l))
    (hroom : ts = [.indent] → level + 2 < Layout.maxDepths) :
    ∃ es es' next, l = ⟨b, es⟩ ∧ Stack M next es es' ∧ Enters level next ts ∧
      Layout.enterLine ⟨b, ds' ++ [(0, 0)]⟩ d'.1 d'.2 = .ok (ts, ⟨b, es' ++ [(0, 0)]⟩) := by
  obtain ⟨hpairs, hrises, hlast, hlength⟩ := hs
  cases hpairs with
  | nil => cases hlast
  | @cons e e' ds ds' he hds =>
  obtain ⟨htop, hrises'⟩ := List.pairwise_cons.mp hrises
  have hlength' : (e' :: ds' ++ [(0, 0)]).length = level + 2 := by
    have := hds.length_eq
    simp only [List.length_cons, List.length_append, List.length_nil] at hlength ⊢
    omega
  simp only [Layout.enterLine, List.cons_append] at h ⊢
  rcases lt_trichotomy d.1 e.1 with hlt | heq | hgt
  · -- Blocks are left, down to one at the depth of the line.
    rw [if_neg hlt.ne, if_neg hlt.not_gt] at h
    cases hclose : Layout.close d.1 (e :: ds) with
    | mk closed left =>
    rw [hclose] at h
    cases left with
    | nil => cases h
    | cons f left =>
    dsimp only at h
    split_ifs at h with hcolumn hnarrow
    obtain rfl : d = f := Prod.ext (by simpa using hcolumn) (by simpa using hnarrow)
    cases h
    obtain ⟨left', hclose', hleft, tops, htops, hcount⟩ :=
      close_moved hM (.cons he hds) hrises hd hclose
    have hlt' : d'.1 < e'.1 := by
      refine hM.rise hd he hlt (htop d ?_).2
      cases tops with
      | nil => cases htops; exact absurd hlt (lt_irrefl _)
      | cons g tops => cases htops; simp
    rw [htops] at hrises hlast hlength
    refine ⟨d :: left, d' :: left', left.length, rfl, ⟨.cons hd hleft,
      (List.pairwise_append.mp hrises).2.1, by simpa using hlast, by simp⟩, ?_, ?_⟩
    · obtain rfl : level = left.length + closed := by
        simp only [List.length_append, List.length_cons] at hlength
        omega
      exact .leave _ _
    · rw [if_neg hlt'.ne, if_neg hlt'.not_gt, ← List.cons_append, hclose']
      simp
  · -- The line stands at the depth of the block.
    rw [if_pos heq] at h
    split_ifs at h with hnarrow
    obtain rfl : d = e := Prod.ext heq hnarrow
    obtain rfl := hM.same hd he
    cases h
    exact ⟨_, _, level, rfl, ⟨.cons he hds, hrises, hlast, hlength⟩, .stay, by simp⟩
  · -- A block is entered.
    rw [if_neg hgt.ne', if_pos hgt] at h
    split_ifs at h with hmax hnarrow
    cases h
    have hroom := hroom rfl
    have hgt' := hM.rise he hd hgt (by omega)
    have hn := hM.narrow hd
    have hn' := hM.narrow he
    refine ⟨d :: e :: ds, d' :: e' :: ds', level + 1, rfl, ⟨.cons hd (.cons he hds), ?_,
      by simpa using hlast, by simpa using hlength⟩, .enter, ?_⟩
    · refine List.pairwise_cons.mpr ⟨List.forall_mem_cons.mpr ⟨⟨hgt, by omega⟩, ?_⟩, hrises⟩
      intro f hf
      have := htop f hf
      omega
    · rw [if_neg hgt'.ne', if_pos hgt', ← List.cons_append, if_neg (by omega), if_neg (by omega)]
      rfl

end

/-! ## Tokens that are moved -/

/-- Whether a token is no quotation over several lines. -/
def Token.unbroken : Token → Bool
  | .text q => q.body.all (!isLineEnd ·)
  | _ => true

/-- Whether so many blocks at most are opened inside one another. -/
def shallow : Nat → List Token → Bool
  | _, [] => true
  | 0, .indent :: _ => false
  | n + 1, .indent :: ts => shallow n ts
  | n, .dedent :: ts => shallow (n + 1) ts
  | n, _ :: ts => shallow n ts

/-- Tokens of a text at so many open blocks, and of the text moved: they belong together, unless the
first text breaks off or cannot be moved. -/
def Moves (level : Nat) (ts ts' : List Token) : Prop :=
  ∀ room, room + level + 2 = Layout.maxDepths → ts.all Token.unbroken → shallow room ts →
    Beside .broken ts ts ∨ Beside (.moved level) ts ts'

namespace Moves

variable {level : Nat} {t : Token} {ts ts' : List Token}

theorem bad (c : SourceError) : Moves level [.bad c] ts' := fun _ _ _ _ => .inl .bad

theorem plain [ht : t.Plain] (h : Moves level ts ts') : Moves level (t :: ts) (t :: ts') := by
  intro room hroom hunbroken hshallow
  have hnext : shallow room ts := by
    have := ht.noChange
    cases room <;> cases t <;> simp_all [shallow]
  rcases h room hroom (Bool.and_eq_true_iff.mp hunbroken).2 hnext with h | h
  · exact .inl (.other ht.noEnd h)
  · exact .inr (.plain h)

theorem long {q : Quotation} (hq : ∃ c ∈ q.body, isLineEnd c) :
    Moves level (.text q :: ts) ts' := by
  intro room hroom hunbroken hshallow
  obtain ⟨c, hc, he⟩ := hq
  have := List.all_eq_true.mp (List.all_eq_true.mp hunbroken (.text q) (by simp)) c hc
  simp [he] at this

theorem dedents {next : Nat} (k : Nat) (h : Moves next ts ts') :
    Moves (next + k) (List.replicate k .dedent ++ ts) (List.replicate k .dedent ++ ts') := by
  induction k with
  | zero => exact h
  | succ k ih =>
    intro room hroom hunbroken hshallow
    have hnext : shallow (room + 1) (List.replicate k .dedent ++ ts) := by
      cases room <;> exact hshallow
    rcases ih (room + 1) (by omega) (Bool.and_eq_true_iff.mp hunbroken).2 hnext with h | h
    · exact .inl (.other (by simp) h)
    · exact .inr (.dedent h)

/-- What stands behind the tokens at the start of a line. -/
theorem entered {start : List Token} (h : (start = [.indent] → level + 2 < Layout.maxDepths) →
    ∃ next us', Enters level next start ∧ ts' = start ++ us' ∧ Moves next ts us') :
    Moves level (start ++ ts) ts' := by
  intro room hroom hunbroken hshallow
  have hfits : start = [.indent] → level + 2 < Layout.maxDepths := by
    rintro rfl
    cases room with
    | zero => cases hshallow
    | succ room => omega
  obtain ⟨next, us', hstart, rfl, hmoves⟩ := h hfits
  cases hstart with
  | stay => exact hmoves room hroom hunbroken hshallow
  | leave n k => exact hmoves.dedents k room hroom hunbroken hshallow
  | enter =>
    cases room with
    | zero => cases hshallow
    | succ room =>
      rcases hmoves room (by omega) (Bool.and_eq_true_iff.mp hunbroken).2 hshallow with h | h
      · exact .inl (.other (by simp) h)
      · exact .inr (.indent h)

end Moves

/-! ## Texts that are moved -/

section

variable {l l' : Layout} {column narrow : Nat} {q r : List Char} {ts us : List Token}

theorem tokensFrom_spaces (n fuel : Nat) (l : Layout) (y : List Char) :
    tokensFrom (fuel + n) l false (List.replicate n ' ' ++ y) = tokensFrom fuel l false y := by
  induction n with
  | zero => rfl
  | succ n ih =>
    rw [List.replicate_succ, List.cons_append, ← Nat.add_assoc, tokensFrom.eq_def]
    simpa [scanToken] using ih

/-- A line without tokens is skipped. -/
theorem tokensFrom_skipLine {rest : List Char}
    (h : measureBlanks 0 0 none q = some (column, narrow, r))
    (hhead : r.head? = some '#' ∨ r.head? = some '\n') {c : Char}
    (hr : r.dropWhile (· ≠ '\n') = c :: rest) (fuel : Nat) :
    tokensFrom (fuel + 1) l true q = tokensFrom fuel l true rest := by
  rw [tokensFrom.eq_def]
  simp only [h, if_true, if_pos hhead, hr]

section

variable (h : measureBlanks 0 0 none q = some (column, narrow, r))
  (hhead : ¬ (r.head? = some '#' ∨ r.head? = some '\n'))

include h hhead

theorem tokensFrom_inside (hl : l.brackets ≠ []) (fuel : Nat) :
    tokensFrom (fuel + 1) l true q = tokensFrom fuel l false r := by
  rw [tokensFrom.eq_def]
  simp only [h, if_true, if_neg hhead]
  simp [hl]

theorem tokensFrom_entered (hl : l.brackets = []) (he : l.enterLine column narrow = .ok (ts, l'))
    (fuel : Nat) : tokensFrom (fuel + 1) l true q = ts ++ tokensFrom fuel l' false r := by
  rw [tokensFrom.eq_def]
  simp only [h, if_true, if_neg hhead, hl, List.isEmpty_nil, Bool.not_true, he]
  rfl

theorem tokensFrom_refused (hl : l.brackets = []) {c : SourceError}
    (he : l.enterLine column narrow = .error c) (fuel : Nat) :
    tokensFrom (fuel + 1) l true q = [.bad c] := by
  rw [tokensFrom.eq_def]
  simp only [h, if_true, if_neg hhead, hl, List.isEmpty_nil, Bool.not_true, he]
  rfl

end

/-- At the end of a text all blocks are left. -/
theorem tokensFrom_end (h : measureBlanks 0 0 none q = some (0, 0, []))
    {ds : List (Nat × Nat)} (hds : ∀ d ∈ ds, 0 < d.1) (fuel : Nat) :
    tokensFrom (fuel + 1) ⟨[], ds ++ [(0, 0)]⟩ true q =
      List.replicate ds.length .dedent ++ tokensFrom fuel ⟨[], [(0, 0)]⟩ false [] := by
  have hclose : Layout.close 0 (ds ++ [(0, 0)]) = (ds.length, [(0, 0)]) := by
    induction ds with
    | nil => rfl
    | cons d ds ih =>
      obtain ⟨hd, hds⟩ := List.forall_mem_cons.mp hds
      rw [List.cons_append, Layout.close, if_pos hd, ih hds]
      rfl
  refine tokensFrom_entered h (by simp) rfl ?_ fuel
  cases ds with
  | nil => rfl
  | cons d ds =>
    have hd : 0 < d.1 := hds d (by simp)
    simp only [Layout.enterLine, List.cons_append] at hclose ⊢
    rw [if_neg hd.ne, if_neg (by omega), hclose]
    simp

theorem finish_notMem_enterLine (h : l.enterLine column narrow = .ok (ts, l')) : .finish ∉ ts := by
  rw [Layout.enterLine] at h
  grind

theorem broken_append (hts : .finish ∉ ts) (h : Beside .broken us us) :
    Beside .broken (ts ++ us) (ts ++ us) := by
  induction ts with
  | nil => exact h
  | cons t ts ih => exact .other (by grind) (ih (by grind))

/-- A text breaks off at a blank that stands nowhere between tokens. -/
theorem broken_of_blank {d : Char} (hd : isBlank d) (hd' : d ∉ [' ', '\t', '\x0c', '\n'])
    (h : measureBlanks 0 0 none q = some (column, narrow, d :: r)) (l : Layout) (fuel : Nat) :
    Beside .broken (tokensFrom (fuel + 1) l true q) (tokensFrom (fuel + 1) l true q) := by
  have hbad : ∀ l, tokensFrom fuel l false (d :: r) = [.bad .malformed] := by
    intro l
    cases fuel with
    | zero => rfl
    | succ fuel =>
      rw [tokensFrom.eq_def]
      simp only [scanToken_blank hd hd']
      rfl
  have hhead : ¬ ((d :: r).head? = some '#' ∨ (d :: r).head? = some '\n') := by
    have := isBlank_ne (c := '#') hd rfl
    simp_all
  by_cases hl : l.brackets = []
  · cases he : l.enterLine column narrow with
    | error c =>
      rw [tokensFrom_refused h hhead hl he]
      exact .bad
    | ok o =>
      rw [tokensFrom_entered h hhead hl he, hbad]
      exact broken_append (finish_notMem_enterLine he) .bad
  · rw [tokensFrom_inside h hhead hl, hbad]
    exact .bad

end

/-- Both texts are cut into tokens that belong together, with so much fuel for the first. -/
structure Goes (M : Shift) (extra : List Char) (fuel : Nat) : Prop where
  inside : ∀ {fuel' level k : Nat} {ds ds' : List (Nat × Nat)} {b q x : List Char},
    Stack M level ds ds' → fuel + k ≤ fuel' → q ≠ [] → Along M extra k q x →
    Moves level (tokensFrom fuel ⟨b, ds⟩ false q) (tokensFrom fuel' ⟨b, ds' ++ [(0, 0)]⟩ false x)
  fresh : ∀ {fuel' level k n : Nat} {ds ds' : List (Nat × Nat)} {b q x : List Char},
    Stack M level ds ds' → fuel + (k + n) ≤ fuel' → Margin M n q → Along M extra k q x →
    Moves level (tokensFrom fuel ⟨b, ds⟩ true q)
      (tokensFrom fuel' ⟨b, ds' ++ [(0, 0)]⟩ true (List.replicate n ' ' ++ x))

namespace Goes

variable {M : Shift} {extra : List Char} {level k fuel fuel' : Nat}
  {ds ds' : List (Nat × Nat)} {b q x : List Char}

theorem inside_step (hgoes : Goes M extra fuel) (hs : Stack M level ds ds')
    (hfuel : fuel + 1 + k ≤ fuel') (hne : q ≠ []) (h : Along M extra k q x) :
    Moves level (tokensFrom (fuel + 1) ⟨b, ds⟩ false q)
      (tokensFrom fuel' ⟨b, ds' ++ [(0, 0)]⟩ false x) := by
  obtain ⟨c, q, y, rfl, rfl⟩ := h.exists_cons hne
  obtain ⟨f, rfl⟩ : ∃ f, fuel' = f + 1 := ⟨fuel' - 1, by omega⟩
  have hscan : Scans M extra k ds (ds' ++ [(0, 0)]) (scanToken ⟨b, ds⟩ (c :: q))
    (scanToken ⟨b, ds' ++ [(0, 0)]⟩ (c :: y)) := scanToken_along h
  rw [tokensFrom.eq_def (fuel + 1), tokensFrom.eq_def (f + 1)]
  simp only [Bool.false_eq_true, if_false]
  generalize scanToken ⟨b, ds⟩ (c :: q) = s, scanToken ⟨b, ds' ++ [(0, 0)]⟩ (c :: y) = s' at hscan
  cases hscan with
  | failed => exact .bad _
  | long hq => exact .long hq
  | token hr hy => exact .plain (hgoes.inside hs (by omega) hr hy)
  | skipped n hr hy hj =>
    obtain ⟨g, rfl⟩ : ∃ g, f = g + n := ⟨f - n, by omega⟩
    dsimp only
    rw [tokensFrom_spaces]
    exact hgoes.inside hs (by omega) hr hy
  | continued hm hy hj => exact hgoes.fresh hs (by omega) hm hy
  | lineEnd hm hy hj => exact .plain (hgoes.fresh hs (by omega) hm hy)

theorem finished_step (hM : Shifts M) (hs : Stack M level ds ds') (hfuel : fuel ≤ fuel')
    (hq : measureBlanks 0 0 none q = some (0, 0, []))
    (hx : measureBlanks 0 0 none x = some (0, 0, [])) :
    Moves level (tokensFrom (fuel + 1) ⟨[], ds⟩ true q)
      (tokensFrom (fuel' + 1) ⟨[], ds' ++ [(0, 0)]⟩ true x) := by
  obtain ⟨hpairs, hrises, hlast, hlength⟩ := hs
  have hlow : ∀ d ∈ ds', 0 < d.1 := ((List.forall₂_and_left (R := flip M) ds' ds).mp
    (hpairs.flip.imp fun _ _ h => ⟨hM.low h, h⟩)).1
  obtain ⟨init, rfl⟩ := List.getLast?_eq_some_iff.mp hlast
  have htop : ∀ d ∈ init, 0 < d.1 := fun d hd =>
    ((List.pairwise_append.mp hrises).2.2 d hd (0, 0) (by simp)).1
  have hlength' : ds'.length = level + 1 := by rw [← hpairs.length_eq, hlength]
  obtain rfl : init.length = level := by simpa using hlength
  have hend : Moves 0 (tokensFrom fuel ⟨[], [(0, 0)]⟩ false [])
      ([.dedent] ++ tokensFrom fuel' ⟨[], [(0, 0)]⟩ false []) := by
    cases fuel with
    | zero => exact .bad _
    | succ fuel =>
      obtain ⟨f, rfl⟩ : ∃ f, fuel' = f + 1 := ⟨fuel' - 1, by omega⟩
      exact fun _ _ _ _ => .inr .last
  have h := hend.dedents init.length
  rwa [Nat.zero_add, ← List.append_assoc, ← List.replicate_succ', ← hlength',
    ← tokensFrom_end hq htop, ← tokensFrom_end hx hlow] at h

theorem fresh_step (hM : Shifts M) (hextra : extra = [] ∨ extra = ['\n'])
    (hgoes : Goes M extra fuel) {n : Nat} (hs : Stack M level ds ds')
    (hfuel : fuel + 1 + (k + n) ≤ fuel') (hn : Margin M n q) (h : Along M extra k q x) :
    Moves level (tokensFrom (fuel + 1) ⟨b, ds⟩ true q)
      (tokensFrom fuel' ⟨b, ds' ++ [(0, 0)]⟩ true (List.replicate n ' ' ++ x)) := by
  obtain ⟨f, rfl⟩ : ∃ f, fuel' = f + 1 := ⟨fuel' - 1, by omega⟩
  have hb := measureBlanks_along hextra h hn
  generalize ho : measureBlanks 0 0 none q = o,
    ho' : measureBlanks 0 0 none (List.replicate n ' ' ++ x) = o' at hb
  cases hb with
  | failed =>
    rw [tokensFrom.eq_def]
    simp only [ho]
    exact .bad _
  | doomed hd hd' => exact fun _ _ _ _ => .inl (broken_of_blank hd hd' ho _ fuel)
  | finished hk =>
    by_cases hbrackets : b = []
    · subst hbrackets
      rcases hextra with rfl | rfl
      · exact finished_step hM hs (by omega) ho ho'
      · obtain ⟨g, rfl⟩ : ∃ g, f = g + 1 := ⟨f - 1, by simp at hk; omega⟩
        rw [tokensFrom_skipLine ho' (.inr rfl) rfl]
        exact finished_step hM hs (by simp at hk; omega) ho rfl
    · rw [tokensFrom_inside ho (by simp) hbrackets]
      cases fuel with
      | zero => exact .bad _
      | succ fuel =>
        rw [tokensFrom.eq_def]
        simp only [Bool.false_eq_true, if_false, List.isEmpty_iff, hbrackets]
        exact .bad _
  | @line c n c' n' j r y hd hne hy hj =>
    obtain ⟨e, r, y, rfl, rfl⟩ := hy.exists_cons hne
    by_cases hhead : e = '#' ∨ e = '\n'
    · -- The line has no tokens.
      obtain ⟨i, hi, s, z, hs', hz, hsz⟩ := hy.dropWhile_feed hne
      obtain ⟨m, i', w, rfl, hm, hw, hi', -⟩ := hsz.tail_of_lineEnd rfl
      rw [tokensFrom_skipLine ho (by simpa using hhead) hs',
        tokensFrom_skipLine ho' (by simpa using hhead) hz]
      exact hgoes.fresh hs (by omega) hm hw
    have hhead' : ∀ s, ¬ ((e :: s).head? = some '#' ∨ (e :: s).head? = some '\n') := by
      simpa using hhead
    by_cases hbrackets : b = []
    · -- The line stands at a depth.
      subst hbrackets
      have hM' : M (c, n) (c', n') := hd.resolve_right (by simpa using fun he => hhead (.inr he))
      cases he : Layout.enterLine ⟨[], ds⟩ c n with
      | error cause =>
        rw [tokensFrom_refused ho (hhead' r) rfl he]
        exact .bad _
      | ok entered =>
        obtain ⟨start, l⟩ := entered
        rw [tokensFrom_entered ho (hhead' r) rfl he]
        refine .entered fun hroom => ?_
        obtain ⟨es, es', next, rfl, hes, hstart, he'⟩ := enterLine_moved hM hs hM' he hroom
        rw [tokensFrom_entered ho' (hhead' y) rfl he']
        exact ⟨next, _, hstart, rfl, hgoes.inside hes (by omega) hne hy⟩
    · rw [tokensFrom_inside ho (hhead' r) hbrackets, tokensFrom_inside ho' (hhead' y) hbrackets]
      exact hgoes.inside hs (by omega) hne hy

theorem of_fuel (hM : Shifts M) (hextra : extra = [] ∨ extra = ['\n']) (fuel : Nat) :
    Goes M extra fuel := by
  induction fuel with
  | zero => exact ⟨fun _ _ _ _ => .bad _, fun _ _ _ _ => .bad _⟩
  | succ fuel ih => exact ⟨ih.inside_step, ih.fresh_step hM hextra⟩

end Goes

end Workflow.Source
