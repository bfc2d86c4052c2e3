/-
Texts moved to the right.
-/
import Mathlib
import Workflow.Proofs.Tokens
import Workflow.Proofs.Tracking
import Workflow.Text.Lines

namespace Workflow.Source

open Text (isLineEnd isBlank)

/-! ## Line ends -/

theorem isBlank_of_isAlphanum {c : Char} (h : c.isAlphanum) : isBlank c = false := by
  simp only [Char.isAlphanum, Char.isAlpha, Char.isUpper, Char.isLower, Char.isDigit,
    Bool.or_eq_true, Bool.and_eq_true, decide_eq_true_eq, UInt32.le_iff_toNat_le, ge_iff_le] at h
  change ((65 ≤ c.toNat ∧ c.toNat ≤ 90) ∨ (97 ≤ c.toNat ∧ c.toNat ≤ 122)) ∨
    (48 ≤ c.toNat ∧ c.toNat ≤ 57) at h
  rw [isBlank, decide_eq_false_iff_not]
  omega

theorem isLineEnd_of_isBlank {c : Char} (h : isBlank c = false) : isLineEnd c = false := by
  rw [isBlank, decide_eq_false_iff_not] at h
  rw [isLineEnd, Bool.eq_false_iff]
  simp only [ne_eq, Bool.or_eq_true, Bool.and_eq_true, decide_eq_true_eq]
  omega

theorem isBlank_of_isLineEnd {c : Char} (h : isLineEnd c) : isBlank c := by
  by_contra hb
  rw [isLineEnd_of_isBlank (by simpa using hb)] at h
  cases h

theorem isLineEnd_of_isAlphanum {c : Char} (h : c.isAlphanum) : isLineEnd c = false :=
  isLineEnd_of_isBlank (isBlank_of_isAlphanum h)

theorem isLineEnd_of_isDigit {c : Char} (h : c.isDigit) : isLineEnd c = false :=
  isLineEnd_of_isAlphanum (by rw [Char.isAlphanum, h, Bool.or_true])

theorem isLineEnd_of_isPrintable {c : Char} (h : Text.isPrintable c) (hc : c.toNat < 0x80) :
    isLineEnd c = false := by
  have hprint : c.toNat < 0x7f → 0x20 ≤ c.toNat := by
    intro hlt
    rw [Text.isPrintable, if_pos hlt] at h
    exact of_decide_eq_true h
  rw [isLineEnd, Bool.eq_false_iff]
  simp only [ne_eq, Bool.or_eq_true, Bool.and_eq_true, decide_eq_true_eq]
  omega

theorem isLineEnd_of_baseDigit {c : Char} (h : ∃ k, Number.baseDigit? c = some k) :
    isLineEnd c = false := by
  obtain ⟨k, hk⟩ := h
  refine isLineEnd_of_isAlphanum ?_
  simp only [Number.baseDigit?, Char.le_def] at hk
  simp only [Char.isAlphanum, Char.isAlpha, Char.isUpper, Char.isLower, Char.isDigit]
  split_ifs at hk <;> simp_all

/-! ## The first character of a number's parts -/

theorem digitRun_cons {p : Char → Bool} {c : Char} (hc : c ≠ '_') (done rest : List Char) :
    digitRun p done (c :: rest) =
      if p c then digitRun p (c :: done) rest else some (done.reverse, c :: rest) := by
  rw [digitRun]
  · simp [hc]
  · simp [hc]

theorem finishFraction_cons (digits : Nat) (e : Int) (c : Char) (rest : List Char) :
    finishFraction digits e (c :: rest) =
      if c = 'j' ∨ c = 'J' then
        if endsNumber rest then some (.imaginary (Number.ofDecimal false digits e), rest) else none
      else if endsNumber (c :: rest) then some (.float (Number.ofDecimal false digits e), c :: rest)
      else none := by
  by_cases hj : c = 'j'
  · subst hj
    rfl
  · by_cases hJ : c = 'J'
    · subst hJ
      rfl
    · simp [finishFraction, hj, hJ]

theorem readDecimalTail_cons (whole : List Char) (c : Char) (rest : List Char) :
    readDecimalTail whole (c :: rest) =
      if c = '.' then readFraction whole rest
      else if c = 'j' ∨ c = 'J' then
        if endsNumber rest then
          some (.imaginary (Number.ofDecimal false (Number.decimalValue whole) 0), rest)
        else none
      else if startsExponent (c :: rest) then readExponentPart whole [] (c :: rest)
      else if whole.head? = some '0' ∧ Number.decimalValue whole ≠ 0 then none
      else if Number.maxDigits < whole.length then none
      else if endsNumber (c :: rest) then some (.int (Number.decimalValue whole), c :: rest)
      else none := by
  by_cases hp : c = '.'
  · subst hp
    rfl
  · by_cases hj : c = 'j'
    · subst hj
      rfl
    · by_cases hJ : c = 'J'
      · subst hJ
        rfl
      · simp [readDecimalTail, hp, hj, hJ]

theorem readBased_cons {base : Nat} {c : Char} (hc : c ≠ '_') (rest : List Char) :
    readBased base (c :: rest) = readBased base ('_' :: c :: rest) := by
  simp [readBased, hc]

theorem readNumber_cons {c : Char} (hp : c ≠ '.') (hz : c ≠ '0') (rest : List Char) :
    readNumber (c :: rest) =
      (digitRun Char.isDigit [c] rest).bind fun run => readDecimalTail run.1 run.2 := by
  simp [readNumber, hz]

/-! ## Texts that go side by side -/

/-- The depth of a line, from a depth at which its spaces and tabs start. -/
def depthFrom (column narrow : Nat) : List Char → Nat × Nat
  | ' ' :: rest => depthFrom (column + 1) (narrow + 1) rest
  | '\t' :: rest => depthFrom ((column / 8 + 1) * 8) (narrow + 1) rest
  | _ => (column, narrow)

/-- Which depth of a line belongs to which depth of the line moved. -/
abbrev Shift := Nat × Nat → Nat × Nat → Prop

/-- How many spaces are put before a line, which starts a text: none where it is blank. -/
inductive Margin (M : Shift) : Nat → List Char → Prop
  | finished : Margin M 0 []
  | blank {b r : List Char} {e : Char} : (∀ c ∈ b, isBlank c ∧ isLineEnd c = false) →
      isLineEnd e → Margin M 0 (b ++ e :: r)
  | line {m r : List Char} {d : Char} : (∀ c ∈ m, c = ' ' ∨ c = '\t') → d ≠ ' ' → d ≠ '\t' →
      isLineEnd d = false → (d = '\\' → m ≠ []) → M (depthFrom 0 0 m) (depthFrom 4 4 m) →
      Margin M 4 (m ++ d :: r)

/-- Two texts are the same but for so many characters that the second has more: spaces put before
its lines, and what follows its end. -/
inductive Along (M : Shift) (extra : List Char) :
    Nat → List Char → List Char → Prop
  | done : Along M extra extra.length [] extra
  | char {k : Nat} {c : Char} {q x : List Char} : isLineEnd c = false → q ≠ [] →
      Along M extra k q x → Along M extra k (c :: q) (c :: x)
  | lineEnd {k n : Nat} {e : Char} {q x : List Char} : isLineEnd e → (e ≠ '\n' → q ≠ []) →
      Margin M n q → Along M extra k q x →
      Along M extra (k + n) (e :: q) (e :: (List.replicate n ' ' ++ x))

namespace Along

variable {M : Shift} {extra : List Char} {k : Nat} {c : Char} {q x : List Char}

theorem head (h : Along M extra k (c :: q) x) : ∃ y, x = c :: y := by
  cases h <;> exact ⟨_, rfl⟩

theorem exists_cons (h : Along M extra k q x) (hne : q ≠ []) :
    ∃ c r y, q = c :: r ∧ x = c :: y := by
  obtain ⟨c, r, rfl⟩ := List.exists_cons_of_ne_nil hne
  obtain ⟨y, rfl⟩ := h.head
  exact ⟨c, r, y, rfl, rfl⟩

/-- Inside a line the texts go on together. -/
theorem tail {y : List Char} (h : Along M extra k (c :: q) (c :: y)) (hc : isLineEnd c = false) :
    q ≠ [] ∧ Along M extra k q y := by
  cases h with
  | char _ hne h => exact ⟨hne, h⟩
  | lineEnd he => simp [hc] at he

/-- After a line end spaces may have been put in. -/
theorem tail_of_lineEnd {y : List Char} (h : Along M extra k (c :: q) (c :: y)) (hc : isLineEnd c) :
    ∃ n j z, y = List.replicate n ' ' ++ z ∧ Margin M n q ∧ Along M extra j q z ∧ j + n = k ∧
      (c ≠ '\n' → q ≠ []) := by
  cases h with
  | char hc' => simp [hc] at hc'
  | lineEnd _ hne hn h => exact ⟨_, _, _, rfl, hn, h, rfl, hne⟩

/-- Both texts go on at the end of the same line. -/
theorem dropWhile_feed (h : Along M extra k q x) (hne : q ≠ []) :
    ∃ j ≤ k, ∃ r y, q.dropWhile (· ≠ '\n') = '\n' :: r ∧ x.dropWhile (· ≠ '\n') = '\n' :: y ∧
      Along M extra j ('\n' :: r) ('\n' :: y) := by
  induction h with
  | done => exact absurd rfl hne
  | @char k c q x hc hnext h ih =>
    have hfeed : c ≠ '\n' := by
      rintro rfl
      cases hc
    simpa [hfeed] using ih hnext
  | @lineEnd k n e q x he hnext hn h ih =>
    by_cases hfeed : e = '\n'
    · subst hfeed
      exact ⟨k + n, le_rfl, _, _, rfl, rfl, .lineEnd he hnext hn h⟩
    · have hspaces : ∀ c ∈ List.replicate n ' ', decide (c ≠ '\n') = true := by
        intro c hc
        rw [List.eq_of_mem_replicate hc]
        rfl
      obtain ⟨j, hj, r, y, hr, hy, hry⟩ := ih (hnext hfeed)
      have hskip := fun q : List Char => List.dropWhile_cons_of_pos (p := (· ≠ '\n')) (l := q)
        (decide_eq_true hfeed)
      exact ⟨j, by omega, r, y, by rw [hskip, hr],
        by rw [hskip, List.dropWhile_append_of_pos hspaces, hy], hry⟩

/-- A run of characters inside a line is the same in both texts. -/
theorem span {p : Char → Bool} (h : Along M extra k q x) (hne : q ≠ [])
    (hp : ∀ c ∈ q.takeWhile p, isLineEnd c = false) : x.takeWhile p = q.takeWhile p ∧
      ∃ d r y, q.dropWhile p = d :: r ∧ x.dropWhile p = d :: y ∧
        Along M extra k (d :: r) (d :: y) := by
  induction h with
  | done => exact absurd rfl hne
  | @char k c q x hc hnext h ih =>
    by_cases hpc : p c
    · rw [List.takeWhile_cons_of_pos hpc] at hp
      obtain ⟨htake, d, r, y, hr, hy, hry⟩ := ih hnext fun d hd => hp d (.tail _ hd)
      exact ⟨by simp [hpc, htake], d, r, y, by simp [hpc, hr], by simp [hpc, hy], hry⟩
    · exact ⟨by simp [hpc], c, q, x, by simp [hpc], by simp [hpc], .char hc hnext h⟩
  | @lineEnd k n e q x he hnext hn h =>
    have hpe : p e = false := by
      by_contra hpe
      rw [List.takeWhile_cons_of_pos (by simpa using hpe)] at hp
      simp [he] at hp
    exact ⟨by simp [hpe], e, q, _, by simp [hpe], by simp [hpe], .lineEnd he hnext hn h⟩

/-- A piece of a line is taken off both texts. -/
theorem drop (h : Along M extra k q x) (hne : q ≠ []) {w : List Char}
    (hw : ∀ c ∈ w, isLineEnd c = false) (hq : w.isPrefixOf q) :
    q.drop w.length ≠ [] ∧ Along M extra k (q.drop w.length) (x.drop w.length) := by
  induction w generalizing q x with
  | nil => exact ⟨hne, h⟩
  | cons d w ih =>
    obtain ⟨hd, hw⟩ := List.forall_mem_cons.mp hw
    obtain ⟨c, q, y, rfl, rfl⟩ := h.exists_cons hne
    simp only [List.isPrefixOf, Bool.and_eq_true, beq_iff_eq] at hq
    obtain ⟨rfl, hq⟩ := hq
    obtain ⟨hne, hy⟩ := h.tail hd
    exact ih hy hne hw hq

/-- A piece of a line stands in both texts or in none. -/
theorem isPrefixOf (h : Along M extra k q x) (hne : q ≠ []) {w : List Char}
    (hw : ∀ c ∈ w, isLineEnd c = false) : w.isPrefixOf x = w.isPrefixOf q := by
  induction w generalizing q x with
  | nil => simp
  | cons d w ih =>
    obtain ⟨hd, hw⟩ := List.forall_mem_cons.mp hw
    obtain ⟨c, q, y, rfl, rfl⟩ := h.exists_cons hne
    by_cases hc : d = c
    · obtain ⟨hne, hy⟩ := h.tail (hc ▸ hd)
      simp [List.isPrefixOf, hc, ih hy hne hw]
    · simp [List.isPrefixOf, beq_false_of_ne hc]

theorem of_append {w : List Char} (hw : ∀ c ∈ w, isLineEnd c = false)
    (h : Along M extra k (w ++ q) x) (hne : q ≠ []) : ∃ y, x = w ++ y ∧ Along M extra k q y := by
  have hne : w ++ q ≠ [] := by simp [hne]
  have hprefix : w.isPrefixOf x := by
    rw [h.isPrefixOf hne hw]
    simp
  obtain ⟨y, rfl⟩ := List.isPrefixOf_iff_prefix.mp hprefix
  exact ⟨y, rfl, by simpa using (h.drop hne hw (by simp)).2⟩

theorem endsNumber (h : Along M extra k q x) (hne : q ≠ []) :
    Source.endsNumber x = Source.endsNumber q := by
  have hwords : ∀ w ∈ ["and", "else", "for", "if", "in", "is", "or", "not"],
      w.toList.isPrefixOf x = w.toList.isPrefixOf q := by
    intro w hw
    refine h.isPrefixOf hne ?_
    fin_cases hw <;> simp [isLineEnd]
  obtain ⟨c, q, y, rfl, rfl⟩ := h.exists_cons hne
  rw [Source.endsNumber, Source.endsNumber]
  congr 1
  rw [Bool.eq_iff_iff, List.any_eq_true, List.any_eq_true]
  exact exists_congr fun w => and_congr_right fun hw => by rw [hwords w hw]

theorem startsExponent (h : Along M extra k q x) (hne : q ≠ []) :
    Source.startsExponent x = Source.startsExponent q := by
  obtain ⟨c, q, y, rfl, rfl⟩ := h.exists_cons hne
  by_cases hc : c = 'e' ∨ c = 'E'
  · obtain ⟨hne, hy⟩ := h.tail (by rcases hc with rfl | rfl <;> rfl)
    obtain ⟨d, q, z, rfl, rfl⟩ := hy.exists_cons hne
    rfl
  · cases q <;> cases y <;> simp [Source.startsExponent, hc]

theorem takeSign (h : Along M extra k q x) (hne : q ≠ []) :
    ∃ negative r y, Number.takeSign q = (negative, r) ∧ Number.takeSign x = (negative, y) ∧
      r ≠ [] ∧ Along M extra k r y := by
  obtain ⟨c, q, y, rfl, rfl⟩ := h.exists_cons hne
  by_cases hm : c = '-'
  · subst hm
    exact ⟨true, q, y, rfl, rfl, h.tail rfl⟩
  · by_cases hp : c = '+'
    · subst hp
      exact ⟨false, q, y, rfl, rfl, h.tail rfl⟩
    · exact ⟨false, c :: q, c :: y, by simp [Number.takeSign, hm, hp],
        by simp [Number.takeSign, hm, hp], hne, h⟩

end Along

section

variable {α β : Type} {M : Shift} {extra : List Char} {k : Nat}

/-- What is read of one text is read of the other. -/
def Kept (M : Shift) (extra : List Char) (k : Nat)
    (o o' : Option (α × List Char)) : Prop :=
  ∀ a r, o = some (a, r) → ∃ y, o' = some (a, y) ∧ r ≠ [] ∧ Along M extra k r y

namespace Kept

variable {o o' p p' : Option (α × List Char)} {q x : List Char}

theorem failed : Kept M extra k none o' := by
  intro a r h
  cases h

theorem given (a : α) (hne : q ≠ []) (h : Along M extra k q x) :
    Kept M extra k (some (a, q)) (some (a, x)) := by
  intro a r h
  cases h
  exact ⟨x, rfl, hne, h⟩

theorem ite {c : Prop} [Decidable c] (h : c → Kept M extra k o o')
    (h' : ¬ c → Kept M extra k p p') : Kept M extra k (if c then o else p) (if c then o' else p') := by
  by_cases hc : c
  · simpa only [if_pos hc] using h hc
  · simpa only [if_neg hc] using h' hc

theorem bind {f : α × List Char → Option (β × List Char)} (h : Kept M extra k o o')
    (hf : ∀ a r y, r ≠ [] → Along M extra k r y → Kept M extra k (f (a, r)) (f (a, y))) :
    Kept M extra k (o.bind f) (o'.bind f) := by
  intro b s hb
  obtain ⟨⟨a, r⟩, ho, hr⟩ := Option.bind_eq_some_iff.mp hb
  obtain ⟨y, ho', hne, hy⟩ := h a r ho
  obtain ⟨z, hz, hs⟩ := hf a r y hne hy b s hr
  exact ⟨z, by rw [ho', Option.bind_some, hz], hs⟩

theorem ended (a : α) (hne : q ≠ []) (h : Along M extra k q x) :
    Kept M extra k (if endsNumber q then some (a, q) else none)
      (if endsNumber x then some (a, x) else none) := by
  rw [h.endsNumber hne]
  exact .ite (fun _ => .given a hne h) fun _ => .failed

theorem digitRun {p : Char → Bool} (hp : ∀ c, p c → isLineEnd c = false) (done : List Char)
    (hne : q ≠ []) (h : Along M extra k q x) :
    Kept M extra k (digitRun p done q) (digitRun p done x) := by
  fun_induction Source.digitRun p done q generalizing x with
  | case1 => exact absurd rfl hne
  | case2 done d rest hd ih =>
    obtain ⟨y, rfl⟩ := h.head
    obtain ⟨hne, hy⟩ := h.tail rfl
    obtain ⟨z, rfl⟩ := hy.head
    obtain ⟨hne, hz⟩ := hy.tail (hp d hd)
    rw [Source.digitRun, if_pos hd]
    exact ih hne hz
  | case3 => exact .failed
  | case4 done c rest hnext hc ih =>
    obtain ⟨y, rfl⟩ := h.head
    obtain ⟨hne, hy⟩ := h.tail (hp c hc)
    obtain ⟨d, rest, rfl⟩ := List.exists_cons_of_ne_nil hne
    rw [digitRun_cons fun hc => hnext d rest hc rfl, if_pos hc]
    exact ih hne hy
  | case5 => exact .failed
  | case6 done c rest _ hc hc' =>
    obtain ⟨y, rfl⟩ := h.head
    rw [digitRun_cons hc', if_neg hc]
    exact .given _ hne h

theorem finishFraction (digits : Nat) (e : Int) (hne : q ≠ []) (h : Along M extra k q x) :
    Kept M extra k (finishFraction digits e q) (finishFraction digits e x) := by
  obtain ⟨c, q, y, rfl, rfl⟩ := h.exists_cons hne
  rw [finishFraction_cons, finishFraction_cons]
  refine .ite (fun hc => ?_) fun _ => .ended _ hne h
  obtain ⟨hne, hy⟩ := h.tail (by rcases hc with rfl | rfl <;> rfl)
  exact .ended _ hne hy

theorem readExponentPart (whole fraction : List Char) (hne : q ≠ []) (h : Along M extra k q x) :
    Kept M extra k (readExponentPart whole fraction q) (readExponentPart whole fraction x) := by
  rw [Source.readExponentPart, Source.readExponentPart, h.startsExponent hne]
  refine .ite (fun hs => ?_) fun _ => finishFraction _ _ hne h
  obtain ⟨c, q, y, rfl, rfl⟩ := h.exists_cons hne
  have hc : isLineEnd c = false := by
    cases q with
    | nil => cases hs
    | cons s q =>
      simp only [startsExponent, Bool.decide_and, Bool.and_eq_true, decide_eq_true_eq] at hs
      rcases hs.1 with rfl | rfl <;> rfl
  obtain ⟨hne, hy⟩ := h.tail hc
  obtain ⟨negative, r, z, hr, hz, hne, hrz⟩ := hy.takeSign hne
  obtain ⟨d, r, w, rfl, rfl⟩ := hrz.exists_cons hne
  simp only [List.tail_cons, hr, hz]
  refine .ite (fun hd => ?_) fun _ => .failed
  obtain ⟨hne, hw⟩ := hrz.tail (isLineEnd_of_isDigit hd)
  exact (digitRun (fun _ => isLineEnd_of_isDigit) _ hne hw).bind fun _ _ _ hne h =>
    finishFraction _ _ hne h

theorem readFraction (whole : List Char) (hne : q ≠ []) (h : Along M extra k q x) :
    Kept M extra k (readFraction whole q) (readFraction whole x) := by
  obtain ⟨c, q, y, rfl, rfl⟩ := h.exists_cons hne
  refine .ite (fun hc => ?_) fun _ => readExponentPart _ _ hne h
  obtain ⟨hne, hy⟩ := h.tail (isLineEnd_of_isDigit hc)
  exact (digitRun (fun _ => isLineEnd_of_isDigit) _ hne hy).bind fun _ _ _ hne h =>
    readExponentPart _ _ hne h

theorem readDecimalTail (whole : List Char) (hne : q ≠ []) (h : Along M extra k q x) :
    Kept M extra k (readDecimalTail whole q) (readDecimalTail whole x) := by
  have hstarts := h.startsExponent hne
  obtain ⟨c, q, y, rfl, rfl⟩ := h.exists_cons hne
  rw [readDecimalTail_cons, readDecimalTail_cons, hstarts]
  refine .ite (fun hc => ?_) fun _ => .ite (fun hc => ?_) fun _ => .ite (fun _ => ?_) fun _ =>
    .ite (fun _ => .failed) fun _ => .ite (fun _ => .failed) fun _ => .ended _ hne h
  · obtain ⟨hne, hy⟩ := h.tail (by subst hc; rfl)
    exact readFraction _ hne hy
  · obtain ⟨hne, hy⟩ := h.tail (by rcases hc with rfl | rfl <;> rfl)
    exact .ended _ hne hy
  · exact readExponentPart _ _ hne h

theorem readBased (base : Nat) (hne : q ≠ []) (h : Along M extra k q x) :
    Kept M extra k (readBased base q) (readBased base x) := by
  have hdigits : ∀ {d q y}, Along M extra k (d :: q) (d :: y) →
      Kept M extra k (Source.readBased base ('_' :: d :: q))
        (Source.readBased base ('_' :: d :: y)) := by
    intro d q y h
    refine .ite (fun hd => ?_) fun _ => .failed
    obtain ⟨hne, hy⟩ := h.tail (isLineEnd_of_baseDigit (by grind))
    refine (digitRun (fun c hc => isLineEnd_of_baseDigit (by grind)) _ hne hy).bind ?_
    intro run r z hne hz
    obtain ⟨e, r, w, rfl, rfl⟩ := hz.exists_cons hne
    simp only [hz.endsNumber hne]
    exact .ite (fun _ => .failed) fun _ => .given _ hne hz
  obtain ⟨c, q, y, rfl, rfl⟩ := h.exists_cons hne
  by_cases hc : c = '_'
  · subst hc
    obtain ⟨hne, hy⟩ := h.tail rfl
    obtain ⟨d, q, z, rfl, rfl⟩ := hy.exists_cons hne
    exact hdigits hy
  · rw [readBased_cons hc, readBased_cons hc]
    exact hdigits h

/-- A number is read of both texts. -/
theorem readNumber {c : Char} (h : Along M extra k (c :: q) (c :: x)) (hc : isLineEnd c = false) :
    Kept M extra k (readNumber (c :: q)) (readNumber (c :: x)) := by
  obtain ⟨hne, hy⟩ := h.tail hc
  by_cases hp : c = '.'
  · subst hp
    exact readFraction _ hne hy
  by_cases hz : c = '0'
  · subst hz
    obtain ⟨d, q, z, rfl, rfl⟩ := hy.exists_cons hne
    refine .ite (fun hd => ?_) fun _ => .ite (fun hd => ?_) fun _ => .ite (fun hd => ?_) fun _ => ?_
    · obtain ⟨hne, hz⟩ := hy.tail (by rcases hd with rfl | rfl <;> rfl)
      exact readBased _ hne hz
    · obtain ⟨hne, hz⟩ := hy.tail (by rcases hd with rfl | rfl <;> rfl)
      exact readBased _ hne hz
    · obtain ⟨hne, hz⟩ := hy.tail (by rcases hd with rfl | rfl <;> rfl)
      exact readBased _ hne hz
    · exact (digitRun (fun _ => isLineEnd_of_isDigit) _ hne hy).bind fun _ _ _ hne h =>
        readDecimalTail _ hne h
  · rw [readNumber_cons hp hz, readNumber_cons hp hz]
    exact (digitRun (fun _ => isLineEnd_of_isDigit) _ hne hy).bind fun _ _ _ hne h =>
      readDecimalTail _ hne h

end Kept

end

/-! ## Tokens inside a line -/

/-- What is scanned of one text is scanned of the other; nothing is said where the first text breaks
off, or holds a quotation over several lines. -/
inductive Scans (M : Shift) (extra : List Char) (k : Nat)
    (depths depths' : List (Nat × Nat)) : Scanned → Scanned → Prop
  | failed {s : Scanned} : Scans M extra k depths depths' .failed s
  | long {q : Quotation} {l : Layout} {r : List Char} {s : Scanned} :
      (∃ c ∈ q.body, isLineEnd c) → Scans M extra k depths depths' (.token (.text q) l r) s
  | token {t : Token} [t.Plain] {b r y : List Char} : r ≠ [] → Along M extra k r y →
      Scans M extra k depths depths' (.token t ⟨b, depths⟩ r) (.token t ⟨b, depths'⟩ y)
  | skipped (n : Nat) {j : Nat} {r y : List Char} : r ≠ [] → Along M extra j r y → j + n ≤ k →
      Scans M extra k depths depths' (.skipped r) (.skipped (List.replicate n ' ' ++ y))
  | continued {j n : Nat} {r y : List Char} : Margin M n r → Along M extra j r y → j + n ≤ k →
      Scans M extra k depths depths' (.continued r) (.continued (List.replicate n ' ' ++ y))
  | lineEnd {j n : Nat} {r y : List Char} : Margin M n r → Along M extra j r y → j + n ≤ k →
      Scans M extra k depths depths' (.lineEnd r) (.lineEnd (List.replicate n ' ' ++ y))

section

variable {M : Shift} {extra : List Char} {k : Nat} {quote : Char}
  {q x r done body : List Char}

theorem subset_shortBody (h : shortBody quote done q = some (body, r)) : done ⊆ body := by
  fun_induction shortBody quote done q with grind

theorem subset_longBody (h : longBody quote done q = some (body, r)) : done ⊆ body := by
  fun_induction longBody quote done q with grind

theorem shortBody_cons {c : Char} (hc : c ≠ '\\') (rest : List Char) :
    shortBody quote done (c :: rest) =
      if c = quote then some (done.reverse, rest)
      else if c = '\n' then none else shortBody quote (c :: done) rest := by
  rw [shortBody]
  simp [hc]

theorem longBody_cons {c : Char} (hc : c ≠ '\\') (rest : List Char) :
    longBody quote done (c :: rest) =
      if c = quote ∧ [quote, quote].isPrefixOf rest then some (done.reverse, rest.drop 2)
      else longBody quote (c :: done) rest := by
  rw [longBody]
  simp [hc]

theorem Along.shortBody (h : Along M extra k q x) (hne : q ≠ []) (hquote : isLineEnd quote = false)
    (hq : shortBody quote done q = some (body, r)) (hbody : ∀ c ∈ body, isLineEnd c = false) :
    ∃ y, Source.shortBody quote done x = some (body, y) ∧ r ≠ [] ∧ Along M extra k r y := by
  fun_induction Source.shortBody quote done q generalizing x with
  | case1 => cases hq
  | case2 done c rest ih =>
    obtain ⟨y, rfl⟩ := h.head
    obtain ⟨hne, hy⟩ := h.tail rfl
    obtain ⟨z, rfl⟩ := hy.head
    obtain ⟨hne, hz⟩ := hy.tail (hbody c (subset_shortBody hq (by simp)))
    exact ih hz hne hq
  | case3 done rest hnext =>
    obtain ⟨y, rfl⟩ := h.head
    obtain ⟨hne, hy⟩ := h.tail hquote
    obtain ⟨d, rest, rfl⟩ := List.exists_cons_of_ne_nil hne
    cases hq
    exact ⟨y, by rw [shortBody_cons fun hc => hnext d rest hc rfl, if_pos rfl], hne, hy⟩
  | case4 => cases hq
  | case5 done c rest hnext hc hfeed ih =>
    obtain ⟨y, rfl⟩ := h.head
    obtain ⟨hne, hy⟩ := h.tail (hbody c (subset_shortBody hq (by simp)))
    obtain ⟨d, rest, rfl⟩ := List.exists_cons_of_ne_nil hne
    rw [shortBody_cons fun hc => hnext d rest hc rfl, if_neg hc, if_neg hfeed]
    exact ih hy hne hq

theorem Along.longBody (h : Along M extra k q x) (hne : q ≠ []) (hquote : isLineEnd quote = false)
    (hq : longBody quote done q = some (body, r)) (hbody : ∀ c ∈ body, isLineEnd c = false) :
    ∃ y, Source.longBody quote done x = some (body, y) ∧ r ≠ [] ∧ Along M extra k r y := by
  have hquotes : ∀ c ∈ [quote, quote], isLineEnd c = false := by simpa using hquote
  fun_induction Source.longBody quote done q generalizing x with
  | case1 => cases hq
  | case2 done c rest ih =>
    obtain ⟨y, rfl⟩ := h.head
    obtain ⟨hne, hy⟩ := h.tail rfl
    obtain ⟨z, rfl⟩ := hy.head
    obtain ⟨hne, hz⟩ := hy.tail (hbody c (subset_longBody hq (by simp)))
    exact ih hz hne hq
  | case3 done c rest hnext hc =>
    obtain ⟨y, rfl⟩ := h.head
    obtain ⟨hne, hy⟩ := h.tail (hc.1 ▸ hquote)
    obtain ⟨d, rest, rfl⟩ := List.exists_cons_of_ne_nil hne
    cases hq
    rw [← hy.isPrefixOf hne hquotes] at hc
    rw [longBody_cons fun hc => hnext d rest hc rfl, if_pos hc]
    rw [hy.isPrefixOf hne hquotes] at hc
    exact ⟨_, rfl, hy.drop hne hquotes hc.2⟩
  | case4 done c rest hnext hc ih =>
    obtain ⟨y, rfl⟩ := h.head
    obtain ⟨hne, hy⟩ := h.tail (hbody c (subset_longBody hq (by simp)))
    obtain ⟨d, rest, rfl⟩ := List.exists_cons_of_ne_nil hne
    rw [← hy.isPrefixOf hne hquotes] at hc
    rw [longBody_cons fun hc => hnext d rest hc rfl, if_neg hc]
    exact ih hy hne hq

/-- A quotation inside a line is read of both texts. -/
theorem Along.readQuoted (h : Along M extra k q x) (hne : q ≠ []) (hquote : isLineEnd quote = false)
    (hhead : q.head? = some quote) (hq : readQuoted quote q = some (body, r))
    (hbody : ∀ c ∈ body, isLineEnd c = false) :
    ∃ y, Source.readQuoted quote x = some (body, y) ∧ r ≠ [] ∧ Along M extra k r y := by
  have hquotes : ∀ c ∈ [quote, quote, quote], isLineEnd c = false := by simpa using hquote
  have htriple := h.isPrefixOf hne hquotes
  rw [Source.readQuoted, htriple]
  rw [Source.readQuoted] at hq
  split at hq
  · rename_i htriple
    obtain ⟨hne, hy⟩ := h.drop hne hquotes htriple
    rw [if_pos htriple]
    exact hy.longBody hne hquote hq hbody
  · rename_i hshort
    obtain ⟨c, q, y, rfl, rfl⟩ := h.exists_cons hne
    cases hhead
    obtain ⟨hne, hy⟩ := h.tail hquote
    rw [if_neg hshort]
    exact hy.shortBody hne hquote hq hbody

end

section

variable {M : Shift} {extra : List Char} {k : Nat} {depths depths' : List (Nat × Nat)}
  {s s' u u' : Scanned} {c : Char} {b q y : List Char}

theorem Scans.ite {p : Prop} [Decidable p] (h : p → Scans M extra k depths depths' s s')
    (h' : ¬ p → Scans M extra k depths depths' u u') :
    Scans M extra k depths depths' (if p then s else u) (if p then s' else u') := by
  by_cases hp : p
  · simpa only [if_pos hp] using h hp
  · simpa only [if_neg hp] using h' hp

theorem isAlphanum_of_isBlank {d : Char} (hb : isBlank d) : d.isAlphanum = false := by
  by_contra h
  rw [isBlank_of_isAlphanum (by simpa using h)] at hb
  cases hb

/-- A blank stands in no word. -/
theorem wordToken_of_isBlank {word : List Char} {d : Char} (hd : d ∈ word) (hb : isBlank d) :
    wordToken word = none := by
  have hkeyword : keywords.contains (String.ofList word) = false := by
    have hplain : keywords.all (fun w => w.toList.all fun c => !isBlank c) := by cbv
    rw [← Bool.not_eq_true, List.contains_iff_mem]
    intro hk
    have := List.all_eq_true.mp (List.all_eq_true.mp hplain _ hk) d (by simpa using hd)
    simp [hb] at this
  have halpha := isAlphanum_of_isBlank hb
  have hline : d ≠ '_' := by
    rintro rfl
    cases hb
  have hstart : Text.isIdentifierStart d = false := by
    simp only [Char.isAlphanum, Bool.or_eq_false_iff] at halpha
    simp [Text.isIdentifierStart, halpha, hline, hb]
  have hpart : Text.isIdentifierPart d = false := by
    simp [Text.isIdentifierPart, halpha, hline, hb]
  cases word with
  | nil => cases hd
  | cons c rest =>
    have hword : (Text.isIdentifierStart c && rest.all Text.isIdentifierPart) = false := by
      rcases List.mem_cons.mp hd with rfl | hd
      · rw [hstart, Bool.false_and]
      · rw [Bool.and_eq_false_iff]
        exact .inr (List.all_eq_false.mpr ⟨d, hd, by simp [hpart]⟩)
    simp only [wordToken, hkeyword, hword]
    rfl

theorem isTextMark_of_isBlank {word : List Char} {d : Char} (hd : d ∈ word) (hb : isBlank d) :
    isTextMark word = false := by
  have hplain : ["", "r", "b", "u", "f", "rb", "br", "rf", "fr"].all
      (fun w => w.toList.all fun c => !isBlank c) := by cbv
  have hlower : d.toLower = d := by
    have halpha := isAlphanum_of_isBlank hb
    simp only [Char.isAlphanum, Char.isAlpha, Bool.or_eq_false_iff] at halpha
    exact Char.toLower_eq_of_not_isUpper (by simp [halpha])
  rw [isTextMark, ← Bool.not_eq_true, List.contains_iff_mem]
  intro hm
  have := List.all_eq_true.mp (List.all_eq_true.mp hplain _ hm) d
    (by rw [String.toList_ofList]; exact List.mem_map.mpr ⟨d, hd, hlower⟩)
  simp [hb] at this

theorem plain_of_wordToken {word : List Char} {t : Token} (h : wordToken word = some t) :
    t.Plain := by
  simp only [wordToken] at h
  split at h
  · cases h
    infer_instance
  · split at h
    · split at h <;> cases h
      infer_instance
    · cases h

theorem not_isLineEnd_of_mem_signs {w : String} (hw : w ∈ signs) :
    ∀ c ∈ w.toList, isLineEnd c = false := by
  fin_cases hw <;> simp [isLineEnd]

theorem Along.find?_signs (h : Along M extra k q y) (hne : q ≠ []) :
    signs.find? (fun s => s.toList.isPrefixOf y) = signs.find? (fun s => s.toList.isPrefixOf q) :=
  List.find?_congr fun _ hs => h.isPrefixOf hne (not_isLineEnd_of_mem_signs hs)

theorem Along.readQuoted_cases {quote : Char} (h : Along M extra k q y)
    (hhead : q.head? = some quote) (hquote : quote = '"' ∨ quote = '\'') :
    Source.readQuoted quote q = none ∨
      (∃ body r, Source.readQuoted quote q = some (body, r) ∧ ∃ c ∈ body, isLineEnd c) ∨
      ∃ body r z, Source.readQuoted quote q = some (body, r) ∧
        Source.readQuoted quote y = some (body, z) ∧ r ≠ [] ∧ Along M extra k r z := by
  have hne : q ≠ [] := by
    rintro rfl
    cases hhead
  cases hq : Source.readQuoted quote q with
  | none => exact .inl rfl
  | some p =>
    by_cases hbody : ∃ c ∈ p.1, isLineEnd c
    · exact .inr (.inl ⟨p.1, p.2, rfl, hbody⟩)
    · obtain ⟨z, hz, hr⟩ := h.readQuoted hne (by rcases hquote with rfl | rfl <;> rfl) hhead hq
        (by simpa using hbody)
      exact .inr (.inr ⟨p.1, p.2, z, rfl, hz, hr⟩)

theorem scanToken_along (h : Along M extra k (c :: q) (c :: y)) :
    Scans M extra k depths depths' (scanToken ⟨b, depths⟩ (c :: q))
      (scanToken ⟨b, depths'⟩ (c :: y)) := by
  refine .ite (fun hc => ?_) fun _ => .ite (fun hc => ?_) fun _ => .ite (fun hc => ?_) fun _ =>
    .ite (fun hc => ?_) fun _ => .ite (fun hc => ?_) fun _ => .ite (fun hc => ?_) fun hword => ?_
  · rcases hc with rfl | rfl | rfl
    · obtain ⟨hne, hy⟩ := h.tail rfl
      exact .skipped 0 hne hy le_rfl
    · obtain ⟨hne, hy⟩ := h.tail rfl
      exact .skipped 0 hne hy le_rfl
    · obtain ⟨n, j, z, rfl, -, hz, hj, hne⟩ := h.tail_of_lineEnd rfl
      exact .skipped n (hne (by decide)) hz hj.le
  · subst hc
    obtain ⟨hne, hy⟩ := h.tail rfl
    obtain ⟨j, hj, r, z, hr, hz, hrz⟩ := hy.dropWhile_feed hne
    rw [hr, hz]
    exact .skipped 0 (by simp) hrz hj
  · subst hc
    obtain ⟨n, j, z, rfl, hn, hz, hj, -⟩ := h.tail_of_lineEnd rfl
    exact .ite (fun _ => .lineEnd hn hz hj.le) fun _ => .continued hn hz hj.le
  · subst hc
    obtain ⟨hne, hy⟩ := h.tail rfl
    obtain ⟨d, r, z, rfl, rfl⟩ := hy.exists_cons hne
    by_cases hd : d = '\n'
    · subst hd
      obtain ⟨n, j, w, rfl, -, hw, hj, -⟩ := hy.tail_of_lineEnd rfl
      cases r with
      | nil => exact .failed
      | cons d r =>
        have hw' : List.replicate n ' ' ++ w ≠ [] := by
          obtain ⟨v, rfl⟩ := hw.head
          simp
        obtain ⟨e, v, hev⟩ := List.exists_cons_of_ne_nil hw'
        have hskip : Scans M extra k depths depths' _ _ :=
          .skipped n (by simp) hw hj.le
        rw [hev] at hskip ⊢
        exact hskip
    · split
      · simp_all
      · exact .failed
  · obtain hq | ⟨body, r, hq, hbody⟩ | ⟨body, r, z, hq, hy, hne, hz⟩ := h.readQuoted_cases rfl hc
    · simp only [hq]
      exact .failed
    · simp only [hq]
      exact .long hbody
    · simp only [hq, hy]
      exact .token hne hz
  · by_cases hblank : ∃ d ∈ (c :: q).takeWhile isNameChar, isLineEnd d
    · obtain ⟨d, hd, he⟩ := hblank
      have hb := isBlank_of_isLineEnd he
      simp only [wordToken_of_isBlank hd hb, isTextMark_of_isBlank hd hb]
      split
      · simp only [Bool.false_eq_true, and_false, if_false]
        exact .failed
      · exact .failed
    obtain ⟨htake, d, r, z, hr, hz, hrz⟩ :=
      h.span (p := isNameChar) (by simp) (by simpa using hblank)
    simp only [htake, hr, hz]
    refine .ite (fun hd => ?_) fun _ => ?_
    · obtain hq | ⟨body, r, hq, hbody⟩ | ⟨body, r, z, hq, hy, hne, hz⟩ :=
        hrz.readQuoted_cases rfl hd.1
      · simp only [hq]
        exact .failed
      · simp only [hq]
        exact .long hbody
      · simp only [hq, hy]
        exact .token hne hz
    · cases ht : wordToken ((c :: q).takeWhile isNameChar) with
      | none => exact .failed
      | some t =>
        have := plain_of_wordToken ht
        exact .token (by simp) hrz
  · have hnumber : (c.isDigit || (c = '.' && (y.head?.map Char.isDigit).getD false)) =
        (c.isDigit || (c = '.' && (q.head?.map Char.isDigit).getD false)) := by
      by_cases hp : c = '.'
      · obtain ⟨hne, hy⟩ := h.tail (hp ▸ rfl)
        obtain ⟨d, q, y, rfl, rfl⟩ := hy.exists_cons hne
        rfl
      · simp [hp]
    rw [hnumber]
    refine .ite (fun hc => ?_) fun _ => ?_
    · have hend : isLineEnd c = false := by
        rcases Bool.or_eq_true_iff.mp hc with hd | hp
        · exact isLineEnd_of_isDigit hd
        · have := (Bool.and_eq_true_iff.mp hp).1
          rw [of_decide_eq_true this]
          rfl
      have hk := Kept.readNumber h hend
      cases hq : readNumber (c :: q) with
      | none => exact .failed
      | some p =>
        obtain ⟨z, hz, hne, hr⟩ := hk p.1 p.2 hq
        simp only [hz]
        exact .token hne hr
    · cases hclose : closer? c with
      | some close =>
        have hend : isLineEnd c = false := by
          unfold closer? at hclose
          split at hclose <;> first | rfl | cases hclose
        obtain ⟨hne, hy⟩ := h.tail hend
        exact .ite (fun _ => .failed) fun _ => .token hne hy
      | none =>
        refine .ite (fun hc => ?_) fun _ => ?_
        · obtain ⟨hne, hy⟩ := h.tail (by rcases hc with rfl | rfl | rfl <;> rfl)
          cases b with
          | nil => exact .failed
          | cons d b => exact .ite (fun _ => .token hne hy) fun _ => .failed
        · simp only [readSign, h.find?_signs (by simp)]
          cases hw : signs.find? fun w => w.toList.isPrefixOf (c :: q) with
          | some w =>
            have hprefix := List.find?_some hw
            have hdrop := h.drop (by simp)
              (not_isLineEnd_of_mem_signs (List.mem_of_find?_eq_some hw)) hprefix
            exact .token hdrop.1 hdrop.2
          | none =>
            refine .ite (fun hprint => ?_) fun _ => .failed
            have hend : isLineEnd c = false := by
              simp only [Bool.or_eq_true, not_or, decide_eq_true_eq] at hword
              exact isLineEnd_of_isPrintable hprint (by omega)
            obtain ⟨hne, hy⟩ := h.tail hend
            exact .token hne hy

end

end Workflow.Source
