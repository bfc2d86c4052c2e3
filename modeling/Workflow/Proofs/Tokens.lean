/-
Cutting written texts into tokens.

A piece of a text is cut into tokens whatever comes before it, as long as what
follows does not run on from its end (`Cuts`). So a text is cut piece by piece:
words, numbers, signs, quoted texts and the breaks between them, inside brackets
also over lines. A quoted text is one token, which stands for the text that was
quoted (`textOf_quoted`).
-/
import Mathlib
import Workflow.Proofs.Outline
import Workflow.Source.Expression

namespace Workflow.Source

open Text

/-! ## Quoted texts -/

theorem isValidChar_toNat (c : Char) : c.toNat.isValidChar := c.valid

theorem toNat_lt (c : Char) : c.toNat < 0x110000 := by
  have h := isValidChar_toNat c
  unfold Nat.isValidChar at h
  omega

/-- A character is quoted as itself, as an escape of one letter, or by its code point. -/
theorem quoteChar_cases {quote : Char} (hq : quote = '"' ∨ quote = '\'') (c : Char) :
    (∃ d, letterEscape? d = some c ∧ d ≠ '\r' ∧ d ≠ Char.ofNat 0 ∧ quoteChar quote c = ['\\', d]) ∨
    (c ≠ quote ∧ c ≠ '\\' ∧ c ≠ '\n' ∧ c ≠ '\r' ∧ c ≠ Char.ofNat 0 ∧ quoteChar quote c = [c]) ∨
    ∃ d width, (d, width) ∈ [('x', 2), ('u', 4), ('U', 8)] ∧ c.toNat < 16 ^ width ∧
      quoteChar quote c = '\\' :: d :: hexPadded width c.toNat := by
  unfold quoteChar
  split
  case isTrue h =>
    refine .inl ⟨c, ?_⟩
    rcases h with rfl | rfl
    · rcases hq with rfl | rfl <;> decide
    · decide
  case isFalse h =>
    obtain ⟨hcq, hcb⟩ := not_or.mp h
    split
    case isTrue hn => exact .inl ⟨'n', by subst hn; decide⟩
    case isFalse hn =>
      split
      case isTrue hr => exact .inl ⟨'r', by subst hr; decide⟩
      case isFalse hr =>
        split
        case isTrue ht => exact .inl ⟨'t', by subst ht; decide⟩
        case isFalse ht =>
          split
          case isTrue hp =>
            refine .inr (.inl ⟨hcq, hcb, hn, hr, ?_, rfl⟩)
            rintro rfl
            exact absurd hp (by decide)
          case isFalse hp =>
            refine .inr (.inr ?_)
            unfold escapeCode
            split
            · exact ⟨'x', 2, by decide, by omega, rfl⟩
            · split
              · exact ⟨'u', 4, by decide, by omega, rfl⟩
              · have hc := toNat_lt c
                exact ⟨'U', 8, by decide, by omega, rfl⟩

theorem length_hexPadded (width n : Nat) : (hexPadded width n).length = width := by
  induction width generalizing n with
  | zero => rfl
  | succ width ih => rw [hexPadded, List.length_append, ih, List.length_singleton]

theorem isHexDigit_hexPadded {width n : Nat} {c : Char} (h : c ∈ hexPadded width n) :
    isHexDigit c := by
  have digits : ∀ d < 16, isHexDigit (hexChar d) := by decide
  induction width generalizing n with
  | zero => simp [hexPadded] at h
  | succ width ih =>
    rw [hexPadded, List.mem_append, List.mem_singleton] at h
    rcases h with h | rfl
    · exact ih h
    · exact digits _ (Nat.mod_lt _ (by decide))

theorem hexValue_hexPadded {width n : Nat} (h : n < 16 ^ width) :
    hexValue (hexPadded width n) = n := by
  have digits : ∀ d < 16, hexDigitValue (hexChar d) = d := by decide
  induction width generalizing n with
  | zero =>
    obtain rfl : n = 0 := by omega
    rfl
  | succ width ih =>
    have hdiv : hexValue (hexPadded width (n / 16)) = n / 16 := ih (by omega)
    rw [hexValue] at hdiv
    rw [hexPadded, hexValue, List.foldl_append, hdiv, List.foldl_cons, List.foldl_nil,
      digits _ (Nat.mod_lt _ (by decide))]
    omega

theorem takeHex_hexPadded {width n : Nat} (h : n < 16 ^ width) (rest : List Char) :
    takeHex width (hexPadded width n ++ rest) = some (n, rest) := by
  have htake : (hexPadded width n ++ rest).take width = hexPadded width n :=
    List.take_left' (length_hexPadded width n)
  have hdrop : (hexPadded width n ++ rest).drop width = rest :=
    List.drop_left' (length_hexPadded width n)
  have hall : (hexPadded width n).all isHexDigit :=
    List.all_eq_true.mpr fun _ => isHexDigit_hexPadded
  rw [takeHex, htake, hdrop, if_pos ⟨length_hexPadded width n, hall⟩, hexValue_hexPadded h]

theorem codeChar?_toNat (c : Char) : codeChar? c.toNat = some c := by
  have hlt := toNat_lt c
  rw [codeChar?, if_neg (by omega), if_pos (isValidChar_toNat c), Char.ofNat_toNat]

/-- One quoted character stands for the character. -/
theorem resolveText_quoteChar {quote : Char} (hq : quote = '"' ∨ quote = '\'') (c : Char)
    (fuel : Nat) (rest : List Char) :
    resolveText (fuel + 1) (quoteChar quote c ++ rest) = (resolveText fuel rest).map (c :: ·) := by
  rcases quoteChar_cases hq c with ⟨d, hd, -, -, he⟩ | ⟨-, hb, -, -, -, he⟩ | ⟨d, width, hd, hc, he⟩
  · rw [he]
    simp [resolveText, hd]
  · rw [he]
    simp [resolveText, hb]
  · rw [he]
    have hhex := takeHex_hexPadded hc rest
    simp only [List.mem_cons, Prod.mk.injEq, List.not_mem_nil, or_false] at hd
    rcases hd with ⟨rfl, rfl⟩ | ⟨rfl, rfl⟩ | ⟨rfl, rfl⟩ <;>
      simp [resolveText, letterEscape?, isOctal, hhex, codeChar?_toNat]

/-- What stands between the quotes of a quoted text. -/
def quotedBody (s : String) : List Char := s.toList.flatMap (quoteChar (quoteFor s.toList))

theorem toList_quoted (s : String) :
    (quoted s).toList = quoteFor s.toList :: quotedBody s ++ [quoteFor s.toList] := by
  rw [quoted, String.toList_ofList, quotedBody]

/-- A quoted text stands for the text. -/
theorem textOf_quoted (s : String) : textOf false (quotedBody s) = some s := by
  have hq := Outline.quoteFor_eq s.toList
  have hall : ∀ (cs : List Char) (fuel : Nat),
      (cs.flatMap (quoteChar (quoteFor s.toList))).length ≤ fuel →
      resolveText fuel (cs.flatMap (quoteChar (quoteFor s.toList))) = some cs := by
    intro cs
    induction cs with
    | nil => intro fuel _; cases fuel <;> rfl
    | cons c rest ih =>
      intro fuel hfuel
      rw [List.flatMap_cons, List.length_append] at hfuel
      have hpos : 0 < (quoteChar (quoteFor s.toList) c).length := by
        rcases quoteChar_cases hq c with
          ⟨d, -, -, -, he⟩ | ⟨-, -, -, -, -, he⟩ | ⟨d, w, -, -, he⟩ <;>
          simp [he]
      obtain ⟨fuel, rfl⟩ : ∃ n, fuel = n + 1 := ⟨fuel - 1, by omega⟩
      rw [List.flatMap_cons, resolveText_quoteChar hq, ih fuel (by omega)]
      rfl
  rw [textOf, if_neg (by decide), quotedBody, hall _ _ (Nat.le_refl _), Option.map_some,
    String.ofList_toList]

theorem shortBody_quoteChar {quote : Char} (hq : quote = '"' ∨ quote = '\'') (c : Char)
    (done rest : List Char) :
    shortBody quote done (quoteChar quote c ++ rest) =
      shortBody quote ((quoteChar quote c).reverse ++ done) rest := by
  have hplain : ∀ (cs done : List Char),
      (∀ d ∈ cs, d ≠ quote ∧ d ≠ '\\' ∧ d ≠ '\n') →
      shortBody quote done (cs ++ rest) = shortBody quote (cs.reverse ++ done) rest := by
    intro cs
    induction cs with
    | nil => exact fun _ _ => rfl
    | cons d more ih =>
      intro done hcs
      obtain ⟨⟨hdq, hdb, hdn⟩, hmore⟩ := List.forall_mem_cons.mp hcs
      have hstep : shortBody quote done (d :: (more ++ rest)) =
          shortBody quote (d :: done) (more ++ rest) := by
        rw [shortBody, if_neg hdq, if_neg hdn]
        simp [hdb]
      rw [List.cons_append, hstep, ih _ hmore, List.reverse_cons, List.append_assoc]
      rfl
  rcases quoteChar_cases hq c with
    ⟨d, -, -, -, he⟩ | ⟨hcq, hb, hn, -, -, he⟩ | ⟨d, width, hd, -, he⟩
  · rw [he]
    rfl
  · rw [he]
    exact hplain [c] done (by simp [hcq, hb, hn])
  · rw [he]
    have hstep : shortBody quote done ('\\' :: d :: (hexPadded width c.toNat ++ rest)) =
        shortBody quote (d :: '\\' :: done) (hexPadded width c.toNat ++ rest) := rfl
    rw [List.cons_append, List.cons_append, hstep, hplain, List.reverse_cons, List.reverse_cons]
    · simp
    · intro x hx
      obtain ⟨hn, -, hs, hd, hb⟩ := Outline.mem_hexPadded hx
      rcases hq with rfl | rfl
      · exact ⟨hd, hb, hn⟩
      · exact ⟨hs, hb, hn⟩

theorem shortBody_quoteChars {quote : Char} (hq : quote = '"' ∨ quote = '\'')
    (cs done rest : List Char) :
    shortBody quote done (cs.flatMap (quoteChar quote) ++ quote :: rest) =
      some (done.reverse ++ cs.flatMap (quoteChar quote), rest) := by
  induction cs generalizing done with
  | nil => rcases hq with rfl | rfl <;> simp [shortBody]
  | cons c more ih =>
    rw [List.flatMap_cons, List.append_assoc, shortBody_quoteChar hq, ih]
    simp

/-- The token of a quoted text. -/
def textToken (s : String) : Token := .text (quotationOf [] (quotedBody s))

theorem head?_quoteChar {quote : Char} (hq : quote = '"' ∨ quote = '\'') (c : Char) :
    ∃ d ds, quoteChar quote c = d :: ds ∧ quote ≠ d := by
  have hb : quote ≠ '\\' := by rcases hq with rfl | rfl <;> decide
  rcases quoteChar_cases hq c with ⟨d, -, -, -, he⟩ | ⟨hcq, -, -, -, -, he⟩ | ⟨d, width, -, -, he⟩
  · exact ⟨_, _, he, hb⟩
  · exact ⟨_, _, he, hcq.symm⟩
  · exact ⟨_, _, he, hb⟩

/-- A quoted text is read to its end, unless it is empty and a further quote follows. -/
theorem readQuoted_quoted (s : String) {rest : List Char}
    (hrest : ∀ c ∈ rest.head?, c ≠ '"' ∧ c ≠ '\'') :
    readQuoted (quoteFor s.toList) ((quoted s).toList ++ rest) = some (quotedBody s, rest) := by
  have hq := Outline.quoteFor_eq s.toList
  have hshort : [quoteFor s.toList, quoteFor s.toList, quoteFor s.toList].isPrefixOf
      ((quoted s).toList ++ rest) = false := by
    rw [toList_quoted, quotedBody]
    cases hs : s.toList with
    | nil =>
      cases rest with
      | nil => rfl
      | cons c rest =>
        have hc : ('\'' == c) = false := beq_false_of_ne (hrest c rfl).2.symm
        simp [quoteFor, List.isPrefixOf, hc]
    | cons c cs =>
      rw [hs] at hq
      obtain ⟨d, ds, hc, hd⟩ := head?_quoteChar hq c
      have hd : (quoteFor (c :: cs) == d) = false := beq_false_of_ne hd
      simp [hc, List.isPrefixOf, hd]
  rw [readQuoted, hshort, if_neg (by decide), toList_quoted, List.cons_append, List.cons_append,
    List.drop_one, List.tail_cons, List.append_assoc, quotedBody, List.singleton_append,
    shortBody_quoteChars hq]
  rfl

/-! ## Pieces of a text -/

/-- A piece of a text is cut into tokens, between two layouts, if what follows starts with one of
the characters given, or is empty. -/
def Cuts (follow : Char → Bool) (l l' : Layout) (t : List Char) (ts : List Token) : Prop :=
  ∃ n ≤ 2 * t.length, ∀ rest : List Char, (∀ c ∈ rest.head?, follow c) → ∀ fuel,
    tokensFrom (n + fuel) l false (t ++ rest) = ts ++ tokensFrom fuel l' false rest

/-- Whether a character can follow a number, a word or a quoted text without being read with it. -/
def endsToken (c : Char) : Bool := !isNameChar c && c ≠ '.' && c ≠ '"' && c ≠ '\''

/-- Whether a character can be the first of a token. -/
def startsToken (c : Char) : Bool := c ∉ [' ', '\t', '\x0c', '\\', '#', '\n']

theorem endsToken_iff {c : Char} :
    endsToken c ↔ isNameChar c = false ∧ c ≠ '.' ∧ c ≠ '"' ∧ c ≠ '\'' := by
  simp [endsToken, and_assoc]

theorem ne_of_endsToken {c : Char} (h : endsToken c) (d : Char) (hd : isNameChar d = true) :
    c ≠ d := by
  rintro rfl
  exact absurd (hd.symm.trans (endsToken_iff.mp h).1) (by decide)

theorem tokensFrom_token {l l' : Layout} {c : Char} {cs rest : List Char} {t : Token}
    (h : scanToken l (c :: cs) = .token t l' rest) (fuel : Nat) :
    tokensFrom (fuel + 1) l false (c :: cs) = t :: tokensFrom fuel l' false rest := by
  rw [tokensFrom]
  · simp only [h]
    rfl
  · simp

theorem tokensFrom_continued {l : Layout} {c : Char} {cs rest : List Char}
    (h : scanToken l (c :: cs) = .continued rest) (fuel : Nat) :
    tokensFrom (fuel + 1) l false (c :: cs) = tokensFrom fuel l true rest := by
  rw [tokensFrom]
  · simp only [h]
    rfl
  · simp

/-- Whether a character ends the blanks before a line. -/
def endsMargin (c : Char) : Bool := c ∉ [' ', '\t', '\x0c', '\\']

theorem endsMargin_of_startsToken {c : Char} (h : startsToken c) : endsMargin c := by
  simp only [startsToken, endsMargin, List.mem_cons, List.not_mem_nil, or_false, not_or,
    decide_eq_true_eq] at h ⊢
  tauto

theorem measureBlanks_spaces (n column narrow : Nat) {rest : List Char}
    (h : ∀ c ∈ rest.head?, endsMargin c) :
    measureBlanks column narrow none (List.replicate n ' ' ++ rest) =
      some (column + n, narrow + n, rest) := by
  induction n generalizing column narrow with
  | zero =>
    cases rest with
    | nil => rfl
    | cons c rest =>
      have hc := h c rfl
      simp only [endsMargin, List.mem_cons, List.not_mem_nil, or_false, not_or,
        decide_eq_true_eq] at hc
      obtain ⟨hs, ht, hf, hb⟩ := hc
      simp [measureBlanks, hs, ht, hf, hb]
  | succ n ih =>
    rw [List.replicate_succ, List.cons_append, measureBlanks, ih]
    congr 2
    · omega
    · congr 1
      omega

/-- Inside brackets the margin of a line says nothing. -/
theorem tokensFrom_margin {l : Layout} {cs rest : List Char} {column narrow : Nat}
    (hl : l.brackets.isEmpty = false) (h : measureBlanks 0 0 none cs = some (column, narrow, rest))
    (hrest : ∀ c ∈ rest.head?, startsToken c) (fuel : Nat) :
    tokensFrom (fuel + 1) l true cs = tokensFrom fuel l false rest := by
  have hhead : ¬ (rest.head? = some '#' ∨ rest.head? = some '\n') := by
    rintro (hc | hc)
    · exact absurd (hrest _ hc) (by decide)
    · exact absurd (hrest _ hc) (by decide)
  rw [tokensFrom.eq_def]
  simp only [h, if_true, if_neg hhead, hl, Bool.not_false]

namespace Cuts

variable {p q : Char → Bool} {l m l' : Layout} {a b : List Char} {xs ys : List Token}

theorem append (ha : Cuts p l m a xs) (hb : Cuts q m l' b ys) (hne : b ≠ [])
    (hp : ∀ c ∈ b.head?, p c) : Cuts q l l' (a ++ b) (xs ++ ys) := by
  obtain ⟨n, hn, ha⟩ := ha
  obtain ⟨k, hk, hb⟩ := hb
  refine ⟨n + k, by rw [List.length_append]; omega, fun rest hrest fuel => ?_⟩
  have hhead : ∀ c ∈ (b ++ rest).head?, p c := by
    rwa [List.head?_append_of_ne_nil _ hne]
  rw [List.append_assoc, Nat.add_assoc, ha _ hhead, hb _ hrest, List.append_assoc]

theorem mono (h : Cuts p l l' a xs) (hq : ∀ c, q c → p c) : Cuts q l l' a xs := by
  obtain ⟨n, hn, h⟩ := h
  exact ⟨n, hn, fun rest hrest => h rest fun c hc => hq c (hrest c hc)⟩

/-- What is read as one token. -/
theorem token {t : Token} (hne : a ≠ []) (h : ∀ rest : List Char, (∀ c ∈ rest.head?, p c) →
    scanToken l (a ++ rest) = .token t l' rest) : Cuts p l l' a [t] := by
  have hpos := List.length_pos_iff.mpr hne
  refine ⟨1, by omega, fun rest hrest fuel => ?_⟩
  obtain ⟨c, cs, rfl⟩ := List.exists_cons_of_ne_nil hne
  rw [Nat.add_comm, List.cons_append]
  exact tokensFrom_token (h rest hrest) fuel

theorem blank (l : Layout) : Cuts (fun _ => true) l l [' '] [] := by
  refine ⟨1, by decide, fun rest _ fuel => ?_⟩
  rw [Nat.add_comm]
  rfl

/-- Inside brackets a line end and the margin after it are a break. -/
theorem lineEnd (hl : l.brackets ≠ []) (n : Nat) :
    Cuts startsToken l l ('\n' :: List.replicate n ' ') [] := by
  refine ⟨2, by rw [List.length_cons]; omega, fun rest hrest fuel => ?_⟩
  have hbrackets : l.brackets.isEmpty = false := by simpa using hl
  have hfeed : scanToken l ('\n' :: (List.replicate n ' ' ++ rest)) =
      .continued (List.replicate n ' ' ++ rest) := by
    simp [scanToken, hbrackets]
  have hblanks := measureBlanks_spaces n 0 0 fun c hc => endsMargin_of_startsToken (hrest c hc)
  rw [Nat.add_comm, List.cons_append, tokensFrom_continued hfeed,
    tokensFrom_margin hbrackets hblanks hrest, List.nil_append]

end Cuts

/-! ## Numbers -/

theorem head?_toDigits {n : Nat} (hn : n ≠ 0) : (Nat.toDigits 10 n).head? ≠ some '0' := by
  have digits : ∀ d < 10, d ≠ 0 → Nat.digitChar d ≠ '0' := by decide
  induction n using Nat.strongRecOn with
  | ind n ih =>
    by_cases hlt : n < 10
    · rw [Nat.toDigits_of_lt_base hlt, List.head?_cons, Ne, Option.some.injEq]
      exact digits n hlt hn
    · have hsplit : Nat.toDigits 10 n = Nat.toDigits 10 (n / 10) ++ Nat.toDigits 10 (n % 10) := by
        rw [Nat.toDigits_append_toDigits (by decide) (by omega) (Nat.mod_lt _ (by decide)),
          Nat.div_add_mod]
      have hne : Nat.toDigits 10 (n / 10) ≠ [] := List.length_pos_iff.mp Nat.length_toDigits_pos
      rw [hsplit, List.head?_append_of_ne_nil _ hne]
      exact ih (n / 10) (by omega) (by omega)

theorem length_toDigits_le {n k : Nat} (h : n < Number.tenTo k) (hk : 0 < k) :
    (Nat.toDigits 10 n).length ≤ k :=
  (Nat.length_toDigits_le_iff (by decide) hk).mpr h

theorem digitRun_digits {ds rest : List Char} (hds : ∀ c ∈ ds, c.isDigit)
    (hrest : ∀ c ∈ rest.head?, endsToken c) (done : List Char) :
    digitRun Char.isDigit done (ds ++ rest) = some (done.reverse ++ ds, rest) := by
  induction ds generalizing done with
  | nil =>
    cases rest with
    | nil => simp [digitRun]
    | cons c rest =>
      have hc := (endsToken_iff.mp (hrest c rfl)).1
      simp only [isNameChar, Char.isAlphanum, Bool.or_eq_false_iff, decide_eq_false_iff_not] at hc
      obtain ⟨⟨⟨-, hdigit⟩, hunder⟩, -⟩ := hc
      simp [digitRun, hdigit, hunder]
  | cons d ds ih =>
    obtain ⟨hd, hds⟩ := List.forall_mem_cons.mp hds
    have hunder : d ≠ '_' := by
      rintro rfl
      exact absurd hd (by decide)
    have hstep : digitRun Char.isDigit done (d :: (ds ++ rest)) =
        digitRun Char.isDigit (d :: done) (ds ++ rest) := by
      rw [digitRun]
      · rw [if_pos hd]
      · simp [hunder]
    rw [List.cons_append, hstep, ih hds, List.reverse_cons, List.append_assoc]
    rfl

theorem readDecimalTail_digits {n : Nat} (hn : Number.isOverlong n = false) {rest : List Char}
    (hrest : ∀ c ∈ rest.head?, endsToken c) :
    readDecimalTail (Nat.toDigits 10 n) rest = some (.int n, rest) := by
  have hvalue : Number.decimalValue (Nat.toDigits 10 n) = n := Nat.ofDigitChars_ten_toDigits
  have hlength : ¬ Number.maxDigits < (Nat.toDigits 10 n).length := by
    rw [not_lt]
    exact length_toDigits_le (Nat.lt_of_not_le (of_decide_eq_false hn)) (by decide)
  have hzero : ¬ ((Nat.toDigits 10 n).head? = some '0' ∧ n ≠ 0) := fun h => head?_toDigits h.2 h.1
  cases rest with
  | nil => simp [readDecimalTail, startsExponent, hvalue, hzero, hlength, endsNumber]
  | cons c rest =>
    obtain ⟨hname, hpoint, -, -⟩ := endsToken_iff.mp (hrest c rfl)
    have hj := ne_of_endsToken (hrest c rfl) 'j' (by decide)
    have hJ := ne_of_endsToken (hrest c rfl) 'J' (by decide)
    have he := ne_of_endsToken (hrest c rfl) 'e' (by decide)
    have hE := ne_of_endsToken (hrest c rfl) 'E' (by decide)
    have hexponent : startsExponent (c :: rest) = false := by
      cases rest <;> simp [startsExponent, he, hE]
    have hend : endsNumber (c :: rest) = true := by simp [endsNumber, hname]
    simp [readDecimalTail, hpoint, hj, hJ, hexponent, hvalue, hzero, hlength, hend]

/-- The digits of a number are read as the number. -/
theorem readNumber_natText {n : Nat} (hn : Number.isOverlong n = false) {rest : List Char}
    (hrest : ∀ c ∈ rest.head?, endsToken c) :
    readNumber ((Number.natText n).toList ++ rest) = some (.int n, rest) := by
  have hdigits : ∀ c ∈ Nat.toDigits 10 n, c.isDigit := fun c hc =>
    Nat.isDigit_of_mem_toDigits (by decide) (by decide) hc
  have htail := readDecimalTail_digits hn hrest
  rw [Number.natText, String.toList_ofList]
  by_cases h0 : n = 0
  · subst h0
    have hrun : digitRun Char.isDigit ['0'] rest = some (['0'], rest) :=
      @digitRun_digits [] rest (by simp) hrest ['0']
    cases rest with
    | nil => exact htail
    | cons c rest =>
      have hbase : ∀ d ∈ ['x', 'X', 'o', 'O', 'b', 'B'], c ≠ d := by
        intro d hd
        refine ne_of_endsToken (hrest c rfl) d ?_
        fin_cases hd <;> decide
      simp only [List.forall_mem_cons] at hbase
      obtain ⟨hx, hX, ho, hO, hb, hB, -⟩ := hbase
      have hread : readNumber ('0' :: c :: rest) =
          (digitRun Char.isDigit ['0'] (c :: rest)).bind fun r => readDecimalTail r.1 r.2 := by
        simp [readNumber, hx, hX, ho, hO, hb, hB]
      exact hread.trans (by rw [hrun]; exact htail)
  · cases hd : Nat.toDigits 10 n with
    | nil => exact absurd hd (List.length_pos_iff.mp Nat.length_toDigits_pos)
    | cons d ds =>
      rw [hd] at hdigits htail
      obtain ⟨hdigit, hds⟩ := List.forall_mem_cons.mp hdigits
      have hpoint : d ≠ '.' := by
        rintro rfl
        exact absurd hdigit (by decide)
      have hzero : d ≠ '0' := by
        rintro rfl
        exact head?_toDigits h0 (by rw [hd]; rfl)
      have hread : readNumber (d :: (ds ++ rest)) =
          (digitRun Char.isDigit [d] (ds ++ rest)).bind fun r => readDecimalTail r.1 r.2 := by
        rw [readNumber]
        · simp [hpoint]
        · simp [hzero]
      rw [List.cons_append, hread, digitRun_digits hds hrest [d]]
      exact htail

/-! ## Tokens -/

section Scan

variable {l : Layout} {c : Char} {cs rest : List Char}

theorem scanToken_quote {body : List Char} (hq : c = '"' ∨ c = '\'')
    (h : readQuoted c (c :: cs) = some (body, rest)) :
    scanToken l (c :: cs) = .token (.text (quotationOf [] body)) l rest := by
  rcases hq with rfl | rfl <;> simp [scanToken, h]

theorem scanToken_digit {value : Constant} (hc : c.isDigit)
    (h : readNumber (c :: cs) = some (value, rest)) :
    scanToken l (c :: cs) = .token (.number value) l rest := by
  have hne : ∀ d : Char, d.isDigit = false → c ≠ d := by
    rintro d hd rfl
    exact absurd (hc.symm.trans hd) (by decide)
  have hrange : 48 ≤ c.toNat ∧ c.toNat ≤ 57 := by
    simpa [Char.isDigit, UInt32.le_iff_toNat_le] using hc
  have halpha : c.isAlpha = false := by
    simp only [Char.isAlpha, Char.isUpper, Char.isLower, Bool.or_eq_false_iff,
      Bool.and_eq_false_iff, decide_eq_false_iff_not, ge_iff_le, UInt32.le_iff_toNat_le]
    change ¬ (65 ≤ c.toNat ∧ c.toNat ≤ 90) ∧ (¬ 97 ≤ c.toNat ∨ ¬ c.toNat ≤ 122)
    omega
  have hwide : ¬ 0x80 ≤ c.toNat := by omega
  simp [scanToken, hne ' ' rfl, hne '\t' rfl, hne '\x0c' rfl, hne '#' rfl, hne '\n' rfl,
    hne '\\' rfl, hne '"' rfl, hne '\'' rfl, hne '_' rfl, halpha, hwide, hc, h]

/-- Whether a character can follow a word without being read with it. -/
def endsWord (c : Char) : Bool := !isNameChar c && c ≠ '"' && c ≠ '\''

theorem scanToken_word {word : List Char} {t : Token} (hc : c.isAlpha || c = '_')
    (hword : ∀ d ∈ c :: word, isNameChar d) (ht : wordToken (c :: word) = some t)
    (hrest : ∀ d ∈ rest.head?, endsWord d) :
    scanToken l (c :: word ++ rest) = .token t l rest := by
  have hne : ∀ d : Char, (d.isAlpha || d = '_') = false → c ≠ d := by
    rintro d hd rfl
    exact absurd (hc.symm.trans hd) (by decide)
  have htake : (c :: (word ++ rest)).takeWhile isNameChar = c :: word := by
    rw [← List.cons_append, List.takeWhile_append_of_pos hword]
    cases rest with
    | nil => simp
    | cons d rest =>
      have hd : isNameChar d = false := by
        have := hrest d rfl
        simp only [endsWord, Bool.and_eq_true, Bool.not_eq_true'] at this
        exact this.1.1
      simp [hd]
  have hdrop : (c :: (word ++ rest)).dropWhile isNameChar = rest := by
    have hsplit := List.takeWhile_append_dropWhile (p := isNameChar) (l := c :: (word ++ rest))
    rw [htake, List.cons_append, List.cons.injEq] at hsplit
    exact List.append_cancel_left hsplit.2
  rw [List.cons_append]
  simp only [scanToken, hne ' ' rfl, hne '\t' rfl, hne '\x0c' rfl, hne '#' rfl, hne '\n' rfl,
    hne '\\' rfl, hne '"' rfl, hne '\'' rfl, or_self, if_false, hc, Bool.true_or, if_true, htake,
    hdrop]
  cases rest with
  | nil => simp only [ht]
  | cons d rest =>
    have hd := hrest d rfl
    simp only [endsWord, Bool.and_eq_true, decide_eq_true_eq] at hd
    simp only [hd.1.2, hd.2, or_self, false_and, if_false, ht]

theorem scanToken_opening {close : Char} (hc : closer? c = some close)
    (hl : l.brackets.length < Layout.maxBrackets) :
    scanToken l (c :: cs) =
      .token (.sign (String.singleton c)) { l with brackets := close :: l.brackets } cs := by
  have hcases : c = '(' ∨ c = '[' ∨ c = '\x7b' := by
    unfold closer? at hc
    split at hc <;> simp_all
  rcases hcases with rfl | rfl | rfl <;> cases hc <;> simp [scanToken, closer?, Nat.not_le.mpr hl]

theorem scanToken_closing {brackets : List Char} (hc : c = ')' ∨ c = ']' ∨ c = '\x7d')
    (hl : l.brackets = c :: brackets) :
    scanToken l (c :: cs) = .token (.sign (String.singleton c)) { l with brackets } cs := by
  rcases hc with rfl | rfl | rfl <;> simp [scanToken, closer?, hl]

theorem scanToken_sign (hc : c ∈ [',', ':', '=', '-']) {sign : String}
    (h : readSign (c :: cs) = some (sign, rest)) :
    scanToken l (c :: cs) = .token (.sign sign) l rest := by
  simp only [List.mem_cons, List.not_mem_nil, or_false] at hc
  rcases hc with rfl | rfl | rfl | rfl <;> simp [scanToken, closer?, h]

end Scan

namespace Cuts

variable {l : Layout}

theorem quoted (l : Layout) (s : String) :
    Cuts endsToken l l (Text.quoted s).toList [textToken s] := by
  refine .token (by simp [toList_quoted]) fun rest hrest => ?_
  have hread := readQuoted_quoted s fun c hc => (endsToken_iff.mp (hrest c hc)).2.2
  rw [toList_quoted, List.cons_append, List.cons_append] at hread ⊢
  exact scanToken_quote (Outline.quoteFor_eq s.toList) hread

theorem number (l : Layout) {n : Nat} (hn : Number.isOverlong n = false) :
    Cuts endsToken l l (Number.natText n).toList [.number (.int n)] := by
  have htext : (Number.natText n).toList = Nat.toDigits 10 n := String.toList_ofList
  have hne : Nat.toDigits 10 n ≠ [] := List.length_pos_iff.mp Nat.length_toDigits_pos
  refine .token (by rwa [htext]) fun rest hrest => ?_
  have hread := readNumber_natText hn hrest
  obtain ⟨d, ds, hd⟩ := List.exists_cons_of_ne_nil hne
  have hdigit : d.isDigit :=
    Nat.isDigit_of_mem_toDigits (by decide) (by decide) (hd ▸ List.mem_cons_self)
  rw [htext, hd, List.cons_append] at hread ⊢
  exact scanToken_digit hdigit hread

theorem word (l : Layout) {c : Char} {cs : List Char} {t : Token} (hc : c.isAlpha || c = '_')
    (hword : ∀ d ∈ c :: cs, isNameChar d) (ht : wordToken (c :: cs) = some t) :
    Cuts endsWord l l (c :: cs) [t] :=
  .token (by simp) fun _ hrest => scanToken_word hc hword ht hrest

theorem opening {c close : Char} (hc : closer? c = some close)
    (hl : l.brackets.length < Layout.maxBrackets) :
    Cuts (fun _ => true) l { l with brackets := close :: l.brackets } [c]
      [.sign (String.singleton c)] :=
  .token (by simp) fun _ _ => scanToken_opening hc hl

theorem closing {c : Char} (hc : c = ')' ∨ c = ']' ∨ c = '\x7d') :
    Cuts (fun _ => true) { l with brackets := c :: l.brackets } l [c]
      [.sign (String.singleton c)] :=
  .token (by simp) fun _ _ => scanToken_closing hc rfl

theorem comma (l : Layout) : Cuts (fun _ => true) l l [','] [.sign ","] :=
  .token (by simp) fun _ _ => scanToken_sign (by decide) rfl

theorem colonOrEquals (l : Layout) {c : Char} (hc : c = ':' ∨ c = '=') :
    Cuts (· ≠ '=') l l [c] [.sign (String.singleton c)] := by
  refine .token (by simp) fun rest hrest => scanToken_sign ?_ ?_
  · rcases hc with rfl | rfl <;> decide
  · cases rest with
    | nil => rcases hc with rfl | rfl <;> rfl
    | cons d rest =>
      have hd : ('=' == d) = false := beq_false_of_ne (of_decide_eq_true (hrest d rfl)).symm
      rcases hc with rfl | rfl <;> simp [readSign, signs, List.isPrefixOf, hd] <;> rfl

theorem minus (l : Layout) : Cuts Char.isDigit l l ['-'] [.sign "-"] := by
  refine .token (by simp) fun rest hrest => scanToken_sign (by decide) ?_
  cases rest with
  | nil => rfl
  | cons c rest =>
    have hne : ∀ d : Char, d.isDigit = false → (d == c) = false := by
      intro d hd
      refine beq_false_of_ne ?_
      rintro rfl
      exact absurd ((hrest d rfl).symm.trans hd) (by decide)
    simp [readSign, signs, List.isPrefixOf, hne '=' rfl, hne '>' rfl]
    rfl

end Cuts

end Workflow.Source
