/-
The function that a snippet becomes.

The lines of a snippet are moved to the right, and stand in the block of a
function. Where this leaves its tokens as they are (`Movable`) the body of the
function is what the snippet alone is read as (`snippet_body_kept`). A quotation
over several lines is changed by it.
-/
import Mathlib
import Workflow.Node.Code
import Workflow.Proofs.Assignment
import Workflow.Proofs.Margins

namespace Workflow.Source

open Parse
open Text (isLineEnd isBlank linesFrom)

/-! ## Moving lines -/

/-- The text of lines moved to the right. -/
def moved (lines : List (List Char)) : List Char :=
  (lines.map fun line => if line.all isBlank then line else List.replicate 4 ' ' ++ line).flatten

/-- The text that the tokens of a script are cut from. -/
def closed (text : List Char) : List Char :=
  let cs := unifyLineEnds text
  if cs.getLast? = some '\n' then cs else cs ++ ['\n']

/-- The depths of a line and of the line moved belong together, and no backslash starts it. -/
structure Settles (M : Shift) (line : List Char) : Prop where
  depths : line.all isBlank = false → M (depthFrom 0 0 line) (depthFrom 4 4 line)
  head : line.head? ≠ some '\\'

theorem ne_return {b : List Char} (hb : ∀ c ∈ b, isLineEnd c = false) : ∀ c ∈ b, c ≠ '\r' := by
  rintro c hc rfl
  cases hb _ hc

theorem unifyLineEnds_append {b : List Char} (hb : ∀ c ∈ b, c ≠ '\r') (cs : List Char) :
    unifyLineEnds (b ++ cs) = b ++ unifyLineEnds cs := by
  induction b with
  | nil => rfl
  | cons c b ih =>
    obtain ⟨hc, hb⟩ := List.forall_mem_cons.mp hb
    rw [List.cons_append, unifyLineEnds, ih hb, List.cons_append]
    · exact fun _ h => (hc h).elim
    · exact hc

theorem unifyLineEnds_end {c : Char} {cs : List Char} (h : c = '\r' → cs.head? ≠ some '\n') :
    unifyLineEnds (c :: cs) = (if c = '\r' then '\n' else c) :: unifyLineEnds cs := by
  by_cases hc : c = '\r'
  · subst hc
    rw [if_pos rfl, unifyLineEnds]
    rintro rest rfl
    exact h rfl rfl
  · rw [if_neg hc, unifyLineEnds]
    · exact fun _ h => (hc h).elim
    · exact hc

theorem closed_append {p e rest : List Char}
    (h : unifyLineEnds (p ++ rest) = e ++ unifyLineEnds rest)
    (hne : rest = [] → e.getLast? ≠ some '\n') : closed (p ++ rest) = e ++ closed rest := by
  rw [closed, closed, h]
  cases rest with
  | nil => simp [unifyLineEnds, hne rfl]
  | cons c rest =>
    have hne : unifyLineEnds (c :: rest) ≠ [] := by
      rw [unifyLineEnds.eq_def]
      split <;> simp_all
    rw [List.getLast?_append_of_ne_nil _ hne]
    split_ifs <;> simp

theorem depthFrom_append {m : List Char} (hm : ∀ c ∈ m, c = ' ' ∨ c = '\t') {d : Char}
    (hs : d ≠ ' ') (ht : d ≠ '\t') (column narrow : Nat) (r : List Char) :
    depthFrom column narrow (m ++ d :: r) = depthFrom column narrow m := by
  induction m generalizing column narrow with
  | nil => simp [depthFrom, hs, ht]
  | cons c m ih =>
    have ih := ih (List.forall_mem_cons.mp hm).2
    rcases hm c (by simp) with rfl | rfl <;> exact ih _ _

theorem exists_margin {b : List Char} (h : b.all isBlank = false) : ∃ m d r, b = m ++ d :: r ∧
    (∀ c ∈ m, c = ' ' ∨ c = '\t') ∧ d ≠ ' ' ∧ d ≠ '\t' := by
  induction b with
  | nil => cases h
  | cons c b ih =>
    by_cases hc : c = ' ' ∨ c = '\t'
    · have hblank : isBlank c := by rcases hc with rfl | rfl <;> rfl
      obtain ⟨m, d, r, rfl, hm, hd⟩ := ih (by simpa [hblank] using h)
      exact ⟨c :: m, d, r, rfl, List.forall_mem_cons.mpr ⟨hc, hm⟩, hd⟩
    · exact ⟨[], c, b, rfl, by simp, not_or.mp hc⟩

section

variable {M : Shift} {extra b q z : List Char} {k n : Nat} {e : Char}

theorem Along.append (hb : ∀ c ∈ b, isLineEnd c = false) (hne : q ≠ []) (h : Along M extra k q z) :
    Along M extra k (b ++ q) (b ++ z) := by
  induction b with
  | nil => exact h
  | cons c b ih =>
    obtain ⟨hc, hb⟩ := List.forall_mem_cons.mp hb
    exact .char hc (by simp [hne]) (ih hb)

theorem Along.length (h : Along M extra k q z) : z.length = q.length + k := by
  induction h with
  | done => simp
  | char _ _ _ ih => simp [ih]; omega
  | lineEnd _ _ _ _ ih => simp [ih]; omega

theorem Settles.margin {t : List Char} (h : Settles M (b ++ t)) (ht : t.all isBlank)
    (hb : ∀ c ∈ b, isLineEnd c = false) (he : isLineEnd e) (q : List Char) :
    Margin M (if (b ++ t).all isBlank then 0 else 4) (b ++ e :: q) := by
  have hall : (b ++ t).all isBlank = b.all isBlank := by rw [List.all_append, ht, Bool.and_true]
  cases hblank : b.all isBlank with
  | true =>
    rw [hall, hblank, if_pos rfl]
    exact .blank (fun c hc => ⟨List.all_eq_true.mp hblank c hc, hb c hc⟩) he
  | false =>
    have hdepths := h.depths (hall.trans hblank)
    rw [hall, hblank, if_neg Bool.false_ne_true]
    obtain ⟨m, d, r, rfl, hm, hs, htab⟩ := exists_margin hblank
    rw [List.append_assoc, List.cons_append, depthFrom_append hm hs htab,
      depthFrom_append hm hs htab] at hdepths
    rw [List.append_assoc, List.cons_append]
    refine .line hm hs htab (hb d (by simp)) ?_ hdepths
    rintro rfl rfl
    exact h.head rfl

/-- A script and the text of its lines moved go side by side. -/
def Moving (M : Shift) (cs : List Char) (lines : List (List Char)) : Prop :=
  ∃ extra i k z, (extra = [] ∨ extra = ['\n']) ∧ Margin M i (closed cs) ∧
    Along M extra k (closed cs) z ∧
    unifyLineEnds (moved lines ++ ['\n']) = List.replicate i ' ' ++ z

/-- A line is moved, with its end, before what goes side by side. -/
theorem Settles.moving {t cs : List Char} {lines : List (List Char)} (h : Settles M (b ++ t))
    (ht : t.all isBlank) (hb : ∀ c ∈ b, isLineEnd c = false) (he : isLineEnd e)
    (hnext : e ≠ '\n' → q ≠ []) (hextra : extra = [] ∨ extra = ['\n']) (hn : Margin M n q)
    (hq : Along M extra k q z) (hclosed : closed (b ++ cs) = b ++ e :: q)
    (hend : unifyLineEnds (t ++ (moved lines ++ ['\n'])) = e :: (List.replicate n ' ' ++ z)) :
    Moving M (b ++ cs) ((b ++ t) :: lines) := by
  refine ⟨extra, _, k + n, b ++ e :: (List.replicate n ' ' ++ z), hextra,
    hclosed ▸ h.margin ht hb he q, hclosed ▸ .append hb (by simp) (.lineEnd he hnext hn hq), ?_⟩
  rw [← hend, ← unifyLineEnds_append (ne_return hb), moved, List.map_cons, List.flatten_cons,
    ← moved]
  split_ifs
  · simp
  · rw [← unifyLineEnds_append (by simp)]
    simp

theorem head?_moved (current cs : List Char) :
    (moved (linesFrom current cs)).head? = some ' ' ∨
      (moved (linesFrom current cs)).head? = (current.reverse ++ cs).head? := by
  have hcons : ∀ (line : List Char) (lines r), line ≠ [] →
      (moved (line :: lines)).head? = some ' ' ∨
        (moved (line :: lines)).head? = (line ++ r).head? := by
    intro line lines r hne
    rw [moved, List.map_cons, List.flatten_cons, List.head?_append_of_ne_nil line hne]
    split_ifs
    · exact .inr (List.head?_append_of_ne_nil _ hne)
    · exact .inl rfl
  fun_induction linesFrom current cs with
  | case1 current h => simp_all [moved]
  | case2 current h => exact hcons _ _ [] (by simpa using h)
  | case3 current rest ih =>
    simpa using hcons ('\n' :: '\r' :: current).reverse (linesFrom [] rest) rest (by simp)
  | case4 current c rest hrest hc ih =>
    simpa using hcons (c :: current).reverse (linesFrom [] rest) rest (by simp)
  | case5 current c rest hrest hc ih => simpa using ih

/-- A line with its end before the lines after it. Where the last line ends with a return, the feed
behind the text belongs to its end. -/
theorem Settles.cons {t rest : List Char} (h : Settles M (b ++ t)) (ht : t.all isBlank)
    (hb : ∀ c ∈ b, isLineEnd c = false) (he : isLineEnd e)
    (hunify : ∀ cs : List Char, (t = ['\r'] → cs.head? ≠ some '\n') →
      unifyLineEnds (t ++ cs) = e :: unifyLineEnds cs)
    (hrest : t = ['\r'] → rest.head? ≠ some '\n') (hm : Moving M rest (linesFrom [] rest)) :
    Moving M (b ++ (t ++ rest)) ((b ++ t) :: linesFrom [] rest) := by
  have hwhole : unifyLineEnds (b ++ t ++ rest) = b ++ [e] ++ unifyLineEnds rest := by
    rw [List.append_assoc, unifyLineEnds_append (ne_return hb), hunify rest hrest]
    simp
  by_cases hlast : rest = [] ∧ e = '\n'
  · obtain ⟨rfl, rfl⟩ := hlast
    have hclosed : closed (b ++ (t ++ [])) = b ++ ['\n'] := by
      rw [← List.append_assoc, closed, hwhole]
      simp [unifyLineEnds]
    by_cases hreturn : t = ['\r']
    · subst hreturn
      exact h.moving ht hb he (by simp) (.inl rfl) .finished .done hclosed rfl
    · exact h.moving ht hb he (by simp) (.inr rfl) .finished .done hclosed
        (hunify ['\n'] fun h => (hreturn h).elim)
  · obtain ⟨extra, i, k, z, hextra, hm, ha, hz⟩ := hm
    have hne : closed rest ≠ [] := by
      rw [closed]
      split_ifs with hfeed
      · rintro hnil
        simp [hnil] at hfeed
      · simp
    have hclosed := closed_append hwhole fun hnil => by simpa using fun hfeed => hlast ⟨hnil, hfeed⟩
    refine h.moving ht hb he (fun _ => hne) hextra hm ha (by simpa using hclosed) ?_
    rw [hunify _ fun hreturn => ?_, hz]
    subst hreturn
    have hfeed : e = '\n' := by simpa [unifyLineEnds] using (hunify [] (by simp)).symm
    obtain ⟨d, rest, rfl⟩ := List.exists_cons_of_ne_nil fun hnil => hlast ⟨hnil, hfeed⟩
    rw [List.head?_append]
    rcases head?_moved [] (d :: rest) with hhead | hhead
    · simp [hhead]
    · simpa [hhead] using hrest rfl

theorem moving_linesFrom (current cs : List Char) (hcurrent : ∀ c ∈ current, isLineEnd c = false)
    (h : ∀ line ∈ linesFrom current cs, Settles M line) :
    Moving M (current.reverse ++ cs) (linesFrom current cs) := by
  have hb : ∀ c ∈ current.reverse, isLineEnd c = false := by simpa using hcurrent
  fun_induction linesFrom current cs with
  | case1 current hempty =>
    obtain rfl := List.isEmpty_iff.mp hempty
    exact ⟨[], 0, 0, ['\n'], .inl rfl, .blank (b := []) (by simp) rfl,
      .lineEnd (n := 0) rfl (by simp) .finished .done, rfl⟩
  | case2 current hempty =>
    have hs : Settles M (current.reverse ++ []) := by simpa using h
    have hlast : closed (current.reverse ++ []) = current.reverse ++ closed [] := by
      refine closed_append (unifyLineEnds_append (ne_return hb) []) fun _ hl => ?_
      cases hb '\n' (List.mem_of_getLast? hl)
    have : Moving M (current.reverse ++ []) [current.reverse ++ []] :=
      hs.moving rfl hb rfl (by simp) (.inl rfl) .finished .done hlast rfl
    rwa [List.append_nil] at this ⊢
  | case3 current rest ih =>
    have hs : Settles M (current.reverse ++ ['\r', '\n']) := by simpa using h _ (by simp)
    simpa using hs.cons (e := '\n') rfl hb rfl (fun cs _ => rfl) (by simp)
      (ih (by simp) (fun line hl => h line (.tail _ hl)) (by simp))
  | case4 current c rest hrest hc ih =>
    have hs : Settles M (current.reverse ++ [c]) := by simpa using h _ (by simp)
    have he : isLineEnd (if c = '\r' then '\n' else c) := by
      split_ifs
      · rfl
      · exact hc
    simpa using hs.cons (by simpa using isBlank_of_isLineEnd hc) hb he
      (fun cs hcs => unifyLineEnds_end (by simpa using hcs)) (by
        intro hreturn hhead
        obtain ⟨rest, rfl⟩ := List.head?_eq_some_iff.mp hhead
        exact hrest rest (by simpa using hreturn) rfl)
      (ih (by simp) (fun line hl => h line (.tail _ hl)) (by simp))
  | case5 current c rest hrest hc ih =>
    have hcurrent' : ∀ d ∈ c :: current, isLineEnd d = false :=
      List.forall_mem_cons.mpr ⟨by simpa using hc, hcurrent⟩
    simpa using ih hcurrent' h fun d hd => hcurrent' d (List.mem_reverse.mp hd)

end

/-! ## The head of the function -/

/-- The parameters after the first, as they are written. -/
def moreParams (names : List String) : List Char := names.flatMap fun n => ',' :: ' ' :: n.toList

/-- The tokens of the parameters after the first. -/
def moreTokens (names : List String) : List Token := names.flatMap fun n => [.sign ",", .name n]

/-- A parameter without a hint and a default. -/
def plainParam (id : String) : Param := .mk id none none

/-- The head of the function that a snippet becomes. -/
def functionHead (n : String) (names : List String) : List Char :=
  ['a', 's', 'y', 'n', 'c'] ++ ([' '] ++ (['d', 'e', 'f'] ++ ([' '] ++ (Node.codeFunction.toList ++
    (('(' :: (n.toList ++ moreParams names) ++ [')']) ++ [':'])))))

/-- The tokens of the head of a function. -/
def headTokens (n : String) (names : List String) : List Token :=
  .keyword "async" :: .keyword "def" :: .name Node.codeFunction :: .sign "(" :: .name n ::
    (moreTokens names ++ [.sign ")"] ++ [.sign ":"])

section

variable {n : String} {names : List String}

theorem spelled_params (hn : IsVariable n) (hnames : ∀ m ∈ names, IsVariable m) :
    Spelled false 0 (n.toList ++ moreParams names) (.name n :: moreTokens names) := by
  induction names generalizing n with
  | nil => simpa [moreParams, moreTokens] using hn.spelled.inside
  | cons m names ih =>
    obtain ⟨hm, hnames⟩ := List.forall_mem_cons.mp hnames
    simpa [moreParams, moreTokens] using hn.spelled.comma.broken (.inl rfl) (ih hm hnames)

theorem isVariable_codeFunction : IsVariable Node.codeFunction :=
  ⟨⟨_, _, rfl, rfl⟩, Handler.isIdChar_fixed rfl, by decide⟩

theorem cuts_functionHead (hn : IsVariable n) (hnames : ∀ m ∈ names, IsVariable m) :
    Cuts (· ≠ '=') .start .start (functionHead n names) (headTokens n names) := by
  have hasync : Spelled true 0 ['a', 's', 'y', 'n', 'c'] [.keyword "async"] :=
    .word rfl (by simp [isNameChar]) rfl
  have hdef : Spelled true 0 ['d', 'e', 'f'] [.keyword "def"] :=
    .word rfl (by simp [isNameChar]) rfl
  have hparams := (spelled_params hn hnames).bracketed (o := '(') rfl (.inl rfl)
  have hcolon := (hparams.cuts .start (.inl rfl) (by decide)).append
    (.colonOrEquals .start (.inl rfl)) (by simp) (by simp; decide)
  have hname := (isVariable_codeFunction.spelled.cuts .start (.inl rfl) (by decide)).append hcolon
    (by simp) (by simp; decide)
  have hdef := (hdef.cuts .start (.inl rfl) (by decide)).append
    ((Cuts.blank .start).append hname (by simp [Node.codeFunction]) (by simp)) (by simp)
    (by simp; decide)
  exact (hasync.cuts .start (.inl rfl) (by decide)).append
    ((Cuts.blank .start).append hdef (by simp) (by simp)) (by simp) (by simp; decide)

theorem stands_functionHead (hn : IsVariable n) (hnames : ∀ m ∈ names, IsVariable m) :
    Stands (functionHead n names) :=
  have hparams := (spelled_params hn hnames).bracketed (o := '(') rfl (.inl rfl)
  .append (.fixed rfl) (.append (.fixed rfl) (.append (.fixed rfl) (.append (.fixed rfl)
    (.append (.fixed rfl) (hparams.stands.append (.fixed rfl))))))

theorem length_functionHead (n : String) (names : List String) :
    names.length < (functionHead n names).length := by
  have hmore : names.length ≤ (moreParams names).length := by
    induction names with
    | nil => exact le_rfl
    | cons n names ih =>
      simp only [moreParams, List.flatMap_cons, List.length_append, List.length_cons] at ih ⊢
      omega
  simp only [functionHead, List.length_append, List.length_cons]
  omega

/-- The parameters are read one after the other. -/
theorem loop_params {step : ParamState → Parse (ParamState × Bool)} {us : List Token}
    (hmore : ∀ done n m ts, step { regular := done.map plainParam }
        (.name n :: .sign "," :: .name m :: ts) =
      .ok (({ regular := (n :: done).map plainParam }, true), .name m :: ts))
    (hlast : ∀ done n, step { regular := done.map plainParam } (.name n :: .sign ")" :: us) =
      .ok (({ regular := (n :: done).map plainParam }, false), .sign ")" :: us))
    {size : Nat} (hsize : names.length < size) (n : String) (done : List String) :
    loop size step { regular := done.map plainParam }
        (.name n :: (moreTokens names ++ .sign ")" :: us)) =
      .ok ({ regular := (names.reverse ++ n :: done).map plainParam }, .sign ")" :: us) := by
  obtain ⟨size, rfl⟩ : ∃ k, size = k + 1 := ⟨size - 1, by omega⟩
  induction names generalizing n done size with
  | nil => exact loop_done (hlast done n) size
  | cons m names ih =>
    simp only [List.length_cons] at hsize
    obtain ⟨size, rfl⟩ : ∃ k, size = k + 1 := ⟨size - 1, by omega⟩
    rw [show moreTokens (m :: names) = .sign "," :: .name m :: moreTokens names from rfl,
      List.cons_append, List.cons_append, loop_more (hmore done n m _),
      ih m (n :: done) size (by omega), List.reverse_cons, List.append_assoc]
    rfl

variable {r : Readings} {body : List Stmt} {ts us : List Token}

theorem params_plain (n : String) (hsize : names.length < r.size) (us : List Token) :
    params r.size r.expression r.bitOr true ")"
        (.name n :: (moreTokens names ++ .sign ")" :: us)) =
      .ok (.mk [] ((n :: names).map plainParam) none [] none, .sign ")" :: us) := by
  rw [params, bind_apply, show atSign ")" (.name n :: (moreTokens names ++ .sign ")" :: us)) =
    .ok (false, _) from rfl, ok_bind]
  simp only [Bool.false_eq_true, if_false]
  rw [bind_apply, show ({} : ParamState) = { regular := [].map plainParam } from rfl,
    loop_params _ _ hsize n [], ok_bind]
  · simp [atSign]
  · intro done n m ts
    cases done <;> rfl
  · intro done n
    cases done <;> rfl

/-- The function around a block that is read. -/
theorem statementRun_function {k : Nat} (hsize : names.length + 1 < r.size) (hbody : body ≠ [])
    (h : statementRun r (block r k) ts = .ok (body, [.dedent, .finish])) :
    statementRun r (block r (k + 1)) (headTokens n names ++ .newline :: .indent :: ts) =
      .ok ([.function true Node.codeFunction (.mk [] ((n :: names).map plainParam) none [] none)
        none [] body], [.finish]) := by
  have hblock : block r (k + 1) (.newline :: .indent :: ts) = .ok (body, [.finish]) := by
    simp [block, h, hbody]
  have hparams := params_plain n (show names.length < r.size by omega)
  refine statementRun_single (by omega) (by simp) (.inr rfl) ?_
  simp [statements, asyncStatement, acceptKeyword, functionTail, name, hparams, sign, acceptSign,
    colonBlock, hblock]

end

/-! ## Snippets in their function -/

theorem readCharacters_eq_ok {text : List Char} {body : List Stmt} :
    readCharacters text = .ok body ↔ Char.ofNat 0 ∉ text ∧ ∃ us, us.headD .finish = .finish ∧
      statementRun (readings text.length) (block (readings text.length) (text.length + 2))
        (scriptTokens text) = .ok (body, us) := by
  have hsize : (readings text.length).size = text.length + 2 := rfl
  rw [readCharacters]
  by_cases hzero : Char.ofNat 0 ∈ text
  · simp [hzero]
  cases h : statementRun (readings text.length) (block (readings text.length) (text.length + 2))
      (scriptTokens text) with
  | error e =>
    simp [hzero, hsize, h]
    split_ifs <;> simp
  | ok found =>
    obtain ⟨found, us⟩ := found
    cases us with
    | nil => simp [hzero, hsize, h, peek]
    | cons t us =>
      cases t with
      | finish => simp [hzero, hsize, h]
      | _ => simp [hzero, hsize, h, fail]

/-- Tokens that start inside a block, from outside it. -/
theorem tokensFrom_indented {t : Token} [ht : t.Plain] {ts : List Token} (fuel : Nat)
    {x : List Char} (h : tokensFrom fuel ⟨[], [(4, 4), (0, 0)]⟩ true x = t :: ts) :
    tokensFrom fuel .start true x = .indent :: t :: ts := by
  have hbad : ∀ {c us}, .bad c :: us ≠ t :: ts := by
    rintro c us h
    cases h
    exact ht.noFault _ rfl
  induction fuel generalizing x with
  | zero => exact absurd h hbad
  | succ fuel ih =>
    cases hx : measureBlanks 0 0 none x with
    | none =>
      rw [tokensFrom.eq_def] at h
      simp only [hx, if_true] at h
      exact absurd h hbad
    | some o =>
      obtain ⟨column, narrow, r⟩ := o
      by_cases hhead : r.head? = some '#' ∨ r.head? = some '\n'
      · cases hr : r.dropWhile (· ≠ '\n') with
        | nil =>
          rw [tokensFrom.eq_def] at h
          simp only [hx, if_true, if_pos hhead, hr] at h
          cases fuel with
          | zero => exact absurd h hbad
          | succ fuel =>
            rw [tokensFrom_finish rfl] at h
            cases h
            exact absurd rfl ht.noEnd
        | cons c rest =>
          rw [tokensFrom_skipLine hx hhead hr] at h ⊢
          exact ih h
      · cases he : Layout.enterLine ⟨[], [(4, 4), (0, 0)]⟩ column narrow with
        | error c => exact absurd (tokensFrom_refused hx hhead rfl he fuel ▸ h) hbad
        | ok o =>
          obtain ⟨start, l⟩ := o
          have hcases : (column = 4 ∧ narrow = 4 ∧ start = [] ∧ l = ⟨[], [(4, 4), (0, 0)]⟩) ∨
              ∃ us, start = .indent :: us ∨ start = .dedent :: us := by
            rw [Layout.enterLine] at he
            grind [Layout.close]
          rw [tokensFrom_entered hx hhead rfl he] at h
          rcases hcases with ⟨rfl, rfl, rfl, rfl⟩ | ⟨us, rfl | rfl⟩
          · rw [tokensFrom_entered (l := .start) hx hhead rfl rfl, ← h]
            rfl
          · cases h
            exact absurd rfl ht.noChange.1
          · cases h
            exact absurd rfl ht.noChange.2

/-- A script that is read to its end is read in a block as it is read alone. -/
theorem statementRun_beside {n n' : Nat} (hn : n < n') {ts ts' us : List Token} {body : List Stmt}
    (hts : Beside .broken ts ts ∨ Beside (.moved 0) ts ts') (hus : us.headD .finish = .finish)
    (hbody : body ≠ [])
    (h : statementRun (readings n) (block (readings n) (n + 2)) ts = .ok (body, us)) :
    (∃ t us', t.Plain ∧ ts' = t :: us') ∧
      statementRun (readings n') (block (readings n') (n' + 1)) ts' =
        .ok (body, [.dedent, .finish]) := by
  have hwider := Readings.Wider.of_le hn.le
  have hblock : Tracks (block (readings n) (n + 2)) (block (readings n') (n' + 1)) :=
    .block (by omega)
  have htracks : Tracks (statementRun (readings n) (block (readings n) (n + 2)))
    (statementRun (readings n') (block (readings n') (n' + 1))) := inferInstance
  rcases hts with hts | hts
  · have hagrees := htracks.out _ _ _ hts
    rw [h] at hagrees
    generalize statementRun (readings n') _ ts = o at hagrees
    cases hagrees with
    | read hb =>
    cases hb with
    | bad => cases hus
    | other ht => exact absurd hus ht
  · have hagrees := htracks.out _ _ _ hts
    rw [h] at hagrees
    generalize statementRun (readings n') _ ts' = o at hagrees ⊢
    cases hagrees with
    | read hb =>
    cases hb with
    | plain => exact absurd hus ‹Token.Plain _›.noEnd
    | indent => cases hus
    | last =>
    refine ⟨?_, rfl⟩
    -- No script starts with the end of a text, unless it is empty, or further in.
    cases hts with
    | last =>
      cases h
      exact absurd rfl hbody
    | indent => cases h
    | plain => exact ⟨_, _, ‹_›, rfl⟩

/-- The depths of the lines of a text that are not blank, and of the lines moved; lines at the
margin are always counted in. -/
def lineDepths (text : List Char) : List ((Nat × Nat) × (Nat × Nat)) :=
  ((0, 0), (4, 4)) :: ((linesFrom [] text).filter (!·.all isBlank)).map fun line =>
    (depthFrom 0 0 line, depthFrom 4 4 line)

/-- A script that can be moved to the right: no quotation of it goes over several lines, no line
starts with a backslash, its lines keep their order, which mixed tabs and spaces can change, and
there is room for one block more. -/
@[mk_iff]
structure Movable (text : List Char) : Prop where
  unbroken : (scriptTokens text).all Token.unbroken
  room : shallow 98 (scriptTokens text)
  heads : ∀ line ∈ linesFrom [] text, line.head? ≠ some '\\'
  same : ∀ p ∈ lineDepths text, ∀ q ∈ lineDepths text, p.1 = q.1 → p.2 = q.2
  rise : ∀ p ∈ lineDepths text, ∀ q ∈ lineDepths text,
    p.1.1 < q.1.1 → p.1.2 < q.1.2 → p.2.1 < q.2.1

instance (text : List Char) : Decidable (Movable text) := decidable_of_iff' _ (movable_iff text)

theorem depthFrom_narrow (column column' narrow : Nat) (m : List Char) :
    (depthFrom column (narrow + 4) m).2 = (depthFrom column' narrow m).2 + 4 := by
  fun_induction depthFrom column' narrow m generalizing column with
  | case1 column' narrow rest ih => exact ih _
  | case2 column' narrow rest ih => exact ih _
  | case3 column' narrow m hs ht =>
    rw [depthFrom]
    · exact hs
    · exact ht

theorem exists_of_mem_lineDepths {text : List Char} {d d' : Nat × Nat}
    (h : (d, d') ∈ lineDepths text) : ∃ line, d = depthFrom 0 0 line ∧ d' = depthFrom 4 4 line := by
  rcases List.mem_cons.mp h with h | h
  · cases h
    exact ⟨[], rfl, rfl⟩
  · obtain ⟨line, -, h⟩ := List.mem_map.mp h
    cases h
    exact ⟨line, rfl, rfl⟩

namespace Movable

variable {text : List Char}

theorem shifts (h : Movable text) : Shifts fun d d' => (d, d') ∈ lineDepths text where
  base := by simp [lineDepths]
  low hd := by
    obtain ⟨line, -, rfl⟩ := exists_of_mem_lineDepths hd
    exact Nat.lt_of_lt_of_le (by decide) (le_depthFrom 4 4 line)
  narrow hd := by
    obtain ⟨line, rfl, rfl⟩ := exists_of_mem_lineDepths hd
    exact depthFrom_narrow 4 0 0 line
  same hd he := h.same _ hd _ he rfl
  rise hd he := h.rise _ hd _ he

theorem settles (h : Movable text) {line : List Char} (hline : line ∈ linesFrom [] text) :
    Settles (fun d d' => (d, d') ∈ lineDepths text) line where
  depths hblank :=
    .tail _ (List.mem_map.mpr ⟨line, List.mem_filter.mpr ⟨hline, by simp [hblank]⟩, rfl⟩)
  head := h.heads line hline

end Movable

theorem getLast?_unifyLineEnds {cs : List Char} (h : cs.getLast? = some '\n') :
    (unifyLineEnds cs).getLast? = some '\n' := by
  have hcons : ∀ {d e : Char} {rest : List Char}, (d = '\n' → e = '\n') →
      (rest.getLast? = some '\n' → (unifyLineEnds rest).getLast? = some '\n') →
      (d :: rest).getLast? = some '\n' → (e :: unifyLineEnds rest).getLast? = some '\n' := by
    intro d e rest he ih h
    cases rest with
    | nil => simpa [unifyLineEnds] using he (by simpa using h)
    | cons f rest =>
      rw [List.getLast?_cons, ih (by simpa using h)]
      rfl
  fun_induction unifyLineEnds cs with
  | case1 => cases h
  | case2 rest ih => exact hcons id ih (by simpa using h)
  | case3 rest _ ih => exact hcons (fun _ => rfl) ih h
  | case4 c rest _ _ ih => exact hcons id ih h

/-- The tokens of a script that starts with a line that is known. -/
theorem scriptTokens_head {head rest : List Char} {ts : List Token} {p : Char → Bool}
    (hcuts : Cuts p .start .start head ts) (hp : p '\n') (hne : head ≠ [])
    (hstart : ∀ c ∈ head.head?, startsToken c) (hhead : ∀ c ∈ head, c ≠ '\r')
    (hrest : rest.getLast? = some '\n') :
    ∃ fuel, 2 * (unifyLineEnds rest).length + 3 ≤ fuel ∧ scriptTokens (head ++ '\n' :: rest) =
      ts ++ .newline :: tokensFrom fuel .start true (unifyLineEnds rest) := by
  have hclosed : closed (head ++ '\n' :: rest) = head ++ '\n' :: unifyLineEnds rest := by
    have hreturn : ('\n' : Char) ≠ '\r' := by decide
    simp [closed, unifyLineEnds_append hhead, unifyLineEnds_end, hreturn, List.getLast?_append,
      List.getLast?_cons, getLast?_unifyLineEnds hrest]
  obtain ⟨n, hn, hcuts⟩ := hcuts
  obtain ⟨fuel, hfuel⟩ : ∃ fuel, 2 * (head ++ '\n' :: unifyLineEnds rest).length + 3 =
      n + (fuel + 1) + 1 :=
    ⟨2 * (head.length + (unifyLineEnds rest).length) + 3 - n, by simp; omega⟩
  have henter := tokensFrom_enter (l := .start) rfl 0 rfl (head ++ '\n' :: unifyLineEnds rest)
    (by rwa [List.head?_append_of_ne_nil _ hne]) (n + (fuel + 1))
  refine ⟨fuel, by simp at hfuel; omega, ?_⟩
  change tokens (closed _) = _
  rw [hclosed, tokens, hfuel]
  refine henter.trans ?_
  rw [hcuts _ (by simpa using hp), tokensFrom_lineEnd rfl]
  rfl

theorem mem_moved {lines : List (List Char)} {c : Char} (h : c ∈ moved lines) :
    c = ' ' ∨ c ∈ lines.flatten := by
  obtain ⟨_, hline, hc⟩ := List.mem_flatten.mp h
  obtain ⟨line, hl, rfl⟩ := List.mem_map.mp hline
  rw [List.mem_flatten]
  split_ifs at hc
  · exact .inr ⟨line, hl, hc⟩
  · rcases List.mem_append.mp hc with hc | hc
    · exact .inl (List.eq_of_mem_replicate hc)
    · exact .inr ⟨line, hl, hc⟩

theorem length_flatten_le_moved (lines : List (List Char)) :
    lines.flatten.length ≤ (moved lines).length := by
  induction lines with
  | nil => exact le_rfl
  | cons line lines ih =>
    rw [moved, List.map_cons, List.flatten_cons, List.flatten_cons, ← moved]
    simp only [List.length_append]
    split_ifs
    · omega
    · simp only [List.length_append]
      omega

theorem toList_indentLines (code : String) :
    (Node.indentLines code).toList = moved (linesFrom [] code.toList) := by
  rw [Node.indentLines, String.toList_join, moved, Text.lines, List.map_map, List.flatMap_map,
    List.flatMap]
  congr 2
  funext line
  simp only [Function.comp_apply, Text.allBlank, String.toList_ofList]
  split_ifs <;> simp

theorem toList_codeSource (names : List String) {code : String} (h : Text.allBlank code = false) :
    (Node.codeSource names code).toList = functionHead "print" ("secrets" :: names) ++
      '\n' :: (moved (linesFrom [] code.toList) ++ ['\n']) := by
  have hparams : ∀ (n : String) (names : List String),
      (", ".intercalate (n :: names)).toList = n.toList ++ moreParams names := by
    intro n names
    induction names generalizing n with
    | nil => simp [moreParams]
    | cons m names ih =>
      rw [String.intercalate_cons_cons, String.toList_append, ih]
      simp [moreParams]
  simp only [Node.codeSource, h, Bool.false_eq_true, if_false, String.toList_append,
    List.cons_append, List.nil_append, hparams, toList_indentLines, functionHead]
  simp

section

variable {names : List String} {code : String}

/-- The variables of the function that a snippet becomes. -/
theorem isVariable_params (hnames : ∀ n ∈ names, IsVariable n) :
    IsVariable "print" ∧ ∀ n ∈ "secrets" :: names, IsVariable n :=
  ⟨⟨⟨_, _, rfl, rfl⟩, Handler.isIdChar_fixed rfl, by decide⟩, List.forall_mem_cons.mpr
    ⟨⟨⟨_, _, rfl, rfl⟩, Handler.isIdChar_fixed rfl, by decide⟩, hnames⟩⟩

/-- The tokens of a snippet's function, behind its head, belong to those of the snippet. -/
theorem exists_tokens_codeSource (hnames : ∀ n ∈ names, IsVariable n)
    (hblank : Text.allBlank code = false) (h : Movable code.toList) :
    ∃ ts', (Beside .broken (scriptTokens code.toList) (scriptTokens code.toList) ∨
        Beside (.moved 0) (scriptTokens code.toList) ts') ∧
      ∀ t us, t.Plain → ts' = t :: us → scriptTokens (Node.codeSource names code).toList =
        headTokens "print" ("secrets" :: names) ++ .newline :: .indent :: ts' := by
  obtain ⟨hprint, hmore⟩ := isVariable_params hnames
  obtain ⟨extra, i, k, z, hextra, hm, ha, hz⟩ :=
    moving_linesFrom [] code.toList (by simp) fun line hl => h.settles hl
  simp only [List.reverse_nil, List.nil_append] at hm ha
  obtain ⟨fuel, hfuel, htokens⟩ := scriptTokens_head (cuts_functionHead hprint hmore) rfl
    (by simp [functionHead]) (by simp [functionHead]; decide)
    (fun c hc => ((stands_functionHead hprint hmore).clean c hc).1)
    (show (moved (linesFrom [] code.toList) ++ ['\n']).getLast? = some '\n' by simp)
  rw [hz] at hfuel htokens
  have hlength := ha.length
  have hstack : Stack (fun d d' => (d, d') ∈ lineDepths code.toList) 0 [(0, 0)] [(4, 4)] :=
    ⟨.cons h.shifts.base .nil, by simp, rfl, rfl⟩
  refine ⟨_, (Goes.of_fuel h.shifts hextra (2 * (closed code.toList).length + 3)).fresh
    (b := []) hstack (show _ ≤ fuel by simp at hfuel ⊢; omega) hm ha 98 rfl h.unbroken h.room, ?_⟩
  intro t us ht hstart
  rw [toList_codeSource names hblank, htokens]
  exact congrArg (headTokens _ _ ++ .newline :: ·) (hstart ▸ tokensFrom_indented fuel hstart)

/-- A snippet that can be moved is read as the body of its function. -/
theorem snippet_body_kept {body : List Stmt} (hnames : ∀ n ∈ names, IsVariable n)
    (hread : readScript code = .ok body) (hbody : body ≠ []) (hblank : Text.allBlank code = false)
    (hmovable : Movable code.toList) :
    readScript (Node.codeSource names code) = .ok [.function true Node.codeFunction
      (.mk [] ((["print", "secrets"] ++ names).map plainParam) none [] none) none [] body] := by
  obtain ⟨hzero, us, hus, hrun⟩ := readCharacters_eq_ok.mp hread
  obtain ⟨ts', hbeside, htokens⟩ := exists_tokens_codeSource hnames hblank hmovable
  have htext := toList_codeSource names hblank
  have hshort : code.toList.length < (Node.codeSource names code).toList.length := by
    have := length_flatten_le_moved (linesFrom [] code.toList)
    rw [flatten_linesFrom, List.reverse_nil, List.nil_append] at this
    simp only [htext, List.length_append, List.length_cons]
    omega
  have hmany : ("secrets" :: names).length + 1 <
      (Node.codeSource names code).toList.length + 2 := by
    have := length_functionHead "print" ("secrets" :: names)
    simp only [htext, List.length_append, List.length_cons] at this ⊢
    omega
  obtain ⟨⟨t, us', ht, hstart⟩, hrun'⟩ := statementRun_beside hshort hbeside hus hbody hrun
  refine readCharacters_eq_ok.mpr ⟨?_, [.finish], rfl, ?_⟩
  · obtain ⟨hprint, hmore⟩ := isVariable_params hnames
    simp only [htext, List.mem_append, List.mem_cons, not_or]
    refine ⟨fun hc => ((stands_functionHead hprint hmore).clean _ hc).2 rfl, by decide,
      fun hc => ?_, by decide⟩
    rcases mem_moved hc with hc | hc
    · exact absurd hc (by decide)
    · rw [flatten_linesFrom] at hc
      exact hzero hc
  · rw [htokens t us' ht hstart]
    exact statementRun_function hmany hbody hrun'

end

/-- A snippet with several kinds of line ends, tabs, a blank line and brackets over lines. -/
def summing : String :=
  "total = 0\r\nfor n in values:\n\tif n:  # counted\n\t\ttotal += n\r\n\nreturn [\ntotal, 'a\\nb']"

theorem summing_body_kept : ∃ body, body.length = 3 ∧ readScript summing = .ok body ∧
    readScript (Node.codeSource ["values"] summing) = .ok [.function true Node.codeFunction
      (.mk [] (["print", "secrets", "values"].map plainParam) none [] none) none [] body] := by
  have hlength : (readScript summing).toOption.map List.length = some 3 := by decide +kernel
  cases hread : readScript summing with
  | error e =>
    rw [hread] at hlength
    cases hlength
  | ok body =>
    have hthree : body.length = 3 := by simpa [hread, Except.toOption] using hlength
    have hvalues : ∀ n ∈ ["values"], IsVariable n := by
      intro n hn
      rw [List.mem_singleton.mp hn]
      exact ⟨⟨_, _, rfl, rfl⟩, Handler.isIdChar_fixed rfl, by decide⟩
    refine ⟨body, hthree, rfl, snippet_body_kept hvalues hread ?_ (by decide +kernel)
      (by decide +kernel)⟩
    rintro rfl
    cases hthree

/-- The text that a snippet returns at once, also in a function. -/
def returnedText? : List Stmt → Option String
  | [.ret (some (.constant (.str s _)))] => some s
  | [.function _ _ _ _ _ [.ret (some (.constant (.str s _)))]] => some s
  | _ => none

/-- The lines of a quotation are moved too, which changes the text. -/
theorem quotation_lines_moved :
    (readScript "return '''a\nb'''").toOption.bind returnedText? = some "a\nb" ∧
      (readScript (Node.codeSource [] "return '''a\nb'''")).toOption.bind returnedText? =
        some "a\n    b" := by decide +kernel

end Workflow.Source
