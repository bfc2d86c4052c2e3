/-
Reading a script that is one assignment.

The lines of an assignment, at the margin or in a block, are cut into tokens
(`scriptTokens_line`, `scriptTokens_nested`) and read as one statement
(`readCharacters_assign`, `readCharacters_nested`). Where more brackets are open than
a script may have, the tokens end, and the reading fails (`readCharacters_deep`).
-/
import Workflow.Proofs.Identifiers
import Workflow.Proofs.Spelling
import Workflow.Source.Statement

namespace Workflow

namespace Source

open Parse
open Workflow.Handler (isIdChar)

/-! ## Names -/

theorem toNat_isIdChar {c : Char} (h : isIdChar c) : 32 ≤ c.toNat ∧ c.toNat < 0x80 := by
  simp only [isIdChar, Char.isAlphanum, Char.isAlpha, Char.isUpper, Char.isLower, Char.isDigit,
    Bool.or_eq_true, Bool.and_eq_true, decide_eq_true_eq, ge_iff_le, UInt32.le_iff_toNat_le] at h
  rcases h with ((⟨h, h'⟩ | ⟨h, h'⟩) | ⟨h, h'⟩) | rfl
  · exact ⟨Nat.le_trans (by decide) h, Nat.lt_of_le_of_lt h' (by decide)⟩
  · exact ⟨Nat.le_trans (by decide) h, Nat.lt_of_le_of_lt h' (by decide)⟩
  · exact ⟨Nat.le_trans (by decide) h, Nat.lt_of_le_of_lt h' (by decide)⟩
  · decide

/-- A name of plain letters that is no reserved word. -/
structure IsVariable (s : String) : Prop where
  first : ∃ c cs, s.toList = c :: cs ∧ (c.isAlpha || c = '_')
  chars : ∀ c ∈ s.toList, isIdChar c
  free : s ∉ keywords

theorem IsVariable.wordToken {s : String} (h : IsVariable s) :
    Source.wordToken s.toList = some (.name s) := by
  obtain ⟨c, cs, hcs, hc⟩ := h.first
  have hchars := h.chars
  rw [hcs] at hchars
  have hascii : ∀ d ∈ c :: cs, d.toNat < 0x80 := fun d hd => (toNat_isIdChar (hchars d hd)).2
  have hfirst : Text.isIdentifierStart c := by
    rw [Text.isIdentifierStart, if_pos (hascii c List.mem_cons_self)]
    exact hc
  have hmore : cs.all Text.isIdentifierPart := by
    refine List.all_eq_true.mpr fun d hd => ?_
    rw [Text.isIdentifierPart, if_pos (hascii d (List.mem_cons_of_mem _ hd))]
    exact hchars d (List.mem_cons_of_mem _ hd)
  have hnormal : Text.normalName (c :: cs) = c :: cs := by
    rw [Text.normalName, if_pos]
    simpa using hascii
  have hword : String.ofList (c :: cs) = s := by rw [← hcs, String.ofList_toList]
  simp [hcs, Source.wordToken, hword, h.free, hfirst, hmore, hnormal]

theorem IsVariable.spelled {s : String} (h : IsVariable s) : Spelled true 0 s.toList [.name s] := by
  obtain ⟨c, cs, hcs, hc⟩ := h.first
  have htoken := h.wordToken
  have hchars := h.chars
  rw [hcs] at htoken hchars ⊢
  refine .word hc (fun d hd => ⟨?_, ?_⟩) htoken
  · have hd := hchars d hd
    simp only [isIdChar] at hd
    simp [isNameChar, hd]
  · exact (toNat_isIdChar (hchars d hd)).1

/-! ## Assignments -/

section Reading

variable {n : Nat} {ts rest : List Token} {e : Expr}

theorem expression_name (id : String) (hrest : Ends rest) {size fuel : Nat} (hsize : 0 < size)
    (hfuel : 1 < fuel) : expression size fuel (.name id :: rest) = .ok (.name id, rest) := by
  obtain ⟨size, rfl⟩ : ∃ n, size = n + 1 := ⟨size - 1, by omega⟩
  obtain ⟨fuel, rfl⟩ : ∃ n, fuel = n + 2 := ⟨fuel - 2, by omega⟩
  exact expression_of_atom rfl rfl hrest

theorem argument_literal {inner : Parse Expr} {comprehension : Parse (List Clause)} {t : Token}
    (ht : t.startsLiteral) (h : inner (t :: ts) = .ok (e, rest)) (hrest : Ends rest) :
    argument inner comprehension (t :: ts) = .ok (.positional e, rest) := by
  cases t with
  | sign s =>
    have hs := of_decide_eq_true ht
    simp only [List.mem_cons, List.not_mem_nil, or_false] at hs
    rcases hs with rfl | rfl | rfl <;> simp [argument, namedExpression, h, hrest.atClauses]
  | keyword | number | text => simp [argument, namedExpression, h, hrest.atClauses]
  | _ => cases ht

/-- A literal and a name are the arguments of a call. -/
theorem arguments_pair (x : String) (h : Parses ts e) (rest : List Token) (size fuel : Nat)
    (hsize : ts.length ≤ size + 2) (hfuel : 2 * ts.length ≤ fuel) :
    arguments (size + 2) (expression (size + 2) fuel) (comprehensionClauses (size + 2) fuel) true
        (ts ++ .sign "," :: .name x :: .sign ")" :: rest) =
      .ok (([e, .name x], []), rest) := by
  have hpos := h.length_pos
  have hcomma : Ends (.sign "," :: .name x :: .sign ")" :: rest) := ⟨_, _, rfl, rfl⟩
  have hclose : Ends (.sign ")" :: rest) := ⟨_, _, rfl, rfl⟩
  have hvalue := h.reads (size + 2) fuel _ hsize hfuel hcomma
  have hname := expression_name x hclose (Nat.succ_pos (size + 1)) (show 1 < fuel by omega)
  obtain ⟨t, more, rfl, ht⟩ := h.starts
  have hfirst : argument (expression (size + 2) fuel) (comprehensionClauses (size + 2) fuel)
      (t :: more ++ .sign "," :: .name x :: .sign ")" :: rest) =
      .ok (.positional e, .sign "," :: .name x :: .sign ")" :: rest) :=
    argument_literal ht hvalue hcomma
  have hsecond : argument (expression (size + 2) fuel) (comprehensionClauses (size + 2) fuel)
      (.name x :: .sign ")" :: rest) = .ok (.positional (.name x), .sign ")" :: rest) := by
    simp [argument, namedExpression, hname, hclose.atClauses]
  have hopen := acceptSign_literal ht (s := ")") (by decide)
    (more ++ .sign "," :: .name x :: .sign ")" :: rest)
  have hlist : commaList (size + 2) (argument (expression (size + 2) fuel)
      (comprehensionClauses (size + 2) fuel)) (atSign ")")
      (t :: more ++ .sign "," :: .name x :: .sign ")" :: rest) =
      .ok (([.positional e, .positional (.name x)], false), .sign ")" :: rest) := by
    rw [commaList, bind_apply, hfirst, ok_bind, bind_apply,
      loop_more (b := ([.positional (.name x), .positional e], false)) (u := .sign ")" :: rest),
      loop_done (b := ([.positional (.name x), .positional e], false)) (u := .sign ")" :: rest)]
    · rfl
    · rfl
    · have hstops : atSign ")" (.name x :: .sign ")" :: rest) =
          .ok (false, .name x :: .sign ")" :: rest) := rfl
      simp [hstops, hsecond]
  simp only [List.cons_append] at hlist hopen ⊢
  simp [arguments, hopen, hlist, sortArguments, sign]

/-- A call of a function with a literal and a name. -/
theorem expression_call (f x : String) (h : Parses ts e) (hrest : Ends rest) (size fuel : Nat)
    (hsize : ts.length < size) (hfuel : 2 * ts.length + 2 ≤ fuel) :
    expression size fuel
        (.name f :: .sign "(" :: (ts ++ .sign "," :: .name x :: .sign ")" :: rest)) =
      .ok (.call (.name f) [e, .name x] [], rest) := by
  have hpos := h.length_pos
  obtain ⟨size, rfl⟩ : ∃ n, size = n + 2 := ⟨size - 2, by omega⟩
  obtain ⟨fuel, rfl⟩ : ∃ n, fuel = n + 2 := ⟨fuel - 2, by omega⟩
  have harguments := arguments_pair x h rest size fuel (by omega) (by omega)
  refine expression_of_primary rfl ?_ hrest
  have hatom : atom (size + 2) (expression (size + 2) fuel) (bitOrExpression (size + 2) fuel)
      (comprehensionClauses (size + 2) fuel)
      (.name f :: .sign "(" :: (ts ++ .sign "," :: .name x :: .sign ")" :: rest)) =
      .ok (.name f, .sign "(" :: (ts ++ .sign "," :: .name x :: .sign ")" :: rest)) := rfl
  rw [primary, bind_apply, hatom, ok_bind,
    loop_more (b := .call (.name f) [e, .name x] []) (u := rest), loop_done]
  · simp [hrest.acceptSign]
  · simp [harguments]

/-- What ends a value on the right of an assignment. -/
theorem expressionList_of_expression {r : Readings} (hsize : 0 < r.size) {t : Token}
    (ht : t.opens ∨ t.startsLiteral) (h : r.expression (t :: ts) = .ok (e, rest))
    (hrest : acceptSign "," rest = .ok (false, rest)) :
    expressionList r (t :: ts) = .ok (e, rest) := by
  obtain ⟨size, hs⟩ : ∃ n, r.size = n + 1 := ⟨r.size - 1, by omega⟩
  have hstar : acceptSign "*" (t :: ts) = .ok (false, t :: ts) := by
    rcases ht with ht | ht
    · cases t with
      | sign s =>
        have hne : s ≠ "*" := fun he => absurd ht (by rw [he]; decide)
        simp [hne]
      | _ => rfl
    · exact acceptSign_literal ht (by decide) ts
  have hfirst : starExpression r.expression r.bitOr (t :: ts) = .ok (e, rest) := by
    simp [starExpression, hstar, h]
  rw [expressionList, starExpressions, bind_apply, commaList, bind_apply, hfirst, ok_bind, hs,
    bind_apply, loop_done (b := ([e], false)) (u := rest)]
  · rfl
  · simp [hrest]

/-- An assignment to a name on a line of its own. -/
theorem simpleLine_assign {r : Readings} (hsize : 0 < r.size) {x : String} {t : Token}
    (ht : t.opens ∨ t.startsLiteral) (hname : r.expression (.name x :: .sign "=" :: t :: ts) =
      .ok (.name x, .sign "=" :: t :: ts))
    (h : r.expression (t :: ts) = .ok (e, .newline :: rest)) :
    simpleLine r (.name x :: .sign "=" :: t :: ts) = .ok ([.assign [.name x] e], rest) := by
  obtain ⟨size, hs⟩ : ∃ n, r.size = n + 1 := ⟨r.size - 1, by omega⟩
  have hyield : ∀ (ts : List Token) (t : Token), t.opens ∨ t.startsLiteral →
      acceptKeyword "yield" (t :: ts) = .ok (false, t :: ts) := by
    intro ts t ht
    cases t with
    | keyword w =>
      have hne : w ≠ "yield" := by
        rintro rfl
        rcases ht with ht | ht <;> exact absurd ht (by decide)
      simp [acceptKeyword, hne]
    | _ => rfl
  have htarget : assigned r (.name x :: .sign "=" :: t :: ts) =
      .ok (.name x, .sign "=" :: t :: ts) := by
    have := expressionList_of_expression hsize (.inl rfl) hname rfl
    simp [assigned, hyield _ (.name x) (.inl rfl), this]
  have hvalue : assigned r (t :: ts) = .ok (e, .newline :: rest) := by
    have := expressionList_of_expression hsize ht h rfl
    simp [assigned, hyield _ t ht, this]
  have hassign : assignment r (.name x) (t :: ts) =
      .ok (.assign [.name x] e, .newline :: rest) := by
    rw [assignment, bind_apply, hvalue, ok_bind, hs, bind_apply,
      loop_done (b := ([.name x], e)) (u := .newline :: rest)]
    · rfl
    · rfl
  have hstatement : simpleStatement r (.name x :: .sign "=" :: t :: ts) =
      .ok (.assign [.name x] e, .newline :: rest) := by
    simp [simpleStatement, expressionStatement, htarget, Expr.isTarget, hassign]
  rw [simpleLine, bind_apply, hstatement, ok_bind, hs, bind_apply,
    loop_done (b := [.assign [.name x] e]) (u := .newline :: rest)]
  · rfl
  · rfl

/-- One statement, or one line of them, up to the end of a block or script. -/
theorem statementRun_single {r : Readings} (hsize : 1 < r.size) {block : Parse (List Stmt)}
    {t stop : Token} {body : List Stmt} (ht : t ≠ .dedent ∧ t ≠ .finish)
    (hstop : stop = .dedent ∨ stop = .finish)
    (h : statements r block (t :: ts) = .ok (body, stop :: rest)) :
    statementRun r block (t :: ts) = .ok (body, stop :: rest) := by
  obtain ⟨size, hs⟩ : ∃ n, r.size = n + 2 := ⟨r.size - 2, by omega⟩
  rw [statementRun, hs, bind_apply, loop_more (b := [body]) (u := stop :: rest),
    loop_done (b := [body]) (u := stop :: rest)]
  · simp
  · rcases hstop with rfl | rfl <;> rfl
  · cases t with
    | dedent => exact absurd rfl ht.1
    | finish => exact absurd rfl ht.2
    | _ => simp [h]

theorem statements_name {r : Readings} {block : Parse (List Stmt)} {x : String}
    (hx : x ≠ "match") (ts : List Token) :
    statements r block (.name x :: ts) = simpleLine r (.name x :: ts) := by
  simp [statements, hx]

/-- A block of one line below a condition that holds. -/
theorem statements_branch {r : Readings} (hsize : 1 < r.size) {t : Token} {body : List Stmt}
    (fuel : Nat) (ht : t ≠ .dedent ∧ t ≠ .finish) (hbody : body ≠ [])
    (htest : r.expression (.keyword "True" :: .sign ":" :: .newline :: .indent :: t :: ts) =
      .ok (.constant (.bool true), .sign ":" :: .newline :: .indent :: t :: ts))
    (h : statements r (Source.block r fuel) (t :: ts) = .ok (body, [.dedent, .finish])) :
    statements r (Source.block r (fuel + 1))
        (.keyword "if" :: .keyword "True" :: .sign ":" :: .newline :: .indent :: t :: ts) =
      .ok ([.branch (.constant (.bool true)) body []], [.finish]) := by
  obtain ⟨size, hs⟩ : ∃ n, r.size = n + 1 := ⟨r.size - 1, by omega⟩
  have hrun := statementRun_single hsize ht (.inl rfl) h
  have hblock : Source.block r (fuel + 1) (.newline :: .indent :: t :: ts) =
      .ok (body, [.finish]) := by
    simp [Source.block, hrun, hbody]
  have hhead : headValue r (.keyword "True" :: .sign ":" :: .newline :: .indent :: t :: ts) =
      .ok (.constant (.bool true), .sign ":" :: .newline :: .indent :: t :: ts) := by
    simp [headValue, namedExpression, htest]
  have hchain : ∀ (step : List (Expr × List Stmt) → Parse (List (Expr × List Stmt) × Bool)) start,
      step start [.finish] = .ok ((start, false), [.finish]) →
      loop r.size step start [.finish] = .ok (start, [.finish]) := by
    intro step start h
    rw [hs]
    exact loop_done h size
  have hbranches : branches r (Source.block r (fuel + 1))
      (.keyword "True" :: .sign ":" :: .newline :: .indent :: t :: ts) =
      .ok (.branch (.constant (.bool true)) body [], [.finish]) := by
    rw [branches, bind_apply, hhead, ok_bind, colonBlock, bind_apply, bind_apply]
    simp only [sign, bind_apply, acceptSign_sign, if_true, ok_bind, pure_apply, hblock]
    rw [hchain _ _ rfl]
    rfl
  simp [statements, hbranches]

end Reading

/-! ## Lines -/

section Lines

theorem unifyLineEnds_clean {t : List Char} (h : ∀ c ∈ t, c ≠ '\r') : unifyLineEnds t = t := by
  induction t with
  | nil => rfl
  | cons c rest ih =>
    obtain ⟨hc, hrest⟩ := List.forall_mem_cons.mp h
    rw [unifyLineEnds]
    · rw [ih hrest]
    all_goals simp [hc]

theorem getLast?_of_indents {t : List Char} (h : indents t) : t.getLast? ≠ some '\n' := by
  induction t with
  | nil => simp
  | cons c rest ih =>
    simp only [indents, Bool.and_eq_true, Bool.or_eq_true, decide_eq_true_eq] at h
    cases rest with
    | nil => simpa using h.1
    | cons d rest => simpa using ih h.2

/-- A line begins with the tokens of its depth. -/
theorem tokensFrom_enter {l l' : Layout} (hl : l.brackets = []) (column : Nat) {ts : List Token}
    (h : l.enterLine column column = .ok (ts, l')) (rest : List Char)
    (hrest : ∀ c ∈ rest.head?, startsToken c) (fuel : Nat) :
    tokensFrom (fuel + 1) l true (List.replicate column ' ' ++ rest) =
      ts ++ tokensFrom fuel l' false rest := by
  have hblanks := measureBlanks_spaces column 0 0 fun c hc => endsMargin_of_startsToken (hrest c hc)
  simp only [Nat.zero_add] at hblanks
  have hhead : ¬ (rest.head? = some '#' ∨ rest.head? = some '\n') := by
    rintro (hc | hc)
    · exact absurd (hrest _ hc) (by decide)
    · exact absurd (hrest _ hc) (by decide)
  rw [tokensFrom.eq_def]
  simp only [hblanks, if_true, if_neg hhead, hl, List.isEmpty_nil, Bool.not_true, h]
  rfl

theorem tokensFrom_lineEnd {l : Layout} (hl : l.brackets = []) (rest : List Char) (fuel : Nat) :
    tokensFrom (fuel + 1) l false ('\n' :: rest) = .newline :: tokensFrom fuel l true rest := by
  rw [tokensFrom.eq_def]
  simp [scanToken, hl]

theorem tokensFrom_finish {l : Layout} (hl : l.brackets = []) (fuel : Nat) :
    tokensFrom (fuel + 1) l false [] = [.finish] := by
  rw [tokensFrom.eq_def]
  simp [hl]

/-- A text is cut into tokens where no bracket is open. -/
structure IsLine (t : List Char) (ts : List Token) : Prop where
  cuts : ∀ l : Layout, l.brackets = [] → Cuts endsToken l l t ts
  starts : ∃ c cs, t = c :: cs ∧ startsToken c
  stands : Stands t

variable {t : List Char} {ts : List Token}

theorem IsLine.head_starts (h : IsLine t ts) (rest : List Char) :
    ∀ c ∈ (t ++ rest).head?, startsToken c := by
  obtain ⟨c, cs, rfl, hc⟩ := h.starts
  simpa using hc

/-- The tokens of a script that is one line at the margin. -/
theorem scriptTokens_line (h : IsLine t ts) : scriptTokens t = ts ++ [.newline, .finish] := by
  obtain ⟨n, hn, hcuts⟩ := h.cuts .start rfl
  have hstart : Layout.start.enterLine 0 0 = .ok ([], .start) := rfl
  obtain ⟨fuel, hfuel⟩ : ∃ fuel, 2 * (t ++ ['\n']).length + 3 = (n + (fuel + 3)) + 1 :=
    ⟨2 * (t ++ ['\n']).length + 3 - (n + 4), by simp; omega⟩
  have henter := tokensFrom_enter rfl 0 hstart _ (h.head_starts ['\n']) (n + (fuel + 3))
  have hlast := tokensFrom_enter rfl 0 hstart [] (by simp) (fuel + 1)
  simp only [List.replicate_zero, List.nil_append] at henter hlast
  rw [scriptTokens, unifyLineEnds_clean fun c hc => (h.stands.clean c hc).1]
  simp only [getLast?_of_indents h.stands.indented, if_false]
  rw [tokens, hfuel, henter, hcuts _ (by simp; decide), tokensFrom_lineEnd rfl, hlast,
    tokensFrom_finish rfl]

/-- The head of a block that is always entered. -/
def blockHead : List Char := ['i', 'f', ' ', 'T', 'r', 'u', 'e', ':']

theorem cuts_blockHead {l : Layout} (hl : l.brackets = []) :
    Cuts (· ≠ '=') l l blockHead [.keyword "if", .keyword "True", .sign ":"] := by
  have hif : Spelled true 0 ['i', 'f'] [.keyword "if"] := .word rfl (by simp [isNameChar]) rfl
  have htrue : Spelled true 0 ['T', 'r', 'u', 'e'] [.keyword "True"] :=
    .word rfl (by simp [isNameChar]) rfl
  have hcolon : Cuts (· ≠ '=') l l (['T', 'r', 'u', 'e'] ++ [':'])
      ([.keyword "True"] ++ [.sign ":"]) :=
    (htrue.cuts l (.inl rfl) (by simp [hl])).append (.colonOrEquals l (.inl rfl)) (by simp)
      (by simp; decide)
  have hblank := (Cuts.blank l).append hcolon (by simp) (by simp)
  exact (hif.cuts l (.inl rfl) (by simp [hl])).append hblank (by simp) (by simp; decide)

/-- The tokens of a script that is one line in a block. -/
theorem scriptTokens_nested (h : IsLine t ts) {column : Nat} (hc : 0 < column) :
    scriptTokens (blockHead ++ '\n' :: (List.replicate column ' ' ++ t)) =
      .keyword "if" :: .keyword "True" :: .sign ":" :: .newline :: .indent ::
        (ts ++ [.newline, .dedent, .finish]) := by
  let inner : Layout := ⟨[], [(column, column), (0, 0)]⟩
  have hstart : Layout.start.enterLine 0 0 = .ok ([], .start) := rfl
  have hindent : Layout.start.enterLine column column = .ok ([.indent], inner) := by
    simp [Layout.enterLine, Layout.start, Layout.maxDepths, hc, hc.ne', inner]
  have hdedent : inner.enterLine 0 0 = .ok ([.dedent], .start) := by
    simp [Layout.enterLine, Layout.close, Layout.start, hc, hc.ne, inner]
  obtain ⟨k, hk, hhead⟩ := cuts_blockHead (l := .start) rfl
  obtain ⟨n, hn, hcuts⟩ := h.cuts inner rfl
  have hclean : ∀ c ∈ blockHead ++ '\n' :: (List.replicate column ' ' ++ t), c ≠ '\r' := by
    intro c hc
    simp only [List.mem_append, List.mem_cons, List.mem_replicate] at hc
    rcases hc with hc | rfl | ⟨-, rfl⟩ | hc
    · rintro rfl
      exact absurd hc (by decide)
    · decide
    · decide
    · exact (h.stands.clean c hc).1
  have hlast : (blockHead ++ '\n' :: (List.replicate column ' ' ++ t)).getLast? ≠ some '\n' := by
    obtain ⟨c, cs, rfl, -⟩ := h.starts
    rw [← List.cons_append, ← List.append_assoc, List.getLast?_append_of_ne_nil _ (by simp)]
    exact getLast?_of_indents h.stands.indented
  have hlen : blockHead.length = 8 := rfl
  have hlength : (blockHead ++ '\n' :: (List.replicate column ' ' ++ t) ++ ['\n']).length =
      10 + column + t.length := by
    simp only [List.length_append, List.length_cons, List.length_replicate, List.length_nil]
    omega
  obtain ⟨fuel, hfuel⟩ : ∃ fuel,
      2 * (blockHead ++ '\n' :: (List.replicate column ' ' ++ t) ++ ['\n']).length + 3 =
        (k + ((n + (fuel + 3)) + 2)) + 1 :=
    ⟨2 * (10 + column + t.length) + 3 - (k + n + 6), by rw [hlength]; omega⟩
  have hfirst := tokensFrom_enter rfl 0 hstart
    (blockHead ++ '\n' :: (List.replicate column ' ' ++ (t ++ ['\n'])))
    (by simp [blockHead]; decide) (k + ((n + (fuel + 3)) + 2))
  have hend := tokensFrom_enter rfl 0 hdedent [] (by simp) (fuel + 1)
  simp only [List.replicate_zero, List.nil_append] at hfirst hend
  rw [scriptTokens, unifyLineEnds_clean hclean]
  simp only [hlast, if_false]
  rw [tokens, hfuel, List.append_assoc, List.cons_append, List.append_assoc, hfirst,
    hhead _ (by simp), tokensFrom_lineEnd rfl,
    tokensFrom_enter rfl column hindent _ (h.head_starts _), hcuts _ (by simp; decide),
    tokensFrom_lineEnd rfl, hend, tokensFrom_finish rfl]
  rfl

end Lines

/-! ## Scripts of one assignment -/

section Assignment

/-- Tokens are read as the value of an assignment. -/
structure Assignable (ts : List Token) (e : Expr) : Prop where
  starts : ∃ t more, ts = t :: more ∧ (t.opens ∨ t.startsLiteral)
  reads : ∀ size fuel rest, ts.length ≤ size → 2 * ts.length ≤ fuel → Ends rest →
    expression size fuel (ts ++ rest) = .ok (e, rest)

variable {t : List Char} {ts : List Token} {e : Expr} {d : Nat} {x : String}

theorem Parses.assignable (h : Parses ts e) : Assignable ts e where
  starts := by
    obtain ⟨t, more, rfl, ht⟩ := h.starts
    exact ⟨t, more, rfl, .inr ht⟩
  reads := h.reads

/-- A literal inside a call, with a name for the second argument. -/
theorem Parses.assignable_call (h : Parses ts e) (f x : String) :
    Assignable (.name f :: .sign "(" :: (ts ++ [.sign ",", .name x, .sign ")"]))
      (.call (.name f) [e, .name x] []) where
  starts := ⟨_, _, rfl, .inl rfl⟩
  reads size fuel rest hsize hfuel hrest := by
    simp only [List.length_cons, List.length_append] at hsize hfuel
    have := expression_call f x h hrest size fuel (by omega) (by omega)
    simpa using this

theorem Spelled.call {f x : String} (hf : IsVariable f) (hx : IsVariable x)
    {free : Bool} (h : Spelled free d t ts) :
    Spelled true (d + 1) (f.toList ++ '(' :: (t ++ ',' :: ' ' :: x.toList ++ [')']))
      (.name f :: .sign "(" :: (ts ++ [.sign ",", .name x, .sign ")"])) := by
  have hargs := (h.comma.broken (.inl rfl) hx.spelled).bracketed (o := '(') (c := ')') rfl
    (by decide)
  simp only [Nat.max_zero, List.append_assoc, List.cons_append, List.nil_append] at hargs
  have hname := hf.spelled
  refine ⟨fun l _ hl => ?_, ?_, ?_, ?_⟩
  · have := (hname.cuts l (.inl rfl) (by omega)).append (hargs.cuts l (.inl rfl) hl) (by simp)
      (by simp; decide)
    simpa using this
  · obtain ⟨c, cs, hcs, hc⟩ := hname.starts
    exact ⟨c, _, by rw [hcs]; rfl, hc⟩
  · have := hname.length_le
    have := hargs.length_le
    simp at *
    omega
  · have := hname.stands.append hargs.stands
    simpa using this

/-- A line that assigns a value to a name. -/
theorem isLine_assign (hx : IsVariable x) (h : Spelled true d t ts) (hd : d ≤ Layout.maxBrackets) :
    IsLine (x.toList ++ ' ' :: '=' :: ' ' :: t) (.name x :: .sign "=" :: ts) where
  cuts l hl := by
    have hvalue : Cuts endsToken l l ([' '] ++ t) ([] ++ ts) :=
      (Cuts.blank l).append (h.cuts l (.inl rfl) (by simpa [hl] using hd)) h.ne_nil (by simp)
    have hsign := (Cuts.colonOrEquals l (.inr rfl)).append hvalue (by simp) (by simp)
    have hblank := (Cuts.blank l).append hsign (by simp) (by simp)
    exact (hx.spelled.cuts l (.inl rfl) (by simp [hl])).append hblank (by simp) (by simp; decide)
  starts := by
    obtain ⟨c, cs, hcs, hc⟩ := hx.spelled.starts
    exact ⟨c, _, by rw [hcs]; rfl, hc⟩
  stands := hx.spelled.stands.append (Stands.append (a := [' ', '=', ' ']) (.fixed rfl) h.stands)

theorem simpleLine_assignable (n : Nat) (h : Assignable ts e) (hn : ts.length ≤ n)
    (rest : List Token) :
    simpleLine (readings n) (.name x :: .sign "=" :: (ts ++ .newline :: rest)) =
      .ok ([.assign [.name x] e], rest) := by
  obtain ⟨t, more, rfl, ht⟩ := h.starts
  refine simpleLine_assign (Nat.succ_pos _) ht (expression_name x ⟨_, _, rfl, rfl⟩ ?_ ?_) ?_
  · exact Nat.succ_pos _
  · omega
  · exact h.reads _ _ _ (by omega) (by omega) ⟨_, _, rfl, rfl⟩

/-- A script of one assignment. -/
theorem readCharacters_assign (hx : IsVariable x) (hmatch : x ≠ "match") (h : Spelled true d t ts)
    (hd : d ≤ Layout.maxBrackets) (he : Assignable ts e) :
    readCharacters (x.toList ++ ' ' :: '=' :: ' ' :: t) = .ok [.assign [.name x] e] := by
  have hline := isLine_assign hx h hd
  have htokens := scriptTokens_line hline
  have hzero : (x.toList ++ ' ' :: '=' :: ' ' :: t).contains (Char.ofNat 0) = false := by
    rw [List.contains_eq_mem, decide_eq_false_iff_not]
    exact fun hc => (hline.stands.clean _ hc).2 rfl
  have hlength : ts.length ≤ (x.toList ++ ' ' :: '=' :: ' ' :: t).length := by
    have := h.length_le
    simp only [List.length_append, List.length_cons]
    omega
  generalize x.toList ++ ' ' :: '=' :: ' ' :: t = script at *
  have hsimple := simpleLine_assignable (x := x) script.length he hlength [.finish]
  have hrun : statementRun (readings script.length)
      (block (readings script.length) (readings script.length).size)
      (.name x :: .sign "=" :: (ts ++ [.newline, .finish])) =
      .ok ([.assign [.name x] e], [.finish]) :=
    statementRun_single (Nat.le_add_left 2 _) (by simp) (.inr rfl)
      ((statements_name hmatch _).trans hsimple)
  rw [readCharacters, hzero]
  simp [htokens, hrun]

/-- A script of one assignment in a block. -/
theorem readCharacters_nested (hx : IsVariable x) (hmatch : x ≠ "match") (h : Spelled true d t ts)
    (hd : d ≤ Layout.maxBrackets) (he : Assignable ts e) {column : Nat} (hc : 0 < column) :
    readCharacters (blockHead ++ '\n' ::
        (List.replicate column ' ' ++ (x.toList ++ ' ' :: '=' :: ' ' :: t))) =
      .ok [.branch (.constant (.bool true)) [.assign [.name x] e] []] := by
  have hline := isLine_assign hx h hd
  have htokens := scriptTokens_nested hline hc
  have hzero : (blockHead ++ '\n' :: (List.replicate column ' ' ++
      (x.toList ++ ' ' :: '=' :: ' ' :: t))).contains (Char.ofNat 0) = false := by
    rw [List.contains_eq_mem, decide_eq_false_iff_not]
    intro hm
    rw [List.mem_append, List.mem_cons, List.mem_append, List.mem_replicate] at hm
    rcases hm with hm | hm | ⟨-, hm⟩ | hm
    · exact absurd hm (by decide)
    · exact absurd hm (by decide)
    · exact absurd hm (by decide)
    · exact (hline.stands.clean _ hm).2 rfl
  have hlength : ts.length ≤ (blockHead ++ '\n' :: (List.replicate column ' ' ++
      (x.toList ++ ' ' :: '=' :: ' ' :: t))).length := by
    have := h.length_le
    simp only [List.length_append, List.length_cons]
    omega
  generalize blockHead ++ '\n' :: (List.replicate column ' ' ++
      (x.toList ++ ' ' :: '=' :: ' ' :: t)) = script at *
  have hsimple := simpleLine_assignable (x := x) script.length he hlength [.dedent, .finish]
  have htest : (readings script.length).expression
      (.keyword "True" :: .sign ":" :: .newline :: .indent :: .name x :: .sign "=" ::
        (ts ++ [.newline, .dedent, .finish])) = .ok (.constant (.bool true), _) :=
    (Parses.bool true).reads _ _ _ (by simp) (by simp) ⟨_, _, rfl, rfl⟩
  have hbranch := statements_branch (r := readings script.length) (Nat.le_add_left 2 _)
    (script.length + 1) (by simp) (by simp) htest ((statements_name hmatch _).trans hsimple)
  have hrun := statementRun_single (r := readings script.length) (Nat.le_add_left 2 _) (by simp)
    (.inr rfl) hbranch
  have hsize : (readings script.length).size = script.length + 1 + 1 := rfl
  rw [readCharacters, hzero]
  simp [htokens, hrun, hsize]

end Assignment

/-! ## Too many brackets -/

section Failing

variable {size fuel : Nat} {t : Token} {ts : List Token} {f : Failure}

@[simp] theorem error_bind {ε α β : Type} (e : ε) (k : α → Except ε β) :
    (Except.error e : Except ε α).bind k = .error e := rfl

theorem binaryLevel_error {operand : Parse Expr} (h : operand ts = .error f)
    (levels : List (List (String × BinaryOp))) : binaryLevel size operand levels ts = .error f := by
  induction levels with
  | nil => exact h
  | cons level tighter ih => simp [binaryLevel, ih]

/-- An atom that cannot be read makes the expression fail. -/
theorem expression_error (ht : t.opens)
    (h : atom (size + 1) (expression (size + 1) fuel) (bitOrExpression (size + 1) fuel)
      (comprehensionClauses (size + 1) fuel) (t :: ts) = .error f) :
    expression (size + 1) (fuel + 2) (t :: ts) = .error f := by
  have hawaited : awaited (size + 1) (expression (size + 1) fuel) (bitOrExpression (size + 1) fuel)
      (comprehensionClauses (size + 1) fuel) (t :: ts) = .error f := by
    simp [awaited, acceptKeyword_of_opens ht, primary, h]
  have hbitOr : bitOrExpression (size + 1) (fuel + 1) (t :: ts) = .error f := by
    refine binaryLevel_error ?_ binaryLevels
    rw [factor, bind_apply, unarySigns_of_opens ht, ok_bind, bind_apply, hawaited, error_bind]
  have hinversion : inversion (size + 1) (bitOrExpression (size + 1) (fuel + 1)) (t :: ts) =
      .error f := by
    rw [inversion, bind_apply, loop_done (b := 0) (u := t :: ts), ok_bind]
    · simp [comparison, hbitOr]
    · simp [acceptKeyword_of_opens ht]
  simp [expression, acceptKeyword_of_opens ht, disjunction, connected, hinversion]

/-- Brackets that are opened before the text breaks off. -/
theorem expression_openings (size fuel k : Nat) (hfuel : 2 * k + 2 ≤ fuel) (cause : SourceError) :
    expression (size + 1) fuel (List.replicate k (.sign "[") ++ [.bad cause]) =
      .error ⟨cause, [.bad cause], false⟩ := by
  induction k generalizing fuel with
  | zero =>
    obtain ⟨fuel, rfl⟩ : ∃ n, fuel = n + 2 := ⟨fuel - 2, by omega⟩
    rfl
  | succ k ih =>
    obtain ⟨fuel, rfl⟩ : ∃ n, fuel = n + 2 := ⟨fuel - 2, by omega⟩
    have hinner := ih fuel (by omega)
    have hnamed : starNamed (expression (size + 1) fuel) (bitOrExpression (size + 1) fuel)
        (List.replicate k (.sign "[") ++ [.bad cause]) = .error ⟨cause, [.bad cause], false⟩ := by
      cases k <;> exact hinner
    have hopen : acceptSign "]" (List.replicate k (.sign "[") ++ [.bad cause]) =
        .ok (false, List.replicate k (.sign "[") ++ [.bad cause]) := by
      cases k <;> rfl
    rw [List.replicate_succ, List.cons_append]
    refine expression_error rfl ?_
    simp [atom, bracketed, hopen, hnamed]

/-- A dictionary whose first value breaks off. -/
theorem expression_brokenDict (size fuel : Nat) (key : String) (k : Nat) (hfuel : 2 * k + 4 ≤ fuel)
    (cause : SourceError) :
    expression (size + 1) fuel (.sign "\x7b" :: textToken key :: .sign ":" ::
        (List.replicate k (.sign "[") ++ [.bad cause])) =
      .error ⟨cause, [.bad cause], false⟩ := by
  obtain ⟨fuel, rfl⟩ : ∃ n, fuel = n + 2 := ⟨fuel - 2, by omega⟩
  have hkey := Parses.key (Nat.succ_pos size) (show 1 < fuel by omega) key
    (List.replicate k (.sign "[") ++ [.bad cause])
  have hvalue := expression_openings size fuel k (by omega) cause
  have hnamed : starNamed (expression (size + 1) fuel) (bitOrExpression (size + 1) fuel)
      (textToken key :: .sign ":" :: (List.replicate k (.sign "[") ++ [.bad cause])) =
      .ok (.constant (.str key false),
        .sign ":" :: (List.replicate k (.sign "[") ++ [.bad cause])) := hkey
  have hopen : ∀ (s : String) rest,
      acceptSign s (textToken key :: rest) = .ok (false, textToken key :: rest) := fun _ _ => rfl
  refine expression_error rfl ?_
  simp [atom, braced, hopen, hnamed, hvalue]

/-- An assignment whose value cannot be read. -/
theorem simpleLine_error {r : Readings} (hsize : 0 < r.size) {x : String}
    (hname : r.expression (.name x :: .sign "=" :: t :: ts) = .ok (.name x, .sign "=" :: t :: ts))
    (ht : t.startsLiteral) (h : r.expression (t :: ts) = .error f) :
    simpleLine r (.name x :: .sign "=" :: t :: ts) = .error f := by
  have htarget : assigned r (.name x :: .sign "=" :: t :: ts) =
      .ok (.name x, .sign "=" :: t :: ts) := by
    have := expressionList_of_expression hsize (.inl rfl) hname rfl
    have hyield : acceptKeyword "yield" (.name x :: .sign "=" :: t :: ts) =
      .ok (false, .name x :: .sign "=" :: t :: ts) := rfl
    simp [assigned, hyield, this]
  have hvalue : assigned r (t :: ts) = .error f := by
    have hyield : acceptKeyword "yield" (t :: ts) = .ok (false, t :: ts) := by
      cases t with
      | keyword w =>
        have hne : w ≠ "yield" := fun he => absurd ht (by rw [he]; decide)
        simp [acceptKeyword, hne]
      | _ => rfl
    have hstar := acceptSign_literal ht (s := "*") (by decide) ts
    simp [assigned, hyield, expressionList, starExpressions, commaList, starExpression, hstar, h]
  simp [simpleLine, simpleStatement, expressionStatement, htarget, Expr.isTarget, assignment,
    hvalue]

theorem tokensFrom_openings {l : Layout} (k : Nat) (hl : l.brackets.length + k = Layout.maxBrackets)
    (rest : List Char) (fuel : Nat) :
    tokensFrom (k + 1 + fuel) l false (List.replicate (k + 1) '[' ++ rest) =
      List.replicate k (.sign "[") ++ [.bad .malformed] := by
  induction k generalizing l with
  | zero =>
    have hfull : Layout.maxBrackets ≤ l.brackets.length := by omega
    rw [Nat.add_comm, tokensFrom.eq_def]
    simp [scanToken, closer?, hfull]
  | succ k ih =>
    have hscan : scanToken l ('[' :: (List.replicate (k + 1) '[' ++ rest)) =
        .token (.sign "[") { l with brackets := ']' :: l.brackets }
          (List.replicate (k + 1) '[' ++ rest) :=
      scanToken_opening rfl (by omega)
    have hfuel : k + 1 + 1 + fuel = (k + 1 + fuel) + 1 := by omega
    rw [hfuel, List.replicate_succ, List.cons_append, tokensFrom_token hscan,
      ih (by simp; omega), List.replicate_succ]
    rfl

/-- What comes before the first value of a dictionary that is assigned. -/
def dictHead (x key : String) : List Char :=
  x.toList ++ ([' '] ++ (['='] ++ ([' '] ++ (['\x7b'] ++ ((Text.quoted key).toList ++
    ([':'] ++ [' ']))))))

theorem cuts_dictHead {x : String} (hx : IsVariable x) (key : String) :
    Cuts (fun _ => true) .start ⟨['\x7d'], [(0, 0)]⟩ (dictHead x key)
      [.name x, .sign "=", .sign "\x7b", textToken key, .sign ":"] := by
  let inner : Layout := ⟨['\x7d'], [(0, 0)]⟩
  have hcolon := (Cuts.colonOrEquals inner (.inl rfl)).append (.blank inner) (by simp) (by simp)
  have hkey := (Cuts.quoted inner key).append hcolon (by simp) (by simp; decide)
  have hopen : Cuts (fun _ => true) .start inner ['\x7b'] [.sign "\x7b"] :=
    .opening (l := .start) rfl (by decide)
  have hbrace := hopen.append hkey (by simp) (by simp)
  have hvalue := (Cuts.blank .start).append hbrace (by simp) (by simp)
  have hequals := (Cuts.colonOrEquals .start (.inr rfl)).append hvalue (by simp) (by simp)
  have hblank := (Cuts.blank .start).append hequals (by simp) (by simp)
  exact (hx.spelled.cuts .start (.inl rfl) (by decide)).append hblank (by simp) (by simp; decide)

/-- The tokens of a text that opens too many brackets end there. -/
theorem tokens_deep {x : String} (hx : IsVariable x) (key : String) {n : Nat}
    (hn : Layout.maxBrackets ≤ n) (rest : List Char) :
    tokens (dictHead x key ++ (List.replicate n '[' ++ rest)) =
      .name x :: .sign "=" :: .sign "\x7b" :: textToken key :: .sign ":" ::
        (List.replicate 199 (.sign "[") ++ [.bad .malformed]) := by
  obtain ⟨m, rfl⟩ : ∃ m, n = 200 + m := ⟨n - 200, by unfold Layout.maxBrackets at hn; omega⟩
  obtain ⟨k, hk, hcuts⟩ := cuts_dictHead hx key
  have hbrackets : List.replicate (200 + m) '[' ++ rest =
      List.replicate (199 + 1) '[' ++ (List.replicate m '[' ++ rest) := by
    rw [← List.replicate_append_replicate, List.append_assoc]
  obtain ⟨fuel, hfuel⟩ : ∃ fuel,
      2 * (dictHead x key ++ (List.replicate (200 + m) '[' ++ rest)).length + 3 =
        (k + (199 + 1 + fuel)) + 1 := by
    simp only [List.length_append, List.length_replicate]
    exact ⟨2 * ((dictHead x key).length + (200 + m + rest.length)) + 3 - (k + 201), by omega⟩
  have hstarts : ∀ c ∈ (dictHead x key ++ (List.replicate (200 + m) '[' ++ rest)).head?,
      startsToken c := by
    obtain ⟨c, cs, hcs, hc⟩ := hx.spelled.starts
    simpa [dictHead, hcs] using hc
  have hstart : Layout.start.enterLine 0 0 = .ok ([], .start) := rfl
  have henter := tokensFrom_enter rfl 0 hstart _ hstarts (k + (199 + 1 + fuel))
  simp only [List.replicate_zero, List.nil_append] at henter
  rw [tokens, hfuel, henter, hcuts _ (by simp), hbrackets, tokensFrom_openings 199 rfl]
  rfl

/-- An assignment of a dictionary that opens more brackets than a script may have. -/
theorem readCharacters_deep {x : String} (hx : IsVariable x) (hmatch : x ≠ "match") (key : String)
    {n : Nat} (hn : Layout.maxBrackets ≤ n) {rest : List Char}
    (hclean : ∀ c ∈ rest, c ≠ '\r' ∧ c ≠ Char.ofNat 0) :
    readCharacters (dictHead x key ++ (List.replicate n '[' ++ rest)) = .error .malformed := by
  have hall : ∀ c ∈ dictHead x key ++ (List.replicate n '[' ++ rest),
      c ≠ '\r' ∧ c ≠ Char.ofNat 0 := by
    have hhead : Stands (dictHead x key) :=
      hx.spelled.stands.append (Stands.append (a := [' ', '=', ' ', '\x7b']) (.fixed rfl)
        ((stands_quoted key).append (.fixed rfl)))
    intro c hc
    rw [List.mem_append, List.mem_append, List.mem_replicate] at hc
    rcases hc with hc | ⟨-, rfl⟩ | hc
    · exact hhead.clean c hc
    · decide
    · exact hclean c hc
  have hzero : (dictHead x key ++ (List.replicate n '[' ++ rest)).contains (Char.ofNat 0) =
      false := by
    rw [List.contains_eq_mem, decide_eq_false_iff_not]
    exact fun hc => (hall _ hc).2 rfl
  have htokens : scriptTokens (dictHead x key ++ (List.replicate n '[' ++ rest)) =
      .name x :: .sign "=" :: .sign "\x7b" :: textToken key :: .sign ":" ::
        (List.replicate 199 (.sign "[") ++ [.bad .malformed]) := by
    rw [scriptTokens, unifyLineEnds_clean fun c hc => (hall c hc).1]
    split
    · exact tokens_deep hx key hn rest
    · rw [List.append_assoc, List.append_assoc]
      exact tokens_deep hx key hn (rest ++ ['\n'])
  have hlength : 400 ≤ 2 * (dictHead x key ++ (List.replicate n '[' ++ rest)).length := by
    unfold Layout.maxBrackets at hn
    simp only [List.length_append, List.length_replicate]
    omega
  generalize dictHead x key ++ (List.replicate n '[' ++ rest) = script at *
  have hvalue := expression_brokenDict (script.length + 1) (4 * script.length + 8) key 199
    (by omega) .malformed
  have hline := simpleLine_error (r := readings script.length) (x := x) (Nat.succ_pos _)
    (expression_name x ⟨_, _, rfl, rfl⟩ (Nat.succ_pos _) (by omega)) rfl hvalue
  generalize textToken key :: .sign ":" :: (List.replicate 199 (.sign "[") ++ [.bad .malformed]) =
    ts at *
  have hrun : statementRun (readings script.length)
      (block (readings script.length) (readings script.length).size)
      (.name x :: .sign "=" :: .sign "\x7b" :: ts) =
      .error ⟨.malformed, [.bad .malformed], false⟩ := by
    have hsize : (readings script.length).size = script.length + 1 + 1 := rfl
    rw [statementRun, hsize, loop]
    simp [statements_name hmatch, hline]
  rw [readCharacters, hzero]
  simp [htokens, hrun]

end Failing

end Source

end Workflow
