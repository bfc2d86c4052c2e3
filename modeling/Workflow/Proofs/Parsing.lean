/-
Reading the tokens of literals as expressions.

An expression is read by levels, and a level that finds none of its operators
leaves to the next what it was given. So what is read as an atom is read as an
expression, if what follows can only end one (`expression_of_primary`).
-/
import Workflow.Proofs.Tokens

namespace Workflow.Source

namespace Parse

variable {α β : Type}

@[simp] theorem bind_apply (p : Parse α) (k : α → Parse β) (ts : List Token) :
    (p >>= k) ts = (p ts).bind fun r => k r.1 r.2 := rfl

@[simp] theorem pure_apply (a : α) (ts : List Token) : (pure a : Parse α) ts = .ok (a, ts) := rfl

@[simp] theorem map_apply (f : α → β) (p : Parse α) (ts : List Token) :
    (f <$> p) ts = (p ts).bind fun r => .ok (f r.1, r.2) := rfl

@[simp] theorem peek_apply (t : Token) (ts : List Token) : peek (t :: ts) = .ok (t, t :: ts) := rfl

@[simp] theorem skip_apply (t : Token) (ts : List Token) : skip (t :: ts) = .ok ((), ts) := rfl

@[simp] theorem get_apply (ts : List Token) : (get : Parse (List Token)) ts = .ok (ts, ts) := rfl

@[simp] theorem set_apply (ts ts' : List Token) : (set ts' : Parse PUnit) ts = .ok (⟨⟩, ts') := rfl

@[simp] theorem ok_bind {ε : Type} (a : α) (k : α → Except ε β) :
    (Except.ok a : Except ε α).bind k = k a := rfl

@[simp] theorem acceptSign_sign (s t : String) (ts : List Token) :
    acceptSign s (.sign t :: ts) = if t = s then .ok (true, ts) else .ok (false, .sign t :: ts) :=
  rfl

theorem loop_done {f : α → Parse (α × Bool)} {a b : α} {t u : List Token}
    (h : f a t = .ok ((b, false), u)) (fuel : Nat) : loop (fuel + 1) f a t = .ok (b, u) := by
  simp [loop, h]

theorem loop_more {f : α → Parse (α × Bool)} {a b : α} {t u : List Token}
    (h : f a t = .ok ((b, true), u)) (fuel : Nat) :
    loop (fuel + 1) f a t = loop fuel f b u := by
  simp [loop, h]

end Parse

open Parse

/-! ## What can end an expression -/

/-- Whether a token can only come after an expression, and is no part of it. -/
def Token.ends : Token → Bool
  | .sign s => s ∈ [",", ":", "=", ")", "]", "\x7d"]
  | .newline => true
  | _ => false

/-- The tokens that follow end an expression. -/
def Ends (ts : List Token) : Prop := ∃ t rest, ts = t :: rest ∧ t.ends

namespace Ends

variable {ts : List Token}

theorem cases (h : Ends ts) : (∃ rest, ts = .newline :: rest) ∨
    ∃ s rest, ts = .sign s :: rest ∧ s ∈ [",", ":", "=", ")", "]", "\x7d"] := by
  obtain ⟨t, rest, rfl, ht⟩ := h
  cases t with
  | newline => exact .inl ⟨rest, rfl⟩
  | sign s => exact .inr ⟨s, rest, rfl, of_decide_eq_true ht⟩
  | _ => cases ht

theorem acceptSign (h : Ends ts) {s : String} (hs : s ∉ [",", ":", "=", ")", "]", "\x7d"]) :
    Parse.acceptSign s ts = .ok (false, ts) := by
  rcases h.cases with ⟨rest, rfl⟩ | ⟨s', rest, rfl, hs'⟩
  · rfl
  · have hne : s' ≠ s := fun he => hs (he ▸ hs')
    simp [Parse.acceptSign, hne]

theorem acceptKeyword (h : Ends ts) (w : String) : Parse.acceptKeyword w ts = .ok (false, ts) := by
  rcases h.cases with ⟨rest, rfl⟩ | ⟨s, rest, rfl, -⟩ <;> rfl

theorem atClauses (h : Ends ts) : Source.atClauses ts = .ok (false, ts) := by
  rcases h.cases with ⟨rest, rfl⟩ | ⟨s, rest, rfl, -⟩ <;> rfl

theorem acceptComparison (h : Ends ts) : Source.acceptComparison ts = .ok (none, ts) := by
  rcases h.cases with ⟨rest, rfl⟩ | ⟨s, rest, rfl, hs⟩
  · rfl
  · simp only [List.mem_cons, List.not_mem_nil, or_false] at hs
    rcases hs with rfl | rfl | rfl | rfl | rfl | rfl <;> rfl

end Ends

/-! ## Levels -/

/-- Whether a token can start an operand without a sign before it. -/
def Token.opens : Token → Bool
  | .name _ | .number _ | .text _ => true
  | .keyword w => w ∈ ["None", "True", "False"]
  | .sign s => s ∈ ["(", "[", "\x7b"]
  | _ => false

section Levels

variable {size : Nat} {inner bitOr operand : Parse Expr} {comprehension : Parse (List Clause)}
  {t : Token} {ts rest : List Token} {e : Expr}

theorem acceptKeyword_of_opens (ht : t.opens) {w : String} (hw : w ∉ ["None", "True", "False"])
    (ts : List Token) : acceptKeyword w (t :: ts) = .ok (false, t :: ts) := by
  cases t with
  | keyword w' =>
    have hne : w' ≠ w := fun he => hw (he ▸ of_decide_eq_true ht)
    simp [acceptKeyword, hne]
  | _ => rfl

theorem acceptUnary_of_opens (ht : t.opens) (ts : List Token) :
    acceptUnary (t :: ts) = .ok (none, t :: ts) := by
  cases t with
  | sign s =>
    have hs := of_decide_eq_true ht
    simp only [List.mem_cons, List.not_mem_nil, or_false] at hs
    rcases hs with rfl | rfl | rfl <;> rfl
  | _ => rfl

theorem primary_of_atom (h : atom (size + 1) inner bitOr comprehension ts = .ok (e, rest))
    (hrest : Ends rest) : primary (size + 1) inner bitOr comprehension ts = .ok (e, rest) := by
  rw [primary, bind_apply, h, ok_bind]
  refine loop_done ?_ size
  simp [hrest.acceptSign]

theorem awaited_of_primary (ht : t.opens)
    (h : primary size inner bitOr comprehension (t :: ts) = .ok (e, rest)) :
    awaited size inner bitOr comprehension (t :: ts) = .ok (e, rest) := by
  simp [awaited, acceptKeyword_of_opens ht, h]

theorem unarySigns_of_opens (ht : t.opens) (size : Nat) (ts : List Token) :
    unarySigns (size + 1) (t :: ts) = .ok ([], t :: ts) := by
  rw [unarySigns, bind_apply, loop_done (b := []) (u := t :: ts)]
  · rfl
  · simp [acceptUnary_of_opens ht]

theorem factor_of_operand (ht : t.opens) (h : operand (t :: ts) = .ok (e, rest))
    (hrest : Ends rest) : factor (size + 1) operand (t :: ts) = .ok (e, rest) := by
  rw [factor, bind_apply, unarySigns_of_opens ht, ok_bind, bind_apply, h, ok_bind, bind_apply,
    loop_done (b := [([], e)]) (u := rest)]
  · rfl
  · simp [hrest.acceptSign]

theorem factor_minus (ht : t.opens) (h : operand (t :: ts) = .ok (e, rest)) (hrest : Ends rest) :
    factor (size + 2) operand (.sign "-" :: t :: ts) = .ok (.unary .minus e, rest) := by
  have hsigns : unarySigns (size + 2) (.sign "-" :: t :: ts) = .ok ([.minus], t :: ts) := by
    rw [unarySigns, bind_apply, loop_more (b := [.minus]) (u := t :: ts),
      loop_done (b := [.minus]) (u := t :: ts)]
    · rfl
    · simp [acceptUnary_of_opens ht]
    · rfl
  rw [factor, bind_apply, hsigns, ok_bind, bind_apply, h, ok_bind, bind_apply,
    loop_done (b := [([.minus], e)]) (u := rest)]
  · rfl
  · simp [hrest.acceptSign]

theorem binaryLevel_of_operand {levels : List (List (String × BinaryOp))}
    (hlevels : ∀ level ∈ levels, ∀ s ∈ [",", ":", "=", ")", "]", "\x7d"], level.lookup s = none)
    (h : operand ts = .ok (e, rest)) (hrest : Ends rest) :
    binaryLevel (size + 1) operand levels ts = .ok (e, rest) := by
  induction levels with
  | nil => exact h
  | cons level tighter ih =>
    obtain ⟨hlevel, htighter⟩ := List.forall_mem_cons.mp hlevels
    rw [binaryLevel, bind_apply, ih htighter, ok_bind]
    refine loop_done ?_ size
    rcases hrest.cases with ⟨rest, rfl⟩ | ⟨s, rest, rfl, hs⟩
    · rfl
    · simp [hlevel s hs]

theorem comparison_of_bitOr (h : bitOr ts = .ok (e, rest)) (hrest : Ends rest) :
    comparison (size + 1) bitOr ts = .ok (e, rest) := by
  rw [comparison, bind_apply, h, ok_bind, bind_apply, loop_done (b := []) (u := rest)]
  · rfl
  · simp [hrest.acceptComparison]

theorem connected_of_operand {word : String} {op : BoolOp} (h : operand ts = .ok (e, rest))
    (hrest : Ends rest) : connected (size + 1) word op operand ts = .ok (e, rest) := by
  rw [connected, bind_apply, h, ok_bind, bind_apply, loop_done (b := []) (u := rest)]
  · rfl
  · simp [hrest.acceptKeyword]

theorem inversion_of_comparison (hnot : acceptKeyword "not" ts = .ok (false, ts))
    (h : comparison (size + 1) bitOr ts = .ok (e, rest)) :
    inversion (size + 1) bitOr ts = .ok (e, rest) := by
  rw [inversion, bind_apply, loop_done (b := 0) (u := ts), ok_bind, bind_apply, h]
  · rfl
  · simp [hnot]

theorem expression_of_bitOr (hnot : acceptKeyword "not" ts = .ok (false, ts))
    (hlambda : acceptKeyword "lambda" ts = .ok (false, ts)) {fuel : Nat}
    (h : bitOrExpression (size + 1) fuel ts = .ok (e, rest)) (hrest : Ends rest) :
    expression (size + 1) (fuel + 1) ts = .ok (e, rest) := by
  have hdisjunction : disjunction (size + 1) (bitOrExpression (size + 1) fuel) ts = .ok (e, rest) :=
    connected_of_operand (connected_of_operand
      (inversion_of_comparison hnot (comparison_of_bitOr h hrest)) hrest) hrest
  simp [expression, hlambda, hdisjunction, hrest.acceptKeyword]

/-- What is read as a primary is read as an expression. -/
theorem expression_of_primary {fuel : Nat} (ht : t.opens)
    (h : primary (size + 1) (expression (size + 1) fuel) (bitOrExpression (size + 1) fuel)
      (comprehensionClauses (size + 1) fuel) (t :: ts) = .ok (e, rest)) (hrest : Ends rest) :
    expression (size + 1) (fuel + 2) (t :: ts) = .ok (e, rest) := by
  refine expression_of_bitOr (acceptKeyword_of_opens ht (by decide) ts)
    (acceptKeyword_of_opens ht (by decide) ts) ?_ hrest
  refine binaryLevel_of_operand (by decide) ?_ hrest
  exact factor_of_operand ht (awaited_of_primary ht h) hrest

theorem expression_of_atom {fuel : Nat} (ht : t.opens)
    (h : atom (size + 1) (expression (size + 1) fuel) (bitOrExpression (size + 1) fuel)
      (comprehensionClauses (size + 1) fuel) (t :: ts) = .ok (e, rest)) (hrest : Ends rest) :
    expression (size + 1) (fuel + 2) (t :: ts) = .ok (e, rest) :=
  expression_of_primary ht (primary_of_atom h hrest) hrest

theorem expression_minus {fuel : Nat} (ht : t.opens)
    (h : atom (size + 2) (expression (size + 2) fuel) (bitOrExpression (size + 2) fuel)
      (comprehensionClauses (size + 2) fuel) (t :: ts) = .ok (e, rest)) (hrest : Ends rest) :
    expression (size + 2) (fuel + 2) (.sign "-" :: t :: ts) = .ok (.unary .minus e, rest) := by
  refine expression_of_bitOr rfl rfl (binaryLevel_of_operand (by decide) ?_ hrest) hrest
  exact factor_minus ht (awaited_of_primary ht (primary_of_atom h hrest)) hrest

end Levels

/-! ## Items set apart by commas -/

/-- The tokens of items, with commas between them. -/
def listed {α : Type} : List (List Token × α) → List Token
  | [] => []
  | item :: items => item.1 ++ items.flatMap fun i => .sign "," :: i.1

theorem listed_cons {α : Type} (item : List Token × α) {items : List (List Token × α)}
    (h : items ≠ []) : listed (item :: items) = item.1 ++ .sign "," :: listed items := by
  obtain ⟨next, more, rfl⟩ := List.exists_cons_of_ne_nil h
  simp [listed]

section Items

variable {α : Type} {item : Parse α} {stops : Parse Bool} {size : Nat} {rest : List Token}

/-- Tokens are read as an item, and do not look like the end of a list. -/
structure IsItem (item : Parse α) (stops : Parse Bool) (chunk : List Token × α) : Prop where
  reads : ∀ rest, Ends rest → item (chunk.1 ++ rest) = .ok (chunk.2, rest)
  goesOn : ∀ rest, stops (chunk.1 ++ rest) = .ok (false, chunk.1 ++ rest)

theorem ends_flatMap (chunks : List (List Token × α)) (hrest : Ends rest) :
    Ends (chunks.flatMap (fun i => .sign "," :: i.1) ++ rest) := by
  cases chunks with
  | nil => exact hrest
  | cons c cs => exact ⟨_, _, rfl, rfl⟩

theorem loop_listed {f : List α × Bool → Parse ((List α × Bool) × Bool)}
    {chunks : List (List Token × α)} (hrest : Ends rest)
    (hmore : ∀ c ∈ chunks, ∀ done rest, Ends rest →
      f (done, false) (.sign "," :: (c.1 ++ rest)) = .ok (((c.2 :: done, false), true), rest))
    (hdone : ∀ done, f (done, false) rest = .ok (((done, false), false), rest))
    (hsize : chunks.length < size) (done : List α) :
    loop size f (done, false) (chunks.flatMap (fun i => .sign "," :: i.1) ++ rest) =
      .ok (((chunks.map (·.2)).reverse ++ done, false), rest) := by
  induction chunks generalizing size done with
  | nil =>
    obtain ⟨size, rfl⟩ : ∃ n, size = n + 1 := ⟨size - 1, by simp at hsize; omega⟩
    exact loop_done (hdone done) size
  | cons c cs ih =>
    obtain ⟨size, rfl⟩ : ∃ n, size = n + 1 := ⟨size - 1, by simp at hsize; omega⟩
    obtain ⟨hc, hcs⟩ := List.forall_mem_cons.mp hmore
    have hstep := hc done _ (ends_flatMap cs hrest)
    rw [List.flatMap_cons, List.append_assoc, List.cons_append, loop_more hstep,
      ih hcs (by simpa using hsize)]
    simp

/-- Items with commas between them are read one after another. -/
theorem commaList_listed {chunk : List Token × α} {chunks : List (List Token × α)}
    (h : ∀ c ∈ chunk :: chunks, IsItem item stops c) (hrest : Ends rest)
    (hlast : acceptSign "," rest = .ok (false, rest)) (hsize : chunks.length < size) :
    commaList size item stops (listed (chunk :: chunks) ++ rest) =
      .ok (((chunk :: chunks).map (·.2), false), rest) := by
  obtain ⟨hchunk, hchunks⟩ := List.forall_mem_cons.mp h
  rw [commaList, bind_apply, listed, List.append_assoc, hchunk.reads _ (ends_flatMap _ hrest),
    ok_bind, bind_apply, loop_listed hrest ?_ ?_ hsize]
  · simp
  · intro c hc done rest hrest
    have hread := (hchunks c hc).reads rest hrest
    have hgoes := (hchunks c hc).goesOn rest
    simp [hgoes, hread]
  · intro done
    simp [hlast]

end Items

/-! ## Literals -/

/-- Whether a token can be the first of a literal. -/
def Token.startsLiteral : Token → Bool
  | .number _ | .text _ => true
  | .keyword w => w ∈ ["None", "True", "False"]
  | .sign s => s ∈ ["[", "\x7b", "-"]
  | _ => false

/-- Tokens are read as an expression, whatever ends it, in as many rounds as there are tokens. -/
structure Parses (ts : List Token) (e : Expr) : Prop where
  starts : ∃ t more, ts = t :: more ∧ t.startsLiteral
  reads : ∀ size fuel rest, ts.length ≤ size → 2 * ts.length ≤ fuel → Ends rest →
    expression size fuel (ts ++ rest) = .ok (e, rest)

section Starts

variable {t : Token} {ts : List Token}

theorem startsExpression_literal (ht : t.startsLiteral) (ts : List Token) :
    startsExpression (t :: ts) = .ok (true, t :: ts) := by
  cases t with
  | keyword w =>
    have hw := of_decide_eq_true ht
    simp only [List.mem_cons, List.not_mem_nil, or_false] at hw
    rcases hw with rfl | rfl | rfl <;> rfl
  | sign s =>
    have hs := of_decide_eq_true ht
    simp only [List.mem_cons, List.not_mem_nil, or_false] at hs
    rcases hs with rfl | rfl | rfl <;> rfl
  | number | text => rfl
  | _ => cases ht

theorem noItem_literal (ht : t.startsLiteral) (ts : List Token) :
    noItem (t :: ts) = .ok (false, t :: ts) := by
  simp only [noItem, bind_apply, startsExpression_literal ht, ok_bind]
  cases t <;> rfl

theorem noDictItem_literal (ht : t.startsLiteral) (ts : List Token) :
    noDictItem (t :: ts) = .ok (false, t :: ts) := by
  simp only [noDictItem, bind_apply, startsExpression_literal ht, ok_bind]
  cases t <;> rfl

theorem acceptSign_literal (ht : t.startsLiteral) {s : String} (hs : s ∉ ["[", "\x7b", "-"])
    (ts : List Token) : acceptSign s (t :: ts) = .ok (false, t :: ts) := by
  cases t with
  | sign s' =>
    have hne : s' ≠ s := fun he => hs (he ▸ of_decide_eq_true ht)
    simp [acceptSign, hne]
  | _ => rfl

theorem starNamed_literal (ht : t.startsLiteral) (inner bitOr : Parse Expr) (ts : List Token) :
    starNamed inner bitOr (t :: ts) = inner (t :: ts) := by
  have hnamed : namedExpression inner (t :: ts) = inner (t :: ts) := by
    cases t with
    | name => cases ht
    | _ => rfl
  simp [starNamed, acceptSign_literal ht, hnamed]

end Starts

/-! Neighbouring quoted texts are one text. -/

section Texts

/-- What a quoted text is cut into. -/
def quotation (s : String) : Quotation := quotationOf [] (quotedBody s)

theorem takeTexts_quoted (ss : List String) {rest : List Token} (hrest : Ends rest) :
    takeTexts (ss.map textToken ++ rest) = (ss.map quotation, rest) := by
  induction ss with
  | nil => rcases hrest.cases with ⟨rest, rfl⟩ | ⟨s, rest, rfl, -⟩ <;> rfl
  | cons s ss ih => simp [textToken, takeTexts, ih, quotation]

theorem mapM_quotationPieces (ss : List String) :
    (ss.map quotation).mapM quotationPieces = some (ss.map fun s => [.text s]) := by
  induction ss with
  | nil => rfl
  | cons s ss ih =>
    have hs : quotationPieces (quotation s) = some [.text s] := by
      have htext : (textOf false (quotedBody s)).map (fun t => [RawPiece.text t]) =
          some [.text s] := by
        rw [textOf_quoted]
        rfl
      exact htext
    simp [List.mapM_cons, hs, ih]

theorem toList_fixedText (ss : List String) :
    (fixedText (ss.map fun s => [RawPiece.text s]).flatten).toList =
      (ss.map (·.toList)).flatten := by
  induction ss with
  | nil => rfl
  | cons s ss ih => simp [fixedText, ih]

theorem texts_quoted {ss : List String} (hss : ss ≠ []) {s : String}
    (hs : s.toList = (ss.map (·.toList)).flatten) (inner : Parse Expr) {rest : List Token}
    (hrest : Ends rest) :
    texts inner (ss.map textToken ++ rest) = .ok (.constant (.str s false), rest) := by
  have hall : (ss.map quotation).all (·.bytes) = false := by
    obtain ⟨s, ss, rfl⟩ := List.exists_cons_of_ne_nil hss
    rfl
  have hbytes : (ss.map quotation).any (·.bytes) = false := by simp [quotation, quotationOf]
  have hformatted : (ss.map quotation).any (·.formatted) = false := by simp [quotation, quotationOf]
  have hmarked : (((ss.map quotation).head?.map (·.marked)).getD false) = false := by
    cases ss <;> rfl
  have htext : fixedText (ss.map fun s => [RawPiece.text s]).flatten = s :=
    String.toList_inj.mp ((toList_fixedText ss).trans hs.symm)
  simp only [texts, bind_apply, get_apply, ok_bind, takeTexts_quoted ss hrest, hall, hbytes,
    mapM_quotationPieces, hformatted, hmarked, htext]
  rfl

end Texts

/-- The tokens of an entry of a dictionary, and the entry. -/
def entryChunk (k : String) (value : List Token × Expr) : List Token × DictItem :=
  (textToken k :: .sign ":" :: value.1, .entry (.constant (.str k false)) value.2)

namespace Parses

variable {ts : List Token} {e : Expr}

theorem length_pos (h : Parses ts e) : 0 < ts.length := by
  obtain ⟨t, more, rfl, -⟩ := h.starts
  simp

/-- A token that is an atom by itself. -/
theorem atom {t : Token} (ht : t.opens) (hl : t.startsLiteral)
    (h : ∀ size inner bitOr comprehension rest, Ends rest →
      Source.atom size inner bitOr comprehension (t :: rest) = .ok (e, rest)) : Parses [t] e where
  starts := ⟨t, [], rfl, hl⟩
  reads size fuel rest hsize hfuel hrest := by
    obtain ⟨size, rfl⟩ : ∃ n, size = n + 1 := ⟨size - 1, by simp at hsize; omega⟩
    obtain ⟨fuel, rfl⟩ : ∃ n, fuel = n + 2 := ⟨fuel - 2, by simp at hfuel; omega⟩
    exact expression_of_atom ht (h _ _ _ _ _ hrest) hrest

theorem none : Parses [.keyword "None"] (.constant .none) :=
  .atom rfl rfl fun _ _ _ _ _ _ => rfl

theorem bool (b : Bool) :
    Parses [.keyword (if b then "True" else "False")] (.constant (.bool b)) := by
  cases b
  · exact .atom rfl rfl fun _ _ _ _ _ _ => rfl
  · exact .atom rfl rfl fun _ _ _ _ _ _ => rfl

theorem number (value : Constant) : Parses [.number value] (.constant value) :=
  .atom rfl rfl fun _ _ _ _ _ _ => rfl

theorem negative (value : Constant) :
    Parses [.sign "-", .number value] (.unary .minus (.constant value)) where
  starts := ⟨_, _, rfl, rfl⟩
  reads size fuel rest hsize hfuel hrest := by
    obtain ⟨size, rfl⟩ : ∃ n, size = n + 2 := ⟨size - 2, by simp at hsize; omega⟩
    obtain ⟨fuel, rfl⟩ : ∃ n, fuel = n + 2 := ⟨fuel - 2, by simp at hfuel; omega⟩
    exact expression_minus rfl rfl hrest

theorem text {ss : List String} (hss : ss ≠ []) {s : String}
    (hs : s.toList = (ss.map (·.toList)).flatten) :
    Parses (ss.map textToken) (.constant (.str s false)) := by
  obtain ⟨first, more, rfl⟩ := List.exists_cons_of_ne_nil hss
  refine ⟨⟨_, _, rfl, rfl⟩, fun size fuel rest hsize hfuel hrest => ?_⟩
  obtain ⟨size, rfl⟩ : ∃ n, size = n + 1 := ⟨size - 1, by simp at hsize; omega⟩
  obtain ⟨fuel, rfl⟩ : ∃ n, fuel = n + 2 := ⟨fuel - 2, by simp at hfuel; omega⟩
  exact expression_of_atom rfl (texts_quoted hss hs _ hrest) hrest

/-- A literal is an item of a list. -/
theorem isItem (h : Parses ts e) {size fuel : Nat} (hsize : ts.length ≤ size)
    (hfuel : 2 * ts.length ≤ fuel) (bitOr : Parse Expr) :
    IsItem (starNamed (expression size fuel) bitOr) noItem (ts, e) := by
  obtain ⟨t, more, rfl, ht⟩ := h.starts
  refine ⟨fun rest hrest => ?_, fun rest => noItem_literal ht _⟩
  exact (starNamed_literal ht _ _ _).trans (h.reads size fuel rest hsize hfuel hrest)

/-- A text is read as a key. -/
theorem key {size fuel : Nat} (hsize : 0 < size) (hfuel : 1 < fuel) (k : String)
    (rest : List Token) : expression size fuel (textToken k :: .sign ":" :: rest) =
      .ok (.constant (.str k false), .sign ":" :: rest) := by
  have hk : Parses ([k].map textToken) (.constant (.str k false)) := .text (by simp) (by simp)
  exact hk.reads size fuel _ hsize hfuel ⟨_, _, rfl, rfl⟩

/-- A text and a literal are an entry of a dictionary. -/
theorem isEntry (h : Parses ts e) {size fuel : Nat} (hsize : ts.length < size)
    (hfuel : 2 * ts.length + 2 ≤ fuel) (bitOr : Parse Expr) (k : String) :
    IsItem (dictItem (expression size fuel) bitOr) noDictItem (entryChunk k (ts, e)) := by
  refine ⟨fun rest hrest => ?_, fun rest => noDictItem_literal rfl _⟩
  have hkey := key (Nat.zero_lt_of_lt hsize) (show 1 < fuel by omega) k (ts ++ rest)
  have hvalue := h.reads size fuel rest (by omega) (by omega) hrest
  have hsign : acceptSign "**" (textToken k :: .sign ":" :: (ts ++ rest)) =
      .ok (false, textToken k :: .sign ":" :: (ts ++ rest)) := rfl
  simp [entryChunk, dictItem, hsign, hkey, sign, hvalue]

end Parses

theorem length_le_listed {α : Type} {chunks : List (List Token × α)} {c : List Token × α}
    (hc : c ∈ chunks) : c.1.length ≤ (listed chunks).length := by
  cases chunks with
  | nil => exact absurd hc List.not_mem_nil
  | cons first more =>
    rw [listed, List.length_append]
    rcases List.mem_cons.mp hc with rfl | hc
    · omega
    · obtain ⟨before, after, rfl⟩ := List.append_of_mem hc
      simp
      omega

theorem length_lt_listed {α : Type} (first : List Token × α) (more : List (List Token × α))
    (h : 0 < first.1.length) : more.length < (listed (first :: more)).length := by
  have hmore : more.length ≤ (more.flatMap fun i => Token.sign "," :: i.1).length := by
    induction more with
    | nil => simp
    | cons c more ih => simp; omega
  rw [listed, List.length_append]
  omega

namespace Parses

theorem emptyList : Parses [.sign "[", .sign "]"] (.list []) where
  starts := ⟨_, _, rfl, rfl⟩
  reads size fuel rest hsize hfuel hrest := by
    obtain ⟨size, rfl⟩ : ∃ n, size = n + 1 := ⟨size - 1, by simp at hsize; omega⟩
    obtain ⟨fuel, rfl⟩ : ∃ n, fuel = n + 2 := ⟨fuel - 2, by simp at hfuel; omega⟩
    exact expression_of_atom rfl rfl hrest

theorem emptyDict : Parses [.sign "\x7b", .sign "\x7d"] (.dict []) where
  starts := ⟨_, _, rfl, rfl⟩
  reads size fuel rest hsize hfuel hrest := by
    obtain ⟨size, rfl⟩ : ∃ n, size = n + 1 := ⟨size - 1, by simp at hsize; omega⟩
    obtain ⟨fuel, rfl⟩ : ∃ n, fuel = n + 2 := ⟨fuel - 2, by simp at hfuel; omega⟩
    exact expression_of_atom rfl rfl hrest

/-- Literals with commas between them, in brackets, are a list. -/
theorem list {chunks : List (List Token × Expr)} (hne : chunks ≠ [])
    (h : ∀ c ∈ chunks, Parses c.1 c.2) :
    Parses (.sign "[" :: listed chunks ++ [.sign "]"]) (.list (chunks.map (·.2))) := by
  obtain ⟨first, more, rfl⟩ := List.exists_cons_of_ne_nil hne
  refine ⟨⟨_, _, rfl, rfl⟩, fun size fuel rest hsize hfuel hrest => ?_⟩
  simp only [List.cons_append, List.length_cons, List.length_append, List.length_nil] at hsize hfuel
  obtain ⟨size, rfl⟩ : ∃ n, size = n + 1 := ⟨size - 1, by omega⟩
  obtain ⟨fuel, rfl⟩ : ∃ n, fuel = n + 2 := ⟨fuel - 2, by omega⟩
  have hclose : Ends (.sign "]" :: rest) := ⟨_, _, rfl, rfl⟩
  have hitem : ∀ c ∈ first :: more, IsItem (starNamed (expression (size + 1) fuel)
      (bitOrExpression (size + 1) fuel)) noItem c := by
    intro c hc
    have hle := length_le_listed hc
    exact (h c hc).isItem (by omega) (by omega) _
  obtain ⟨hfirst, hmore⟩ := List.forall_mem_cons.mp hitem
  have hopen : ∀ rest, acceptSign "]" (first.1 ++ rest) = .ok (false, first.1 ++ rest) := by
    obtain ⟨t, ts, he, ht⟩ := (h first List.mem_cons_self).starts
    rw [he]
    exact fun rest => acceptSign_literal ht (by decide) _
  refine expression_of_atom rfl ?_ hrest
  have hatom : ∀ ts, Source.atom (size + 1) (expression (size + 1) fuel)
      (bitOrExpression (size + 1) fuel) (comprehensionClauses (size + 1) fuel) (.sign "[" :: ts) =
      bracketed (size + 1) (expression (size + 1) fuel) (bitOrExpression (size + 1) fuel)
        (comprehensionClauses (size + 1) fuel) ts := fun _ => rfl
  rw [hatom]
  cases more with
  | nil =>
    have hread := hfirst.reads _ hclose
    simp [bracketed, listed, hopen, hread, hclose.atClauses, sign]
  | cons second more =>
    have hlength := length_lt_listed first (second :: more)
      (h first List.mem_cons_self).length_pos
    rw [List.length_cons] at hlength
    have hlist : commaList (size + 1) _ _ _ = _ :=
      commaList_listed hmore hclose rfl (by omega)
    have hcomma : Ends (.sign "," :: (listed (second :: more) ++ .sign "]" :: rest)) :=
      ⟨_, _, rfl, rfl⟩
    have hread := hfirst.reads _ hcomma
    have hgoes := (hmore second List.mem_cons_self).goesOn
      ((more.flatMap fun i => .sign "," :: i.1) ++ .sign "]" :: rest)
    rw [← List.append_assoc, ← listed] at hgoes
    rw [listed_cons _ (by simp)]
    simp [bracketed, hopen, hread, hcomma.atClauses, hgoes, hlist, sign]

/-- Entries with commas between them, in braces, are a dictionary. -/
theorem dict {chunks : List (List Token × DictItem)} (hne : chunks ≠ [])
    (h : ∀ c ∈ chunks, ∃ k ts e, Parses ts e ∧ c = entryChunk k (ts, e)) :
    Parses (.sign "\x7b" :: listed chunks ++ [.sign "\x7d"]) (.dict (chunks.map (·.2))) := by
  obtain ⟨first, more, rfl⟩ := List.exists_cons_of_ne_nil hne
  refine ⟨⟨_, _, rfl, rfl⟩, fun size fuel rest hsize hfuel hrest => ?_⟩
  simp only [List.cons_append, List.length_cons, List.length_append, List.length_nil] at hsize hfuel
  obtain ⟨size, rfl⟩ : ∃ n, size = n + 1 := ⟨size - 1, by omega⟩
  obtain ⟨fuel, rfl⟩ : ∃ n, fuel = n + 2 := ⟨fuel - 2, by omega⟩
  have hclose : Ends (.sign "\x7d" :: rest) := ⟨_, _, rfl, rfl⟩
  have hentry : ∀ c ∈ first :: more, IsItem (dictItem (expression (size + 1) fuel)
      (bitOrExpression (size + 1) fuel)) noDictItem c := by
    intro c hc
    have hle := length_le_listed hc
    obtain ⟨k, ts, e, hts, rfl⟩ := h c hc
    simp only [entryChunk, List.length_cons] at hle
    exact hts.isEntry (by omega) (by omega) _ k
  obtain ⟨-, hmore⟩ := List.forall_mem_cons.mp hentry
  obtain ⟨k, ts, e, hts, rfl⟩ := h first List.mem_cons_self
  have hfirst := length_le_listed (List.mem_cons_self (a := entryChunk k (ts, e)) (l := more))
  have hlength := length_lt_listed (entryChunk k (ts, e)) more (Nat.succ_pos _)
  simp only [entryChunk, List.length_cons] at hfirst hlength hsize hfuel
  have hkey := key (Nat.succ_pos size) (show 1 < fuel by omega) k
  have hopen : ∀ (s : String) rest,
      acceptSign s (textToken k :: rest) = .ok (false, textToken k :: rest) := fun _ _ => rfl
  have hnamed : ∀ rest, starNamed (expression (size + 1) fuel) (bitOrExpression (size + 1) fuel)
      (textToken k :: rest) = expression (size + 1) fuel (textToken k :: rest) := fun _ => rfl
  refine expression_of_atom rfl ?_ hrest
  have hatom : ∀ ts, Source.atom (size + 1) (expression (size + 1) fuel)
      (bitOrExpression (size + 1) fuel) (comprehensionClauses (size + 1) fuel)
      (.sign "\x7b" :: ts) =
      braced (size + 1) (expression (size + 1) fuel) (bitOrExpression (size + 1) fuel)
        (comprehensionClauses (size + 1) fuel) ts := fun _ => rfl
  rw [hatom]
  cases more with
  | nil =>
    have hvalue := hts.reads (size + 1) fuel _ (by omega) (by omega) hclose
    simp [braced, listed, entryChunk, hopen, hnamed, hkey, hvalue, hclose.atClauses, dictRest, sign]
  | cons second more =>
    rw [List.length_cons] at hlength
    have hlist : commaList (size + 1) _ _ _ = _ := commaList_listed hmore hclose rfl (by omega)
    have hcomma : Ends (.sign "," :: (listed (second :: more) ++ .sign "\x7d" :: rest)) :=
      ⟨_, _, rfl, rfl⟩
    have hvalue := hts.reads (size + 1) fuel _ (by omega) (by omega) hcomma
    have hgoes := (hmore second List.mem_cons_self).goesOn
      ((more.flatMap fun i => .sign "," :: i.1) ++ .sign "\x7d" :: rest)
    rw [← List.append_assoc, ← listed] at hgoes
    rw [listed_cons _ (by simp)]
    simp [braced, entryChunk, hopen, hnamed, hkey, hvalue, hcomma.atClauses, dictRest, hgoes, hlist,
      sign]

end Parses

end Workflow.Source
