/-
What a formula can see of the names around it.

A formula reads the names that stand for values in it; of a name that it goes into by
a fixed key it reads one part only, and the name of a function is not read at all
(`reads`). Names that agree on what is read give the same value or the same fault
(`eval_agree`), whichever operands are skipped and whatever is refused on the way.
So a variable, a step or an entry named like a function has no influence on a formula
that does not mention it (`formula_sees_mentioned`).
-/
import Mathlib
import Workflow.Execution.Context
import Workflow.Source.Names

namespace Workflow

namespace Formula

open Source

/-- What a formula looks up: the value of a name, or the part of it under a key. -/
inductive Read where
  | whole (id : String)
  | part (id key : String)
  deriving DecidableEq

/-- The name that is looked up. -/
def Read.id : Read → String
  | .whole id => id
  | .part id _ => id

/-- The name that an expression is, if it is one. -/
def asName? : Expr → Option String
  | .name id => some id
  | _ => none

/-- The text that an expression is, if it is one. -/
def asText? : Expr → Option String
  | .constant (.str text _) => some text
  | _ => none

mutual

/-- What a formula may look up. -/
def reads : Expr → List Read
  | .name id => [.whole id]
  | .attr value key =>
    match asName? value with
    | some id => [.part id key]
    | none => reads value
  | .subscript value index =>
    match asName? value, asText? index with
    | some id, some key => [.part id key]
    | _, _ => reads value ++ reads index
  | .slice lower upper step => readsOption lower ++ readsOption upper ++ readsOption step
  | .binary _ left right => reads left ++ reads right
  | .unary _ operand => reads operand
  | .boolean _ values => readsAll values
  | .compare first rest => reads first ++ readsComparisons rest
  | .choice test body orElse => reads test ++ reads body ++ reads orElse
  | .list items => readsAll items
  | .tuple items => readsAll items
  | .set items => readsAll items
  | .dict items => readsEntries items
  | .call function args _ =>
    -- A function is called by its name, which stands for no value.
    readsAll args ++ match function with
      | .attr target _ => reads target
      | _ => []
  | _ => []
termination_by structural e => e

/-- What several formulas may look up. -/
def readsAll : List Expr → List Read
  | [] => []
  | e :: rest => reads e ++ readsAll rest
termination_by structural es => es

/-- What the entries of a dictionary may look up. -/
def readsEntries : List DictItem → List Read
  | [] => []
  | .entry key value :: rest => reads key ++ reads value ++ readsEntries rest
  | .spread _ :: _ => []
termination_by structural items => items

/-- What a part of a slice may look up. -/
def readsOption : Option Expr → List Read
  | none => []
  | some e => reads e
termination_by structural e => e

/-- What a chain of comparisons may look up. -/
def readsComparisons : List Comparison → List Read
  | [] => []
  | .mk _ right :: rest => reads right ++ readsComparisons rest
termination_by structural rest => rest

end

/-- Two lists of names agree on what is looked up. A part agrees also where the values differ in
other parts. -/
def Agree (m n : Names) : Read → Prop
  | .whole id => m.lookup id = n.lookup id
  | .part id key => m.lookup id = n.lookup id ∨ ∃ d e, m.lookup id = some (.dict d) ∧
      n.lookup id = some (.dict e) ∧ Value.lookup (.str key) d = Value.lookup (.str key) e

section

variable {m n : Names}

theorem nameValue_agree {id : String} (h : m.lookup id = n.lookup id) :
    nameValue m id = nameValue n id := by
  unfold nameValue
  rw [h]

theorem nameValue_some {id : String} {v : Value} (h : m.lookup id = some v) :
    nameValue m id = .ok v := by
  unfold nameValue
  rw [h]
  rfl

theorem eval_attr_agree {id key : String} (h : Agree m n (.part id key)) :
    eval m (.attr (.name id) key) = eval n (.attr (.name id) key) := by
  simp only [eval]
  rcases h with h | ⟨d, e, hm, hn, hkey⟩
  · rw [nameValue_agree h]
  · rw [nameValue_some hm, nameValue_some hn]
    simp [attributeOf, hkey, bind, Except.bind]

theorem eval_subscript_agree {id key : String} {marked : Bool} (h : Agree m n (.part id key)) :
    eval m (.subscript (.name id) (.constant (.str key marked))) =
      eval n (.subscript (.name id) (.constant (.str key marked))) := by
  simp only [eval]
  rcases h with h | ⟨d, e, hm, hn, hkey⟩
  · rw [nameValue_agree h]
  · rw [nameValue_some hm, nameValue_some hn]
    simp [subscriptOf, constantValue, hkey, bind, Except.bind, pure, Except.pure]

theorem asName?_eq {e : Expr} {id : String} (h : asName? e = some id) : e = .name id := by
  cases e <;> simp_all [asName?]

theorem asText?_eq {e : Expr} {key : String} (h : asText? e = some key) :
    ∃ marked, e = .constant (.str key marked) := by
  unfold asText? at h
  split at h
  · cases h
    exact ⟨_, rfl⟩
  · cases h

mutual

/-- Names that agree on what a formula looks up give it the same value or the same fault. -/
theorem eval_agree : ∀ e : Expr, (∀ r ∈ reads e, Agree m n r) → eval m e = eval n e
  | .constant _, _ => by rw [eval, eval]
  | .name id, h => by
    rw [eval, eval]
    exact nameValue_agree (h (.whole id) (by simp [reads]))
  | .attr value key, h => by
    rw [reads] at h
    cases hv : asName? value with
    | some id =>
      obtain rfl := asName?_eq hv
      exact eval_attr_agree (h _ (by simp [hv]))
    | none =>
      rw [eval, eval, eval_agree value (by simpa [hv] using h)]
  | .subscript value index, h => by
    rw [reads] at h
    split at h
    · next hv hi =>
      obtain rfl := asName?_eq hv
      obtain ⟨marked, rfl⟩ := asText?_eq hi
      exact eval_subscript_agree (h _ List.mem_cons_self)
    · rw [List.forall_mem_append] at h
      rw [eval, eval, eval_agree value h.1, eval_agree index h.2]
  | .slice lower upper step, h => by
    simp only [reads, List.forall_mem_append] at h
    rw [eval, eval, evalOption_agree lower h.1.1, evalOption_agree upper h.1.2,
      evalOption_agree step h.2]
  | .binary op left right, h => by
    rw [reads, List.forall_mem_append] at h
    rw [eval, eval, eval_agree left h.1, eval_agree right h.2]
  | .unary op operand, h => by
    rw [reads] at h
    rw [eval, eval, eval_agree operand h]
  | .boolean op values, h => by
    rw [reads] at h
    rw [eval, eval, evalChain_agree op .none values h]
  | .compare first rest, h => by
    rw [reads, List.forall_mem_append] at h
    have hrest : ∀ left, evalComparisons m first left rest = evalComparisons n first left rest :=
      fun left => evalComparisons_agree first left rest h.2
    rw [eval, eval, eval_agree first h.1]
    simp only [hrest]
  | .choice test body orElse, h => by
    simp only [reads, List.forall_mem_append] at h
    rw [eval, eval, eval_agree test h.1.1, eval_agree body h.1.2, eval_agree orElse h.2]
  | .list items, h => by
    rw [reads] at h
    rw [eval, eval, evalAll_agree items h]
  | .tuple items, h => by
    rw [reads] at h
    rw [eval, eval, evalAll_agree items h]
  | .set items, h => by
    rw [reads] at h
    rw [eval, eval, evalMembers_agree items h]
  | .dict items, h => by
    rw [reads] at h
    rw [eval, eval, evalEntries_agree items h]
  | .call function args keywords, h => by
    cases function with
    | attr target name =>
      rw [reads, List.forall_mem_append] at h
      simp only [eval, evalAll_agree args h.1, eval_agree target h.2]
    | _ =>
      simp only [reads, List.append_nil] at h
      simp only [eval, evalAll_agree args h]
  | .named .., _ | .lambda .., _ | .comprehension .., _ | .dictComprehension .., _ | .await _, _
  | .yield _, _ | .yieldFrom _, _ | .format _, _ | .starred _, _ => by simp only [eval]

theorem evalAll_agree : ∀ es : List Expr, (∀ r ∈ readsAll es, Agree m n r) →
    evalAll m es = evalAll n es
  | [], _ => by rw [evalAll, evalAll]
  | e :: rest, h => by
    rw [readsAll, List.forall_mem_append] at h
    rw [evalAll, evalAll, eval_agree e h.1, evalAll_agree rest h.2]

theorem evalMembers_agree : ∀ es : List Expr, (∀ r ∈ readsAll es, Agree m n r) →
    evalMembers m es = evalMembers n es
  | [], _ => by rw [evalMembers, evalMembers]
  | e :: rest, h => by
    rw [readsAll, List.forall_mem_append] at h
    rw [evalMembers, evalMembers, eval_agree e h.1, evalMembers_agree rest h.2]

theorem evalEntries_agree : ∀ items : List DictItem, (∀ r ∈ readsEntries items, Agree m n r) →
    evalEntries m items = evalEntries n items
  | [], _ => by rw [evalEntries, evalEntries]
  | .entry key value :: rest, h => by
    simp only [readsEntries, List.forall_mem_append] at h
    rw [evalEntries, evalEntries, eval_agree key h.1.1, eval_agree value h.1.2,
      evalEntries_agree rest h.2]
  | .spread _ :: _, _ => by rw [evalEntries, evalEntries]

theorem evalOption_agree : ∀ e : Option Expr, (∀ r ∈ readsOption e, Agree m n r) →
    evalOption m e = evalOption n e
  | none, _ => by rw [evalOption, evalOption]
  | some e, h => by
    rw [readsOption] at h
    rw [evalOption, evalOption, eval_agree e h]

theorem evalChain_agree (op : BoolOp) : ∀ (last : Value) (es : List Expr),
    (∀ r ∈ readsAll es, Agree m n r) → evalChain m op last es = evalChain n op last es
  | _, [], _ => by rw [evalChain, evalChain]
  | last, e :: rest, h => by
    rw [readsAll, List.forall_mem_append] at h
    have hrest : ∀ v, evalChain m op v rest = evalChain n op v rest :=
      fun v => evalChain_agree op v rest h.2
    rw [evalChain, evalChain, eval_agree e h.1]
    simp only [hrest]

theorem evalComparisons_agree : ∀ (leftExpr : Expr) (left : Value) (rest : List Comparison),
    (∀ r ∈ readsComparisons rest, Agree m n r) →
    evalComparisons m leftExpr left rest = evalComparisons n leftExpr left rest
  | _, _, [], _ => by rw [evalComparisons, evalComparisons]
  | leftExpr, left, .mk op right :: rest, h => by
    rw [readsComparisons, List.forall_mem_append] at h
    have hrest : ∀ v, evalComparisons m right v rest = evalComparisons n right v rest :=
      fun v => evalComparisons_agree right v rest h.2
    rw [evalComparisons, evalComparisons, eval_agree right h.1]
    simp only [hrest]

end

end

/-! ## What is mentioned -/

mutual

theorem id_mem_names {r : Read} : ∀ e : Expr, r ∈ reads e → r.id ∈ e.names
  | .name id, h => by
    obtain rfl := List.mem_singleton.mp h
    simp [Expr.names, Read.id]
  | .attr value key, h => by
    rw [reads] at h
    rw [Expr.names]
    cases hv : asName? value with
    | some id =>
      obtain rfl : r = .part id key := by simpa [hv] using h
      simp [asName?_eq hv, Expr.names, Read.id]
    | none => exact id_mem_names value (by simpa [hv] using h)
  | .subscript value index, h => by
    rw [reads] at h
    rw [Expr.names, List.mem_append]
    split at h
    · next id key hv _ =>
      obtain rfl := List.mem_singleton.mp h
      simp [asName?_eq hv, Expr.names, Read.id]
    · exact (List.mem_append.mp h).imp (id_mem_names value) (id_mem_names index)
  | .slice lower upper step, h => by
    simp only [reads, Expr.names, List.mem_append] at h ⊢
    exact h.imp (.imp (id_mem_optionNames lower) (id_mem_optionNames upper))
      (id_mem_optionNames step)
  | .binary _ left right, h => by
    simp only [reads, Expr.names, List.mem_append] at h ⊢
    exact h.imp (id_mem_names left) (id_mem_names right)
  | .unary _ operand, h => by
    rw [reads] at h
    rw [Expr.names]
    exact id_mem_names operand h
  | .boolean _ items, h | .list items, h | .tuple items, h | .set items, h => by
    rw [reads] at h
    rw [Expr.names]
    exact id_mem_exprNames items h
  | .compare first rest, h => by
    simp only [reads, Expr.names, List.mem_append] at h ⊢
    exact h.imp (id_mem_names first) (id_mem_comparisonNames rest)
  | .choice test body orElse, h => by
    simp only [reads, Expr.names, List.mem_append] at h ⊢
    exact h.imp (.imp (id_mem_names test) (id_mem_names body)) (id_mem_names orElse)
  | .dict items, h => by
    rw [reads] at h
    rw [Expr.names]
    exact id_mem_dictItemNames items h
  | .call function args _, h => by
    cases function with
    | attr target name =>
      simp only [reads, Expr.names, List.mem_append] at h ⊢
      exact .inl (h.symm.imp (id_mem_names target) (id_mem_exprNames args))
    | _ =>
      simp only [reads, List.append_nil] at h
      simp only [Expr.names, List.mem_append, id_mem_exprNames args h, or_true, true_or]
  | .constant _, h | .named .., h | .lambda .., h | .comprehension .., h | .dictComprehension .., h
  | .await _, h | .yield _, h | .yieldFrom _, h | .format _, h | .starred _, h => by
    simp [reads] at h

theorem id_mem_exprNames {r : Read} : ∀ es : List Expr, r ∈ readsAll es → r.id ∈ exprNames es
  | [], h => by simp [readsAll] at h
  | e :: rest, h => by
    simp only [readsAll, exprNames, List.mem_append] at h ⊢
    exact h.imp (id_mem_names e) (id_mem_exprNames rest)

theorem id_mem_dictItemNames {r : Read} : ∀ items : List DictItem, r ∈ readsEntries items →
    r.id ∈ dictItemNames items
  | [], h => by simp [readsEntries] at h
  | .entry key value :: rest, h => by
    simp only [readsEntries, dictItemNames, List.mem_append] at h ⊢
    exact h.imp (.imp (id_mem_names key) (id_mem_names value)) (id_mem_dictItemNames rest)
  | .spread _ :: _, h => by simp [readsEntries] at h

theorem id_mem_optionNames {r : Read} : ∀ e : Option Expr, r ∈ readsOption e →
    r.id ∈ optionNames e
  | none, h => by simp [readsOption] at h
  | some e, h => by
    rw [readsOption] at h
    rw [optionNames]
    exact id_mem_names e h

theorem id_mem_comparisonNames {r : Read} : ∀ rest : List Comparison, r ∈ readsComparisons rest →
    r.id ∈ comparisonNames rest
  | [], h => by simp [readsComparisons] at h
  | .mk _ right :: rest, h => by
    simp only [readsComparisons, comparisonNames, List.mem_append] at h ⊢
    exact h.imp (id_mem_names right) (id_mem_comparisonNames rest)

end

/-- The names that the text of a formula mentions; none where it cannot be read. -/
def namesIn (text : String) : List String :=
  match read text with
  | .ok e => e.names
  | .error _ => []

/-- What the text of a formula may look up. -/
def readsIn (text : String) : List Read :=
  match read text with
  | .ok e => reads e
  | .error _ => []

theorem id_mem_namesIn {text : String} {r : Read} (h : r ∈ readsIn text) : r.id ∈ namesIn text := by
  unfold readsIn at h
  unfold namesIn
  split at h
  · exact id_mem_names _ h
  · simp at h

theorem evaluateText_agree {m n : Names} {text : String} (h : ∀ r ∈ readsIn text, Agree m n r) :
    evaluateText m text = evaluateText n text := by
  unfold readsIn at h
  unfold evaluateText
  cases hr : read text with
  | error e => rfl
  | ok e =>
    rw [hr] at h
    exact eval_agree e h

theorem agree_of_lookup {m n : Names} {r : Read} (h : m.lookup r.id = n.lookup r.id) :
    Agree m n r := by
  cases r with
  | whole id => exact h
  | part id key => exact .inl h

theorem agree_putEntry {names : Names} {id : String} {v : Value} {r : Read} (h : r.id ≠ id) :
    Agree (putEntry id v names) names r :=
  agree_of_lookup (by rw [lookup_putEntry, if_neg h])

end Formula

open Formula

theorem Value.lookup_str_fields (key : String) (fields : Names) :
    Value.lookup (.str key) (fields.map fun (k, v) => (.str k, v)) = fields.lookup key := by
  induction fields with
  | nil => rfl
  | cons e rest ih =>
    obtain ⟨k, v⟩ := e
    have hsame : Value.same (.str key) (.str k) = (key == k) := by
      simp [Value.same, Value.equal, Value.atomEqual, Value.numeric?, Value.bothNan]
    rw [Value.lookup] at ih ⊢
    rw [List.map_cons, List.find?_cons, hsame, List.lookup_cons]
    by_cases hk : key = k
    · simp [hk]
    · simpa [beq_false_of_ne hk] using ih

namespace Context

theorem lookup_results (c : Context) :
    c.names.lookup "results" = some (.dict (c.results.map fun (k, v) => (.str k, v))) := by
  rw [names, lookup_putEntry, if_pos rfl]
  rfl

/-- Formulas see no other variable than before, the results of steps apart. -/
theorem agree_bind (c : Context) {id : String} {v : Value} {r : Read} (h : r.id ≠ id) :
    Agree (c.bind id v).names c.names r := by
  refine agree_of_lookup ?_
  simp only [names, bind, lookup_putEntry, if_neg h]

/-- To record a result changes what is under its own node, and nothing else. -/
theorem agree_setResult (c : Context) {node : String} {v : Value} {r : Read}
    (hwhole : r ≠ .whole "results") (hpart : r ≠ .part "results" node) :
    Agree (c.setResult node v).names c.names r := by
  cases r with
  | whole id =>
    have hid : id ≠ "results" := fun h => hwhole (by rw [h])
    refine agree_of_lookup ?_
    simp [names, setResult, lookup_putEntry, Read.id, hid]
  | part id key =>
    by_cases hid : id = "results"
    · subst hid
      have hkey : key ≠ node := fun h => hpart (by rw [h])
      refine .inr ⟨_, _, lookup_results _, lookup_results _, ?_⟩
      rw [Value.lookup_str_fields, Value.lookup_str_fields, setResult, lookup_putEntry, if_neg hkey]
    · refine agree_of_lookup ?_
      simp [names, setResult, lookup_putEntry, Read.id, hid]

theorem evaluate_agree {c d : Context} {text : String}
    (h : ∀ r ∈ readsIn text, Agree c.names d.names r) :
    c.evaluate (.str text) = d.evaluate (.str text) := by
  rw [evaluate, evaluate, Formula.evaluate, Formula.evaluate, evaluateText_agree h]

end Context

/-- **A formula sees only what it mentions.** Two lists of names that agree on every name in the
text of a formula, on whether it is there and on its value, give the formula the same value or the
same fault. What a call of a function does depends on the values of its arguments alone: an entry
under the function's own name changes nothing, unless the name also stands for a value in the
formula. Neither does a variable that is not read, nor the result of a step, unless the results are
read as a whole or under the step's own id. -/
theorem formula_sees_mentioned :
    (∀ (text : String) (m n : Names), (∀ id ∈ namesIn text, m.lookup id = n.lookup id) →
      evaluateText m text = evaluateText n text) ∧
    (∀ (m n : Names) (function : String) (args : List Source.Expr) (keywords : List Source.Keyword),
      evalAll m args = evalAll n args →
      eval m (.call (.name function) args keywords) = eval n (.call (.name function) args keywords)) ∧
    (∀ (text : String) (names : Names) (id : String) (v : Value), (∀ r ∈ readsIn text, r.id ≠ id) →
      evaluateText (putEntry id v names) text = evaluateText names text) ∧
    (∀ (text : String) (c : Context) (id : String) (v : Value), (∀ r ∈ readsIn text, r.id ≠ id) →
      (c.bind id v).evaluate (.str text) = c.evaluate (.str text)) ∧
    ∀ (text : String) (c : Context) (node : String) (v : Value),
      .whole "results" ∉ readsIn text → .part "results" node ∉ readsIn text →
      (c.setResult node v).evaluate (.str text) = c.evaluate (.str text) := by
  refine ⟨?_, ?_, ?_, ?_, ?_⟩
  · intro text m n h
    exact evaluateText_agree fun r hr => agree_of_lookup (h r.id (id_mem_namesIn hr))
  · intro m n function args keywords h
    simp only [eval, h]
  · intro text names id v h
    exact evaluateText_agree fun r hr => agree_putEntry (h r hr)
  · intro text c id v h
    exact Context.evaluate_agree fun r hr => c.agree_bind (h r hr)
  · intro text c node v hwhole hpart
    refine Context.evaluate_agree fun r hr => c.agree_setResult ?_ ?_
    · intro he
      exact hwhole (he ▸ hr)
    · intro he
      exact hpart (he ▸ hr)

/-- A call of a function on a variable. -/
def called : String := "f(x)"

theorem read_called : read called = .ok (.call (.name "f") [.name "x"] []) := by rfl

theorem called_sees :
    evaluateText [("x", .list []), ("y", .none)] called = evaluateText [("x", .list [])] called ∧
    eval [("x", .list []), ("len", .none)] (.call (.name "len") [.name "x"] []) =
      eval [("x", .list [])] (.call (.name "len") [.name "x"] []) ∧
    evaluateText (putEntry "f" .none [("x", .list [])]) called =
      evaluateText [("x", .list [])] called ∧
    (({ workflowId := "w", executionId := "e" } : Context).bind "f" .none).evaluate (.str called) =
      ({ workflowId := "w", executionId := "e" } : Context).evaluate (.str called) ∧
    (({ workflowId := "w", executionId := "e" } : Context).setResult "x" .none).evaluate
        (.str called) =
      ({ workflowId := "w", executionId := "e" } : Context).evaluate (.str called) := by
  have hnames : namesIn called = ["f", "x"] := by
    rw [namesIn, read_called]
    rfl
  have hreads : readsIn called = [.whole "x"] := by
    rw [readsIn, read_called]
    rfl
  obtain ⟨hsame, hcall, hput, hbind, hset⟩ := formula_sees_mentioned
  refine ⟨hsame _ _ _ ?_, hcall _ _ _ _ _ rfl, hput _ _ _ _ ?_, hbind _ _ _ _ ?_, hset _ _ _ _ ?_ ?_⟩
  · simp [hnames, List.lookup_cons]
  · simp [hreads, Read.id]
  · simp [hreads, Read.id]
  · simp [hreads]
  · simp [hreads]

end Workflow
