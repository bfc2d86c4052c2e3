/-
Readings that go side by side.

Two readings of the same grammar with different bounds, started on tokens that
belong together, take the same tokens and give the same result, or both fail
(`Tracks`); only where the first gives up for good nothing is said of the second.
Tokens belong together (`Beside`) when they are the same, or when the second list is
the first as the inside of a block. Every reading of the grammar tracks itself
with larger bounds, down to `statementRun` and `block`.

The facts are instances, so that one for a reading is put together from those for its
parts.
-/
import Mathlib
import Workflow.Proofs.Parsing
import Workflow.Source.Statement

namespace Workflow.Source

open Parse

set_option synthInstance.maxSize 1000

/-! ## Tokens that belong together -/

/-- A token that stands inside a line, or ends one. -/
class Token.Plain (t : Token) : Prop where
  noEnd : t ≠ .finish
  noChange : t ≠ .indent ∧ t ≠ .dedent
  noFault : ∀ c, t ≠ .bad c

instance (id : String) : Token.Plain (.name id) := by constructor <;> simp
instance (w : String) : Token.Plain (.keyword w) := by constructor <;> simp
instance (v : Constant) : Token.Plain (.number v) := by constructor <;> simp
instance (q : Quotation) : Token.Plain (.text q) := by constructor <;> simp
instance (s : String) : Token.Plain (.sign s) := by constructor <;> simp
instance : Token.Plain .newline := by constructor <;> simp

/-- How two lists of tokens belong together. -/
inductive Tie where
  | same
  /-- They are the same, and end where the text could not be cut into tokens. -/
  | broken
  /-- The first, at so many open blocks, ends a script, and the second ends a block there. -/
  | moved (level : Nat)

/-- A block more is open. -/
def Tie.up : Tie → Tie
  | .moved n => .moved (n + 1)
  | tie => tie

/-- Two lists of tokens belong together. -/
inductive Beside : Tie → List Token → List Token → Prop
  | same {ts : List Token} : Beside .same ts ts
  | bad {c : SourceError} : Beside .broken [.bad c] [.bad c]
  | other {t : Token} {ts : List Token} :
      t ≠ .finish → Beside .broken ts ts → Beside .broken (t :: ts) (t :: ts)
  | last : Beside (.moved 0) [.finish] [.dedent, .finish]
  | plain {t : Token} [t.Plain] {n : Nat} {ts ts' : List Token} :
      Beside (.moved n) ts ts' → Beside (.moved n) (t :: ts) (t :: ts')
  | indent {n : Nat} {ts ts' : List Token} :
      Beside (.moved (n + 1)) ts ts' → Beside (.moved n) (.indent :: ts) (.indent :: ts')
  | dedent {n : Nat} {ts ts' : List Token} :
      Beside (.moved n) ts ts' → Beside (.moved (n + 1)) (.dedent :: ts) (.dedent :: ts')

namespace Beside

variable {tie : Tie} {t u : Token} {ts ts' : List Token}

@[grind →] theorem of_cons (h : Beside tie (t :: ts) ts') [ht : t.Plain] :
    ∃ us', ts' = t :: us' ∧ Beside tie ts us' := by
  cases h with
  | same => exact ⟨_, rfl, .same⟩
  | other _ h => exact ⟨_, rfl, h⟩
  | plain h => exact ⟨_, rfl, h⟩
  | bad => exact absurd rfl (ht.noFault _)
  | last => exact absurd rfl ht.noEnd
  | indent => exact absurd rfl ht.noChange.1
  | dedent => exact absurd rfl ht.noChange.2

@[grind →] theorem to_cons (h : Beside tie ts (t :: ts')) [ht : t.Plain] :
    ∃ us, ts = t :: us ∧ Beside tie us ts' := by
  cases h with
  | same => exact ⟨_, rfl, .same⟩
  | other _ h => exact ⟨_, rfl, h⟩
  | plain h => exact ⟨_, rfl, h⟩
  | bad => exact absurd rfl (ht.noFault _)
  | last => exact absurd rfl ht.noChange.2
  | indent => exact absurd rfl ht.noChange.1
  | dedent => exact absurd rfl ht.noChange.2

@[grind →] theorem of_cons_cons (h : Beside tie (t :: u :: ts) ts') [t.Plain] [u.Plain] :
    ∃ us', ts' = t :: u :: us' ∧ Beside tie ts us' := by
  obtain ⟨_, rfl, hu⟩ := h.of_cons
  obtain ⟨us', rfl, hus⟩ := hu.of_cons
  exact ⟨us', rfl, hus⟩

@[grind →] theorem to_cons_cons (h : Beside tie ts (t :: u :: ts')) [t.Plain] [u.Plain] :
    ∃ us, ts = t :: u :: us ∧ Beside tie us ts' := by
  obtain ⟨_, rfl, hu⟩ := h.to_cons
  obtain ⟨us, rfl, hus⟩ := hu.to_cons
  exact ⟨us, rfl, hus⟩

/-- Lists that belong together start with the same token, but for their ends. -/
theorem head (h : Beside tie ts ts') : ts.headD .finish = ts'.headD .finish ∨
    ts = [.finish] ∧ ts' = [.dedent, .finish] := by
  cases h with
  | last => exact .inr ⟨rfl, rfl⟩
  | _ => exact .inl rfl

theorem of_indent (h : Beside tie (.indent :: ts) ts') :
    ∃ us', ts' = .indent :: us' ∧ Beside tie.up ts us' := by
  cases h with
  | same => exact ⟨_, rfl, .same⟩
  | other _ h => exact ⟨_, rfl, h⟩
  | plain => exact absurd rfl (Token.Plain.noChange (t := .indent)).1
  | indent h => exact ⟨_, rfl, h⟩

/-- Inside a block its end comes on both sides, or on none. -/
theorem of_dedent (h : Beside tie.up ts ts') :
    (∃ us us', ts = .dedent :: us ∧ ts' = .dedent :: us' ∧ Beside tie us us') ∨
      ts.head? ≠ some .dedent ∧ ts'.head? ≠ some .dedent := by
  cases tie with
  | same =>
    cases h
    by_cases hd : ts.head? = some .dedent
    · obtain ⟨us, rfl⟩ := List.head?_eq_some_iff.mp hd
      exact .inl ⟨us, us, rfl, rfl, .same⟩
    · exact .inr ⟨hd, hd⟩
  | broken =>
    cases h with
    | bad => exact .inr (by simp)
    | @other t us _ h =>
      by_cases hd : t = .dedent
      · exact .inl ⟨us, us, by rw [hd], by rw [hd], h⟩
      · exact .inr (by simpa using hd)
  | moved n =>
    cases h with
    | dedent h => exact .inl ⟨_, _, rfl, rfl, h⟩
    | @plain t ht => exact .inr (by simpa using ht.noChange.2)
    | indent => exact .inr (by simp)

end Beside

/-! ## Readings that belong together -/

/-- Two outcomes of readings belong together: the first is a failure for good, or both are failures
that leave room for another reading, or both give the same. -/
inductive Agrees {α : Type} (tie : Tie) :
    Except Failure (α × List Token) → Except Failure (α × List Token) → Prop
  | given {e : Failure} {o : Except Failure (α × List Token)} :
      e.final = true → Agrees tie (.error e) o
  | failed {e e' : Failure} : e.final = false → e'.final = false → Agrees tie (.error e) (.error e')
  | read {a : α} {ts ts' : List Token} : Beside tie ts ts' → Agrees tie (.ok (a, ts)) (.ok (a, ts'))

attribute [grind ←] Agrees.given Agrees.failed Agrees.read

section

variable {α β : Type} {tie tie' : Tie} {ts ts' : List Token} {x x' y y' : Parse α}

theorem Agrees.bind {k k' : α → Parse β} (h : Agrees tie (x ts) (x' ts'))
    (hk : ∀ a us us', Beside tie us us' → Agrees tie' (k a us) (k' a us')) :
    Agrees tie' ((x >>= k) ts) ((x' >>= k') ts') := by
  rw [bind_apply, bind_apply]
  generalize x ts = o, x' ts' = o' at h
  cases h with
  | given he => exact .given he
  | failed he he' => exact .failed he he'
  | read hr => exact hk _ _ _ hr

theorem Agrees.orElse (h : Agrees tie (x ts) (x' ts')) (h' : Agrees tie (y ts) (y' ts')) :
    Agrees tie (Parse.orElse x y ts) (Parse.orElse x' y' ts') := by
  unfold Parse.orElse
  generalize x ts = o, x' ts' = o', y ts = p, y' ts' = p' at h h'
  cases h with
  | given he => simpa [he] using .given he
  | read hr => exact .read hr
  | failed he he' =>
    cases h' with
    | given hp => simpa [he, hp] using .given hp
    | read hr => simpa [he, he'] using .read hr
    | failed hp hp' =>
      simp only [he, he', hp, hp', Bool.false_eq_true, if_false, false_or]
      split <;> split <;> exact .failed (by assumption) (by assumption)

end

/-- The second reading does what the first does. -/
class Tracks {α : Type} (x x' : Parse α) : Prop where
  out : ∀ tie ts ts', Beside tie ts ts' → Agrees tie (x ts) (x' ts')

/-- The second reading does what the first does where a token comes next. -/
class TracksAt {α : Type} (t : Token) (x x' : Parse α) : Prop where
  out : ∀ tie ts ts', Beside tie ts ts' → ts.headD .finish = t → ts'.headD .finish = t →
    Agrees tie (x ts) (x' ts')

variable {α β : Type}

instance TracksAt.of {t : Token} {x x' : Parse α} [h : Tracks x x'] : TracksAt t x x' :=
  ⟨fun tie ts ts' hts _ _ => h.out tie ts ts' hts⟩

instance TracksAt.skip {t : Token} [ht : t.Plain] {x x' : Parse α} [h : Tracks x x'] :
    TracksAt t (do skip; x) (do skip; x') := by
  refine ⟨fun tie ts ts' hts hhead _ => ?_⟩
  cases ts with
  | nil => exact absurd hhead.symm ht.noEnd
  | cons u us =>
    cases (show u = t from hhead)
    obtain ⟨us', rfl, hus⟩ := hts.of_cons
    exact h.out tie us us' hus

instance TracksAt.ite {t : Token} {c : Prop} [Decidable c] {x x' y y' : Parse α}
    [h : TracksAt t x x'] [h' : TracksAt t y y'] :
    TracksAt t (if c then x else y) (if c then x' else y') := by
  split <;> assumption

instance TracksAt.bind {t : Token} {x x' : Parse α} {k k' : α → Parse β} [h : TracksAt t x x']
    [hk : ∀ a, Tracks (k a) (k' a)] : TracksAt t (x >>= k) (x' >>= k') :=
  ⟨fun tie ts ts' hts ht ht' => (h.out tie ts ts' hts ht ht').bind fun a => (hk a).out tie⟩

instance TracksAt.orElse {t : Token} {x x' y y' : Parse α} [h : TracksAt t x x']
    [h' : TracksAt t y y'] : TracksAt t (Parse.orElse x y) (Parse.orElse x' y') :=
  ⟨fun tie ts ts' hts ht ht' => (h.out tie ts ts' hts ht ht').orElse (h'.out tie ts ts' hts ht ht')⟩

namespace Tracks

instance pure (a : α) : Tracks (Pure.pure a) (Pure.pure a) := ⟨fun _ _ _ h => .read h⟩

instance fail : Tracks (Parse.fail : Parse α) Parse.fail := ⟨fun _ _ _ _ => .failed rfl rfl⟩

instance refuse (c : SourceError) {x : Parse α} : Tracks (Parse.refuse c) x :=
  ⟨fun _ _ _ _ => .given rfl⟩

instance bind {x x' : Parse α} {k k' : α → Parse β} [h : Tracks x x']
    [hk : ∀ a, Tracks (k a) (k' a)] : Tracks (x >>= k) (x' >>= k') :=
  ⟨fun tie ts ts' hts => (h.out tie ts ts' hts).bind fun a => (hk a).out tie⟩

instance map {x x' : Parse α} (f : α → β) [Tracks x x'] : Tracks (f <$> x) (f <$> x') :=
  inferInstanceAs (Tracks (x >>= fun a => Pure.pure (f a)) (x' >>= fun a => Pure.pure (f a)))

instance ite {c : Prop} [Decidable c] {x x' y y' : Parse α} [h : Tracks x x'] [h' : Tracks y y'] :
    Tracks (if c then x else y) (if c then x' else y') := by
  split <;> assumption

instance fail_bind {k k' : α → Parse β} : Tracks (Parse.fail >>= k) (Parse.fail >>= k') :=
  ⟨fun _ _ _ _ => .failed rfl rfl⟩

instance orElse {x x' y y' : Parse α} [h : Tracks x x'] [h' : Tracks y y'] :
    Tracks (Parse.orElse x y) (Parse.orElse x' y') :=
  ⟨fun tie ts ts' hts => (h.out tie ts ts' hts).orElse (h'.out tie ts ts' hts)⟩

instance loop {n n' : Nat} [hn : Fact (n ≤ n')] {step step' : α → Parse (α × Bool)}
    [hs : ∀ a, Tracks (step a) (step' a)] (a : α) :
    Tracks (Parse.loop n step a) (Parse.loop n' step' a) := by
  obtain ⟨hn⟩ := hn
  induction n generalizing n' a with
  | zero => exact refuse _
  | succ n ih =>
    obtain ⟨n', rfl⟩ : ∃ k, n' = k + 1 := ⟨n' - 1, by omega⟩
    have hnext := fun a => @ih n' a (by omega)
    refine @Tracks.bind _ _ _ _ _ _ (hs a) fun r => ?_
    obtain ⟨next, more⟩ := r
    exact ite

theorem next {x x' : Parse α} {k k' : α → Parse β} [Tracks x x'] (hk : ∀ a, Tracks (k a) (k' a)) :
    Tracks (x >>= k) (x' >>= k') := bind

theorem again {n n' : Nat} [Fact (n ≤ n')] {step step' : α → Parse (α × Bool)}
    (hs : ∀ a, Tracks (step a) (step' a)) (a : α) :
    Tracks (Parse.loop n step a) (Parse.loop n' step' a) := loop a

/-- A reading that looks at the next token. -/
theorem peek {k k' : Token → Parse α} (h : ∀ t, TracksAt t (k t) (k' t))
    [hlast : Tracks (k .finish) (k' .dedent)] : Tracks (Parse.peek >>= k) (Parse.peek >>= k') := by
  refine ⟨fun tie ts ts' hts => ?_⟩
  show Agrees tie (k (ts.headD .finish) ts) (k' (ts'.headD .finish) ts')
  rcases hts.head with hhead | ⟨rfl, rfl⟩
  · rw [← hhead]
    exact (h _).out tie ts ts' hts rfl hhead.symm
  · exact hlast.out _ _ _ hts

/-- A reading that looks at the tokens. -/
theorem look {k k' : List Token → Parse α}
    (h : ∀ tie ts ts', Beside tie ts ts' → Agrees tie (k ts ts) (k' ts' ts')) :
    Tracks (get >>= k) (get >>= k') := ⟨h⟩

theorem set {tie : Tie} {us us' : List Token} {x x' : Parse α} [h : Tracks x x']
    (hus : Beside tie us us') (ts ts' : List Token) :
    Agrees tie ((do set us; x) ts) ((do set us'; x') ts') := h.out tie us us' hus

/-! ### Blocks -/

end Tracks

/-- The second reading, started inside a block, does what the first does, and ends behind the
block. -/
class TracksInside {α : Type} (x x' : Parse α) : Prop where
  out : ∀ tie ts ts', Beside (Tie.up tie) ts ts' → Agrees tie (x ts) (x' ts')

namespace TracksInside

instance bind {x x' : Parse α} {k k' : α → Parse β} [h : Tracks x x']
    [hk : ∀ a, TracksInside (k a) (k' a)] : TracksInside (x >>= k) (x' >>= k') :=
  ⟨fun tie ts ts' hts => (h.out tie.up ts ts' hts).bind fun a => (hk a).out tie⟩

instance fail_bind {k k' : α → Parse β} : TracksInside (fail >>= k) (fail >>= k') :=
  ⟨fun _ _ _ _ => .failed rfl rfl⟩

instance ite {c : Prop} [Decidable c] {x x' y y' : Parse α} [h : TracksInside x x']
    [h' : TracksInside y y'] : TracksInside (if c then x else y) (if c then x' else y') := by
  split <;> assumption

/-- The end of the block is taken. -/
theorem dedent {x x' : Parse α} [h : Tracks x x'] {k k' : Token → Parse α}
    (hd : k .dedent = do skip; x) (hd' : k' .dedent = do skip; x')
    (hk : ∀ t ≠ .dedent, k t = fail ∧ k' t = fail) : TracksInside (peek >>= k) (peek >>= k') := by
  refine ⟨fun tie ts ts' hts => ?_⟩
  show Agrees tie (k (ts.headD .finish) ts) (k' (ts'.headD .finish) ts')
  rcases hts.of_dedent with ⟨us, us', rfl, rfl, hus⟩ | ⟨hts, hts'⟩
  · rw [List.headD_cons, List.headD_cons, hd, hd']
    exact h.out tie us us' hus
  · have hhead : ∀ us : List Token, us.head? ≠ some .dedent → us.headD .finish ≠ .dedent := by
      intro us hus
      cases us with
      | nil => simp
      | cons t us => simpa using hus
    rw [(hk _ (hhead ts hts)).1, (hk _ (hhead ts' hts')).2]
    exact .failed rfl rfl

end TracksInside

namespace Tracks

/-- The start of a block is taken, or its lack is an error for good. -/
theorem indent {x x' : Parse α} (h : TracksInside x x') {k k' : Token → Parse α}
    (hi : k .indent = do skip; x) (hi' : k' .indent = do skip; x')
    (hk : ∀ t ts, t ≠ .indent → ∃ e, k t ts = .error e ∧ e.final = true) :
    Tracks (Parse.peek >>= k) (Parse.peek >>= k') := by
  refine ⟨fun tie ts ts' hts => ?_⟩
  show Agrees tie (k (ts.headD .finish) ts) (k' (ts'.headD .finish) ts')
  by_cases hhead : ts.headD .finish = .indent
  · cases ts with
    | nil => cases hhead
    | cons t us =>
      cases (show t = .indent from hhead)
      obtain ⟨us', rfl, hus⟩ := hts.of_indent
      rw [List.headD_cons, List.headD_cons, hi, hi']
      exact h.out tie us us' hus
  · obtain ⟨e, he, hfinal⟩ := hk _ ts hhead
    rw [he]
    exact .given hfinal

end Tracks

/-! ### Tokens -/

instance (s : String) : Tracks (acceptSign s) (acceptSign s) := by
  refine ⟨fun tie ts ts' h => ?_⟩
  unfold acceptSign
  grind

instance (w : String) : Tracks (acceptKeyword w) (acceptKeyword w) := by
  refine ⟨fun tie ts ts' h => ?_⟩
  unfold acceptKeyword
  grind

instance (s : String) : Tracks (atSign s) (atSign s) := by
  refine ⟨fun tie ts ts' h => ?_⟩
  unfold atSign
  grind

/-- A sign that has been seen may be taken. -/
instance (s : String) {x x' y y' : Parse α} [h : TracksAt (.sign s) x x'] [h' : Tracks y y'] :
    Tracks (do if ← atSign s then x else y) (do if ← atSign s then x' else y') := by
  refine ⟨fun tie ts ts' hts => ?_⟩
  have hx := h.out tie ts ts' hts
  have hy := h'.out tie ts ts' hts
  rw [bind_apply, bind_apply]
  unfold atSign
  grind [ok_bind]

instance (w : String) : Tracks (atKeyword w) (atKeyword w) := by
  refine ⟨fun tie ts ts' h => ?_⟩
  unfold atKeyword
  grind

instance (signs : List String) : Tracks (atSigns signs) (atSigns signs) := by
  refine ⟨fun tie ts ts' h => ?_⟩
  unfold atSigns
  grind

instance : Tracks name name := by
  refine ⟨fun tie ts ts' h => ?_⟩
  unfold name
  grind [fail]

instance : Tracks newline newline := by
  refine ⟨fun tie ts ts' h => ?_⟩
  unfold newline
  grind [fail]

instance (s : String) : Tracks (sign s) (sign s) := .bind

instance (w : String) : Tracks (keyword w) (keyword w) := .bind

instance {n n' : Nat} [Fact (n ≤ n')] {x x' : Parse α} {stops stops' : Parse Bool}
    [Tracks x x'] [Tracks stops stops'] :
    Tracks (commaList n x stops) (commaList n' x' stops') := .bind

/-! ### Expressions -/

instance : Tracks startsExpression startsExpression := by
  dsimp only [startsExpression]
  exact .peek fun t => by split <;> infer_instance

instance : Tracks noItem noItem := .bind

instance : Tracks noDictItem noDictItem := .bind

instance : Tracks noSlice noSlice := .bind

instance : Tracks atClauses atClauses := .bind

instance : Tracks acceptUnary acceptUnary := by
  dsimp only [acceptUnary]
  exact .peek fun t => by split <;> infer_instance

instance : Tracks acceptComparison acceptComparison := by
  refine .look fun tie ts ts' h => ?_
  split <;> split <;> simp only [bind_apply, set_apply, pure_apply, ok_bind] <;> grind

section

variable {n n' : Nat} [Fact (n ≤ n')] {inner inner' bitOr bitOr' operand operand' : Parse Expr}
  [Tracks inner inner'] [Tracks bitOr bitOr'] [Tracks operand operand']
  {comprehension comprehension' : Parse (List Clause)} [Tracks comprehension comprehension']

instance : Tracks (namedExpression inner) (namedExpression inner') := by
  refine .look fun tie ts ts' h => ?_
  split
  · obtain ⟨_, rfl, hus⟩ := h.of_cons_cons
    exact Tracks.set hus _ _
  · split
    · grind
    · exact Tracks.out _ _ _ h

/-- The formatted value is cut out of the text, so that both readings start on the same tokens. -/
instance (text : List Char) : Tracks (formattedValue inner text) (formattedValue inner' text) := by
  refine ⟨fun tie ts ts' h => ?_⟩
  have hi : ∀ us, Agrees .same (inner us) (inner' us) := fun us => Tracks.out _ us us .same
  dsimp only [formattedValue]
  have hi := hi (tokens ('(' :: text ++ [')']))
  generalize inner _ = o, inner' _ = o' at hi
  cases hi with
  | given | failed => exact .given rfl
  | read hr =>
    cases hr
    split
    · exact .read h
    · exact .given rfl

instance (raw : List RawPiece) : Tracks (plainPieces inner raw) (plainPieces inner' raw) := by
  fun_induction plainPieces inner raw <;> simp only [plainPieces] <;> infer_instance

instance (raw : List RawPiece) : Tracks (pieces inner raw) (pieces inner' raw) := by
  fun_induction pieces inner raw with
  | case1 | case2 =>
    simp only [pieces]
    infer_instance
  | case3 text conversion spec rest ih =>
    simp only [pieces]
    refine .next fun e => ?_
    cases spec <;> infer_instance

theorem takeTexts_beside {tie : Tie} {ts ts' : List Token} (h : Beside tie ts ts') :
    (takeTexts ts).1 = (takeTexts ts').1 ∧
      Beside tie (takeTexts ts).2 (takeTexts ts').2 := by
  fun_induction takeTexts ts generalizing ts' with
  | case1 q rest qs left hrest ih =>
    obtain ⟨us', rfl, hus⟩ := h.of_cons
    have ih := ih hus
    rw [hrest] at ih
    simpa [takeTexts] using ih
  | case2 ts hts =>
    have hts' : ∀ q us', ts' ≠ .text q :: us' := by
      rintro q us' rfl
      obtain ⟨us, rfl, -⟩ := h.to_cons
      exact hts q us rfl
    rw [takeTexts.eq_2 ts' hts']
    exact ⟨rfl, h⟩

instance : Tracks (texts inner) (texts inner') := by
  refine .look fun tie ts ts' h => ?_
  obtain ⟨hqs, hrest⟩ := takeTexts_beside h
  generalize takeTexts ts = r, takeTexts ts' = r' at hqs hrest
  obtain ⟨qs, rest⟩ := r
  obtain ⟨qs', rest'⟩ := r'
  cases hqs
  dsimp only
  split
  · cases qs.mapM fun q => bytesOf q.raw q.body with
    | none => exact .given rfl
    | some parts => exact Tracks.set hrest _ _
  · split
    · exact .given rfl
    · cases qs.mapM quotationPieces with
      | none => exact .given rfl
      | some parts => exact Tracks.set hrest _ _

instance (levels : List (List (String × BinaryOp))) :
    Tracks (binaryLevel n operand levels) (binaryLevel n' operand' levels) := by
  induction levels with
  | nil => assumption
  | cons level tighter ih =>
    refine @Tracks.bind _ _ _ _ _ _ ih fun first => .again (fun left => ?_) first
    refine .peek fun t => ?_
    split
    · split <;> infer_instance
    · infer_instance

instance : Tracks (unarySigns n) (unarySigns n') := by
  refine @Tracks.bind _ _ _ _ _ _ (.again (fun signs => ?_) []) inferInstance
  refine .next fun op => ?_
  cases op <;> infer_instance

instance : Tracks (factor n operand) (factor n' operand') := by
  dsimp only [factor]
  repeat' first | infer_instance | split | refine .next fun _ => ?_

instance {x x' y y' : Parse Expr} [Tracks x x'] [Tracks y y'] :
    Tracks (clauses n x y) (clauses n' x' y') := .bind

instance : Tracks (starNamed inner bitOr) (starNamed inner' bitOr') := .bind

instance : Tracks (starExpression inner bitOr) (starExpression inner' bitOr') := .bind

instance : Tracks (starExpressions n inner bitOr) (starExpressions n' inner' bitOr') := .bind

instance : Tracks (yieldTail n inner bitOr) (yieldTail n' inner' bitOr') := .bind

instance : Tracks (parenthesised n inner bitOr comprehension)
    (parenthesised n' inner' bitOr' comprehension') := .bind

instance : Tracks (bracketed n inner bitOr comprehension)
    (bracketed n' inner' bitOr' comprehension') := .bind

instance : Tracks (dictItem inner bitOr) (dictItem inner' bitOr') := .bind

instance (first : DictItem) :
    Tracks (dictRest n inner bitOr first) (dictRest n' inner' bitOr' first) := .bind

instance (first : Expr) :
    Tracks (setRest n inner bitOr first) (setRest n' inner' bitOr' first) := .bind

instance : Tracks (braced n inner bitOr comprehension)
    (braced n' inner' bitOr' comprehension') := by
  dsimp only [braced]
  repeat' first | infer_instance | split | refine .next fun _ => ?_

instance : Tracks (atom n inner bitOr comprehension) (atom n' inner' bitOr' comprehension') := by
  dsimp only [atom]
  exact .peek fun t => by split <;> infer_instance

instance : Tracks (argument inner comprehension) (argument inner' comprehension') := by
  refine .look fun tie ts ts' h => ?_
  split
  · obtain ⟨_, rfl, hus⟩ := h.of_cons
    exact Tracks.set hus _ _
  · obtain ⟨_, rfl, hus⟩ := h.of_cons
    exact Tracks.set hus _ _
  · obtain ⟨_, rfl, hus⟩ := h.of_cons_cons
    exact Tracks.set hus _ _
  · split
    · grind
    · grind
    · grind
    · exact Tracks.out _ _ _ h

instance (bare : Bool) : Tracks (arguments n inner comprehension bare)
    (arguments n' inner' comprehension' bare) := by
  dsimp only [arguments]
  repeat' first | infer_instance | split | refine .next fun _ => ?_

instance : Tracks (sliceBound inner) (sliceBound inner') := .bind

instance (lower : Option Expr) : Tracks (sliceTail inner lower) (sliceTail inner' lower) := .bind

instance : Tracks (sliceItem inner) (sliceItem inner') := .bind

instance : Tracks (slices n inner) (slices n' inner') := by
  dsimp only [slices]
  repeat' first | infer_instance | split | refine .next fun _ => ?_

instance : Tracks (primary n inner bitOr comprehension)
    (primary n' inner' bitOr' comprehension') := .bind

instance : Tracks (awaited n inner bitOr comprehension)
    (awaited n' inner' bitOr' comprehension') := .bind

instance : Tracks (comparison n bitOr) (comparison n' bitOr') := by
  refine .next fun first => @Tracks.bind _ _ _ _ _ _
    (.again (fun rest => .next fun op => ?_) []) inferInstance
  cases op <;> infer_instance

instance : Tracks (inversion n bitOr) (inversion n' bitOr') := .bind

instance (word : String) (op : BoolOp) :
    Tracks (connected n word op operand) (connected n' word op operand') := .bind

instance : Tracks (disjunction n bitOr) (disjunction n' bitOr') := .bind

instance : Tracks (targets n bitOr) (targets n' bitOr') := .bind

instance (annotated : Bool) :
    Tracks (param inner annotated bitOr) (param inner' annotated bitOr') := .bind

instance : Tracks (fallback inner) (fallback inner') := .bind

instance (annotated : Bool) (st : ParamState) : Tracks (paramStep inner bitOr annotated st)
      (paramStep inner' bitOr' annotated st) := .ite

instance (annotated : Bool) (close : String) : Tracks (params n inner bitOr annotated close)
      (params n' inner' bitOr' annotated close) := .bind

instance : Tracks (bitOrWith n inner comprehension bitOr)
    (bitOrWith n' inner' comprehension' bitOr') := by
  dsimp only [bitOrWith]
  infer_instance

end

/-- Expressions, the operands of unions and the clauses of comprehensions go together. -/
theorem Tracks.expressions {size size' fuel fuel' : Nat} [Fact (size ≤ size')] (h : fuel ≤ fuel') :
    Tracks (expression size fuel) (expression size' fuel') ∧
      Tracks (bitOrExpression size fuel) (bitOrExpression size' fuel') ∧
      Tracks (comprehensionClauses size fuel) (comprehensionClauses size' fuel') := by
  induction fuel generalizing fuel' with
  | zero => exact ⟨.refuse _, .refuse _, .refuse _⟩
  | succ fuel ih =>
    obtain ⟨fuel', rfl⟩ : ∃ k, fuel' = k + 1 := ⟨fuel' - 1, by omega⟩
    obtain ⟨_, _, _⟩ := ih (Nat.le_of_succ_le_succ h)
    refine ⟨?_, ?_, .bind⟩
    · dsimp only [expression]
      infer_instance
    · dsimp only [bitOrExpression]
      infer_instance

/-! ### Patterns -/

/-- The second readings do what the first do, within bounds at least as large. -/
class Readings.Wider (r r' : Readings) : Prop where
  size : r.size ≤ r'.size
  expression : Tracks r.expression r'.expression
  bitOr : Tracks r.bitOr r'.bitOr

theorem Readings.Wider.of_le {n n' : Nat} (h : n ≤ n') : (readings n).Wider (readings n') :=
  have : Fact (n + 2 ≤ n' + 2) := ⟨Nat.add_le_add_right h 2⟩
  have he := Tracks.expressions (show 4 * n + 8 ≤ 4 * n' + 8 by omega)
  ⟨this.out, he.1, he.2.1⟩

instance : Tracks signedNumber signedNumber := by
  dsimp only [signedNumber]
  refine .next fun negative => ?_
  exact .peek fun t => by split <;> infer_instance

instance : Tracks patternNumber patternNumber := by
  refine .next fun real => .look fun tie ts ts' h => ?_
  split <;> split <;> simp only [bind_apply, set_apply, pure_apply, ok_bind] <;> grind

instance : Tracks noPattern noPattern := by
  dsimp only [noPattern]
  exact .peek fun t => by split <;> infer_instance

instance : Tracks captureName captureName := .bind

instance : Tracks noMappingItem noMappingItem := by
  dsimp only [noMappingItem]
  infer_instance

section

variable {n n' : Nat} [Fact (n ≤ n')] {r r' : Readings} [hr : r.Wider r']
  {p p' : Parse Pattern} [Tracks p p']

instance : Fact (r.size ≤ r'.size) := ⟨hr.size⟩
instance : Tracks r.expression r'.expression := hr.expression
instance : Tracks r.bitOr r'.bitOr := hr.bitOr

instance (first : Expr) : Tracks (attributePath n first) (attributePath n' first) := .loop _

instance : Tracks (dottedPath n) (dottedPath n') := .bind

instance : Tracks (patternKey r) (patternKey r') := by
  dsimp only [patternKey]
  refine .peek fun t => ?_
  split
  case h_5 =>
    refine @TracksAt.of _ _ _ _ (.next fun e => ?_)
    split <;> infer_instance
  all_goals infer_instance

instance : Tracks (starPattern p) (starPattern p') := .bind

instance (close : String) : Tracks (sequenceItems n p close) (sequenceItems n' p' close) := .bind

instance : Tracks (mappingItem r p) (mappingItem r' p') := .bind

instance : Tracks (mappingPattern r p) (mappingPattern r' p') := by
  dsimp only [mappingPattern]
  repeat' first | infer_instance | split | refine .next fun _ => ?_

instance : Tracks (classItem p) (classItem p') := by
  refine .look fun tie ts ts' h => ?_
  split
  · obtain ⟨_, rfl, hus⟩ := h.of_cons_cons
    exact Tracks.set hus _ _
  · split
    · grind
    · exact Tracks.out _ _ _ h

instance (type : Expr) : Tracks (classPattern n p type) (classPattern n' p' type) := .bind

instance : Tracks (closedPattern r p) (closedPattern r' p') := by
  dsimp only [closedPattern]
  refine .peek fun t => ?_
  split
  case h_7 =>
    refine @TracksAt.skip _ _ _ _ _ (.next fun items => ?_)
    split <;> infer_instance
  case h_10 =>
    refine @TracksAt.of _ _ _ _ (.next fun e =>
      .next fun _ => @Tracks.ite _ _ _ _ _ _ _ inferInstance ?_)
    split <;> infer_instance
  all_goals infer_instance

theorem pattern_tracks {fuel fuel' : Nat} (h : fuel ≤ fuel') :
    Tracks (pattern r fuel) (pattern r' fuel') := by
  induction fuel generalizing fuel' with
  | zero => exact .refuse _
  | succ fuel ih =>
    obtain ⟨fuel', rfl⟩ : ∃ k, fuel' = k + 1 := ⟨fuel' - 1, by omega⟩
    have := ih (Nat.le_of_succ_le_succ h)
    dsimp only [pattern]
    infer_instance

instance : Tracks (clausePattern r) (clausePattern r') := by
  have : Tracks (pattern r r.size) (pattern r' r'.size) := pattern_tracks hr.size
  dsimp only [clausePattern]
  repeat' first | infer_instance | split | refine .next fun _ => ?_

/-! ### Simple statements -/

instance : Tracks (expressionList r) (expressionList r') := .bind

instance : Tracks (assigned r) (assigned r') := .bind

instance (first : Expr) : Tracks (assignment r first) (assignment r' first) := .bind

instance (target : Expr) (simple : Bool) :
    Tracks (hint r target simple) (hint r' target simple) := .bind

instance : Tracks (expressionStatement r) (expressionStatement r') := by
  refine .look fun tie ts ts' h => ?_
  split
  · obtain ⟨_, rfl, hus⟩ := h.of_cons_cons
    exact Tracks.set hus _ _
  · split
    · grind
    · refine (Tracks.next fun first => .peek fun t => ?_).out _ _ _ h
      split
      · infer_instance
      · infer_instance
      · split <;> infer_instance
      · infer_instance

instance : Tracks (dottedName r) (dottedName r') := .bind

instance : Tracks givenName givenName := .bind

instance : Tracks (importedModule r) (importedModule r') := .bind

instance : Tracks importedName importedName := .bind

instance : Tracks (leadingDots r) (leadingDots r') := .loop _

instance : Tracks never never := .pure _

instance : Tracks (importedNames r) (importedNames r') := .bind

instance : Tracks (fromImport r) (fromImport r') := .bind

instance : Tracks atLineEnd atLineEnd := by
  dsimp only [atLineEnd]
  exact .peek fun t => by split <;> infer_instance

instance : Tracks noTarget noTarget := .bind

instance : Tracks (deletion r) (deletion r') := .bind

instance : Tracks (simpleStatement r) (simpleStatement r') := by
  dsimp only [simpleStatement]
  exact .peek fun t => by split <;> infer_instance

instance : Tracks (simpleLine r) (simpleLine r') := by
  refine .next fun first =>
    @Tracks.bind _ _ _ _ _ _ (.again (fun statements => ?_) _) inferInstance
  refine .next fun more => @Tracks.ite _ _ _ _ _ _ _ ?_ inferInstance
  exact .peek fun t => by split <;> infer_instance

/-! ### Compound statements -/

variable {b b' : Parse (List Stmt)} [Tracks b b']

instance : Tracks (colonBlock b) (colonBlock b') := .bind

instance : Tracks (headValue r) (headValue r') :=
  inferInstanceAs (Tracks (namedExpression _) (namedExpression _))

instance : Tracks (elseBlock b) (elseBlock b') := .bind

instance : Tracks (branches r b) (branches r' b') := by
  dsimp only [branches]
  repeat' first | infer_instance | split | refine .next fun _ => ?_

instance : Tracks (whileLoop r b) (whileLoop r' b') := .bind

instance (isAsync : Bool) : Tracks (forLoop r b isAsync) (forLoop r' b' isAsync) := .bind

instance : Tracks (withItem r) (withItem r') := .bind

instance : Tracks (enclosedItems r) (enclosedItems r') := .bind

instance : Tracks (openItems r) (openItems r') := .bind

instance (isAsync : Bool) : Tracks (withBlock r b isAsync) (withBlock r' b' isAsync) := .bind

instance (group : Bool) : Tracks (handlers r b group) (handlers r' b' group) := .bind

instance : Tracks atStarredHandler atStarredHandler := by
  refine .look fun tie ts ts' h => ?_
  split <;> split <;> simp only [pure_apply] <;> grind

instance : Tracks (finallyBlock b) (finallyBlock b') := .bind

instance : Tracks (tryBlock r b) (tryBlock r' b') := .bind

instance (isAsync : Bool) (decorators : List Expr) : Tracks (functionTail r b isAsync decorators)
      (functionTail r' b' isAsync decorators) := .bind

instance (decorators : List Expr) :
    Tracks (classTail r b decorators) (classTail r' b' decorators) := .bind

instance : Tracks (decorated r b) (decorated r' b') := .bind

instance : Tracks (asyncStatement r b) (asyncStatement r' b') := .bind

instance : Tracks (caseClause r b) (caseClause r' b') := .bind

instance : Tracks acceptCase acceptCase := by
  refine .look fun tie ts ts' h => ?_
  split <;> split <;> simp only [bind_apply, set_apply, pure_apply, ok_bind] <;> grind

instance : Tracks (matchSubject r) (matchSubject r') := by
  dsimp only [matchSubject]
  repeat' first | infer_instance | split | refine .next fun _ => ?_

instance (w : String) : TracksAt (.name w) (matchStatement r b) (matchStatement r' b') := by
  refine @TracksAt.skip _ _ _ _ _ (.next fun subject =>
    .next fun _ => .next fun _ =>
    .indent ?_ rfl rfl fun t ts ht => ?_)
  · refine @TracksInside.bind _ _ _ _ _ _ inferInstance fun found => ?_
    refine @TracksInside.ite _ _ _ _ _ _ _ ?_ inferInstance
    refine @TracksInside.bind _ _ _ _ _ _ inferInstance fun first =>
      @TracksInside.bind _ _ _ _ _ _ inferInstance fun cases => ?_
    refine .dedent rfl rfl fun t ht => ?_
    cases t <;> first | exact absurd rfl ht | exact ⟨rfl, rfl⟩
  · cases t <;> first | exact absurd rfl ht | exact ⟨_, rfl, rfl⟩

instance : Tracks (statements r b) (statements r' b') := by
  dsimp only [statements]
  exact .peek fun t => by split <;> infer_instance

instance : Tracks (statementRun r b) (statementRun r' b') := by
  refine @Tracks.bind _ _ _ _ _ _ (.again (fun found => ?_) []) inferInstance
  exact .peek fun t => by split <;> infer_instance

theorem Tracks.block {fuel fuel' : Nat} (h : fuel ≤ fuel') :
    Tracks (block r fuel) (block r' fuel') := by
  induction fuel generalizing fuel' with
  | zero => exact .refuse _
  | succ fuel ih =>
    obtain ⟨fuel', rfl⟩ : ∃ k, fuel' = k + 1 := ⟨fuel' - 1, by omega⟩
    have := ih (Nat.le_of_succ_le_succ h)
    refine .peek fun t => ?_
    split
    · refine @TracksAt.skip _ _ _ _ _ (.indent ?_ rfl rfl fun t ts ht => ?_)
      · refine @TracksInside.bind _ _ _ _ _ _ inferInstance fun body => ?_
        refine .dedent rfl rfl fun t ht => ?_
        cases t <;> first | exact absurd rfl ht | exact ⟨rfl, rfl⟩
      · cases t <;> first | exact absurd rfl ht | exact ⟨_, rfl, rfl⟩
    · infer_instance

end

end Workflow.Source
