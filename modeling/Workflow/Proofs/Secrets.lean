/-
Which of the secrets that a handler reads are declared.

The variables that a handler expects are found by a scan of its text for quoted
names. The scan goes from left to right and passes over what it has found, so
that one name could hide another; but none reaches over a bracket, and what is
read stands right after one (`mem_secretsIn_of_bracket`). So a secret that is
read is found, unless its name holds a character that the scan knows nothing of
(`ReadsSecret.mem_iff`).

What a handler reads is in its text, since what is written once stays
(`Writer.Holds.block`).
-/
import Workflow.Bundle.Environment
import Workflow.Proofs.Interface

namespace Workflow

namespace Bundle

/-! ## The scan -/

/-- The names that the scan can tell: letters, digits and underscores, one at least. -/
def Plain (name : String) : Prop := name ≠ "" ∧ ∀ c ∈ name.toList, isSecretChar c

variable {c : Char} {cs : List Char} {name : String}

theorem isSecretChar_toNat (h : isSecretChar c) : 48 ≤ c.toNat ∧ c.toNat < 127 := by
  simp only [isSecretChar, Char.isAlphanum, Char.isAlpha, Char.isUpper, Char.isLower, Char.isDigit,
    Bool.or_eq_true, Bool.and_eq_true, decide_eq_true_eq] at h
  rcases h with ((h | h) | h) | rfl
  case inr => decide
  all_goals
    simp only [ge_iff_le, UInt32.le_iff_toNat_le] at h
    exact ⟨le_trans (by decide) h.1, lt_of_le_of_lt h.2 (by decide)⟩

theorem dropQuote?_eq_some {rest : List Char} (h : dropQuote? cs = some rest) :
    ∃ q, isQuote q ∧ cs = q :: rest := by
  cases cs with
  | nil => cases h
  | cons q tail =>
    rw [dropQuote?] at h
    split at h
    · next hq =>
      cases h
      exact ⟨q, hq, rfl⟩
    · cases h

theorem dropStart?_eq_some {start rest : List Char} :
    dropStart? start cs = some rest ↔ cs = start ++ rest := by
  rw [dropStart?]
  split
  · next hp =>
    obtain ⟨tail, rfl⟩ := List.isPrefixOf_iff_prefix.mp hp
    simp [eq_comm]
  · next hp =>
    refine iff_of_false (by simp) ?_
    rintro rfl
    exact hp (List.isPrefixOf_iff_prefix.mpr (List.prefix_append _ _))

/-- The name found at the head of a text is plain, quoted and marked. -/
theorem secretAt?_eq_some (h : secretAt? cs = some name) : Plain name ∧ ∃ q q' rest,
    isQuote q ∧ isQuote q' ∧ cs = q :: ("SECRET_".toList ++ (name.toList ++ q' :: rest)) := by
  simp only [secretAt?, Option.bind_eq_bind, Option.bind_eq_some_iff] at h
  obtain ⟨cs₁, h₁, cs₂, h₂, h⟩ := h
  obtain ⟨q, hq, rfl⟩ := dropQuote?_eq_some h₁
  obtain rfl := dropStart?_eq_some.mp h₂
  split at h
  · cases h
  · next hne =>
    obtain ⟨rest, h₃, h⟩ := Option.bind_eq_some_iff.mp h
    obtain ⟨q', hq', hrest⟩ := dropQuote?_eq_some h₃
    cases h
    have hname := String.toList_ofList (l := cs₂.takeWhile isSecretChar)
    rw [hname]
    refine ⟨⟨fun he => hne ?_, fun c hc => ?_⟩, q, q', rest, hq, hq', ?_⟩
    · rw [← hname, he]
      rfl
    · rw [hname] at hc
      exact List.mem_takeWhile_imp hc
    · have hsplit := List.takeWhile_append_dropWhile (p := isSecretChar) (l := cs₂)
      have hdrop : ((cs₂.takeWhile isSecretChar) ++ cs₂.dropWhile isSecretChar).drop
          (cs₂.takeWhile isSecretChar).length = cs₂.dropWhile isSecretChar := List.drop_left
      rw [hsplit, hrest] at hdrop
      rw [hdrop, hsplit]

/-- A plain name that is quoted and marked is found. -/
theorem secretAt?_of_plain (hn : Plain name) {q q' : Char} (hq : isQuote q) (hq' : isQuote q')
    (rest : List Char) :
    secretAt? (q :: ("SECRET_".toList ++ (name.toList ++ q' :: rest))) = some name := by
  have hstop : isSecretChar q' = false := by
    rw [isQuote, Bool.or_eq_true, decide_eq_true_eq, decide_eq_true_eq] at hq'
    rcases hq' with rfl | rfl <;> decide
  have htake : (name.toList ++ q' :: rest).takeWhile isSecretChar = name.toList := by
    rw [List.takeWhile_append_of_pos hn.2, List.takeWhile_cons_of_neg (by simp [hstop]),
      List.append_nil]
  have hne : name.toList.isEmpty = false := by
    rw [List.isEmpty_eq_false_iff]
    exact fun he => hn.1 (String.toList_eq_nil_iff.mp he)
  simp only [secretAt?, dropQuote?, hq, if_true, Option.bind_eq_bind, Option.bind_some,
    dropStart?_eq_some.mpr rfl, htake, hne, List.drop_left, hq']
  simp

theorem plain_of_mem_secretsIn {skip : Nat} (h : name ∈ secretsIn skip cs) : Plain name := by
  induction cs generalizing skip with
  | nil => simp [secretsIn] at h
  | cons c rest ih =>
    cases skip with
    | succ skip => exact ih h
    | zero =>
      rw [secretsIn] at h
      split at h
      · next hat =>
        rcases List.mem_cons.mp h with rfl | h
        · exact (secretAt?_eq_some hat).1
        · exact ih h
      · exact ih h

theorem length_le_of_notMem {α : Type} {x : α} {a b w r : List α} (hx : x ∉ w)
    (h : a ++ x :: b = w ++ r) : w.length ≤ a.length := by
  rcases List.append_eq_append_iff.mp h with ⟨t, rfl, ht⟩ | ⟨t, rfl, -⟩
  · cases t with
    | nil => simp
    | cons y t =>
      cases ht
      simp at hx
  · simp

/-- No name that is found reaches over a bracket: a name right after one is always found. -/
theorem mem_secretsIn_of_bracket {before after : List Char} (hat : secretAt? after = some name)
    {skip : Nat} (hskip : skip ≤ before.length) :
    name ∈ secretsIn skip (before ++ '(' :: after) := by
  induction before generalizing skip with
  | nil =>
    obtain rfl : skip = 0 := by simpa using hskip
    have hbracket : secretAt? ('(' :: after) = none := rfl
    rw [List.nil_append, secretsIn, hbracket]
    cases after with
    | nil => cases hat
    | cons c rest =>
      simp only
      rw [secretsIn, hat]
      exact List.mem_cons_self
  | cons c before ih =>
    cases skip with
    | succ skip => exact ih (by simpa using hskip)
    | zero =>
      rw [List.cons_append, secretsIn]
      split
      · next found hfound =>
        refine List.mem_cons_of_mem _ (ih ?_)
        obtain ⟨hplain, q, q', rest, -, hq', he⟩ := secretAt?_eq_some hfound
        have hword : '(' ∉ "SECRET_".toList ++ found.toList ++ [q'] := by
          simp only [List.mem_append, List.mem_singleton, not_or]
          refine ⟨⟨by decide, fun hm => ?_⟩, ?_⟩
          · exact absurd (hplain.2 _ hm) (by decide)
          · rintro rfl
            exact absurd hq' (by decide)
        have hlength := length_le_of_notMem (a := before) (b := after) (r := rest) hword
          (by simpa using (List.cons.inj he).2)
        have hmark : "SECRET_".toList.length = 7 := rfl
        rw [List.length_append, List.length_append, hmark, String.length_toList,
          List.length_singleton] at hlength
        omega
      · exact ih (Nat.zero_le _)

theorem firsts_eq (names : List String) : firsts names = names.eraseDups := by
  induction names using List.reverseRecOn with
  | nil => rfl
  | append_singleton names n ih =>
    rw [eraseDups_concat, ← ih]
    by_cases hn : n ∈ firsts names
    · rw [if_pos hn, List.append_nil, firsts, List.foldl_concat, ← firsts, if_pos hn]
    · rw [if_neg hn, firsts, List.foldl_concat, ← firsts, if_neg hn]

theorem somewhere_append {p : List Char → Bool} {before : List Char} (h : p cs = true) :
    somewhere p (before ++ cs) = true := by
  induction before with
  | nil =>
    cases cs with
    | nil => exact h
    | cons c rest => rw [List.nil_append, somewhere, h, Bool.true_or]
  | cons c before ih => rw [List.cons_append, somewhere, ih, Bool.or_true]

/-! ## Reads in a text -/

/-- A text reads a secret from the environment. -/
def ReadsSecret (code name : String) : Prop :=
  ("env.get(" ++ Text.quoted ("SECRET_" ++ name) ++ ")").toList <:+: code.toList

theorem quoted_plain (h : Plain name) :
    (Text.quoted ("SECRET_" ++ name)).toList =
      '\'' :: ("SECRET_".toList ++ (name.toList ++ ['\''])) := by
  have hchars : ∀ c ∈ ("SECRET_" ++ name).toList, isSecretChar c := by
    rw [String.toList_append]
    exact List.forall_mem_append.mpr ⟨by simp [isSecretChar], h.2⟩
  have hquote : Text.quoteFor ("SECRET_" ++ name).toList = '\'' := by
    have hno : '\'' ∉ ("SECRET_" ++ name).toList := fun hm => absurd (hchars _ hm) (by decide)
    rw [Text.quoteFor, List.contains_eq_mem, decide_eq_false hno]
    rfl
  have hchar : ∀ c, isSecretChar c → Text.quoteChar '\'' c = [c] := by
    intro c hc
    have hne : ∀ d, isSecretChar d = false → c ≠ d := by
      rintro d hd rfl
      simp [hc] at hd
    have hprint : Text.isPrintable c := by
      obtain ⟨hlow, hhigh⟩ := isSecretChar_toNat hc
      rw [Text.isPrintable, if_pos hhigh]
      exact decide_eq_true (by omega)
    rw [Text.quoteChar, if_neg (by simp [hne '\'' rfl, hne '\\' rfl]), if_neg (hne '\n' rfl),
      if_neg (hne '\r' rfl), if_neg (hne '\t' rfl), if_pos hprint]
  rw [Text.quoted, String.toList_ofList, hquote,
    List.flatMap_congr (g := fun c => [c]) fun c hc => hchar c (hchars c hc)]
  simp [String.toList_append]

theorem nodup_secrets (code : String) : (environmentOf code).secrets.Nodup := by
  rw [environmentOf, firsts_eq]
  exact nodup_eraseDups _

/-- A secret that a text reads is found exactly if its name is plain. -/
theorem ReadsSecret.mem_iff {code : String} (h : ReadsSecret code name) :
    name ∈ (environmentOf code).secrets ↔ Plain name := by
  rw [environmentOf, firsts_eq, List.mem_eraseDups]
  refine ⟨plain_of_mem_secretsIn, fun hn => ?_⟩
  obtain ⟨before, after, he⟩ := h
  have hcode : code.toList = (before ++ "env.get".toList) ++
      '(' :: ('\'' :: ("SECRET_".toList ++ (name.toList ++ '\'' :: (')' :: after)))) := by
    rw [← he]
    simp [String.toList_append, quoted_plain hn]
  rw [hcode]
  exact mem_secretsIn_of_bracket (secretAt?_of_plain hn rfl rfl _) (Nat.zero_le _)

/-- A text that reads the id of the workflow is found to do so. -/
theorem workflowId_of_infix {code : String}
    (h : "env.get(\"WORKFLOW_ID\")".toList <:+: code.toList) :
    (environmentOf code).workflowId = true := by
  obtain ⟨before, after, he⟩ := h
  rw [environmentOf, ← he, List.append_assoc]
  exact somewhere_append rfl

end Bundle

namespace Handler

open Text (quoted)

/-! ## What is written stays -/

/-- A line that is written holds a text. -/
def Writer.Holds (w : Writer) (t : String) : Prop :=
  ∃ line ∈ w.lines.toList, t.toList <:+: line.toList

variable {w : Writer} {t : String}

theorem Writer.holds_write (w : Writer) {line : String} (h : t.toList <:+: line.toList) :
    (w.write line).Holds t := by
  refine ⟨lineOf w.level line, by simp [Writer.write_lines], ?_⟩
  rw [lineOf]
  split
  · next he => rwa [String.isEmpty_iff.mp he] at h
  · rw [String.toList_append]
    exact h.trans (List.suffix_append _ _).isInfix

namespace Writer.Holds

theorem of_prefix {w' : Writer} (h : w.Holds t) (hp : w.lines.toList <+: w'.lines.toList) :
    w'.Holds t := by
  obtain ⟨line, hl, ht⟩ := h
  exact ⟨line, hp.subset hl, ht⟩

theorem write (h : w.Holds t) (line : String) : (w.write line).Holds t :=
  h.of_prefix (by rw [Writer.write_lines]; exact List.prefix_append _ _)

theorem blank (h : w.Holds t) : w.blank.Holds t := by
  unfold Writer.blank
  split
  · split
    · exact h
    · exact h.of_prefix (by simp)
  · exact h

theorem comment (h : w.Holds t) (text : String) : (w.comment text).Holds t := h.write _

theorem writeAll (h : w.Holds t) (lines : List String) : (w.writeAll lines).Holds t := by
  induction lines generalizing w with
  | nil => exact h
  | cons line rest ih => exact ih (h.write line)

theorem extend (h : w.Holds t) (other : Writer) : (w.extend other).Holds t :=
  h.of_prefix (by simp [Writer.extend])

theorem extend_right (h : w.Holds t) (before : Writer) : (before.extend w).Holds t := by
  obtain ⟨line, hl, ht⟩ := h
  exact ⟨line, by simp [Writer.extend, hl], ht⟩

theorem push (h : w.Holds t) : w.push.Holds t := h

theorem pop (h : w.Holds t) : w.pop.Holds t := h

theorem indented (h : w.Holds t) {body : Writer → Writer}
    (hbody : ∀ w : Writer, w.Holds t → (body w).Holds t) : (w.indented body).Holds t :=
  (hbody w.push h.push).pop

theorem literal (h : w.Holds t) (before : String) (lines : List String) (after : String) :
    (writeLiteral before lines after w).Holds t := by
  unfold writeLiteral
  split
  · exact h.write _
  · exact h.write _
  · exact (h.write _).indented fun _ h => (h.writeAll _).write _

theorem nodeHead (h : w.Holds t) (s : Step) : (writeNodeHead s w).Holds t :=
  (h.blank.comment _).write _

theorem action (h : w.Holds t) (hd : Handler) (s : Step) : (writeAction hd s w).Holds t := by
  unfold writeAction
  refine Writer.Holds.writeAll ?_ _
  split
  · exact (h.write _).literal ..
  · exact (h.write _).literal ..

theorem loopHead (h : w.Holds t) (hd : Handler) (s : Step) : (writeLoopHead hd s w).Holds t :=
  (h.writeAll _).push.writeAll _

theorem arm (h : w.Holds t) {body : Writer → Writer}
    (hbody : ∀ w : Writer, w.Holds t → (body w).Holds t) : (writeArm body w).Holds t := by
  refine h.indented fun w h => ?_
  dsimp only
  split
  · exact (hbody w h).write _
  · exact hbody w h

end Writer.Holds

mutual

theorem Writer.Holds.block (hd : Handler) : ∀ (b : Block) {w : Writer}, w.Holds t →
    (writeBlock hd b w).Holds t
  | .trigger s, _, h => (h.nodeHead s).comment _
  | .unsupported s, _, h => (h.nodeHead s).comment _
  | .action s, _, h => (h.nodeHead s).action hd s
  | .branch s yes no, _, h =>
    ((((h.nodeHead s).write _).write _).arm fun _ h => h.blocks hd yes).write _ |>.arm
      fun _ h => h.blocks hd no
  | .subject s, _, h => (h.nodeHead s).write _
  | .select s arms other, _, h =>
    ((((h.nodeHead s).write _).arms hd _ _ arms).write _).arm fun _ h => h.blocks hd other
  | .loop s body, _, h => (((h.nodeHead s).loopHead hd s).blocks hd body).pop
  | .join s, _, h => (h.nodeHead s).write _
  | .unreadable s _, _, h => h.nodeHead s

theorem Writer.Holds.blocks (hd : Handler) : ∀ (bs : List Block) {w : Writer}, w.Holds t →
    (writeBlocks hd bs w).Holds t
  | [], _, h => h
  | b :: rest, _, h => (h.block hd b).blocks hd rest

theorem Writer.Holds.arms (hd : Handler) (target keyword : String) :
    ∀ (arms : List (String × List Block)) {w : Writer}, w.Holds t →
      (writeArms hd target keyword arms w).Holds t
  | [], _, h => h
  | (_, body) :: rest, _, h =>
    ((h.write _).arm fun _ h => h.blocks hd body).arms hd target "elif" rest

end

theorem Writer.holds_writeAll (w : Writer) {lines : List String} {line : String}
    (hl : line ∈ lines) (h : t.toList <:+: line.toList) : (w.writeAll lines).Holds t := by
  obtain ⟨before, after, rfl⟩ := List.append_of_mem hl
  rw [Writer.writeAll, List.foldl_append, List.foldl_cons]
  exact (Writer.holds_write _ h).writeAll after

/-! ## What a handler reads -/

variable {h : Handler}

theorem infix_intercalate {sep u : List Char} {ts : List (List Char)} (hu : u ∈ ts) :
    u <:+: sep.intercalate ts := by
  induction ts with
  | nil => exact absurd hu List.not_mem_nil
  | cons v rest ih =>
    cases rest with
    | nil =>
      rw [List.mem_singleton.mp hu, List.intercalate_singleton]
    | cons v' rest =>
      rw [List.intercalate_cons_cons]
      rcases List.mem_cons.mp hu with rfl | hu
      · exact (List.prefix_append _ _).isInfix.trans (List.prefix_append _ _).isInfix
      · exact (ih hu).trans (List.suffix_append _ _).isInfix

theorem infix_code (hd : h.document.Holds t) : t.toList <:+: h.code.toList := by
  obtain ⟨line, hl, ht⟩ := hd
  rw [code, Writer.text, String.toList_append, String.toList_intercalate]
  exact (ht.trans (infix_intercalate (List.mem_map_of_mem hl))).trans
    (List.prefix_append _ _).isInfix

theorem holds_document (hf : ∀ w, (writeFetch h w).Holds t) : h.document.Holds t :=
  ((hf _).pop.pop.blank.write _).write _

theorem Writer.Holds.secrets (hw : w.Holds t) (names : List String) :
    (writeSecrets names w).Holds t := by
  unfold writeSecrets
  split
  · exact hw.write _
  · exact ((hw.write _).indented fun _ hw => hw.writeAll _).write _

theorem holds_secrets (w : Writer) {names : List String} {name : String} (hn : name ∈ names) :
    (writeSecrets names w).Holds ("env.get(" ++ quoted ("SECRET_" ++ name) ++ ")") := by
  have hne : names.isEmpty = false := List.isEmpty_eq_false_iff.mpr (List.ne_nil_of_mem hn)
  rw [writeSecrets, hne, if_neg (by simp)]
  refine Writer.Holds.write (Writer.Holds.pop ?_) _
  refine Writer.holds_writeAll _ (List.mem_map_of_mem hn) ?_
  simp only [String.toList_append]
  exact ⟨(quoted name).toList ++ ": ".toList, ",".toList, by simp⟩

theorem Writer.Holds.continuations (hw : w.Holds t) : (writeContinuations h w).Holds t := by
  unfold writeContinuations
  induction h.flow.continuations generalizing w with
  | nil => exact hw
  | cons c rest ih => exact ih (((hw.write _).extend _).blank)

/-- What stands before `try` stays. -/
theorem holds_fetch (w : Writer) (hs : (writeSecrets h.secrets (w.writeAll
    ["workflow_id = env.get(\"WORKFLOW_ID\") or new_id()", "execution_id = new_id()",
     "logger = Logger(workflow_id, execution_id)",
     "context = create_context(workflow_id, execution_id)"])).Holds t) :
    (writeFetch h w).Holds t := by
  unfold writeFetch
  refine Writer.Holds.indented (Writer.Holds.write ?_ _) fun _ hw => hw.writeAll _
  exact (hs.blank.write _).indented fun _ hw => (hw.continuations.extend _).blank.writeAll _

theorem holds_fetch_main (hm : (mainBody h).Holds t) (w : Writer) : (writeFetch h w).Holds t :=
  ((((hm.extend_right _).blank.writeAll _).pop.write _).indented fun _ hw => hw.writeAll _)

/-- The demand for a signature reads its secret. -/
theorem mainBody_holds {methods : List String} {name : String}
    (hg : h.guard = .webhook methods (.signature name)) :
    (mainBody h).Holds ("env.get(" ++ quoted ("SECRET_" ++ name) ++ ")") := by
  have hline : ("env.get(" ++ quoted ("SECRET_" ++ name) ++ ")").toList <:+:
      ("signing_secret = env.get(" ++ quoted ("SECRET_" ++ name) ++ ")").toList :=
    ⟨"signing_secret = ".toList, [], by simp⟩
  have hguard : ∀ w,
      (writeGuard h.guard w).Holds ("env.get(" ++ quoted ("SECRET_" ++ name) ++ ")") := fun w => by
    rw [hg]
    exact (((((Writer.holds_write _ hline).write _).indented fun _ hw => hw.write _).write
      _).indented fun _ hw => hw.write _).writeAll _
  unfold mainBody
  dsimp only
  split
  · exact hguard _
  · exact ((hguard _).blank.comment _).blocks h _

theorem holds_workflowId : h.document.Holds "env.get(\"WORKFLOW_ID\")" := by
  have hline : "env.get(\"WORKFLOW_ID\")".toList <:+:
      "workflow_id = env.get(\"WORKFLOW_ID\") or new_id()".toList :=
    ⟨"workflow_id = ".toList, " or new_id()".toList, rfl⟩
  refine holds_document fun w => holds_fetch w (Writer.Holds.secrets ?_ _)
  exact Writer.holds_writeAll w List.mem_cons_self hline

/-- The secrets that are handed to nodes are read. -/
theorem readsSecret_of_mem {name : String} (hn : name ∈ h.secrets) :
    Bundle.ReadsSecret h.code name :=
  infix_code (holds_document fun w => holds_fetch w (holds_secrets _ hn))

/-- The secret that signatures are made with is read. -/
theorem readsSecret_signature {methods : List String} {name : String}
    (hg : h.guard = .webhook methods (.signature name)) : Bundle.ReadsSecret h.code name :=
  infix_code (holds_document fun w => holds_fetch_main (mainBody_holds hg) w)

/-- **A secret that is read is declared exactly if its name is plain.** A handler is always found to
read the id of its workflow, and no secret is declared twice. The handler reads the secrets of all
nodes whose kinds it uses, and that of its signature; of those that it reads, just the ones are
declared whose names are made of letters, digits and underscores, one at least. -/
theorem declared_iff_plain {p : Plan} (hp : ofPlan p = .ok h) :
    (Bundle.environmentOf h.code).workflowId = true ∧
    (Bundle.environmentOf h.code).secrets.Nodup ∧
    (∀ s ∈ p.steps, s.kind ∈ h.kinds → ∀ name ∈ s.secrets, Bundle.ReadsSecret h.code name) ∧
    (∀ methods name, h.guard = .webhook methods (.signature name) →
      Bundle.ReadsSecret h.code name) ∧
    ∀ name, Bundle.ReadsSecret h.code name →
      (name ∈ (Bundle.environmentOf h.code).secrets ↔ Bundle.Plain name) := by
  have hid := infix_code (holds_workflowId (h := h))
  exact ⟨Bundle.workflowId_of_infix hid, Bundle.nodup_secrets _,
    fun s hs hk name hn => readsSecret_of_mem (mem_secrets_of_kind hp hs hk hn),
    fun methods name hg => readsSecret_signature hg, fun name hr => hr.mem_iff⟩

/-- A webhook whose requests are signed, and an action with two secrets. -/
def keyed : Plan where
  steps := [
    { id := "arrive", kind := "trigger-webhook", role := .trigger,
      data := [("verifySignature", .bool true), ("secretKeyRef", .str "hook_key")],
      structural := false, category := .core },
    { id := "say", kind := "mail", role := .action, data := [], structural := false,
      category := .core, secrets := ["my-key", "token"] }]
  edges := [{ source := "arrive", target := "say" }]
  entry := "arrive"
  hasCycle := false
  depth := 1

theorem keyed_handler : ∃ h, ofPlan keyed = .ok h ∧ h.kinds = ["mail"] ∧
    h.guard = .webhook ["POST"] (.signature "hook_key") := by
  have hguard : (ofPlan keyed).toOption.map (fun h => (h.kinds, h.guard)) =
      some (["mail"], .webhook ["POST"] (.signature "hook_key")) := by cbv
  cases hp : ofPlan keyed with
  | error e => simp [hp, Except.toOption] at hguard
  | ok h =>
    rw [hp] at hguard
    obtain ⟨hkinds, hguard⟩ := Prod.mk.inj (Option.some.inj hguard)
    exact ⟨h, rfl, hkinds, hguard⟩

theorem keyed_declares : ∃ h, ofPlan keyed = .ok h ∧
    (Bundle.environmentOf h.code).workflowId = true ∧
    "hook_key" ∈ (Bundle.environmentOf h.code).secrets ∧
    "token" ∈ (Bundle.environmentOf h.code).secrets := by
  obtain ⟨h, hp, hkinds, hguard⟩ := keyed_handler
  obtain ⟨hid, -, hread, hsigned, hiff⟩ := declared_iff_plain hp
  have htoken : Bundle.ReadsSecret h.code "token" :=
    hread _ (List.mem_cons_of_mem _ List.mem_cons_self) (by simp [hkinds]) "token" (by simp)
  refine ⟨h, hp, hid, (hiff _ (hsigned _ _ hguard)).mpr ⟨by decide, ?_⟩,
    (hiff _ htoken).mpr ⟨by decide, ?_⟩⟩ <;> simp [Bundle.isSecretChar]

/-- A secret with a hyphen in its name is read, but not declared. -/
theorem keyed_misses : ∃ h, ofPlan keyed = .ok h ∧ Bundle.ReadsSecret h.code "my-key" ∧
    "my-key" ∉ (Bundle.environmentOf h.code).secrets := by
  obtain ⟨h, hp, hkinds, -⟩ := keyed_handler
  have hread : Bundle.ReadsSecret h.code "my-key" :=
    readsSecret_of_mem (mem_secrets_of_kind hp (List.mem_cons_of_mem _ List.mem_cons_self)
      (by simp [hkinds]) (by simp))
  refine ⟨h, hp, hread, fun hm => ?_⟩
  have hplain := (hread.mem_iff.mp hm).2 '-' (by simp)
  simp [Bundle.isSecretChar] at hplain

end Handler

end Workflow
