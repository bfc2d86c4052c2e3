/-
Guards: what a handler demands of a request before it runs, and what it takes
from the request.
-/
import Workflow.Handler.Reading

namespace Workflow.Handler

/-- What a webhook demands besides the method. -/
inductive Access where
  | open
  | token
  /-- A signature of the body under a secret. -/
  | signature (secret : String)
  /-- A signature, but it is not said under which secret: every request is turned away. -/
  | misconfigured
  deriving Repr, DecidableEq, Inhabited

inductive Guard where
  | manual
  | webhook (methods : List String) (access : Access)
  | cron (schedule : String) (condition : Option String)
  deriving Repr, DecidableEq, Inhabited

/-- A response that turns a request away. -/
structure Refusal where
  code : String
  message : String
  status : Nat
  deriving Repr, DecidableEq, Inhabited

namespace Refusal

def noToken : Refusal := ⟨"UNAUTHORIZED", "Missing or malformed bearer token", 401⟩

def method : Refusal := ⟨"METHOD_NOT_ALLOWED", "Method not allowed", 405⟩

def noSecret : Refusal := ⟨"WEBHOOK_MISCONFIGURED", "Webhook signing secret is not configured", 500⟩

def badSignature : Refusal := ⟨"INVALID_SIGNATURE", "Missing or invalid webhook signature", 401⟩

def notFound : Refusal := ⟨"NOT_FOUND", "Not found", 404⟩

end Refusal

/-- The method and the path by which scheduled runs are started. -/
def cronMethod : String := "POST"

def cronPath : String := "/__cron"

def Access.ofStep (s : Step) : Access :=
  if s.wantsToken then .token
  else if s.wantsSignature then
    match s.signingSecret? with
    | some name => .signature name
    | none => .misconfigured
  else .open

def Guard.ofStep (kind : TriggerKind) (s : Step) : Outcome Guard :=
  match kind with
  | .manual => pure .manual
  | .webhook => do return .webhook (← s.methods) (Access.ofStep s)
  | .cron => pure (.cron s.schedule s.runCondition?)

end Workflow.Handler
