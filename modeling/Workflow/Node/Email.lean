/-
Nodes that send a message through a mail service.
-/
import Workflow.Execution.Response
import Workflow.Node.Exchange
import Workflow.Text.Blank

namespace Workflow.Node

def emailKind : String := "send-email"

/-- The address of the mail service. -/
def emailService : String := "https://api.resend.com/emails"

/-- The JSON of a response's body; nothing when it is blank. -/
def bodyJson (body : String) : Attempt Value :=
  let text := Text.trim body
  if text.isEmpty then .ok .none
  else
    match Json.read text with
    | .ok v => .ok v
    | .error failure => .error (Response.jsonError (.unreadable text failure))

/-- A field of an answer, if it is a record. -/
def answerField (answer : Value) (name : String) : Value :=
  match answer with
  | .dict entries => (Value.field? name entries).getD .none
  | _ => .none

/-- What a node makes of the reply. -/
def emailResult (sender recipient : Value) : Reply → Attempt Value
  | .timedOut => .error (.ofNode emailKind "Resend API request timed out" (some .timeout))
  | .failed message =>
    .error (.ofNode emailKind ("Resend API request failed: " ++ message) (some .client))
  | .response status _ body _ =>
    let code := (Value.int status).display
    match bodyJson body with
    | .error e =>
      .error (.ofNode emailKind
        ("Resend API returned a non-JSON response (status " ++ code ++ ")") (some e.kind))
    | .ok answer =>
      if status ≥ 400 then
        let message := answerField answer "message"
        .error (.ofNode emailKind ("Resend API error " ++ code ++ ": " ++
          (if message.truthy then message.display else "request rejected")) none)
      else
        .ok (Value.ofFields [("success", .bool true), ("id", answerField answer "id"),
          ("message", .str ("Email " ++ sender.display ++ " sent to " ++ recipient.display))])

/-- The exchange of a node. -/
def email (props secrets : Value) : Attempt Exchange := do
  let key ← requireSecret secrets "apiKey" emailKind
  let sender ← get props "fromEmail"
  let recipient ← get props "toEmail"
  let subject ← get props "subject"
  let body ← get props "body"
  return {
    request := {
      method := "POST"
      url := .str emailService
      headers := [("Authorization", "Bearer " ++ key.display)]
      content := .json (Value.ofFields [("from", sender), ("to", .list [recipient]),
        ("subject", subject), ("html", body)])
      timeout := .int 30 }
    conclude := emailResult sender recipient }

end Workflow.Node
