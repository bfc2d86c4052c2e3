/-
Signatures of request bodies.
-/
import Workflow.Digest.Sha256
import Workflow.Text.Blank
import Workflow.Text.Case
import Workflow.Text.Utf8

namespace Workflow

/-- The signature of a body under a secret, in hexadecimal digits. -/
def signatureOf (secret : String) (body : List UInt8) : String :=
  Digest.hexText (Digest.hmacSha256 (Text.encodeUtf8 secret) body)

/-- A signature as given, without blanks at its ends and the name of its method. -/
def bareSignature (given : String) : String :=
  let given := Text.trim given
  if (Text.toLower given).startsWith "sha256=" then String.ofList (given.toList.drop 7) else given

/-- Whether a given signature is that of the body under the secret, up to the case of letters. -/
def verifySignature (secret : String) (body : List UInt8) (given : Option String) : Bool :=
  match given with
  | none => false
  | some given =>
    !given.isEmpty && Text.toLower (bareSignature given) = signatureOf secret body

end Workflow
