import RadixGates.Handler.Attempt
import RadixGates.Lib.Sha256

/-!
# The routing key of a request

`gateway-go/handler/chat.go`, and the loop of `ServeHTTP` that looks for the
system prompt.
-/

set_option autoImplicit false

namespace RadixGates.Handler

/-- The content of a message: its text, and the string it decodes to if it is
one. -/
structure Content where
  raw : String
  decoded : Option String
  deriving DecidableEq, Repr

structure Message where
  role : String
  content : Content
  deriving DecidableEq, Repr

def messageContentForRouting (content : Content) : String := content.decoded.getD content.raw

/-- The content of the first system message. -/
def systemContent : List Message → String
  | [] => ""
  | m :: rest =>
      if m.role = "system" then messageContentForRouting m.content else systemContent rest

@[irreducible]
def computePrefixHash (systemContent : String) : String :=
  let input := if systemContent = "" then "__no_system__" else systemContent
  Sha256.hex (Sha256.sum256 (bytesOf input))

example : computePrefixHash "" =
    "7c272513594830ea72e0ae16a8291c1e660506204a9c209370f5112b431a454e" := by
  decide +kernel

end RadixGates.Handler
