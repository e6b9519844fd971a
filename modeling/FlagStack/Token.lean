import FlagStack.Json.Value

/-!
# Tokens

A value in a template is known when the template is written, or only once the
stack is deployed.  In the second case it is an attribute of a resource of the
same template.
-/

namespace FlagStack

inductive Token where
  | literal (s : String)
  | attribute (logicalId name : String)
deriving DecidableEq

namespace Token

/-- The resource name of a resource of the same template. -/
def arnOf (logicalId : String) : Token :=
  .attribute logicalId "Arn"

/-- The value, where it is known. -/
def literal? : Token → Option String
  | .literal s => some s
  | .attribute .. => none

/-- The value is known after deployment only. -/
def isUnresolved : Token → Bool
  | .literal _ => false
  | .attribute .. => true

/-- The form for people. -/
def label : Token → String
  | .literal s => s
  | .attribute logicalId name => "$\x7bToken[" ++ logicalId ++ "." ++ name ++ "]\x7d"

/-- The form in a template. -/
def json : Token → Json
  | .literal s => .string s
  | .attribute logicalId name =>
      .object [("Fn::GetAtt", .array [.string logicalId, .string name])]

end Token
end FlagStack
