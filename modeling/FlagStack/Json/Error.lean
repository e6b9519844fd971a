import FlagStack.Json.Printer

/-!
# Why a JSON document is refused

Each constructor is one cause.  A cause belongs to one of three categories: the
text breaks off, the text is no JSON, or the JSON is not what was asked for.
-/

namespace FlagStack
namespace Json

/-- What stands where something else was expected. -/
inductive Found where
  | null
  | bool (b : Bool)
  | integer (n : Int)
  | float (x : Binary64)
  | string (s : String)
  | sequence
  | map
  | unitVariant
deriving DecidableEq

inductive Error where
  | endInValue
  | endInString
  | endInList
  | endInObject
  | expectedValue
  | expectedLiteral
  | expectedColon
  | expectedCommaInList
  | expectedCommaInObject
  | expectedKey
  | trailingComma
  | trailingCharacters
  | invalidNumber
  | numberOutOfRange
  | invalidEscape
  | loneSurrogate
  | unfinishedSurrogate
  | controlCharacter
  | tooDeep
  | wrongType (found : Found) (expected : String)
  | wrongRange (n : Int) (expected : String)
  | wrongLength (length : Nat) (name : String) (fields : Nat)
  | missingField (name : String)
  | duplicateField (name : String)
  | unknownVariant (name : String) (known : List String)
  | refused (reason : String)
deriving DecidableEq

inductive Category where
  | syntactic
  | data
  | truncated
deriving DecidableEq

namespace Found

def describe : Found → String
  | .null => "null"
  | .bool b => s!"boolean `{b}`"
  | .integer n => s!"integer `{n}`"
  | .float x => "floating point `" ++ String.ofList (writeFloat x) ++ "`"
  | .string s => "string " ++ Text.quoted s
  | .sequence => "sequence"
  | .map => "map"
  | .unitVariant => "unit variant"

end Found

/-- The known names of a choice, as a message lists them. -/
def alternatives : List String → String
  | [] => "there are no variants"
  | [a] => s!"expected `{a}`"
  | [a, b] => s!"expected `{a}` or `{b}`"
  | names => "expected one of " ++ ", ".intercalate (names.map fun n => s!"`{n}`")

namespace Error

def category : Error → Category
  | .endInValue | .endInString | .endInList | .endInObject => .truncated
  | .wrongType .. | .wrongRange .. | .wrongLength .. | .missingField .. |
    .duplicateField .. | .unknownVariant .. | .refused .. => .data
  | _ => .syntactic

def message : Error → String
  | .endInValue => "EOF while parsing a value"
  | .endInString => "EOF while parsing a string"
  | .endInList => "EOF while parsing a list"
  | .endInObject => "EOF while parsing an object"
  | .expectedValue => "expected value"
  | .expectedLiteral => "expected ident"
  | .expectedColon => "expected `:`"
  | .expectedCommaInList => "expected `,` or `]`"
  | .expectedCommaInObject => "expected `,` or `\x7d`"
  | .expectedKey => "key must be a string"
  | .trailingComma => "trailing comma"
  | .trailingCharacters => "trailing characters"
  | .invalidNumber => "invalid number"
  | .numberOutOfRange => "number out of range"
  | .invalidEscape => "invalid escape"
  | .loneSurrogate => "lone leading surrogate in hex escape"
  | .unfinishedSurrogate => "unexpected end of hex escape"
  | .controlCharacter =>
      "control character (\\u0000-\\u001F) found while parsing a string"
  | .tooDeep => "recursion limit exceeded"
  | .wrongType found expected => s!"invalid type: {found.describe}, expected {expected}"
  | .wrongRange n expected => s!"invalid value: integer `{n}`, expected {expected}"
  | .wrongLength length name fields =>
      let plural := if fields = 1 then "" else "s"
      s!"invalid length {length}, expected struct {name} with {fields} element{plural}"
  | .missingField name => s!"missing field `{name}`"
  | .duplicateField name => s!"duplicate field `{name}`"
  | .unknownVariant name known =>
      s!"unknown variant `{name}`, " ++ alternatives known
  | .refused reason => reason

end Error
end Json
end FlagStack
