import FlagStack.Decimal.Layout
import FlagStack.Json.Value
import FlagStack.Text.Quoted

/-!
# Writing JSON

The compact form has no blanks at all.  The pretty form puts every item and
member on a line of its own, two spaces further in than the bracket, and leaves
an empty container as `[]` or `{}`.

In a string only the quote, the backslash and the control characters below the
space are escaped, with the short escapes where there is one.  Floating point
numbers are written with the fewest digits that read back, positionally from
`0.00001` up to but not including `1e+16`.
-/

namespace FlagStack
namespace Json

/-- Exponents of the leading digit at which a number is written positionally. -/
def floatLayout : Decimal.Layout :=
  ⟨-5, 15⟩

/-- A floating point number; one that is not finite has no JSON form. -/
def writeFloat (x : Binary64) : List Char :=
  if x.isFinite then
    (if x.negative then ['-'] else []) ++ x.shortest.write floatLayout
  else ['n', 'u', 'l', 'l']

def writeInteger (n : Int) : List Char :=
  (if n < 0 then ['-'] else []) ++ Nat.toDigits 10 n.natAbs

/-- One character inside a string. -/
def escapedChar (c : Char) : List Char :=
  if c = '"' ∨ c = '\\' then ['\\', c]
  else if c = '\n' then ['\\', 'n']
  else if c = '\r' then ['\\', 'r']
  else if c = '\t' then ['\\', 't']
  else if c = '\x08' then ['\\', 'b']
  else if c = '\x0c' then ['\\', 'f']
  else if c.toNat < 0x20 then
    let digits := Text.hexadecimal c.toNat
    ['\\', 'u'] ++ List.replicate (4 - digits.length) '0' ++ digits
  else [c]

def writeString (s : String) : List Char :=
  '"' :: s.toList.flatMap escapedChar ++ ['"']

def writeBool (b : Bool) : List Char :=
  if b then ['t', 'r', 'u', 'e'] else ['f', 'a', 'l', 's', 'e']

mutual

/-- The compact form. -/
def compactChars : Json → List Char
  | .null => ['n', 'u', 'l', 'l']
  | .bool b => writeBool b
  | .integer n => writeInteger n
  | .float x => writeFloat x
  | .string s => writeString s
  | .array [] => ['[', ']']
  | .array (v :: rest) => '[' :: compactChars v ++ compactItems rest
  | .object [] => ['\x7b', '\x7d']
  | .object ((key, v) :: rest) =>
      '\x7b' :: writeString key ++ ':' :: compactChars v ++ compactMembers rest

/-- Items after the first, and the closing bracket. -/
def compactItems : List Json → List Char
  | [] => [']']
  | v :: rest => ',' :: compactChars v ++ compactItems rest

/-- Members after the first, and the closing brace. -/
def compactMembers : List (String × Json) → List Char
  | [] => ['\x7d']
  | (key, v) :: rest =>
      ',' :: writeString key ++ ':' :: compactChars v ++ compactMembers rest

end

/-- A new line at the given depth. -/
def newline (depth : Nat) : List Char :=
  '\n' :: List.replicate (2 * depth) ' '

mutual

/-- The pretty form of a value whose first line stands at the given depth. -/
def prettyChars (depth : Nat) : Json → List Char
  | .null => ['n', 'u', 'l', 'l']
  | .bool b => writeBool b
  | .integer n => writeInteger n
  | .float x => writeFloat x
  | .string s => writeString s
  | .array [] => ['[', ']']
  | .array (v :: rest) =>
      '[' :: newline (depth + 1) ++ prettyChars (depth + 1) v ++ prettyItems depth rest
  | .object [] => ['\x7b', '\x7d']
  | .object ((key, v) :: rest) =>
      '\x7b' :: newline (depth + 1) ++ writeString key ++ ':' :: ' ' ::
        prettyChars (depth + 1) v ++ prettyMembers depth rest

/-- Items after the first, and the closing bracket at the given depth. -/
def prettyItems (depth : Nat) : List Json → List Char
  | [] => newline depth ++ [']']
  | v :: rest =>
      ',' :: newline (depth + 1) ++ prettyChars (depth + 1) v ++ prettyItems depth rest

/-- Members after the first, and the closing brace at the given depth. -/
def prettyMembers (depth : Nat) : List (String × Json) → List Char
  | [] => newline depth ++ ['\x7d']
  | (key, v) :: rest =>
      ',' :: newline (depth + 1) ++ writeString key ++ ':' :: ' ' ::
        prettyChars (depth + 1) v ++ prettyMembers depth rest

end

def compact (v : Json) : String :=
  String.ofList v.compactChars

def pretty (v : Json) : String :=
  String.ofList (v.prettyChars 0)

end Json
end FlagStack
