import FlagStack.Json.Numeral
import FlagStack.Json.Text

/-!
# Reading JSON from left to right

A reader takes the characters that are left and gives a value with the
characters behind it, or the first fault it meets.  Here are the readers for
what stands between values (blanks, commas, colons, brackets), for literals and
for scalars; the readers for whole values are built from them.
-/

namespace FlagStack
namespace Json

/-- A reader of values of type `α`. -/
abbrev Reader (α : Type) : Type :=
  StateT (List Char) (Except Error) α

/-- A blank between two tokens. -/
def isBlank (c : Char) : Bool :=
  c = ' ' || c = '\n' || c = '\t' || c = '\r'

def skipBlanks (s : List Char) : List Char :=
  s.dropWhile isBlank

/-- The letters of a literal behind its first one. -/
def literalRest (letters s : List Char) : Except Error (List Char) :=
  match letters, s with
  | [], s => .ok s
  | _ :: _, [] => .error .endInValue
  | l :: letters, c :: s =>
      if l = c then literalRest letters s else .error .expectedLiteral

/-- A literal, string or number at the head of a text. -/
def readScalar : Reader Json
  | [] => .error .endInValue
  | c :: rest =>
      if c = 'n' then do return (.null, ← literalRest ['u', 'l', 'l'] rest)
      else if c = 't' then do return (.bool true, ← literalRest ['r', 'u', 'e'] rest)
      else if c = 'f' then do
        return (.bool false, ← literalRest ['a', 'l', 's', 'e'] rest)
      else if c = '"' then do
        let (s, rest) ← readString rest
        return (.string s, rest)
      else if c = '-' ∨ c.isDigit then do
        let (n, rest) ← Numeral.scan .endInValue (c :: rest)
        return (← n.value, rest)
      else .error .expectedValue

/-- What a message says of a value that is found. -/
def found : Json → Found
  | .null => .null
  | .bool b => .bool b
  | .integer n => .integer n
  | .float x => .float x
  | .string s => .string s
  | .array _ => .sequence
  | .object _ => .map

/-- The fault of a text at whose head something else was expected.  A scalar is
read for the message, and its own faults come first; a container is not. -/
def mismatch (expected : String) (s : List Char) : Error :=
  match s with
  | '[' :: _ => .wrongType .sequence expected
  | '\x7b' :: _ => .wrongType .map expected
  | _ =>
      match readScalar s with
      | .ok (v, _) => .wrongType (found v) expected
      | .error e => e

/-- Whether another item of a list follows; the reader then stands before it,
and otherwise before the closing bracket. -/
def nextItem (first : Bool) : Reader Bool := fun s =>
  match skipBlanks s with
  | [] => .error .endInList
  | ']' :: rest => .ok (false, ']' :: rest)
  | c :: rest =>
      if first then .ok (true, c :: rest)
      else if c = ',' then
        match skipBlanks rest with
        | [] => .error .endInValue
        | ']' :: _ => .error .trailingComma
        | rest => .ok (true, rest)
      else .error .expectedCommaInList

/-- The bracket behind the last item that is read. -/
def closeList : Reader Unit := fun s =>
  match skipBlanks s with
  | [] => .error .endInList
  | ']' :: rest => .ok ((), rest)
  | ',' :: rest =>
      match skipBlanks rest with
      | ']' :: _ => .error .trailingComma
      | _ => .error .trailingCharacters
  | _ => .error .trailingCharacters

/-- The key of the next member of an object, if there is one; otherwise the
closing brace has been passed. -/
def nextKey (first : Bool) : Reader (Option String) := fun s =>
  match skipBlanks s with
  | [] => .error .endInObject
  | '\x7d' :: rest => .ok (none, rest)
  | c :: rest =>
      if first then
        if c = '"' then do
          let (key, rest) ← readString rest
          return (some key, rest)
        else .error .expectedKey
      else if c = ',' then
        match skipBlanks rest with
        | [] => .error .endInValue
        | '\x7d' :: _ => .error .trailingComma
        | '"' :: rest => do
            let (key, rest) ← readString rest
            return (some key, rest)
        | _ => .error .expectedKey
      else .error .expectedCommaInObject

/-- The colon behind a key. -/
def colon : Reader Unit := fun s =>
  match skipBlanks s with
  | [] => .error .endInObject
  | ':' :: rest => .ok ((), rest)
  | _ => .error .expectedColon

/-- The items of a list up to its closing bracket.  `bound` is not less than
their number. -/
def items {α : Type} (item : Reader α) : Nat → List α → Reader (List α)
  | 0, _ => throw .endInList
  | bound + 1, acc => do
      if ← nextItem acc.isEmpty then
        let a ← item
        items item bound (a :: acc)
      else
        closeList
        return acc.reverse

/-- The members of an object up to its closing brace, each handed to `member`,
which stands before the colon.  `bound` is not less than their number. -/
def members {σ : Type} (member : String → σ → Reader σ) : Nat → Bool → σ → Reader σ
  | 0, _, _ => throw .endInObject
  | bound + 1, first, state => do
      match ← nextKey first with
      | some key =>
          let state ← member key state
          members member bound false state
      | none => return state

/-- A container inside of which `room` further ones may be open. -/
def nested {α : Type} (room : Nat) (inside : Nat → Reader α) : Reader α :=
  match room with
  | 0 => throw .tooDeep
  | room + 1 => inside room

/-- Number of containers that may be open at once. -/
def greatestDepth : Nat := 127

/-- Reads a value by its first character: behind the bracket of a list, behind
the brace of an object, or as a scalar. -/
def byBracket {α : Type} (list object scalar : Reader α) : Reader α := fun s =>
  match skipBlanks s with
  | '[' :: rest => list rest
  | '\x7b' :: rest => object rest
  | rest => scalar rest

/-- Any value that is kept; objects get increasing keys, of two members under
one key the last stays. -/
def readValue (bound : Nat) : Nat → Reader Json
  | 0 => byBracket (throw .tooDeep) (throw .tooDeep) readScalar
  | room + 1 =>
      let item := readValue bound room
      let member := fun key l => do
        colon
        return insertEntry key (← item) l
      byBracket
        (.array <$> items item bound [])
        (.object <$> members member bound true [])
        readScalar

/-- Nothing but blanks is left. -/
def atEnd : Reader Unit := fun s =>
  match skipBlanks s with
  | [] => .ok ((), [])
  | _ => .error .trailingCharacters

/-- The value of a whole text, of which the reader is told the length. -/
def readAll {α : Type} (reader : Nat → Reader α) (text : String) : Except Error α := do
  let chars := text.toList
  let (a, rest) ← reader (chars.length + 1) chars
  let _ ← atEnd rest
  return a

/-- The JSON value that a text holds. -/
def parse (text : String) : Except Error Json :=
  readAll (fun bound => readValue bound greatestDepth) text

end Json
end FlagStack
