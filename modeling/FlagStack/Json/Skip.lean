import FlagStack.Json.Reader

/-!
# Passing over values

A member that nobody asked for is passed over.  Its value is held to the
grammar only: numbers may have any size, escapes may spell lone surrogates, and
containers may be nested to any depth, so the open ones are kept in a list.

A comma before a closing bracket is reported as what is then missing: a value in
a list, a key in an object.
-/

namespace FlagStack
namespace Json

inductive Container where
  | list
  | object
deriving DecidableEq

namespace Container

def opening? (c : Char) : Option Container :=
  if c = '[' then some .list else if c = '\x7b' then some .object else none

def closing : Container → Char
  | .list => ']'
  | .object => '\x7d'

def unfinished : Container → Error
  | .list => .endInList
  | .object => .endInObject

def expectedComma : Container → Error
  | .list => .expectedCommaInList
  | .object => .expectedCommaInObject

/-- What stands before a value in the container: nothing, or a key and a colon. -/
def skipLabel : Container → List Char → Except Error (List Char)
  | .list, s => .ok s
  | .object, s =>
      match skipBlanks s with
      | [] => .error .endInObject
      | '"' :: rest => do
          let rest ← skipString rest
          let (_, rest) ← colon rest
          return rest
      | _ => .error .expectedKey

end Container

/-- A literal, string or number is passed over. -/
def skipScalar : List Char → Except Error (List Char)
  | [] => .error .endInValue
  | c :: rest =>
      if c = '"' then skipString rest
      else if c = '-' ∨ c.isDigit then do
        let (_, rest) ← Numeral.scan .invalidNumber (c :: rest)
        return rest
      else do
        let (_, rest) ← readScalar (c :: rest)
        return rest

/-- Behind a value inside of the open containers, the innermost first: closes
those that end here and passes the comma and label of the next value.  The
containers that are still open are given with the rest. -/
def skipBetween : List Container → List Char → Except Error (List Container × List Char)
  | [], s => .ok ([], s)
  | c :: outer, s =>
      match skipBlanks s with
      | [] => .error c.unfinished
      | d :: rest =>
          if d = ',' then do return (c :: outer, ← c.skipLabel rest)
          else if d = c.closing then skipBetween outer rest
          else .error c.expectedComma

/-- At a value inside of the open containers: passes over a scalar, or over the
bracket of a container, up to the next value.  No open container means that
there is none. -/
def skipStep (outer : List Container) (s : List Char) :
    Except Error (List Container × List Char) := do
  let s := skipBlanks s
  match s.head?.bind Container.opening? with
  | some c =>
      match skipBlanks s.tail with
      | [] => .error c.unfinished
      | d :: rest =>
          if d = c.closing then skipBetween outer rest
          else return (c :: outer, ← c.skipLabel (d :: rest))
  | none => skipBetween outer (← skipScalar s)

/-- At a value inside of the open containers: passes over all up to where none
is open any more.  `bound` is not less than the number of values. -/
def skipFrom : Nat → List Container → List Char → Except Error (List Char)
  | 0, _, _ => .error .endInValue
  | bound + 1, outer, s => do
      let (outer, rest) ← skipStep outer s
      if outer.isEmpty then return rest else skipFrom bound outer rest

/-- One value is passed over. -/
def skipValue (bound : Nat) : Reader Unit := fun s => do
  return ((), ← skipFrom bound [] s)

end Json
end FlagStack
