import FlagStack.Json.Error

/-!
# Strings of a JSON text

What stands between the quotes of a string, read up to and including the
closing quote.  Where the string is kept, two escapes that stand for a pair of
surrogates make one character and a surrogate on its own is refused; where the
string is only passed over, surrogates are not looked at.
-/

namespace FlagStack
namespace Json

/-- Number of bytes of a text in UTF-8. -/
def byteCount (s : List Char) : Nat :=
  s.foldl (fun n c => n + c.utf8Size) 0

/-- Value of a hexadecimal digit. -/
def hexDigit? (c : Char) : Option Nat :=
  if '0' ≤ c ∧ c ≤ '9' then some (c.toNat - '0'.toNat)
  else if 'a' ≤ c ∧ c ≤ 'f' then some (c.toNat - 'a'.toNat + 10)
  else if 'A' ≤ c ∧ c ≤ 'F' then some (c.toNat - 'A'.toNat + 10)
  else none

/-- The 16-bit unit that four characters spell. -/
def unit? (a b c d : Char) : Option Nat := do
  return (← hexDigit? a) * 0x1000 + (← hexDigit? b) * 0x100 + (← hexDigit? c) * 0x10 +
    (← hexDigit? d)

/-- Fault of a unit for which there are not four characters left: the text
breaks off only if there are not four bytes left either. -/
def shortUnit (s : List Char) : Error :=
  if byteCount s < 4 then .endInString else .invalidEscape

def isLeading (unit : Nat) : Bool :=
  0xD800 ≤ unit && unit ≤ 0xDBFF

def isTrailing (unit : Nat) : Bool :=
  0xDC00 ≤ unit && unit ≤ 0xDFFF

/-- The character of a pair of surrogates. -/
def paired (leading trailing : Nat) : Char :=
  Char.ofNat (0x10000 + (leading - 0xD800) * 0x400 + (trailing - 0xDC00))

/-- The character of an escape of one letter. -/
def shortEscape? (c : Char) : Option Char :=
  if c = '"' ∨ c = '\\' ∨ c = '/' then some c
  else if c = 'b' then some '\x08'
  else if c = 'f' then some '\x0c'
  else if c = 'n' then some '\n'
  else if c = 'r' then some '\r'
  else if c = 't' then some '\t'
  else none

/-- The rest of a string, `acc` holding the characters so far, the last first. -/
def stringFrom (kept : Bool) (acc : List Char) :
    List Char → Except Error (List Char × List Char)
  | [] => .error .endInString
  | '"' :: rest => .ok (acc.reverse, rest)
  | ['\\'] => .error .endInString
  | '\\' :: 'u' :: a :: b :: c :: d :: rest =>
      match unit? a b c d with
      | none => .error .invalidEscape
      | some unit =>
          if kept && isTrailing unit then .error .loneSurrogate
          else if kept && isLeading unit then
            match rest with
            | [] => .error .endInString
            | ['\\'] => .error .endInString
            | '\\' :: 'u' :: e :: f :: g :: h :: rest =>
                match unit? e f g h with
                | none => .error .invalidEscape
                | some second =>
                    if isTrailing second then
                      stringFrom kept (paired unit second :: acc) rest
                    else .error .loneSurrogate
            | '\\' :: 'u' :: short => .error (shortUnit short)
            | _ => .error .unfinishedSurrogate
          else stringFrom kept (Char.ofNat unit :: acc) rest
  | '\\' :: 'u' :: short => .error (shortUnit short)
  | '\\' :: c :: rest =>
      match shortEscape? c with
      | some d => stringFrom kept (d :: acc) rest
      | none => .error .invalidEscape
  | c :: rest =>
      if c.toNat < 0x20 then .error .controlCharacter
      else stringFrom kept (c :: acc) rest

/-- The string behind an opening quote, kept. -/
def readString (s : List Char) : Except Error (String × List Char) := do
  let (content, rest) ← stringFrom true [] s
  return (String.ofList content, rest)

/-- What is left behind a string whose opening quote has been passed. -/
def skipString (s : List Char) : Except Error (List Char) := do
  let (_, rest) ← stringFrom false [] s
  return rest

end Json
end FlagStack
