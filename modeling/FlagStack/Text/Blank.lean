/-!
# Blank characters

The characters with the property `White_Space`, and the texts that hold
nothing else.
-/

namespace FlagStack
namespace Text

/-- The property `White_Space`. -/
def isBlank (c : Char) : Bool :=
  let n := c.toNat
  (0x9 ≤ n && n ≤ 0xD) || n == 0x20 || n == 0x85 || n == 0xA0 || n == 0x1680 ||
    (0x2000 ≤ n && n ≤ 0x200A) || n == 0x2028 || n == 0x2029 || n == 0x202F ||
    n == 0x205F || n == 0x3000

/-- A text of blanks only, the empty one included. -/
def allBlank (s : String) : Bool :=
  s.toList.all isBlank

end Text
end FlagStack
