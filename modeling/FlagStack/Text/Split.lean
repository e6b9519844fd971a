/-!
# Splitting texts at separators

Pieces between separators; a text without a separator is one piece, and a
separator at an end leaves an empty piece there.
-/

namespace FlagStack
namespace Text

/-- The pieces of a text, split at the first `count` separators at most. -/
def splitFirst (separator : Char) : Nat → List Char → List (List Char)
  | 0, s => [s]
  | count + 1, s =>
      let piece := s.takeWhile (· ≠ separator)
      match s.dropWhile (· ≠ separator) with
      | [] => [piece]
      | _ :: rest => piece :: splitFirst separator count rest

/-- The pieces of a text, split at every separator. -/
def split (separator : Char) (s : List Char) : List (List Char) :=
  splitFirst separator s.length s

/-- What stands behind the last separator. -/
def lastPiece (isSeparator : Char → Bool) (s : List Char) : List Char :=
  (s.reverse.takeWhile fun c => !isSeparator c).reverse

end Text
end FlagStack
