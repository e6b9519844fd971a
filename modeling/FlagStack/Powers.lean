/-!
# Powers

The powers of the two bases that numbers are written in, each under a name of
its own.
-/

namespace FlagStack

/-- Two to the power `n`. -/
def twoPow (n : Nat) : Nat :=
  Nat.pow 2 n

/-- Ten to the power `n`. -/
def tenPow (n : Nat) : Nat :=
  Nat.pow 10 n

end FlagStack
