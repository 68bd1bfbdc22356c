/-!
# Slices with ends counted from either side

A negative end counts from the end of the text; an end beyond the text is brought back to it.
-/

namespace ParserAlgebra

/-- The place that `i` names in a text of `n` characters. -/
def clampIndex (n : Nat) (i : Int) : Nat :=
  if i < 0 then (i + n).toNat else min i.toNat n

/-- The part of `s` from `start` up to `stop`. -/
def slice (s : List α) (start stop : Int) : List α :=
  let a := clampIndex s.length start
  (s.drop a).take (clampIndex s.length stop - a)

@[simp] theorem clampIndex_natCast (n k : Nat) : clampIndex n (k : Int) = min k n := by
  simp [clampIndex, Int.not_lt.2 (Int.natCast_nonneg k)]

end ParserAlgebra
