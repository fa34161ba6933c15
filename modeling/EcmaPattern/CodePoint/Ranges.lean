namespace EcmaPattern.CodePoint

/-! # Sets of code points -/

/-- Inclusive ranges of code points, in rising order. -/
abbrev Ranges := List (Nat × Nat)

/-- Whether `n` lies in one of the ranges. -/
def Ranges.contains (ranges : Ranges) (n : Nat) : Bool :=
  ranges.any fun (first, last) => first ≤ n && n ≤ last

end EcmaPattern.CodePoint
