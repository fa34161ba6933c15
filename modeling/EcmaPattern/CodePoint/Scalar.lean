namespace EcmaPattern.CodePoint

/-! # Code points as characters -/

/-- The character with the code point `n`; surrogates and numbers above 10FFFF have none. -/
def toChar? (n : Nat) : Option Char :=
  if n.isValidChar then some (Char.ofNat n) else none

end EcmaPattern.CodePoint
