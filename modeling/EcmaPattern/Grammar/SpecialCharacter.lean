import EcmaPattern.Options

namespace EcmaPattern.Grammar

/-! # Characters with a meaning of their own -/

/-- The characters that stand for something else than themselves. Legacy mode reads a closing
bracket and both braces as themselves. -/
def specialCharacters : Mode → List Char
  | .unicode => ['^', '$', '\\', '.', '*', '+', '?', '(', ')', '[', ']', '{', '}', '|']
  | .legacy => ['^', '$', '\\', '.', '*', '+', '?', '(', ')', '[', '|']

/-- Whether the character `n` stands for something else than itself. -/
def isSpecial (mode : Mode) (n : Nat) : Bool :=
  (specialCharacters mode).any (·.toNat == n)

end EcmaPattern.Grammar
