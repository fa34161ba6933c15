import EcmaPattern.CodePoint.Scalar
import EcmaPattern.Grammar.CharacterEscape
import EcmaPattern.Identifier

namespace EcmaPattern.Grammar

open Reader

/-! # Names of groups -/

/-- One character of a name that `p` holds of, written as itself or as an escape. -/
def nameCharacter (mode : Mode) (p : Nat → Bool) : Reader Char := do
  let n ← if ← isAt ['\\'] then word ['\\'] *> unicodeEscape mode else codePoint mode
  guard (p n)
  CodePoint.toChar? n

/-- A name in angle brackets. -/
def groupName (mode : Mode) : Reader String := do
  word ['<']
  let first ← nameCharacter mode Identifier.startsName
  let more ← many (nameCharacter mode Identifier.continuesName)
  word ['>']
  return String.ofList (first :: more)

end EcmaPattern.Grammar
