import EcmaPattern.CodePoint.IdentifierPart
import EcmaPattern.CodePoint.IdentifierStart

namespace EcmaPattern.Identifier

/-! # Characters of identifiers

The properties `ID_Start` and `ID_Continue`, and the characters that ECMAScript admits besides them
in the name of a group.
-/

/-- Whether `n` is an ASCII letter. -/
def isAsciiLetter (n : Nat) : Bool :=
  (0x41 ≤ n && n ≤ 0x5A) || (0x61 ≤ n && n ≤ 0x7A)

/-- Whether `n` is an ASCII digit. -/
def isAsciiDigit (n : Nat) : Bool := 0x30 ≤ n && n ≤ 0x39

/-- The property `ID_Start`. Below 80 only letters have it. -/
def isStart (n : Nat) : Bool :=
  if n < 0x80 then isAsciiLetter n else CodePoint.identifierStart.contains n

/-- The property `ID_Continue`. Below 80 letters, digits and the low line have it. -/
def isPart (n : Nat) : Bool :=
  if n < 0x80 then
    isAsciiLetter n || isAsciiDigit n || n == '_'.toNat
  else
    CodePoint.identifierStart.contains n || CodePoint.identifierContinuation.contains n

/-! ## Names of groups -/

/-- The zero width non-joiner. -/
def zeroWidthNonJoiner : Nat := 0x200C

/-- The zero width joiner. -/
def zeroWidthJoiner : Nat := 0x200D

/-- Whether the name of a group may start with `n`. -/
def startsName (n : Nat) : Bool :=
  n == '$'.toNat || n == '_'.toNat || isStart n

/-- Whether the name of a group may go on with `n`. -/
def continuesName (n : Nat) : Bool :=
  n == '$'.toNat || n == zeroWidthNonJoiner || n == zeroWidthJoiner || isPart n

end EcmaPattern.Identifier
