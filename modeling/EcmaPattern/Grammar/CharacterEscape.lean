import EcmaPattern.Grammar.SpecialCharacter
import EcmaPattern.Text.Numeral
import EcmaPattern.Text.Reader

namespace EcmaPattern.Grammar

open Reader

/-! # Escapes for one character

Each reader starts after the backslash and finds the code point that the escape stands for.
-/

/-- Letters that stand for control characters. -/
def controlEscape : Reader Nat :=
  firstOf [wordAs ['f'] 0x0C, wordAs ['n'] 0x0A, wordAs ['r'] 0x0D, wordAs ['t'] 0x09,
    wordAs ['v'] 0x0B]

/-- A `c` and a letter; the letter counts modulo 32. -/
def controlLetterEscape : Reader Nat := do
  word ['c']
  let letter ← ascii Char.isAlpha
  return letter.toNat % 32

/-- A zero that no other digit follows. -/
def nullEscape : Reader Nat := do
  word ['0']
  notAhead (ascii Char.isDigit)
  return 0

/-! ## Hexadecimal escapes -/

/-- The value of `n` hexadecimal digits. -/
def hexDigits (n : Nat) : Reader Nat :=
  Numeral.value 16 <$> exactly n (ascii Numeral.isHexDigit)

/-- An `x` and two hexadecimal digits. -/
def hexEscape : Reader Nat := word ['x'] *> hexDigits 2

/-- A `u` and four hexadecimal digits, which stand for one code unit. -/
def unitEscape : Reader Nat := word ['u'] *> hexDigits 4

/-- A `u`, a brace and the hexadecimal digits after it, with their count. -/
def bracedDigits : Reader (List Char × Int32) :=
  word ['u', '{'] *> countedRun Numeral.isHexDigit

/-- A `u` and any number of hexadecimal digits in braces, at most 10FFFF. The digits must not count
as none: as long as there are less than `2 ^ 32`, there must be one. -/
def bracedEscape : Reader Nat := do
  let (digits, count) ← bracedDigits
  word ['}']
  let n := Numeral.saturated 16 0xFFFFFFFF digits
  guard (count ≠ 0 ∧ n ≤ 0x10FFFF)
  return n

/-- The escape of a trail surrogate, backslash included, which `lead` joins. -/
def trailEscape (lead : Nat) : Reader Nat := do
  word ['\\']
  let trail ← unitEscape
  guard (Surrogate.isTrail trail)
  return Surrogate.combine lead trail

/-- An escape that starts with `u`. In Unicode mode two escapes of surrogates that form a pair stand
for one code point. -/
def unicodeEscape : Mode → Reader Nat
  | .legacy => unitEscape
  | .unicode => bracedEscape <|> do
    let n ← unitEscape
    if Surrogate.isLead n then
      trailEscape n <|> pure n
    else
      return n

/-! ## Octal and identity escapes -/

/-- Up to three octal digits, or two if the first is above three. -/
def octalEscape : Reader Nat := do
  let first ← ascii Numeral.isOctalDigit
  -- the value stays below 256
  let more ← upTo (if first ≤ '3' then 2 else 1) (ascii Numeral.isOctalDigit)
  return Numeral.value 8 (first :: more)

/-- Whether a backslash lets the character stand for itself: in Unicode mode a special character or
a slash, in legacy mode all but `c` and `k`, which have meanings of their own. -/
def isIdentity (mode : Mode) (n : Nat) : Bool :=
  match mode with
  | .unicode => isSpecial .unicode n || n == '/'.toNat
  | .legacy => n != 'c'.toNat && n != 'k'.toNat

/-- A character that stands for itself. -/
def identityEscape (mode : Mode) : Reader Nat := codePointIf mode (isIdentity mode)

/-! ## All forms -/

/-- The forms of an escape for one character, in the order in which they are tried. -/
def characterEscapeForms (mode : Mode) : List (Reader Nat) :=
  match mode with
  | .unicode =>
    [controlEscape, controlLetterEscape, nullEscape, hexEscape, unicodeEscape .unicode,
      identityEscape .unicode]
  | .legacy =>
    [controlEscape, controlLetterEscape, nullEscape, hexEscape, unicodeEscape .legacy, octalEscape,
      identityEscape .legacy]

/-- An escape for one character. -/
def characterEscape (mode : Mode) : Reader Nat := firstOf (characterEscapeForms mode)

end EcmaPattern.Grammar
