import EcmaPattern.Grammar.GroupName
import EcmaPattern.Grammar.SetEscape

namespace EcmaPattern.Grammar

open Reader Recognizer

/-! # Escapes outside classes

Each recognizer starts after the backslash.
-/

/-- The largest number that a numbered reference is taken to be. -/
def largestReference : Nat := 0xFFFFFFFF

/-- A zero, whatever follows, or a number. Whether the number is a reference or an octal escape
shows only when all groups are counted, so it is kept as a candidate. -/
def decimalEscape : Recognizer :=
  anyOf
    [character (wordAs ['0'] 0),
      reading digits fun number s =>
        (.matched, s.addCandidate (Numeral.saturated 10 largestReference number))]

/-- The reference that follows a backslash: `k` and a name. Legacy mode admits a `k` alone, as a
reference that refers to nothing. -/
def referenceAfter (mode : Mode) : Reader Reference := do
  word ['k']
  (Reference.named <$> groupName mode) <|> do
    guard (mode = .legacy)
    return .malformed

/-- A reference by name. -/
def namedReference (mode : Mode) : Recognizer := reading (referenceAfter mode) fun reference s =>
  (.matched, s.addReference reference)

/-- The forms of an escape outside classes, in the order in which they are tried. -/
def atomEscapeForms (σ : Settings) : List Recognizer :=
  [decimalEscape, setEscape σ, character (characterEscape σ.mode), namedReference σ.mode]

end EcmaPattern.Grammar
