import EcmaPattern.Grammar.AtomEscape
import EcmaPattern.Grammar.CharacterClass
import EcmaPattern.Grammar.Quantifier

namespace EcmaPattern.Grammar

open Reader Recognizer

/-! # Terms

A term is an assertion or an atom with its quantifier. Terms contain disjunctions and disjunctions
contain terms, so the recognizers here are given `body`, which reads what stands in parentheses,
closing one included.
-/

/-! ## Groups -/

/-- A group that one of `labels` opens after the parenthesis. -/
def labelledGroup (σ : Settings) (body : Recognizer) (labels : List (List Char)) : Recognizer :=
  attempt σ.rollback <| reading (word ['('] *> anyWord labels) fun _ => body

/-- Counts a capturing group that ends here, and keeps its name. A name that is taken is noted and
makes the group fail. -/
def closeGroup (name : Option String) : Recognizer := fun s =>
  match name with
  | none => (.matched, s.addGroups 1)
  | some name =>
    -- names are compared where groups end: a group in this one has its name already
    match s.addName? name with
    | some s => (.matched, s.addGroups 1)
    | none => (.noMatch, s.note (.duplicateGroupName s.position))

/-- A capturing group, which may have a name. -/
def capturingGroup (σ : Settings) (body : Recognizer) : Recognizer :=
  attempt σ.rollback <|
    reading (word ['('] *> optional (word ['?'] *> groupName σ.mode)) fun name =>
      body.followedBy (closeGroup name)

/-! ## Atoms -/

/-- A backslash and an escape. -/
def escapedAtom (σ : Settings) : Recognizer :=
  attempt σ.rollback <| reading (word ['\\']) fun _ => anyOf (atomEscapeForms σ)

/-- A backslash alone, before a `c` that starts no escape. -/
def bareBackslash : Recognizer := plain (word ['\\'] *> ahead (word ['c']))

/-- A character that stands for itself. -/
def patternCharacter (mode : Mode) : Reader Nat := codePointIf mode (!isSpecial mode ·)

/-- A character that stands for itself and does not open something that looks like a quantifier.
What looks like one is only looked at: the atom fails there, and `quantified`, which every atom is
in, goes back from wherever it fails. -/
def extendedCharacter : Reader Nat := notAhead bracedShape *> patternCharacter .legacy

/-- The forms of an atom, in the order in which they are tried. -/
def atomForms (σ : Settings) (body : Recognizer) : List Recognizer :=
  match σ.mode with
  | .unicode =>
    [character (patternCharacter .unicode), plain (word ['.']), escapedAtom σ, characterClass σ,
      labelledGroup σ body [['?', ':']], capturingGroup σ body]
  | .legacy =>
    [plain (word ['.']), escapedAtom σ, bareBackslash, characterClass σ,
      labelledGroup σ body [['?', ':']], capturingGroup σ body, character extendedCharacter]

/-- An atom. -/
def atom (σ : Settings) (body : Recognizer) : Recognizer := anyOf (atomForms σ body)

/-! ## Assertions and quantified atoms -/

/-- A look-ahead. -/
def lookahead (σ : Settings) (body : Recognizer) : Recognizer :=
  labelledGroup σ body [['?', '='], ['?', '!']]

/-- What opens a look-around that cannot be quantified. -/
def assertionLabels : Mode → List (List Char)
  | .unicode => [['?', '='], ['?', '!'], ['?', '<', '='], ['?', '<', '!']]
  | .legacy => [['?', '<', '='], ['?', '<', '!']]

/-- An assertion: an edge of the text, of a line or of a word, or a look-around. -/
def assertion (σ : Settings) (body : Recognizer) : Recognizer :=
  anyOf
    [plain (anyWord [['^'], ['$'], ['\\', 'b'], ['\\', 'B']]),
      labelledGroup σ body (assertionLabels σ.mode)]

/-- What `p` reads, and a quantifier if there is one. -/
def quantified (σ : Settings) (p : Recognizer) : Recognizer :=
  attempt σ.rollback (p.followedBy (plain (quantifier σ.mode)))

/-- The forms of a term, in the order in which they are tried. Legacy mode lets a look-ahead be
quantified. -/
def termForms (σ : Settings) (body : Recognizer) : List Recognizer :=
  match σ.mode with
  | .unicode => [assertion σ body, quantified σ (atom σ body)]
  | .legacy => [quantified σ (lookahead σ body), assertion σ body, quantified σ (atom σ body)]

/-- A term. -/
def term (σ : Settings) (body : Recognizer) : Recognizer := anyOf (termForms σ body)

end EcmaPattern.Grammar
