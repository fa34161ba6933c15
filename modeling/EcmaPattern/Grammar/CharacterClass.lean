import EcmaPattern.Grammar.CharacterEscape
import EcmaPattern.Grammar.SetEscape

namespace EcmaPattern.Grammar

open Reader Recognizer

/-! # Character classes -/

/-! ## Class atoms -/

/-- A `c` followed by a digit or a low line, which counts modulo 32. -/
def classControlEscape : Reader Nat := do
  word ['c']
  let c ← ascii fun c => c.isDigit || c == '_'
  return c.toNat % 32

/-- The forms of an escape in a class, in the order in which they are tried. -/
def classEscapeForms (σ : Settings) : List Recognizer :=
  match σ.mode with
  | .unicode =>
    [character (wordAs ['b'] 0x08), character (wordAs ['-'] '-'.toNat), setEscape σ,
      character (characterEscape .unicode)]
  | .legacy =>
    [character (wordAs ['b'] 0x08), character classControlEscape, setEscape σ,
      character (characterEscape .legacy), character (wordAs ['k'] 'k'.toNat)]

/-- A backslash that stands for itself: in legacy mode before a `c` that starts no escape. -/
def classBackslash (mode : Mode) : Reader Nat := do
  guard (mode = .legacy)
  ahead (word ['c'])
  return '\\'.toNat

/-- Whether the character stands for itself in a class, wherever it is. -/
def isClassCharacter (n : Nat) : Bool :=
  n != ']'.toNat && n != '-'.toNat && n != '\\'.toNat

/-- A class atom other than a plain dash. -/
def classAtomNoDash (σ : Settings) : Recognizer :=
  anyOf
    [character (codePointIf σ.mode isClassCharacter),
      attempt σ.rollback <| reading (word ['\\']) fun _ =>
        anyOf (classEscapeForms σ ++ [character (classBackslash σ.mode)])]

/-- A class atom. -/
def classAtom (σ : Settings) : Recognizer :=
  anyOf [character (wordAs ['-'] '-'.toNat), classAtomNoDash σ]

/-! ## Ranges -/

/-- Whether two class atoms may be the ends of a range. Where one of them is a set there is nothing
to compare; legacy mode then admits the dash as a character. -/
def isRange (mode : Mode) (low high : Outcome) : Bool :=
  match low.codePoint?, high.codePoint? with
  | some low, some high => low ≤ high
  | _, _ => mode = .legacy

/-- Class atoms and ranges up to the closing bracket, after the atom `low`. A dash before the
bracket is a character, and so is one after a range. Each round takes at least one unit, so there
are no more rounds than elements in `bound`. -/
def classRangesFrom (σ : Settings) (bound : List CodeUnit) (low : Outcome) : Recognizer := fun s =>
  match bound with
  | [] => (.noMatch, s)
  | _ :: bound =>
    if !low.isMatch then
      (.noMatch, s)
    else if s.isAt [']'] then
      (.matched, s)
    else
      match (word ['-']).run s.rest with
      | none =>
        let next := classAtomNoDash σ s
        classRangesFrom σ bound next.1 next.2
      | some (_, rest) =>
        let s := { s with rest }
        -- a dash before the bracket
        if s.isAt [']'] then
          (.matched, s)
        else
          let high := classAtom σ s
          let s := high.2
          if !high.1.isMatch || !isRange σ.mode low high.1 then
            (.noMatch, s)
          else if s.isAt [']'] then
            (.matched, s)
          else
            -- the range is complete, so a dash may come next as a character
            let next := classAtom σ s
            classRangesFrom σ bound next.1 next.2

/-- One or more class atoms and ranges up to the closing bracket. -/
def classRanges (σ : Settings) : Recognizer := fun s =>
  let low := classAtom σ s
  classRangesFrom σ s.rest low.1 low.2

/-- A class in brackets. -/
def characterClass (σ : Settings) : Recognizer :=
  attempt σ.rollback <| reading (word ['['] *> optional (word ['^'])) fun _ =>
    anyOf [plain (word [']']), (classRanges σ).followedBy (plain (word [']']))]

end EcmaPattern.Grammar
