import EcmaPattern.Evidence
import EcmaPattern.Text.Cursor

namespace EcmaPattern

/-! # Recognizers

A recognizer reads a part of a pattern: it tells what it found and moves the state on. Unlike a
reader it may leave a trace where it fails, in the evidence or in the log.
-/

/-- What a recognizer found. -/
inductive Outcome
  | noMatch
  /-- A match that stands for no single character. -/
  | matched
  /-- A match of one character. -/
  | codePoint (value : Nat)
  /-- A match of a name. -/
  | name (text : String)
  deriving DecidableEq, Repr

namespace Outcome

/-- Whether something was found. -/
def isMatch : Outcome → Bool
  | .noMatch => false
  | _ => true

theorem isMatch_eq_false_iff {o : Outcome} : o.isMatch = false ↔ o = .noMatch := by
  cases o <;> simp [isMatch]

/-- The character found, if it is a single one. -/
def codePoint? : Outcome → Option Nat
  | .codePoint value => some value
  | _ => none

end Outcome

/-- How far a pattern has been read, what was found on the way and what was noted. -/
structure State extends Cursor, Evidence where
  log : List Diagnostic := []
  deriving DecidableEq, Repr

namespace State

/-- The state before the first character of `text`. -/
def start (text : List CodeUnit) : State := { Cursor.start text with }

/-- Adds to the log. -/
def note (d : Diagnostic) (s : State) : State := { s with log := s.log ++ [d] }

/-- Adds a number that may be a reference. -/
def addCandidate (number : Nat) (s : State) : State :=
  { s with candidates := s.candidates ++ [number] }

/-- Adds a `\k` reference. -/
def addReference (reference : Reference) (s : State) : State :=
  { s with references := s.references ++ [reference] }

/-- Adds the name of a group, unless there is a group of that name. -/
def addName? (name : String) (s : State) : Option State :=
  if name ∈ s.names then none else some { s with names := s.names ++ [name] }

/-- Adds capturing groups. -/
def addGroups (count : Nat) (s : State) : State := { s with groups := s.groups + count }

/-- Takes back what happened since `before`. The log keeps what was noted. -/
def undo (s : State) (rollback : Rollback) (before : State) : State :=
  match rollback with
  -- names and references stay, so a reading that fails leaves them behind
  | .numbers =>
    { s with rest := before.rest, groups := before.groups, candidates := before.candidates }
  | .everything => { s with rest := before.rest, toEvidence := before.toEvidence }

end State

/-- Reads a part of a pattern. -/
abbrev Recognizer := State → Outcome × State

namespace Recognizer

variable {α : Type}

/-! ## From readers -/

/-- Reads with `r`, then goes on with `p`; where `r` fails, nothing happens. -/
def reading (r : Reader α) (p : α → Recognizer) : Recognizer := fun s =>
  match r.run s.rest with
  | some (a, rest) => p a { s with rest }
  | none => (.noMatch, s)

/-- Finds what `r` reads. -/
def ofReader (r : Reader Outcome) : Recognizer := reading r fun o s => (o, s)

/-- Finds the character that `r` reads. -/
def character (r : Reader Nat) : Recognizer := ofReader (Outcome.codePoint <$> r)

/-- Finds whatever `r` reads, as no single character. -/
def plain (r : Reader α) : Recognizer := ofReader (r *> pure .matched)

/-! ## Combinations -/

/-- Runs `p` and takes back what it did if it fails. -/
def attempt (rollback : Rollback) (p : Recognizer) : Recognizer := fun s =>
  let found := p s
  if found.1.isMatch then found else (.noMatch, found.2.undo rollback s)

/-- The first of `ps` that matches. Nothing is taken back between them. -/
def anyOf : List Recognizer → Recognizer
  | [] => fun s => (.noMatch, s)
  | p :: ps => fun s =>
    let found := p s
    if found.1.isMatch then found else anyOf ps found.2

/-- Runs `p` and, if it matches, `q`; finds what `q` finds. -/
def followedBy (p q : Recognizer) : Recognizer := fun s =>
  let found := p s
  if found.1.isMatch then q found.2 else found

theorem attempt_of_match {rollback : Rollback} {p : Recognizer} {s : State}
    (h : (p s).1.isMatch = true) : attempt rollback p s = p s := by
  simp [attempt, h]

theorem attempt_of_noMatch {rollback : Rollback} {p : Recognizer} {s : State}
    (h : (p s).1.isMatch = false) :
    attempt rollback p s = (.noMatch, (p s).2.undo rollback s) := by
  simp [attempt, h]

/-- After a failed attempt the place is the one where it began. -/
theorem rest_attempt_of_noMatch {rollback : Rollback} {p : Recognizer} {s : State}
    (h : (p s).1.isMatch = false) : (attempt rollback p s).2.rest = s.rest := by
  rw [attempt_of_noMatch h]
  cases rollback <;> rfl

theorem anyOf_cons_of_match {p : Recognizer} {ps : List Recognizer} {s : State}
    (h : (p s).1.isMatch = true) : anyOf (p :: ps) s = p s := by
  simp [anyOf, h]

theorem anyOf_cons_of_noMatch {p : Recognizer} {ps : List Recognizer} {s : State}
    (h : (p s).1.isMatch = false) : anyOf (p :: ps) s = anyOf ps (p s).2 := by
  simp [anyOf, h]

/-! ## Nesting -/

/-- Fails because too many groups are open. -/
def limitReached (limit : Nat) : Recognizer := fun s =>
  (.noMatch, s.note (.nestingLimit limit s.position))

/-- Runs `p` one level deeper, where `room` levels are left. -/
def nested (limit : Nat) (p : Nat → Recognizer) : Nat → Recognizer
  | 0 => limitReached limit
  | room + 1 => p room

end Recognizer

end EcmaPattern
