import EcmaPattern.Grammar.Term

namespace EcmaPattern.Grammar

open Reader Recognizer

/-! # Disjunctions

A disjunction is a list of alternatives with bars between them, up to a closing word or, where there
is none, to the end of the text.
-/

/-- Takes the closing word, if there is to be one. -/
def closing : Option (List Char) → Reader Unit
  | none => pure ()
  | some w => word w

/-- Whether an alternative ends here: at a bar, at the closing word or at the end. -/
def alternativeEnds (closer : Option (List Char)) (s : State) : Bool :=
  s.isAt ['|'] || s.atEnd || closer.any s.isAt

/-- Terms up to the end of the alternative. Each takes at least one unit, so there are no more of
them than elements in `bound`. -/
def alternativeWithin (σ : Settings) (body : Recognizer) (closer : Option (List Char))
    (bound : List CodeUnit) : Recognizer := fun s =>
  if alternativeEnds closer s then
    (.matched, s)
  else
    match bound with
    | [] => (.noMatch, s)
    | _ :: bound =>
      let found := term σ body s
      if found.1.isMatch then alternativeWithin σ body closer bound found.2 else found

/-- Terms up to the end of the alternative. -/
def alternative (σ : Settings) (body : Recognizer) (closer : Option (List Char)) : Recognizer :=
  fun s => alternativeWithin σ body closer s.rest s

/-- Alternatives up to the closing word. Each but the last ends with a bar, so there are no more
bars than elements in `bound`. -/
def alternativesWithin (σ : Settings) (body : Recognizer) (closer : Option (List Char))
    (bound : List CodeUnit) : Recognizer := fun s =>
  -- before a closing word an alternative may be missing altogether
  match closer.bind fun w => (word w).run s.rest with
  | some (_, rest) => (.matched, { s with rest })
  | none =>
    let found := alternative σ body closer s
    if found.1.isMatch then
      let s := found.2
      match (word ['|']).run s.rest, bound with
      | some (_, rest), _ :: bound => alternativesWithin σ body closer bound { s with rest }
      | _, _ => plain (closing closer) s
    else
      found

/-- Alternatives up to the closing word, where `body` reads what stands in parentheses. -/
def alternatives (σ : Settings) (body : Recognizer) (closer : Option (List Char)) : Recognizer :=
  fun s => alternativesWithin σ body closer s.rest s

/-- What stands in parentheses, closing one included, where `room` more groups may be open. -/
def groupBody (σ : Settings) : Nat → Recognizer
  | 0 => limitReached σ.nestingLimit.toNat
  | room + 1 => alternatives σ (groupBody σ room) (some [')'])

theorem groupBody_eq_nested (σ : Settings) (room : Nat) :
    groupBody σ room = nested σ.nestingLimit.toNat
      (fun room => alternatives σ (groupBody σ room) (some [')'])) room := by
  cases room <;> rfl

/-- A disjunction up to the closing word, where `room` more groups may be open. -/
def disjunction (σ : Settings) (room : Nat) (closer : Option (List Char)) : Recognizer :=
  alternatives σ (groupBody σ room) closer

end EcmaPattern.Grammar
