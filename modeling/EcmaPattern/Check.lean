import EcmaPattern.Grammar.Disjunction

namespace EcmaPattern

/-! # Checking a pattern

A pattern is a disjunction up to its end whose references are sound.
-/

/-- The last check of a state: whether the references found are sound. A fault is noted. -/
def State.checkReferences (mode : Mode) (s : State) : Bool × State :=
  match s.fault? mode with
  | none => (true, s)
  | some d => (false, s.note d)

/-- Reads a whole text as a disjunction. -/
def recognize (σ : Settings) (text : List CodeUnit) : Outcome × State :=
  Grammar.disjunction σ σ.nestingLimit.toNat none (.start text)

/-- Whether a text is a pattern. -/
def isPattern (σ : Settings) (text : List CodeUnit) : Bool :=
  let (outcome, s) := recognize σ text
  outcome.isMatch && (s.checkReferences σ.mode).1

/-- Whether `pattern` is a valid pattern. -/
def accepts (options : Options) (pattern : String) : Bool :=
  isPattern options.settings (CodeUnit.encode pattern.toList)

/-- What a check of a pattern found. -/
structure Inspection where
  /-- Whether the text is a disjunction. -/
  matched : Bool
  /-- Whether the references are sound; unknown where the text is no disjunction. -/
  valid : Option Bool
  /-- The state that the check ends in. -/
  state : State
  deriving DecidableEq, Repr

/-- Whether the pattern is valid. -/
def Inspection.accepted (i : Inspection) : Bool := i.matched && i.valid.getD false

/-- Checks `pattern` and keeps what was found. -/
def inspect (options : Options) (pattern : String) : Inspection :=
  let (outcome, s) := recognize options.settings (CodeUnit.encode pattern.toList)
  if outcome.isMatch then
    let (valid, s) := s.checkReferences options.mode
    { matched := true, valid, state := s }
  else
    { matched := false, valid := none, state := s }

/-- An inspection and a plain check agree. -/
theorem accepted_inspect (options : Options) (pattern : String) :
    (inspect options pattern).accepted = accepts options pattern := by
  unfold inspect accepts isPattern Inspection.accepted
  generalize recognize options.settings (CodeUnit.encode pattern.toList) = r
  obtain ⟨outcome, s⟩ := r
  cases h : outcome.isMatch <;> simp [h, Options.settings]

end EcmaPattern
