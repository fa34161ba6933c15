import EcmaPattern.Diagnostic
import EcmaPattern.Options

namespace EcmaPattern

/-! # Evidence about groups and references

What a pattern says about its groups is gathered while it is read and judged once all of it has been
read, because a reference may stand before its group.
-/

/-- A `\k` reference. -/
inductive Reference
  | named (name : String)
  /-- A `\k` without a name, which refers to no group. -/
  | malformed
  deriving DecidableEq, Repr

/-- What is known about groups and references, in the order in which it was found. -/
structure Evidence where
  /-- How many capturing groups there are. -/
  groups : Nat := 0
  /-- The numbers that follow a backslash, which may be references. -/
  candidates : List Nat := []
  /-- The names of groups, each once. -/
  names : List String := []
  /-- The `\k` references. -/
  references : List Reference := []
  deriving DecidableEq, Repr

namespace Evidence

/-- What is wrong with a reference by name, if anything. -/
def referenceFault? (e : Evidence) : Reference → Option Diagnostic
  | .named name => if name ∈ e.names then none else some (.noSuchName name)
  | .malformed => some .malformedReference

/-- What is wrong with the references by number, if anything: the first that is greater than the
number of groups. -/
def numberFault? (e : Evidence) : Option Diagnostic :=
  (e.candidates.find? (e.groups < ·)).map (.noSuchGroup · e.groups)

/-- What is wrong with the references by name, if anything: the first fault of one of them. -/
def nameFault? (e : Evidence) : Option Diagnostic :=
  e.references.findSome? e.referenceFault?

/-- What is wrong with the references of a whole pattern, if anything. Legacy mode reads a number
that is no group as an octal escape, and a `\k` as a plain `k` where no group has a name. -/
def fault? (mode : Mode) (e : Evidence) : Option Diagnostic :=
  match mode with
  | .unicode => e.numberFault? <|> e.nameFault?
  | .legacy => if e.names.isEmpty then none else e.nameFault?

end Evidence

end EcmaPattern
