namespace EcmaPattern

/-! # Settings of one check -/

/-- The two grammars of a pattern. -/
inductive Mode
  /-- The relaxed grammar of Annex B, over single code units. -/
  | legacy
  /-- The strict grammar of the `u` flag, over code points. -/
  | unicode
  deriving DecidableEq, Repr

/-- The grammar a pattern is checked against, and how deep its groups may nest. -/
structure Options where
  mode : Mode := .legacy
  nestingLimit : UInt64 := 256
  deriving DecidableEq, Repr

/-- What a failed attempt undoes besides moving back. -/
inductive Rollback
  /-- The group count and the numbered references found since the attempt began. -/
  | numbers
  /-- All that was found since the attempt began, names included. -/
  | everything
  deriving DecidableEq, Repr

/-- Options together with the rollback rule of the recognizer. -/
structure Settings extends Options where
  rollback : Rollback := .numbers
  deriving DecidableEq, Repr

/-- The settings in which patterns are checked. -/
def Options.settings (options : Options) : Settings := { options with }

end EcmaPattern
