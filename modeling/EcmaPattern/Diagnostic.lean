namespace EcmaPattern

/-! # Diagnostics

What the recognizer notes while it reads a pattern, and what the final check objects to.
-/

/-- How much a diagnostic matters. -/
inductive Level
  | debug
  | trace
  deriving DecidableEq, Repr

/-- The name of a level. -/
def Level.name : Level → String
  | .debug => "debug"
  | .trace => "trace"

/-- A reason to turn down a pattern or one reading of it. -/
inductive Diagnostic
  /-- A group opens where `limit` groups are open already. -/
  | nestingLimit (limit offset : Nat)
  /-- The group that ends at `offset` has the name of an earlier one. -/
  | duplicateGroupName (offset : Nat)
  /-- A property is given a value that is not one of its values. -/
  | notAValue (value property : String)
  /-- A numbered reference is greater than the number of groups. -/
  | noSuchGroup (number groups : Nat)
  /-- A named reference names no group. -/
  | noSuchName (name : String)
  /-- A `\k` without a name stands in a pattern with named groups. -/
  | malformedReference
  deriving DecidableEq, Repr

namespace Diagnostic

/-- What is noted of one reading is a trace; what concerns the whole pattern is for debugging. -/
def level : Diagnostic → Level
  | .duplicateGroupName _ | .notAValue _ _ => .trace
  | _ => .debug

/-- The wording of a diagnostic. -/
def message : Diagnostic → String
  | .nestingLimit limit offset =>
    "nesting limit of " ++ toString limit ++ " reached at offset " ++ toString offset
  | .duplicateGroupName offset => "duplicate group name at offset " ++ toString offset
  | .notAValue value property => "\"" ++ value ++ "\" is not a value of \"" ++ property ++ "\""
  | .noSuchGroup number groups =>
    "\\" ++ toString number ++ " refers past the last of " ++ toString groups ++ " groups"
  | .noSuchName name => "\\k<" ++ name ++ "> refers to no group"
  | .malformedReference => "malformed \\k in a pattern with named groups"

/-- One line of a log: the level and the wording. -/
def line (d : Diagnostic) : String := d.level.name ++ ": " ++ d.message

end Diagnostic

end EcmaPattern
