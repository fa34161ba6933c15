import EcmaPattern.Check
import EcmaPattern.CommandLine.Arguments
import EcmaPattern.Literal
import EcmaPattern.Text.Lines

namespace EcmaPattern.CommandLine

/-! # Sessions

A session checks its inputs in order: the patterns among the arguments, or else the lines of the
standard input.
-/

/-- What a session prints and the status it ends with. -/
structure Report where
  stdout : String
  status : UInt32
  deriving DecidableEq, Repr

/-! ## Checking inputs -/

/-- Whether an input is accepted. A literal is checked in the mode of its flags. -/
def check (a : Arguments) (input : String) : Bool :=
  if a.literal then
    match Literal.ofString input with
    | .ok literal => accepts (literal.options a.options) literal.pattern
    | .error _ => false
  else
    accepts a.options input

/-- The line printed about an input. -/
def verdictLine (accepted : Bool) (input : String) : String :=
  (if accepted then "accept" else "reject") ++ "\t" ++ input ++ "\n"

/-- The report on `inputs`, which are all there are if `complete`. -/
def report (a : Arguments) (inputs : List String) (complete : Bool) : Report :=
  let verdicts := inputs.map fun input => (input, check a input)
  { stdout :=
      if a.quiet then "" else String.join (verdicts.map fun (input, ok) => verdictLine ok input)
    status := if verdicts.all (·.2) && complete then 0 else 1 }

/-! ## Whole sessions -/

/-- The name and the version of the program. -/
def versionLine : String := "regexp-acceptor 0.1.0\n"

/-- What the program does and how it is used. -/
def usage : String :=
  let defaults : Options := {}
  "Accepts or rejects ECMAScript regular expression patterns, in Unicode and Annex B modes.\n\n" ++
  "Usage: regexp-acceptor [OPTIONS] [PATTERN]...\n\n" ++
  "Arguments:\n" ++
  "  [PATTERN]...  Patterns to check; read one per line from stdin if none are given\n\n" ++
  "Options:\n" ++
  "  -u, --unicode              Use the grammar of the `u` flag\n" ++
  "  -l, --literal              Inputs are `/pattern/flags` literals; the flags select the " ++
    "grammar\n" ++
  "      --max-nesting <DEPTH>  Reject patterns whose groups nest deeper than this " ++
    s!"[default: {defaults.nestingLimit}]\n" ++
  "  -q, --quiet                Print nothing; report only through the exit status\n" ++
  "  -h, --help                 Print help\n" ++
  "  -V, --version              Print version\n"

/-- The report of a session that checks no pattern. -/
def Halt.report : Halt → Report
  | .version => { stdout := versionLine, status := 0 }
  | .help => { stdout := usage, status := 0 }
  | .failure _ => { stdout := "", status := 2 }

/-- The report on the lines of the standard input. -/
def reportLines (a : Arguments) (stdin : List UInt8) : Report :=
  let (inputs, complete) := Lines.decodeAll (Lines.split stdin)
  report a inputs complete

/-- The report of a session with the given arguments and standard input. -/
def run (arguments : List String) (stdin : List UInt8) : Report :=
  match Arguments.ofList arguments with
  | .error halt => halt.report
  | .ok a => if a.patterns.isEmpty then reportLines a stdin else report a a.patterns true

end EcmaPattern.CommandLine
