import EcmaPattern.Options
import EcmaPattern.Text.Numeral

namespace EcmaPattern.CommandLine

/-! # Arguments

Options and patterns may be mixed. An option is given once, long or as a letter, and letters may
share one dash; after two dashes everything is a pattern.
-/

/-- What the arguments ask for. -/
structure Arguments where
  unicode : Bool := false
  literal : Bool := false
  quiet : Bool := false
  nestingLimit : Option UInt64 := none
  patterns : List String := []
  deriving DecidableEq, Repr

/-- What is wrong with the arguments. -/
inductive ArgumentError
  | unknown (option : String)
  | repeated (option : String)
  | missingValue (option : String)
  | unwantedValue (option : String)
  | notADepth (value : String)
  deriving DecidableEq, Repr

/-- The wording of an error. -/
def ArgumentError.message : ArgumentError → String
  | .unknown option => "unknown option " ++ option
  | .repeated option => option ++ " is given more than once"
  | .missingValue option => option ++ " needs a value"
  | .unwantedValue option => option ++ " takes no value"
  | .notADepth value => "not a depth: " ++ value

/-- Why no pattern is checked. -/
inductive Halt
  | version
  | help
  | failure (error : ArgumentError)
  deriving DecidableEq, Repr

/-! ## Options without a value -/

/-- An option that takes no value. -/
inductive Flag
  | unicode
  | literal
  | quiet
  | version
  | help
  deriving DecidableEq, Repr

namespace Flag

/-- All flags. -/
def all : List Flag := [.unicode, .literal, .quiet, .version, .help]

/-- The name of a flag, which follows two dashes. -/
def name : Flag → String
  | .unicode => "unicode"
  | .literal => "literal"
  | .quiet => "quiet"
  | .version => "version"
  | .help => "help"

/-- The letter of a flag, which follows a single dash. -/
def letter : Flag → Char
  | .unicode => 'u'
  | .literal => 'l'
  | .quiet => 'q'
  | .version => 'V'
  | .help => 'h'

end Flag

namespace Arguments

/-- Applies a flag. The version and the help are given at once, whatever follows. -/
def addFlag (a : Arguments) (flag : Flag) : Except Halt Arguments :=
  match flag with
  | .unicode => once a.unicode { a with unicode := true }
  | .literal => once a.literal { a with literal := true }
  | .quiet => once a.quiet { a with quiet := true }
  | .version => .error .version
  | .help => .error .help
where
  once (given : Bool) (b : Arguments) : Except Halt Arguments :=
    if given then .error (.failure (.repeated ("--" ++ flag.name))) else .ok b

/-- Applies the flags that letters after a single dash stand for. -/
def addLetters (a : Arguments) : List Char → Except Halt Arguments
  | [] => .ok a
  | c :: cs => do
    match Flag.all.find? (·.letter == c) with
    | some flag => (← a.addFlag flag).addLetters cs
    | none => .error (.failure (.unknown (.ofList ['-', c])))

/-! ## The nesting limit -/

/-- The name of the option that sets the nesting limit. -/
def limitName : String := "max-nesting"

/-- The depth that a text stands for: decimal digits, perhaps after a plus sign, below 2⁶⁴. -/
def depth? (value : String) : Option UInt64 :=
  let digits := match value.toList with
    | '+' :: digits => digits
    | digits => digits
  let n := Numeral.value 10 digits
  if !digits.isEmpty && digits.all Char.isDigit && n < UInt64.size then some (.ofNat n) else none

/-- Sets the nesting limit. -/
def setLimit (a : Arguments) (value : String) : Except Halt Arguments :=
  if a.nestingLimit.isSome then
    .error (.failure (.repeated ("--" ++ limitName)))
  else
    match depth? value with
    | some depth => .ok { a with nestingLimit := some depth }
    | none => .error (.failure (.notADepth value))

/-! ## All arguments -/

/-- Adds patterns after those given before. -/
def addPatterns (a : Arguments) (patterns : List String) : Arguments :=
  { a with patterns := a.patterns ++ patterns }

/-- Applies what follows two dashes: the name of an option, and its value after a sign of
equality. -/
def addLong (a : Arguments) (text : List Char) : Except Halt Arguments :=
  let name := String.ofList (text.takeWhile (· != '='))
  let option := "--" ++ name
  match text.dropWhile (· != '=') with
  | _ :: value =>
    if name = limitName then
      a.setLimit (.ofList value)
    else if Flag.all.any (·.name == name) then
      .error (.failure (.unwantedValue option))
    else
      .error (.failure (.unknown option))
  | [] =>
    match Flag.all.find? (·.name == name) with
    | some flag => a.addFlag flag
    | none => .error (.failure (.unknown option))

/-- Applies one argument that needs no other. A dash alone is a pattern. -/
def add (a : Arguments) (argument : String) : Except Halt Arguments :=
  match argument.toList with
  | '-' :: '-' :: text => a.addLong text
  | '-' :: c :: cs => a.addLetters (c :: cs)
  | _ => .ok (a.addPatterns [argument])

/-- Applies arguments from the left; the first that cannot be applied decides. A value that is an
argument of its own does not start with a dash. -/
def addAll (a : Arguments) : List String → Except Halt Arguments
  | [] => .ok a
  | argument :: rest =>
    if argument = "--" then
      .ok (a.addPatterns rest)
    else if argument = "--" ++ limitName then
      match rest with
      | [] => .error (.failure (.missingValue argument))
      | value :: rest =>
        -- what starts with a dash is an option, so the value is missing
        if value.toList.head? = some '-' then
          .error (.failure (.missingValue argument))
        else do
          (← a.setLimit value).addAll rest
    else do
      (← a.add argument).addAll rest

/-- What a list of arguments asks for. -/
def ofList (arguments : List String) : Except Halt Arguments := addAll {} arguments

/-- The options of each check. -/
def options (a : Arguments) : Options :=
  let mode := if a.unicode then .unicode else .legacy
  match a.nestingLimit with
  | some nestingLimit => { mode, nestingLimit }
  | none => { mode }

end Arguments

end EcmaPattern.CommandLine
