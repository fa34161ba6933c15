import EcmaPattern.Property.GeneralCategory
import EcmaPattern.Property.Names
import EcmaPattern.Property.Script

namespace EcmaPattern.Property

/-! # Unicode properties that a pattern may name

Names match exactly: case, spaces and hyphens count.
-/

/-- The canonical name that `name` is short for, if it is a short name. -/
def alias? (name : String) : Option String := aliases.lookup name

/-- The canonical name of the property called `name`. -/
def canonical (name : String) : String := (alias? name).getD name

/-- Whether `value` is a value of the property with the canonical name `property`. Only
`General_Category`, `Script` and `Script_Extensions` take values. -/
def isValue (property value : String) : Bool :=
  if property == "General_Category" then
    generalCategories.hasName value
  else if property == "Script" || property == "Script_Extensions" then
    scripts.hasName value
  else
    false

/-- Whether `name` may stand alone: it names a binary property or a general category. -/
def isLone (name : String) : Bool :=
  binary.contains (canonical name) || generalCategories.hasName name

/-- The names of the properties that take a value, canonical and short. -/
def valued : List String :=
  ["General_Category", "gc", "Script", "sc", "Script_Extensions", "scx"]

end EcmaPattern.Property
