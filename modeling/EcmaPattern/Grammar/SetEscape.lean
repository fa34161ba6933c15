import EcmaPattern.Property
import EcmaPattern.Recognizer

namespace EcmaPattern.Grammar

open Reader Recognizer

/-! # Escapes for sets of characters

Each recognizer starts after the backslash and finds no single character.
-/

/-! ## Property expressions -/

/-- A letter of a property's name. -/
def isNameLetter (c : Char) : Bool := c.isAlpha || c == '_'

/-- A letter of a property's value, or of a name that stands alone. -/
def isValueLetter (c : Char) : Bool := c.isAlphanum || c == '_'

/-- The name of a property, a sign of equality and the name of a value. -/
def nameAndValue : Reader (String × String) := do
  let name ← asciiRun isNameLetter
  word ['=']
  let value ← asciiRun isValueLetter
  return (.ofList name, .ofList value)

/-- A property and one of its values. A value that the property does not have is noted. -/
def valuedProperty : Recognizer := reading nameAndValue fun (name, value) s =>
  let property := Property.canonical name
  if Property.isValue property value then
    (.matched, s)
  else
    (.noMatch, s.note (.notAValue value property))

/-- A name that stands alone. -/
def loneProperty : Recognizer := plain do
  let name ← String.ofList <$> asciiRun isValueLetter
  guard (name ∉ Property.valued)
  guard (Property.isLone name)

/-- The forms of a property expression, in the order in which they are tried. -/
def propertyForms (σ : Settings) : List Recognizer :=
  [attempt σ.rollback valuedProperty, attempt σ.rollback loneProperty]

/-- A property expression in braces, after `p` or `P`. -/
def propertyEscape (σ : Settings) : Recognizer :=
  attempt σ.rollback <| reading (anyWord [['p', '{'], ['P', '{']]) fun _ =>
    (anyOf (propertyForms σ)).followedBy (plain (word ['}']))

/-! ## All forms -/

/-- The letters for digits, spaces and word characters, and for all other characters. -/
def setLetter : Recognizer := plain (anyWord [['d'], ['D'], ['s'], ['S'], ['w'], ['W']])

/-- An escape for a set of characters. Legacy mode has no property escapes. -/
def setEscape (σ : Settings) : Recognizer :=
  match σ.mode with
  | .legacy => setLetter
  | .unicode => anyOf [setLetter, propertyEscape σ]

end EcmaPattern.Grammar
