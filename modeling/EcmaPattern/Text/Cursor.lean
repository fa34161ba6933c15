import EcmaPattern.Text.Reader

namespace EcmaPattern

/-! # Places in a text -/

/-- A place in a text, given by what follows it. -/
structure Cursor where
  text : List CodeUnit
  rest : List CodeUnit
  deriving DecidableEq, Repr

namespace Cursor

variable {α : Type}

/-- The place before all of `text`. -/
def start (text : List CodeUnit) : Cursor := ⟨text, text⟩

/-- How many units precede the place. -/
def position (c : Cursor) : Nat := c.text.length - c.rest.length

/-- The place after the first `position` units. -/
def moveTo (c : Cursor) (position : Nat) : Cursor := { c with rest := c.text.drop position }

/-- Whether nothing follows. -/
def atEnd (c : Cursor) : Bool := c.rest.isEmpty

/-- Whether `word` follows. -/
def isAt (c : Cursor) (word : List Char) : Bool := (CodeUnit.encode word).isPrefixOf c.rest

/-- What `r` takes at this place, and the place after it. -/
def read? (c : Cursor) (r : Reader α) : Option (α × Cursor) :=
  (r.run c.rest).map fun (a, rest) => (a, { c with rest })

end Cursor

end EcmaPattern
