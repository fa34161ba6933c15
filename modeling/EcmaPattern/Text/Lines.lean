namespace EcmaPattern.Lines

/-! # Lines of bytes -/

/-- The line feed, which ends a line. -/
def lineFeed : UInt8 := 0x0A

/-- The carriage return, which may stand before the end of a line. -/
def carriageReturn : UInt8 := 0x0D

/-- A line, given from its end, without a carriage return there. -/
def withoutReturn : List UInt8 → List UInt8
  | [] => []
  | b :: bs => if b = carriageReturn then bs else b :: bs

/-- The lines of `bytes`, of which the first starts with `pending`, given from its end. A last line
without a line feed counts unless it is empty, and keeps its carriage return. -/
def splitFrom (pending : List UInt8) : List UInt8 → List (List UInt8)
  | [] => if pending.isEmpty then [] else [pending.reverse]
  | b :: bs =>
    if b = lineFeed then
      (withoutReturn pending).reverse :: splitFrom [] bs
    else
      splitFrom (b :: pending) bs

/-- The lines of `bytes`. -/
def split (bytes : List UInt8) : List (List UInt8) := splitFrom [] bytes

/-- The text that bytes encode in UTF-8, if they do. -/
def decode? (bytes : List UInt8) : Option String := String.fromUTF8? ⟨bytes.toArray⟩

/-- The lines up to the first that is not in UTF-8, and whether those are all of them. -/
def decodeAll : List (List UInt8) → List String × Bool
  | [] => ([], true)
  | line :: rest =>
    match decode? line with
    | none => ([], false)
    | some text =>
      let (texts, complete) := decodeAll rest
      (text :: texts, complete)

end EcmaPattern.Lines
