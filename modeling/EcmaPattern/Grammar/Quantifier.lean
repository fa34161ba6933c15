import EcmaPattern.Text.Numeral
import EcmaPattern.Text.Reader

namespace EcmaPattern.Grammar

open Reader

/-! # Quantifiers

Bounds in braces are a least number, and after a comma a greatest one, which may be missing. They
are read in two ways: as a quantifier, and only to see that something of their shape stands there.
-/

/-- Takes a comma and then `r`, if there is a comma. -/
def afterComma (r : Reader Unit) : Reader Unit := do
  let comma ← optional (word [','])
  if comma.isSome then r else pure ()

/-- Takes any greatest number, unless the closing brace follows. -/
def anyGreatest : Reader Unit := ahead (word ['}']) <|> digits *> pure ()

/-- Takes what has the shape of bounds in braces, whatever their order. -/
def bracedShape : Reader Unit := do
  word ['{']
  let _ ← digits
  afterComma anyGreatest
  word ['}']

/-- Takes the mark that makes a quantifier lazy, if it is there. -/
def lazyMark : Reader Unit := do
  let _ ← optional (word ['?'])

/-- Takes a greatest number, if there is one; it is at least `least`. -/
def greatest (least : List Char) : Reader Unit := do
  let most ← optional digits
  guard (most.all (Numeral.le least))

/-- Takes bounds in braces as a quantifier. -/
def bracedQuantifier : Reader Unit := do
  word ['{']
  let least ← digits
  afterComma (greatest least)
  word ['}']
  lazyMark

/-- Takes a quantifier, if there is one. After an opening brace Unicode mode needs one; legacy mode
leaves other braces to the next term. -/
def quantifier (mode : Mode) : Reader Unit := do
  if ← isAt ['{'] then
    bracedQuantifier <|> guard (mode = .legacy)
  else
    (anyWord [['*'], ['+'], ['?']] *> lazyMark) <|> pure ()

end EcmaPattern.Grammar
