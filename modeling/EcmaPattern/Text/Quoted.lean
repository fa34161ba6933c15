import EcmaPattern.CodePoint.Unprintable

namespace EcmaPattern.Quoted

/-! # Characters in quotes -/

/-- One character between single quotes: the quote, the backslash and what cannot be printed are
written as escapes. -/
def body (c : Char) : List Char :=
  if c == '\x00' then ['\\', '0']
  else if c == '\t' then ['\\', 't']
  else if c == '\r' then ['\\', 'r']
  else if c == '\n' then ['\\', 'n']
  else if c == '\\' then ['\\', '\\']
  else if c == '\x27' then ['\\', '\x27']
  else if CodePoint.unprintable.contains c.toNat then
    ['\\', 'u', '{'] ++ Nat.toDigits 16 c.toNat ++ ['}']
  else [c]

/-- A character in single quotes. -/
def quote (c : Char) : String := .ofList ('\x27' :: body c ++ ['\x27'])

end EcmaPattern.Quoted
