import EcmaPattern.Options
import EcmaPattern.Text.Quoted

namespace EcmaPattern

/-! # Literals

A literal is a pattern between slashes and the flags after it.
-/

/-- A literal in its two parts. -/
structure Literal where
  pattern : String
  flags : String
  deriving DecidableEq, Repr

/-- Why a text is not a literal. -/
inductive LiteralError
  | missingOpeningSlash
  | missingClosingSlash
  | unknownFlag (flag : Char)
  | duplicateFlag (flag : Char)
  deriving DecidableEq, Repr

/-- The wording of an error. -/
def LiteralError.message : LiteralError → String
  | .missingOpeningSlash => "Literal does not start with '/'"
  | .missingClosingSlash => "Literal has no closing '/'"
  | .unknownFlag flag => "Unknown flag in literal: " ++ Quoted.quote flag
  | .duplicateFlag flag => "Flag given more than once: " ++ Quoted.quote flag

namespace Literal

/-- The flags that a literal may have. -/
def knownFlags : List Char := ['d', 'g', 'i', 'm', 's', 'u', 'y']

/-- What stands before and after the last `c`, if there is one. -/
def splitAtLast (c : Char) : List Char → Option (List Char × List Char)
  | [] => none
  | x :: xs =>
    -- a later `c` wins over one here
    match splitAtLast c xs with
    | some (before, after) => some (x :: before, after)
    | none => if x = c then some ([], xs) else none

theorem splitAtLast_eq_none_iff {c : Char} {text : List Char} :
    splitAtLast c text = none ↔ c ∉ text := by
  induction text with
  | nil => simp [splitAtLast]
  | cons x xs ih =>
    unfold splitAtLast
    split
    next before after h =>
      have hc : c ∈ xs := Decidable.byContradiction fun hc => by simp [ih.2 hc] at h
      simp [hc]
    next h =>
      have hc : c ∉ xs := ih.1 h
      by_cases hx : x = c
      · simp [hx]
      · simp [hx, hc, Ne.symm hx]

/-- The first flag that is among those `seen` or stands earlier in the text. -/
def firstRepeated (seen : List Char) : List Char → Option Char
  | [] => none
  | c :: cs => if c ∈ seen then some c else firstRepeated (c :: seen) cs

/-- What is wrong with flags, if anything. An unknown flag counts before a repeated one. -/
def flagError? (flags : List Char) : Option LiteralError :=
  (flags.find? (· ∉ knownFlags)).map .unknownFlag <|>
    (firstRepeated [] flags).map .duplicateFlag

/-- Splits a text at its first and last slash. The pattern may contain slashes. -/
def ofString (text : String) : Except LiteralError Literal :=
  match text.toList with
  | '/' :: rest =>
    match splitAtLast '/' rest with
    | none => .error .missingClosingSlash
    | some (pattern, flags) =>
      match flagError? flags with
      | some e => .error e
      | none => .ok { pattern := .ofList pattern, flags := .ofList flags }
  | _ => .error .missingOpeningSlash

/-- The text of a literal. -/
def render (l : Literal) : String := "/" ++ l.pattern ++ "/" ++ l.flags

/-- The mode that the flags select. -/
def mode (l : Literal) : Mode := if 'u' ∈ l.flags.toList then .unicode else .legacy

/-- The options of a check of the literal: `base` in the mode of the flags. -/
def options (l : Literal) (base : Options) : Options := { base with mode := l.mode }

end Literal

end EcmaPattern
