import EcmaPattern.Options
import EcmaPattern.Text.CodeUnit
import EcmaPattern.Text.Numeral

namespace EcmaPattern

/-! # Readers

A reader takes something off the front of a text or fails. A failing reader has no result, so it
cannot leave anything half read: what follows a failure starts from the same text.
-/

/-- Takes a value off the front of a text, or fails. -/
abbrev Reader (α : Type) := StateT (List CodeUnit) Option α

namespace Reader

variable {α : Type}

/-! ## Looking ahead -/

/-- Whether `word` stands at the front; takes nothing. -/
def isAt (word : List Char) : Reader Bool := fun text =>
  some ((CodeUnit.encode word).isPrefixOf text, text)

/-- Succeeds where `r` does, and takes nothing. -/
def ahead (r : Reader α) : Reader Unit := fun text =>
  (r.run text).map fun _ => ((), text)

/-- Succeeds where `r` fails, and takes nothing. -/
def notAhead (r : Reader α) : Reader Unit := fun text =>
  match r.run text with
  | none => some ((), text)
  | some _ => none

/-! ## Words and characters -/

/-- Takes `word`. -/
def word (word : List Char) : Reader Unit := fun text =>
  ((CodeUnit.encode word).isPrefixOf? text).map ((), ·)

/-- Takes the first of `words` that stands at the front. -/
def anyWord : List (List Char) → Reader (List Char)
  | [] => failure
  | w :: ws => (word w *> pure w) <|> anyWord ws

/-- Takes `w` and stands for `a`. -/
def wordAs (w : List Char) (a : α) : Reader α := word w *> pure a

/-- Takes one ASCII character that `p` holds of. -/
def ascii (p : Char → Bool) : Reader Char
  | [] => none
  | u :: rest =>
    match u.ascii? with
    | some c => if p c then some (c, rest) else none
    | none => none

/-- Takes one character of the mode: a code point, or in legacy mode always a single unit. -/
def codePoint : Mode → Reader Nat
  | _, [] => none
  | .legacy, u :: rest => some (u.toNat, rest)
  | .unicode, lead :: rest =>
    match rest with
    | trail :: after =>
      if Surrogate.isLead lead.toNat && Surrogate.isTrail trail.toNat then
        some (Surrogate.combine lead.toNat trail.toNat, after)
      else
        some (lead.toNat, rest)
    | [] => some (lead.toNat, rest)

/-- Takes one character whose code point `p` holds of. -/
def codePointIf (mode : Mode) (p : Nat → Bool) : Reader Nat := do
  let c ← codePoint mode
  guard (p c)
  return c

/-- A word is taken exactly where the text starts with it. -/
theorem run_word_eq_some_iff {w : List Char} {text rest : List CodeUnit} :
    (word w).run text = some ((), rest) ↔ text = CodeUnit.encode w ++ rest := by
  have step (w text : List CodeUnit) : w.isPrefixOf? text = some rest ↔ text = w ++ rest := by
    induction w generalizing text with
    | nil =>
      change some text = some rest ↔ _
      simp
    | cons u w ih =>
      cases text with
      | nil =>
        change none = some rest ↔ _
        simp
      | cons v text =>
        change (if u == v then w.isPrefixOf? text else none) = some rest ↔ _
        rw [List.cons_append, List.cons.injEq]
        by_cases h : u = v
        · simp [h, ih]
        · simp [h, Ne.symm h]
  rw [← step]
  simp [word, StateT.run]

/-! ## Repetition -/

/-- The longest run of ASCII characters at the front that `p` holds of, and what follows it. -/
def asciiSpan (p : Char → Bool) : List CodeUnit → List Char × List CodeUnit
  | [] => ([], [])
  | u :: rest =>
    match u.ascii? with
    | some c =>
      if p c then
        let (cs, after) := asciiSpan p rest
        (c :: cs, after)
      else
        ([], u :: rest)
    | none => ([], u :: rest)

/-- The run and what follows it are all of the text. -/
theorem encode_asciiSpan (p : Char → Bool) (text : List CodeUnit) :
    CodeUnit.encode (asciiSpan p text).1 ++ (asciiSpan p text).2 = text := by
  fun_induction asciiSpan p text with
  | case1 => rfl
  | case2 u rest c hc hp cs after hspan ih =>
    rw [hspan] at ih
    rw [CodeUnit.encode_cons, CodeUnit.ofChar_of_ascii? hc, List.append_assoc, ih]
    rfl
  | case3 => rfl
  | case4 => rfl

/-- The run holds nothing else. -/
theorem of_mem_asciiSpan {p : Char → Bool} {text : List CodeUnit} {c : Char}
    (h : c ∈ (asciiSpan p text).1) : p c = true := by
  fun_induction asciiSpan p text with
  | case1 => simp at h
  | case2 u rest d hd hp cs after hspan ih =>
    rw [hspan] at ih
    rcases List.mem_cons.1 h with rfl | h
    · exact hp
    · exact ih h
  | case3 => simp at h
  | case4 => simp at h

/-- What follows the run starts with no character that `p` holds of. -/
theorem run_ascii_asciiSpan (p : Char → Bool) (text : List CodeUnit) :
    (ascii p).run (asciiSpan p text).2 = none := by
  fun_induction asciiSpan p text with
  | case1 => rfl
  | case2 u rest c hc hp cs after hspan ih => rwa [hspan] at ih
  | case3 u rest c hc hp => simp [ascii, StateT.run, hc, hp]
  | case4 u rest hu => simp [ascii, StateT.run, hu]

/-- Takes the longest run of ASCII characters that `p` holds of; fails where there is none. -/
def asciiRun (p : Char → Bool) : Reader (List Char) := fun text =>
  match asciiSpan p text with
  | ([], _) => none
  | (c :: cs, after) => some (c :: cs, after)

/-- Takes the longest run of decimal digits; fails where there is none. -/
def digits : Reader (List Char) := asciiRun Char.isDigit

/-- Takes the longest run of ASCII characters that `p` holds of, which may be empty, and counts
them. -/
def countedRun (p : Char → Bool) : Reader (List Char × Int32) := fun text =>
  let (cs, after) := asciiSpan p text
  some ((cs, Numeral.count cs), after)

/-- Repeats `r` while it succeeds, at most once for each element of `bound`. -/
def manyWithin (r : Reader α) (bound text : List CodeUnit) : List α × List CodeUnit :=
  match bound with
  | [] => ([], text)
  | _ :: bound =>
    match r.run text with
    | none => ([], text)
    | some (a, rest) =>
      let (as, after) := manyWithin r bound rest
      (a :: as, after)

/-- Repeats `r` while it succeeds. A reader that takes at least one unit each time succeeds no more
often than there are units. -/
def many (r : Reader α) : Reader (List α) := fun text => some (manyWithin r text text)

/-- Repeats `r` exactly `n` times. -/
def exactly : Nat → Reader α → Reader (List α)
  | 0, _ => pure []
  | n + 1, r => do
    let a ← r
    let as ← exactly n r
    return a :: as

/-- Repeats `r` while it succeeds, at most `n` times. -/
def upTo : Nat → Reader α → Reader (List α)
  | 0, _ => pure []
  | n + 1, r => (do
      let a ← r
      let as ← upTo n r
      return a :: as) <|> pure []

/-! ## Choice -/

/-- The first of `readers` that succeeds. -/
def firstOf : List (Reader α) → Reader α
  | [] => failure
  | r :: rs => r <|> firstOf rs

end Reader

end EcmaPattern
