import EcmaPattern.Proofs.Checked.Arithmetic
import EcmaPattern.Proofs.Recognition.Frame

namespace EcmaPattern

open CodeUnit

/-! # Runs with a position

A state of the model holds what is left of the text, and its position is derived. Here the position
is a number that the run adds to, and the text an array that it looks into. Each sum is one of a
fixed width, and each look beyond the end fails; `none` stands for such a failure, and `some none`
for a reader that does not match.
-/

namespace Checked

/-- The units from a position on, which must not be beyond the end. -/
def slice? (units : List CodeUnit) (position : Nat) : Option (List CodeUnit) :=
  if position ≤ units.length then some (units.drop position) else none

/-! ## Readers -/

section

variable {α : Type}

/-- Takes `w`, unit by unit from a slice. -/
def word? (w : List Char) (units : List CodeUnit) (position : Nat) :
    Option (Option (Unit × Nat)) := do
  if (encode w).isPrefixOf (← slice? units position) then
    return some ((), ← add? 64 position (encode w).length)
  else
    return none

/-- Takes one ASCII character that `p` holds of. -/
def ascii? (p : Char → Bool) (units : List CodeUnit) (position : Nat) :
    Option (Option (Char × Nat)) :=
  match units[position]?.bind CodeUnit.ascii? with
  | none => some none
  | some c => if p c then do return some (c, ← add? 64 position 1) else some none

/-- Takes one character of the mode. After a lead surrogate the next unit is looked at. -/
def codePoint? (mode : Mode) (units : List CodeUnit) (position : Nat) :
    Option (Option (Nat × Nat)) := do
  match units[position]? with
  | none => return none
  | some lead =>
    if mode = .unicode ∧ Surrogate.isLead lead.toNat = true then
      match units[← add? 64 position 1]? with
      | some trail =>
        if Surrogate.isTrail trail.toNat then
          return some (← combine? lead.toNat trail.toNat, ← add? 64 position 2)
        else
          return some (lead.toNat, ← add? 64 position 1)
      | none => return some (lead.toNat, ← add? 64 position 1)
    else
      return some (lead.toNat, ← add? 64 position 1)

/-- Repeats `r?` while it matches, at most `bound` times. -/
def many? (r? : Nat → Option (Option (α × Nat))) (bound position : Nat) :
    Option (List α × Nat) :=
  match bound with
  | 0 => some ([], position)
  | bound + 1 => do
    match ← r? position with
    | none => return ([], position)
    | some (a, next) =>
      let (as, last) ← many? r? bound next
      return (a :: as, last)

/-- Takes the longest run of ASCII characters that `p` holds of, one by one. -/
def asciiRun? (p : Char → Bool) (units : List CodeUnit) (position : Nat) :
    Option (Option (List Char × Nat)) := do
  let (cs, last) ← many? (ascii? p units) units.length position
  return if cs.isEmpty then none else some (cs, last)

/-- Takes the digits after a brace, one by one, and counts them. -/
def bracedDigits? (units : List CodeUnit) (position : Nat) :
    Option (Option ((List Char × Int32) × Nat)) := do
  match ← word? ['u', '{'] units position with
  | none => return none
  | some (_, position) =>
    let (digits, last) ← many? (ascii? Numeral.isHexDigit units) units.length position
    return some ((digits, ← count? digits), last)

end

end Checked

open Checked

/-- The run of a reader from a position on. -/
def Reader.Parts.checked {mode : Mode} : {α : Type} → {r : Reader α} → Parts mode r →
    List CodeUnit → Nat → Option (Option (α × Nat))
  | _, _, .pure a, _, position => some (some (a, position))
  | _, _, .failure, _, _ => some none
  | _, _, .bind first next, units, position => do
    match ← first.checked units position with
    | none => return none
    | some (a, position) => (next a).checked units position
  | _, _, .orElse first second, units, position => do
    match ← first.checked units position with
    | none => second.checked units position
    | some found => return some found
  | _, _, @ite _ _ _ _ c _ first second, units, position =>
    if c then first.checked units position else second.checked units position
  | _, _, .isAt w, units, position => do
    return some ((encode w).isPrefixOf (← slice? units position), position)
  | _, _, .ahead parts, units, position => do
    return (← parts.checked units position).map fun _ => ((), position)
  | _, _, .notAhead parts, units, position => do
    match ← parts.checked units position with
    | none => return some ((), position)
    | some _ => return none
  | _, _, .word w, units, position => word? w units position
  | _, _, .ascii p, units, position => ascii? p units position
  | _, _, .codePoint, units, position => codePoint? mode units position
  | _, _, .asciiRun p, units, position => asciiRun? p units position
  | _, _, .bracedDigits _, units, position => bracedDigits? units position
  | _, _, .many parts, units, position => do
    let rest ← slice? units position
    return some (← many? (parts.checked units) rest.length position)

/-! ### What readers find -/

/-- All digits after a brace can be counted. Only Unicode mode counts them. -/
def Checked.Countable (mode : Mode) (units : List CodeUnit) : Prop :=
  mode = .unicode → ∀ digits : List Char, (∀ d ∈ digits, Numeral.isHexDigit d = true) →
    encode (['u', '{'] ++ digits) <:+: units → digits.length < 2 ^ 31

/-- The result of a run in `units` is `b`. It may be missing, but only where there are too many
digits to count. -/
def Checked.Yields {β : Type} (mode : Mode) (units : List CodeUnit) (o : Option β) (b : β) : Prop :=
  o = some b ∨ o = none ∧ ¬ Countable mode units

/-- In each text that is not too long, the run from a position on is the run of the reader. -/
def Checked.Follows {α : Type} (mode : Mode)
    (r? : List CodeUnit → Nat → Option (Option (α × Nat))) (r : Reader α) : Prop :=
  ∀ units text : List CodeUnit, text <:+ units → units.length < 2 ^ 32 →
    Yields mode units (r? units (units.length - text.length))
      ((r.run text).map fun (a, rest) => (a, units.length - rest.length))

namespace Checked

variable {mode : Mode} {α β γ : Type} {units text rest : List CodeUnit}

/-- There are less digits than units. -/
theorem countable_of_length_lt (h : units.length < 2 ^ 31 + 2) : Countable mode units := by
  intro _ digits hall hinfix
  have hascii : ∀ c ∈ ['u', '{'] ++ digits, c.toNat < 0x80 :=
    List.forall_mem_append.2 ⟨by decide, fun d hd => Grammar.isAscii_isHexDigit d (hall d hd)⟩
  have hle := hinfix.length_le
  rw [length_encode_of_ascii hascii, List.length_append] at hle
  change 2 + digits.length ≤ units.length at hle
  omega

namespace Yields

variable {o : Option β} {b : β} {f : β → Option γ} {c : γ}

theorem of_eq (h : o = some b) : Yields mode units o b := Or.inl h

theorem eq_some (h : Yields mode units o b) (hcount : Countable mode units) : o = some b :=
  h.resolve_right fun hnone => hnone.2 hcount

theorem bind (h : Yields mode units o b) (hf : Yields mode units (f b) c) :
    Yields mode units (o >>= f) c := by
  rcases h with rfl | ⟨rfl, hcount⟩
  · exact hf
  · exact Or.inr ⟨rfl, hcount⟩

theorem bind_eq_none (h : Yields mode units o b) (hf : f b = none) : o >>= f = none := by
  rcases h with rfl | ⟨rfl, -⟩
  · exact hf
  · rfl

end Yields

theorem slice?_eq (h : text <:+ units) : slice? units (units.length - text.length) = some text := by
  rw [slice?, if_pos (Nat.sub_le _ _), ← List.suffix_iff_eq_drop.1 h]

/-- A sum that stays in the text is not too large. -/
theorem add?_position (h : text <:+ units) (hlen : units.length < 2 ^ 32) {n : Nat}
    (hn : n ≤ text.length) :
    add? 64 (units.length - text.length) n = some (units.length - (text.length - n)) := by
  have hle := h.length_le
  rw [add?_of_lt (by omega)]
  congr 1
  omega

theorem getElem?_position (h : text <:+ units) (n : Nat) :
    units[units.length - text.length + n]? = text[n]? := by
  rw [← List.getElem?_drop, ← List.suffix_iff_eq_drop.1 h]

theorem follows_word (w : List Char) : Follows mode (word? w) (Reader.word w) := by
  intro units text h hlen
  refine .of_eq ?_
  rw [word?, slice?_eq h, Option.bind_eq_bind, Option.bind_some]
  cases hrun : (Reader.word w).run text with
  | some found =>
    have htext : text = encode w ++ found.2 := Reader.run_word_eq_some_iff.1 hrun
    have hprefix : (encode w).isPrefixOf text = true :=
      List.isPrefixOf_iff_prefix.2 ⟨found.2, htext.symm⟩
    have hlength : text.length - (encode w).length = found.2.length := by
      rw [htext, List.length_append, Nat.add_sub_cancel_left]
    have hadd := add?_position h hlen (n := (encode w).length) (by rw [htext]; simp)
    rw [if_pos hprefix, hadd, hlength]
    rfl
  | none =>
    have hprefix : ¬ (encode w).isPrefixOf text = true := by
      intro hprefix
      rcases List.isPrefixOf_iff_prefix.1 hprefix with ⟨rest, htext⟩
      have hsome := Reader.run_word_eq_some_iff.2 htext.symm
      rw [hrun] at hsome
      contradiction
    rw [if_neg hprefix]
    rfl

theorem follows_ascii (p : Char → Bool) : Follows mode (ascii? p) (Reader.ascii p) := by
  intro units text h hlen
  refine .of_eq ?_
  rw [ascii?, ← Nat.add_zero (units.length - text.length), getElem?_position h 0, Nat.add_zero]
  cases text with
  | nil => rfl
  | cons u text =>
    have hadd := add?_position h hlen (n := 1) (Nat.succ_pos _)
    simp only [List.getElem?_cons_zero, Option.bind_some, Reader.ascii, StateT.run]
    cases u.ascii? with
    | none => rfl
    | some c =>
      simp only [hadd, Option.bind_eq_bind, Option.bind_some]
      split <;> rfl

theorem follows_codePoint : Follows mode (codePoint? mode) (Reader.codePoint mode) := by
  intro units text h hlen
  refine .of_eq ?_
  have hfirst : units[units.length - text.length]? = text[0]? := getElem?_position h 0
  rw [codePoint?, hfirst]
  cases text with
  | nil => rfl
  | cons lead text =>
    have hone : add? 64 (units.length - (lead :: text).length) 1 =
        some (units.length - text.length) := add?_position h hlen (Nat.succ_pos _)
    have hsecond : units[units.length - text.length]? = text[0]? :=
      getElem?_position ((List.suffix_cons lead text).trans h) 0
    simp only [List.getElem?_cons_zero, hone, Option.bind_eq_bind, Option.bind_some]
    cases mode with
    | legacy => rfl
    | unicode =>
      simp only [hsecond, true_and]
      cases text with
      | nil =>
        simp only [List.getElem?_nil]
        split <;> rfl
      | cons trail text =>
        have htwo : add? 64 (units.length - (lead :: trail :: text).length) 2 =
            some (units.length - text.length) := add?_position h hlen (Nat.le_add_left 2 _)
        simp only [List.getElem?_cons_zero, Reader.codePoint, StateT.run, htwo, Option.bind_some]
        by_cases hlead : Surrogate.isLead lead.toNat = true
        · by_cases htrail : Surrogate.isTrail trail.toNat = true
          · simp only [hlead, htrail, combine?_eq hlead htrail, if_true, Bool.and_self]
            rfl
          · simp only [hlead, htrail, if_true, Bool.true_and]
            rfl
        · simp only [hlead, Bool.false_and]
          rfl

theorem follows_many {r? : List CodeUnit → Nat → Option (Option (α × Nat))} {r : Reader α}
    (hr : Follows mode r? r) (hrest : ∀ text a rest, r.run text = some (a, rest) → rest <:+ text)
    (hlen : units.length < 2 ^ 32) (bound : List CodeUnit) (h : text <:+ units) :
    Yields mode units (many? (r? units) bound.length (units.length - text.length))
      ((Reader.manyWithin r bound text).1,
        units.length - (Reader.manyWithin r bound text).2.length) := by
  induction bound generalizing text with
  | nil => exact .of_eq rfl
  | cons u bound ih =>
    rw [List.length_cons, many?, Reader.manyWithin]
    refine (hr units text h hlen).bind ?_
    cases hrun : r.run text with
    | none => exact .of_eq rfl
    | some found => exact (ih ((hrest text _ _ hrun).trans h)).bind (.of_eq rfl)

/-- What is taken one by one is the run of characters. -/
theorem follows_span (p : Char → Bool) (hlen : units.length < 2 ^ 32) (h : text <:+ units) :
    Yields mode units (many? (ascii? p units) units.length (units.length - text.length))
      ((Reader.asciiSpan p text).1, units.length - (Reader.asciiSpan p text).2.length) := by
  have hascii : Follows mode (ascii? p) (Reader.ascii p) := follows_ascii p
  have hmany := follows_many hascii
    (fun _ _ _ => (.ascii p : (Reader.ascii p).Parts mode).suffix_of_run) hlen units h
  rwa [Reader.manyWithin_ascii p h.length_le] at hmany

theorem follows_asciiRun (p : Char → Bool) : Follows mode (asciiRun? p) (Reader.asciiRun p) := by
  intro units text h hlen
  rw [asciiRun?, Reader.run_asciiRun]
  refine (follows_span p hlen h).bind (.of_eq ?_)
  simp only [Option.pure_def]
  split <;> rfl

/-- The digits after a brace are counted, unless there are too many. -/
theorem follows_bracedDigits (hmode : mode = .unicode) :
    Follows mode bracedDigits? Grammar.bracedDigits := by
  intro units text h hlen
  rw [bracedDigits?, Reader.run_bracedDigits]
  refine (follows_word ['u', '{'] units text h hlen).bind ?_
  cases hopen : (Reader.word ['u', '{']).run text with
  | none => exact .of_eq rfl
  | some found =>
    have htext : text = encode ['u', '{'] ++ found.2 := Reader.run_word_eq_some_iff.1 hopen
    have hinside : found.2 <:+ units := List.IsSuffix.trans ⟨_, htext.symm⟩ h
    refine (follows_span Numeral.isHexDigit hlen hinside).bind (Yields.bind ?_ (.of_eq rfl))
    rw [count?_eq]
    split
    next => exact .of_eq rfl
    next hlong =>
      refine Or.inr ⟨rfl, fun hcount => hlong ?_⟩
      refine hcount hmode _ (fun _ => Reader.of_mem_asciiSpan) ?_
      have hprefix :
          encode (['u', '{'] ++ (Reader.asciiSpan Numeral.isHexDigit found.2).1) <+: text := by
        refine ⟨(Reader.asciiSpan Numeral.isHexDigit found.2).2, ?_⟩
        rw [encode_append, List.append_assoc, Reader.encode_asciiSpan, ← htext]
      exact hprefix.isInfix.trans h.isInfix

/-- From a place in a text that is not too long, no operation of a reader fails but a count. -/
theorem follows_checked {r : Reader α} (parts : r.Parts mode) :
    Follows mode parts.checked r := by
  induction parts with
  | pure a => exact fun _ _ _ _ => .of_eq rfl
  | failure => exact fun _ _ _ _ => .of_eq rfl
  | @bind _ _ r f first next ih ih' =>
    intro units text h hlen
    rw [Reader.Parts.checked, StateT.run_bind]
    refine (ih units text h hlen).bind ?_
    cases hrun : r.run text with
    | none => exact .of_eq rfl
    | some found => exact ih' found.1 units found.2 ((first.suffix_of_run hrun).trans h) hlen
  | @orElse _ r s first second ih ih' =>
    intro units text h hlen
    have hrun : (r <|> s).run text = (r.run text <|> s.run text) := rfl
    rw [Reader.Parts.checked, hrun]
    refine (ih units text h hlen).bind ?_
    cases r.run text with
    | none => exact ih' units text h hlen
    | some found => exact .of_eq rfl
  | ite c first second ih ih' =>
    intro units text h hlen
    rw [Reader.Parts.checked]
    split
    · exact ih units text h hlen
    · exact ih' units text h hlen
  | isAt w =>
    intro units text h hlen
    rw [Reader.Parts.checked, slice?_eq h]
    exact .of_eq rfl
  | @ahead _ r parts ih =>
    intro units text h hlen
    have hrun : (Reader.ahead r).run text = (r.run text).map fun _ => ((), text) := rfl
    rw [Reader.Parts.checked, hrun]
    refine (ih units text h hlen).bind (.of_eq ?_)
    cases r.run text <;> rfl
  | @notAhead _ r parts ih =>
    intro units text h hlen
    have hrun : (Reader.notAhead r).run text = Reader.notAhead r text := rfl
    rw [Reader.Parts.checked, hrun, Reader.notAhead]
    refine (ih units text h hlen).bind (.of_eq ?_)
    cases r.run text <;> rfl
  | word w => exact follows_word w
  | ascii p => exact follows_ascii p
  | codePoint => exact follows_codePoint
  | asciiRun p => exact follows_asciiRun p
  | bracedDigits hmode => exact follows_bracedDigits hmode
  | many parts ih =>
    intro units text h hlen
    rw [Reader.Parts.checked, slice?_eq h]
    exact (follows_many ih (fun _ _ _ => parts.suffix_of_run) hlen text h).bind (.of_eq rfl)

end Checked

end EcmaPattern
