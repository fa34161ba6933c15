import EcmaPattern.Proofs.Text.Decoding
import EcmaPattern.Text.Numeral

namespace EcmaPattern.Scan

open CodeUnit

/-! # A flat scan

The scanner passes over a text once, from left to right. It knows no grammar: all that it keeps are
two flags. Where a group, a number or a reference starts, it notes what follows.
-/

variable {α β : Type}

/-- What a scan finds in a text. -/
@[ext]
structure Findings (α : Type) where
  /-- How many capturing groups start. -/
  groups : Nat := 0
  /-- What follows the question mark of each group with a name. -/
  names : List (List α) := []
  /-- The numbers after a backslash. -/
  numbers : List Nat := []
  /-- What follows each `k` after a backslash. -/
  references : List (List α) := []
  deriving DecidableEq, Repr

namespace Findings

/-- What is found in two texts, the second after the first. -/
instance : Append (Findings α) where
  append f g :=
    { groups := f.groups + g.groups
      names := f.names ++ g.names
      numbers := f.numbers ++ g.numbers
      references := f.references ++ g.references }

@[simp] theorem groups_append (f g : Findings α) : (f ++ g).groups = f.groups + g.groups := rfl

@[simp] theorem names_append (f g : Findings α) : (f ++ g).names = f.names ++ g.names := rfl

@[simp] theorem numbers_append (f g : Findings α) : (f ++ g).numbers = f.numbers ++ g.numbers := rfl

@[simp] theorem references_append (f g : Findings α) :
    (f ++ g).references = f.references ++ g.references := rfl

@[simp] theorem empty_append (f : Findings α) : ({} : Findings α) ++ f = f := by
  ext1 <;> simp

@[simp] theorem append_empty (f : Findings α) : f ++ ({} : Findings α) = f := by
  ext1 <;> simp

theorem append_assoc (f g h : Findings α) : f ++ g ++ h = f ++ (g ++ h) := by
  ext1 <;> simp [Nat.add_assoc]

/-- The same findings in a text that `g` takes to another one. -/
def map (g : List α → List β) (f : Findings α) : Findings β :=
  { groups := f.groups, names := f.names.map g, numbers := f.numbers
    references := f.references.map g }

theorem map_append (g : List α → List β) (f h : Findings α) :
    (f ++ h).map g = f.map g ++ h.map g := by
  ext1 <;> simp [map]

end Findings

/-! ## The scanner -/

/-- The two flags of the scanner. -/
structure Flags where
  /-- A backslash precedes, which is not escaped itself. -/
  escaped : Bool := false
  /-- A bracket has opened a class that no bracket has closed yet. -/
  inClass : Bool := false
  deriving DecidableEq, Repr

/-- The flags after the character `n`. -/
def Flags.next (flags : Flags) (n : Nat) : Flags :=
  { escaped := !flags.escaped && n == '\\'.toNat
    inClass :=
      -- an escaped bracket neither opens nor closes
      if flags.escaped then flags.inClass
      else if flags.inClass then n != ']'.toNat
      else n == '['.toNat }

variable (v : α → Nat)

/-- Whether the text starts with `w`, where `v` is the value of a character. -/
def startsWith (w : List Char) (text : List α) : Bool := (Text.ofWord w).isPrefixOf (text.map v)

/-- Whether the value is that of a digit. -/
def isDigit (n : Nat) : Bool := '0'.toNat ≤ n && n ≤ '9'.toNat

/-- The value of all the digits at the front of the text. -/
def numberAt (text : List α) : Nat :=
  Numeral.value 10 (((text.map v).takeWhile isDigit).map Char.ofNat)

/-- What starts with a parenthesis before the text: a capturing group, unless a question mark
follows that introduces no name. -/
def findsGroup (text : List α) : Findings α :=
  if !startsWith v ['?'] text then { groups := 1 }
  else if startsWith v ['?', '<'] text && !startsWith v ['?', '<', '='] text &&
      !startsWith v ['?', '<', '!'] text then
    { groups := 1, names := [text.drop 1] }
  else {}

/-- What starts with a backslash before the text: a reference by name, or a number. -/
def findsEscape (text : List α) : Findings α :=
  if startsWith v ['k'] text then { references := [text.drop 1] }
  else if !startsWith v ['0'] text && text.head?.any (isDigit ∘ v) then
    { numbers := [numberAt v text] }
  else {}

/-- What is found at the character `a` before the text. -/
def finds (flags : Flags) (a : α) (text : List α) : Findings α :=
  if flags.inClass then {}
  else if flags.escaped then findsEscape v (a :: text)
  else if v a == '('.toNat then findsGroup v text
  else {}

/-- All that is found in a text. -/
def scan : Flags → List α → Findings α
  | _, [] => {}
  | flags, a :: text => finds v flags a text ++ scan (flags.next (v a)) text

variable {v}

theorem startsWith_iff {w : List Char} {text : List α} :
    startsWith v w text = true ↔ ∃ q, text.map v = Text.ofWord w ++ q := by
  rw [startsWith, List.isPrefixOf_iff_prefix]
  constructor
  · intro h
    rcases h with ⟨q, h⟩
    exact ⟨q, h.symm⟩
  · intro h
    rcases h with ⟨q, h⟩
    exact ⟨q, h.symm⟩

theorem isDigit_of_not_ascii {n : Nat} (h : 0x80 ≤ n) : isDigit n = false := by
  have h9 : '9'.toNat = 57 := rfl
  rw [isDigit, Bool.and_eq_false_iff, decide_eq_false_iff_not, decide_eq_false_iff_not]
  omega

/-- Only characters in ASCII are looked for. -/
theorem finds_of_not_ascii {flags : Flags} {a : α} (h : 0x80 ≤ v a) (text : List α) :
    finds v flags a text = {} := by
  have hparen : (v a == '('.toNat) = false := by
    rw [beq_eq_false_iff_ne]
    exact Nat.ne_of_gt (Nat.lt_of_lt_of_le (by decide) h)
  have hstarts {c : Char} (hc : c.toNat < 0x80) : startsWith v [c] (a :: text) = false := by
    rw [Bool.eq_false_iff, ne_eq, startsWith_iff]
    intro h
    rcases h with ⟨q, hq⟩
    have := (List.cons.inj hq).1
    omega
  have hk : startsWith v ['k'] (a :: text) = false := hstarts (by decide)
  have hhead : (a :: text).head?.any (isDigit ∘ v) = false := isDigit_of_not_ascii h
  rw [finds, findsEscape, hk, hhead, hparen]
  simp

theorem next_of_not_ascii {flags : Flags} {n : Nat} (h : 0x80 ≤ n) :
    flags.next n = { inClass := flags.inClass } := by
  have hne {c : Char} (hc : c.toNat < 0x80) : (n == c.toNat) = false := by
    rw [beq_eq_false_iff_ne]
    omega
  have hclose : (n != ']'.toNat) = true := congrArg not (hne (by decide))
  rw [Flags.next, hclose, hne (c := '\\') (by decide), hne (c := '[') (by decide)]
  cases flags with
  | mk escaped inClass => cases escaped <;> cases inClass <;> rfl

/-! ## Code units and characters -/

variable {mode : Mode}

/-- A unit is a character, or the first of the two units of one. -/
theorem decode_cons (mode : Mode) (u : CodeUnit) (units : List CodeUnit) :
    decode mode (u :: units) = u.toNat :: decode mode units ∨
      ∃ w rest n, units = w :: rest ∧ decode mode (u :: units) = n :: decode mode rest ∧
        0x80 ≤ u.toNat ∧ 0x80 ≤ w.toNat ∧ 0x80 ≤ n := by
  cases mode with
  | legacy => exact Or.inl rfl
  | unicode =>
    cases units with
    | nil => exact Or.inl rfl
    | cons w rest =>
      by_cases hpair : (Surrogate.isLead u.toNat && Surrogate.isTrail w.toNat) = true
      · refine Or.inr ⟨w, rest, Surrogate.combine u.toNat w.toNat, rfl, ?_, ?_⟩
        · simp [decode, decodePairs, hpair]
        · simp only [Surrogate.isLead, Surrogate.isTrail, Bool.and_eq_true,
            decide_eq_true_eq] at hpair
          unfold Surrogate.combine
          omega
      · left
        simp [decode, decodePairs, hpair]

theorem startsWith_decode {w : List Char} (hw : ∀ c ∈ w, c.toNat < 0x80) (units : List CodeUnit) :
    startsWith id w (decode mode units) = startsWith UInt16.toNat w units := by
  rw [Bool.eq_iff_iff, startsWith_iff, startsWith_iff, List.map_id]
  change _ ↔ ∃ q, decode .legacy units = _
  constructor
  · intro h
    rcases h with ⟨q, h⟩
    rcases of_decode_append hw h with ⟨rest, rfl, -⟩
    exact ⟨_, decode_encode_append .legacy hw rest⟩
  · intro h
    rcases h with ⟨q, h⟩
    rcases of_decode_append hw h with ⟨rest, rfl, -⟩
    exact ⟨_, decode_encode_append mode hw rest⟩

theorem drop_decode {c : Char} (hc : c.toNat < 0x80) {units : List CodeUnit}
    (h : startsWith UInt16.toNat [c] units = true) :
    (decode mode units).drop 1 = decode mode (units.drop 1) := by
  rcases startsWith_iff.1 h with ⟨q, hq⟩
  cases units with
  | nil => contradiction
  | cons u units =>
    have hu : u.toNat = c.toNat := (List.cons.inj hq).1
    rw [decode_cons_of_ascii mode (by omega)]
    rfl

theorem digits_decode (units : List CodeUnit) :
    (decode mode units).takeWhile isDigit = (units.map UInt16.toNat).takeWhile isDigit := by
  induction units with
  | nil => rw [decode_nil, List.map_nil]
  | cons u units ih =>
    rw [List.map_cons, List.takeWhile_cons]
    rcases decode_cons mode u units with h | ⟨w, rest, n, rfl, h, hu, -, hn⟩
    · rw [h, List.takeWhile_cons, ih]
    · rw [h, List.takeWhile_cons, isDigit_of_not_ascii hn, isDigit_of_not_ascii hu]
      rfl

theorem head_decode (units : List CodeUnit) :
    (decode mode units).head?.any isDigit = units.head?.any (isDigit ∘ UInt16.toNat) := by
  cases units with
  | nil => rw [decode_nil]; rfl
  | cons u units =>
    rcases decode_cons mode u units with h | ⟨w, rest, n, rfl, h, hu, -, hn⟩
    · rw [h]
      rfl
    · rw [h]
      simp [isDigit_of_not_ascii hn, isDigit_of_not_ascii hu]

theorem findsGroup_decode (units : List CodeUnit) :
    findsGroup id (decode mode units) = (findsGroup UInt16.toNat units).map (decode mode) := by
  rw [findsGroup, findsGroup, startsWith_decode (by decide), startsWith_decode (by decide),
    startsWith_decode (by decide), startsWith_decode (by decide)]
  cases hmark : startsWith UInt16.toNat ['?'] units with
  | false => rfl
  | true =>
    rw [drop_decode (by decide) hmark]
    split
    · contradiction
    · split <;> rfl

theorem findsEscape_decode (units : List CodeUnit) :
    findsEscape id (decode mode units) = (findsEscape UInt16.toNat units).map (decode mode) := by
  have hdigits : numberAt id (decode mode units) = numberAt UInt16.toNat units := by
    rw [numberAt, numberAt, List.map_id, digits_decode]
  rw [findsEscape, findsEscape, startsWith_decode (by decide), startsWith_decode (by decide),
    Function.comp_id, head_decode, hdigits]
  cases hk : startsWith UInt16.toNat ['k'] units with
  | true => rw [drop_decode (by decide) hk]; rfl
  | false =>
    simp only [Bool.false_eq_true, if_false]
    split <;> rfl

theorem finds_decode {flags : Flags} {u : CodeUnit} {units : List CodeUnit}
    (h : decode mode (u :: units) = u.toNat :: decode mode units) :
    finds id flags u.toNat (decode mode units) =
      (finds UInt16.toNat flags u units).map (decode mode) := by
  rw [finds, finds]
  split
  · rfl
  · split
    · rw [← h, findsEscape_decode]
    · rw [id_eq]
      split
      · exact findsGroup_decode units
      · rfl

/-- A scan finds the same in the units as in the characters. -/
theorem scan_decode (mode : Mode) (flags : Flags) (units : List CodeUnit) :
    scan id flags (decode mode units) = (scan UInt16.toNat flags units).map (decode mode) := by
  -- a pair takes two units at once, so the induction is on how many units are left
  induction hlen : units.length using Nat.strongRecOn generalizing flags units with
  | ind n ih =>
    cases units with
    | nil =>
      rw [decode_nil]
      rfl
    | cons u units =>
      rw [List.length_cons] at hlen
      rcases decode_cons mode u units with h | ⟨w, rest, c, rfl, h, hu, hw, hc⟩
      · rw [h, scan, scan, Findings.map_append, finds_decode h, ih _ (by omega) _ units rfl]
        rfl
      · -- neither half of a pair nor the pair is looked for, and the flags end up the same
        rw [List.length_cons] at hlen
        rw [h, scan, scan, scan, finds_of_not_ascii hc, finds_of_not_ascii hu,
          finds_of_not_ascii hw, next_of_not_ascii hu, next_of_not_ascii hw, id_eq,
          next_of_not_ascii hc, Findings.empty_append, Findings.empty_append,
          Findings.empty_append, ih _ (by omega) _ rest rfl]

end EcmaPattern.Scan
