namespace EcmaPattern

/-! # UTF-16 code units

A pattern is read as UTF-16: a character up to FFFF is one unit, a character above it is a pair of
surrogates.
-/

/-- One 16-bit unit of a text. -/
abbrev CodeUnit := UInt16

/-! ## Surrogates -/

namespace Surrogate

/-- The values D800 to DBFF, which open a pair. -/
def isLead (n : Nat) : Bool := 0xD800 ≤ n && n ≤ 0xDBFF

/-- The values DC00 to DFFF, which close a pair. -/
def isTrail (n : Nat) : Bool := 0xDC00 ≤ n && n ≤ 0xDFFF

/-- The code point that a lead and a trail surrogate stand for together. -/
def combine (lead trail : Nat) : Nat :=
  0x10000 + (lead - 0xD800) * 0x400 + (trail - 0xDC00)

/-- The lead surrogate of a code point above FFFF. -/
def lead (n : Nat) : Nat := 0xD800 + (n - 0x10000) / 0x400

/-- The trail surrogate of a code point above FFFF. -/
def trail (n : Nat) : Nat := 0xDC00 + (n - 0x10000) % 0x400

theorem combine_lead_trail {n : Nat} (h : 0x10000 ≤ n) : combine (lead n) (trail n) = n := by
  unfold combine lead trail
  omega

theorem isLead_lead {n : Nat} (h : n ≤ 0x10FFFF) : isLead (lead n) = true := by
  simp only [isLead, Bool.and_eq_true, decide_eq_true_eq]
  unfold lead
  omega

theorem isTrail_trail (n : Nat) : isTrail (trail n) = true := by
  simp only [isTrail, Bool.and_eq_true, decide_eq_true_eq]
  unfold trail
  omega

end Surrogate

/-! ## Encoding -/

namespace CodeUnit

/-- The units of one character. -/
def ofChar (c : Char) : List CodeUnit :=
  if c.toNat < 0x10000 then
    [.ofNat c.toNat]
  else
    [.ofNat (Surrogate.lead c.toNat), .ofNat (Surrogate.trail c.toNat)]

/-- The units of a text. -/
def encode (text : List Char) : List CodeUnit := text.flatMap ofChar

@[simp] theorem encode_nil : encode [] = [] := rfl

@[simp] theorem encode_cons (c : Char) (text : List Char) :
    encode (c :: text) = ofChar c ++ encode text := rfl

@[simp] theorem encode_append (first second : List Char) :
    encode (first ++ second) = encode first ++ encode second := by
  simp [encode]

/-- The ASCII character that the unit is, if it is one. -/
def ascii? (u : CodeUnit) : Option Char :=
  if u < 0x80 then some (Char.ofNat u.toNat) else none

theorem ofChar_of_ascii {c : Char} (h : c.toNat < 0x80) : ofChar c = [.ofNat c.toNat] := by
  unfold ofChar
  rw [if_pos (by omega)]

/-- An ASCII character is written as the unit that it was read from. -/
theorem ofChar_of_ascii? {u : CodeUnit} {c : Char} (h : u.ascii? = some c) : ofChar c = [u] := by
  unfold ascii? at h
  split at h
  next hu =>
    have hu : u.toNat < 0x80 := UInt16.lt_iff_toNat_lt.1 hu
    obtain rfl := Option.some.inj h
    have hc : (Char.ofNat u.toNat).toNat = u.toNat := by
      rw [Char.ofNat, dif_pos (Or.inl (by omega))]
      rfl
    rw [ofChar_of_ascii (by omega), hc, UInt16.ofNat_toNat]
  next => contradiction

end CodeUnit

end EcmaPattern
