namespace EcmaPattern.Numeral

/-! # Numerals

Digits are given as characters, the most significant first. A numeral may be of any length, so the
program never builds its value: it saturates, or it compares numerals by their digits.
-/

/-- The value of a digit: `0` to `9`, then `a` to `f` in either case. -/
def digitValue (c : Char) : Nat :=
  if c.isDigit then c.toNat - '0'.toNat
  else if c.isLower then c.toNat - 'a'.toNat + 10
  else c.toNat - 'A'.toNat + 10

/-- A decimal digit, or a letter up to `f` in either case. -/
def isHexDigit (c : Char) : Bool :=
  c.isDigit || ('a' ≤ c && c ≤ 'f') || ('A' ≤ c && c ≤ 'F')

/-- A digit below eight. -/
def isOctalDigit (c : Char) : Bool := '0' ≤ c && c ≤ '7'

/-- The value of a numeral. -/
def value (base : Nat) (digits : List Char) : Nat :=
  digits.foldl (fun v c => v * base + digitValue c) 0

/-- The value of a numeral, or `cap` once the digits read so far reach it. -/
def saturated (base cap : Nat) (digits : List Char) : Nat :=
  digits.foldl (fun v c => min cap (v * base + digitValue c)) 0

/-- How many digits there are, in a count of 32 bits that wraps around: `2 ^ 31` digits count as a
negative number and `2 ^ 32` as none. -/
def count (digits : List Char) : Int32 := digits.foldl (fun n _ => n + 1) 0

/-- A numeral without its leading zeros. -/
def significant (digits : List Char) : List Char := digits.dropWhile (· == '0')

/-- Whether `m` is at most `n`, for decimal numerals: without leading zeros, a shorter numeral is
smaller, and numerals of one length are ordered as their texts are. -/
def le (m n : List Char) : Bool :=
  let m := significant m
  let n := significant n
  m.length < n.length || (m.length == n.length && !(n < m))

/-! ## Saturation -/

theorem foldl_saturated (base cap : Nat) (hb : 0 < base) (digits : List Char) (v : Nat) :
    digits.foldl (fun v c => min cap (v * base + digitValue c)) (min cap v) =
      min cap (digits.foldl (fun v c => v * base + digitValue c) v) := by
  induction digits generalizing v with
  | nil => rfl
  | cons c digits ih =>
    have step : min cap (min cap v * base + digitValue c) = min cap (v * base + digitValue c) := by
      rcases Nat.le_total cap v with h | h
      · have h1 : cap ≤ cap * base := Nat.le_mul_of_pos_right cap hb
        have h2 : cap * base ≤ v * base := Nat.mul_le_mul_right base h
        rw [Nat.min_eq_left h]
        omega
      · rw [Nat.min_eq_right h]
    rw [List.foldl_cons, List.foldl_cons, step, ih]

/-- Saturation loses nothing below the cap. -/
theorem saturated_eq_min (base cap : Nat) (hb : 0 < base) (digits : List Char) :
    saturated base cap digits = min cap (value base digits) := by
  have h := foldl_saturated base cap hb digits 0
  rwa [Nat.min_zero] at h

end EcmaPattern.Numeral
