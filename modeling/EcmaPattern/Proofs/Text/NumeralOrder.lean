import Mathlib.Algebra.Group.Nat.Defs
import EcmaPattern.Text.Numeral

namespace EcmaPattern.Numeral

/-! # The order of numerals

Comparing decimal numerals by their digits is comparing their values, whatever their lengths and
however many zeros they start with. Their digits are counted up to multiples of `2 ^ 32`.
-/

theorem toNat_of_isDigit {c : Char} (h : c.isDigit = true) : 48 ≤ c.toNat ∧ c.toNat ≤ 57 := by
  simp only [Char.isDigit, Bool.and_eq_true, decide_eq_true_eq, ge_iff_le, UInt32.le_iff_toNat_le]
    at h
  exact h

theorem toNat_of_isAlpha {c : Char} (h : c.isAlpha = true) :
    (65 ≤ c.toNat ∧ c.toNat ≤ 90) ∨ (97 ≤ c.toNat ∧ c.toNat ≤ 122) := by
  have h' : (decide ('A'.val ≤ c.val ∧ c.val ≤ 'Z'.val) ||
      (decide ('a'.val ≤ c.val) && decide (c.val ≤ 'z'.val))) = true := h
  simp only [Bool.or_eq_true, Bool.and_eq_true, decide_eq_true_eq, UInt32.le_iff_toNat_le] at h'
  exact h'

theorem not_isDigit_of_isAlpha {c : Char} (h : c.isAlpha = true) : c.isDigit = false := by
  rw [Bool.eq_false_iff]
  intro hdigit
  have := toNat_of_isAlpha h
  have := toNat_of_isDigit hdigit
  omega

theorem digitValue_of_isDigit {c : Char} (h : c.isDigit = true) :
    digitValue c = c.toNat - 48 ∧ digitValue c < 10 := by
  have hc := toNat_of_isDigit h
  have hval : digitValue c = c.toNat - 48 := by simp [digitValue, h]
  omega

theorem isLower_iff {c : Char} : c.isLower = true ↔ 97 ≤ c.toNat ∧ c.toNat ≤ 122 := by
  have hlower : c.isLower = (decide ('a'.val ≤ c.val) && decide (c.val ≤ 'z'.val)) := rfl
  rw [hlower, Bool.and_eq_true, decide_eq_true_eq, decide_eq_true_eq]
  exact Iff.rfl

theorem digitValue_lt_of_isHexDigit {c : Char} (h : isHexDigit c = true) : digitValue c < 16 := by
  simp only [isHexDigit, Bool.or_eq_true, Bool.and_eq_true, decide_eq_true_eq, Char.le_def,
    UInt32.le_iff_toNat_le] at h
  have hletter (hc : 65 ≤ c.toNat) : c.isDigit = false := by
    rw [Bool.eq_false_iff]
    intro hdigit
    have := toNat_of_isDigit hdigit
    omega
  rcases h with (h | ⟨hfirst, hlast⟩) | ⟨hfirst, hlast⟩
  · exact Nat.lt_trans (digitValue_of_isDigit h).2 (by decide)
  · have hlower : c.isLower = true := isLower_iff.2 ⟨hfirst, Nat.le_trans hlast (by decide)⟩
    have ha : 'a'.toNat = 97 := rfl
    have hfirst : 97 ≤ c.toNat := hfirst
    have hlast : c.toNat ≤ 102 := hlast
    simp only [digitValue, hletter (by omega), hlower, Bool.false_eq_true, if_false, if_true]
    omega
  · have hA : 'A'.toNat = 65 := rfl
    have hfirst : 65 ≤ c.toNat := hfirst
    have hlast : c.toNat ≤ 70 := hlast
    have hlower : c.isLower = false := by
      rw [Bool.eq_false_iff]
      intro hlower
      have := isLower_iff.1 hlower
      omega
    simp only [digitValue, hletter hfirst, hlower, Bool.false_eq_true, if_false]
    omega

/-! ## Counts -/

theorem foldl_count (digits : List Char) (n : Int32) :
    digits.foldl (fun n _ => n + 1) n = n + Int32.ofNat digits.length := by
  induction digits generalizing n with
  | nil => exact (Int32.add_zero n).symm
  | cons c digits ih =>
    rw [List.foldl_cons, ih, List.length_cons, Int32.ofNat_add, Int32.add_assoc,
      Int32.add_comm 1]
    rfl

theorem count_eq (digits : List Char) : count digits = Int32.ofNat digits.length := by
  rw [count, foldl_count, Int32.zero_add]

/-- The count is zero again after each `2 ^ 32` digits. -/
theorem count_eq_zero_iff {digits : List Char} : count digits = 0 ↔ 2 ^ 32 ∣ digits.length := by
  have hbits : (Int32.ofNat digits.length).toBitVec = BitVec.ofNat 32 digits.length := rfl
  have hzero : (0 : Int32).toBitVec = BitVec.ofNat 32 0 := rfl
  rw [count_eq, ← Int32.toBitVec_inj, hbits, hzero, ← BitVec.toNat_inj, BitVec.toNat_ofNat,
    BitVec.toNat_ofNat, Nat.zero_mod, Nat.dvd_iff_mod_eq_zero]

/-! ## Values -/

theorem foldl_value (base : Nat) (digits : List Char) (v : Nat) :
    digits.foldl (fun v c => v * base + digitValue c) v =
      v * base ^ digits.length + value base digits := by
  -- the accumulator grows with each digit, so it is general in the induction
  induction digits generalizing v with
  | nil => simp [value]
  | cons c digits ih =>
    simp only [value, List.foldl_cons, List.length_cons]
    rw [ih, ih (0 * base + digitValue c), Nat.pow_succ, Nat.add_mul, Nat.zero_mul, Nat.zero_add,
      Nat.mul_assoc, Nat.mul_comm base, Nat.add_assoc]

theorem value_cons (base : Nat) (c : Char) (digits : List Char) :
    value base (c :: digits) = digitValue c * base ^ digits.length + value base digits := by
  simp only [value, List.foldl_cons]
  rw [foldl_value]
  simp [value]

theorem value_lt_of_digits {base : Nat} {digits : List Char}
    (h : ∀ c ∈ digits, digitValue c < base) : value base digits < base ^ digits.length := by
  induction digits with
  | nil => exact Nat.one_pos
  | cons c digits ih =>
    rw [List.forall_mem_cons] at h
    have hrest := ih h.2
    have hmul : (digitValue c + 1) * base ^ digits.length ≤ base * base ^ digits.length :=
      Nat.mul_le_mul_right _ h.1
    rw [Nat.add_mul, Nat.one_mul] at hmul
    rw [value_cons, List.length_cons, Nat.pow_succ, Nat.mul_comm _ base]
    omega

theorem value_lt_pow {digits : List Char} (h : ∀ c ∈ digits, c.isDigit = true) :
    value 10 digits < 10 ^ digits.length :=
  value_lt_of_digits fun c hc => (digitValue_of_isDigit (h c hc)).2

/-! ## Leading zeros -/

theorem value_zeros_append (base n : Nat) (digits : List Char) :
    value base (List.replicate n '0' ++ digits) = value base digits := by
  induction n with
  | zero => rfl
  | succ n ih =>
    have hzero : digitValue '0' = 0 := rfl
    rw [List.replicate_succ, List.cons_append, value_cons, ih, hzero, Nat.zero_mul, Nat.zero_add]

theorem value_zeros (base n : Nat) : value base (List.replicate n '0') = 0 := by
  have happend := value_zeros_append base n []
  rwa [List.append_nil] at happend

theorem isHexDigit_of_mem_zeros {n : Nat} {d : Char} (h : d ∈ List.replicate n '0') :
    isHexDigit d = true := by
  rw [List.eq_of_mem_replicate h]
  decide

theorem value_significant (digits : List Char) :
    value 10 (significant digits) = value 10 digits := by
  induction digits with
  | nil => rfl
  | cons c digits ih =>
    by_cases hc : c = '0'
    · subst hc
      have hzero : digitValue '0' = 0 := rfl
      rw [value_cons, hzero, Nat.zero_mul, Nat.zero_add, ← ih]
      rfl
    · have hkeep : significant (c :: digits) = c :: digits := by simp [significant, hc]
      rw [hkeep]

theorem isDigit_of_mem_significant {digits : List Char} (h : ∀ c ∈ digits, c.isDigit = true)
    {c : Char} (hc : c ∈ significant digits) : c.isDigit = true :=
  h c ((List.dropWhile_sublist _).mem hc)

/-- A numeral without leading zeros has at least the value that its length promises. -/
theorem pow_le_value_significant {digits : List Char} (h : ∀ c ∈ digits, c.isDigit = true)
    {n : Nat} (hn : n < (significant digits).length) : 10 ^ n ≤ value 10 digits := by
  rw [← value_significant]
  have hdigit := fun c hc => isDigit_of_mem_significant h (c := c) hc
  cases hs : significant digits with
  | nil => simp [hs] at hn
  | cons c rest =>
    -- what is left after the zeros does not start with one
    have hc : c ≠ '0' := by
      have := List.head?_dropWhile_not (p := (· == '0')) digits
      rw [show List.dropWhile (· == '0') digits = c :: rest from hs] at this
      simpa using this
    have hpos : 1 ≤ digitValue c := by
      have hd : c.isDigit = true := hdigit c (by simp [hs])
      have hne : c.toNat ≠ '0'.toNat := fun he => hc (Char.toNat_inj.1 he)
      have h48 : '0'.toNat = 48 := rfl
      have := toNat_of_isDigit hd
      have := digitValue_of_isDigit hd
      omega
    have hmul : 1 * 10 ^ rest.length ≤ digitValue c * 10 ^ rest.length :=
      Nat.mul_le_mul_right _ hpos
    have hmono : 10 ^ n ≤ 10 ^ rest.length := by
      apply Nat.pow_le_pow_right (by omega)
      simp only [hs, List.length_cons] at hn
      omega
    rw [value_cons]
    omega

/-! ## Order -/

/-- Numerals of one length are ordered as their texts are. -/
theorem lt_iff_value_lt {m n : List Char} (hm : ∀ c ∈ m, c.isDigit = true)
    (hn : ∀ c ∈ n, c.isDigit = true) (hlen : m.length = n.length) :
    m < n ↔ value 10 m < value 10 n := by
  induction m generalizing n with
  | nil =>
    obtain rfl := List.length_eq_zero_iff.1 hlen.symm
    simp
  | cons c m ih =>
    cases n with
    | nil => simp at hlen
    | cons d n =>
      have hlen' : m.length = n.length := by simpa using hlen
      have hm' : ∀ e ∈ m, e.isDigit = true := fun e he => hm e (by simp [he])
      have hn' : ∀ e ∈ n, e.isDigit = true := fun e he => hn e (by simp [he])
      have hc := digitValue_of_isDigit (hm c (by simp))
      have hd := digitValue_of_isDigit (hn d (by simp))
      have hc' := toNat_of_isDigit (hm c (by simp))
      have hd' := toNat_of_isDigit (hn d (by simp))
      have hltm := value_lt_pow hm'
      have hltn := value_lt_pow hn'
      rw [List.cons_lt_cons_iff, ih hm' hn' hlen', value_cons, value_cons, hlen', Char.lt_def,
        UInt32.lt_iff_toNat_lt, ← Char.toNat_inj]
      change c.toNat < d.toNat ∨ _ ↔ _
      rw [hlen'] at hltm
      -- the weight of the first digit; what follows in either numeral is less than it
      generalize 10 ^ n.length = k at *
      rcases Nat.lt_trichotomy (digitValue c) (digitValue d) with h | h | h
      · have hmul : (digitValue c + 1) * k ≤ digitValue d * k := Nat.mul_le_mul_right _ h
        rw [Nat.add_mul] at hmul
        omega
      · rw [h]
        omega
      · have hmul : (digitValue d + 1) * k ≤ digitValue c * k := Nat.mul_le_mul_right _ h
        rw [Nat.add_mul] at hmul
        omega

/-- Numerals are compared by their values. -/
theorem le_iff_value_le {m n : List Char} (hm : ∀ c ∈ m, c.isDigit = true)
    (hn : ∀ c ∈ n, c.isDigit = true) : le m n = true ↔ value 10 m ≤ value 10 n := by
  have hm' := fun c hc => isDigit_of_mem_significant hm (c := c) hc
  have hn' := fun c hc => isDigit_of_mem_significant hn (c := c) hc
  simp only [le, Bool.or_eq_true, Bool.and_eq_true, decide_eq_true_eq, beq_iff_eq]
  -- numerals of different lengths are a power of ten apart; only those of one length are compared
  -- digit by digit
  rcases Nat.lt_trichotomy (significant m).length (significant n).length with h | h | h
  · have hlt := value_lt_pow hm'
    have hle := pow_le_value_significant hn h
    rw [value_significant] at hlt
    constructor
    · intro _
      omega
    · intro _
      exact Or.inl h
  · rw [← value_significant m, ← value_significant n, ← Nat.not_lt,
      ← lt_iff_value_lt hn' hm' h.symm]
    simp [h]
  · have hlt := value_lt_pow hn'
    have hle := pow_le_value_significant hm h
    rw [value_significant] at hlt
    constructor
    · rintro (h' | ⟨h', -⟩) <;> omega
    · intro _
      omega

end EcmaPattern.Numeral
