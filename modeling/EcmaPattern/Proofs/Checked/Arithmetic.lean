import EcmaPattern.Proofs.Run.Loop
import EcmaPattern.Proofs.Run.Value

namespace EcmaPattern

open CodeUnit

/-! # Arithmetic of a fixed width

The model counts in natural numbers. Here are its computations step by step in numbers of a fixed
width, where a step that would leave the range has no result.
-/

namespace Checked

/-- The number, if it has no more than so many bits. -/
def fit? (bits n : Nat) : Option Nat := if n < 2 ^ bits then some n else none

def add? (bits m n : Nat) : Option Nat := fit? bits (m + n)

def mul? (bits m n : Nat) : Option Nat := fit? bits (m * n)

/-- The difference, unless it is negative. -/
def sub? (m n : Nat) : Option Nat := if n ≤ m then some (m - n) else none

theorem add?_of_lt {bits m n : Nat} (h : m + n < 2 ^ bits) : add? bits m n = some (m + n) :=
  if_pos h

theorem mul?_of_lt {bits m n : Nat} (h : m * n < 2 ^ bits) : mul? bits m n = some (m * n) :=
  if_pos h

theorem sub?_of_le {m n : Nat} (h : n ≤ m) : sub? m n = some (m - n) := if_pos h

theorem sub?_add_left (m n : Nat) : sub? (m + n) m = some n := by
  rw [sub?_of_le (Nat.le_add_right m n), Nat.add_sub_cancel_left]

/-! ## Surrogates -/

/-- The code point of two surrogates, from how far each is from the first of its kind. -/
def combine? (lead trail : Nat) : Option Nat := do
  let high ← mul? 32 (← sub? lead 0xD800) 0x400
  let low ← sub? trail 0xDC00
  add? 32 (← add? 32 0x10000 high) low

/-- The code point of two surrogates, from the ten low bits of each. -/
def combineBits? (lead trail : Nat) : Option Nat := do
  let high ← mul? 32 (lead &&& 0x3FF) 0x400
  add? 32 (← add? 32 0x10000 high) (trail &&& 0x3FF)

section

variable {lead trail : Nat}

theorem combine?_eq (hlead : Surrogate.isLead lead = true)
    (htrail : Surrogate.isTrail trail = true) :
    combine? lead trail = some (Surrogate.combine lead trail) := by
  rw [Surrogate.isLead_iff] at hlead
  rw [Surrogate.isTrail_iff] at htrail
  obtain ⟨high, rfl⟩ : ∃ high, lead = 0xD800 + high := Nat.exists_eq_add_of_le hlead.1
  obtain ⟨low, rfl⟩ : ∃ low, trail = 0xDC00 + low := Nat.exists_eq_add_of_le htrail.1
  have hhigh : mul? 32 high 0x400 = some (high * 0x400) := mul?_of_lt (by omega)
  have hbase : add? 32 0x10000 (high * 0x400) = some (0x10000 + high * 0x400) :=
    add?_of_lt (by omega)
  have hsum : add? 32 (0x10000 + high * 0x400) low = some (0x10000 + high * 0x400 + low) :=
    add?_of_lt (by omega)
  have hcombine : 0x10000 + high * 0x400 + low =
      Surrogate.combine (0xD800 + high) (0xDC00 + low) := by
    unfold Surrogate.combine
    omega
  simp only [combine?, sub?_add_left, Option.bind_eq_bind, Option.bind_some, hhigh, hbase, hsum,
    hcombine]

theorem combineBits?_eq (hlead : Surrogate.isLead lead = true)
    (htrail : Surrogate.isTrail trail = true) :
    combineBits? lead trail = some (Surrogate.combine lead trail) := by
  rw [Surrogate.isLead_iff] at hlead
  rw [Surrogate.isTrail_iff] at htrail
  have hbits (n : Nat) : n &&& 0x3FF = n % 0x400 := Nat.and_two_pow_sub_one_eq_mod n 10
  have hhigh : mul? 32 (lead % 0x400) 0x400 = some (lead % 0x400 * 0x400) :=
    mul?_of_lt (by omega)
  have hbase : add? 32 0x10000 (lead % 0x400 * 0x400) = some (0x10000 + lead % 0x400 * 0x400) :=
    add?_of_lt (by omega)
  have hsum : add? 32 (0x10000 + lead % 0x400 * 0x400) (trail % 0x400) =
      some (0x10000 + lead % 0x400 * 0x400 + trail % 0x400) := add?_of_lt (by omega)
  have hcombine : 0x10000 + lead % 0x400 * 0x400 + trail % 0x400 =
      Surrogate.combine lead trail := by
    unfold Surrogate.combine
    omega
  simp only [combineBits?, hbits, Option.bind_eq_bind, Option.bind_some, hhigh, hbase, hsum,
    hcombine]

end

/-! ## Numerals -/

/-- The value of a decimal digit, from how far it is from zero. -/
def decimalDigit? (c : Char) : Option Nat := sub? c.toNat '0'.toNat

/-- The value of a numeral whose digits have the values that `digit?` says. -/
def value? (digit? : Char → Option Nat) (base : Nat) (digits : List Char) : Option Nat :=
  digits.foldlM (fun v c => do add? 32 (← mul? 32 v base) (← digit? c)) 0

/-- The value of a decimal numeral, where sums and products stop at `cap`. -/
def saturated? (cap : Nat) (digits : List Char) : Option Nat :=
  digits.foldlM (fun v c => do return min cap (min cap (v * 10) + (← decimalDigit? c))) 0

/-- How many digits there are, in 32 bits of which one is for the sign. -/
def count? (digits : List Char) : Option Int32 :=
  Int32.ofNat <$> digits.foldlM (fun n _ => add? 31 n 1) 0

theorem decimalDigit?_eq {c : Char} (h : c.isDigit = true) :
    decimalDigit? c = some (Numeral.digitValue c) := by
  have hzero : '0'.toNat ≤ c.toNat := (Numeral.toNat_of_isDigit h).1
  rw [decimalDigit?, sub?_of_le hzero, Numeral.digitValue, if_pos h]

/-- A numeral is read without a step out of range if all numerals of its length are in range. -/
theorem value?_eq {digit? : Char → Option Nat} {base : Nat} {digits : List Char}
    (hdigit : ∀ c ∈ digits,
      digit? c = some (Numeral.digitValue c) ∧ Numeral.digitValue c < base)
    (hfits : base ^ digits.length ≤ 2 ^ 32) :
    value? digit? base digits = some (Numeral.value base digits) := by
  -- the value so far has room for the digits that are still to come
  suffices haux : ∀ v, (v + 1) * base ^ digits.length ≤ 2 ^ 32 →
      digits.foldlM (fun v c => do add? 32 (← mul? 32 v base) (← digit? c)) v =
        some (digits.foldl (fun v c => v * base + Numeral.digitValue c) v) by
    exact haux 0 (by omega)
  clear hfits
  induction digits with
  | nil => exact fun _ _ => rfl
  | cons c digits ih =>
    intro v hroom
    rw [List.forall_mem_cons] at hdigit
    rcases hdigit with ⟨⟨hc, hlt⟩, hdigits⟩
    have hnext : (v * base + Numeral.digitValue c + 1) * base ^ digits.length ≤ 2 ^ 32 :=
      calc
        (v * base + Numeral.digitValue c + 1) * base ^ digits.length
        _ ≤ ((v + 1) * base) * base ^ digits.length :=
          Nat.mul_le_mul_right _ (by rw [Nat.succ_mul]; omega)
        _ = (v + 1) * base ^ (c :: digits).length := by
          rw [List.length_cons, Nat.pow_succ, Nat.mul_assoc, Nat.mul_comm base]
        _ ≤ 2 ^ 32 := hroom
    have hone : 1 ≤ base ^ digits.length := Nat.pow_pos (Nat.zero_lt_of_lt hlt)
    have hsmall : v * base + Numeral.digitValue c + 1 ≤ 2 ^ 32 :=
      Nat.le_trans (Nat.le_mul_of_pos_right _ hone) hnext
    have hmul : mul? 32 v base = some (v * base) := mul?_of_lt (by omega)
    have hadd : add? 32 (v * base) (Numeral.digitValue c) =
        some (v * base + Numeral.digitValue c) := add?_of_lt (by omega)
    simp only [List.foldlM_cons, List.foldl_cons, hc, hmul, hadd, Option.bind_eq_bind,
      Option.bind_some]
    exact ih hdigits _ hnext

theorem saturated?_eq {cap : Nat} {digits : List Char} (h : ∀ c ∈ digits, c.isDigit = true) :
    saturated? cap digits = some (Numeral.saturated 10 cap digits) := by
  suffices haux : ∀ v,
      digits.foldlM (fun v c => do return min cap (min cap (v * 10) + (← decimalDigit? c))) v =
        some (digits.foldl (fun v c => min cap (v * 10 + Numeral.digitValue c)) v) from haux 0
  induction digits with
  | nil => exact fun _ => rfl
  | cons c digits ih =>
    intro v
    rw [List.forall_mem_cons] at h
    have hmin : min cap (min cap (v * 10) + Numeral.digitValue c) =
        min cap (v * 10 + Numeral.digitValue c) := by omega
    simp only [List.foldlM_cons, List.foldl_cons, decimalDigit?_eq h.1, Option.bind_eq_bind,
      Option.bind_some, Option.pure_def, hmin]
    exact ih h.2 _

/-- Digits are counted as long as there are less than `2 ^ 31`, and no further. -/
theorem count?_eq (digits : List Char) :
    count? digits = if digits.length < 2 ^ 31 then some (Numeral.count digits) else none := by
  -- the count so far is general in the induction, as long as it is one
  have haux (n : Nat) (hn : n < 2 ^ 31) : digits.foldlM (fun n _ => add? 31 n 1) n =
      if n + digits.length < 2 ^ 31 then some (n + digits.length) else none := by
    induction digits generalizing n with
    | nil => exact (if_pos hn).symm
    | cons c digits ih =>
      rw [List.foldlM_cons, List.length_cons, add?, fit?]
      split
      next hfits =>
        rw [Option.bind_eq_bind, Option.bind_some, ih (n + 1) hfits, Nat.add_assoc,
          Nat.add_comm 1]
      next hover =>
        have hlong : ¬ n + (digits.length + 1) < 2 ^ 31 := by omega
        exact (if_neg hlong).symm
  rw [count?, haux 0 (by decide), Nat.zero_add, Numeral.count_eq]
  split <;> rfl

/-! ## Escapes -/

section

variable {α β : Type} {P : α → Prop} {r : Reader α}

/-- What a reader goes on with matters for what it finds only. -/
theorem bind_congr_of_finds {f g : α → Reader β} (hr : r.Finds P) (h : ∀ a, P a → f a = g a) :
    r >>= f = r >>= g := by
  funext text
  change (r >>= f).run text = (r >>= g).run text
  rw [StateT.run_bind, StateT.run_bind]
  cases hrun : r.run text with
  | none => rfl
  | some found =>
    change (f found.1).run found.2 = (g found.1).run found.2
    rw [h found.1 (hr text _ _ hrun)]

theorem map_congr_of_finds {f g : α → β} (hr : r.Finds P) (h : ∀ a, P a → f a = g a) :
    f <$> r = g <$> r := by
  rw [map_eq_pure_bind, map_eq_pure_bind]
  exact bind_congr_of_finds hr fun a ha => congrArg pure (h a ha)

/-- A reader that computes in steps that may fail, where none of them does. -/
theorem bind_some_of_finds {f : α → Reader (Option β)} {g : α → Reader β} (hr : r.Finds P)
    (h : ∀ a, P a → f a = some <$> g a) : r >>= f = some <$> (r >>= g) := by
  rw [map_bind]
  exact bind_congr_of_finds hr h

theorem pure_some {o : Option β} {b : β} (h : o = some b) :
    (pure o : Reader (Option β)) = some <$> pure b := by
  rw [map_pure, h]

end

open Reader Grammar

/-- The value of `n` hexadecimal digits. -/
def hexDigits? (n : Nat) : Reader (Option Nat) :=
  value? (fun c => some (Numeral.digitValue c)) 16 <$> exactly n (ascii Numeral.isHexDigit)

/-- The value of an octal escape. -/
def octalEscape? : Reader (Option Nat) := do
  let first ← ascii Numeral.isOctalDigit
  let more ← upTo (if first ≤ '3' then 2 else 1) (ascii Numeral.isOctalDigit)
  return value? decimalDigit? 8 (first :: more)

/-- The code point of a pair of surrogates, of which the second is read. -/
def trailEscape? (lead : Nat) : Reader (Option Nat) := do
  word ['\\']
  let trail ← unitEscape
  guard (Surrogate.isTrail trail)
  return combineBits? lead trail

/-- The number of a reference. -/
def reference? : Reader (Option Nat) := saturated? largestReference <$> digits

/-- Computed in 32 bits, the numbers of escapes are those of the grammar. Only the count of the
digits in braces may have no place there. -/
structure EscapesExact : Prop where
  hexDigits : ∀ n ≤ 4, hexDigits? n = some <$> Grammar.hexDigits n
  octalEscape : octalEscape? = some <$> Grammar.octalEscape
  trailEscape : ∀ lead, Surrogate.isLead lead = true →
    trailEscape? lead = some <$> Grammar.trailEscape lead
  reference : reference? = some <$> Numeral.saturated 10 largestReference <$> digits
  count : ∀ digits,
    count? digits = if digits.length < 2 ^ 31 then some (Numeral.count digits) else none

theorem hexDigits?_eq {n : Nat} (hn : n ≤ 4) : hexDigits? n = some <$> Grammar.hexDigits n := by
  rw [Grammar.hexDigits, Functor.map_map]
  refine map_congr_of_finds (.exactly (.ascii _) n) fun digits hdigits => value?_eq ?_ ?_
  · exact fun c hc => ⟨rfl, Numeral.digitValue_lt_of_isHexDigit (hdigits.2 c hc)⟩
  · rw [hdigits.1]
    exact Nat.le_trans (Nat.pow_le_pow_right (by decide) hn) (by decide)

theorem octalEscape?_eq : octalEscape? = some <$> Grammar.octalEscape := by
  refine bind_some_of_finds (.ascii _) fun first hfirst =>
    bind_some_of_finds (.upTo (.ascii _) _) fun more hmore => pure_some (value?_eq ?_ ?_)
  · have hoctal (c : Char) (hc : c ∈ first :: more) : Numeral.isOctalDigit c = true := by
      rcases List.mem_cons.1 hc with rfl | hc
      · exact hfirst
      · exact hmore.2 c hc
    exact fun c hc => ⟨decimalDigit?_eq (isDigit_of_isOctalDigit (hoctal c hc)),
      digitValue_lt_of_isOctalDigit (hoctal c hc)⟩
  · have hlength : more.length ≤ 2 := Nat.le_trans hmore.1 (by split <;> decide)
    exact Nat.le_trans (Nat.pow_le_pow_right (by decide) (Nat.succ_le_succ hlength)) (by decide)

theorem trailEscape?_eq {lead : Nat} (hlead : Surrogate.isLead lead = true) :
    trailEscape? lead = some <$> Grammar.trailEscape lead :=
  bind_some_of_finds (.any _) fun _ _ => bind_some_of_finds (.any _) fun _ _ =>
    bind_some_of_finds (.of_guard _) fun _ htrail => pure_some (combineBits?_eq hlead htrail)

theorem reference?_eq :
    reference? = some <$> Numeral.saturated 10 largestReference <$> digits := by
  rw [Functor.map_map]
  have hdigits : digits.Finds fun number => ∀ c ∈ number, c.isDigit = true :=
    fun _ _ _ hrun => (of_run_asciiRun hrun).2.2
  exact map_congr_of_finds hdigits fun number => saturated?_eq

theorem escapesExact : EscapesExact :=
  ⟨fun _ => hexDigits?_eq, octalEscape?_eq, fun _ => trailEscape?_eq, reference?_eq, count?_eq⟩

end Checked

end EcmaPattern
