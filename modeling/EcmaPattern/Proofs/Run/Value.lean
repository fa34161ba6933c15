import EcmaPattern.Proofs.Recognition.Frame

namespace EcmaPattern

open CodeUnit

/-! # What readers find

Where a reader ends is said by its parts; here is what it finds. All characters that the grammar
reads are in the range of their mode, whether they stand for themselves or are escaped.
-/

/-- The largest code point of a mode. -/
def Mode.largest : Mode → Nat
  | .legacy => 0xFFFF
  | .unicode => 0x10FFFF

theorem Mode.le_largest (mode : Mode) {n : Nat} (h : n ≤ 0xFFFF) : n ≤ mode.largest := by
  cases mode with
  | legacy => exact h
  | unicode => exact Nat.le_trans h (by decide)

theorem Surrogate.isLead_iff {n : Nat} : isLead n = true ↔ 0xD800 ≤ n ∧ n ≤ 0xDBFF := by
  rw [isLead, Bool.and_eq_true, decide_eq_true_eq, decide_eq_true_eq]

theorem Surrogate.isTrail_iff {n : Nat} : isTrail n = true ↔ 0xDC00 ≤ n ∧ n ≤ 0xDFFF := by
  rw [isTrail, Bool.and_eq_true, decide_eq_true_eq, decide_eq_true_eq]

theorem Surrogate.combine_le {lead trail : Nat} (hlead : isLead lead = true)
    (htrail : isTrail trail = true) : combine lead trail ≤ 0x10FFFF := by
  rw [isLead_iff] at hlead
  rw [isTrail_iff] at htrail
  unfold combine
  omega

namespace Reader

variable {mode : Mode} {α β : Type} {P : α → Prop} {Q : β → Prop}

/-- All that the reader finds has the property. -/
def Finds (P : α → Prop) (r : Reader α) : Prop :=
  ∀ text a rest, r.run text = some (a, rest) → P a

namespace Finds

variable {r s : Reader α}

theorem any (r : Reader α) : Finds (fun _ => True) r := fun _ _ _ _ => trivial

theorem mono {P' : α → Prop} (h : Finds P r) (hP : ∀ a, P a → P' a) : Finds P' r :=
  fun text a rest hrun => hP a (h text a rest hrun)

theorem small {r : Reader Nat} (h : Finds (· ≤ 0xFFFF) r) : Finds (· ≤ mode.largest) r :=
  h.mono fun _ => mode.le_largest

theorem pure {a : α} (h : P a) : Finds P (pure a : Reader α) := by
  intro text b rest hrun
  obtain rfl : a = b := (Prod.mk.inj (Option.some.inj hrun)).1
  exact h

theorem failure : Finds P (failure : Reader α) := by
  intro text a rest hrun
  contradiction

theorem bind {f : α → Reader β} (hr : Finds P r) (hf : ∀ a, P a → Finds Q (f a)) :
    Finds Q (r >>= f) := by
  intro text b rest hrun
  simp only [StateT.run_bind, Option.bind_eq_bind, Option.bind_eq_some_iff, Prod.exists] at hrun
  rcases hrun with ⟨a, rest', ha, hb⟩
  exact hf a (hr text a rest' ha) rest' b rest hb

theorem then_ {s : Reader β} (r : Reader α) (hs : Finds Q s) : Finds Q (r *> s) :=
  (any r).bind fun _ _ => hs

theorem map {f : α → β} (hr : Finds P r) (hf : ∀ a, P a → Q (f a)) : Finds Q (f <$> r) :=
  hr.bind fun a ha => .pure (hf a ha)

theorem orElse (hr : Finds P r) (hs : Finds P s) : Finds P (r <|> s) := by
  intro text a rest hrun
  replace hrun : (r.run text <|> s.run text) = some (a, rest) := hrun
  cases hfirst : r.run text with
  | some found =>
    rw [hfirst] at hrun
    exact hr text a rest (hfirst.trans hrun)
  | none =>
    rw [hfirst] at hrun
    exact hs text a rest hrun

theorem of_guard (c : Prop) [Decidable c] : Finds (fun _ => c) (guard c : Reader Unit) := by
  intro text a rest hrun
  unfold guard at hrun
  split at hrun
  next hc => exact hc
  next => contradiction

theorem lift (o : Option α) : Finds (fun a => o = some a) (liftM o : Reader α) := by
  intro text a rest hrun
  cases o with
  | none => contradiction
  | some b => exact congrArg some (Prod.mk.inj (Option.some.inj hrun)).1

theorem wordAs {w : List Char} {a : α} (h : P a) : Finds P (wordAs w a) := .then_ _ (.pure h)

theorem firstOf {readers : List (Reader α)} (h : ∀ r ∈ readers, Finds P r) :
    Finds P (firstOf readers) := by
  induction readers with
  | nil => exact .failure
  | cons r readers ih =>
    rw [List.forall_mem_cons] at h
    exact .orElse h.1 (ih h.2)

theorem ascii (p : Char → Bool) : Finds (fun c => p c = true) (ascii p) := by
  intro text c rest hrun
  cases text with
  | nil => contradiction
  | cons u text =>
    simp only [Reader.ascii, StateT.run] at hrun
    split at hrun
    · split at hrun
      next hp =>
        obtain ⟨rfl, -⟩ := Prod.mk.inj (Option.some.inj hrun)
        exact hp
      next => contradiction
    · contradiction

theorem exactly (hr : Finds P r) (n : Nat) :
    Finds (fun as => as.length = n ∧ ∀ a ∈ as, P a) (exactly n r) := by
  induction n with
  | zero => exact .pure ⟨rfl, List.forall_mem_nil _⟩
  | succ n ih =>
    refine hr.bind fun a ha => ih.bind fun as has => .pure ?_
    exact ⟨congrArg (· + 1) has.1, List.forall_mem_cons.2 ⟨ha, has.2⟩⟩

theorem upTo (hr : Finds P r) (n : Nat) :
    Finds (fun as => as.length ≤ n ∧ ∀ a ∈ as, P a) (upTo n r) := by
  induction n with
  | zero => exact .pure ⟨Nat.le_refl _, List.forall_mem_nil _⟩
  | succ n ih =>
    refine .orElse (hr.bind fun a ha => ih.bind fun as has => .pure ?_)
      (.pure ⟨Nat.zero_le _, List.forall_mem_nil _⟩)
    exact ⟨Nat.succ_le_succ has.1, List.forall_mem_cons.2 ⟨ha, has.2⟩⟩

theorem many (hr : Finds P r) : Finds (fun as => ∀ a ∈ as, P a) (many r) := by
  have hwithin (bound text : List CodeUnit) : ∀ a ∈ (manyWithin r bound text).1, P a := by
    induction bound generalizing text with
    | nil => exact List.forall_mem_nil _
    | cons u bound ih =>
      rw [manyWithin]
      cases hrun : r.run text with
      | none => exact List.forall_mem_nil _
      | some found => exact List.forall_mem_cons.2 ⟨hr text _ _ hrun, ih found.2⟩
  intro text as rest hrun
  obtain rfl : (manyWithin r text text).1 = as := congrArg Prod.fst (Option.some.inj hrun)
  exact hwithin text text

/-- A single unit is at most FFFF, and a pair of surrogates stands for at most 10FFFF. -/
theorem codePoint : Finds (· ≤ mode.largest) (codePoint mode) := by
  intro text n rest hrun
  cases text with
  | nil => simp [Reader.codePoint, StateT.run] at hrun
  | cons u text =>
    have hunit : u.toNat ≤ mode.largest := mode.le_largest (Nat.le_of_lt_succ u.toNat_lt)
    cases mode with
    | legacy =>
      obtain ⟨rfl, -⟩ := Prod.mk.inj (Option.some.inj hrun)
      exact hunit
    | unicode =>
      cases text with
      | nil =>
        obtain ⟨rfl, -⟩ := Prod.mk.inj (Option.some.inj hrun)
        exact hunit
      | cons trail after =>
        simp only [Reader.codePoint, StateT.run] at hrun
        split at hrun
        next hpair =>
          obtain ⟨rfl, -⟩ := Prod.mk.inj (Option.some.inj hrun)
          rw [Bool.and_eq_true] at hpair
          exact Surrogate.combine_le hpair.1 hpair.2
        next =>
          obtain ⟨rfl, -⟩ := Prod.mk.inj (Option.some.inj hrun)
          exact hunit

end Finds

end Reader

/-! ## The readers of the grammar -/

namespace Grammar

open Reader

variable {mode : Mode}

/-- A character that `p` holds of is one of the mode. -/
theorem finds_codePointIf (p : Nat → Bool) :
    Finds (fun n => n ≤ mode.largest ∧ p n = true) (codePointIf mode p) :=
  .bind .codePoint fun _ hn => .bind (.of_guard _) fun _ hp => .pure ⟨hn, hp⟩

/-! ### Escapes -/

theorem finds_controlEscape : Finds (· ≤ 0xFFFF) controlEscape :=
  .firstOf <| by
    simp only [List.forall_mem_cons]
    exact ⟨.wordAs (by decide), .wordAs (by decide), .wordAs (by decide), .wordAs (by decide),
      .wordAs (by decide), List.forall_mem_nil _⟩

theorem finds_controlLetterEscape : Finds (· ≤ 0xFFFF) controlLetterEscape :=
  .then_ _ <| (Finds.any _).bind fun letter _ => .pure (by omega)

theorem finds_nullEscape : Finds (· ≤ 0xFFFF) nullEscape := .then_ _ (.then_ _ (.pure (by decide)))

theorem finds_hexDigits (n : Nat) : Finds (· < 16 ^ n) (hexDigits n) :=
  .map (.exactly (.ascii _) n) fun digits hdigits => by
    have hvalue := Numeral.value_lt_of_digits fun c hc =>
      Numeral.digitValue_lt_of_isHexDigit (hdigits.2 c hc)
    rwa [hdigits.1] at hvalue

theorem finds_hexEscape : Finds (· ≤ 0xFFFF) hexEscape :=
  .then_ _ <| (finds_hexDigits 2).mono fun n hn => by omega

theorem finds_unitEscape : Finds (· ≤ 0xFFFF) unitEscape :=
  .then_ _ <| (finds_hexDigits 4).mono fun n hn => by omega

theorem finds_bracedEscape : Finds (· ≤ 0x10FFFF) bracedEscape :=
  (Finds.any _).bind fun _ _ => .then_ _ <| .bind (.of_guard _) fun _ hn => .pure hn.2

theorem finds_trailEscape {lead : Nat} (h : Surrogate.isLead lead = true) :
    Finds (· ≤ 0x10FFFF) (trailEscape lead) :=
  .then_ _ <| (Finds.any _).bind fun _ _ => .bind (.of_guard _) fun _ htrail =>
    .pure (Surrogate.combine_le h htrail)

theorem finds_unicodeEscape : Finds (· ≤ mode.largest) (unicodeEscape mode) := by
  cases mode with
  | legacy => exact finds_unitEscape
  | unicode =>
    refine .orElse finds_bracedEscape (finds_unitEscape.bind fun n hn => ?_)
    have hsmall : n ≤ 0x10FFFF := Nat.le_trans hn (by decide)
    split
    next hlead => exact .orElse (finds_trailEscape hlead) (.pure hsmall)
    next => exact .pure hsmall

theorem digitValue_lt_of_isOctalDigit {c : Char} (h : Numeral.isOctalDigit c = true) :
    Numeral.digitValue c < 8 := by
  have hdigit := (Numeral.digitValue_of_isDigit (isDigit_of_isOctalDigit h)).1
  simp only [Numeral.isOctalDigit, Bool.and_eq_true, decide_eq_true_eq, Char.le_def,
    UInt32.le_iff_toNat_le] at h
  have hlast : c.toNat ≤ 55 := h.2
  omega

/-- No more than two digits follow a first one. -/
theorem finds_octalEscape : Finds (· ≤ 0xFFFF) octalEscape := by
  refine (Finds.ascii _).bind fun first hfirst => (Finds.upTo (.ascii _) _).bind fun more hmore =>
    .pure ?_
  have hlength : more.length ≤ 2 := Nat.le_trans hmore.1 (by split <;> decide)
  have hvalue : Numeral.value 8 (first :: more) < 8 ^ (first :: more).length :=
    Numeral.value_lt_of_digits <| List.forall_mem_cons.2
      ⟨digitValue_lt_of_isOctalDigit hfirst,
        fun c hc => digitValue_lt_of_isOctalDigit (hmore.2 c hc)⟩
  have hpow : 8 ^ (first :: more).length ≤ 8 ^ 3 :=
    Nat.pow_le_pow_right (by decide) (Nat.succ_le_succ hlength)
  omega

theorem finds_identityEscape : Finds (· ≤ mode.largest) (identityEscape mode) :=
  (finds_codePointIf _).mono fun _ hn => hn.1

/-- An escape for one character stands for one of the mode. -/
theorem finds_characterEscape : Finds (· ≤ mode.largest) (characterEscape mode) := by
  refine .firstOf ?_
  cases mode with
  | unicode =>
    simp only [characterEscapeForms, List.forall_mem_cons]
    exact ⟨finds_controlEscape.small, finds_controlLetterEscape.small, finds_nullEscape.small,
      finds_hexEscape.small, finds_unicodeEscape, finds_identityEscape, List.forall_mem_nil _⟩
  | legacy =>
    simp only [characterEscapeForms, List.forall_mem_cons]
    exact ⟨finds_controlEscape.small, finds_controlLetterEscape.small, finds_nullEscape.small,
      finds_hexEscape.small, finds_unicodeEscape, finds_octalEscape.small, finds_identityEscape,
      List.forall_mem_nil _⟩

theorem finds_classControlEscape : Finds (· ≤ 0xFFFF) classControlEscape :=
  .then_ _ <| (Finds.any _).bind fun c _ => .pure (by omega)

theorem finds_classBackslash : Finds (· ≤ 0xFFFF) (classBackslash mode) :=
  .then_ _ (.then_ _ (.pure (by decide)))

end Grammar

end EcmaPattern
