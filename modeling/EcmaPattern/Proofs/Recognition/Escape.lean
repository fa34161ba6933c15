import EcmaPattern.Grammar.CharacterClass
import EcmaPattern.Grammar.GroupName
import EcmaPattern.Proofs.Language.CharacterClass
import EcmaPattern.Proofs.Text.NumeralOrder
import EcmaPattern.Proofs.Text.Reading

namespace EcmaPattern.Grammar

open Form Reader

/-! # The readers of escapes read the language of escapes -/

variable {mode : Mode}

/-! ## Characters in ASCII -/

theorem isAscii_isDigit : IsAscii Char.isDigit := by
  intro c h
  have := Numeral.toNat_of_isDigit h
  omega

theorem isAscii_isAlpha : IsAscii Char.isAlpha := by
  intro c h
  have := Numeral.toNat_of_isAlpha h
  omega

theorem isAscii_isHexDigit : IsAscii Numeral.isHexDigit := by
  intro c h
  simp only [Numeral.isHexDigit, Bool.or_eq_true, Bool.and_eq_true, decide_eq_true_eq, Char.le_def,
    UInt32.le_iff_toNat_le] at h
  rcases h with (h | ⟨-, h⟩) | ⟨-, h⟩
  · exact isAscii_isDigit c h
  · exact Nat.lt_of_le_of_lt h (by decide)
  · exact Nat.lt_of_le_of_lt h (by decide)

theorem isDigit_of_isOctalDigit {c : Char} (h : Numeral.isOctalDigit c = true) :
    c.isDigit = true := by
  simp only [Numeral.isOctalDigit, Bool.and_eq_true, decide_eq_true_eq, Char.le_def,
    UInt32.le_iff_toNat_le] at h
  simp only [Char.isDigit, Bool.and_eq_true, decide_eq_true_eq, ge_iff_le, UInt32.le_iff_toNat_le]
  exact ⟨h.1, Nat.le_trans h.2 (by decide)⟩

theorem isAscii_isOctalDigit : IsAscii Numeral.isOctalDigit := fun c h =>
  isAscii_isDigit c (isDigit_of_isOctalDigit h)

theorem isAscii_classControl : IsAscii fun c => c.isDigit || c == '_' := by
  intro c h
  rcases Bool.or_eq_true _ _ ▸ h with h | h
  · exact isAscii_isDigit c h
  · rw [eq_of_beq h]
    decide

/-! ## Control characters -/

/-- Different characters, each with what it stands for. -/
theorem reads_firstOf_wordAs {l : List (Char × Nat)} (hascii : ∀ c ∈ l, c.1.toNat < 0x80)
    (hl : (l.map Prod.fst).Nodup) :
    Reads mode (firstOf (l.map fun c => wordAs [c.1] c.2)) fun n p q =>
      ∃ c, (c, n) ∈ l ∧ word [c] p q := by
  induction l with
  | nil => exact Reads.firstOf_nil.congr fun n p q => by simp
  | cons c l ih =>
    rcases c with ⟨c, m⟩
    rcases List.nodup_cons.1 hl with ⟨hc, hl⟩
    have hhead : Reads mode (wordAs [c] m) _ :=
      reads_wordAs (by simpa using hascii (c, m) (by simp)) m
    have htail := ih (fun d hd => hascii d (by simp [hd])) hl
    refine (hhead.orElse htail).congr fun n p q => ?_
    constructor
    · intro h
      rcases h with ⟨d, hd, h⟩
      rcases List.mem_cons.1 hd with heq | hd
      · rcases Prod.mk.inj heq with ⟨rfl, rfl⟩
        exact Or.inl ⟨rfl, h⟩
      · refine Or.inr ⟨?_, d, hd, h⟩
        intro h
        rcases h with ⟨_, t, -, hp⟩
        -- two characters in one place are one, but the characters of the list are different
        have hcd : c = d := by
          have := hp.symm.trans h
          exact Char.toNat_inj.1 (List.cons.inj this).1
        subst hcd
        exact hc (List.mem_map.2 ⟨_, hd, rfl⟩)
    · intro h
      rcases h with ⟨rfl, h⟩ | ⟨-, d, hd, h⟩
      · exact ⟨c, by simp, h⟩
      · exact ⟨d, by simp [hd], h⟩

theorem reads_controlEscape : Reads mode controlEscape Language.control :=
  reads_firstOf_wordAs (l := Language.controls) (by decide) (by decide)

theorem reads_controlLetterEscape : Reads mode controlLetterEscape Language.controlLetter := by
  refine ((reads_word (by decide)).bind fun _ =>
    (reads_ascii isAscii_isAlpha).bind fun letter => .of_pure _).congr fun n p q => ?_
  constructor
  · intro h
    rcases h with ⟨letter, hletter, rfl, h⟩
    exact ⟨(), _, h, letter, q, ⟨hletter, rfl⟩, rfl, rfl⟩
  · intro h
    rcases h with ⟨_, t, hp, letter, t', ⟨hletter, rfl⟩, rfl, rfl⟩
    exact ⟨letter, hletter, rfl, hp⟩

theorem reads_classControlEscape : Reads mode classControlEscape Language.classControl := by
  refine ((reads_word (by decide)).bind fun _ =>
    (reads_ascii isAscii_classControl).bind fun letter => .of_pure _).congr fun n p q => ?_
  constructor
  · intro h
    rcases h with ⟨c, hc, rfl, h⟩
    exact ⟨(), _, h, c, q, ⟨hc, rfl⟩, rfl, rfl⟩
  · intro h
    rcases h with ⟨_, t, hp, c, t', ⟨hc, rfl⟩, rfl, rfl⟩
    exact ⟨c, hc, rfl, hp⟩

theorem reads_nullEscape : Reads mode nullEscape Language.null := by
  refine ((reads_word (by decide)).bind fun _ =>
    (reads_ascii isAscii_isDigit).notAhead.bind fun _ => .of_pure 0).congr fun n p q => ?_
  have happ (t : Text) :
      Applies (fun (c : Char) p q => c.isDigit = true ∧ p = c.toNat :: q) t ↔
      t.StartsWith Char.isDigit := by
    constructor
    · intro h
      rcases h with ⟨c, t, hc, rfl⟩
      exact ⟨c, t, hc, rfl⟩
    · intro h
      rcases h with ⟨c, t, hc, rfl⟩
      exact ⟨c, t, hc, rfl⟩
  constructor
  · intro h
    rcases h with ⟨rfl, h, hq⟩
    exact ⟨(), q, h, (), q, ⟨(not_congr (happ q)).2 hq, rfl⟩, rfl, rfl⟩
  · intro h
    rcases h with ⟨_, t, h, _, t', ⟨hq, rfl⟩, rfl, rfl⟩
    exact ⟨rfl, h, (not_congr (happ _)).1 hq⟩

/-! ## Hexadecimal escapes -/

theorem reads_after {α : Type} {w : List Char} (hw : ∀ c ∈ w, c.toNat < 0x80) {r : Reader α}
    {R : Form α} (hr : Reads mode r R) : Reads mode (Reader.word w *> r) (after w R) :=
  ((reads_word hw).seqRight hr).congr fun a p q => by simp [after]

theorem reads_map {α β : Type} {r : Reader α} {R : Form α} (hr : Reads mode r R) (f : α → β) :
    Reads mode (f <$> r) (R.map f) :=
  hr.map.congr fun b p q => by simp [Form.map, and_comm]

theorem reads_hexDigits (n : Nat) : Reads mode (hexDigits n) (Language.hexDigits n) :=
  reads_map (reads_exactly isAscii_isHexDigit n) _

theorem reads_hexEscape : Reads mode hexEscape Language.hex :=
  reads_after (by decide) (reads_hexDigits 2)

theorem reads_unitEscape : Reads mode unitEscape (after ['u'] (Language.hexDigits 4)) :=
  reads_after (by decide) (reads_hexDigits 4)

theorem reads_trailEscape (lead : Nat) :
    Reads mode (trailEscape lead) (Language.trail.map (Surrogate.combine lead)) := by
  refine ((reads_word (by decide)).bind fun _ => reads_unitEscape.bind fun n =>
    Reads.of_guard.bind fun _ => .of_pure _).congr fun n p q => ?_
  constructor
  · intro h
    rcases h with ⟨m, hn, h, htrail⟩
    rcases (after_append (v := ['\\']) (w := ['u'])).1 h with ⟨t, hp, hu⟩
    exact ⟨(), t, hp, m, q, hu, (), q, ⟨htrail, rfl⟩, hn, rfl⟩
  · intro h
    rcases h with ⟨_, t, hp, m, t', hu, _, _, ⟨htrail, rfl⟩, hn, rfl⟩
    exact ⟨m, hn, (after_append (v := ['\\']) (w := ['u'])).2 ⟨t, hp, hu⟩, htrail⟩

/-- Hexadecimal digits in braces. The braced form of an escape, on its own. -/
def braced : Form Nat := fun n p q =>
  ∃ digits, ¬ 2 ^ 32 ∣ digits.length ∧ (∀ d ∈ digits, Numeral.isHexDigit d = true) ∧
    word (['u', '{'] ++ digits ++ ['}']) p q ∧ Numeral.value 16 digits ≤ 0x10FFFF ∧
    n = Numeral.value 16 digits

/-- Saturation leaves the values up to 10FFFF as they are. -/
theorem saturated_le_iff {digits : List Char} :
    Numeral.saturated 16 0xFFFFFFFF digits ≤ 0x10FFFF ↔ Numeral.value 16 digits ≤ 0x10FFFF := by
  rw [Numeral.saturated_eq_min 16 _ (by decide)]
  omega

theorem reads_bracedDigits : Reads mode bracedDigits fun found p q =>
    found.2 = Numeral.count found.1 ∧ (∀ d ∈ found.1, Numeral.isHexDigit d = true) ∧
      ¬ q.StartsWith Numeral.isHexDigit ∧ word (['u', '{'] ++ found.1) p q := by
  refine ((reads_word (by decide)).bind fun _ => reads_countedRun isAscii_isHexDigit).congr
    fun found p q => ?_
  rw [word_append]
  constructor
  · intro h
    rcases h with ⟨hcount, hall, hstop, t, hopen, hdigits⟩
    exact ⟨(), t, hopen, hcount, hall, hstop, hdigits⟩
  · intro h
    rcases h with ⟨_, t, hopen, hcount, hall, hstop, hdigits⟩
    exact ⟨hcount, hall, hstop, t, hopen, hdigits⟩

theorem reads_bracedEscape : Reads mode bracedEscape braced := by
  refine (reads_bracedDigits.bind fun found => (reads_word (by decide)).bind fun _ =>
    Reads.of_guard.bind fun _ => .of_pure _).congr fun n p q => ?_
  have hzero (digits : List Char) : Numeral.count digits ≠ 0 ↔ ¬ 2 ^ 32 ∣ digits.length :=
    not_congr Numeral.count_eq_zero_iff
  have hsat {digits : List Char} (hle : Numeral.value 16 digits ≤ 0x10FFFF) :
      Numeral.saturated 16 0xFFFFFFFF digits = Numeral.value 16 digits := by
    rw [Numeral.saturated_eq_min 16 _ (by decide)]
    omega
  constructor
  · intro h
    rcases h with ⟨digits, hcount, hall, h, hle, hn⟩
    rcases word_append.1 h with ⟨s, hdigits, hclose⟩
    -- the reader takes all digits there are, so the closing brace has to be none
    have hstop : ¬ s.StartsWith Numeral.isHexDigit := by
      rw [show s = '}'.toNat :: q from hclose, Text.startsWith_cons]
      decide
    exact ⟨(digits, Numeral.count digits), s, ⟨rfl, hall, hstop, hdigits⟩, (), q, hclose, (), q,
      ⟨⟨(hzero digits).2 hcount, saturated_le_iff.2 hle⟩, rfl⟩, hn.trans (hsat hle).symm, rfl⟩
  · intro h
    rcases h with ⟨⟨digits, count⟩, s, ⟨hcount, hall, -, hdigits⟩, _, q', hclose, _, _,
      ⟨⟨hpos, hle⟩, rfl⟩, hn, rfl⟩
    obtain rfl : count = Numeral.count digits := hcount
    have hle' := saturated_le_iff.1 hle
    exact ⟨digits, (hzero digits).1 hpos, hall, word_append.2 ⟨s, hdigits, hclose⟩, hle',
      hn.trans (hsat hle')⟩

/-- No brace is a hexadecimal digit, so the two forms of an escape do not meet. -/
theorem not_applies_braced {n : Nat} {p q : Text}
    (h : after ['u'] (Language.hexDigits 4) n p q) : ¬ braced.Applies p := by
  intro hbraced
  rcases hbraced with ⟨_, r, digits, -, -, hword, -⟩
  rcases h with ⟨t, hu, hdigits⟩
  exact Language.not_hexDigits_of_brace (word_rest (v := ['u']) hu hword) ⟨n, q, hdigits⟩

theorem reads_unicodeEscape : Reads mode (unicodeEscape mode) (Language.UnicodeEscape mode) := by
  cases mode with
  | legacy =>
    refine reads_unitEscape.congr fun n p q => ?_
    constructor
    · intro h
      cases h with
      | unit h _ => exact h
      | pair hmode => contradiction
      | braced hmode => contradiction
    · intro h
      exact .unit h nofun
  | unicode =>
    refine (reads_bracedEscape.orElse (reads_unitEscape.bind fun n =>
      Reads.ite (fun _ => (reads_trailEscape n).orElse (.of_pure n)) fun _ => .of_pure n)).congr
      fun n p q => ?_
    constructor
    · intro h
      cases h with
      | unit h hlead =>
        refine Or.inr ⟨not_applies_braced h, n, q, h, ?_⟩
        -- only after a lead surrogate is a trail surrogate looked for
        by_cases hn : Surrogate.isLead n = true
        · refine Or.inl ⟨hn, Or.inr ⟨?_, rfl, rfl⟩⟩
          rw [applies_map]
          exact hlead rfl hn
        · exact Or.inr ⟨hn, rfl, rfl⟩
      | pair _ h hlead htrail =>
        exact Or.inr ⟨not_applies_braced h, _, _, h, Or.inl ⟨hlead, Or.inl ⟨_, rfl, htrail⟩⟩⟩
      | braced _ hne hall h hle => exact Or.inl ⟨_, hne, hall, h, hle, rfl⟩
    · intro h
      rcases h with ⟨digits, hne, hall, h, hle, hn⟩ | ⟨-, m, t, h, hrest⟩
      · rw [hn]
        exact .braced rfl hne hall h hle
      · rcases hrest with ⟨hlead, ⟨low, hn, htrail⟩ | ⟨hnone, hn, rfl⟩⟩ | ⟨hlead, hn, rfl⟩
        · rw [hn]
          exact .pair rfl h hlead htrail
        · rw [hn]
          exact .unit h fun _ _ => by rwa [applies_map] at hnone
        · rw [hn]
          exact .unit h fun _ hlead' => absurd hlead' hlead

/-! ## Octal and identity escapes -/

theorem reads_octalEscape : Reads mode octalEscape Language.octal := by
  refine ((reads_ascii isAscii_isOctalDigit).bind fun first =>
    (reads_upTo isAscii_isOctalDigit _).bind fun more => .of_pure _).congr fun n p q => ?_
  constructor
  · intro h
    rcases h with ⟨first, more, t, hfirst, hp, hmore, hn⟩
    exact ⟨first, t, ⟨hfirst, hp⟩, more, q, hmore, hn, rfl⟩
  · intro h
    rcases h with ⟨first, t, ⟨hfirst, hp⟩, more, q', hmore, hn, rfl⟩
    exact ⟨first, more, t, hfirst, hp, hmore, hn⟩

theorem isSpecial_iff {n : Nat} :
    isSpecial mode n = true ↔ n ∈ Text.ofWord (Language.syntaxCharacters mode) := by
  have hlist : specialCharacters mode = Language.syntaxCharacters mode := by cases mode <;> rfl
  simp [isSpecial, hlist, Text.ofWord]

theorem reads_identityEscape : Reads mode (identityEscape mode) (Language.identity mode) := by
  refine (reads_codePointIf _).congr fun n p q => ?_
  rw [and_comm]
  refine and_congr_right fun _ => ?_
  cases mode with
  | legacy => simp [isIdentity, Text.ofWord]
  | unicode =>
    simp only [isIdentity, Bool.or_eq_true, isSpecial_iff, Text.ofWord_cons, List.mem_cons,
      beq_iff_eq]
    exact Or.comm

/-! ## All forms -/

/-- The forms of an escape for one character, in the order of the readers. -/
def characterForms : Mode → List (Form Nat)
  | .unicode =>
    [Language.control, Language.controlLetter, Language.null, Language.hex,
      Language.UnicodeEscape .unicode, Language.identity .unicode]
  | .legacy =>
    [Language.control, Language.controlLetter, Language.null, Language.hex,
      Language.UnicodeEscape .legacy, Language.octal, Language.identity .legacy]

theorem reads_characterEscape :
    Reads mode (characterEscape mode) (First (characterForms mode)) := by
  cases mode with
  | unicode =>
    exact reads_controlEscape.firstOf_cons <| reads_controlLetterEscape.firstOf_cons <|
      reads_nullEscape.firstOf_cons <| reads_hexEscape.firstOf_cons <|
      reads_unicodeEscape.firstOf_cons <| reads_identityEscape.firstOf_cons .firstOf_nil
  | legacy =>
    exact reads_controlEscape.firstOf_cons <| reads_controlLetterEscape.firstOf_cons <|
      reads_nullEscape.firstOf_cons <| reads_hexEscape.firstOf_cons <|
      reads_unicodeEscape.firstOf_cons <| reads_octalEscape.firstOf_cons <|
      reads_identityEscape.firstOf_cons .firstOf_nil

/-! ## Names of groups -/

theorem toChar?_eq_some_iff {n : Nat} {c : Char} : CodePoint.toChar? n = some c ↔ n = c.toNat := by
  unfold CodePoint.toChar?
  constructor
  · intro h
    split at h
    next hn =>
      obtain rfl := Option.some.inj h
      rw [Char.ofNat, dif_pos hn]
      rfl
    next => contradiction
  · intro heq
    subst heq
    have hc : c.toNat.isValidChar := c.valid
    rw [if_pos hc, Char.ofNat_toNat]

theorem reads_nameCharacter (P : Nat → Bool) :
    Reads mode (nameCharacter mode P) (Language.NameCharacter mode P) := by
  have hend (n : Nat) : Reads mode (do guard (P n = true); liftM (CodePoint.toChar? n))
      fun (c : Char) p q => P n = true ∧ n = c.toNat ∧ p = q := by
    refine ((Reads.of_guard (P := P n = true)).bind fun _ =>
      .of_lift (CodePoint.toChar? n)).congr fun c p q => ?_
    constructor
    · intro h
      rcases h with ⟨hP, hc, rfl⟩
      exact ⟨(), p, ⟨hP, rfl⟩, toChar?_eq_some_iff.2 hc, rfl⟩
    · intro h
      rcases h with ⟨_, _, ⟨hP, rfl⟩, hc, rfl⟩
      exact ⟨hP, toChar?_eq_some_iff.1 hc, rfl⟩
  refine ((reads_isAt (w := ['\\']) (by decide)).bind fun b => Reads.ite (P := b = true)
    (fun _ => (reads_after (by decide) reads_unicodeEscape).bind hend)
    fun _ => reads_codePoint.bind hend).congr fun c p q => ?_
  constructor
  · intro h
    cases h with
    | literal hne hP hp =>
      refine ⟨false, p, ⟨?_, rfl⟩, Or.inr ⟨by simp, c.toNat, q, hp, hP, rfl, rfl⟩⟩
      simp only [Bool.false_eq_true, false_iff, not_exists]
      intro t ht
      have heq := hp.symm.trans ht
      exact hne (Char.toNat_inj.1 (List.cons.inj heq).1)
    | escaped hP hp =>
      rcases hp with ⟨t, hword, hu⟩
      exact ⟨true, p, ⟨by simpa using ⟨t, hword⟩, rfl⟩,
        Or.inl ⟨rfl, c.toNat, q, ⟨t, hword, hu⟩, hP, rfl, rfl⟩⟩
  · intro h
    rcases h with ⟨b, t, ⟨hb, rfl⟩, ⟨-, n, t', h, hP, hn, rfl⟩ | ⟨hfalse, n, t', hp, hP, hn, rfl⟩⟩
    · rw [hn] at h hP
      exact .escaped hP h
    · rw [hn] at hp hP
      refine .literal ?_ hP hp
      intro heq
      subst heq
      exact hfalse (hb.2 ⟨_, hp⟩)

theorem reads_groupName : Reads mode (groupName mode) (Language.GroupName mode) := by
  refine ((reads_word (by decide)).bind fun _ => (reads_nameCharacter _).bind fun c =>
    (reads_many (reads_nameCharacter _) Language.shrinks_nameCharacter).bind fun cs =>
      (reads_word (by decide)).bind fun _ => .of_pure _).congr fun name p q => ?_
  constructor
  · intro h
    rcases h with ⟨hopen, hc, hcs, hclose⟩
    -- the closing sign is no character of a name, so the repetition ends before it
    refine ⟨(), _, hopen, _, _, hc, _, _, ⟨hcs, ?_⟩, (), q, hclose, rfl, rfl⟩
    intro h
    rcases h with ⟨d, t, hd⟩
    exact Language.not_nameCharacter_of_close hclose hd
  · intro h
    rcases h with ⟨_, t, hopen, c, t', hc, cs, r, ⟨hcs, -⟩, _, q', hclose, rfl, rfl⟩
    exact .mk hopen hc hcs hclose

end EcmaPattern.Grammar
