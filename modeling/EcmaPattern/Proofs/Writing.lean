import EcmaPattern.Proofs.Recognition.Escape

namespace EcmaPattern.Language

open CodeUnit Form

/-! # Ways to write a character

A form relates a text to what follows it. Here are the words themselves that stand for a character
where they are read, so that two of them can be compared.
-/

variable {mode : Mode} {n k : Nat} {digits w : List Char} {p q t : Text}

/-! ## Hexadecimal numerals -/

/-- A numeral of `k` hexadecimal digits, in either case. -/
def IsHex (k : Nat) (digits : List Char) : Prop :=
  digits.length = k ∧ ∀ d ∈ digits, Numeral.isHexDigit d = true

instance : Decidable (IsHex k digits) := inferInstanceAs (Decidable (_ ∧ _))

theorem after_hexDigits_iff : after w (hexDigits k) n p q ↔
    ∃ digits, IsHex k digits ∧ n = Numeral.value 16 digits ∧ word (w ++ digits) p q := by
  constructor
  · intro h
    rcases h with ⟨t, hw, digits, hn, hlen, hall, ht⟩
    exact ⟨digits, ⟨hlen, hall⟩, hn, word_append.2 ⟨t, hw, ht⟩⟩
  · intro h
    rcases h with ⟨digits, ⟨hlen, hall⟩, hn, h⟩
    rcases word_append.1 h with ⟨t, hw, ht⟩
    exact ⟨t, hw, digits, hn, hlen, hall, ht⟩

/-- Each number below `16 ^ k` has a numeral of `k` digits. -/
theorem exists_hex (hn : n < 16 ^ k) : ∃ digits, IsHex k digits ∧ Numeral.value 16 digits = n := by
  induction k generalizing n with
  | zero =>
    obtain rfl : n = 0 := by simpa using hn
    exact ⟨[], ⟨rfl, by simp⟩, rfl⟩
  | succ k ih =>
    have hdigit : ∀ d < 16, Numeral.isHexDigit d.digitChar = true ∧
        Numeral.digitValue d.digitChar = d := by decide
    rcases hdigit (n % 16) (Nat.mod_lt n (by decide)) with ⟨hhex, hvalue⟩
    rcases ih (n := n / 16) (by omega) with ⟨digits, ⟨hlen, hall⟩, hdigits⟩
    refine ⟨digits ++ [(n % 16).digitChar], ⟨by simp [hlen], ?_⟩, ?_⟩
    · simpa [or_imp, forall_and, hhex] using hall
    · rw [Numeral.value, List.foldl_append, ← Numeral.value, hdigits, List.foldl_cons,
        List.foldl_nil, hvalue]
      omega

/-! ## Escapes that start with `u` -/

/-- The escape of one unit, after the backslash. -/
def unitWord (digits : List Char) : List Char := 'u' :: digits

/-- The escapes of two units, after the first backslash. -/
def pairWord (lead trail : List Char) : List Char := unitWord lead ++ '\\' :: unitWord trail

/-- The escape in braces, after the backslash. -/
def bracedWord (digits : List Char) : List Char := ['u', '{'] ++ digits ++ ['}']

/-- The words that stand for `n` after a backslash and start with `u`. Each `2 ^ 32` digits in
braces count as none. -/
inductive UnicodeWord (mode : Mode) : Nat → List Char → Prop
  | unit {digits : List Char} :
      IsHex 4 digits → UnicodeWord mode (Numeral.value 16 digits) (unitWord digits)
  | pair {lead low : List Char} :
      mode = .unicode → IsHex 4 lead → IsHex 4 low →
      Surrogate.isLead (Numeral.value 16 lead) = true →
      Surrogate.isTrail (Numeral.value 16 low) = true →
      UnicodeWord mode (Surrogate.combine (Numeral.value 16 lead) (Numeral.value 16 low))
        (pairWord lead low)
  | braced {digits : List Char} :
      mode = .unicode → ¬ 2 ^ 32 ∣ digits.length →
      (∀ d ∈ digits, Numeral.isHexDigit d = true) → Numeral.value 16 digits ≤ 0x10FFFF →
      UnicodeWord mode (Numeral.value 16 digits) (bracedWord digits)

theorem ascii_of_hex (h : ∀ d ∈ digits, Numeral.isHexDigit d = true) :
    ∀ d ∈ digits, d.toNat < 0x80 :=
  fun d hd => Grammar.isAscii_isHexDigit d (h d hd)

theorem ascii_unitWord (h : IsHex k digits) : ∀ c ∈ unitWord digits, c.toNat < 0x80 := by
  rw [unitWord, List.forall_mem_cons]
  exact ⟨by decide, ascii_of_hex h.2⟩

theorem ascii_trailWord (h : IsHex k digits) : ∀ c ∈ '\\' :: unitWord digits, c.toNat < 0x80 := by
  rw [List.forall_mem_cons]
  exact ⟨by decide, ascii_unitWord h⟩

theorem ascii_bracedWord (h : ∀ d ∈ digits, Numeral.isHexDigit d = true) :
    ∀ c ∈ bracedWord digits, c.toNat < 0x80 := by
  rw [bracedWord, List.forall_mem_append, List.forall_mem_append]
  exact ⟨⟨by decide, ascii_of_hex h⟩, by decide⟩

theorem UnicodeWord.ascii (h : UnicodeWord mode n w) : ∀ c ∈ w, c.toNat < 0x80 := by
  cases h with
  | unit h => exact ascii_unitWord h
  | pair _ hlead hlow _ _ =>
    rw [pairWord, List.forall_mem_append]
    exact ⟨ascii_unitWord hlead, ascii_trailWord hlow⟩
  | braced _ _ h _ => exact ascii_bracedWord h

/-- What an escape reads is one of the words. -/
theorem exists_unicodeWord (h : UnicodeEscape mode n p q) :
    ∃ w, UnicodeWord mode n w ∧ word w p q := by
  cases h with
  | unit h _ =>
    rcases after_hexDigits_iff.1 h with ⟨digits, hhex, rfl, hword⟩
    exact ⟨_, .unit hhex, hword⟩
  | pair hmode h hlead hlow =>
    rcases after_hexDigits_iff.1 h with ⟨lead, hhex, rfl, hword⟩
    rcases hlow with ⟨hlow, htrail⟩
    rcases after_hexDigits_iff.1 hlow with ⟨low, hhex', rfl, hword'⟩
    exact ⟨_, .pair hmode hhex hhex' hlead htrail, word_append.2 ⟨_, hword, hword'⟩⟩
  | braced hmode hcount hall h hle => exact ⟨_, .braced hmode hcount hall hle, h⟩

/-- A word is read where a lead surrogate leaves no trail surrogate behind. -/
theorem UnicodeWord.escape (hw : UnicodeWord mode n w) (h : word w p q)
    (hq : mode = .unicode → Surrogate.isLead n = true → ¬ trail.Applies q) :
    UnicodeEscape mode n p q := by
  cases hw with
  | unit hhex => exact .unit (after_hexDigits_iff.2 ⟨_, hhex, rfl, h⟩) hq
  | pair hmode hhex hhex' hlead htrail =>
    rcases word_append.1 h with ⟨t, h, h'⟩
    exact .pair hmode (after_hexDigits_iff.2 ⟨_, hhex, rfl, h⟩) hlead
      ⟨after_hexDigits_iff.2 ⟨_, hhex', rfl, h'⟩, htrail⟩
  | braced hmode hcount hall hle => exact .braced hmode hcount hall h hle

/-- A character that is no surrogate may be written in each of the ways, whatever follows. -/
theorem unicodeEscape_toNat_iff {c : Char} :
    UnicodeEscape mode c.toNat p q ↔ ∃ w, UnicodeWord mode c.toNat w ∧ word w p q := by
  constructor
  · exact exists_unicodeWord
  · intro h
    rcases h with ⟨w, hw, h⟩
    refine hw.escape h fun _ hlead => ?_
    rw [not_isLead_toNat] at hlead
    contradiction

/-- The escape of a trail surrogate stands where its word does. -/
theorem trail_applies_iff : trail.Applies p ↔ ∃ digits q, IsHex 4 digits ∧
    Surrogate.isTrail (Numeral.value 16 digits) = true ∧ word ('\\' :: unitWord digits) p q := by
  constructor
  · intro h
    rcases h with ⟨n, q, h, htrail⟩
    rcases after_hexDigits_iff.1 h with ⟨digits, hhex, rfl, hword⟩
    exact ⟨digits, q, hhex, htrail, hword⟩
  · intro h
    rcases h with ⟨digits, q, hhex, htrail, h⟩
    exact ⟨_, q, after_hexDigits_iff.2 ⟨digits, hhex, rfl, h⟩, htrail⟩

theorem opens_trail : trail.Opens ['\\'] := by
  intro n p q h
  exact opens_after n p q h.1

/-! ## Braces -/

/-- Digits in braces are one escape in braces and no other escape. -/
theorem UnicodeEscape.eq_of_braced (hall : ∀ d ∈ digits, Numeral.isHexDigit d = true)
    (h : word (bracedWord digits) p q) (he : UnicodeEscape mode n p t) :
    ¬ 2 ^ 32 ∣ digits.length ∧ n = Numeral.value 16 digits ∧ n ≤ 0x10FFFF := by
  have hunit {m : Nat} {r : Text} : ¬ after ['u'] (hexDigits 4) m p r := by
    intro h'
    rcases h' with ⟨s, hu, hdigits⟩
    exact not_hexDigits_of_brace (word_rest (v := ['u']) hu h) ⟨m, r, hdigits⟩
  cases he with
  | unit h' _ => exact absurd h' hunit
  | pair _ h' _ _ => exact absurd h' hunit
  | @braced others _ _ _ hcount hall' h' hle =>
    -- both runs of digits end at a closing brace, which is no digit
    have hstop {s : Text} {r : Text} (hs : word ['}'] s r) :
        ¬ s.StartsWith Numeral.isHexDigit := not_startsWith_of_word hs (by decide)
    rcases word_append.1 h with ⟨r, hr, hclose⟩
    rcases word_append.1 h' with ⟨r', hr', hclose'⟩
    rcases word_append.1 hr with ⟨s, hs, hdigits⟩
    have hdigits' := word_rest hs hr'
    rcases Text.ofWord_append_inj hall hall' (hstop hclose) (hstop hclose')
      (hdigits.symm.trans hdigits') with ⟨rfl, -⟩
    exact ⟨hcount, rfl, hle⟩

/-- Digits in braces that count as none are no escape. -/
theorem not_unicodeEscape_of_dvd (hcount : 2 ^ 32 ∣ digits.length)
    (hall : ∀ d ∈ digits, Numeral.isHexDigit d = true) (h : word (bracedWord digits) p q) :
    ¬ (UnicodeEscape mode).Applies p := by
  rintro ⟨n, t, he⟩
  exact (he.eq_of_braced hall h).1 hcount

/-! ## Names of groups -/

/-- The words that stand for a character of a name: the character itself, which legacy mode has only
below 10000, and its escapes. -/
inductive NameCharacterWord (mode : Mode) (c : Char) : List Char → Prop
  | literal : (mode = .legacy → c.toNat < 0x10000) → NameCharacterWord mode c [c]
  | escaped {w : List Char} : UnicodeWord mode c.toNat w → NameCharacterWord mode c ('\\' :: w)

/-- The words that stand for characters of a name, one after the other. -/
inductive Spells (mode : Mode) : List Char → List Char → Prop
  | nil : Spells mode [] []
  | cons {c : Char} {cs v w : List Char} :
      NameCharacterWord mode c v → Spells mode cs w → Spells mode (c :: cs) (v ++ w)

/-- The characters of a name: one that starts a name, and then such as go on with one. -/
def IsName : List Char → Prop
  | [] => False
  | c :: cs => Identifier.startsName c.toNat = true ∧
      ∀ d ∈ cs, Identifier.continuesName d.toNat = true

/-- The words that stand for `name` in angle brackets. -/
structure NameWord (mode : Mode) (name : String) (w : List Char) : Prop where
  isName : IsName name.toList
  spells : Spells mode name.toList w

theorem NameCharacterWord.whole {c : Char} (h : NameCharacterWord mode c w) : Whole mode w := by
  cases h with
  | literal hc => exact whole_singleton hc
  | escaped h =>
    apply whole_of_ascii
    rw [List.forall_mem_cons]
    exact ⟨by decide, h.ascii⟩

theorem whole_append {v : List Char} (hv : Whole mode v) (hw : Whole mode w) :
    Whole mode (v ++ w) :=
  fun hmode => List.forall_mem_append.2 ⟨hv hmode, hw hmode⟩

theorem Spells.whole {cs : List Char} (h : Spells mode cs w) : Whole mode w := by
  induction h with
  | nil => exact whole_of_ascii (by simp)
  | cons hc _ ih => exact whole_append hc.whole ih

/-- A text whose characters are all units, if the mode is that of units. -/
def Narrow (mode : Mode) (p : Text) : Prop := mode = .legacy → ∀ n ∈ p, n < 0x10000

theorem narrow_decode (mode : Mode) (units : List CodeUnit) : Narrow mode (decode mode units) := by
  rintro rfl n hn
  rcases List.mem_map.1 hn with ⟨u, -, rfl⟩
  exact u.toNat_lt

theorem Narrow.of_word (hp : Narrow mode p) (h : word w p q) : Narrow mode q := by
  intro hmode n hn
  rw [show p = Text.ofWord w ++ q from h] at hp
  exact hp hmode n (List.mem_append_right _ hn)

variable {P : Nat → Bool} {c : Char} {cs : List Char}

/-- Where no name has a backslash, a character of a name is read from each of its words. -/
theorem nameCharacter_iff (hP : P '\\'.toNat = false) (hp : Narrow mode p) :
    NameCharacter mode P c p q ↔
      P c.toNat = true ∧ ∃ w, NameCharacterWord mode c w ∧ word w p q := by
  constructor
  · intro h
    cases h with
    | literal _ hc h =>
      refine ⟨hc, [c], .literal fun hmode => hp hmode _ ?_, h⟩
      rw [show p = c.toNat :: q from h]
      exact List.mem_cons_self
    | escaped hc h =>
      rcases h with ⟨t, hback, h⟩
      rcases exists_unicodeWord h with ⟨w, hw, hword⟩
      exact ⟨hc, _, .escaped hw, word_append.2 ⟨t, hback, hword⟩⟩
  · intro h
    rcases h with ⟨hc, w, hw, h⟩
    cases hw with
    | literal _ =>
      refine .literal ?_ hc h
      rintro rfl
      rw [hP] at hc
      contradiction
    | escaped hw =>
      rcases (word_append (v := ['\\'])).1 h with ⟨t, hback, hword⟩
      exact .escaped hc ⟨t, hback, unicodeEscape_toNat_iff.2 ⟨_, hw, hword⟩⟩

theorem repeats_nameCharacter_iff (hP : P '\\'.toNat = false) (hp : Narrow mode p) :
    Repeats (NameCharacter mode P) cs p q ↔
      (∀ c ∈ cs, P c.toNat = true) ∧ ∃ w, Spells mode cs w ∧ word w p q := by
  constructor
  · intro h
    induction h with
    | nil => exact ⟨by simp, [], .nil, rfl⟩
    | cons hc _ ih =>
      rcases (nameCharacter_iff hP hp).1 hc with ⟨hc, v, hv, ht⟩
      rcases ih (hp.of_word ht) with ⟨hcs, w, hw, hq⟩
      exact ⟨List.forall_mem_cons.2 ⟨hc, hcs⟩, v ++ w, .cons hv hw, word_append.2 ⟨_, ht, hq⟩⟩
  · intro h
    rcases h with ⟨hcs, w, hw, h⟩
    induction hw generalizing p with
    | nil =>
      obtain rfl : p = q := h
      exact .nil
    | cons hv _ ih =>
      rw [List.forall_mem_cons] at hcs
      rcases word_append.1 h with ⟨t, ht, hq⟩
      exact .cons ((nameCharacter_iff hP hp).2 ⟨hcs.1, _, hv, ht⟩) (ih (hp.of_word ht) hcs.2 hq)

/-- A word in angle brackets. -/
def angled (w : List Char) : List Char := ['<'] ++ w ++ ['>']

theorem whole_angled (h : Whole mode w) : Whole mode (angled w) :=
  whole_append (whole_append (whole_of_ascii (by decide)) h) (whole_of_ascii (by decide))

theorem NameWord.whole_angled {name : String} (h : NameWord mode name w) :
    Whole mode (angled w) :=
  Language.whole_angled h.spells.whole

/-- A name in angle brackets is read from each of its words. -/
theorem groupName_iff {name : String} (hp : Narrow mode p) :
    GroupName mode name p q ↔ ∃ w, NameWord mode name w ∧ word (angled w) p q := by
  have hstart : Identifier.startsName '\\'.toNat = false := by decide
  have hcontinue : Identifier.continuesName '\\'.toNat = false := by decide
  constructor
  · intro h
    cases h with
    | @mk c cs _ t t' r _ hopen hc hcs hclose =>
      have ht := hp.of_word hopen
      rcases (nameCharacter_iff hstart ht).1 hc with ⟨hc, v, hv, ht'⟩
      rcases (repeats_nameCharacter_iff hcontinue (ht.of_word ht')).1 hcs with ⟨hcs, w, hw, hr⟩
      refine ⟨v ++ w, ⟨?_, ?_⟩, ?_⟩
      · rw [String.toList_ofList]
        exact ⟨hc, hcs⟩
      · rw [String.toList_ofList]
        exact .cons hv hw
      · exact word_append.2 ⟨r, word_append.2 ⟨t, hopen, word_append.2 ⟨t', ht', hr⟩⟩, hclose⟩
  · intro h
    rcases h with ⟨w, ⟨hname, hspells⟩, h⟩
    rcases word_append.1 h with ⟨r, h, hclose⟩
    rcases word_append.1 h with ⟨t, hopen, hw⟩
    rw [← String.ofList_toList (s := name)]
    cases hcs : name.toList with
    | nil =>
      rw [hcs] at hname
      exact hname.elim
    | cons c cs =>
      rw [hcs] at hname hspells
      cases hspells with
      | cons hv hw' =>
        rcases word_append.1 hw with ⟨t', ht', hr⟩
        have ht := hp.of_word hopen
        exact .mk hopen ((nameCharacter_iff hstart ht).2 ⟨hname.1, _, hv, ht'⟩)
          ((repeats_nameCharacter_iff hcontinue (ht.of_word ht')).2 ⟨hname.2, _, hw', hr⟩) hclose

end EcmaPattern.Language
