import EcmaPattern.Proofs.Atomicity
import EcmaPattern.Proofs.Writing

namespace EcmaPattern

open CodeUnit Form Recognizer
open EcmaPattern.Language (IsHex UnicodeWord unitWord pairWord bracedWord)

/-! # Escapes that start with `u`

What such an escape is read as is the number that its digits were written for. The saturation of
the digits in braces, and the look at a second escape after a lead surrogate, change nothing in
that. The count of these digits does: it is kept in 32 bits, so each `2 ^ 32` digits count as none.
-/

namespace Grammar

variable {mode : Mode} {s : State} {digits lead low w : List Char} {rest : List CodeUnit} {n : Nat}

/-- The escape of a trail surrogate follows one that has the value `n` of a lead surrogate. -/
def JoinsTrail (n : Nat) (rest : List CodeUnit) : Prop :=
  Surrogate.isLead n = true ∧ ∃ low after, IsHex 4 low ∧
    Surrogate.isTrail (Numeral.value 16 low) = true ∧ rest = encode ('\\' :: unitWord low) ++ after

/-- Two numerals of four digits, for the two surrogates of `n`. -/
structure WritesPair (n : Nat) (lead low : List Char) : Prop where
  isHex_lead : IsHex 4 lead
  isHex_low : IsHex 4 low
  value_lead : Numeral.value 16 lead = Surrogate.lead n
  value_low : Numeral.value 16 low = Surrogate.trail n

/-- A numeral of `n`, with any leading zeros as long as the digits do not count as none. -/
structure WritesHex (n : Nat) (digits : List Char) : Prop where
  not_dvd_length : ¬ 2 ^ 32 ∣ digits.length
  isHexDigit : ∀ d ∈ digits, Numeral.isHexDigit d = true
  value : Numeral.value 16 digits = n

theorem exists_writesPair (hle : n ≤ 0x10FFFF) : ∃ lead low, WritesPair n lead low := by
  have hlead : Surrogate.lead n < 16 ^ 4 := by
    unfold Surrogate.lead
    omega
  have hlow : Surrogate.trail n < 16 ^ 4 := by
    unfold Surrogate.trail
    omega
  rcases Language.exists_hex hlead with ⟨lead, hhex, hvalue⟩
  rcases Language.exists_hex hlow with ⟨low, hhex', hvalue'⟩
  exact ⟨lead, low, hhex, hhex', hvalue, hvalue'⟩

theorem exists_writesHex (hle : n ≤ 0x10FFFF) : ∃ digits, WritesHex n digits := by
  have hlt : n < 16 ^ 6 := by omega
  rcases Language.exists_hex hlt with ⟨digits, ⟨hlen, hall⟩, hvalue⟩
  exact ⟨digits, Nat.not_dvd_of_pos_of_lt (by omega) (by omega), hall, hvalue⟩

theorem character_of_unicodeEscape
    (h : Language.UnicodeEscape mode n (decode mode s.rest) (decode mode rest)) :
    character (unicodeEscape mode) s = (.codePoint n, { s with rest }) :=
  character_of_some (reads_unicodeEscape.run_eq_some_iff.2 h)

theorem character_of_not_unicodeEscape
    (h : ¬ (Language.UnicodeEscape mode).Applies (decode mode s.rest)) :
    character (unicodeEscape mode) s = (.noMatch, s) :=
  character_of_none (reads_unicodeEscape.run_eq_none_iff.2 h)

/-- A word that is written stands in front of the characters. -/
theorem word_of_rest (mode : Mode) (hw : ∀ c ∈ w, c.toNat < 0x80) (h : s.rest = encode w ++ rest) :
    word w (decode mode s.rest) (decode mode rest) :=
  (word_decode_iff (whole_of_ascii hw)).2 h

theorem joinsTrail_of_applies (hlead : Surrogate.isLead n = true)
    (h : Language.trail.Applies (decode mode rest)) : JoinsTrail n rest := by
  rcases Language.trail_applies_iff.1 h with ⟨low, q, hhex, htrail, hword⟩
  rcases of_decode_append (Language.ascii_trailWord hhex) hword with ⟨after, hrest, -⟩
  exact ⟨hlead, low, after, hhex, htrail, hrest⟩

theorem unicodeEscape_of_braced (hall : ∀ d ∈ digits, Numeral.isHexDigit d = true)
    (h : s.rest = encode (bracedWord digits) ++ rest) :
    character (unicodeEscape .unicode) s =
      if ¬ 2 ^ 32 ∣ digits.length ∧ Numeral.value 16 digits ≤ 0x10FFFF then
        (.codePoint (Numeral.value 16 digits), { s with rest })
      else
        (.noMatch, s) := by
  have hword := word_of_rest .unicode (Language.ascii_bracedWord hall) h
  split
  next hread => exact character_of_unicodeEscape (.braced rfl hread.1 hall hword hread.2)
  next hnone =>
    refine character_of_not_unicodeEscape ?_
    rintro ⟨n, q, he⟩
    rcases he.eq_of_braced hall hword with ⟨hcount, rfl, hle⟩
    exact hnone ⟨hcount, hle⟩

theorem unicodeEscape_of_pair (hhex : IsHex 4 lead) (hhex' : IsHex 4 low)
    (hlead : Surrogate.isLead (Numeral.value 16 lead) = true)
    (htrail : Surrogate.isTrail (Numeral.value 16 low) = true)
    (h : s.rest = encode (pairWord lead low) ++ rest) :
    character (unicodeEscape .unicode) s =
      (.codePoint (Surrogate.combine (Numeral.value 16 lead) (Numeral.value 16 low)),
        { s with rest }) := by
  have hpair : UnicodeWord .unicode _ (pairWord lead low) := .pair rfl hhex hhex' hlead htrail
  have hword := word_of_rest .unicode hpair.ascii h
  refine character_of_unicodeEscape (hpair.escape hword fun _ hlead' => ?_)
  -- the pair stands for no surrogate
  have hlarge : 0x10000 ≤ Surrogate.combine (Numeral.value 16 lead) (Numeral.value 16 low) := by
    unfold Surrogate.combine
    omega
  simp only [Surrogate.isLead, Bool.and_eq_true, decide_eq_true_eq] at hlead'
  omega

theorem unicodeEscape_of_unit (hhex : IsHex 4 digits)
    (h : s.rest = encode (unitWord digits) ++ rest)
    (halone : mode = .unicode → ¬ JoinsTrail (Numeral.value 16 digits) rest) :
    character (unicodeEscape mode) s =
      (.codePoint (Numeral.value 16 digits), { s with rest := s.rest.drop 5 }) := by
  have hlen : (encode (unitWord digits)).length = 5 := by
    rw [length_encode_of_ascii (Language.ascii_unitWord hhex), unitWord, List.length_cons, hhex.1]
  have hdrop : s.rest.drop 5 = rest := by rw [h, ← hlen, List.drop_left]
  have hunit : UnicodeWord mode _ (unitWord digits) := .unit hhex
  rw [hdrop]
  refine character_of_unicodeEscape (hunit.escape (word_of_rest mode hunit.ascii h) ?_)
  intro hmode hlead htrail
  exact halone hmode (joinsTrail_of_applies hlead htrail)

theorem unicodeEscape_of_not_word
    (h : ¬ ∃ n w rest, UnicodeWord mode n w ∧ s.rest = encode w ++ rest) :
    character (unicodeEscape mode) s = (.noMatch, s) := by
  refine character_of_not_unicodeEscape ?_
  rintro ⟨n, q, he⟩
  rcases Language.exists_unicodeWord he with ⟨w, hw, hword⟩
  rcases of_decode_append hw.ascii hword with ⟨rest, hrest, -⟩
  exact h ⟨n, w, rest, hw, hrest⟩

/-- Legacy mode has only escapes of one unit. -/
theorem exists_unitWord_of_legacy (h : UnicodeWord .legacy n w) :
    ∃ digits, IsHex 4 digits ∧ w = unitWord digits := by
  cases h with
  | unit hhex => exact ⟨_, hhex, rfl⟩
  | pair hmode => contradiction
  | braced hmode => contradiction

end Grammar

/-- The escapes that start with `u` are read exactly. In Unicode mode digits in braces, as many as
there are, stand for their value if it is at most 10FFFF and for nothing otherwise, except that they
also stand for nothing where their number is a multiple of `2 ^ 32`; the escapes of a lead and a
trail surrogate stand for one code point; any other escape of four digits stands for its value, and
five units are taken whatever follows; nothing else is taken. In legacy mode four digits always
stand for their value, and there is no other escape. So each code point above FFFF, written as its
two surrogates, is read as itself, and so is each one written in braces. -/
theorem unicodeEscape_exact (s : State) :
    (∀ digits rest, (∀ d ∈ digits, Numeral.isHexDigit d = true) →
      s.rest = encode (bracedWord digits) ++ rest →
      character (Grammar.unicodeEscape .unicode) s =
        if ¬ 2 ^ 32 ∣ digits.length ∧ Numeral.value 16 digits ≤ 0x10FFFF then
          (.codePoint (Numeral.value 16 digits), { s with rest })
        else
          (.noMatch, s)) ∧
    (∀ lead low rest, IsHex 4 lead → IsHex 4 low →
      Surrogate.isLead (Numeral.value 16 lead) = true →
      Surrogate.isTrail (Numeral.value 16 low) = true →
      s.rest = encode (pairWord lead low) ++ rest →
      character (Grammar.unicodeEscape .unicode) s =
        (.codePoint (Surrogate.combine (Numeral.value 16 lead) (Numeral.value 16 low)),
          { s with rest })) ∧
    (∀ digits rest, IsHex 4 digits → s.rest = encode (unitWord digits) ++ rest →
      ¬ Grammar.JoinsTrail (Numeral.value 16 digits) rest →
      character (Grammar.unicodeEscape .unicode) s =
        (.codePoint (Numeral.value 16 digits), { s with rest := s.rest.drop 5 })) ∧
    ((¬ ∃ n w rest, UnicodeWord .unicode n w ∧ s.rest = encode w ++ rest) →
      character (Grammar.unicodeEscape .unicode) s = (.noMatch, s)) ∧
    (∀ digits rest, IsHex 4 digits → s.rest = encode (unitWord digits) ++ rest →
      character (Grammar.unicodeEscape .legacy) s =
        (.codePoint (Numeral.value 16 digits), { s with rest := s.rest.drop 5 })) ∧
    ((¬ ∃ digits rest, IsHex 4 digits ∧ s.rest = encode (unitWord digits) ++ rest) →
      character (Grammar.unicodeEscape .legacy) s = (.noMatch, s)) ∧
    (∀ n, 0x10000 ≤ n → n ≤ 0x10FFFF → (∃ lead low, Grammar.WritesPair n lead low) ∧
      ∀ lead low rest, Grammar.WritesPair n lead low → s.rest = encode (pairWord lead low) ++ rest →
        character (Grammar.unicodeEscape .unicode) s = (.codePoint n, { s with rest })) ∧
    ∀ n ≤ 0x10FFFF, (∃ digits, Grammar.WritesHex n digits) ∧
      ∀ digits rest, Grammar.WritesHex n digits → s.rest = encode (bracedWord digits) ++ rest →
        character (Grammar.unicodeEscape .unicode) s = (.codePoint n, { s with rest }) := by
  refine ⟨?braced, ?pair, ?unit, ?none, ?legacyUnit, ?legacyNone, ?astral, ?inBraces⟩
  case braced => exact fun digits rest => Grammar.unicodeEscape_of_braced
  case pair => exact fun lead low rest => Grammar.unicodeEscape_of_pair
  case unit =>
    intro digits rest hhex h halone
    exact Grammar.unicodeEscape_of_unit hhex h fun _ => halone
  case none => exact Grammar.unicodeEscape_of_not_word
  case legacyUnit =>
    intro digits rest hhex h
    exact Grammar.unicodeEscape_of_unit hhex h nofun
  case legacyNone =>
    intro hnone
    refine Grammar.unicodeEscape_of_not_word ?_
    rintro ⟨n, w, rest, hw, h⟩
    rcases Grammar.exists_unitWord_of_legacy hw with ⟨digits, hhex, rfl⟩
    exact hnone ⟨digits, rest, hhex, h⟩
  case astral =>
    intro n hlarge hle
    refine ⟨Grammar.exists_writesPair hle, ?_⟩
    rintro lead low rest ⟨hhex, hhex', hlead, hlow⟩ h
    have hpair := Grammar.unicodeEscape_of_pair hhex hhex'
      (by rw [hlead, Surrogate.isLead_lead hle]) (by rw [hlow, Surrogate.isTrail_trail]) h
    rwa [hlead, hlow, Surrogate.combine_lead_trail hlarge] at hpair
  case inBraces =>
    intro n hle
    refine ⟨Grammar.exists_writesHex hle, ?_⟩
    rintro digits rest ⟨hcount, hall, rfl⟩ h
    rw [Grammar.unicodeEscape_of_braced hall h, if_pos ⟨hcount, hle⟩]

/-- The code point 1F600 in its two ways, the first before a third escape of a surrogate. -/
theorem unicodeEscape_grinning_face :
    let pair := State.start (encode "uD83d\\uDe00\\uDE00".toList)
    let braced := State.start (encode "u{0000000001F600}".toList)
    character (Grammar.unicodeEscape .unicode) pair =
        (.codePoint 0x1F600, { pair with rest := encode "\\uDE00".toList }) ∧
      character (Grammar.unicodeEscape .unicode) braced =
        (.codePoint 0x1F600, { braced with rest := [] }) := by
  intro pair braced
  have hpair : Grammar.WritesPair 0x1F600 "D83d".toList "De00".toList :=
    ⟨by decide +kernel, by decide +kernel, by decide +kernel, by decide +kernel⟩
  have hbraced : Grammar.WritesHex 0x1F600 "0000000001F600".toList :=
    ⟨by decide +kernel, by decide +kernel, by decide +kernel⟩
  constructor
  · exact ((unicodeEscape_exact pair).2.2.2.2.2.2.1 0x1F600 (by decide) (by decide)).2 _ _ _ hpair
      (by decide +kernel)
  · exact ((unicodeEscape_exact braced).2.2.2.2.2.2.2 0x1F600 (by decide)).2 _ _ hbraced
      (by decide +kernel)

/-- Zeros have a value, but where they count as none they are not read. -/
theorem unicodeEscape_of_uncounted_zeros :
    let zeros := List.replicate (2 ^ 32) '0'
    let s := State.start (encode (bracedWord zeros))
    Numeral.value 16 zeros = 0 ∧ character (Grammar.unicodeEscape .unicode) s = (.noMatch, s) := by
  intro zeros s
  have hcount : 2 ^ 32 ∣ zeros.length := ⟨1, List.length_replicate⟩
  have hall : ∀ d ∈ zeros, Numeral.isHexDigit d = true :=
    fun d => Numeral.isHexDigit_of_mem_zeros
  have hrest : s.rest = encode (bracedWord zeros) ++ [] := (List.append_nil _).symm
  have hword := Grammar.word_of_rest .unicode (Language.ascii_bracedWord hall) hrest
  exact ⟨Numeral.value_zeros 16 (2 ^ 32), Grammar.character_of_not_unicodeEscape <|
    Language.not_unicodeEscape_of_dvd hcount hall hword⟩

end EcmaPattern
