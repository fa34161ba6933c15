import EcmaPattern.Proofs.Acceptance
import EcmaPattern.Proofs.Language.Relaxation

namespace EcmaPattern

open CodeUnit Form
open EcmaPattern.Language (Portable UnicodeEscape)

/-! # Legacy mode relaxes Unicode mode

Legacy mode accepts the patterns that Unicode mode accepts, up to the two things that only Unicode
mode reads as one character: a pair of surrogates, written as itself or as two escapes, and an
escape with braces.
-/

/-! ## Texts that mean the same -/

/-- Characters of a single unit are the same in both modes. -/
theorem decode_legacy_encode {text : List Char} (h : ∀ c ∈ text, c.toNat < 0x10000) :
    decode .legacy (encode text) = Text.ofWord text :=
  decode_encode_of_whole fun _ => h

/-- The escape of a code unit that `P` holds of: a backslash, a `u` and four digits. -/
def EscapesUnit (P : Nat → Bool) (w : List Char) : Prop :=
  ∃ digits, digits.length = 4 ∧ (∀ d ∈ digits, Numeral.isHexDigit d = true) ∧
    P (Numeral.value 16 digits) = true ∧ w = ['\\', 'u'] ++ digits

/-- A word at a place of a text is a part of the text. -/
theorem infix_of_word {text w : List Char} {t q : Text} (ht : t <:+ Text.ofWord text)
    (h : word w t q) : w <:+: text := by
  rcases ht with ⟨s, hs⟩
  rcases List.map_eq_append_iff.1 hs.symm with ⟨before, rest, rfl, -, hrest⟩
  have hopens : Text.ofWord w <+: Text.ofWord rest := ⟨q, h.symm.trans hrest.symm⟩
  rcases Text.ofWord_prefix_iff.1 hopens with ⟨after, rfl⟩
  exact ⟨before, after, List.append_assoc before w after⟩

theorem exists_escapesUnit {P : Nat → Bool} {n : Nat} {p q : Text}
    (h : after ['\\', 'u'] (Language.hexDigits 4) n p q) (hn : P n = true) :
    ∃ w, EscapesUnit P w ∧ word w p q := by
  rcases h with ⟨t, hstart, digits, rfl, hlen, hdigits, hword⟩
  exact ⟨_, ⟨digits, hlen, hdigits, hn, rfl⟩, word_append.2 ⟨t, hstart, hword⟩⟩

/-- Without pairs of surrogates and braces all escapes that start with `u` are the same. -/
theorem portable_of_not_infix {text : List Char} (hbraced : ¬ ['\\', 'u', '{'] <:+: text)
    (hpairs : ∀ v w, EscapesUnit Surrogate.isLead v → EscapesUnit Surrogate.isTrail w →
      ¬ v ++ w <:+: text) : Portable (Text.ofWord text) := by
  intro t ht n q h
  rcases h with ⟨s, hback, h⟩
  cases h with
  | unit h _ => exact ⟨s, hback, .unit h nofun⟩
  | pair _ h hlead hlow =>
    have h := (after_append (v := ['\\']) (w := ['u'])).2 ⟨s, hback, h⟩
    rcases exists_escapesUnit h hlead with ⟨v, hv, hvt⟩
    rcases exists_escapesUnit hlow.1 hlow.2 with ⟨w, hw, hwt⟩
    exact absurd (infix_of_word ht (word_append.2 ⟨_, hvt, hwt⟩)) (hpairs v w hv hw)
  | @braced digits _ _ _ _ _ h _ =>
    have hpart := infix_of_word ht (word_append.2 ⟨s, hback, h⟩)
    have hopens : ['\\', 'u', '{'] <+: ['\\'] ++ (['u', '{'] ++ digits ++ ['}']) :=
      ⟨digits ++ ['}'], by simp⟩
    exact absurd (hopens.isInfix.trans hpart) hbraced

/-! ## Acceptance -/

/-- References that are sound in Unicode mode are sound in legacy mode, which looks at fewer. -/
theorem Evidence.Sound.relax {e : Evidence} (h : e.Sound .unicode) : e.Sound .legacy where
  numbers := nofun
  names _ := h.names (Or.inl rfl)

/-- A pattern of characters of single units, without escapes in braces and without two escapes for
one character, is accepted in legacy mode if it is accepted in Unicode mode. -/
theorem accepts_legacy_of_accepts_unicode (limit : UInt64) (pattern : String)
    (hsingle : ∀ c ∈ pattern.toList, c.toNat < 0x10000)
    (hbraced : ¬ ['\\', 'u', '{'] <:+: pattern.toList)
    (hpairs : ∀ v w, EscapesUnit Surrogate.isLead v → EscapesUnit Surrogate.isTrail w →
      ¬ v ++ w <:+: pattern.toList)
    (h : accepts { mode := .unicode, nestingLimit := limit } pattern = true) :
    accepts { mode := .legacy, nestingLimit := limit } pattern = true := by
  rw [accepts, isPattern_iff_saturated] at h ⊢
  rcases h with ⟨e, hderives, hnames, hsound⟩
  have hends : Language.EndsTerm .unicode [] := by
    rintro c - ⟨t, ht⟩
    contradiction
  have hunicode : decode .unicode (encode pattern.toList) = Text.ofWord pattern.toList :=
    decode_unicode_encode pattern.toList
  have hlegacy : decode .legacy (encode pattern.toList) = Text.ofWord pattern.toList :=
    decode_legacy_encode hsingle
  have hportable := portable_of_not_infix hbraced hpairs
  have hstrict : Language.Derives .unicode limit.toNat .disjunction e
      (Text.ofWord pattern.toList) [] := hunicode ▸ hderives
  have hrelaxed := Language.relaxed_of_derives hportable hstrict hends
  rw [← hlegacy] at hrelaxed
  exact ⟨e, hrelaxed, hnames, hsound.relax⟩

theorem accepts_legacy_of_property :
    let pattern := "(?<a>\\uD83D\\p{L}+)\\k<a>|[\\p{sc=Greek}\\-]"
    (∀ c ∈ pattern.toList, c.toNat < 0x10000) ∧ ¬ ['\\', 'u', '{'] <:+: pattern.toList ∧
      (∀ v w, EscapesUnit Surrogate.isLead v → EscapesUnit Surrogate.isTrail w →
        ¬ v ++ w <:+: pattern.toList) ∧
      accepts { mode := .unicode, nestingLimit := 1 } pattern = true ∧
      accepts { mode := .legacy, nestingLimit := 1 } pattern = true := by
  intro pattern
  have hsingle : ∀ c ∈ pattern.toList, c.toNat < 0x10000 := by decide +kernel
  have hbraced : ¬ ['\\', 'u', '{'] <:+: pattern.toList := by decide +kernel
  have hpairs : ∀ v w, EscapesUnit Surrogate.isLead v → EscapesUnit Surrogate.isTrail w →
      ¬ v ++ w <:+: pattern.toList := by
    -- two escapes would have two backslashes with a `u` behind, and there is only one
    rintro v w ⟨v, -, -, -, rfl⟩ ⟨w, -, -, -, rfl⟩ hpart
    have hle := hpart.sublist.count_le 'u'
    have hone : pattern.toList.count 'u' = 1 := by decide +kernel
    simp [hone] at hle
  have haccepts : accepts { mode := .unicode, nestingLimit := 1 } pattern = true := by
    decide +kernel
  exact ⟨hsingle, hbraced, hpairs, haccepts,
    accepts_legacy_of_accepts_unicode 1 pattern hsingle hbraced hpairs haccepts⟩

end EcmaPattern
