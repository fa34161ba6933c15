import EcmaPattern.Check
import EcmaPattern.Proofs.Recognition.Disjunction

namespace EcmaPattern

open CodeUnit Recognizer
open EcmaPattern.Language (Derives)

/-! # The patterns that are accepted

A pattern is accepted if and only if the grammar derives it with groups of different names and sound
references. So the order in which forms are tried loses no derivation, and what a failed form leaves
behind is never seen.
-/

/-- The patterns of the language in which at most `limit` groups are open at once. -/
def Language.IsPattern (mode : Mode) (limit : Nat) (text : Text) : Prop :=
  ∃ e, Derives mode limit .disjunction e text [] ∧ e.names.Nodup ∧ e.Sound mode

variable {σ : Settings} {text : List CodeUnit} {mode : Mode}

/-! ## Whole texts -/

theorem found_recognize (σ : Settings) (text : List CodeUnit) :
    Found σ.mode .evidence (.start text) (recognize σ text) fun e q =>
      q = [] ∧ Derives σ.mode σ.nestingLimit.toNat .disjunction e (decode σ.mode text) [] :=
  Grammar.recognizes_disjunction rfl σ.nestingLimit.toNat (.start text)

/-- The state that a match ends in: all is read, and what is found is what a derivation says. -/
theorem exists_derives_of_match (h : (recognize σ text).1.isMatch = true) :
    ∃ e, Derives σ.mode σ.nestingLimit.toNat .disjunction e (decode σ.mode text) [] ∧
      e.names.Nodup ∧ (recognize σ text).2 = (State.start text).read [] e := by
  rcases (found_recognize σ text).sound h with ⟨e, rest, -, hstate, ⟨hnil, hderives⟩, hfresh⟩
  obtain rfl := decode_eq_nil_iff.1 hnil
  exact ⟨e, hderives, nil_fresh.1 hfresh, hstate⟩

/-- A text with a derivation is matched, and what is found is what the derivation says. -/
theorem recognize_of_derives {e : Evidence} (hnames : e.names.Nodup)
    (h : Derives σ.mode σ.nestingLimit.toNat .disjunction e (decode σ.mode text) []) :
    (recognize σ text).1.isMatch = true ∧
      (recognize σ text).2 = (State.start text).read [] e := by
  rcases (found_recognize σ text).complete e [] ⟨rfl, h⟩ (nil_fresh.2 hnames) with
    ⟨hmatch, -, rest, hstate, hnil⟩
  obtain rfl := decode_eq_nil_iff.1 hnil
  exact ⟨hmatch, hstate⟩

/-! ## References -/

theorem checkReferences_iff {s : State} :
    (s.checkReferences mode).1 = true ↔ s.toEvidence.Sound mode := by
  rw [← Evidence.fault?_eq_none_iff, State.checkReferences]
  cases s.fault? mode <;> simp

theorem isPattern_eq_and (σ : Settings) (text : List CodeUnit) : isPattern σ text =
    ((recognize σ text).1.isMatch && ((recognize σ text).2.checkReferences σ.mode).1) :=
  rfl

theorem toEvidence_start_read (e : Evidence) :
    ((State.start text).read [] e).toEvidence = e.saturated :=
  Evidence.empty_append e.saturated

/-- A text of fewer than `2 ^ 32` units has fewer groups than the largest number that a reference
keeps. -/
theorem groups_lt_of_derives {limit : Nat} {e : Evidence} (hlen : text.length < 2 ^ 32)
    (h : Derives mode limit .disjunction e (decode mode text) []) :
    e.groups < Grammar.largestReference := by
  have hgroups := Language.groups_of_derives h
  have hle := length_decode_le mode text
  simp only [Grammar.largestReference, List.length_nil] at hgroups ⊢
  omega

/-- A text is a pattern where what a derivation says is sound with the numbers that are kept. -/
theorem isPattern_iff_saturated (σ : Settings) (text : List CodeUnit) :
    isPattern σ text = true ↔
      ∃ e, Derives σ.mode σ.nestingLimit.toNat .disjunction e (decode σ.mode text) [] ∧
        e.names.Nodup ∧ e.saturated.Sound σ.mode := by
  rw [isPattern_eq_and, Bool.and_eq_true, checkReferences_iff]
  constructor
  · intro h
    rcases h with ⟨hmatch, hrefs⟩
    rcases exists_derives_of_match hmatch with ⟨e, h, hnames, hstate⟩
    rw [hstate, toEvidence_start_read] at hrefs
    exact ⟨e, h, hnames, hrefs⟩
  · intro h
    rcases h with ⟨e, h, hnames, hrefs⟩
    rcases recognize_of_derives hnames h with ⟨hmatch, hstate⟩
    rw [hstate, toEvidence_start_read]
    exact ⟨hmatch, hrefs⟩

/-- An atom alone that says nothing about groups is a pattern. -/
theorem isPattern_of_atom {σ : Settings} {text : List CodeUnit}
    (h : Derives σ.mode σ.nestingLimit.toNat .atom {} (decode σ.mode text) []) :
    isPattern σ text = true := by
  have hterm : Derives σ.mode σ.nestingLimit.toNat .term {} (decode σ.mode text) [] :=
    .plain (Language.quantifiable_atom σ.mode) h fun _ => Language.not_quantifier_nil
  rw [isPattern_iff_saturated]
  exact ⟨{}, .single (.cons hterm .nil), List.nodup_nil, nofun, nofun⟩

theorem isPattern_iff (σ : Settings) (text : List CodeUnit)
    (hlen : σ.mode = .unicode → text.length < 2 ^ 32) :
    isPattern σ text = true ↔
      Language.IsPattern σ.mode σ.nestingLimit.toNat (decode σ.mode text) := by
  have hsound {e : Evidence}
      (h : Derives σ.mode σ.nestingLimit.toNat .disjunction e (decode σ.mode text) []) :
      e.saturated.Sound σ.mode ↔ e.Sound σ.mode :=
    Evidence.sound_saturated_iff fun hmode => groups_lt_of_derives (hlen hmode) h
  rw [isPattern_iff_saturated]
  constructor
  · intro h
    rcases h with ⟨e, h, hnames, hrefs⟩
    exact ⟨e, h, hnames, (hsound h).1 hrefs⟩
  · intro h
    rcases h with ⟨e, h, hnames, hrefs⟩
    exact ⟨e, h, hnames, (hsound h).2 hrefs⟩

/-! ## Acceptance -/

/-- In Unicode mode the language is one of code points. Below `2 ^ 32` units there are fewer digits in
any braces, so all of them count. -/
theorem accepts_unicode_iff (limit : UInt64) (pattern : String)
    (hlen : (encode pattern.toList).length < 2 ^ 32) :
    accepts { mode := .unicode, nestingLimit := limit } pattern = true ↔
      Language.IsPattern .unicode limit.toNat (Text.ofWord pattern.toList) := by
  rw [accepts, isPattern_iff _ _ fun _ => hlen]
  exact iff_of_eq (congrArg _ (decode_unicode_encode pattern.toList))

theorem isPattern_of_named_reference :
    (encode "(?<a>.)\\k<a>\\1".toList).length < 2 ^ 32 ∧
      Language.IsPattern .unicode 1 (Text.ofWord "(?<a>.)\\k<a>\\1".toList) := by
  have hlen : (encode "(?<a>.)\\k<a>\\1".toList).length < 2 ^ 32 := by decide
  exact ⟨hlen, (accepts_unicode_iff 1 "(?<a>.)\\k<a>\\1" hlen).1 (by decide +kernel)⟩

/-- In legacy mode the language is one of code units. -/
theorem accepts_legacy_iff (limit : UInt64) (pattern : String) :
    accepts { mode := .legacy, nestingLimit := limit } pattern = true ↔
      Language.IsPattern .legacy limit.toNat ((encode pattern.toList).map UInt16.toNat) :=
  isPattern_iff _ _ nofun

/-! ## Rollback -/

/-- What matches is the same whatever failed attempts take back, and so is all that is found. -/
theorem match_of_rollback {τ : Settings} (hoptions : σ.toOptions = τ.toOptions)
    (h : (recognize σ text).1.isMatch = true) :
    (recognize τ text).1.isMatch = true ∧ (recognize σ text).2 = (recognize τ text).2 := by
  rcases exists_derives_of_match h with ⟨e, hderives, hnames, hstate⟩
  rw [hoptions] at hderives
  rcases recognize_of_derives hnames hderives with ⟨hmatch, hstate'⟩
  exact ⟨hmatch, hstate.trans hstate'.symm⟩

/-- Names that failed attempts leave behind are never seen. -/
theorem recognize_rollback (options : Options) (text : List CodeUnit) :
    let kept := options.settings
    let restored : Settings := { options with rollback := .everything }
    (recognize kept text).1.isMatch = (recognize restored text).1.isMatch ∧
      ((recognize kept text).1.isMatch = true →
        (recognize kept text).2 = (recognize restored text).2) ∧
      isPattern kept text = isPattern restored text := by
  intro kept restored
  have hoptions : kept.toOptions = restored.toOptions := rfl
  have hmatch : (recognize kept text).1.isMatch = (recognize restored text).1.isMatch := by
    rw [Bool.eq_iff_iff]
    exact ⟨fun h => (match_of_rollback hoptions h).1,
      fun h => (match_of_rollback hoptions.symm h).1⟩
  refine ⟨hmatch, fun h => (match_of_rollback hoptions h).2, ?_⟩
  rw [isPattern_eq_and, isPattern_eq_and]
  cases h : (recognize kept text).1.isMatch with
  | true => rw [← hmatch, h, (match_of_rollback hoptions h).2, hoptions]
  | false => rw [← hmatch, h, Bool.false_and, Bool.false_and]

end EcmaPattern
