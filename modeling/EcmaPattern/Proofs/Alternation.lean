import EcmaPattern.Proofs.Acceptance
import EcmaPattern.Proofs.Language.Tail

namespace EcmaPattern

open CodeUnit Form
open EcmaPattern.Language (Derives)

/-! # Alternatives next to each other

Two patterns with a bar between them are recognized as each is alone. A bar is where every form
stops that looks ahead, so the first pattern reads the same before it; and the second does not
depend on what was found before, but for the names of groups, which must all be different.
-/

variable {mode : Mode} {limit : Nat} {e f : Evidence} {p q t t' : Text}

/-! ## The language -/

/-- Alternatives go on after a bar. -/
theorem Language.disjunction_append (h : Derives mode limit .disjunction e p t)
    (hbar : word ['|'] t t') (h' : Derives mode limit .disjunction f t' q) :
    Derives mode limit .disjunction (e ++ f) p q := by
  generalize hx : Language.Symbol.disjunction = x at h
  induction h with
  | single h => exact .bar h hbar h'
  | bar h hword _ _ ih =>
    rw [Evidence.append_assoc]
    exact .bar h hword (ih hbar h' rfl)
  | _ => contradiction

/-- A text that is a disjunction up to its end is one up to a bar. -/
theorem Language.disjunction_bar_disjunction (h : Derives mode limit .disjunction e p [])
    (h' : Derives mode limit .disjunction f q []) :
    Derives mode limit .disjunction (e ++ f) (p ++ '|'.toNat :: q) [] := by
  have hend : mode = .legacy → ¬ ∃ t, word ['c'] [] t := by
    rintro - ⟨t, ht⟩
    contradiction
  have hstops : Stops ('|'.toNat :: q) := Or.inr ⟨'|', by decide, q, rfl⟩
  rcases Language.moves_derives (q := []) hend hstops h with ⟨p, rfl, hmoved⟩
  rw [List.append_nil]
  exact Language.disjunction_append hmoved rfl h'

/-! ## References -/

/-- In Unicode mode references that are sound in each of two texts are sound in both together. -/
theorem Evidence.Sound.append (h : e.Sound .unicode) (h' : f.Sound .unicode) :
    (e ++ f).Sound .unicode where
  numbers _ n hn := by
    rcases List.mem_append.1 hn with hn | hn
    · exact Nat.le_trans (h.numbers rfl n hn) (Nat.le_add_right _ _)
    · exact Nat.le_trans (h'.numbers rfl n hn) (Nat.le_add_left _ _)
  names _ r hr := by
    rcases List.mem_append.1 hr with hr | hr
    · rcases h.names (Or.inl rfl) r hr with ⟨name, hname, heq⟩
      exact ⟨name, List.mem_append_left _ hname, heq⟩
    · rcases h'.names (Or.inl rfl) r hr with ⟨name, hname, heq⟩
      exact ⟨name, List.mem_append_right _ hname, heq⟩

/-! ## Patterns -/

theorem decode_alternation (mode : Mode) (p q : String) :
    decode mode (encode (p ++ "|" ++ q).toList) =
      decode mode (encode p.toList) ++ '|'.toNat :: decode mode (encode q.toList) := by
  have hbar : "|".toList = ['|'] := rfl
  have hword : decode mode (encode (['|'] ++ q.toList)) =
      Text.ofWord ['|'] ++ decode mode (encode q.toList) := by
    rw [encode_append]
    exact decode_encode_append mode (by decide) _
  rw [String.toList_append, String.toList_append, hbar, List.append_assoc,
    decode_encode_append_encode, hword]
  rfl

/-- A match of two patterns whose groups have different names is one of both together, and what is
found in both is what is found in the first and then what is found in the second. -/
theorem match_alternation {options : Options} {p q : String} {first second : Outcome × State}
    (hfirst : recognize options.settings (encode p.toList) = first)
    (hsecond : recognize options.settings (encode q.toList) = second)
    (hp : first.1.isMatch = true) (hq : second.1.isMatch = true)
    (hnames : ∀ name ∈ first.2.names, name ∉ second.2.names) :
    let both := recognize options.settings (encode (p ++ "|" ++ q).toList)
    both.1.isMatch = true ∧ both.2.toEvidence = first.2.toEvidence ++ second.2.toEvidence := by
  subst hfirst hsecond
  intro both
  rcases exists_derives_of_match hp with ⟨e, he, hnodup, hstate⟩
  rcases exists_derives_of_match hq with ⟨f, hf, hnodup', hstate'⟩
  rw [hstate, hstate'] at hnames ⊢
  rw [toEvidence_start_read, toEvidence_start_read] at hnames ⊢
  have hnodup : (e ++ f).names.Nodup := by
    refine List.nodup_append.2 ⟨hnodup, hnodup', fun n hn m hm heq => ?_⟩
    exact hnames n hn (heq ▸ hm)
  have hderives := Language.disjunction_bar_disjunction he hf
  rw [← decode_alternation] at hderives
  rcases recognize_of_derives hnodup hderives with ⟨hmatch, hlast⟩
  refine ⟨hmatch, ?_⟩
  rw [← Evidence.saturated_append, ← toEvidence_start_read, ← hlast]

theorem accepts_iff_sound {options : Options} {pattern : String} :
    let run := recognize options.settings (encode pattern.toList)
    accepts options pattern = true ↔
      run.1.isMatch = true ∧ run.2.toEvidence.Sound options.mode := by
  intro run
  rw [accepts, isPattern_eq_and, Bool.and_eq_true, checkReferences_iff]
  rfl

/-- A text is accepted if what a derivation of it says is sound, unless it has more groups than the
numbers that are told apart. -/
theorem accepts_iff_of_derives {options : Options} {pattern : String} (hnames : e.names.Nodup)
    (h : Derives options.mode options.nestingLimit.toNat .disjunction e
      (decode options.mode (encode pattern.toList)) [])
    (hlt : options.mode = .unicode → e.groups < Grammar.largestReference) :
    accepts options pattern = true ↔ e.Sound options.mode := by
  rcases recognize_of_derives (σ := options.settings) hnames h with ⟨hmatch, hstate⟩
  refine accepts_iff_sound.trans ?_
  rw [and_iff_right hmatch, hstate, toEvidence_start_read, Evidence.sound_saturated_iff hlt]

/-- Alternation adds up what is found, and in Unicode mode what is accepted stays so. -/
theorem recognize_alternation (options : Options) (p q : String)
    (hp : (recognize options.settings (encode p.toList)).1.isMatch = true)
    (hq : (recognize options.settings (encode q.toList)).1.isMatch = true)
    (hnames : ∀ name ∈ (recognize options.settings (encode p.toList)).2.names,
      name ∉ (recognize options.settings (encode q.toList)).2.names) :
    let first := (recognize options.settings (encode p.toList)).2
    let second := (recognize options.settings (encode q.toList)).2
    let both := recognize options.settings (encode (p ++ "|" ++ q).toList)
    both.1.isMatch = true ∧ both.2.groups = first.groups + second.groups ∧
      both.2.candidates = first.candidates ++ second.candidates ∧
      both.2.references = first.references ++ second.references ∧
      both.2.names = first.names ++ second.names ∧
      (options.mode = .unicode → accepts options p = true → accepts options q = true →
        accepts options (p ++ "|" ++ q) = true) := by
  intro first second both
  obtain ⟨hmatch, hfound⟩ := match_alternation rfl rfl hp hq hnames
  refine ⟨hmatch, congrArg Evidence.groups hfound, congrArg Evidence.candidates hfound,
    congrArg Evidence.references hfound, congrArg Evidence.names hfound, ?_⟩
  intro hmode hacceptsp hacceptsq
  have hsoundp := (accepts_iff_sound.1 hacceptsp).2
  have hsoundq := (accepts_iff_sound.1 hacceptsq).2
  refine accepts_iff_sound.2 ⟨hmatch, ?_⟩
  rw [hmode] at hsoundp hsoundq ⊢
  rw [hfound]
  exact hsoundp.append hsoundq

theorem accepts_alternation_of_named_groups :
    let options : Options := { mode := .unicode, nestingLimit := 2 }
    let p := "(?<a>(b))\\k<a>\\2"
    let q := "c|(?<d>[^e]{2,})\\1"
    accepts options p = true ∧ accepts options q = true ∧
      accepts options (p ++ "|" ++ q) = true ∧
      (recognize options.settings (encode (p ++ "|" ++ q).toList)).2.groups = 3 := by
  intro options p q
  have hp : accepts options p = true := by decide +kernel
  have hq : accepts options q = true := by decide +kernel
  have hgroups : (recognize options.settings (encode p.toList)).2.groups = 2 ∧
      (recognize options.settings (encode q.toList)).2.groups = 1 := by decide +kernel
  obtain ⟨-, hsum, -, -, -, haccepts⟩ :=
    recognize_alternation options p q (by decide +kernel) (by decide +kernel) (by decide +kernel)
  rw [hgroups.1, hgroups.2] at hsum
  exact ⟨hp, hq, haccepts rfl hp hq, hsum⟩

end EcmaPattern
