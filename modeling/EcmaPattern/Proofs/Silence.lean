import EcmaPattern.Proofs.Acceptance
import EcmaPattern.Proofs.Recognition.Frame

namespace EcmaPattern

open CodeUnit Recognizer

/-! # Diagnostics

A diagnostic is noted in the middle of a form whose failure another form may follow. No such form
matches, so a pattern that is accepted leaves the log empty.
-/

variable {σ : Settings} {text : List CodeUnit}

/-- A match notes nothing, for it adds to the first state only what a derivation says. -/
theorem log_recognize_of_match (h : (recognize σ text).1.isMatch = true) :
    (recognize σ text).2.log = [] := by
  rcases exists_derives_of_match h with ⟨e, -, -, hstate⟩
  rw [hstate]
  rfl

/-- Sound references are nothing to note. -/
theorem checkReferences_of_sound {mode : Mode} {s : State}
    (h : (s.checkReferences mode).1 = true) : (s.checkReferences mode).2 = s := by
  unfold State.checkReferences at h ⊢
  cases hfault : s.fault? mode with
  | none => rfl
  | some d =>
    rw [hfault] at h
    contradiction

theorem log_eq_nil_of_accepts {options : Options} {pattern : String}
    (h : accepts options pattern = true) : (inspect options pattern).state.log = [] := by
  rw [accepts, isPattern_eq_and, Bool.and_eq_true] at h
  rcases h with ⟨hmatch, hrefs⟩
  have hlog := log_recognize_of_match hmatch
  have hstate := checkReferences_of_sound hrefs
  simp only [inspect, hmatch, if_true]
  exact (congrArg State.log hstate).trans hlog

/-- Nothing is taken off the log, and where a pattern is accepted nothing is on it. -/
theorem accepts_silent (options : Options) (pattern : String) :
    (∀ room closer s, s.log <+: (Grammar.disjunction options.settings room closer s).2.log) ∧
      (accepts options pattern = true → (inspect options pattern).state.log = []) :=
  ⟨fun room _ s => (Grammar.extending_disjunction room s).log, log_eq_nil_of_accepts⟩

theorem silent_property_in_named_group :
    let options : Options := { mode := .unicode, nestingLimit := 1 }
    let pattern := "(?<a>\\p{Script=Latin})\\k<a>|[^\\P{Lu}]"
    accepts options pattern = true ∧ (inspect options pattern).state.log = [] := by
  intro options pattern
  have h : accepts options pattern = true := by decide +kernel
  exact ⟨h, (accepts_silent options pattern).2 h⟩

end EcmaPattern
