import EcmaPattern.Proofs.Run.Grammar

namespace EcmaPattern

/-! # What recognizers do to a state

Whether it matches or not, a recognizer stays in the text, moves no further back than where it
began, and adds to what was found and noted before.
-/

/-! ## States -/

namespace State

/-- The state `s'` goes on from `s`. -/
structure Extends (s s' : State) : Prop where
  text : s'.text = s.text
  rest : s'.rest <:+ s.rest
  groups : s.groups ≤ s'.groups
  candidates : s.candidates <+: s'.candidates
  names : s.names <+: s'.names
  references : s.references <+: s'.references
  log : s.log <+: s'.log

variable {s s' s'' : State}

theorem Extends.refl (s : State) : s.Extends s where
  text := rfl
  rest := List.suffix_refl _
  groups := Nat.le_refl _
  candidates := List.prefix_refl _
  names := List.prefix_refl _
  references := List.prefix_refl _
  log := List.prefix_refl _

theorem Extends.trans (h : s.Extends s') (h' : s'.Extends s'') : s.Extends s'' where
  text := h'.text.trans h.text
  rest := h'.rest.trans h.rest
  groups := Nat.le_trans h.groups h'.groups
  candidates := h.candidates.trans h'.candidates
  names := h.names.trans h'.names
  references := h.references.trans h'.references
  log := h.log.trans h'.log

theorem Extends.suffix (h : s.Extends s') (hs : s.rest <:+ s.text) : s'.rest <:+ s'.text :=
  h.text ▸ h.rest.trans hs

/-- What is left of a text stands after the units up to the position. -/
theorem drop_position (h : s.rest <:+ s.text) : s.text.drop s.position = s.rest :=
  (List.suffix_iff_eq_drop.1 h).symm

theorem extends_moved {rest : List CodeUnit} (h : rest <:+ s.rest) : s.Extends { s with rest } :=
  { Extends.refl s with rest := h }

theorem extends_note (d : Diagnostic) : s.Extends (s.note d) :=
  { Extends.refl s with log := List.prefix_append _ _ }

theorem extends_addCandidate (number : Nat) : s.Extends (s.addCandidate number) :=
  { Extends.refl s with candidates := List.prefix_append _ _ }

theorem extends_addReference (reference : Reference) : s.Extends (s.addReference reference) :=
  { Extends.refl s with references := List.prefix_append _ _ }

/-- What is taken back is what happened since the earlier state, and that was only added. -/
theorem Extends.undo (h : s.Extends s') (rollback : Rollback) : s.Extends (s'.undo rollback s) := by
  cases rollback with
  | numbers =>
    exact
      { h with
        rest := List.suffix_refl _
        groups := Nat.le_refl _
        candidates := List.prefix_refl _ }
  | everything => exact { Extends.refl s with text := h.text, log := h.log }

end State

/-! ## Recognizers -/

namespace Reader

/-- What a character of either mode leaves is an end of the text. -/
theorem suffix_of_codePoint {mode : Mode} {text rest : List CodeUnit} {n : Nat}
    (h : (codePoint mode).run text = some (n, rest)) : rest <:+ text := by
  match mode, text with
  | _, [] => simp [Reader.codePoint, StateT.run] at h
  | .legacy, u :: text =>
    obtain ⟨-, rfl⟩ : u.toNat = n ∧ text = rest := by
      simpa [Reader.codePoint, StateT.run] using h
    exact List.suffix_cons u text
  | .unicode, [u] =>
    obtain ⟨-, rfl⟩ : u.toNat = n ∧ [] = rest := by
      simpa [Reader.codePoint, StateT.run] using h
    exact List.nil_suffix
  | .unicode, lead :: trail :: after =>
    simp only [Reader.codePoint, StateT.run] at h
    split at h
    · obtain rfl : after = rest := (Prod.mk.inj (Option.some.inj h)).2
      exact (List.suffix_cons trail after).trans (List.suffix_cons lead _)
    · obtain rfl : trail :: after = rest := (Prod.mk.inj (Option.some.inj h)).2
      exact List.suffix_cons lead _

theorem holdsAlong_suffix (mode : Mode) :
    HoldsAlong mode fun text rest : List CodeUnit => rest <:+ text where
  refl := List.suffix_refl
  trans h h' := h'.trans h
  character _ rest := List.suffix_append _ rest
  codePoint := suffix_of_codePoint

/-- What a reader leaves is an end of the text. -/
theorem Parts.suffix_of_run {mode : Mode} {α : Type} {r : Reader α} (parts : Parts mode r) {a : α}
    {text rest : List CodeUnit} (h : r.run text = some (a, rest)) : rest <:+ text :=
  (holdsAlong_suffix mode).of_mem_trace parts (parts.mem_trace_of_run h)

end Reader

namespace Recognizer

/-- In each state the recognizer `p` only goes on. -/
def Extending (p : Recognizer) : Prop := ∀ s : State, s.Extends (p s).2

/-- What closing a group does: it counts the group and may add its name, or notes that the name is
taken. -/
theorem closeGroup_cases (name : Option String) (s : State) :
    (∃ names, s.names <+: names ∧
      Grammar.closeGroup name s = (.matched, { s with names, groups := s.groups + 1 })) ∨
    ∃ d, Grammar.closeGroup name s = (.noMatch, s.note d) := by
  cases name with
  | none => exact Or.inl ⟨s.names, List.prefix_refl _, rfl⟩
  | some name =>
    simp only [Grammar.closeGroup, State.addName?]
    by_cases htaken : name ∈ s.names
    · rw [if_pos htaken]
      exact Or.inr ⟨_, rfl⟩
    · rw [if_neg htaken]
      exact Or.inl ⟨s.names ++ [name], List.prefix_append _ _, rfl⟩

theorem extending_closeGroup (name : Option String) : (Grammar.closeGroup name).Extending := by
  intro s
  rcases closeGroup_cases name s with ⟨names, hnames, heq⟩ | ⟨d, heq⟩
  · rw [heq]
    exact { State.Extends.refl s with names := hnames, groups := Nat.le_succ _ }
  · rw [heq]
    exact State.extends_note d

/-- Each step of a run goes on, and going back goes no further than to where an attempt began. -/
theorem holdsAlong_extends (mode : Mode) : HoldsAlong mode State.Extends where
  refl := .refl
  trans := .trans
  character _ _ rest h := State.extends_moved (h ▸ List.suffix_append _ rest)
  codePoint h := State.extends_moved (Reader.suffix_of_codePoint h)
  note _ d := State.extends_note d
  candidate _ n := State.extends_addCandidate n
  reference _ r := State.extends_addReference r
  undo rollback h := h.undo rollback
  closeGroup name hparen h :=
    (State.extends_moved (Reader.run_word_eq_some_iff.1 hparen ▸ List.suffix_append _ _)).trans
      (h.trans (extending_closeGroup name _))

end Recognizer

/-! ## The recognizers of the grammar -/

namespace Grammar

open Recognizer

variable {σ : Settings} {body : Recognizer}

theorem extending_term (inside : body.Parts σ.mode) : (term σ body).Extending :=
  (holdsAlong_extends σ.mode).of_parts (termParts inside)

/-- A disjunction goes on from where it begins, whether it matches or not. -/
theorem extending_disjunction (room : Nat) {closer : Option (List Char)} :
    (disjunction σ room closer).Extending :=
  (holdsAlong_extends σ.mode).of_parts (disjunctionParts σ room closer)

end Grammar

end EcmaPattern
