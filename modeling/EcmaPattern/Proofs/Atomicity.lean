import EcmaPattern.Proofs.Recognition.Frame

namespace EcmaPattern

open Recognizer

/-! # What is tried and fails

Alternatives are tried one after the other, and nothing is taken back between them. That is right
because each of them, where it fails, stands where it began and counts what was counted before; only
names, references and notes stay behind.
-/

/-! ## States -/

namespace State

/-- The state `s'` stands where `s` does, with the same groups and numbers. -/
structure Resumes (s s' : State) : Prop where
  rest : s'.rest = s.rest
  groups : s'.groups = s.groups
  candidates : s'.candidates = s.candidates

/-- The state `s'` is at the place of `s` in the same text, with the same groups and numbers. -/
structure Returns (s s' : State) : Prop extends s.Resumes s' where
  text : s'.text = s.text
  position : s'.position = s.position

variable {s s' s'' : State}

theorem Resumes.refl (s : State) : s.Resumes s := ⟨rfl, rfl, rfl⟩

theorem Resumes.trans (h : s.Resumes s') (h' : s'.Resumes s'') : s.Resumes s'' where
  rest := h'.rest.trans h.rest
  groups := h'.groups.trans h.groups
  candidates := h'.candidates.trans h.candidates

theorem resumes_undo (s s' : State) (rollback : Rollback) : s.Resumes (s'.undo rollback s) := by
  cases rollback <;> exact ⟨rfl, rfl, rfl⟩

theorem Resumes.returns (h : s.Resumes s') (htext : s'.text = s.text) : s.Returns s' :=
  { h with
    text := htext
    position := by rw [Cursor.position, Cursor.position, htext, h.rest] }

end State

/-! ## Recognizers -/

namespace Recognizer

variable {mode : Mode} {α : Type} {p : Recognizer} {ps : List Recognizer} {r : Reader α}
variable {rollback : Rollback}

/-- In each state the recognizer `p` stands where it began if it fails. -/
def Atomic (p : Recognizer) : Prop :=
  ∀ s : State, (p s).1.isMatch = false → s.Resumes (p s).2

theorem atomic_attempt : (attempt rollback p).Atomic := by
  intro s hnone
  cases h : (p s).1.isMatch with
  | true =>
    rw [attempt_of_match h, h] at hnone
    contradiction
  | false =>
    rw [attempt_of_noMatch h]
    exact State.resumes_undo s _ rollback

/-- A reader that fails takes nothing. -/
theorem atomic_reading {p : α → Recognizer}
    (hp : ∀ text a rest, r.run text = some (a, rest) → ∀ s, (p a s).1.isMatch = true) :
    (reading r p).Atomic := by
  intro s hnone
  simp only [reading] at hnone ⊢
  split at hnone
  next a rest hrun =>
    rw [hp _ _ _ hrun] at hnone
    contradiction
  next => exact .refl s

theorem character_of_some {r : Reader Nat} {s : State} {n : Nat} {rest : List CodeUnit}
    (h : r.run s.rest = some (n, rest)) : character r s = (.codePoint n, { s with rest }) :=
  ofReader_map_of_some h

theorem character_of_none {r : Reader Nat} {s : State} (h : r.run s.rest = none) :
    character r s = (.noMatch, s) :=
  ofReader_map_of_none h

theorem atomic_character {r : Reader Nat} : (character r).Atomic := by
  intro s hnone
  cases hrun : r.run s.rest with
  | some found =>
    rw [character_of_some hrun] at hnone
    contradiction
  | none =>
    rw [character_of_none hrun]
    exact .refl s

theorem atomic_plain : (plain r).Atomic := by
  refine atomic_reading fun text o rest hrun s => ?_
  rw [seqRight_eq_bind, StateT.run_bind, Option.bind_eq_bind, Option.bind_eq_some_iff] at hrun
  rcases hrun with ⟨_, -, hpure⟩
  obtain rfl : Outcome.matched = o := (Prod.mk.inj (Option.some.inj hpure)).1
  rfl

/-- Alternatives that each stand where they began do so together. -/
theorem atomic_anyOf (h : ∀ p ∈ ps, p.Atomic) : (anyOf ps).Atomic := by
  induction ps with
  | nil => exact fun s _ => .refl s
  | cons p ps ih =>
    rw [List.forall_mem_cons] at h
    intro s hnone
    cases hmatch : (p s).1.isMatch with
    | true =>
      rw [anyOf_cons_of_match hmatch, hmatch] at hnone
      contradiction
    | false =>
      rw [anyOf_cons_of_noMatch hmatch] at hnone ⊢
      exact (h.1 s hmatch).trans (ih h.2 _ hnone)

/-- Where the first alternatives fail, the others go on from the state that those leave. -/
theorem anyOf_append_of_noMatch {qs : List Recognizer} {s : State}
    (h : (anyOf ps s).1.isMatch = false) : anyOf (ps ++ qs) s = anyOf qs (anyOf ps s).2 := by
  induction ps generalizing s with
  | nil => rfl
  | cons p ps ih =>
    cases hmatch : (p s).1.isMatch with
    | true =>
      rw [anyOf_cons_of_match hmatch, hmatch] at h
      contradiction
    | false =>
      rw [anyOf_cons_of_noMatch hmatch] at h ⊢
      rw [List.cons_append, anyOf_cons_of_noMatch hmatch, ih h]

/-- Alternatives that each stay in the text do so together. -/
theorem text_anyOf (h : ∀ p ∈ ps, ∀ s, (p s).2.text = s.text) (s : State) :
    (anyOf ps s).2.text = s.text := by
  induction ps generalizing s with
  | nil => rfl
  | cons p ps ih =>
    rw [List.forall_mem_cons] at h
    cases hmatch : (p s).1.isMatch with
    | true =>
      rw [anyOf_cons_of_match hmatch]
      exact h.1 s
    | false =>
      rw [anyOf_cons_of_noMatch hmatch]
      exact (ih h.2 _).trans (h.1 s)

theorem text_of_mem_forms (forms : Forms mode ps) (hp : p ∈ ps) (s : State) :
    (p s).2.text = s.text := by
  rcases forms.anyOf.nonempty_of_calls (forms.calls_of_mem hp) with ⟨parts⟩
  exact ((holdsAlong_extends mode).of_parts parts s).text

/-- Readers one after the other find what the recognizers do that are made from them. -/
theorem anyOf_map_character (readers : List (Reader Nat)) :
    anyOf (readers.map character) = character (Reader.firstOf readers) := by
  induction readers with
  | nil => rfl
  | cons r readers ih =>
    funext s
    have hfirst : (Reader.firstOf (r :: readers)).run s.rest =
        (r.run s.rest <|> (Reader.firstOf readers).run s.rest) := rfl
    rw [List.map_cons]
    cases hrun : r.run s.rest with
    | some found =>
      have hfound := character_of_some hrun
      rw [hrun] at hfirst
      rw [anyOf_cons_of_match (by rw [hfound]; rfl), hfound, character_of_some hfirst]
    | none =>
      have hnone := character_of_none hrun
      rw [hrun] at hfirst
      rw [anyOf_cons_of_noMatch (by rw [hnone]; rfl), hnone, ih]
      cases hrest : (Reader.firstOf readers).run s.rest with
      | some found => rw [character_of_some hrest, character_of_some (hfirst.trans hrest)]
      | none => rw [character_of_none hrest, character_of_none (hfirst.trans hrest)]

theorem text_character (r : Reader Nat) (s : State) : (character r s).2.text = s.text := by
  simp only [character, ofReader, reading]
  split <;> rfl

end Recognizer

/-! ## The recognizers of the grammar -/

namespace Grammar

variable {σ : Settings} {body : Recognizer}

/-! ### Terms and atoms -/

theorem atomic_assertion : (assertion σ body).Atomic :=
  atomic_anyOf <| by
    simp only [List.forall_mem_cons]
    exact ⟨atomic_plain, atomic_attempt, List.forall_mem_nil _⟩

theorem atomic_of_mem_termForms : ∀ p ∈ termForms σ body, p.Atomic := by
  have hquantified (p : Recognizer) : (quantified σ p).Atomic := atomic_attempt
  rw [termForms]
  split
  · simp only [List.forall_mem_cons]
    exact ⟨atomic_assertion, hquantified _, List.forall_mem_nil _⟩
  · simp only [List.forall_mem_cons]
    exact ⟨hquantified _, atomic_assertion, hquantified _, List.forall_mem_nil _⟩

/-- A term that fails stands where it began. -/
theorem atomic_term : (term σ body).Atomic := atomic_anyOf atomic_of_mem_termForms

theorem atomic_of_mem_atomForms : ∀ p ∈ atomForms σ body, p.Atomic := by
  rw [atomForms]
  split
  · simp only [List.forall_mem_cons]
    exact ⟨atomic_character, atomic_plain, atomic_attempt, atomic_attempt, atomic_attempt,
      atomic_attempt, List.forall_mem_nil _⟩
  · simp only [List.forall_mem_cons]
    exact ⟨atomic_plain, atomic_attempt, atomic_plain, atomic_attempt, atomic_attempt,
      atomic_attempt, atomic_character, List.forall_mem_nil _⟩

/-! ### Escapes -/

theorem atomic_setEscape : (setEscape σ).Atomic := by
  rw [setEscape]
  split
  · exact atomic_plain
  · refine atomic_anyOf ?_
    simp only [List.forall_mem_cons]
    exact ⟨atomic_plain, atomic_attempt, List.forall_mem_nil _⟩

theorem atomic_decimalEscape : decimalEscape.Atomic :=
  atomic_anyOf <| by
    simp only [List.forall_mem_cons]
    exact ⟨atomic_character, atomic_reading fun _ _ _ _ _ => rfl, List.forall_mem_nil _⟩

theorem atomic_of_mem_atomEscapeForms : ∀ p ∈ atomEscapeForms σ, p.Atomic := by
  simp only [atomEscapeForms, List.forall_mem_cons]
  exact ⟨atomic_decimalEscape, atomic_setEscape, atomic_character,
    atomic_reading fun _ _ _ _ _ => rfl, List.forall_mem_nil _⟩

theorem atomic_of_mem_classEscapeForms : ∀ p ∈ classEscapeForms σ, p.Atomic := by
  rw [classEscapeForms]
  split
  · simp only [List.forall_mem_cons]
    exact ⟨atomic_character, atomic_character, atomic_setEscape, atomic_character,
      List.forall_mem_nil _⟩
  · simp only [List.forall_mem_cons]
    exact ⟨atomic_character, atomic_character, atomic_setEscape, atomic_character,
      atomic_character, List.forall_mem_nil _⟩

theorem atomic_of_mem_propertyForms : ∀ p ∈ propertyForms σ, p.Atomic := by
  simp only [propertyForms, List.forall_mem_cons]
  exact ⟨atomic_attempt, atomic_attempt, List.forall_mem_nil _⟩

/-! ### All lists of alternatives -/

/-- The lists of alternatives: of a term, an atom, an escape outside classes and in them, an escape
for one character and a property expression. -/
def formLists (σ : Settings) (body : Recognizer) : List (List Recognizer) :=
  [termForms σ body, atomForms σ body, atomEscapeForms σ, classEscapeForms σ,
    (characterEscapeForms σ.mode).map character, propertyForms σ]

theorem atomic_of_mem_formLists {forms : List Recognizer} (hforms : forms ∈ formLists σ body) :
    ∀ p ∈ forms, p.Atomic := by
  simp only [formLists, List.mem_cons, List.not_mem_nil, or_false] at hforms
  rcases hforms with rfl | rfl | rfl | rfl | rfl | rfl
  · exact atomic_of_mem_termForms
  · exact atomic_of_mem_atomForms
  · exact atomic_of_mem_atomEscapeForms
  · exact atomic_of_mem_classEscapeForms
  · intro p hp
    rcases List.mem_map.1 hp with ⟨r, -, rfl⟩
    exact atomic_character
  · exact atomic_of_mem_propertyForms

theorem text_of_mem_formLists (inside : body.Parts σ.mode) {forms : List Recognizer}
    (hforms : forms ∈ formLists σ body) {p : Recognizer} (hp : p ∈ forms) (s : State) :
    (p s).2.text = s.text := by
  simp only [formLists, List.mem_cons, List.not_mem_nil, or_false] at hforms
  rcases hforms with rfl | rfl | rfl | rfl | rfl | rfl
  · exact text_of_mem_forms (termFormsParts inside) hp s
  · exact text_of_mem_forms (atomFormsParts inside) hp s
  · exact text_of_mem_forms (atomEscapeFormsParts σ) hp s
  · exact text_of_mem_forms (classEscapeFormsParts σ) hp s
  · rcases List.mem_map.1 hp with ⟨r, -, rfl⟩
    exact text_character r s
  · exact text_of_mem_forms (propertyFormsParts σ : Forms σ.mode _) hp s

end Grammar

/-- Each alternative that fails leaves the place, the candidates and the groups as they were, so the
next one starts where the first did. A term does so as well. The forms of an escape for one
character are readers; as recognizers one after the other they are the escape. -/
theorem alternatives_atomic (σ : Settings) (room : Nat) (s : State) :
    let body := Grammar.groupBody σ room
    (∀ forms ∈ Grammar.formLists σ body,
      (∀ p ∈ forms, (p s).1.isMatch = false → s.Returns (p s).2) ∧
      ∀ before p after, forms = before ++ p :: after → (anyOf before s).1.isMatch = false →
        s.Returns (anyOf before s).2 ∧ anyOf forms s = anyOf (p :: after) (anyOf before s).2) ∧
    ((Grammar.term σ body s).1.isMatch = false → s.Returns (Grammar.term σ body s).2) ∧
    anyOf ((Grammar.characterEscapeForms σ.mode).map character) =
      character (Grammar.characterEscape σ.mode) := by
  intro body
  have htext {forms : List Recognizer} (hforms : forms ∈ Grammar.formLists σ body)
      (p : Recognizer) (hp : p ∈ forms) (s : State) : (p s).2.text = s.text :=
    Grammar.text_of_mem_formLists (Grammar.groupBodyParts σ room) hforms hp s
  have hreturns {forms : List Recognizer} (hforms : forms ∈ Grammar.formLists σ body)
      {ps : List Recognizer} (hps : ps ⊆ forms) (hnone : (anyOf ps s).1.isMatch = false) :
      s.Returns (anyOf ps s).2 := by
    have hatomic : (anyOf ps).Atomic :=
      atomic_anyOf fun p hp => Grammar.atomic_of_mem_formLists hforms p (hps hp)
    exact (hatomic s hnone).returns (text_anyOf (fun p hp => htext hforms p (hps hp)) s)
  refine ⟨fun forms hforms => ⟨fun p hp hnone => ?_, fun before p after heq hnone => ?_⟩,
    hreturns List.mem_cons_self (List.Subset.refl _), anyOf_map_character _⟩
  · exact (Grammar.atomic_of_mem_formLists hforms p hp s hnone).returns (htext hforms p hp s)
  · subst heq
    exact ⟨hreturns hforms (List.subset_append_left _ _) hnone, anyOf_append_of_noMatch hnone⟩

/-- The name of a group in the term that fails is taken, and the one that took it stays behind. -/
theorem group_returns_after_duplicate_name :
    let σ : Settings := { mode := .unicode, nestingLimit := 2 }
    let body := Grammar.groupBody σ 2
    let text := CodeUnit.encode "b(?:(b)(?<n>c)|\\3(?<n>d))".toList
    let s : State := { text, rest := text.drop 1, groups := 1, candidates := [4] }
    let group := Grammar.labelledGroup σ body [['?', ':']]
    group ∈ Grammar.atomForms σ body ∧ (group s).1 = .noMatch ∧ (group s).2.names = ["n"] ∧
      s.Returns (group s).2 ∧ s.Returns (Grammar.term σ body s).2 := by
  intro σ body text s group
  have hmem : group ∈ Grammar.atomForms σ body := by simp [Grammar.atomForms, σ, group]
  have hforms : Grammar.atomForms σ body ∈ Grammar.formLists σ body :=
    List.mem_cons_of_mem _ List.mem_cons_self
  have hgroup : (group s).1 = .noMatch := by decide +kernel
  have hterm : (Grammar.term σ body s).1 = .noMatch := by decide +kernel
  have h := alternatives_atomic σ 2 s
  exact ⟨hmem, hgroup, by decide +kernel,
    (h.1 _ hforms).1 group hmem (Outcome.isMatch_eq_false_iff.2 hgroup),
    h.2.1 (Outcome.isMatch_eq_false_iff.2 hterm)⟩

end EcmaPattern
