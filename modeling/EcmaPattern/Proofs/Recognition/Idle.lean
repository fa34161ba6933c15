import EcmaPattern.Proofs.Atomicity

namespace EcmaPattern

open CodeUnit Form Recognizer

/-! # Forms that a text rules out

Before the form that a text needs others are tried. Where the first characters rule them out they do
nothing at all, so the form that follows is tried in the same state.
-/

namespace Recognizer

variable {mode : Mode} {p : Recognizer} {ps qs : List Recognizer} {s : State}

/-- In the state `s` the recognizer `p` fails and changes nothing. -/
def Idle (p : Recognizer) (s : State) : Prop := p s = (.noMatch, s)

theorem ConfinedTo.idle {H : Text → Prop} (h : ConfinedTo mode H p)
    (hs : ¬ H (decode mode s.rest)) : Idle p s :=
  h.outside s hs

theorem Idle.isMatch (h : Idle p s) : (p s).1.isMatch = false := by
  rw [h]
  rfl

theorem anyOf_of_idle (h : ∀ p ∈ ps, Idle p s) : Idle (anyOf ps) s := by
  induction ps with
  | nil => rfl
  | cons p ps ih =>
    rw [List.forall_mem_cons] at h
    rw [Idle, anyOf_cons_of_noMatch h.1.isMatch, h.1]
    exact ih h.2

theorem anyOf_append_of_idle (h : ∀ p ∈ ps, Idle p s) : anyOf (ps ++ qs) s = anyOf qs s := by
  rw [anyOf_append_of_noMatch (anyOf_of_idle h).isMatch, anyOf_of_idle h]

theorem eq_noMatch_of_isMatch {r : Outcome × State} (h : r.1.isMatch = false) :
    r = (.noMatch, r.2) :=
  Prod.ext (Outcome.isMatch_eq_false_iff.1 h) rfl

theorem anyOf_singleton (p : Recognizer) : anyOf [p] = p := by
  funext s
  cases h : (p s).1.isMatch with
  | true => rw [anyOf_cons_of_match h]
  | false =>
    rw [anyOf_cons_of_noMatch h, eq_noMatch_of_isMatch h]
    rfl

end Recognizer

namespace Grammar

variable {σ : Settings} {body p : Recognizer} {s : State} {c : Char} {t : Text}

/-! ## Terms before atoms -/

/-- The forms of a term that are tried before an atom. -/
def beforeAtom (σ : Settings) (body : Recognizer) : List Recognizer :=
  match σ.mode with
  | .unicode => [assertion σ body]
  | .legacy => [quantified σ (lookahead σ body), assertion σ body]

theorem termForms_eq_append :
    termForms σ body = beforeAtom σ body ++ [quantified σ (atom σ body)] := by
  rw [termForms, beforeAtom]
  cases σ.mode <;> rfl

/-- No term but an atom starts with a parenthesis that opens no look-around, or with a brace. -/
theorem idle_of_mem_beforeAtom (hp : word [c] (decode σ.mode s.rest) t) (hc : c ∈ ['(', '{'])
    (hlabel : ¬ AtWord ((aheadLabels ++ behindLabels).map ('(' :: ·)) (decode σ.mode s.rest)) :
    ∀ p ∈ beforeAtom σ body, Idle p s := by
  have hlabels {labels : List (List Char)} (hsub : ∀ l ∈ labels, l ∈ aheadLabels ++ behindLabels) :
      ¬ AtWord (labels.map ('(' :: ·)) (decode σ.mode s.rest) := by
    rintro ⟨w, hw, r, h⟩
    rcases List.mem_map.1 hw with ⟨l, hl, rfl⟩
    exact hlabel ⟨_, List.mem_map.2 ⟨l, hsub l hl, rfl⟩, r, h⟩
  have hedges : ∀ c ∈ ['(', '{'], c ∉ ['^', '$', '\\'] := by decide
  have hassertion : Idle (assertion σ body) s := by
    refine (confinedTo_assertion rfl).idle ?_
    rintro (hedge | h)
    · exact not_word_of_edge hedge (hedges c hc) hp
    · exact hlabels (fun l hl => assertionLabels_subset hl) h
  rw [beforeAtom]
  split
  · simpa using hassertion
  · have hlookahead : Idle (quantified σ (lookahead σ body)) s :=
      (confinedTo_quantified (confinedTo_labelledGroup aheadLabels (by decide) (by decide))).idle
        (hlabels fun l hl => List.mem_append_left _ hl)
    simpa using ⟨hlookahead, hassertion⟩

theorem term_eq_quantified (h : ∀ p ∈ beforeAtom σ body, Idle p s) :
    term σ body s = quantified σ (atom σ body) s := by
  rw [term, termForms_eq_append, anyOf_append_of_idle h, anyOf_singleton]

theorem quantified_of_noMatch (h : (p s).1.isMatch = false) :
    quantified σ p s = (.noMatch, (p s).2.undo σ.rollback s) := by
  have hboth : (p.followedBy (plain (quantifier σ.mode)) s) = p s := followedBy_of_noMatch h
  rw [quantified, attempt_of_noMatch (by rwa [hboth]), hboth]

theorem idle_quantified (h : Idle p s) : Idle (quantified σ p) s := by
  rw [Idle, quantified_of_noMatch h.isMatch, h]
  cases σ.rollback <;> rfl

/-! ## Atoms around capturing groups -/

/-- The forms of an atom that are tried before a capturing group. -/
def beforeGroup (σ : Settings) (body : Recognizer) : List Recognizer :=
  match σ.mode with
  | .unicode =>
    [character (patternCharacter .unicode), plain (Reader.word ['.']), escapedAtom σ,
      characterClass σ, labelledGroup σ body [['?', ':']]]
  | .legacy =>
    [plain (Reader.word ['.']), escapedAtom σ, bareBackslash, characterClass σ,
      labelledGroup σ body [['?', ':']]]

/-- The forms of an atom that are tried after a capturing group. -/
def afterGroup (σ : Settings) : List Recognizer :=
  match σ.mode with
  | .unicode => []
  | .legacy => [character extendedCharacter]

theorem atomForms_eq_append :
    atomForms σ body = beforeGroup σ body ++ capturingGroup σ body :: afterGroup σ := by
  rw [atomForms, beforeGroup, afterGroup]
  cases σ.mode <;> rfl

theorem idle_of_mem_beforeGroup (hp : word [c] (decode σ.mode s.rest) t) (hc : c ∈ ['(', '{'])
    (hlabel : ¬ AtWord [['(', '?', ':']] (decode σ.mode s.rest)) :
    ∀ p ∈ beforeGroup σ body, Idle p s := by
  have hother {d : Char} (hd : d ∉ ['(', '{']) : ¬ ∃ r, word [d] (decode σ.mode s.rest) r := by
    rintro ⟨r, h⟩
    exact not_word_of_mem hp hc hd h
  have hdot : Idle (plain (Reader.word ['.'])) s := confinedTo_dot.idle (hother (by decide))
  have hescaped : Idle (escapedAtom σ) s := confinedTo_escapedAtom.idle (hother (by decide))
  have hclass : Idle (characterClass σ) s := confinedTo_characterClass.idle (hother (by decide))
  have hgroup : Idle (labelledGroup σ body [['?', ':']]) s :=
    (confinedTo_labelledGroup _ (by decide) (by decide)).idle hlabel
  rw [beforeGroup]
  cases hmode : σ.mode with
  | unicode =>
    have hspecial : ∀ c ∈ ['(', '{'], c ∈ Language.syntaxCharacters .unicode := by decide
    have hliteral : Idle (character (patternCharacter .unicode)) s := by
      refine traceless_patternCharacter.confined.idle ?_
      exact avoids_literal (hspecial c hc) _ ⟨t, hmode ▸ hp⟩
    simpa using ⟨hliteral, hdot, hescaped, hclass, hgroup⟩
  | legacy =>
    have hconfined : ConfinedTo σ.mode Bare.Applies bareBackslash :=
      traceless_bareBackslash.confined
    have hbare : Idle bareBackslash s := by
      refine hconfined.idle ?_
      rintro ⟨e, r, _, rfl, h, -⟩
      exact hother (by decide) ⟨r, h⟩
    simpa using ⟨hdot, hescaped, hbare, hclass, hgroup⟩

theorem idle_of_mem_afterGroup
    (h : σ.mode = .legacy → ¬ (Literal .legacy).Applies (decode .legacy s.rest)) :
    ∀ p ∈ afterGroup σ, Idle p s := by
  rw [afterGroup]
  cases hmode : σ.mode with
  | unicode => simp
  | legacy => simpa using traceless_extendedCharacter.confined.idle (h hmode)

/-- Where all else is ruled out, a group that fails makes the atom fail. -/
theorem atom_of_group (hbefore : ∀ p ∈ beforeGroup σ body, Idle p s)
    (hafter : ∀ p ∈ afterGroup σ, Idle p (capturingGroup σ body s).2)
    (h : (capturingGroup σ body s).1.isMatch = false) :
    atom σ body s = (.noMatch, (capturingGroup σ body s).2) := by
  rw [atom, atomForms_eq_append, anyOf_append_of_idle hbefore, anyOf_cons_of_noMatch h]
  exact anyOf_of_idle hafter

end Grammar

end EcmaPattern
