import EcmaPattern.Proofs.Recognition.Atom

namespace EcmaPattern.Grammar

open Form Reader Recognizer
open EcmaPattern.Language (Derives)

/-! # The recognizers of terms recognize the language of terms -/

variable {mode : Mode} {σ : Settings} {room : Nat} {body : Recognizer}

/-! ## Assertions -/

/-- An edge. -/
def Edge : Form Evidence := as (fun (w : List Char) p q => w ∈ Language.edges ∧ word w p q) {}

theorem traceless_edge : Traceless mode .evidence
    (plain (anyWord [['^'], ['$'], ['\\', 'b'], ['\\', 'B']])) Edge :=
  .plain_evidence (reads_anyWord (by decide) (by decide))

theorem applies_edge_iff {p : Text} : Edge.Applies p ↔ AtWord Language.edges p := by
  constructor
  · intro h
    rcases h with ⟨_, t, w, -, hw, h⟩
    exact ⟨w, hw, t, h⟩
  · intro h
    rcases h with ⟨w, hw, t, h⟩
    exact ⟨_, t, w, rfl, hw, h⟩

theorem atWord_edges_iff {p : Text} : AtWord Language.edges p ↔
    (∃ c ∈ ['^', '$'], ∃ t, word [c] p t) ∨ ∃ c ∈ ['b', 'B'], ∃ t, word ['\\', c] p t :=
  Language.edges_iff

/-- What an edge starts with. -/
theorem not_word_of_edge {c : Char} {w : List Char} {p q : Text} (h : AtWord Language.edges p)
    (hc : c ∉ ['^', '$', '\\']) : ¬ word (c :: w) p q := by
  rcases atWord_edges_iff.1 h with ⟨d, hd, t, hp⟩ | ⟨d, -, t, hp⟩
  · apply not_word_of_word hp
    intro heq
    subst heq
    exact hc (List.mem_append_left ['\\'] hd)
  · apply not_word_of_word hp
    intro heq
    subst heq
    exact hc (by decide)

theorem not_labelled_of_edge {labels : List (List Char)} {p : Text}
    (h : AtWord Language.edges p) : ¬ (Labelled mode room labels).Applies p := by
  intro h
  rcases h with ⟨e, q, l, -, t, hp, -⟩
  exact not_word_of_edge h (by decide) hp

/-- In Unicode mode no escape is the edge of a word. -/
theorem not_edge_of_escaped {p : Text} (h : (Escaped .unicode).Applies p) :
    ¬ AtWord Language.edges p := by
  rcases h with ⟨e, q, t, hback, h⟩
  exact Language.not_edge_of_atomEscape hback ⟨e, q, h⟩

/-- An atom does not start with an edge. -/
theorem not_edge_of_atom {e : Evidence} {p q : Text} (h : Derives mode room .atom e p q) :
    ¬ AtWord Language.edges p := by
  intro hedge
  cases h with
  | dot h => exact not_word_of_edge hedge (by decide) h
  | character hn =>
    -- an edge starts with a syntax character, which does not stand for itself
    have hspecial {c : Char} (hc : c ∈ ['^', '$', '\\']) : c ∈ Language.syntaxCharacters mode := by
      revert c
      cases mode <;> decide
    rcases atWord_edges_iff.1 hedge with ⟨c, hc, t, h⟩ | ⟨c, -, t, h⟩
    · rcases List.cons.inj h with ⟨rfl, -⟩
      exact hn (Text.mem_ofWord.2 (hspecial (List.mem_append_left _ hc)))
    · rcases List.cons.inj h with ⟨rfl, -⟩
      exact hn (Text.mem_ofWord.2 (hspecial (by decide)))
  | escape hnone h =>
    cases mode with
    -- in Unicode mode no escape is an edge; legacy mode says so in the grammar
    | unicode => exact not_edge_of_escaped ⟨_, _, h⟩ hedge
    | legacy => exact hnone rfl hedge
  | backslash _ h hc _ =>
    rcases atWord_edges_iff.1 hedge with ⟨d, hd, t, hp⟩ | ⟨d, hd, t, hp⟩
    · exact not_word_of_mem hp hd (by decide) h
    · exact not_word_of_mem (word_rest h hp) hd (by decide) hc
  | characterClass h =>
    rcases Language.bracket_of_characterClass h with ⟨t, h⟩
    exact not_word_of_edge hedge (by decide) h
  | group h => exact not_word_of_edge hedge (by decide) h
  | capture h => exact not_word_of_edge hedge (by decide) h
  | namedCapture h => exact not_word_of_edge hedge (by decide) h

theorem labelled_iff_lookahead {e : Evidence} {p q : Text} :
    Labelled mode room aheadLabels e p q ↔ Derives mode room .lookahead e p q := by
  constructor
  · intro h
    rcases h with ⟨l, hl, t, hopen, h⟩
    cases room with
    | zero => exact h.elim
    | succ room =>
      rcases h with ⟨r, h, hclose⟩
      exact .lookahead (List.mem_map.2 ⟨l, hl, rfl⟩) hopen h hclose
  · intro h
    cases h with
    | lookahead hw hopen h hclose =>
      rcases exists_aheadLabel hw with ⟨l, hl, rfl⟩
      exact ⟨l, hl, _, hopen, _, h, hclose⟩

theorem assertion_of_behind {e : Evidence} {p q : Text}
    (h : Labelled mode room behindLabels e p q) : Derives mode room .assertion e p q := by
  rcases h with ⟨l, hl, t, hopen, h⟩
  cases room with
  | zero => exact h.elim
  | succ room =>
    rcases h with ⟨r, h, hclose⟩
    exact .lookbehind (List.mem_map.2 ⟨l, hl, rfl⟩) hopen h hclose

theorem assertion_iff {e : Evidence} {p q : Text} :
    Derives mode room .assertion e p q ↔
      Edge e p q ∨ Labelled mode room (assertionLabels mode) e p q := by
  constructor
  · intro h
    cases h with
    | @edge _ w _ _ hw h => exact Or.inl ⟨w, rfl, hw, h⟩
    | @lookbehind room _ _ _ _ _ _ hw hopen h hclose =>
      rcases exists_behindLabel hw with ⟨l, hl, rfl⟩
      have hbehind : Labelled mode (room + 1) behindLabels e p q :=
        ⟨l, hl, _, hopen, _, h, hclose⟩
      cases mode with
      | unicode => exact Or.inr ((labelled_append_iff aheadLabels _).2 (Or.inr hbehind))
      | legacy => exact Or.inr hbehind
    | strictLookahead hmode h =>
      subst hmode
      exact Or.inr ((labelled_append_iff _ behindLabels).2 (Or.inl (labelled_iff_lookahead.2 h)))
  · intro h
    rcases h with ⟨w, rfl, hw, h⟩ | h
    · exact .edge hw h
    · cases mode with
      | legacy => exact assertion_of_behind h
      | unicode =>
        rcases (labelled_append_iff aheadLabels behindLabels).1 h with h | h
        · exact .strictLookahead rfl (labelled_iff_lookahead.1 h)
        · exact assertion_of_behind h

theorem ascii_assertionLabels : ∀ l ∈ assertionLabels mode, ∀ c ∈ l, c.toNat < 0x80 := by
  cases mode <;> decide

theorem pairwise_assertionLabels :
    (assertionLabels mode).Pairwise fun v w => ¬ v <+: w ∧ ¬ w <+: v := by
  cases mode <;> decide

theorem recognizes_assertion (hmode : σ.mode = mode)
    (hbody : Recognizes mode .evidence body (Body mode room)) :
    Recognizes mode .evidence (assertion σ body) (Derives mode room .assertion) := by
  rw [assertion, hmode]
  refine (traceless_edge.recognizes.anyOf_disjoint traceless_edge.confined
    (recognizes_labelledGroup hbody _ ascii_assertionLabels
      pairwise_assertionLabels).anyOf_last ?_).congr fun e p q => assertion_iff
  intro p hedge
  exact not_labelled_of_edge (applies_edge_iff.1 hedge)

/-- Where an assertion may leave a trace: at an edge and at the word that opens a look-around. -/
def AtAssertion (mode : Mode) (p : Text) : Prop :=
  AtWord Language.edges p ∨ AtWord ((assertionLabels mode).map ('(' :: ·)) p

theorem confinedTo_assertion (hmode : σ.mode = mode) :
    ConfinedTo mode (AtAssertion mode) (assertion σ body) := by
  rw [assertion, hmode]
  refine (traceless_edge.confined.anyOf_cons ((confinedTo_labelledGroup _ ascii_assertionLabels
    pairwise_assertionLabels).anyOf_cons .anyOf_nil)).mono ?_
  intro p h
  rcases h with h | h | h
  · exact Or.inl (applies_edge_iff.1 h)
  · exact Or.inr h
  · exact h.elim

/-! ## Quantified atoms -/

theorem recognizes_quantified (hmode : σ.mode = mode) {p : Recognizer} {R : Form Evidence}
    (hp : Recognizes mode .evidence p R) :
    Recognizes mode .evidence (quantified σ p) fun e x z =>
      ∃ y, R e x y ∧ TakenQuantifier mode y z := by
  have hquantifier : Traceless mode .evidence (plain (quantifier mode)) _ :=
    .plain_evidence reads_quantifier
  rw [quantified, hmode]
  refine ((hp.followedBy_evidence hquantifier.recognizes).attempt σ.rollback).congr fun e x z => ?_
  constructor
  · intro h
    rcases h with ⟨y, hR, h⟩
    exact ⟨e, {}, y, (Evidence.append_empty e).symm, hR, (), rfl, h⟩
  · intro h
    rcases h with ⟨f, _, y, rfl, hR, _, rfl, h⟩
    exact ⟨y, by rwa [Evidence.append_empty], h⟩

theorem confinedTo_quantified {H : Text → Prop} {p : Recognizer} (hp : ConfinedTo mode H p) :
    ConfinedTo mode H (quantified σ p) := by
  refine .attempt (fun s hs => ?_) σ.rollback
  have hnone := hp.outside s hs
  rw [followedBy_of_noMatch (by rw [hnone]; rfl), hnone]

/-! ## Terms -/

theorem assertionLabels_subset {l : List Char} (hl : l ∈ assertionLabels mode) :
    l ∈ aheadLabels ++ behindLabels := by
  cases mode with
  | unicode => exact hl
  | legacy => exact List.mem_append_right _ hl

/-- An atom is what may be read as one where no assertion starts. -/
theorem atom_iff {e : Evidence} {p q : Text} :
    Derives mode room .atom e p q ↔ ¬ AtAssertion mode p ∧ AnyAtom mode room e p q := by
  constructor
  · intro h
    refine ⟨?_, Or.inl h⟩
    intro h
    rcases h with hedge | ⟨w, hw, t, hp⟩
    · exact not_edge_of_atom h hedge
    · rcases List.mem_map.1 hw with ⟨l, hl, rfl⟩
      exact not_anyAtom_of_label (assertionLabels_subset hl) hp ⟨e, q, Or.inl h⟩
  · intro h
    rcases h with ⟨hnone, h | h⟩
    · exact h
    · exact .escape (fun _ hedge => hnone (Or.inl hedge)) h

/-- A term as it is read: with what is taken of a quantifier. -/
def TakenTerm (mode : Mode) (room : Nat) : Form Evidence := fun e p q =>
  Derives mode room .assertion e p q ∨
    ∃ x t, Language.Quantifiable mode x ∧ Derives mode room x e p t ∧ TakenQuantifier mode t q

/-- Assertions are tried before atoms. -/
theorem recognizes_assertion_atom (hmode : σ.mode = mode)
    (hbody : Recognizes mode .evidence body (Body mode room)) :
    Recognizes mode .evidence (anyOf [assertion σ body, quantified σ (atom σ body)])
      fun e p q => Derives mode room .assertion e p q ∨
        ∃ t, Derives mode room .atom e p t ∧ TakenQuantifier mode t q := by
  have hassertion := recognizes_assertion (σ := σ) hmode hbody
  have hatom := recognizes_quantified hmode (recognizes_atom hmode hbody)
  refine (hassertion.anyOf_cons (confinedTo_assertion hmode) hatom.anyOf_last ?_).congr
    fun e p q => ?_
  · intro s h hnone
    -- an edge always matches; after the word that opens a look-around no atom applies
    rcases h with hedge | ⟨w, hw, t, hp⟩
    · rcases hedge with ⟨w, hw, t, hp⟩
      rw [((hassertion s).complete {} t (.edge hw hp) fresh_nil).1] at hnone
      contradiction
    · rcases List.mem_map.1 hw with ⟨l, hl, rfl⟩
      intro h
      rcases h with ⟨e, q, r, h, -⟩
      exact not_anyAtom_of_label (assertionLabels_subset hl) hp ⟨e, r, h⟩
  · simp only [atom_iff, and_assoc, exists_and_left]

theorem recognizes_term (hmode : σ.mode = mode)
    (hbody : Recognizes mode .evidence body (Body mode room)) :
    Recognizes mode .evidence (term σ body) (TakenTerm mode room) := by
  have hlater := recognizes_assertion_atom (σ := σ) hmode hbody
  rw [term, termForms, hmode]
  cases mode with
  | unicode =>
    refine hlater.congr fun e p q => or_congr_right ?_
    constructor
    · intro h
      rcases h with ⟨_, t, rfl, h⟩
      exact ⟨t, h⟩
    · intro h
      rcases h with ⟨t, h⟩
      exact ⟨.atom, t, rfl, h⟩
  | legacy =>
    have hahead := recognizes_quantified hmode
      (recognizes_labelledGroup (σ := σ) hbody aheadLabels (by decide) (by decide))
    have hpre : ∀ l ∈ aheadLabels, ∀ k ∈ assertionLabels .legacy, ¬ k <+: l ∧ ¬ l <+: k := by
      decide
    have hconfined : ConfinedTo .legacy _ (quantified σ (lookahead σ body)) :=
      confinedTo_quantified (confinedTo_labelledGroup aheadLabels (by decide) (by decide))
    refine (hahead.anyOf_disjoint hconfined hlater ?_).congr fun e p q => ?_
    · intro p h' hq
      rcases h' with ⟨w, hw, t, hp⟩
      -- where a look-ahead starts, no later form applies, whether the look-ahead matches or not
      rcases hq with ⟨e, q, h⟩
      rcases List.mem_map.1 hw with ⟨l, hl, rfl⟩
      rcases h with h | ⟨r, h, -⟩
      · rcases assertion_iff.1 h with h | h
        · exact not_word_of_edge (applies_edge_iff.1 ⟨e, q, h⟩) (by decide) hp
        · exact not_labelled_of_label hp (hpre l hl) ⟨e, q, h⟩
      · exact not_anyAtom_of_label (List.mem_append_left _ hl) hp ⟨e, r, Or.inl h⟩
    · simp only [labelled_iff_lookahead]
      constructor
      · intro h
        rcases h with h | ⟨x, t, rfl | rfl, h⟩
        · exact Or.inr (Or.inl h)
        · exact Or.inr (Or.inr ⟨t, h⟩)
        · exact Or.inl ⟨t, h⟩
      · intro h
        rcases h with ⟨t, h⟩ | h | ⟨t, h⟩
        · exact Or.inr ⟨.lookahead, t, Or.inr rfl, h⟩
        · exact Or.inl h
        · exact Or.inr ⟨.atom, t, Or.inl rfl, h⟩

theorem TakenTerm.derives {e : Evidence} {p q : Text} (h : TakenTerm mode room e p q) :
    Derives mode room .term e p q := by
  rcases h with h | ⟨x, t, hx, h, hquantifier⟩
  · exact .assertion h
  · rcases hquantifier.cases with hquantifier | ⟨hnone, rfl⟩
    · exact .quantified hx h hquantifier
    · exact .plain hx h fun _ => hnone

/-- A term of the language is read as it is where the text does not go on with it. -/
theorem TakenTerm.of_derives {e : Evidence} {p q : Text} (h : Derives mode room .term e p q)
    (hq : Language.EndsTerm mode q) : TakenTerm mode room e p q := by
  cases h with
  | assertion h => exact Or.inl h
  | plain hx h hnone => exact Or.inr ⟨_, q, hx, h, .of_none hnone hq⟩
  | quantified hx h hquantifier => exact Or.inr ⟨_, _, hx, h, .of_quantifier hquantifier hq⟩

end EcmaPattern.Grammar
