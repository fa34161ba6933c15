import EcmaPattern.Proofs.Recognition.Group

namespace EcmaPattern.Grammar

open Form Reader Recognizer
open EcmaPattern.Language (Derives)

/-! # The recognizers of atoms recognize the language of atoms -/

variable {mode : Mode} {σ : Settings} {room : Nat} {body : Recognizer}

/-! ## Single characters and escapes -/

/-- A point. -/
def Dot : Form Evidence := as (fun (_ : Unit) => word ['.']) {}

theorem traceless_dot : Traceless mode .evidence (plain (Reader.word ['.'])) Dot :=
  .plain_evidence (reads_word (by decide))

theorem confinedTo_dot :
    ConfinedTo mode (fun p => ∃ t, word ['.'] p t) (plain (Reader.word ['.'])) := by
  apply traceless_dot.confined.mono
  intro p h
  rcases h with ⟨_, t, _, -, h⟩
  exact ⟨t, h⟩

/-- A character that stands for itself. -/
def Literal (mode : Mode) : Form Evidence := as (fun (n : Nat) p q => p = n :: q ∧
  n ∉ Text.ofWord (Language.syntaxCharacters mode) ∧
    (mode = .legacy → ¬ Language.Braces.Applies p)) {}

theorem reads_patternCharacter : Reads mode (patternCharacter mode) fun n p q =>
    p = n :: q ∧ n ∉ Text.ofWord (Language.syntaxCharacters mode) := by
  refine (reads_codePointIf _).congr fun n p q => ?_
  rw [and_comm, ← isSpecial_iff, Bool.not_eq_true', Bool.not_eq_true]

theorem traceless_patternCharacter :
    Traceless .unicode .evidence (character (patternCharacter .unicode)) (Literal .unicode) := by
  refine (Traceless.character_evidence reads_patternCharacter).congr fun e p q => ?_
  simp [Literal, as, Form.map]

theorem traceless_extendedCharacter :
    Traceless .legacy .evidence (character extendedCharacter) (Literal .legacy) := by
  refine (Traceless.character_evidence
    (reads_bracedShape.notAhead.seqRight reads_patternCharacter)).congr fun e p q => ?_
  have hshape : Applies (fun (_ : Unit) p q => ∃ v, Language.Braces v p q) p ↔
      Language.Braces.Applies p := by
    constructor
    · intro h
      rcases h with ⟨_, r, v, h⟩
      exact ⟨v, r, h⟩
    · intro h
      rcases h with ⟨v, r, h⟩
      exact ⟨(), r, v, h⟩
  constructor
  · intro h
    rcases h with ⟨n, rfl, hp, hn, hbraces⟩
    exact ⟨n, rfl, (), p, ⟨mt hshape.1 (hbraces rfl), rfl⟩, hp, hn⟩
  · intro h
    rcases h with ⟨n, rfl, _, _, ⟨hbraces, rfl⟩, hp, hn⟩
    exact ⟨n, rfl, hp, hn, fun _ => mt hshape.2 hbraces⟩

theorem avoids_literal {c : Char} (hc : c ∈ Language.syntaxCharacters mode) :
    (Literal mode).Avoids c := by
  intro p h' hq
  rcases h' with ⟨t, hp⟩
  rcases hq with ⟨e, q, n, -, h, hn, -⟩
  rcases List.cons.inj (hp.symm.trans h) with ⟨rfl, -⟩
  exact hn (Text.mem_ofWord.2 hc)

theorem not_applies_of_literal {R : Form Evidence} {cs : List Char} (hR : R.Opens cs)
    (hcs : ∀ c ∈ cs, c ∈ Language.syntaxCharacters mode) {p : Text}
    (hp : (Literal mode).Applies p) : ¬ R.Applies p := by
  intro h
  rcases h with ⟨e, q, h⟩
  rcases hR e p q h with ⟨c, hc, t, ht⟩
  exact avoids_literal (hcs c hc) p ⟨t, ht⟩ hp

/-- A backslash and an escape. -/
def Escaped (mode : Mode) : Form Evidence := after ['\\'] (Language.AtomEscape mode)

theorem recognizes_escapedAtom (hmode : σ.mode = mode) :
    Recognizes mode .evidence (escapedAtom σ) (Escaped mode) :=
  ((Recognizes.reading (reads_word (by decide)) fun _ =>
    recognizes_atomEscape hmode).attempt σ.rollback).congr fun e p q => by
      simp [Escaped, after]

theorem confinedTo_escapedAtom :
    ConfinedTo mode (fun p => ∃ t, word ['\\'] p t) (escapedAtom σ) := by
  apply (ConfinedTo.attempt_reading (reads_word (by decide)) _ _).mono
  intro p h
  rcases h with ⟨_, t, h⟩
  exact ⟨t, h⟩

theorem traceless_escapedAtom (hmode : σ.mode = .legacy) :
    Traceless .legacy .evidence (escapedAtom σ) (Escaped .legacy) :=
  (Traceless.attempt_reading (reads_word (by decide)) (fun _ => traceless_atomEscape hmode)
    σ.rollback).congr fun e p q => by simp [Escaped, after]

/-- A backslash before a `c`. -/
def Bare : Form Evidence := as (fun (_ : Unit) p q => word ['\\'] p q ∧ ∃ t, word ['c'] q t) {}

theorem traceless_bareBackslash : Traceless mode .evidence bareBackslash Bare := by
  refine (Traceless.plain_evidence ((reads_word (by decide)).seqRight
    (reads_word (w := ['c']) (by decide)).ahead)).congr fun e p q => ?_
  constructor
  · intro h
    rcases h with ⟨_, rfl, h, t, ht⟩
    exact ⟨(), rfl, (), q, h, ⟨(), t, ht⟩, rfl⟩
  · intro h
    rcases h with ⟨_, rfl, _, _, h, ⟨_, t, ht⟩, rfl⟩
    exact ⟨(), rfl, h, t, ht⟩

theorem applies_atomEscape_iff {p t : Text} (h : word ['c'] p t) :
    (Language.AtomEscape .legacy).Applies p ↔ t.StartsWith Char.isAlpha := by
  obtain rfl : p = 'c'.toNat :: t := h
  constructor
  · intro happ
    rcases applies_first.1 happ with ⟨R, hR, happ⟩
    simp only [Language.atomEscapes, List.mem_cons, List.not_mem_nil, or_false] at hR
    rcases hR with rfl | rfl | rfl | rfl | rfl | rfl | rfl | rfl | rfl
    · exact absurd happ (Language.opens_decimal.not_applies (by decide))
    · exact absurd (applies_map.1 happ) (Language.opens_setLetter.not_applies (by decide))
    · exact absurd (applies_map.1 happ) (Language.opens_control.not_applies (by decide))
    · rcases applies_map.1 happ with ⟨n, q, c, hc, -, h⟩
      exact ⟨c, q, hc, (List.cons.inj h).2⟩
    · exact absurd (applies_map.1 happ) (opens_after.not_applies (by decide))
    · exact absurd (applies_map.1 happ) (Language.opens_unicodeEscape.not_applies (by decide))
    · rcases applies_map.1 happ with ⟨n, q, h, hn⟩
      rcases List.cons.inj h with ⟨rfl, -⟩
      exact absurd hn (by decide)
    · exact absurd happ (Language.opens_reference.not_applies (by decide))
    · rcases happ with ⟨e, q, -, h⟩
      exact absurd (List.cons.inj h).1 (by decide)
  · intro h
    rcases h with ⟨c, q, hc, rfl⟩
    exact applies_first.2 ⟨Language.controlLetter.as {}, by simp [Language.atomEscapes], _, q, _,
      rfl, c, hc, rfl, rfl⟩

/-- A class. -/
def Class (mode : Mode) : Form Evidence := fun e p q => e = {} ∧ Language.CharacterClass mode p q

/-- An atom, or an escape that is taken for one though it is an assertion. -/
def AnyAtom (mode : Mode) (room : Nat) : Form Evidence := fun e p q =>
  Derives mode room .atom e p q ∨ Escaped mode e p q

/-- A bare backslash is an atom where no escape stands. -/
theorem backslash_iff {e : Evidence} {p q : Text} :
    Bare e p q ∧ ¬ (Escaped .legacy).Applies p ↔
      e = {} ∧ word ['\\'] p q ∧ ∃ t, word ['c'] q t ∧ ¬ t.StartsWith Char.isAlpha := by
  constructor
  · intro h
    rcases h with ⟨⟨_, rfl, h, t, ht⟩, hnone⟩
    refine ⟨rfl, h, t, ht, fun hstart => hnone ?_⟩
    rcases (applies_atomEscape_iff ht).2 hstart with ⟨f, r, hr⟩
    exact ⟨f, r, q, h, hr⟩
  · intro h
    rcases h with ⟨rfl, h, t, ht, hstop⟩
    refine ⟨⟨(), rfl, h, t, ht⟩, ?_⟩
    intro h
    rcases h with ⟨f, r, u, hu, hr⟩
    obtain rfl := word_unique h hu
    exact hstop ((applies_atomEscape_iff ht).1 ⟨f, r, hr⟩)

theorem anyAtom_iff {e : Evidence} {p q : Text} :
    AnyAtom mode room e p q ↔
      Dot e p q ∨ Escaped mode e p q ∨
        (mode = .legacy ∧ Bare e p q ∧ ¬ (Escaped .legacy).Applies p) ∨ Class mode e p q ∨
          Labelled mode room [['?', ':']] e p q ∨ Capturing mode room e p q ∨
            Literal mode e p q := by
  constructor
  · intro h
    rcases h with h | h
    · cases h with
      | dot h => exact Or.inl ⟨(), rfl, h⟩
      | @character _ n q hn hbraces =>
        iterate 6 apply Or.inr
        exact ⟨n, rfl, rfl, hn, hbraces⟩
      | escape _ h => exact Or.inr (Or.inl h)
      | backslash hmode h hc hstop =>
        exact Or.inr (Or.inr (Or.inl ⟨hmode, backslash_iff.2 ⟨rfl, h, _, hc, hstop⟩⟩))
      | characterClass h => exact Or.inr (Or.inr (Or.inr (Or.inl ⟨rfl, h⟩)))
      | group hopen h hclose =>
        iterate 4 apply Or.inr
        exact Or.inl ⟨['?', ':'], List.mem_cons_self, _, hopen, _, h, hclose⟩
      | @capture _ e _ _ _ _ hopen h hclose =>
        iterate 5 apply Or.inr
        exact Or.inl (Or.inl ⟨e, _, rfl, hopen, _, h, hclose⟩)
      | @namedCapture _ name e _ _ _ _ _ hopen hname h hclose =>
        iterate 5 apply Or.inr
        exact Or.inl (Or.inr ⟨e, name, _, _, rfl, hopen, hname, _, h, hclose⟩)
    · exact Or.inr (Or.inl h)
  · intro h
    rcases h with
      ⟨_, rfl, h⟩ | h | ⟨rfl, h⟩ | ⟨rfl, h⟩ | ⟨l, hl, t, hopen, h⟩ | h | ⟨n, rfl, rfl, hn, hbraces⟩
    · exact Or.inl (.dot h)
    · exact Or.inr h
    · rcases backslash_iff.1 h with ⟨rfl, h, t, hc, hstop⟩
      exact Or.inl (.backslash rfl h hc hstop)
    · exact Or.inl (.characterClass h)
    · obtain rfl := List.mem_singleton.1 hl
      cases room with
      | zero => exact h.elim
      | succ room =>
        rcases h with ⟨r, h, hclose⟩
        exact Or.inl (.group hopen h hclose)
    · cases room with
      | zero =>
        rcases h with ⟨f, t, -, -, h⟩ | ⟨f, name, s, t, -, -, -, h⟩
        · exact h.elim
        · exact h.elim
      | succ room =>
        rcases h with
          ⟨f, t, rfl, hopen, r, h, hclose⟩ | ⟨f, name, s, t, rfl, hopen, hname, r, h, hclose⟩
        · exact Or.inl (.capture hopen h hclose)
        · exact Or.inl (.namedCapture hopen hname h hclose)
    · exact Or.inl (.character hn hbraces)

/-! ### First characters -/

theorem opens_dot : Dot.Opens ['.'] := opens_word.map _

theorem opens_escaped : (Escaped mode).Opens ['\\'] := opens_after

theorem opens_bare : Bare.Opens ['\\'] := by
  intro _ p q h
  rcases h with ⟨_, rfl, h, -⟩
  exact opens_word () p q h

theorem opens_class : (Class mode).Opens ['['] := by
  intro _ p q h
  rcases h with ⟨rfl, h⟩
  rcases Language.bracket_of_characterClass h with ⟨t, h⟩
  exact ⟨'[', List.mem_cons_self, t, h⟩

/-! ### All atoms -/

/-- A class or a group, or a form `T`. -/
def Bracketed (mode : Mode) (room : Nat) (T : Form Evidence) : Form Evidence := fun e p q =>
  Class mode e p q ∨ Labelled mode room [['?', ':']] e p q ∨ Capturing mode room e p q ∨ T e p q

theorem opens_bracketed {T : Form Evidence} {cs : List Char} (hT : T.Opens cs) :
    (Bracketed mode room T).Opens (['['] ++ (['('] ++ (['('] ++ cs))) :=
  opens_class.or (opens_labelled.or (opens_capturing.or hT))

theorem avoids_bracketed {T : Form Evidence} {c : Char} (hT : T.Avoids c) (hc : c ∉ ['[', '(']) :
    (Bracketed mode room T).Avoids c := by
  have hbracket : c ∉ ['['] := fun h => hc (List.mem_append_left ['('] h)
  have hparen : c ∉ ['('] := fun h => hc (List.mem_append_right ['['] h)
  exact (opens_class.avoids hbracket).or
    ((opens_labelled.avoids hparen).or ((opens_capturing.avoids hparen).or hT))

/-- Classes and groups, where the later alternatives `ps` start with no bracket or parenthesis. -/
theorem recognizes_bracketed (hmode : σ.mode = mode)
    (hbody : Recognizes mode .evidence body (Body mode room)) {ps : List Recognizer}
    {T : Form Evidence} (hps : Recognizes mode .evidence (anyOf ps) T) (hparen : T.Avoids '(')
    (hbracket : T.Avoids '[') :
    Recognizes mode .evidence
      (anyOf (characterClass σ :: labelledGroup σ body [['?', ':']] :: capturingGroup σ body :: ps))
      (Bracketed mode room T) := by
  have hcapturing := (recognizes_capturingGroup hmode hbody).anyOf_disjoint
    (confinedTo_capturingGroup hmode) hps hparen
  have hlabelled := (recognizes_labelledGroup (σ := σ) hbody [['?', ':']] (by decide)
    (by decide)).anyOf_disjoint (confinedTo_labelledGroup _ (by decide) (by decide)) hcapturing ?_
  · exact (recognizes_characterClass hmode).anyOf_disjoint confinedTo_characterClass hlabelled
      ((opens_labelled.avoids (by decide)).or ((opens_capturing.avoids (by decide)).or hbracket))
  · intro p h' hp
    rcases h' with ⟨w, hw, t, ht⟩
    rcases hp with ⟨e, q, h | h⟩
    · obtain rfl := List.mem_singleton.1 hw
      exact not_capturing_of_label List.mem_cons_self ht ⟨e, q, h⟩
    · obtain rfl := List.mem_singleton.1 hw
      exact hparen p ⟨_, ht⟩ ⟨e, q, h⟩

theorem recognizes_atom_unicode (hmode : σ.mode = .unicode)
    (hbody : Recognizes .unicode .evidence body (Body .unicode room)) :
    Recognizes .unicode .evidence (atom σ body) (AnyAtom .unicode room) := by
  have hbracketed := recognizes_bracketed hmode hbody .anyOf_nil
    (opens_first_nil.avoids (by decide)) (opens_first_nil.avoids (by decide))
  have hopens : (Bracketed .unicode room _).Opens _ := opens_bracketed opens_first_nil
  have hescaped := (recognizes_escapedAtom hmode).anyOf_disjoint confinedTo_escapedAtom hbracketed
    (hopens.avoids (by decide))
  have hopens' : Opens (fun e p q => Escaped .unicode e p q ∨ Bracketed .unicode room _ e p q) _ :=
    opens_escaped.or hopens
  have hdot := traceless_dot.recognizes.anyOf_disjoint confinedTo_dot hescaped
    (hopens'.avoids (by decide))
  -- a literal is tried first, but it starts with no character that another atom starts with
  have hliteral := traceless_patternCharacter.recognizes.anyOf_disjoint
    traceless_patternCharacter.confined hdot fun p hp =>
      not_applies_of_literal (opens_dot.or hopens') (by decide) hp
  rw [atom, atomForms, hmode]
  refine hliteral.congr fun e p q => ?_
  rw [anyAtom_iff]
  constructor
  · intro h
    rcases h with h | h | ⟨hmode, -⟩ | h | h | h | h
    · exact Or.inr (Or.inl h)
    · exact Or.inr (Or.inr (Or.inl h))
    · contradiction
    · exact Or.inr (Or.inr (Or.inr (Or.inl h)))
    · exact Or.inr (Or.inr (Or.inr (Or.inr (Or.inl h))))
    · exact Or.inr (Or.inr (Or.inr (Or.inr (Or.inr (Or.inl h)))))
    · exact Or.inl h
  · intro h
    rcases h with h | h | h | h | h | h | h
    · iterate 6 apply Or.inr
      exact h
    · exact Or.inl h
    · exact Or.inr (Or.inl h)
    · exact Or.inr (Or.inr (Or.inr (Or.inl h)))
    · exact Or.inr (Or.inr (Or.inr (Or.inr (Or.inl h))))
    · exact Or.inr (Or.inr (Or.inr (Or.inr (Or.inr (Or.inl h)))))
    · exact (not_first_nil h).elim

theorem recognizes_atom_legacy (hmode : σ.mode = .legacy)
    (hbody : Recognizes .legacy .evidence body (Body .legacy room)) :
    Recognizes .legacy .evidence (atom σ body) (AnyAtom .legacy room) := by
  have havoids {c : Char} (hc : c ∈ ['.', '\\']) :
      (Bracketed .legacy room (Literal .legacy)).Avoids c := by
    refine avoids_bracketed (avoids_literal ?_) ?_
    · revert c
      decide
    · revert c
      decide
  have hbracketed := recognizes_bracketed hmode hbody
    traceless_extendedCharacter.recognizes.anyOf_last (avoids_literal (by decide))
    (avoids_literal (by decide))
  have hbare := traceless_bareBackslash.recognizes.anyOf_disjoint traceless_bareBackslash.confined
    hbracketed fun p ⟨e, q, _, _, h, _⟩ => havoids (by decide) p ⟨q, h⟩
  -- an escape takes precedence over the bare backslash, so these two are in order
  have hescaped := (traceless_escapedAtom hmode).recognizes.anyOf_cons
    (traceless_escapedAtom hmode).confined hbare fun s hs hnone => by
      rw [(traceless_escapedAtom hmode).isMatch hs] at hnone
      contradiction
  have hdot := traceless_dot.recognizes.anyOf_disjoint confinedTo_dot hescaped ?_
  · rw [atom, atomForms, hmode]
    refine hdot.congr fun e p q => ?_
    have hother (h : Bracketed .legacy room (Literal .legacy) e p q) :
        ¬ (Escaped .legacy).Applies p := by
      intro h
      rcases h with ⟨f, r, t, hword, -⟩
      exact havoids (by decide) p ⟨t, hword⟩ ⟨e, q, h⟩
    rw [anyAtom_iff]
    constructor
    · intro h
      rcases h with h | h | ⟨-, h, hnone⟩ | h
      · exact Or.inl h
      · exact Or.inr (Or.inl h)
      · exact Or.inr (Or.inr ⟨hnone, Or.inl h⟩)
      · exact Or.inr (Or.inr ⟨hother h, Or.inr h⟩)
    · intro h
      rcases h with h | h | ⟨hnone, h | h⟩
      · exact Or.inl h
      · exact Or.inr (Or.inl h)
      · exact Or.inr (Or.inr (Or.inl ⟨rfl, h, hnone⟩))
      · exact Or.inr (Or.inr (Or.inr h))
  · intro p hp h
    rcases h with ⟨e, q, h | ⟨-, h | h⟩⟩
    · exact opens_escaped.avoids (by decide) p hp ⟨e, q, h⟩
    · exact opens_bare.avoids (by decide) p hp ⟨e, q, h⟩
    · exact havoids (by decide) p hp ⟨e, q, h⟩

theorem recognizes_atom (hmode : σ.mode = mode)
    (hbody : Recognizes mode .evidence body (Body mode room)) :
    Recognizes mode .evidence (atom σ body) (AnyAtom mode room) := by
  cases mode with
  | unicode => exact recognizes_atom_unicode hmode hbody
  | legacy => exact recognizes_atom_legacy hmode hbody

/-- No atom starts with what opens a look-around. -/
theorem not_anyAtom_of_label {l : List Char} {p t : Text} (hl : l ∈ aheadLabels ++ behindLabels)
    (hp : word ('(' :: l) p t) : ¬ (AnyAtom mode room).Applies p := by
  have hpre : ∀ l ∈ aheadLabels ++ behindLabels, ∀ k ∈ [['?', ':']], ¬ k <+: l ∧ ¬ l <+: k := by
    decide
  have hparen : ∃ t, word ['('] p t := ⟨_, hp⟩
  intro h
  rcases h with ⟨e, q, h⟩
  rcases anyAtom_iff.1 h with h | h | ⟨-, h, -⟩ | h | h | h | h
  · exact opens_dot.avoids (by decide) p hparen ⟨e, q, h⟩
  · exact opens_escaped.avoids (by decide) p hparen ⟨e, q, h⟩
  · exact opens_bare.avoids (by decide) p hparen ⟨e, q, h⟩
  · exact opens_class.avoids (by decide) p hparen ⟨e, q, h⟩
  · exact not_labelled_of_label hp (hpre l hl) ⟨e, q, h⟩
  · exact not_capturing_of_label (List.mem_cons_of_mem _ hl) hp ⟨e, q, h⟩
  · refine avoids_literal ?_ p hparen ⟨e, q, h⟩
    cases mode <;> decide

end EcmaPattern.Grammar
