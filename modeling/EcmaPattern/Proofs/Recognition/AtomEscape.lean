import EcmaPattern.Proofs.Recognition.Quantifier
import EcmaPattern.Proofs.Recognition.SetEscape

namespace EcmaPattern.Grammar

open Form Reader Recognizer

/-! # The recognizers of escapes outside classes recognize their language -/

variable {mode : Mode} {σ : Settings}

/-! ## Numbers -/

theorem traceless_decimalEscape : Traceless mode .evidence decimalEscape Language.Decimal := by
  have hzero : Traceless mode .character (character (wordAs ['0'] 0)) _ :=
    .character (reads_wordAs (by decide) 0)
  have hnumber : Traceless mode .evidence (reading digits fun number s =>
      (.matched, s.addCandidate (Numeral.saturated 10 largestReference number))) _ :=
    .recording reads_digits (g := fun w => { candidates := [Numeral.value 10 w] })
      (fun digits _ _ => State.addCandidate_eq_read digits) fun _ => rfl
  refine (hzero.toEvidence.anyOf_cons (hnumber.anyOf_cons .anyOf_nil)).congr fun e p q => ?_
  rw [first_cons, first_singleton]
  constructor
  · intro h
    cases h with
    | zero h => exact Or.inl ⟨_, rfl, _, rfl, rfl, h⟩
    | @number digits _ _ h hne =>
      refine Or.inr ⟨?_, digits, rfl, h⟩
      intro h
      rcases h with ⟨_, t, _, -, _, -, -, hzero⟩
      -- the numeral does not start with a zero, so the first alternative does not apply
      rcases h with ⟨hnil, -, -, hword⟩
      cases digits with
      | nil => exact hnil rfl
      | cons d digits =>
        refine not_word_of_word hword ?_ hzero
        intro heq
        subst heq
        exact hne rfl
  · intro h
    rcases h with ⟨_, rfl, _, -, -, h⟩ | ⟨hnone, digits, rfl, h⟩
    · exact .zero h
    · -- a numeral that starts with a zero would have been taken as that zero
      refine .number h fun hhead => hnone ?_
      rcases List.head?_eq_some_iff.1 hhead with ⟨w, rfl⟩
      rcases word_cons.1 h.2.2.2 with ⟨t, rfl, -⟩
      exact ⟨_, t, _, rfl, 0, rfl, rfl, rfl⟩

/-! ## References by name -/

/-- The forms of a reference by name, in the order of precedence. -/
def references : Mode → List (Form Evidence)
  | .unicode => [Language.reference .unicode]
  | .legacy => [Language.reference .legacy, Language.malformedReference]

/-- A `k` and a name, or in legacy mode a `k` alone. -/
def ReferenceAfter (mode : Mode) : Form Reference := after ['k'] fun r p q =>
  (Language.GroupName mode).map .named r p q ∨
    ¬ (Language.GroupName mode).Applies p ∧ mode = .legacy ∧ r = .malformed ∧ p = q

theorem reads_referenceAfter : Reads mode (referenceAfter mode) (ReferenceAfter mode) := by
  refine ((reads_word (by decide)).bind fun _ => (reads_map reads_groupName _).orElse
    (Reads.of_guard.bind fun _ => .of_pure _)).congr fun r p q => ?_
  constructor
  · intro h
    rcases h with ⟨t, h, hname | ⟨hnone, hmode, rfl, rfl⟩⟩
    · exact ⟨(), t, h, Or.inl hname⟩
    · exact ⟨(), t, h, Or.inr ⟨mt applies_map.1 hnone, (), t, ⟨hmode, rfl⟩, rfl, rfl⟩⟩
  · intro h
    rcases h with ⟨_, t, h, hname | ⟨hnone, _, _, ⟨hmode, rfl⟩, rfl, rfl⟩⟩
    · exact ⟨t, h, Or.inl hname⟩
    · exact ⟨t, h, Or.inr ⟨mt applies_map.2 hnone, hmode, rfl, rfl⟩⟩

theorem first_references_iff {e : Evidence} {p q : Text} :
    First (references mode) e p q ↔
      (ReferenceAfter mode).map (fun r => { references := [r] }) e p q := by
  have hnamed : Language.reference mode e p q ↔ ∃ r, e = { references := [r] } ∧
      ∃ t, word ['k'] p t ∧ (Language.GroupName mode).map .named r t q := by
    constructor
    · intro h
      rcases h with ⟨name, rfl, t, h, hname⟩
      exact ⟨_, rfl, t, h, name, rfl, hname⟩
    · intro h
      rcases h with ⟨_, rfl, t, h, name, rfl, hname⟩
      exact ⟨name, rfl, t, h, hname⟩
  cases mode with
  | unicode =>
    rw [references, first_singleton, hnamed]
    constructor
    · intro h
      rcases h with ⟨r, rfl, t, h, hname⟩
      exact ⟨r, rfl, t, h, Or.inl hname⟩
    · intro h
      rcases h with ⟨r, rfl, t, h, hname | ⟨-, hmode, -⟩⟩
      · exact ⟨r, rfl, t, h, hname⟩
      · contradiction
  | legacy =>
    rw [references, first_cons, first_singleton, hnamed]
    constructor
    · intro h
      rcases h with ⟨r, rfl, t, h, hname⟩ | ⟨hnone, rfl, h⟩
      · exact ⟨r, rfl, t, h, Or.inl hname⟩
      · refine ⟨.malformed, rfl, q, h, Or.inr ⟨?_, rfl, rfl, rfl⟩⟩
        intro h
        rcases h with ⟨name, r, hname⟩
        exact hnone ⟨_, r, name, rfl, q, h, hname⟩
    · intro h
      rcases h with ⟨r, rfl, t, h, hname | ⟨hnone, -, rfl, rfl⟩⟩
      · exact Or.inl ⟨r, rfl, t, h, hname⟩
      · refine Or.inr ⟨?_, rfl, h⟩
        intro h
        rcases h with ⟨_, r, name, -, t', h', hname⟩
        obtain rfl := word_unique h h'
        exact hnone ⟨name, r, hname⟩

theorem traceless_namedReference :
    Traceless mode .evidence (namedReference mode) (First (references mode)) := by
  exact (Traceless.recording reads_referenceAfter (fun r _ _ => State.addReference_eq_read r)
    fun _ => rfl).congr fun _ _ _ => first_references_iff

/-! ## All forms -/

theorem applies_decimal_of_null {p : Text} (h : Language.null.Applies p) :
    Language.Decimal.Applies p := by
  rcases h with ⟨n, q, -, h, -⟩
  exact ⟨_, q, .zero h⟩

/-- An octal digit starts a number, or it is a zero. -/
theorem applies_decimal_of_octal {p : Text} (h : Language.octal.Applies p) :
    Language.Decimal.Applies p := by
  rcases h with ⟨n, q, d, more, t, hd, h, -⟩
  by_cases hzero : d = '0'
  · exact ⟨_, t, .zero (hzero ▸ h)⟩
  · rcases applies_run ⟨d, t, isDigit_of_isOctalDigit hd, h⟩ with ⟨digits, r, hrun⟩
    refine ⟨_, r, .number hrun fun hhead => ?_⟩
    rcases List.head?_eq_some_iff.1 hhead with ⟨w, rfl⟩
    exact not_word_of_word h hzero hrun.2.2.2

/-- The forms of an escape outside classes, in the order in which they are tried. -/
def triedAtomEscapes (mode : Mode) : List (Form Evidence) :=
  Language.Decimal :: ((setForms mode).map (fun R => R.as ({} : Evidence)) ++
    ((characterForms mode).map (fun R => R.as ({} : Evidence)) ++ references mode))

/-- A number takes precedence over a zero and over an octal escape, so neither is ever found. -/
theorem first_triedAtomEscapes (mode : Mode) :
    First (triedAtomEscapes mode) = First (Language.atomEscapes mode) := by
  have hnull (p : Text) (h : (Language.null.as ({} : Evidence)).Applies p) :=
    applies_decimal_of_null (applies_map.1 h)
  have hoctal (p : Text) (h : (Language.octal.as ({} : Evidence)).Applies p) :=
    applies_decimal_of_octal (applies_map.1 h)
  cases mode with
  | unicode =>
    exact first_shadowed [_, _, _, _, _] fun p h => ⟨_, List.mem_cons_self, hnull p h⟩
  | legacy =>
    exact (first_shadowed [_, _, _, _] fun p h => ⟨_, List.mem_cons_self, hnull p h⟩).trans
      (first_shadowed [_, _, _, _, _, _] fun p h => ⟨_, List.mem_cons_self, hoctal p h⟩)

theorem apart_characterForms :
    Apart (characterForms .unicode) (['f', 'n', 'r', 't', 'v'] ++ (['c'] ++ (['0'] ++ (['x'] ++
      (['u'] ++ ('/' :: Language.syntaxCharacters .unicode ++ [])))))) :=
  .cons Language.opens_control (by decide) <| .cons Language.opens_controlLetter (by decide) <|
  .cons Language.opens_null (by decide) <| .cons opens_after (by decide) <|
  .cons Language.opens_unicodeEscape (by decide) <|
  .cons Language.opens_identity (by decide) .nil

theorem atomEscape_eq_first (mode : Mode) :
    Language.AtomEscape mode = First (Language.atomEscapes mode) :=
  choice_eq_first fun h => h ▸ Language.apart_atomEscapes

theorem first_tried :
    First [Language.Decimal, (First (setForms mode)).as {}, (First (characterForms mode)).as {},
      First (references mode)] = First (triedAtomEscapes mode) := by
  rw [as, as, map_first, map_first]
  exact first_cons_congr ((first_cons_congr first_pair).trans first_first)

theorem apart_characters_references : Apart [(First (characterForms .unicode)).as ({} : Evidence),
    First (references .unicode)] (['f', 'n', 'r', 't', 'v'] ++ (['c'] ++ (['0'] ++ (['x'] ++
      (['u'] ++ ('/' :: Language.syntaxCharacters .unicode ++ []))))) ++ (['k'] ++ [])) :=
  .cons (apart_characterForms.opens_first.map _) (by decide) <|
  .cons (first_singleton ▸ Language.opens_reference) (by decide) .nil

theorem traceless_characters_references :
    Traceless mode .evidence (anyOf [character (characterEscape mode), namedReference mode])
      (First [(First (characterForms mode)).as {}, First (references mode)]) := by
  exact (Traceless.character_evidence reads_characterEscape).anyOf_cons
    (traceless_namedReference.anyOf_cons .anyOf_nil)

/-- In legacy mode an escape that fails leaves no trace. -/
theorem traceless_atomEscape (hmode : σ.mode = .legacy) :
    Traceless .legacy .evidence (anyOf (atomEscapeForms σ)) (Language.AtomEscape .legacy) := by
  have hset := (traceless_setEscape hmode).toEvidence
  rw [as_as] at hset
  rw [atomEscape_eq_first, ← first_triedAtomEscapes, ← first_tried, atomEscapeForms, hmode]
  exact traceless_decimalEscape.anyOf_cons (hset.anyOf_cons traceless_characters_references)

theorem recognizes_atomEscape (hmode : σ.mode = mode) :
    Recognizes mode .evidence (anyOf (atomEscapeForms σ)) (Language.AtomEscape mode) := by
  cases mode with
  | legacy => exact (traceless_atomEscape hmode).recognizes
  | unicode =>
    -- a property expression may leave a trace, so set escapes are not traceless here
    have hset := (recognizes_setEscape hmode).toEvidence
    rw [as_as] at hset
    have hrest := recognizes_anyOf_setEscape hmode hset rfl
      traceless_characters_references.recognizes apart_characters_references.opens_first (by decide)
    rw [atomEscape_eq_first, ← first_triedAtomEscapes, ← first_tried, atomEscapeForms, hmode]
    exact traceless_decimalEscape.anyOf_first hrest

end EcmaPattern.Grammar
