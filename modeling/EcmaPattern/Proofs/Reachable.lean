import EcmaPattern.Proofs.Acceptance
import EcmaPattern.Proofs.WellFormed

namespace EcmaPattern

open CodeUnit Recognizer

/-! # Reachable states

Whatever recognizers of the grammar are run one after the other, and whether they match or not, what
they leave is in order. Only that there is a group for each name does not show on the way: names
stay where an attempt fails, and the count of groups does not. After a match both are those of a
derivation.
-/

namespace Grammar

/-! ## Productions -/

/-- The readers of the grammar that find one character. -/
inductive Single : (mode : Mode) → {r : Reader Nat} → r.Parts mode → Prop
  -- characters that stand for themselves
  | patternCharacter {mode : Mode} : Single mode patternCharacterParts
  | extendedCharacter : Single .legacy extendedCharacterParts
  | classCharacter {mode : Mode} : Single mode (.codePointIf isClassCharacter)
  | dash {mode : Mode} : Single mode (.wordAs ['-'] '-'.toNat)
  -- escapes
  | characterEscape {mode : Mode} : Single mode (characterEscapeParts mode)
  | control {mode : Mode} : Single mode controlEscapeParts
  | controlLetter {mode : Mode} : Single mode controlLetterEscapeParts
  | null {mode : Mode} : Single mode nullEscapeParts
  | hex {mode : Mode} : Single mode hexEscapeParts
  | unicode {mode : Mode} : Single mode (unicodeEscapeParts mode)
  | braced : Single .unicode bracedEscapeParts
  | trail {lead : Nat} : Surrogate.isLead lead = true → Single .unicode (trailEscapeParts lead)
  | octal {mode : Mode} : Single mode octalEscapeParts
  | identity {mode : Mode} : Single mode identityEscapeParts
  -- escapes outside classes or in them only
  | zero {mode : Mode} : Single mode (.wordAs ['0'] 0)
  | backspace {mode : Mode} : Single mode (.wordAs ['b'] 0x08)
  | classControl {mode : Mode} : Single mode classControlEscapeParts
  | classLetter {mode : Mode} : Single mode (.wordAs ['k'] 'k'.toNat)
  | classBackslash {mode : Mode} : Single mode classBackslashParts

/-- The recognizers of the grammar. What stands in parentheses is the body of a group in which any
number of groups may still be open. -/
inductive Production (σ : Settings) : {p : Recognizer} → p.Parts σ.mode → Prop
  -- disjunctions
  | disjunction (room : Nat) (closer : Option (List Char)) :
      Production σ (disjunctionParts σ room closer)
  | groupBody (room : Nat) : Production σ (groupBodyParts σ room)
  | alternative (room : Nat) (closer : Option (List Char)) :
      Production σ (alternativeParts (groupBodyParts σ room) closer)
  -- terms
  | term (room : Nat) : Production σ (termParts (groupBodyParts σ room))
  | assertion (room : Nat) : Production σ (assertionParts (groupBodyParts σ room))
  | labelledGroup (room : Nat) (labels : List (List Char)) :
      Production σ (labelledGroupParts (groupBodyParts σ room) labels)
  | quantified {p : Recognizer} {parts : p.Parts σ.mode} :
      Production σ parts → Production σ (quantifiedParts parts)
  -- atoms
  | atom (room : Nat) : Production σ (atomParts (groupBodyParts σ room))
  | capturingGroup (room : Nat) : Production σ (capturingGroupParts (groupBodyParts σ room))
  | groupName : Production σ (.reading groupNameParts fun name => .done (.name name))
  | escapedAtom : Production σ (escapedAtomParts σ)
  -- escapes
  | atomEscape : Production σ (atomEscapeFormsParts σ).anyOf
  | decimalEscape : Production σ decimalEscapeParts
  | namedReference : Production σ namedReferenceParts
  | setEscape : Production σ (setEscapeParts σ)
  | propertyEscape : Production σ (propertyEscapeParts σ)
  | propertyExpression : Production σ (propertyFormsParts σ).anyOf
  | valuedProperty : Production σ valuedPropertyParts
  -- classes
  | characterClass : Production σ (characterClassParts σ)
  | classRanges : Production σ (classRangesParts σ)
  | classAtom : Production σ (classAtomParts σ)
  | classAtomNoDash : Production σ (classAtomNoDashParts σ)
  | classEscape : Production σ (classEscapeFormsParts σ).anyOf
  -- single characters, and what is read as none
  | character {r : Reader Nat} {reader : r.Parts σ.mode} :
      Single σ.mode reader → Production σ (.character reader)
  | plain {α : Type} {r : Reader α} (reader : r.Parts σ.mode) : Production σ (.plain reader)

theorem Single.finds {mode : Mode} {r : Reader Nat} {reader : r.Parts mode}
    (h : Single mode reader) : r.Finds (· ≤ mode.largest) := by
  cases h with
  | patternCharacter | classCharacter | identity => exact (finds_codePointIf _).mono fun _ h => h.1
  | extendedCharacter => exact .then_ _ ((finds_codePointIf _).mono fun _ h => h.1)
  | dash | zero | backspace | classLetter => exact finds_wordAs_small (by decide)
  | characterEscape => exact finds_characterEscape
  | control => exact finds_controlEscape.small
  | controlLetter => exact finds_controlLetterEscape.small
  | null => exact finds_nullEscape.small
  | hex => exact finds_hexEscape.small
  | unicode => exact finds_unicodeEscape
  | braced => exact finds_bracedEscape
  | trail hlead => exact finds_trailEscape hlead
  | octal => exact finds_octalEscape.small
  | classControl => exact finds_classControlEscape.small
  | classBackslash => exact finds_classBackslash.small

/-- Every recognizer of the grammar keeps states in order. -/
theorem Production.keeps {σ : Settings} {p : Recognizer} {parts : p.Parts σ.mode}
    (h : Production σ parts) : parts.Keeps := by
  induction h with
  | disjunction room => exact keeps_disjunction room
  | groupBody room => exact keeps_groupBody room
  | alternative room => exact keeps_alternative (keeps_groupBody room)
  | term room => exact keeps_term (keeps_groupBody room)
  | assertion room => exact keeps_assertion (keeps_groupBody room)
  | labelledGroup room labels => exact keeps_labelledGroup (keeps_groupBody room) labels
  | quantified _ ih => exact keeps_quantified ih
  | atom room => exact keeps_atom (keeps_groupBody room)
  | capturingGroup room => exact keeps_capturingGroup (keeps_groupBody room)
  | groupName => exact .reading (.any _) fun _ _ => .done nofun
  | escapedAtom => exact keeps_escapedAtom
  | atomEscape => exact keeps_atomEscapeForms.anyOf
  | decimalEscape => exact keeps_decimalEscape
  | namedReference => exact keeps_namedReference
  | setEscape => exact keeps_setEscape
  | propertyEscape => exact keeps_propertyEscape
  | propertyExpression => exact keeps_propertyForms.anyOf
  | valuedProperty => exact keeps_valuedProperty
  | characterClass => exact keeps_characterClass
  | classRanges => exact keeps_classRanges
  | classAtom => exact keeps_classAtom
  | classAtomNoDash => exact keeps_classAtomNoDash
  | classEscape => exact keeps_classEscapeForms.anyOf
  | character hsingle => exact .character hsingle.finds
  | plain => exact .plain

end Grammar

/-! ## Reachable states -/

/-- The states that runs of recognizers lead to, one after the other, from the one before `text`.
Between runs the place may be any, and what a run did may be taken back. -/
inductive Reachable (σ : Settings) (text : List CodeUnit) : State → Prop
  | start : Reachable σ text (.start text)
  | run {p : Recognizer} {parts : p.Parts σ.mode} {s t : State} :
      Reachable σ text s → Grammar.Production σ parts → t ∈ parts.trace s → Reachable σ text t
  | moved {s : State} (rest : List CodeUnit) :
      Reachable σ text s → Reachable σ text { s with rest }
  | undone {s t : State} (rollback : Rollback) :
      Reachable σ text s → Reachable σ text t → Reachable σ text (t.undo rollback s)

variable {σ : Settings} {text : List CodeUnit}

theorem Reachable.wellFormed {s : State} (h : Reachable σ text s) : s.WellFormed σ.mode := by
  induction h with
  | start => exact .start text
  | run _ hproduction ht ih => exact hproduction.keeps.wellFormed _ ih _ ht
  | moved rest _ ih => exact ih.moved rest
  | undone rollback _ _ ih ih' => exact ih.undo ih' rollback

/-- All states of a run over a whole text are reachable. -/
theorem reachable_of_mem_visited {t : State} (ht : t ∈ visited σ text) : Reachable σ text t :=
  .run .start (.disjunction _ _) ht

/-! ## Names and groups -/

/-- Each name of a matched text is that of a group, and the groups of a text that is not too long
can be counted. -/
theorem names_le_groups_of_match (hlen : text.length < 2 ^ 32)
    (h : (recognize σ text).1.isMatch = true) :
    (recognize σ text).2.names.length ≤ (recognize σ text).2.groups ∧
      (recognize σ text).2.groups < 2 ^ 32 := by
  rcases exists_derives_of_match h with ⟨e, hderives, -, hstate⟩
  have hnamed : e.names.length ≤ e.groups := Language.names_le_groups hderives
  have hgroups := groups_lt_of_derives hlen hderives
  have hfound : (recognize σ text).2.toEvidence = e.saturated :=
    hstate ▸ toEvidence_start_read e
  have hnames : (recognize σ text).2.names = e.saturated.names := congrArg Evidence.names hfound
  have hcount : (recognize σ text).2.groups = e.saturated.groups := congrArg Evidence.groups hfound
  rw [hnames, hcount]
  exact ⟨hnamed, Nat.lt_trans hgroups (by decide)⟩

/-- What a reachable state knows about groups and references is in order, and after a match there is
a group for each name. -/
theorem evidence_wellFormed (σ : Settings) (text : List CodeUnit) :
    (∀ s, Reachable σ text s → s.WellFormed σ.mode) ∧
      (text.length < 2 ^ 32 → (recognize σ text).1.isMatch = true →
        (recognize σ text).2.names.length ≤ (recognize σ text).2.groups ∧
          (recognize σ text).2.groups < 2 ^ 32) :=
  ⟨fun _ h => h.wellFormed, names_le_groups_of_match⟩

/-- The first text fails after a group with a name and a reference; both stay. -/
theorem wellFormed_after_unclosed_group :
    let σ : Settings := { mode := .unicode }
    let failing := encode "(?<$a>\\k<$b>)(?<c>".toList
    let matching := encode "(?<$a>(b)|\\k<$b>)".toList
    (recognize σ failing).1 = .noMatch ∧ (recognize σ failing).2.names = ["$a"] ∧
      (recognize σ failing).2.references = [.named "$b"] ∧
      (recognize σ failing).2.WellFormed σ.mode ∧
      (recognize σ matching).1.isMatch = true ∧
      (recognize σ matching).2.names.length ≤ (recognize σ matching).2.groups := by
  intro σ failing matching
  have hreachable : Reachable σ failing (recognize σ failing).2 :=
    reachable_of_mem_visited (recognize_mem_visited σ failing)
  have hmatch : (recognize σ matching).1.isMatch = true := by decide +kernel
  exact ⟨by decide +kernel, by decide +kernel, by decide +kernel,
    (evidence_wellFormed σ failing).1 _ hreachable, hmatch,
    ((evidence_wellFormed σ matching).2 (by decide +kernel) hmatch).1⟩

end EcmaPattern
