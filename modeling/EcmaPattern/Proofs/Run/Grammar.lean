import EcmaPattern.Check
import EcmaPattern.Proofs.Recognition.Disjunction
import EcmaPattern.Proofs.Run.Recognizer

namespace EcmaPattern

/-! # Runs of the grammar

How the readers and the recognizers of the grammar are put together. Each definition follows the one
it is about.
-/

namespace Grammar

open Recognizer

variable {mode : Mode}

/-! ## Quantifiers -/

def afterCommaParts {r : Reader Unit} (parts : r.Parts mode) : (afterComma r).Parts mode :=
  .bind (.optional (.word _)) fun _ => .ite _ parts (.pure ())

def anyGreatestParts : anyGreatest.Parts mode :=
  .orElse (.ahead (.word _)) (.seqRight (.asciiRun _) (.pure ()))

def bracedShapeParts : bracedShape.Parts mode :=
  .bind (.word _) fun _ => .bind (.asciiRun _) fun _ =>
    .bind (afterCommaParts anyGreatestParts) fun _ => .word _

def lazyMarkParts : lazyMark.Parts mode := .bind (.optional (.word _)) fun _ => .pure ()

def greatestParts (least : List Char) : (greatest least).Parts mode :=
  .bind (.optional (.asciiRun _)) fun _ => .guard _

def bracedQuantifierParts : bracedQuantifier.Parts mode :=
  .bind (.word _) fun _ => .bind (.asciiRun _) fun least =>
    .bind (afterCommaParts (greatestParts least)) fun _ => .bind (.word _) fun _ => lazyMarkParts

def quantifierParts : (quantifier mode).Parts mode :=
  .bind (.isAt _) fun _ => .ite _ (.orElse bracedQuantifierParts (.guard _))
    (.orElse (.seqRight (.anyWord _) lazyMarkParts) (.pure ()))

/-! ## Escapes for one character -/

def controlEscapeParts : controlEscape.Parts mode :=
  .firstOfCons (.wordAs _ _) <| .firstOfCons (.wordAs _ _) <| .firstOfCons (.wordAs _ _) <|
    .firstOfCons (.wordAs _ _) <| .firstOfCons (.wordAs _ _) .firstOfNil

def controlLetterEscapeParts : controlLetterEscape.Parts mode :=
  .bind (.word _) fun _ => .bind (.ascii _) fun _ => .pure _

def nullEscapeParts : nullEscape.Parts mode :=
  .bind (.word _) fun _ => .bind (.notAhead (.ascii _)) fun _ => .pure _

def hexDigitsParts (n : Nat) : (hexDigits n).Parts mode := .map (.exactly (.ascii _) n) _

def hexEscapeParts : hexEscape.Parts mode := .seqRight (.word _) (hexDigitsParts 2)

def unitEscapeParts : unitEscape.Parts mode := .seqRight (.word _) (hexDigitsParts 4)

def bracedEscapeParts : bracedEscape.Parts .unicode :=
  .bind (.bracedDigits rfl) fun _ => .bind (.word _) fun _ => .bind (.guard _) fun _ => .pure _

def trailEscapeParts (lead : Nat) : (trailEscape lead).Parts mode :=
  .bind (.word _) fun _ => .bind unitEscapeParts fun _ => .bind (.guard _) fun _ => .pure _

def unicodeEscapeParts : (mode : Mode) → (unicodeEscape mode).Parts mode
  | .legacy => unitEscapeParts
  | .unicode =>
    .orElse bracedEscapeParts <| .bind unitEscapeParts fun n =>
      .ite _ (.orElse (trailEscapeParts n) (.pure n)) (.pure n)

def octalEscapeParts : octalEscape.Parts mode :=
  .bind (.ascii _) fun _ => .bind (.upTo (.ascii _) _) fun _ => .pure _

def identityEscapeParts : (identityEscape mode).Parts mode := .codePointIf _

def characterEscapeParts : (mode : Mode) → (characterEscape mode).Parts mode
  | .unicode =>
    .firstOfCons controlEscapeParts <| .firstOfCons controlLetterEscapeParts <|
      .firstOfCons nullEscapeParts <| .firstOfCons hexEscapeParts <|
      .firstOfCons (unicodeEscapeParts .unicode) <| .firstOfCons identityEscapeParts .firstOfNil
  | .legacy =>
    .firstOfCons controlEscapeParts <| .firstOfCons controlLetterEscapeParts <|
      .firstOfCons nullEscapeParts <| .firstOfCons hexEscapeParts <|
      .firstOfCons (unicodeEscapeParts .legacy) <| .firstOfCons octalEscapeParts <|
      .firstOfCons identityEscapeParts .firstOfNil

/-! ## Names of groups -/

def nameCharacterParts (p : Nat → Bool) : (nameCharacter mode p).Parts mode :=
  .bind (.isAt _) fun _ => .ite _
    (.bind (.seqRight (.word _) (unicodeEscapeParts mode)) fun _ =>
      .bind (.guard _) fun _ => .lift _)
    (.bind .codePoint fun _ => .bind (.guard _) fun _ => .lift _)

def groupNameParts : (groupName mode).Parts mode :=
  .bind (.word _) fun _ => .bind (nameCharacterParts _) fun _ =>
    .bind (.many (nameCharacterParts _)) fun _ => .bind (.word _) fun _ => .pure _

/-! ## Escapes for sets of characters -/

def nameAndValueParts : nameAndValue.Parts mode :=
  .bind (.asciiRun _) fun _ => .bind (.word _) fun _ => .bind (.asciiRun _) fun _ => .pure _

def valuedPropertyParts : valuedProperty.Parts mode :=
  .reading nameAndValueParts fun (_, _) => .ite (fun _ => _) (.done .matched) (.note fun _ => _)

def lonePropertyParts : loneProperty.Parts mode :=
  .plain <| .bind (.map (.asciiRun _) _) fun _ => .bind (.guard _) fun _ => .guard _

def propertyFormsParts (σ : Settings) : Forms mode (propertyForms σ) :=
  .cons (.attempt _ valuedPropertyParts) (.cons (.attempt _ lonePropertyParts) .nil)

def propertyEscapeParts (σ : Settings) : (propertyEscape σ).Parts mode :=
  .attempt _ <| .reading (.anyWord _) fun _ =>
    .followedBy (propertyFormsParts σ).anyOf (.plain (.word _))

def setLetterParts : setLetter.Parts mode := .plain (.anyWord _)

def setEscapeParts : (σ : Settings) → (setEscape σ).Parts mode
  | ⟨⟨.legacy, _⟩, _⟩ => setLetterParts
  | ⟨⟨.unicode, _⟩, _⟩ => (Forms.cons setLetterParts (.cons (propertyEscapeParts _) .nil)).anyOf

/-! ## Escapes outside classes -/

def decimalEscapeParts : decimalEscape.Parts mode :=
  (Forms.cons (.character (.wordAs _ _)) <|
    .cons (.reading (.asciiRun _) fun _ => .candidate _) .nil).anyOf

def referenceAfterParts : (referenceAfter mode).Parts mode :=
  .bind (.word _) fun _ => .orElse (.map groupNameParts _) (.bind (.guard _) fun _ => .pure _)

def namedReferenceParts : (namedReference mode).Parts mode :=
  .reading referenceAfterParts .reference

def atomEscapeFormsParts (σ : Settings) : Forms σ.mode (atomEscapeForms σ) :=
  .cons decimalEscapeParts <| .cons (setEscapeParts σ) <|
    .cons (.character (characterEscapeParts σ.mode)) <| .cons namedReferenceParts .nil

/-! ## Classes -/

def classControlEscapeParts : classControlEscape.Parts mode :=
  .bind (.word _) fun _ => .bind (.ascii _) fun _ => .pure _

def classBackslashParts : (classBackslash mode).Parts mode :=
  .bind (.guard _) fun _ => .bind (.ahead (.word _)) fun _ => .pure _

def classEscapeFormsParts : (σ : Settings) → Forms σ.mode (classEscapeForms σ)
  | ⟨⟨.unicode, _⟩, _⟩ =>
    .cons (.character (.wordAs _ _)) <| .cons (.character (.wordAs _ _)) <|
      .cons (setEscapeParts _) <| .cons (.character (characterEscapeParts _)) .nil
  | ⟨⟨.legacy, _⟩, _⟩ =>
    .cons (.character (.wordAs _ _)) <| .cons (.character classControlEscapeParts) <|
      .cons (setEscapeParts _) <| .cons (.character (characterEscapeParts _)) <|
      .cons (.character (.wordAs _ _)) .nil

def classAtomNoDashParts (σ : Settings) : (classAtomNoDash σ).Parts σ.mode :=
  (Forms.cons (.character (.codePointIf _)) <|
    .cons (.attempt _ <| .reading (.word _) fun _ =>
      ((classEscapeFormsParts σ).append (.cons (.character classBackslashParts) .nil)).anyOf)
      .nil).anyOf

def classAtomParts (σ : Settings) : (classAtom σ).Parts σ.mode :=
  (Forms.cons (.character (.wordAs _ _)) (.cons (classAtomNoDashParts σ) .nil)).anyOf

/-- One round of the loop over class atoms, as a recognizer of its own. -/
theorem classRangesFrom_cons (σ : Settings) (u : CodeUnit) (bound : List CodeUnit) (low : Outcome) :
    classRangesFrom σ (u :: bound) low = fun s =>
      if !low.isMatch then (.noMatch, s)
      else if s.isAt [']'] then (.matched, s)
      else readingOr (Reader.word ['-'])
        (fun _ s =>
          if s.isAt [']'] then (.matched, s)
          else
            let high := classAtom σ s
            if !high.1.isMatch || !isRange σ.mode low high.1 then (.noMatch, high.2)
            else if high.2.isAt [']'] then (.matched, high.2)
            else
              let next := classAtom σ high.2
              classRangesFrom σ bound next.1 next.2)
        (fun s =>
          let next := classAtomNoDash σ s
          classRangesFrom σ bound next.1 next.2) s := by
  funext s
  rw [classRangesFrom, readingOr]
  cases (Reader.word ['-']).run s.rest <;> rfl

def classRangesFromParts (σ : Settings) :
    (bound : List CodeUnit) → (low : Outcome) → (classRangesFrom σ bound low).Parts σ.mode
  | [], _ => .done .noMatch
  | u :: bound, low =>
    .ofEq (classRangesFrom_cons σ u bound low).symm <|
      .ite _ (.done .noMatch) <| .ite _ (.done .matched) <|
        .readingOr (.word _)
          (fun _ => .ite _ (.done .matched) <| .bind (classAtomParts σ) fun high =>
            .ite (fun _ => (!high.isMatch || !isRange σ.mode low high) = true) (.done .noMatch) <|
              .ite (fun s => s.isAt [']'] = true) (.done .matched) <|
                .bind (classAtomParts σ) (classRangesFromParts σ bound))
          (.bind (classAtomNoDashParts σ) (classRangesFromParts σ bound))

def classRangesParts (σ : Settings) : (classRanges σ).Parts σ.mode :=
  .bounded fun bound => .bind (classAtomParts σ) (classRangesFromParts σ bound)

def characterClassParts (σ : Settings) : (characterClass σ).Parts σ.mode :=
  .attempt _ <| .reading (.seqRight (.word _) (.optional (.word _))) fun _ =>
    (Forms.cons (.plain (.word _)) <|
      .cons (.followedBy (classRangesParts σ) (.plain (.word _))) .nil).anyOf

/-! ## Terms -/

section

variable {σ : Settings} {body : Recognizer} (inside : body.Parts σ.mode)

def labelledGroupParts (labels : List (List Char)) : (labelledGroup σ body labels).Parts σ.mode :=
  .attempt _ <| .reading (.seqRight (.word _) (.anyWord _)) fun _ => inside

def capturingGroupParts : (capturingGroup σ body).Parts σ.mode :=
  .attempt _ <| .capture (.optional (.seqRight (.word _) groupNameParts)) inside

def escapedAtomParts (σ : Settings) : (escapedAtom σ).Parts σ.mode :=
  .attempt _ <| .reading (.word _) fun _ => (atomEscapeFormsParts σ).anyOf

def bareBackslashParts : bareBackslash.Parts mode := .plain (.seqRight (.word _) (.ahead (.word _)))

def patternCharacterParts : (patternCharacter mode).Parts mode := .codePointIf _

def extendedCharacterParts : extendedCharacter.Parts .legacy :=
  .seqRight (.notAhead bracedShapeParts) patternCharacterParts

def atomFormsParts : {σ : Settings} → body.Parts σ.mode → Forms σ.mode (atomForms σ body)
  | ⟨⟨.unicode, _⟩, _⟩, inside =>
    .cons (.character patternCharacterParts) <| .cons (.plain (.word _)) <|
      .cons (escapedAtomParts _) <| .cons (characterClassParts _) <|
      .cons (labelledGroupParts inside _) <| .cons (capturingGroupParts inside) .nil
  | ⟨⟨.legacy, _⟩, _⟩, inside =>
    .cons (.plain (.word _)) <| .cons (escapedAtomParts _) <| .cons bareBackslashParts <|
      .cons (characterClassParts _) <| .cons (labelledGroupParts inside _) <|
      .cons (capturingGroupParts inside) <| .cons (.character extendedCharacterParts) .nil

def atomParts : (atom σ body).Parts σ.mode := (atomFormsParts inside).anyOf

def lookaheadParts : (lookahead σ body).Parts σ.mode := labelledGroupParts inside _

def assertionParts : (assertion σ body).Parts σ.mode :=
  (Forms.cons (.plain (.anyWord _)) (.cons (labelledGroupParts inside _) .nil)).anyOf

def quantifiedParts {p : Recognizer} (parts : p.Parts σ.mode) : (quantified σ p).Parts σ.mode :=
  .attempt _ (.followedBy parts (.plain quantifierParts))

def termFormsParts : {σ : Settings} → body.Parts σ.mode → Forms σ.mode (termForms σ body)
  | ⟨⟨.unicode, _⟩, _⟩, inside =>
    .cons (assertionParts inside) (.cons (quantifiedParts (atomParts inside)) .nil)
  | ⟨⟨.legacy, _⟩, _⟩, inside =>
    .cons (quantifiedParts (lookaheadParts inside)) <| .cons (assertionParts inside) <|
      .cons (quantifiedParts (atomParts inside)) .nil

def termParts : (term σ body).Parts σ.mode := (termFormsParts inside).anyOf

/-! ## Disjunctions -/

def closingParts : (closer : Option (List Char)) → (closing closer).Parts mode
  | none => .pure ()
  | some w => .word w

def alternativeWithinParts (closer : Option (List Char)) :
    (bound : List CodeUnit) → (alternativeWithin σ body closer bound).Parts σ.mode
  | [] => .ite _ (.done .matched) (.done .noMatch)
  | _ :: bound =>
    .ite _ (.done .matched) (.followedBy (termParts inside) (alternativeWithinParts closer bound))

def alternativeParts (closer : Option (List Char)) : (alternative σ body closer).Parts σ.mode :=
  .bounded (alternativeWithinParts inside closer)

theorem afterAlternative_nil (closer : Option (List Char)) :
    afterAlternative σ body closer [] = plain (closing closer) := by
  funext s
  unfold afterAlternative
  cases (Reader.word ['|']).run s.rest <;> rfl

theorem afterAlternative_cons (closer : Option (List Char)) (u : CodeUnit)
    (bound : List CodeUnit) :
    afterAlternative σ body closer (u :: bound) =
      readingOr (Reader.word ['|']) (fun _ => alternativesWithin σ body closer bound)
        (plain (closing closer)) := by
  funext s
  unfold afterAlternative readingOr
  cases (Reader.word ['|']).run s.rest <;> rfl

theorem alternativesWithin_none (bound : List CodeUnit) :
    alternativesWithin σ body none bound =
      (alternative σ body none).followedBy (afterAlternative σ body none bound) :=
  funext fun _ => alternativesWithin_eq_followedBy rfl

theorem alternativesWithin_some (w : List Char) (bound : List CodeUnit) :
    alternativesWithin σ body (some w) bound =
      readingOr (Reader.word w) (fun _ s => (.matched, s))
        ((alternative σ body (some w)).followedBy (afterAlternative σ body (some w) bound)) := by
  funext s
  rw [readingOr]
  cases hrun : (Reader.word w).run s.rest with
  | none => exact alternativesWithin_eq_followedBy hrun
  | some found =>
    have hword : ((some w).bind fun w => (Reader.word w).run s.rest) = some found := hrun
    rw [alternativesWithin.eq_def, hword]

/-- A round of the loop over alternatives, where `after` is what follows one of them. -/
def alternativesRoundParts (bound : List CodeUnit) : (closer : Option (List Char)) →
    (after : (afterAlternative σ body closer bound).Parts σ.mode) →
      (alternativesWithin σ body closer bound).Parts σ.mode
  | none, after =>
    .ofEq (alternativesWithin_none bound).symm (.followedBy (alternativeParts inside none) after)
  | some w, after =>
    .ofEq (alternativesWithin_some w bound).symm <|
      .readingOr (.word w) (fun _ => .done .matched)
        (.followedBy (alternativeParts inside (some w)) after)

def alternativesWithinParts (closer : Option (List Char)) :
    (bound : List CodeUnit) → (alternativesWithin σ body closer bound).Parts σ.mode
  | [] =>
    alternativesRoundParts inside [] closer <|
      .ofEq (afterAlternative_nil closer).symm (.plain (closingParts closer))
  | u :: bound =>
    alternativesRoundParts inside (u :: bound) closer <|
      .ofEq (afterAlternative_cons closer u bound).symm <|
        .readingOr (.word _) (fun _ => alternativesWithinParts closer bound)
          (.plain (closingParts closer))

def alternativesParts (closer : Option (List Char)) : (alternatives σ body closer).Parts σ.mode :=
  .bounded (alternativesWithinParts inside closer)

end

def groupBodyParts (σ : Settings) : (room : Nat) → (groupBody σ room).Parts σ.mode
  | 0 => .note _
  | room + 1 => alternativesParts (groupBodyParts σ room) _

def disjunctionParts (σ : Settings) (room : Nat) (closer : Option (List Char)) :
    (disjunction σ room closer).Parts σ.mode :=
  alternativesParts (groupBodyParts σ room) closer

/-- What a term runs is run by the disjunction around it. -/
theorem calls_of_termParts {σ : Settings} {room : Nat} {closer : Option (List Char)}
    {q : Recognizer} (h : (termParts (groupBodyParts σ room)).Calls q) :
    (disjunctionParts σ room closer).Calls q := by
  have halternative : (alternativeParts (groupBodyParts σ room) closer).Calls q :=
    Or.inr ⟨[0], Or.inr (Or.inr (Or.inr (Or.inl h)))⟩
  cases closer with
  | none => exact Or.inr ⟨[], Or.inr (Or.inr (Or.inl halternative))⟩
  | some w => exact Or.inr ⟨[], Or.inr (Or.inr (Or.inr (Or.inr (Or.inr (Or.inl halternative)))))⟩

end Grammar

/-! ## Whole texts -/

/-- The states that the recognition of a whole text passes through. -/
def visited (σ : Settings) (text : List CodeUnit) : List State :=
  (Grammar.disjunctionParts σ σ.nestingLimit.toNat none).trace (.start text)

theorem recognize_mem_visited (σ : Settings) (text : List CodeUnit) :
    (recognize σ text).2 ∈ visited σ text :=
  (Grammar.disjunctionParts σ σ.nestingLimit.toNat none).mem_trace (.start text)

end EcmaPattern
