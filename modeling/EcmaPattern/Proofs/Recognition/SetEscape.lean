import EcmaPattern.Proofs.Recognition.Escape
import EcmaPattern.Proofs.Recognition.Recognizes

namespace EcmaPattern.Grammar

open CodeUnit Form Reader Recognizer

/-! # The recognizers of set escapes recognize the language of set escapes -/

variable {mode : Mode} {σ : Settings}

/-! ## Property expressions -/

theorem isValueLetter_of_isNameLetter {c : Char} (h : isNameLetter c = true) :
    isValueLetter c = true := by
  simp only [isNameLetter, isValueLetter, Char.isAlphanum, Bool.or_eq_true] at h ⊢
  rcases h with h | h
  · exact Or.inl (Or.inl h)
  · exact Or.inr h

theorem isAscii_isValueLetter : IsAscii isValueLetter := by
  intro c h
  simp only [isValueLetter, Char.isAlphanum, Bool.or_eq_true, beq_iff_eq] at h
  rcases h with (h | h) | rfl
  · exact isAscii_isAlpha c h
  · exact isAscii_isDigit c h
  · decide

theorem isAscii_isNameLetter : IsAscii isNameLetter := fun c h =>
  isAscii_isValueLetter c (isValueLetter_of_isNameLetter h)

/-- A name, a sign of equality and a value, whatever they are. -/
def NamedValue : Form (List Char × List Char) := fun v p q =>
  ∃ s t, run isNameLetter v.1 p s ∧ word ['='] s t ∧ run isValueLetter v.2 t q

theorem reads_nameAndValue :
    Reads mode nameAndValue (NamedValue.map fun v => (.ofList v.1, .ofList v.2)) := by
  refine ((reads_asciiRun isAscii_isNameLetter).bind fun name => (reads_word (by decide)).bind
    fun _ => (reads_asciiRun isAscii_isValueLetter).bind fun value => .of_pure _).congr
      fun v p q => ?_
  constructor
  · intro h
    rcases h with ⟨⟨name, value⟩, rfl, s, t, hname, heq, hvalue⟩
    exact ⟨name, s, hname, (), t, heq, value, q, hvalue, rfl, rfl⟩
  · intro h
    rcases h with ⟨name, s, hname, _, t, heq, value, _, hvalue, rfl, rfl⟩
    exact ⟨(name, value), rfl, s, t, hname, heq, hvalue⟩

/-- A property that has the value. -/
def Valued (p q : Text) : Prop := ∃ v, NamedValue v p q ∧
  Property.isValue (Property.canonical (.ofList v.1)) (.ofList v.2) = true

/-- All of a name, which may stand alone. -/
def Lone (p q : Text) : Prop := ∃ name, run isValueLetter name p q ∧
  String.ofList name ∉ Property.valued ∧ Property.isLone (.ofList name) = true

theorem recognizes_test (c : Prop) [Decidable c] (d : Diagnostic) :
    Recognizes mode .character (fun s => if c then (.matched, s) else (.noMatch, s.note d))
      fun v p q => v = none ∧ c ∧ p = q := by
  intro s
  by_cases hc : c
  · simp only [if_pos hc]
    refine (Found.here (m := .character) (o := .matched) (a := none) rfl rfl rfl).congr
      fun v q => ?_
    simp [hc, eq_comm]
  · simp only [if_neg hc]
    exact .noMatch rfl fun v q h => hc h.2.1

theorem recognizes_valuedProperty :
    Recognizes mode .character valuedProperty fun v p q => v = none ∧ Valued p q := by
  refine (Recognizes.reading reads_nameAndValue fun nv => recognizes_test
    (Property.isValue (Property.canonical nv.1) nv.2 = true)
    (.notAValue nv.2 (Property.canonical nv.1))).congr fun v p q => ?_
  constructor
  · intro h
    rcases h with ⟨rfl, nv, h, hvalue⟩
    exact ⟨_, q, ⟨nv, rfl, h⟩, rfl, hvalue, rfl⟩
  · intro h
    rcases h with ⟨_, _, ⟨nv, rfl, h⟩, rfl, hvalue, rfl⟩
    exact ⟨rfl, nv, h, hvalue⟩

theorem recognizes_loneProperty :
    Recognizes mode .character loneProperty fun v p q => v = none ∧ Lone p q := by
  refine (Recognizes.plain ((reads_asciiRun isAscii_isValueLetter).map.bind fun name =>
    Reads.of_guard.bind fun _ => Reads.of_guard)).congr fun v p q => ?_
  constructor
  · intro h
    rcases h with ⟨rfl, name, h, hvalued, hlone⟩
    exact ⟨(), rfl, _, q, ⟨name, h, rfl⟩, (), q, ⟨hvalued, rfl⟩, hlone, rfl⟩
  · intro h
    rcases h with ⟨_, rfl, _, _, ⟨name, h, rfl⟩, _, _, ⟨hvalued, rfl⟩, hlone, rfl⟩
    exact ⟨rfl, name, h, hvalued, hlone⟩

/-- After a name with a sign of equality no name alone is closed. -/
theorem not_lone_of_namedValue {v : List Char × List Char} {p q r s : Text} (h : NamedValue v p q)
    (hlone : Lone p r) : ¬ word ['}'] r s := by
  intro hclose
  rcases hlone with ⟨name, ⟨-, hname, hstop, hp⟩, -⟩
  rcases h with ⟨t, t', ⟨-, hname', hstop', hp'⟩, heq, -⟩
  have hmem : ∀ c ∈ v.1, isValueLetter c = true := fun c hc =>
    isValueLetter_of_isNameLetter (hname' c hc)
  -- both readers take the same name, since a sign of equality ends it for either
  have hstop'' : ¬ t.StartsWith isValueLetter := not_startsWith_of_word heq rfl
  rcases Text.ofWord_append_inj hname hmem hstop hstop'' (hp.symm.trans hp') with ⟨-, rfl⟩
  exact not_word_of_word heq (by decide) hclose

/-- What stands between the braces, closing one included. -/
theorem closed_expression_iff {p q : Text} :
    (∃ e, Language.PropertyExpression e ∧ word (e ++ ['}']) p q) ↔
      (∃ t, Valued p t ∧ word ['}'] t q) ∨
        ¬ NamedValue.Applies p ∧ ∃ t, Lone p t ∧ word ['}'] t q := by
  constructor
  · intro h
    rcases h with ⟨e, he, h⟩
    rcases word_append.1 h with ⟨t, hword, hclose⟩
    cases he with
    | @valued name value hname hname' hvalue hvalue' his =>
      rcases word_append.1 hword with ⟨s', hpre, hval⟩
      rcases word_append.1 hpre with ⟨s, hn, heq⟩
      exact Or.inl ⟨t, ⟨(name, value), ⟨s, s',
        ⟨hname, hname', not_startsWith_of_word heq rfl, hn⟩, heq,
        ⟨hvalue, hvalue', not_startsWith_of_word hclose rfl, hval⟩⟩, his⟩, hclose⟩
    | lone hname hname' hvalued hlone =>
      have hl : Lone p t :=
        ⟨e, ⟨hname, hname', not_startsWith_of_word hclose rfl, hword⟩, hvalued, hlone⟩
      refine Or.inr ⟨?_, t, hl, hclose⟩
      intro h
      rcases h with ⟨v, r, hv⟩
      exact not_lone_of_namedValue hv hl hclose
  · intro h
    rcases h with ⟨t, ⟨v, ⟨s, s', hname, heq, hvalue⟩, his⟩, hclose⟩ | ⟨-, t, hlone, hclose⟩
    · exact ⟨_, .valued hname.1 hname.2.1 hvalue.1 hvalue.2.1 his,
        word_append.2 ⟨t, word_append.2 ⟨s', word_append.2 ⟨s, hname.2.2.2, heq⟩, hvalue.2.2.2⟩,
          hclose⟩⟩
    · rcases hlone with ⟨name, hname, hvalued, hlone⟩
      exact ⟨name, .lone hname.1 hname.2.1 hvalued hlone,
        word_append.2 ⟨t, hname.2.2.2, hclose⟩⟩

theorem recognizes_closing :
    Recognizes mode .character (plain (Reader.word ['}'])) fun v p q => v = none ∧ word ['}'] p q :=
  (Recognizes.plain (reads_word (by decide))).congr fun v p q => by simp [as, Form.map]

/-- A value that a property does not have fails for good: the name before the sign of equality is
not closed, even if it may stand alone. -/
theorem recognizes_closedProperty :
    Recognizes mode .character
      ((anyOf (propertyForms σ)).followedBy (plain (Reader.word ['}']))) fun v p q => v = none ∧
        ∃ e, Language.PropertyExpression e ∧ word (e ++ ['}']) p q := by
  have hvalued : Recognizes mode .character (attempt σ.rollback valuedProperty) _ :=
    recognizes_valuedProperty.attempt σ.rollback
  have hlone : Recognizes mode .character (attempt σ.rollback loneProperty) _ :=
    recognizes_loneProperty.attempt σ.rollback
  have hconfined : ConfinedTo mode NamedValue.Applies (attempt σ.rollback valuedProperty) :=
    (ConfinedTo.attempt_reading reads_nameAndValue _ _).mono fun _ => applies_map.1
  refine (Recognizes.choice (anyOf_cons_followedBy _ _ _)
    (hvalued.followedBy_character recognizes_closing) (fun _ => isMatch_of_followedBy) hconfined
    (hlone.anyOf_last.followedBy_character recognizes_closing) ?_).congr fun v p q => ?_
  · intro s h _ h'
    -- nothing is recovered after a value that does not fit: the lone name is not closed
    rcases h with ⟨_, _, hv⟩
    rcases h' with ⟨_, _, _, _, ⟨-, hl⟩, -, hclose⟩
    exact not_lone_of_namedValue hv hl hclose
  · rw [closed_expression_iff]
    constructor
    · intro h
      rcases h with ⟨rfl, ⟨t, h, hclose⟩ | ⟨hnone, t, h, hclose⟩⟩
      · exact Or.inl ⟨none, t, ⟨rfl, h⟩, rfl, hclose⟩
      · exact Or.inr ⟨hnone, none, t, ⟨rfl, h⟩, rfl, hclose⟩
    · intro h
      rcases h with ⟨_, t, ⟨-, h⟩, rfl, hclose⟩ | ⟨hnone, _, t, ⟨-, h⟩, rfl, hclose⟩
      · exact ⟨rfl, Or.inl ⟨t, h, hclose⟩⟩
      · exact ⟨rfl, Or.inr ⟨hnone, t, h, hclose⟩⟩

/-- A `p` or `P` and an opening brace. -/
def PropertyStart : Form (List Char) := fun w p q => w ∈ [['p', '{'], ['P', '{']] ∧ word w p q

theorem reads_propertyStart : Reads mode (anyWord [['p', '{'], ['P', '{']]) PropertyStart :=
  reads_anyWord (by decide) (by decide)

theorem recognizes_propertyEscape :
    Recognizes mode .character (propertyEscape σ) (Language.property.as none) := by
  refine ((Recognizes.reading reads_propertyStart fun _ =>
    recognizes_closedProperty).attempt σ.rollback).congr fun v p q => ?_
  constructor
  · intro h
    rcases h with ⟨c, rfl, hc, e, he, h⟩
    rw [List.append_assoc] at h
    rcases word_append.1 h with ⟨t, hopen, hclose⟩
    refine ⟨_, t, ⟨?_, hopen⟩, rfl, e, he, hclose⟩
    simpa using hc
  · intro h
    rcases h with ⟨w, t, ⟨hw, hopen⟩, rfl, e, he, hclose⟩
    have hword := word_append.2 ⟨t, hopen, hclose⟩
    rw [← List.append_assoc] at hword
    simp only [List.mem_cons, List.not_mem_nil, or_false] at hw
    rcases hw with rfl | rfl
    · exact ⟨'p', rfl, by decide, e, he, hword⟩
    · exact ⟨'P', rfl, by decide, e, he, hword⟩

theorem confinedTo_propertyEscape : ConfinedTo mode PropertyStart.Applies (propertyEscape σ) :=
  .attempt_reading reads_propertyStart _ _

/-! ## All forms -/

theorem traceless_setLetter :
    Traceless mode .character setLetter (Language.setLetter.as none) := by
  refine (Traceless.plain (reads_anyWord (by decide) (by decide))).congr fun v p q => ?_
  constructor
  · intro h
    rcases h with ⟨c, rfl, hc, h⟩
    refine ⟨[c], rfl, ?_, h⟩
    simpa using hc
  · intro h
    rcases h with ⟨w, rfl, hw, h⟩
    obtain ⟨c, hc, rfl⟩ : ∃ c ∈ ['d', 'D', 's', 'S', 'w', 'W'], w = [c] := by simpa using hw
    exact ⟨c, rfl, hc, h⟩

/-- The forms of an escape for a set of characters. -/
def setForms : Mode → List (Form Char)
  | .unicode => [Language.setLetter, Language.property]
  | .legacy => [Language.setLetter]

theorem traceless_setEscape (hmode : σ.mode = .legacy) :
    Traceless .legacy .character (setEscape σ) ((First (setForms .legacy)).as none) := by
  rw [setEscape, hmode, setForms, first_singleton]
  exact traceless_setLetter

theorem recognizes_setEscape (hmode : σ.mode = .unicode) :
    Recognizes .unicode .character (setEscape σ) ((First (setForms .unicode)).as none) := by
  rw [setEscape, hmode, as, map_first]
  exact traceless_setLetter.anyOf_first
    (recognizes_propertyEscape.anyOf_last.congr fun _ _ _ => by simp [as])

/-- In Unicode mode a trace is left only after the brace of a property expression. -/
theorem confinedTo_setEscape (hmode : σ.mode = .unicode) :
    ConfinedTo .unicode (fun p => Language.setLetter.Applies p ∨ PropertyStart.Applies p)
      (setEscape σ) := by
  rw [setEscape, hmode]
  refine (traceless_setLetter.confined.anyOf_cons
    (confinedTo_propertyEscape.anyOf_cons .anyOf_nil)).mono ?_
  intro p h
  rcases h with h | h | h
  · exact Or.inl (applies_map.1 h)
  · exact Or.inr h
  · exact h.elim

/-- Where a property expression starts, no form with other first characters applies. -/
theorem not_applies_of_propertyStart {α : Type} {S : Form α} {cs : List Char} {p : Text}
    (h : PropertyStart.Applies p) (hS : S.Opens cs) (hcs : 'p' ∉ cs ∧ 'P' ∉ cs) :
    ¬ S.Applies p := by
  rcases h with ⟨w, t, hw, h⟩
  simp only [List.mem_cons, List.not_mem_nil, or_false] at hw
  rcases hw with rfl | rfl
  · rw [show p = 'p'.toNat :: _ from h]
    exact hS.not_applies hcs.1
  · rw [show p = 'P'.toNat :: _ from h]
    exact hS.not_applies hcs.2

theorem propertyStart_of_property {p : Text} (h : Language.property.Applies p) :
    PropertyStart.Applies p := by
  rcases h with ⟨c, q, hc, e, -, h⟩
  rw [List.append_assoc] at h
  rcases word_append.1 h with ⟨t, hopen, -⟩
  exact ⟨[c, '{'], t, by simpa using hc, hopen⟩

/-- In Unicode mode set escapes may be tried before forms that start with other characters. -/
theorem recognizes_anyOf_setEscape {α : Type} {m : Meaning α} {b : α} {ps : List Recognizer}
    {forms : List (Form α)} {cs : List Char} (hmode : σ.mode = .unicode)
    (hset : Recognizes .unicode m (setEscape σ) ((First (setForms .unicode)).as b))
    (hnames : (m.brings b).names = []) (hps : Recognizes .unicode m (anyOf ps) (First forms))
    (hopens : (First forms).Opens cs) (hcs : 'p' ∉ cs ∧ 'P' ∉ cs) :
    Recognizes .unicode m (anyOf (setEscape σ :: ps))
      (First ((First (setForms .unicode)).as b :: forms)) := by
  -- a letter always matches where it stands; after the brace of a property nothing later applies
  refine hset.anyOf_first ?_ (confinedTo_setEscape hmode) (fun x h => ?_) hps fun x h => ?_
  · intro _ x y h
    rcases h with ⟨c, rfl, -⟩
    exact hnames
  · rcases applies_first.1 (applies_map.1 h) with ⟨R, hR, h⟩
    simp only [setForms, List.mem_cons, List.not_mem_nil, or_false] at hR
    rcases hR with rfl | rfl
    · exact Or.inl h
    · exact Or.inr (propertyStart_of_property h)
  · rcases h with h | h
    · exact Or.inl (applies_map.2 (applies_first.2 ⟨_, List.mem_cons_self, h⟩))
    · exact Or.inr (not_applies_of_propertyStart h hopens hcs)

end EcmaPattern.Grammar
