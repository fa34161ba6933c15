import EcmaPattern.Proofs.Language.Escape

namespace EcmaPattern.Language

open Form

/-! # The language of classes -/

/-- The character `c` written as itself, which means `n`. -/
def written (c : Char) (n : Nat) : Form (Option Nat) := fun v p q => v = some n ∧ word [c] p q

/-- The escapes in a class, in the order of precedence that they have in legacy mode. An escape for
a set of characters has no value. -/
def classEscapes : Mode → List (Form (Option Nat))
  | .unicode =>
    [written 'b' 0x08, written '-' '-'.toNat, setLetter.as none, property.as none,
      control.map some, controlLetter.map some, null.map some, hex.map some,
      (UnicodeEscape .unicode).map some, (identity .unicode).map some]
  | .legacy =>
    [written 'b' 0x08, classControl.map some, setLetter.as none, control.map some,
      controlLetter.map some, null.map some, hex.map some, (UnicodeEscape .legacy).map some,
      octal.map some, (identity .legacy).map some, written 'k' 'k'.toNat]

/-- An escape in a class, and the character that it stands for. -/
def ClassEscape (mode : Mode) : Form (Option Nat) := Choice mode (classEscapes mode)

theorem opens_written {c : Char} {n : Nat} : (written c n).Opens [c] := by
  intro v p q h
  rcases h with ⟨-, h⟩
  exact opens_word v p q h

theorem shrinks_written {c : Char} {n : Nat} : (written c n).Shrinks := by
  intro v p q h
  rcases h with ⟨-, h⟩
  exact length_lt_of_word h

theorem shrinks_classEscape {mode : Mode} : (ClassEscape mode).Shrinks := by
  refine shrinks_choice fun R hR => ?_
  cases mode with
  | unicode =>
    simp only [classEscapes, List.mem_cons, List.not_mem_nil, or_false] at hR
    rcases hR with rfl | rfl | rfl | rfl | rfl | rfl | rfl | rfl | rfl | rfl
    · exact shrinks_written
    · exact shrinks_written
    · exact shrinks_setLetter.map _
    · exact shrinks_property.map _
    · exact shrinks_control.map _
    · exact shrinks_controlLetter.map _
    · exact shrinks_null.map _
    · exact shrinks_hex.map _
    · exact shrinks_unicodeEscape.map _
    · exact shrinks_identity.map _
  | legacy =>
    simp only [classEscapes, List.mem_cons, List.not_mem_nil, or_false] at hR
    rcases hR with rfl | rfl | rfl | rfl | rfl | rfl | rfl | rfl | rfl | rfl | rfl
    · exact shrinks_written
    · exact shrinks_classControl.map _
    · exact shrinks_setLetter.map _
    · exact shrinks_control.map _
    · exact shrinks_controlLetter.map _
    · exact shrinks_null.map _
    · exact shrinks_hex.map _
    · exact shrinks_unicodeEscape.map _
    · exact shrinks_octal.map _
    · exact shrinks_identity.map _
    · exact shrinks_written

/-- The characters that go on an escape with a `c`: letters, digits and the low line. -/
def followsControl (c : Char) : Bool := c.isAlpha || (c.isDigit || c == '_')

/-- A class atom other than a dash. -/
inductive ClassAtomNoDash (mode : Mode) : Form (Option Nat)
  | character {n : Nat} {q : Text} :
      n ∉ Text.ofWord [']', '-', '\\'] → ClassAtomNoDash mode (some n) (n :: q) q
  | escape {v : Option Nat} {p q : Text} :
      after ['\\'] (ClassEscape mode) v p q → ClassAtomNoDash mode v p q
  /-- In legacy mode a backslash before a `c` that starts no escape stands for itself. -/
  | backslash {p q t : Text} :
      mode = .legacy → word ['\\'] p q → word ['c'] q t →
      ¬ t.StartsWith followsControl →
      ClassAtomNoDash mode (some '\\'.toNat) p q

/-- A class atom. -/
inductive ClassAtom (mode : Mode) : Form (Option Nat)
  | dash {p q : Text} : word ['-'] p q → ClassAtom mode (some '-'.toNat) p q
  | noDash {v : Option Nat} {p q : Text} : ClassAtomNoDash mode v p q → ClassAtom mode v p q

/-- No class atom starts with a closing bracket, and only a dash starts with a dash. -/
theorem not_word_of_classAtomNoDash {mode : Mode} {v : Option Nat} {p q t : Text} {c : Char}
    (h : ClassAtomNoDash mode v p q) (hc : c ∈ [']', '-']) : ¬ word [c] p t := by
  have hback {w : List Char} {r : Text} (hword : word ('\\' :: w) p r) : ¬ word [c] p t :=
    fun hp => not_word_of_mem hp hc (by decide) hword
  cases h with
  | character hn =>
    intro hp
    rcases List.cons.inj hp with ⟨rfl, -⟩
    exact hn (Text.mem_ofWord.2 (List.mem_append_left ['\\'] hc))
  | escape h =>
    rcases h with ⟨t', hword, -⟩
    exact hback hword
  | backslash _ hword _ _ => exact hback hword

theorem not_close_of_classAtom {mode : Mode} {v : Option Nat} {p q t : Text}
    (h : ClassAtom mode v p q) : ¬ word [']'] p t := by
  cases h with
  | dash h => exact not_word_of_word h (by decide)
  | noDash h => exact not_word_of_classAtomNoDash h (by decide)

theorem shrinks_classAtomNoDash {mode : Mode} : (ClassAtomNoDash mode).Shrinks := by
  intro v p q h
  cases h with
  | character _ => simp
  | escape h => exact shrinks_classEscape.after _ v p q h
  | backslash _ h _ _ => exact length_lt_of_word h

theorem shrinks_classAtom {mode : Mode} : (ClassAtom mode).Shrinks := by
  intro v p q h
  cases h with
  | dash h => exact length_lt_of_word h
  | noDash h => exact shrinks_classAtomNoDash v p q h

/-- Whether two class atoms may be the ends of a range: two characters in order, or in legacy mode
any two of which one is no single character. -/
def MayRange (mode : Mode) (low high : Option Nat) : Prop :=
  match low, high with
  | some low, some high => low ≤ high
  | _, _ => mode = .legacy

/-- The nonterminals of what stands in a class. -/
inductive ClassSymbol
  | ranges
  | nonempty
  | nonemptyNoDash

/-- What stands in a class: atoms and ranges. A dash is an atom at the front, at the end and after a
range. -/
inductive ClassRanges (mode : Mode) : ClassSymbol → Text → Text → Prop
  | empty {p : Text} : ClassRanges mode .ranges p p
  | nonempty {p q : Text} : ClassRanges mode .nonempty p q → ClassRanges mode .ranges p q
  | single {v : Option Nat} {p q : Text} : ClassAtom mode v p q → ClassRanges mode .nonempty p q
  | cons {v : Option Nat} {p t q : Text} :
      ClassAtom mode v p t → ClassRanges mode .nonemptyNoDash t q → ClassRanges mode .nonempty p q
  | range {low high : Option Nat} {p t t' r q : Text} :
      ClassAtom mode low p t → word ['-'] t t' → ClassAtom mode high t' r →
      MayRange mode low high → ClassRanges mode .ranges r q → ClassRanges mode .nonempty p q
  | last {v : Option Nat} {p q : Text} :
      ClassAtom mode v p q → ClassRanges mode .nonemptyNoDash p q
  | consNoDash {v : Option Nat} {p t q : Text} :
      ClassAtomNoDash mode v p t → ClassRanges mode .nonemptyNoDash t q →
      ClassRanges mode .nonemptyNoDash p q
  | rangeNoDash {low high : Option Nat} {p t t' r q : Text} :
      ClassAtomNoDash mode low p t → word ['-'] t t' → ClassAtom mode high t' r →
      MayRange mode low high → ClassRanges mode .ranges r q →
      ClassRanges mode .nonemptyNoDash p q

theorem length_le_of_classRanges {mode : Mode} {x : ClassSymbol} {p q : Text}
    (h : ClassRanges mode x p q) : q.length ≤ p.length := by
  induction h with
  | empty => exact Nat.le_refl _
  | nonempty _ ih => exact ih
  | single h => exact Nat.le_of_lt (shrinks_classAtom _ _ _ h)
  | cons h _ ih => exact Nat.le_trans ih (Nat.le_of_lt (shrinks_classAtom _ _ _ h))
  | range h hdash h' _ _ ih =>
    have := shrinks_classAtom _ _ _ h
    have := length_lt_of_word hdash
    have := shrinks_classAtom _ _ _ h'
    omega
  | last h => exact Nat.le_of_lt (shrinks_classAtom _ _ _ h)
  | consNoDash h _ ih => exact Nat.le_trans ih (Nat.le_of_lt (shrinks_classAtomNoDash _ _ _ h))
  | rangeNoDash h hdash h' _ _ ih =>
    have := shrinks_classAtomNoDash _ _ _ h
    have := length_lt_of_word hdash
    have := shrinks_classAtom _ _ _ h'
    omega

/-- A class in brackets. A caret after the bracket always negates. -/
inductive CharacterClass (mode : Mode) : Text → Text → Prop
  | plain {p t r q : Text} :
      word ['['] p t → ¬ (∃ t', word ['^'] t t') → ClassRanges mode .ranges t r → word [']'] r q →
      CharacterClass mode p q
  | negated {p t r q : Text} :
      word ['[', '^'] p t → ClassRanges mode .ranges t r → word [']'] r q → CharacterClass mode p q

theorem bracket_of_characterClass {mode : Mode} {p q : Text} (h : CharacterClass mode p q) :
    ∃ t, word ['['] p t := by
  cases h with
  | plain h => exact ⟨_, h⟩
  | negated h => exact ⟨_, h⟩

theorem length_lt_of_characterClass {mode : Mode} {p q : Text} (h : CharacterClass mode p q) :
    q.length < p.length := by
  cases h with
  | plain h _ hranges hclose =>
    have := length_lt_of_word h
    have := length_le_of_classRanges hranges
    have := length_lt_of_word hclose
    omega
  | negated h hranges hclose =>
    have := length_lt_of_word h
    have := length_le_of_classRanges hranges
    have := length_lt_of_word hclose
    omega

end EcmaPattern.Language
