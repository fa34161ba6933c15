import EcmaPattern.Evidence
import EcmaPattern.Grammar.SetEscape
import EcmaPattern.Identifier
import EcmaPattern.Proofs.Language.Form
import EcmaPattern.Proofs.Text.NumeralOrder
import EcmaPattern.Text.CodeUnit
import EcmaPattern.Text.Numeral

namespace EcmaPattern.Language

open Form

/-! # The language of escapes

Each form starts after the backslash.
-/

/-- The characters that stand for something else than themselves. -/
def syntaxCharacters : Mode → List Char
  | .unicode => ['^', '$', '\\', '.', '*', '+', '?', '(', ')', '[', ']', '{', '}', '|']
  | .legacy => ['^', '$', '\\', '.', '*', '+', '?', '(', ')', '[', '|']

/-! ## Escapes for one character -/

/-- The letters that stand for control characters. -/
def controls : List (Char × Nat) :=
  [('f', 0x0C), ('n', 0x0A), ('r', 0x0D), ('t', 0x09), ('v', 0x0B)]

/-- A letter that stands for a control character. -/
def control : Form Nat := fun n p q => ∃ c, (c, n) ∈ controls ∧ word [c] p q

/-- A `c` and a letter, which counts modulo 32. -/
def controlLetter : Form Nat := fun n p q =>
  ∃ letter : Char, letter.isAlpha = true ∧ n = letter.toNat % 32 ∧ word ['c', letter] p q

/-- A `c` and a digit or a low line, which counts modulo 32. Only legacy classes have it. -/
def classControl : Form Nat := fun n p q =>
  ∃ c : Char, (c.isDigit || c == '_') = true ∧ n = c.toNat % 32 ∧ word ['c', c] p q

/-- A zero that no digit follows. -/
def null : Form Nat := fun n p q => n = 0 ∧ word ['0'] p q ∧ ¬ q.StartsWith Char.isDigit

/-- The value of `k` hexadecimal digits. -/
def hexDigits (k : Nat) : Form Nat := (exactly k Numeral.isHexDigit).map (Numeral.value 16)

theorem not_hexDigits_of_brace {k : Nat} {w : List Char} {p q : Text} (h : word ('{' :: w) p q) :
    ¬ (hexDigits (k + 1)).Applies p := by
  intro h'
  rcases h' with ⟨n, r, digits, -, hlen, hall, hdigits⟩
  cases digits with
  | nil => simp at hlen
  | cons d digits =>
    refine not_word_of_word h ?_ hdigits
    rintro rfl
    exact absurd (hall '{' List.mem_cons_self) (by decide)

/-- An `x` and two hexadecimal digits. -/
def hex : Form Nat := after ['x'] (hexDigits 2)

/-- The escape of a trail surrogate, backslash included. -/
def trail : Form Nat := fun n p q =>
  after ['\\', 'u'] (hexDigits 4) n p q ∧ Surrogate.isTrail n = true

/-- An escape that starts with `u`. -/
inductive UnicodeEscape (mode : Mode) : Form Nat
  /-- Four digits. In Unicode mode a lead surrogate does not leave a trail surrogate behind. -/
  | unit {n : Nat} {p q : Text} :
      after ['u'] (hexDigits 4) n p q →
      (mode = .unicode → Surrogate.isLead n = true → ¬ trail.Applies q) →
      UnicodeEscape mode n p q
  /-- Two escapes of surrogates, which are one character. -/
  | pair {lead low : Nat} {p t q : Text} :
      mode = .unicode → after ['u'] (hexDigits 4) lead p t → Surrogate.isLead lead = true →
      trail low t q → UnicodeEscape mode (Surrogate.combine lead low) p q
  /-- Any number of digits in braces, at least one. Each `2 ^ 32` digits count as none, which makes
  a difference only in a text as long as that. -/
  | braced {digits : List Char} {p q : Text} :
      mode = .unicode → ¬ 2 ^ 32 ∣ digits.length → (∀ d ∈ digits, Numeral.isHexDigit d = true) →
      word (['u', '{'] ++ digits ++ ['}']) p q → Numeral.value 16 digits ≤ 0x10FFFF →
      UnicodeEscape mode (Numeral.value 16 digits) p q

/-- Up to three octal digits, or two if the first is above three, and as many as there are. Only
legacy classes have it. -/
def octal : Form Nat := fun n p q =>
  ∃ first more t, Numeral.isOctalDigit first = true ∧ word [first] p t ∧
    upTo (if first ≤ '3' then 2 else 1) Numeral.isOctalDigit more t q ∧
    n = Numeral.value 8 (first :: more)

/-- A character that stands for itself: in Unicode mode a syntax character or a slash, in legacy
mode all but `c` and `k`. -/
def identity (mode : Mode) : Form Nat := fun n p q =>
  p = n :: q ∧ match mode with
    | .unicode => n ∈ Text.ofWord ('/' :: syntaxCharacters .unicode)
    | .legacy => n ∉ Text.ofWord ['c', 'k']

/-! ## Escapes for sets of characters -/

/-- A letter for digits, spaces or word characters, or for all other characters. -/
def setLetter : Form Char := fun c p q => c ∈ ['d', 'D', 's', 'S', 'w', 'W'] ∧ word [c] p q

/-- A property and one of its values, or a name that stands alone. -/
inductive PropertyExpression : List Char → Prop
  | valued {name value : List Char} :
      name ≠ [] → (∀ c ∈ name, Grammar.isNameLetter c = true) →
      value ≠ [] → (∀ c ∈ value, Grammar.isValueLetter c = true) →
      Property.isValue (Property.canonical (.ofList name)) (.ofList value) = true →
      PropertyExpression (name ++ ['='] ++ value)
  | lone {name : List Char} :
      name ≠ [] → (∀ c ∈ name, Grammar.isValueLetter c = true) →
      String.ofList name ∉ Property.valued → Property.isLone (.ofList name) = true →
      PropertyExpression name

/-- A `p` or `P` and a property expression in braces. -/
def property : Form Char := fun c p q =>
  c ∈ ['p', 'P'] ∧ ∃ e, PropertyExpression e ∧ word ([c, '{'] ++ e ++ ['}']) p q

/-! ## Names of groups -/

/-- A character of a name that `P` holds of, as itself or as an escape. -/
inductive NameCharacter (mode : Mode) (P : Nat → Bool) : Form Char
  | literal {c : Char} {p q : Text} :
      c ≠ '\\' → P c.toNat = true → word [c] p q → NameCharacter mode P c p q
  | escaped {c : Char} {p q : Text} :
      P c.toNat = true → after ['\\'] (UnicodeEscape mode) c.toNat p q →
      NameCharacter mode P c p q

/-- No name goes on with the bracket that closes it. -/
theorem not_nameCharacter_of_close {mode : Mode} {c : Char} {p q r : Text} (h : word ['>'] p q) :
    ¬ NameCharacter mode Identifier.continuesName c p r := by
  intro hc
  cases hc with
  | literal _ hP hp =>
    have heq := h.symm.trans hp
    rw [← (List.cons.inj heq).1] at hP
    exact absurd hP (by decide)
  | escaped _ hp =>
    rcases hp with ⟨t, hback, -⟩
    have heq := h.symm.trans hback
    exact absurd (List.cons.inj heq).1 (by decide)

/-- A name in angle brackets. -/
inductive GroupName (mode : Mode) : Form String
  | mk {c : Char} {cs : List Char} {p t t' r q : Text} :
      word ['<'] p t → NameCharacter mode Identifier.startsName c t t' →
      Repeats (NameCharacter mode Identifier.continuesName) cs t' r → word ['>'] r q →
      GroupName mode (.ofList (c :: cs)) p q

/-- No name starts with a sign of equality or an exclamation mark, which open look-behinds. -/
theorem not_groupName_of_lookbehind {mode : Mode} {name : String} {c : Char} {p q t : Text}
    (hp : word ['<', c] p t) (hc : c ∈ ['=', '!']) : ¬ GroupName mode name p q := by
  intro h
  cases h with
  | mk hopen hname _ _ =>
    have hs := word_rest (v := ['<']) (w := [c]) hopen hp
    cases hname with
    | literal _ hP hword =>
      obtain rfl := Char.toNat_inj.1 (List.cons.inj (hs.symm.trans hword)).1
      simp only [List.mem_cons, List.not_mem_nil, or_false] at hc
      rcases hc with rfl | rfl <;> exact absurd hP (by decide)
    | escaped _ hword =>
      rcases hword with ⟨r, hback, -⟩
      exact not_word_of_mem hs hc (by decide) hback

theorem not_groupName_of_word {mode : Mode} {name : String} {c : Char} {w : List Char}
    {p q t : Text} (hp : word (c :: w) p t) (hc : c ≠ '<') : ¬ GroupName mode name p q := by
  intro h
  cases h with
  | mk hopen _ _ _ => exact not_word_of_word hp hc hopen

/-! ## Escapes outside classes -/

/-- A zero, whatever follows, or a number with all its digits, which may be a reference. -/
inductive Decimal : Form Evidence
  | zero {p q : Text} : word ['0'] p q → Decimal {} p q
  | number {digits : List Char} {p q : Text} :
      run Char.isDigit digits p q → digits.head? ≠ some '0' →
      Decimal { candidates := [Numeral.value 10 digits] } p q

/-- A `k` and a name. -/
def reference (mode : Mode) : Form Evidence :=
  (after ['k'] (GroupName mode)).map fun name => { references := [.named name] }

/-- A `k` alone. -/
def malformedReference : Form Evidence := fun e p q =>
  e = { references := [.malformed] } ∧ word ['k'] p q

/-! ## First characters -/

theorem opens_control : control.Opens ['f', 'n', 'r', 't', 'v'] := by
  intro n p q h
  rcases h with ⟨c, hc, h⟩
  have hmem : c ∈ controls.map Prod.fst := List.mem_map.2 ⟨(c, n), hc, rfl⟩
  exact ⟨c, hmem, q, h⟩

theorem opens_controlLetter : controlLetter.Opens ['c'] := by
  intro n p q h
  rcases h with ⟨letter, -, -, h⟩
  exact opens_word n p q h

theorem opens_classControl : classControl.Opens ['c'] := by
  intro n p q h
  rcases h with ⟨c, -, -, h⟩
  exact opens_word n p q h

theorem opens_null : null.Opens ['0'] := by
  intro n p q h
  rcases h with ⟨-, h, -⟩
  exact opens_word n p q h

theorem opens_unicodeEscape {mode : Mode} : (UnicodeEscape mode).Opens ['u'] := by
  intro n p q h
  cases h with
  | unit h _ => exact opens_after n p q h
  | pair _ h _ _ => exact opens_after _ p _ h
  | braced _ _ _ h _ => exact ⟨'u', by simp, _, h⟩

theorem opens_octal : octal.Opens ['0', '1', '2', '3', '4', '5', '6', '7'] := by
  intro n p q h
  rcases h with ⟨first, more, t, hfirst, h, -⟩
  have hrange : 48 ≤ first.toNat ∧ first.toNat ≤ 55 := by
    simpa [Numeral.isOctalDigit, Char.le_def, UInt32.le_iff_toNat_le] using hfirst
  have hmem : first.toNat ∈ Text.ofWord ['0', '1', '2', '3', '4', '5', '6', '7'] := by
    simp [Text.ofWord]
    omega
  exact ⟨first, Text.mem_ofWord.1 hmem, t, h⟩

theorem opens_identity : (identity .unicode).Opens ('/' :: syntaxCharacters .unicode) := by
  intro n p q h
  rcases h with ⟨rfl, hn⟩
  rcases List.mem_map.1 hn with ⟨c, hc, rfl⟩
  exact ⟨c, hc, q, rfl⟩

theorem opens_setLetter : setLetter.Opens ['d', 'D', 's', 'S', 'w', 'W'] := by
  intro c p q h
  rcases h with ⟨hc, h⟩
  exact ⟨c, hc, q, h⟩

theorem opens_property : property.Opens ['p', 'P'] := by
  intro c p q h
  rcases h with ⟨hc, e, -, h⟩
  exact ⟨c, hc, _, h⟩

theorem opens_decimal : Decimal.Opens ['0', '1', '2', '3', '4', '5', '6', '7', '8', '9'] := by
  intro e p q h
  cases h with
  | zero h => exact ⟨'0', by simp, q, h⟩
  | @number digits _ _ h _ =>
    rcases h with ⟨hne, hall, -, h⟩
    cases digits with
    | nil => exact absurd rfl hne
    | cons d digits =>
      have hd := Numeral.toNat_of_isDigit (hall d (by simp))
      -- a first digit is one of the ten; which one does not matter
      have hmem : d.toNat ∈ Text.ofWord ['0', '1', '2', '3', '4', '5', '6', '7', '8', '9'] := by
        simp [Text.ofWord]
        omega
      exact ⟨d, Text.mem_ofWord.1 hmem, _, h⟩

theorem opens_reference {mode : Mode} : (reference mode).Opens ['k'] := opens_after.map _

/-- The escapes outside classes, in the order of precedence that they have in legacy mode. -/
def atomEscapes : Mode → List (Form Evidence)
  | .unicode =>
    [Decimal, setLetter.as {}, property.as {}, control.as {}, controlLetter.as {}, hex.as {},
      (UnicodeEscape .unicode).as {}, (identity .unicode).as {}, reference .unicode]
  | .legacy =>
    [Decimal, setLetter.as {}, control.as {}, controlLetter.as {}, hex.as {},
      (UnicodeEscape .legacy).as {}, (identity .legacy).as {}, reference .legacy,
      malformedReference]

/-- An escape outside classes, and what it says about references. -/
def AtomEscape (mode : Mode) : Form Evidence := Choice mode (atomEscapes mode)

theorem apart_atomEscapes : Apart (atomEscapes .unicode)
    (['0', '1', '2', '3', '4', '5', '6', '7', '8', '9'] ++ (['d', 'D', 's', 'S', 'w', 'W'] ++
      (['p', 'P'] ++ (['f', 'n', 'r', 't', 'v'] ++ (['c'] ++ (['x'] ++ (['u'] ++
        ('/' :: syntaxCharacters .unicode ++ (['k'] ++ []))))))))) :=
  .cons opens_decimal (by decide) <|
  .cons (opens_setLetter.map _) (by decide) <|
  .cons (opens_property.map _) (by decide) <|
  .cons (opens_control.map _) (by decide) <|
  .cons (opens_controlLetter.map _) (by decide) <|
  .cons (opens_after.map _) (by decide) <|
  .cons (opens_unicodeEscape.map _) (by decide) <|
  .cons (opens_identity.map _) (by decide) <|
  .cons opens_reference (by decide) .nil

/-! ## Lengths -/

theorem shrinks_control : control.Shrinks := by
  intro n p q h
  rcases h with ⟨c, -, h⟩
  exact length_lt_of_word h

theorem shrinks_controlLetter : controlLetter.Shrinks := by
  intro n p q h
  rcases h with ⟨letter, -, -, h⟩
  exact length_lt_of_word h

theorem shrinks_classControl : classControl.Shrinks := by
  intro n p q h
  rcases h with ⟨c, -, -, h⟩
  exact length_lt_of_word h

theorem shrinks_null : null.Shrinks := by
  intro n p q h
  rcases h with ⟨-, h, -⟩
  exact length_lt_of_word h

theorem shrinks_hexDigits (k : Nat) : (hexDigits (k + 1)).Shrinks := by
  intro n p q h
  rcases h with ⟨w, -, hlen, -, h⟩
  have := length_of_word h
  omega

theorem shrinks_hex : hex.Shrinks := (shrinks_hexDigits 1).after _

theorem shrinks_unicodeEscape {mode : Mode} : (UnicodeEscape mode).Shrinks := by
  intro n p q h
  cases h with
  | unit h _ => exact (shrinks_hexDigits 3).after _ n p q h
  | pair _ h _ hlow =>
    have := (shrinks_hexDigits 3).after _ _ _ _ h
    have := (shrinks_hexDigits 3).after _ _ _ _ hlow.1
    omega
  | braced _ _ _ h _ => exact length_lt_of_word h

theorem shrinks_octal : octal.Shrinks := by
  intro n p q h
  rcases h with ⟨first, more, t, -, h, ⟨-, -, -, hmore⟩, -⟩
  have := length_lt_of_word h
  have := length_of_word hmore
  omega

theorem shrinks_identity {mode : Mode} : (identity mode).Shrinks := by
  intro n p q h
  rcases h with ⟨rfl, -⟩
  simp

theorem shrinks_setLetter : setLetter.Shrinks := by
  intro c p q h
  rcases h with ⟨-, h⟩
  exact length_lt_of_word h

theorem shrinks_property : property.Shrinks := by
  intro c p q h
  rcases h with ⟨-, e, -, h⟩
  exact length_lt_of_word h

theorem shrinks_nameCharacter {mode : Mode} {P : Nat → Bool} : (NameCharacter mode P).Shrinks := by
  intro c p q h
  cases h with
  | literal _ _ h => exact length_lt_of_word h
  | escaped _ h => exact shrinks_unicodeEscape.after _ _ p q h

theorem shrinks_groupName {mode : Mode} : (GroupName mode).Shrinks := by
  intro name p q h
  cases h with
  | mk hopen hc hcs hclose =>
    have := length_lt_of_word hopen
    have := shrinks_nameCharacter _ _ _ hc
    have := shrinks_nameCharacter.repeats hcs
    have := length_lt_of_word hclose
    omega

theorem shrinks_decimal : Decimal.Shrinks := by
  intro e p q h
  cases h with
  | zero h => exact length_lt_of_word h
  | @number digits _ _ h _ =>
    rcases h with ⟨hne, -, -, h⟩
    have := length_of_word h
    have := List.length_pos_iff.2 hne
    omega

theorem shrinks_malformedReference : malformedReference.Shrinks := by
  intro e p q h
  rcases h with ⟨-, h⟩
  exact length_lt_of_word h

theorem shrinks_atomEscape {mode : Mode} : (AtomEscape mode).Shrinks := by
  refine shrinks_choice fun R hR => ?_
  cases mode with
  | unicode =>
    simp only [atomEscapes, List.mem_cons, List.not_mem_nil, or_false] at hR
    rcases hR with rfl | rfl | rfl | rfl | rfl | rfl | rfl | rfl | rfl
    · exact shrinks_decimal
    · exact shrinks_setLetter.map _
    · exact shrinks_property.map _
    · exact shrinks_control.map _
    · exact shrinks_controlLetter.map _
    · exact shrinks_hex.map _
    · exact shrinks_unicodeEscape.map _
    · exact shrinks_identity.map _
    · exact (shrinks_groupName.after _).map _
  | legacy =>
    simp only [atomEscapes, List.mem_cons, List.not_mem_nil, or_false] at hR
    rcases hR with rfl | rfl | rfl | rfl | rfl | rfl | rfl | rfl | rfl
    · exact shrinks_decimal
    · exact shrinks_setLetter.map _
    · exact shrinks_control.map _
    · exact shrinks_controlLetter.map _
    · exact shrinks_hex.map _
    · exact shrinks_unicodeEscape.map _
    · exact shrinks_identity.map _
    · exact (shrinks_groupName.after _).map _
    · exact shrinks_malformedReference

/-! ## Evidence -/

/-- An escape says nothing about groups. -/
theorem no_group_of_atomEscape {mode : Mode} {e : Evidence} {p q : Text}
    (h : AtomEscape mode e p q) : e.groups = 0 ∧ e.names = [] := by
  have hnone {α : Type} {R : Form α} (h : R.as ({} : Evidence) e p q) :
      e.groups = 0 ∧ e.names = [] := by
    rcases h with ⟨_, rfl, -⟩
    exact ⟨rfl, rfl⟩
  have hdecimal (h : Decimal e p q) : e.groups = 0 ∧ e.names = [] := by cases h <;> exact ⟨rfl, rfl⟩
  have hreference (h : reference mode e p q) : e.groups = 0 ∧ e.names = [] := by
    rcases h with ⟨_, rfl, -⟩
    exact ⟨rfl, rfl⟩
  rcases h.exists_mem with ⟨R, hR, h⟩
  cases mode with
  | unicode =>
    simp only [atomEscapes, List.mem_cons, List.not_mem_nil, or_false] at hR
    rcases hR with rfl | rfl | rfl | rfl | rfl | rfl | rfl | rfl | rfl
    · exact hdecimal h
    iterate 7 exact hnone h
    exact hreference h
  | legacy =>
    simp only [atomEscapes, List.mem_cons, List.not_mem_nil, or_false] at hR
    rcases hR with rfl | rfl | rfl | rfl | rfl | rfl | rfl | rfl | rfl
    · exact hdecimal h
    iterate 6 exact hnone h
    · exact hreference h
    · rw [h.1]
      exact ⟨rfl, rfl⟩

theorem groups_of_atomEscape {mode : Mode} {e : Evidence} {p q : Text}
    (h : AtomEscape mode e p q) : e.groups = 0 := (no_group_of_atomEscape h).1

end EcmaPattern.Language
