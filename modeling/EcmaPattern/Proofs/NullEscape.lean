import EcmaPattern.Proofs.Alternation
import EcmaPattern.Proofs.Recognition.Idle
import EcmaPattern.Proofs.Scan.Place

namespace EcmaPattern

open CodeUnit Form Recognizer
open EcmaPattern.Scan (Flags)

/-! # Null escapes

The escape `\0` stands for the null character where no digit follows. In classes this is so. Outside
of classes decimal escapes are tried first, and they take a zero without a look at what follows it,
so that a digit after `\0` is a character of its own.
-/

variable {σ : Settings} {body : Recognizer} {s : State} {rest : List CodeUnit} {q : Text}

/-! ## In classes -/

namespace Language

/-- The null escape is the only escape of a class that starts with a digit. -/
theorem null_of_classEscape (h : (ClassEscape .unicode).Applies ('0'.toNat :: q)) :
    null.Applies ('0'.toNat :: q) := by
  have hnull : (null.map some).Applies ('0'.toNat :: []) :=
    applies_map.2 ⟨0, [], rfl, rfl, Text.not_startsWith_nil⟩
  rcases h with ⟨v, r, R, hR, h⟩
  obtain rfl : R = null.map some :=
    Grammar.apart_classEscapes.eq_of_applies hR (by simp [classEscapes]) ⟨v, r, h⟩ hnull
  exact applies_map.1 ⟨v, r, h⟩

end Language

/-! ## Outside of classes -/

namespace Grammar

/-- A decimal escape takes a zero, whatever follows. -/
theorem decimalEscape_of_zero (h : s.rest = encode ['0'] ++ rest) :
    decimalEscape s = (.codePoint 0, { s with rest }) := by
  have hword : word ['0'] (decode .unicode s.rest) (decode .unicode rest) :=
    (word_decode_iff (whole_of_ascii (by decide))).2 h
  have hzero : (Reader.wordAs ['0'] 0).run s.rest = some (0, rest) :=
    (Reader.reads_wordAs (by decide) 0).run_eq_some_iff.2 ⟨rfl, hword⟩
  have hmatch : character (Reader.wordAs ['0'] 0) s = (.codePoint 0, { s with rest }) :=
    ofReader_map_of_some hzero
  rw [decimalEscape, anyOf_cons_of_match (by rw [hmatch]; rfl), hmatch]

theorem escapedAtom_of_zero (h : s.rest = encode ['\\', '0'] ++ rest) :
    escapedAtom σ s = (.codePoint 0, { s with rest }) := by
  have hback : (Reader.word ['\\']).run s.rest = some ((), encode ['0'] ++ rest) :=
    Reader.run_word_eq_some_iff.2 h
  have hzero := decimalEscape_of_zero (s := { s with rest := encode ['0'] ++ rest }) rfl
  have hforms : anyOf (atomEscapeForms σ) { s with rest := encode ['0'] ++ rest } =
      (.codePoint 0, { s with rest }) := by
    rw [atomEscapeForms, anyOf_cons_of_match (by rw [hzero]; rfl), hzero]
  have hreading : Recognizer.reading (Reader.word ['\\']) (fun _ => anyOf (atomEscapeForms σ)) s =
      (.codePoint 0, { s with rest }) := by
    simp only [Recognizer.reading, hback, hforms]
  rw [escapedAtom, attempt_of_match (by rw [hreading]; rfl), hreading]

/-- In Unicode mode a backslash and a zero are an atom, whatever follows. -/
theorem atom_of_zero (hmode : σ.mode = .unicode) (h : s.rest = encode ['\\', '0'] ++ rest) :
    atom σ body s = (.codePoint 0, { s with rest }) := by
  have hback : word ['\\', '0'] (decode .unicode s.rest) (decode .unicode rest) :=
    (word_decode_iff (whole_of_ascii (by decide))).2 h
  have hliteral : Idle (character (patternCharacter .unicode)) s :=
    traceless_patternCharacter.confined.idle (avoids_literal (by decide) _ ⟨_, hback⟩)
  have hconfined : ConfinedTo .unicode _ (plain (Reader.word ['.'])) := confinedTo_dot
  have hdot : Idle (plain (Reader.word ['.'])) s :=
    hconfined.idle fun ⟨t, ht⟩ => not_word_of_word hback (by decide) ht
  have hescaped := escapedAtom_of_zero (σ := σ) h
  rw [atom, atomForms, hmode]
  change anyOf ([_, _] ++ _) s = _
  rw [anyOf_append_of_idle (by simpa using ⟨hliteral, hdot⟩),
    anyOf_cons_of_match (by rw [hescaped]; rfl), hescaped]

end Grammar

namespace Language

theorem derives_digits {room : Nat} {digits : List Char} (h : ∀ d ∈ digits, d.isDigit = true) :
    Derives .unicode room .alternative {} (Text.ofWord digits) [] := by
  have hspecial : ∀ c ∈ syntaxCharacters .unicode, c.isDigit = false := by decide
  induction digits with
  | nil => exact .nil
  | cons d digits ih =>
    rw [List.forall_mem_cons] at h
    have hplain : d.toNat ∉ Text.ofWord (syntaxCharacters .unicode) := by
      intro hmem
      rw [hspecial d (Text.mem_ofWord.1 hmem)] at h
      exact absurd h.1 (by decide)
    exact .cons (.plain (quantifiable_atom .unicode) (.character hplain nofun) nofun) (ih h.2)

/-- A zero after a backslash, and any digits. -/
theorem derives_zero_digits {room : Nat} {digits : List Char}
    (h : ∀ d ∈ digits, d.isDigit = true) :
    Derives .unicode room .disjunction {} (Text.ofWord ('\\' :: '0' :: digits)) [] := by
  have hstrict {P : Prop} (hmode : Mode.unicode = .legacy) : P := absurd hmode (by decide)
  have hzero : AtomEscape .unicode {} (Text.ofWord ('0' :: digits)) (Text.ofWord digits) :=
    ⟨Decimal, by simp [atomEscapes], .zero rfl⟩
  have hatom : Derives .unicode room .atom {} (Text.ofWord ('\\' :: '0' :: digits))
      (Text.ofWord digits) := .escape hstrict ⟨_, rfl, hzero⟩
  exact .single (.cons (.plain (quantifiable_atom .unicode) hatom hstrict) (derives_digits h))

end Language

/-! ## Patterns -/

/-- In Unicode mode no digit follows the escape `\0` in a class of a pattern. Outside of classes the
escape is an atom whatever follows it, so any digits may follow. -/
theorem null_escape_readings (limit : UInt64) :
    let options : Options := { mode := .unicode, nestingLimit := limit }
    (∀ pattern before rest d, pattern.toList = before ++ '\\' :: '0' :: d :: rest →
      d.isDigit = true → Flags.after {} (Text.ofWord before) = { inClass := true } →
      accepts options pattern = false) ∧
    (∀ body s rest, s.rest = encode ['\\', '0'] ++ rest →
      Grammar.atom options.settings body s = (.codePoint 0, { s with rest })) ∧
    ∀ digits, (∀ d ∈ digits, d.isDigit = true) →
      accepts options (String.ofList ('\\' :: '0' :: digits)) = true := by
  intro options
  refine ⟨?inClass, fun body s rest h => Grammar.atom_of_zero rfl h, ?outside⟩
  case inClass =>
    intro pattern before rest d hsplit hdigit hplace
    rw [Bool.eq_false_iff]
    intro h
    have hescaped := Scan.escaped_of_accepts h hsplit (List.cons_ne_nil _ _) (by rw [hplace])
    rw [hplace] at hescaped
    rcases Language.null_of_classEscape ((hescaped.applies (by decide)).2 rfl) with
      ⟨n, q, -, hzero, hnone⟩
    obtain rfl : Text.ofWord (d :: rest) = q := (List.cons.inj hzero).2
    exact hnone ⟨d, _, hdigit, rfl⟩
  case outside =>
    intro digits h
    have hderives : Language.Derives .unicode limit.toNat .disjunction {}
        (decode .unicode (encode (String.ofList ('\\' :: '0' :: digits)).toList)) [] := by
      rw [String.toList_ofList, decode_unicode_encode]
      exact Language.derives_zero_digits h
    refine (accepts_iff_of_derives List.nodup_nil hderives fun _ => by decide).2 ?_
    exact ⟨fun _ => nofun, fun _ => nofun⟩

/-- A digit after the escape, in a class and after it. -/
theorem null_escape_before_digit :
    let options : Options := { mode := .unicode, nestingLimit := 1 }
    accepts options "a[\\d\\01]" = false ∧ accepts options "\\01" = true ∧
      Grammar.atom options.settings (Grammar.groupBody options.settings 1)
        (.start (encode "\\01".toList)) =
        (.codePoint 0, { State.start (encode "\\01".toList) with rest := encode ['1'] }) := by
  intro options
  obtain ⟨hclass, hatom, hdigits⟩ := null_escape_readings 1
  have hsplit : "a[\\d\\01]".toList = "a[\\d".toList ++ '\\' :: '0' :: '1' :: [']'] := by
    decide +kernel
  have htext : String.ofList ('\\' :: '0' :: ['1']) = "\\01" := by decide +kernel
  refine ⟨hclass _ _ _ _ hsplit (by decide) (by decide +kernel), ?_, ?_⟩
  · exact htext ▸ hdigits ['1'] (by decide)
  · exact hatom _ _ _ (by decide +kernel)

/-- Not every text with a digit after the escape is refused: one where it stands in no class. -/
theorem accepts_digit_after_null_escape :
    ¬ ∀ (limit : UInt64) (pattern : String) (before rest : List Char) (d : Char),
      pattern.toList = before ++ '\\' :: '0' :: d :: rest → d.isDigit = true →
      (Flags.after {} (Text.ofWord before)).escaped = false →
      accepts { mode := .unicode, nestingLimit := limit } pattern = false := by
  intro h
  have hrefused := h 256 "\\00" [] [] '0' (by decide +kernel) (by decide) rfl
  have haccepted : accepts { mode := .unicode, nestingLimit := 256 } "\\00" = true := by
    decide +kernel
  rw [haccepted] at hrefused
  contradiction

end EcmaPattern
