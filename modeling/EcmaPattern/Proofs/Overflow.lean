import EcmaPattern.Proofs.Acceptance
import EcmaPattern.Proofs.Checked.Failure
import EcmaPattern.Proofs.Reachable
import EcmaPattern.Proofs.Writing

namespace EcmaPattern

open CodeUnit Checked Recognizer

/-! # Overflow

The model counts in natural numbers and never looks outside the text. A program that adds in
machine words and looks into an array comes to the same, up to one count: for a text of fewer than
`2 ^ 32` units no other sum or product is out of range, no difference is negative and no look is
beyond the end. What may be too much is the count of the digits in braces, from `2 ^ 31` on.
-/

namespace Checked

/-! ## Whole patterns -/

/-- Whether `pattern` is a valid pattern, in a check of which every operation may fail. -/
def accepts? (options : Options) (pattern : String) : Option Bool := do
  let σ := options.settings
  let whole := Grammar.disjunctionParts σ σ.nestingLimit.toNat none
  let found ← whole.checked (Machine.ofState (.start (encode pattern.toList)))
  return found.1.isMatch && (found.2.fault? σ.mode).isNone

theorem accepts?_yields (options : Options) {pattern : String}
    (hlen : (encode pattern.toList).length < 2 ^ 32) :
    Yields options.mode (encode pattern.toList) (accepts? options pattern)
      (accepts options pattern) := by
  have hfault (s : State) :
      ((Machine.ofState s).fault? options.mode).isNone = (s.checkReferences options.mode).1 := by
    change (s.fault? options.mode).isNone = _
    rw [State.checkReferences]
    cases s.fault? options.mode <;> rfl
  refine (checked_ofState
    (Grammar.disjunctionParts options.settings options.settings.nestingLimit.toNat none)
    (State.Ready.start hlen)).bind (.of_eq ?_)
  exact congrArg (fun sound => some (_ && sound)) (hfault _)

/-! ## Depth -/

/-- What is run one level deeper, where groups are open already, and how many are open after it. -/
def nested? (limit : Nat) (p : Nat → Recognizer) (depth : Nat) : Option (Recognizer × Nat) :=
  if limit ≤ depth then
    some (limitReached limit, depth)
  else do
    let next ← add? 64 depth 1
    return (p next, ← sub? next 1)

/-- What stands in parentheses, where `depth` groups are open. -/
def bodyAt (σ : Settings) (depth : Nat) : Recognizer :=
  Grammar.groupBody σ (σ.nestingLimit.toNat - depth)

/-- The depth can be counted: where it grows it is below the limit, which is a number of 64 bits. -/
theorem nested?_eq (σ : Settings) (depth : Nat) :
    nested? σ.nestingLimit.toNat
      (fun depth => Grammar.alternatives σ (bodyAt σ depth) (some [')'])) depth =
        some (bodyAt σ depth, depth) := by
  have hlimit := σ.nestingLimit.toNat_lt
  rw [nested?, bodyAt, Grammar.groupBody_eq_nested]
  split
  next hle =>
    rw [Nat.sub_eq_zero_of_le hle]
    rfl
  next hlt =>
    obtain ⟨room, hroom⟩ : ∃ room, σ.nestingLimit.toNat - depth = room + 1 :=
      Nat.exists_eq_succ_of_ne_zero (by omega)
    have hdeeper : σ.nestingLimit.toNat - (depth + 1) = room := by omega
    have hadd : add? 64 depth 1 = some (depth + 1) := add?_of_lt (by omega)
    have hsub : sub? (depth + 1) 1 = some depth := sub?_of_le (Nat.le_add_left 1 depth)
    simp only [hadd, hsub, Option.bind_eq_bind, Option.bind_some, bodyAt, hdeeper, hroom]
    rfl

/-! ## Too many digits

Where the digits in braces are too many to count, a check has no result. Before the escape in braces
other forms are tried, which all do nothing.
-/

section

variable {units text inside : List CodeUnit} {limit : UInt64} {s : State}

/-- More digits stand in front than can be counted. -/
def Overlong (text : List CodeUnit) : Prop :=
  2 ^ 31 ≤ (Reader.asciiSpan Numeral.isHexDigit text).1.length

theorem bracedDigits?_eq_none (hlen : units.length < 2 ^ 32)
    (htext : encode ['u', '{'] ++ inside <:+ units) (hlong : Overlong inside) :
    bracedDigits? units (units.length - (encode ['u', '{'] ++ inside).length) = none := by
  have hinside : inside <:+ units := (List.suffix_append _ _).trans htext
  have hword : Yields .unicode units _ _ := follows_word ['u', '{'] units _ htext hlen
  have hspan : Yields .unicode units _ _ := follows_span Numeral.isHexDigit hlen hinside
  refine hword.bind_eq_none ?_
  rw [Reader.run_word_eq_some_iff.2 rfl]
  refine hspan.bind_eq_none ?_
  simp only [count?_eq, if_neg (Nat.not_lt.2 hlong)]
  rfl

theorem characterEscape_eq_none (hlen : units.length < 2 ^ 32)
    (htext : encode ['u', '{'] ++ inside <:+ units) (hlong : Overlong inside) :
    (Grammar.characterEscapeParts .unicode).checked units
      (units.length - (encode ['u', '{'] ++ inside).length) = none :=
  firstOfCons_eq_none htext hlen rfl <| firstOfCons_eq_none htext hlen rfl <|
    firstOfCons_eq_none htext hlen rfl <| firstOfCons_eq_none htext hlen rfl <|
    reader_orElse_eq_none <| reader_orElse_eq_none <| reader_bind_eq_none <| by
      rw [Reader.Parts.checked]
      exact bracedDigits?_eq_none hlen htext hlong

/-- The settings of Unicode mode. -/
abbrev strict (limit : UInt64) : Settings := { mode := .unicode, nestingLimit := limit }

theorem idle_of_rest {p : Recognizer} (hrest : s.rest = text) (h : Idle p { s with rest := text }) :
    Idle p s := by
  subst hrest
  exact h

theorem atomEscape_eq_none (hs : s.Ready units) (hrest : s.rest = encode ['u', '{'] ++ inside)
    (hlong : Overlong inside) :
    (Grammar.atomEscapeFormsParts (strict limit)).anyOf.checked (Machine.ofState s) = none := by
  have htext : encode ['u', '{'] ++ inside <:+ units := by
    rw [← hrest, ← hs.text]
    exact hs.suffix
  have hunits : (Machine.ofState s).units = units := hs.text
  have hposition : (Machine.ofState s).position =
      units.length - (encode ['u', '{'] ++ inside).length := by
    change s.text.length - s.rest.length = _
    rw [hs.text, hrest]
  have hdecimal : Idle Grammar.decimalEscape s := idle_of_rest hrest rfl
  have hset : Idle (Grammar.setEscape (strict limit)) s := idle_of_rest hrest rfl
  refine orElse_eq_none_of_idle hs hdecimal <| orElse_eq_none_of_idle hs hset <| orElse_eq_none <|
    reading_eq_none <| reader_bind_eq_none ?_
  rw [hunits, hposition]
  exact characterEscape_eq_none hs.length htext hlong

theorem escapedAtom_eq_none (hs : s.Ready units)
    (hrest : s.rest = encode ['\\', 'u', '{'] ++ inside) (hlong : Overlong inside) :
    (Grammar.escapedAtomParts (strict limit)).checked (Machine.ofState s) = none := by
  have hback : (Reader.word ['\\']).run s.rest = some ((), encode ['u', '{'] ++ inside) :=
    Reader.run_word_eq_some_iff.2 hrest
  have hnext : State.Ready units { s with rest := encode ['u', '{'] ++ inside } :=
    hs.advances <| (State.holdsAlong_advances .unicode).of_run (.word ['\\']) hback
  exact attempt_eq_none <| reading_word_eq_none hs hrest <| atomEscape_eq_none hnext rfl hlong

theorem term_eq_none {body : Recognizer} (hbody : body.Parts .unicode) (hs : s.Ready units)
    (hrest : s.rest = encode ['\\', 'u', '{'] ++ inside) (hlong : Overlong inside) :
    (Grammar.termParts (σ := strict limit) hbody).checked (Machine.ofState s) = none := by
  have hassertion : Idle (Grammar.assertion (strict limit) body) s := idle_of_rest hrest rfl
  have hliteral : Idle (character (Grammar.patternCharacter .unicode)) s := idle_of_rest hrest rfl
  have hdot : Idle (plain (Reader.word ['.'])) s := idle_of_rest hrest rfl
  exact orElse_eq_none_of_idle hs hassertion <| orElse_eq_none <| attempt_eq_none <|
    followedBy_eq_none <| orElse_eq_none_of_idle hs hliteral <| orElse_eq_none_of_idle hs hdot <|
    orElse_eq_none <| escapedAtom_eq_none hs hrest hlong

theorem disjunction_eq_none (hs : s.Ready units)
    (hrest : s.rest = encode ['\\', 'u', '{'] ++ inside) (hlong : Overlong inside) (room : Nat) :
    (Grammar.disjunctionParts (strict limit) room none).checked (Machine.ofState s) = none := by
  have hends : ¬ Grammar.alternativeEnds none s = true := by
    rw [Grammar.alternativeEnds, Cursor.isAt, Cursor.atEnd, hrest]
    exact Bool.false_ne_true
  refine bounded_eq_none hs ?_
  rw [hrest]
  refine ofEq_eq_none <| followedBy_eq_none <| bounded_eq_none hs ?_
  rw [hrest]
  exact ite_eq_none_of_not hs hends <| followedBy_eq_none <| term_eq_none _ hs hrest hlong

/-- A check of a pattern that starts with too many digits in braces has no result. -/
theorem accepts?_eq_none (limit : UInt64) {digits after : List Char}
    (hall : ∀ d ∈ digits, Numeral.isHexDigit d = true) (hmany : 2 ^ 31 ≤ digits.length)
    (hlen : (encode (['\\', 'u', '{'] ++ digits ++ after)).length < 2 ^ 32) :
    accepts? { mode := .unicode, nestingLimit := limit }
      (String.ofList (['\\', 'u', '{'] ++ digits ++ after)) = none := by
  have htext : encode (['\\', 'u', '{'] ++ digits ++ after) =
      encode ['\\', 'u', '{'] ++ (encode digits ++ encode after) := by
    rw [encode_append, encode_append, List.append_assoc]
  have hlong : Overlong (encode digits ++ encode after) :=
    Nat.le_trans hmany (Reader.le_length_asciiSpan Grammar.isAscii_isHexDigit hall _)
  have hdisjunction : (Grammar.disjunctionParts (strict limit) limit.toNat none).checked _ = none :=
    disjunction_eq_none (State.Ready.start hlen) htext hlong limit.toNat
  rw [accepts?, String.toList_ofList]
  simp only [Options.settings]
  rw [hdisjunction]
  rfl

end

end Checked

/-! ## Digits in braces alone -/

theorem ascii_escapedBraces {digits : List Char}
    (hall : ∀ d ∈ digits, Numeral.isHexDigit d = true) :
    ∀ c ∈ ['\\', 'u', '{'] ++ digits ++ ['}'], c.toNat < 0x80 :=
  List.forall_mem_cons.2 ⟨by decide, Language.ascii_bracedWord hall⟩

/-- An escape in braces alone is a pattern. -/
theorem isPattern_of_braced (limit : UInt64) {digits : List Char}
    (hcount : ¬ 2 ^ 32 ∣ digits.length) (hall : ∀ d ∈ digits, Numeral.isHexDigit d = true)
    (hle : Numeral.value 16 digits ≤ 0x10FFFF) :
    isPattern (strict limit) (encode (['\\', 'u', '{'] ++ digits ++ ['}'])) = true := by
  have hword : Form.word (['\\'] ++ Language.bracedWord digits)
      (decode .unicode (encode (['\\', 'u', '{'] ++ digits ++ ['}']))) (decode .unicode []) :=
    (word_decode_iff (whole_of_ascii (ascii_escapedBraces hall))).2 (List.append_nil _).symm
  rcases Form.word_append.1 hword with ⟨t, hback, hbraced⟩
  have hescape : Language.AtomEscape .unicode {} t [] :=
    ⟨(Language.UnicodeEscape .unicode).as {}, by simp [Language.atomEscapes], _, rfl,
      .braced rfl hcount hall (decode_nil .unicode ▸ hbraced) hle⟩
  have hatom : Language.Derives .unicode limit.toNat .atom {} (decode .unicode _) [] :=
    .escape (fun hlegacy => absurd hlegacy (by decide)) ⟨t, hback, hescape⟩
  exact isPattern_of_atom hatom

/-! ## Runs in numbers of a fixed width -/

/-- A check in numbers of a fixed width has the result of the model, unless in Unicode mode there
are `2 ^ 31` or more digits after some brace: the places and the groups are counted, so is the depth
of nested groups from zero on, and so are the numbers of escapes. All single characters that
recognizers find are characters of the mode. -/
theorem overflow_only_in_braces (options : Options) (pattern : String)
    (hlen : (encode pattern.toList).length < 2 ^ 32) :
    let σ := options.settings
    let inside (depth : Nat) := Grammar.alternatives σ (bodyAt σ depth)
    Yields options.mode (encode pattern.toList) (accepts? options pattern)
        (accepts options pattern) ∧
      (∀ text, recognize σ text = inside 0 none (.start text)) ∧
      (∀ depth, nested? σ.nestingLimit.toNat (inside · (some [')'])) depth =
        some (bodyAt σ depth, depth)) ∧
      EscapesExact ∧
      ∀ {p : Recognizer} (parts : p.Parts σ.mode), Grammar.Production σ parts →
        ∀ s, (p s).1.InRange σ.mode :=
  ⟨accepts?_yields options hlen, fun _ => rfl, nested?_eq options.settings, escapesExact,
    fun _ h => h.keeps.inRange⟩

/-- The second pattern ends in the middle of an escape. -/
theorem escapes_without_overflow :
    let options : Options := { mode := .unicode, nestingLimit := 1 }
    let whole := "(?<a>\\uD83D\\uDCA9|💩)\\k<a>\\1[\\x41-\\u\x7b10FFFF\x7d]"
    let truncated := "\\99999999999\\uD83D\\u"
    (encode whole.toList).length < 2 ^ 32 ∧ accepts? options whole = some true ∧
      (encode truncated.toList).length < 2 ^ 32 ∧ accepts? options truncated = some false := by
  intro options whole truncated
  have hwhole : (encode whole.toList).length < 2 ^ 32 := by decide
  have htruncated : (encode truncated.toList).length < 2 ^ 32 := by decide
  have haccepts : accepts options whole = true := by decide +kernel
  have hrejects : accepts options truncated = false := by decide +kernel
  refine ⟨hwhole, ?_, htruncated, ?_⟩
  · rw [(overflow_only_in_braces options whole hwhole).1.eq_some
      (countable_of_length_lt (by decide)), haccepts]
  · rw [(overflow_only_in_braces options truncated htruncated).1.eq_some
      (countable_of_length_lt (by decide)), hrejects]

/-- So many zeros are a pattern, but their count wraps around, and a check that sees it has no
result. -/
theorem zeros_in_braces_overflow :
    let options : Options := { mode := .unicode, nestingLimit := 256 }
    let zeros := List.replicate (2 ^ 31) '0'
    let pattern := String.ofList (['\\', 'u', '{'] ++ zeros ++ ['}'])
    (encode pattern.toList).length < 2 ^ 32 ∧ accepts options pattern = true ∧
      Numeral.count zeros = Int32.minValue ∧ accepts? options pattern = none := by
  intro options zeros pattern
  have hlength : zeros.length = 2 ^ 31 := List.length_replicate
  have hall : ∀ d ∈ zeros, Numeral.isHexDigit d = true :=
    fun d => Numeral.isHexDigit_of_mem_zeros
  have hvalue : Numeral.value 16 zeros = 0 := Numeral.value_zeros 16 (2 ^ 31)
  have hcount : Numeral.count zeros = Int32.minValue := by
    rw [Numeral.count_eq, hlength]
    decide
  -- from here on the zeros are any digits with these properties
  clear_value zeros
  have hlen : (encode (['\\', 'u', '{'] ++ zeros ++ ['}'])).length < 2 ^ 32 := by
    rw [length_encode_of_ascii (ascii_escapedBraces hall), List.length_append, List.length_append,
      hlength]
    decide
  refine ⟨?_, ?_, hcount, ?_⟩
  · rwa [String.toList_ofList]
  · rw [accepts, String.toList_ofList]
    exact isPattern_of_braced 256 (by rw [hlength]; decide) hall (by rw [hvalue]; decide)
  · exact accepts?_eq_none 256 hall (Nat.le_of_eq hlength.symm) hlen

end EcmaPattern
