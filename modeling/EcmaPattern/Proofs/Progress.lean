import EcmaPattern.Proofs.Recognition.Frame
import EcmaPattern.Proofs.Run.Loop

namespace EcmaPattern

open CodeUnit Recognizer

/-! # Progress

What a term matches is never empty, nor is a class atom or a character of a name. So each round of a
loop over them leaves fewer units, and the loops end with what the recognizers find.
-/

/-! ## What is taken -/

/-- A place with fewer characters ahead is further on. -/
theorem CodeUnit.length_lt_of_decode {mode : Mode} {text rest : List CodeUnit} (h : rest <:+ text)
    (hlt : (decode mode rest).length < (decode mode text).length) : rest.length < text.length := by
  rcases Nat.lt_or_ge rest.length text.length with hlen | hlen
  · exact hlen
  · rw [h.eq_of_length_le hlen] at hlt
    exact absurd hlt (Nat.lt_irrefl _)

namespace Reader

variable {mode : Mode} {α : Type} {r : Reader α} {R : Form α}

theorem length_lt_of_run_word {c : Char} {text rest : List CodeUnit}
    (h : (word [c]).run text = some ((), rest)) : rest.length < text.length := by
  obtain rfl := Reader.run_word_eq_some_iff.1 h
  rw [encode_cons, encode_nil, List.append_nil, List.length_append]
  unfold ofChar
  split <;> simp

theorem Consumes.of_reads (parts : r.Parts mode) (hr : Reads mode r R) (hR : R.Shrinks) :
    r.Consumes := by
  intro text a rest hrun
  exact length_lt_of_decode (parts.suffix_of_run hrun) (hR _ _ _ (hr.sound hrun))

end Reader

namespace Recognizer

/-- Where the recognizer matches, it takes at least one unit. -/
def Consumes (p : Recognizer) : Prop :=
  ∀ s : State, (p s).1.isMatch = true → (p s).2.rest.length < s.rest.length

variable {mode : Mode} {α : Type} {m : Meaning α} {p : Recognizer} {R : Form α}

theorem Consumes.of_recognizes (parts : p.Parts mode) (hp : Recognizes mode m p R)
    (hR : R.Shrinks) : p.Consumes := by
  intro s hmatch
  have hsuffix : (p s).2.rest <:+ s.rest := ((holdsAlong_extends mode).of_parts parts s).rest
  rcases (hp s).sound hmatch with ⟨a, rest, -, hstate, hfound, -⟩
  rw [hstate] at hsuffix ⊢
  exact length_lt_of_decode hsuffix (hR _ _ _ hfound)

end Recognizer

namespace Grammar

variable {σ : Settings} {mode : Mode} {room : Nat} {closer : Option (List Char)}

theorem consumes_nameCharacter (p : Nat → Bool) : (nameCharacter mode p).Consumes :=
  .of_reads (nameCharacterParts p) (reads_nameCharacter p) Language.shrinks_nameCharacter

theorem consumes_classAtom : (classAtom σ).Consumes :=
  .of_recognizes (classAtomParts σ) (recognizes_classAtom rfl) Language.shrinks_classAtom

theorem consumes_classAtomNoDash : (classAtomNoDash σ).Consumes :=
  .of_recognizes (classAtomNoDashParts σ) (recognizes_classAtomNoDash rfl)
    Language.shrinks_classAtomNoDash

/-- A term takes at least one unit. -/
theorem consumes_term : (term σ (groupBody σ room)).Consumes :=
  .of_recognizes (termParts (groupBodyParts σ room))
    (recognizes_term rfl (recognizes_groupBody rfl room))
    fun _ _ _ h => (Language.length_of_derives (x := .term) h.derives).2 trivial

/-! ## Terms and alternatives -/

section

variable (σ : Settings) (body : Recognizer) (closer : Option (List Char))

/-- A round of the loop over terms. -/
def alternativeRound (s : State) : (Outcome × State) ⊕ State :=
  if alternativeEnds closer s then
    .inl (.matched, s)
  else
    let found := term σ body s
    if found.1.isMatch then .inr found.2 else .inl found

/-- A round of the loop over alternatives. -/
def alternativesRound (s : State) : (Outcome × State) ⊕ State :=
  match closer.bind fun w => (Reader.word w).run s.rest with
  | some (_, rest) => .inl (.matched, { s with rest })
  | none =>
    let found := alternative σ body closer s
    if found.1.isMatch then
      match (Reader.word ['|']).run found.2.rest with
      | some (_, rest) => .inr { found.2 with rest }
      | none => .inl (plain (closing closer) found.2)
    else
      .inl found

end

section

variable {body : Recognizer}

theorem alternativeRound_decreases (hterm : (term σ body).Consumes) :
    ∀ s s', alternativeRound σ body closer s = .inr s' → s'.rest.length < s.rest.length := by
  intro s s' h
  rw [alternativeRound] at h
  split at h
  · contradiction
  · simp only at h
    split at h
    next hmatch =>
      obtain rfl := Sum.inr.inj h
      exact hterm s hmatch
    next => contradiction

theorem loopEnds_alternative (hterm : (term σ body).Consumes) {bound : List CodeUnit} {s : State}
    (hlen : s.rest.length ≤ bound.length) :
    LoopEnds (alternativeRound σ body closer) s (alternativeWithin σ body closer bound s) := by
  induction bound generalizing s with
  | nil =>
    -- with no bound left the text has ended, and with it the alternative
    have hnil : s.rest = [] := List.length_eq_zero_iff.1 (Nat.le_zero.1 hlen)
    have hends : alternativeEnds closer s = true := by simp [alternativeEnds, Cursor.atEnd, hnil]
    refine .done ?_
    rw [alternativeRound, alternativeWithin, if_pos hends, if_pos hends]
  | cons u bound ih =>
    rw [alternativeWithin]
    cases hends : alternativeEnds closer s with
    | true => exact .done (by simp [alternativeRound, hends])
    | false =>
      cases hmatch : (term σ body s).1.isMatch with
      | false => exact .done (by simp [alternativeRound, hends, hmatch])
      | true =>
        have hlt := hterm s hmatch
        simp only [List.length_cons] at hlen
        have hround : alternativeRound σ body closer s = .inr (term σ body s).2 := by
          simp [alternativeRound, hends, hmatch]
        simpa [hmatch] using LoopEnds.goesOn hround (ih (by omega))

/-- An alternative is what the loop over terms finds. -/
theorem runsOut_alternative (hterm : (term σ body).Consumes) (s : State) :
    RunsOut (alternativeRound σ body closer) (fun s => s.rest.length) s
      (alternative σ body closer s) where
  decreases := alternativeRound_decreases hterm
  ends := loopEnds_alternative hterm (Nat.le_refl _)

theorem alternativesRound_decreases (inside : body.Parts σ.mode) :
    ∀ s s', alternativesRound σ body closer s = .inr s' → s'.rest.length < s.rest.length := by
  intro s s' h
  have hrest : (alternative σ body closer s).2.rest.length ≤ s.rest.length :=
    ((holdsAlong_extends σ.mode).of_parts (alternativeParts inside closer) s).rest.length_le
  rw [alternativesRound] at h
  split at h
  · contradiction
  · simp only at h
    split at h
    · split at h
      next hbar =>
        obtain rfl := Sum.inr.inj h
        exact Nat.lt_of_lt_of_le (Reader.length_lt_of_run_word hbar) hrest
      next => contradiction
    · contradiction

theorem loopEnds_alternatives (inside : body.Parts σ.mode) {bound : List CodeUnit} {s : State}
    (hlen : s.rest.length ≤ bound.length) :
    LoopEnds (alternativesRound σ body closer) s (alternativesWithin σ body closer bound s) := by
  induction hs : s.rest.length using Nat.strongRecOn generalizing s bound with
  | ind n ih =>
    subst hs
    cases hclosing : closer.bind fun w => (Reader.word w).run s.rest with
    | some found =>
      refine .done ?_
      rw [alternativesRound, alternativesWithin.eq_def, hclosing]
    | none =>
      rw [alternativesWithin_eq_followedBy hclosing]
      have hrest : (alternative σ body closer s).2.rest.length ≤ s.rest.length :=
        ((holdsAlong_extends σ.mode).of_parts (alternativeParts inside closer) s).rest.length_le
      cases hmatch : (alternative σ body closer s).1.isMatch with
      | false =>
        rw [followedBy_of_noMatch hmatch]
        exact .done (by simp [alternativesRound, hclosing, hmatch])
      | true =>
        rw [followedBy_of_match hmatch]
        cases hbar : (Reader.word ['|']).run (alternative σ body closer s).2.rest with
        | none =>
          rw [afterAlternative_of_none hbar]
          exact .done (by simp [alternativesRound, hclosing, hmatch, hbar])
        | some found =>
          rcases found with ⟨_, rest⟩
          have hlt : rest.length < s.rest.length :=
            Nat.lt_of_lt_of_le (Reader.length_lt_of_run_word hbar) hrest
          cases bound with
          | nil => exact absurd (Nat.lt_of_lt_of_le hlt hlen) (Nat.not_lt_zero _)
          | cons u bound =>
            have hround : alternativesRound σ body closer s =
                .inr { (alternative σ body closer s).2 with rest } := by
              simp [alternativesRound, hclosing, hmatch, hbar]
            have hbound : rest.length ≤ bound.length := by
              rw [List.length_cons] at hlen
              omega
            refine .goesOn hround ?_
            simp only [afterAlternative, hbar]
            exact ih rest.length hlt hbound rfl

/-- A disjunction is what the loop over alternatives finds. -/
theorem runsOut_alternatives (inside : body.Parts σ.mode) (s : State) :
    RunsOut (alternativesRound σ body closer) (fun s => s.rest.length) s
      (alternatives σ body closer s) where
  decreases := alternativesRound_decreases inside
  ends := loopEnds_alternatives inside (Nat.le_refl _)

end

/-! ## Class atoms -/

/-- What a round does that has looked for the next atom: without one the loop ends. -/
def roundFrom (found : Outcome × State) : (Outcome × State) ⊕ (Outcome × State) :=
  if found.1.isMatch then .inr found else .inl (.noMatch, found.2)

/-- What a round does after the dash of a range. -/
def rangeRound (σ : Settings) (low : Outcome) (s : State) :
    (Outcome × State) ⊕ (Outcome × State) :=
  let high := classAtom σ s
  if !high.1.isMatch || !isRange σ.mode low high.1 then
    .inl (.noMatch, high.2)
  else if high.2.isAt [']'] then
    .inl (.matched, high.2)
  else
    roundFrom (classAtom σ high.2)

/-- A round of the loop over class atoms, from an atom that was found to the next one. -/
def classRangesRound (σ : Settings) : Outcome × State → (Outcome × State) ⊕ (Outcome × State) :=
  fun (low, s) =>
    if s.isAt [']'] then
      .inl (.matched, s)
    else
      match (Reader.word ['-']).run s.rest with
      | none => roundFrom (classAtomNoDash σ s)
      | some (_, rest) =>
        if ({ s with rest } : State).isAt [']'] then
          .inl (.matched, { s with rest })
        else
          rangeRound σ low { s with rest }

theorem roundFrom_eq_inr {found next : Outcome × State} (h : roundFrom found = .inr next) :
    found.1.isMatch = true ∧ found = next := by
  rw [roundFrom] at h
  split at h
  next hmatch => exact ⟨hmatch, Sum.inr.inj h⟩
  next => contradiction

theorem rangeRound_decreases {low : Outcome} {s : State} {next : Outcome × State}
    (h : rangeRound σ low s = .inr next) : next.2.rest.length < s.rest.length := by
  simp only [rangeRound] at h
  split at h
  · contradiction
  next hhigh =>
    split at h
    · contradiction
    · rcases roundFrom_eq_inr h with ⟨hmatch, rfl⟩
      have hhigh : (classAtom σ s).1.isMatch = true := by
        cases hhigh' : (classAtom σ s).1.isMatch with
        | true => rfl
        | false => simp [hhigh'] at hhigh
      exact Nat.lt_trans (consumes_classAtom _ hmatch) (consumes_classAtom s hhigh)

theorem classRangesRound_decreases :
    ∀ b c, classRangesRound σ b = .inr c → c.2.rest.length < b.2.rest.length := by
  rintro ⟨low, s⟩ c h
  simp only [classRangesRound] at h
  split at h
  · contradiction
  · split at h
    · rcases roundFrom_eq_inr h with ⟨hmatch, rfl⟩
      exact consumes_classAtomNoDash s hmatch
    next rest hdash =>
      split at h
      · contradiction
      · exact Nat.lt_trans (rangeRound_decreases h) (Reader.length_lt_of_run_word hdash)

theorem classRangesFrom_eq_of_noMatch {bound : List CodeUnit} {low : Outcome} {s : State}
    (h : low.isMatch = false) : classRangesFrom σ bound low s = (.noMatch, s) := by
  cases bound with
  | nil => rfl
  | cons u bound => simp [classRangesFrom, h]

theorem loopEnds_classRanges {bound : List CodeUnit} {low : Outcome} {s : State}
    (hlow : low.isMatch = true) (hlen : s.rest.length < bound.length) :
    LoopEnds (classRangesRound σ) (low, s) (classRangesFrom σ bound low s) := by
  induction bound generalizing low s with
  | nil => contradiction
  | cons u bound ih =>
    have hgoesOn {found : Outcome × State}
        (hround : classRangesRound σ (low, s) = roundFrom found) :
        LoopEnds (classRangesRound σ) (low, s) (classRangesFrom σ bound found.1 found.2) := by
      cases hmatch : found.1.isMatch with
      | false =>
        rw [classRangesFrom_eq_of_noMatch hmatch]
        exact .done (by simp [hround, roundFrom, hmatch])
      | true =>
        have hnext : classRangesRound σ (low, s) = .inr found := by
          simp [hround, roundFrom, hmatch]
        have hlt := classRangesRound_decreases _ _ hnext
        rw [List.length_cons] at hlen
        simp only at hlt
        exact .goesOn hnext (ih hmatch (by omega))
    cases hat : s.isAt [']'] with
    | true =>
      rw [classRangesFrom_of_close hlow hat]
      exact .done (by simp [classRangesRound, hat])
    | false =>
      cases hdash : (Reader.word ['-']).run s.rest with
      | none =>
        rw [classRangesFrom_of_noDash hlow hat hdash]
        exact hgoesOn (by simp [classRangesRound, hat, hdash])
      | some found =>
        rcases found with ⟨_, rest⟩
        cases hat' : ({ s with rest } : State).isAt [']'] with
        | true =>
          rw [classRangesFrom_of_lastDash hlow hat hdash hat']
          exact .done (by simp [classRangesRound, hat, hdash, hat'])
        | false =>
          have hround : classRangesRound σ (low, s) = rangeRound σ low { s with rest } := by
            simp [classRangesRound, hat, hdash, hat']
          rw [classRangesFrom_of_range hlow hat hdash hat', rangeFrom]
          rw [rangeRound] at hround
          split
          next hhigh => exact .done (by rw [hround, if_pos hhigh])
          next hhigh =>
            rw [if_neg hhigh] at hround
            split
            next hclose => exact .done (by rw [hround, if_pos hclose])
            next hclose => exact hgoesOn (by rw [hround, if_neg hclose])

/-- After the first atom the atoms of a class are what the loop finds. -/
theorem runsOut_classRanges {s : State} (h : (classAtom σ s).1.isMatch = true) :
    RunsOut (classRangesRound σ) (fun b => b.2.rest.length) (classAtom σ s) (classRanges σ s) where
  decreases := classRangesRound_decreases
  ends := loopEnds_classRanges h (consumes_classAtom s h)

/-! ## Digits in braces -/

/-- A round of the loop over hexadecimal digits up to a brace, with their value and their count. -/
def bracedRound :
    Nat × Int32 × List CodeUnit → Option (Nat × List CodeUnit) ⊕ (Nat × Int32 × List CodeUnit) :=
  fun (value, count, text) =>
    match (Reader.word ['}']).run text with
    | some (_, rest) =>
      .inl (if count = 0 ∨ 0x10FFFF < value then none else some (value, rest))
    | none =>
      match (Reader.ascii Numeral.isHexDigit).run text with
      | none => .inl none
      | some (c, rest) => .inr (min 0xFFFFFFFF (value * 16 + Numeral.digitValue c), count + 1, rest)

theorem bracedRound_decreases :
    ∀ b c, bracedRound b = .inr c → c.2.2.length < b.2.2.length := by
  rintro ⟨value, count, text⟩ c h
  simp only [bracedRound] at h
  split at h
  · contradiction
  · split at h
    · contradiction
    next d rest hdigit =>
      obtain rfl := Sum.inr.inj h
      exact Reader.consumes_ascii _ _ _ _ hdigit

/-- What follows the digits in braces, where `count` digits of the value `value` precede them. -/
def bracedEnd (value : Nat) (count : Int32) (found : List Char × List CodeUnit) :
    Option (Nat × List CodeUnit) :=
  match (Reader.word ['}']).run found.2 with
  | some (_, rest) =>
    let n := found.1.foldl (fun v c => min 0xFFFFFFFF (v * 16 + Numeral.digitValue c)) value
    if found.1.foldl (fun k _ => k + 1) count = 0 ∨ 0x10FFFF < n then none else some (n, rest)
  | none => none

/-- A brace is no digit. -/
theorem run_brace_of_digit {text rest : List CodeUnit} {c : Char}
    (h : (Reader.ascii Numeral.isHexDigit).run text = some (c, rest)) :
    (Reader.word ['}']).run text = none := by
  cases hrun : (Reader.word ['}']).run text with
  | none => rfl
  | some found =>
    obtain rfl : text = 0x7D :: found.2 := Reader.run_word_eq_some_iff.1 hrun
    contradiction

theorem loopEnds_braced (value : Nat) (count : Int32) (text : List CodeUnit) :
    LoopEnds bracedRound (value, count, text)
      (bracedEnd value count (Reader.asciiSpan Numeral.isHexDigit text)) := by
  induction hlen : text.length using Nat.strongRecOn generalizing value count text with
  | ind n ih =>
    subst hlen
    cases hdigit : (Reader.ascii Numeral.isHexDigit).run text with
    | none =>
      rw [Reader.asciiSpan_of_run_eq_none hdigit]
      refine .done ?_
      cases hbrace : (Reader.word ['}']).run text with
      | none => simp [bracedRound, bracedEnd, hbrace, hdigit]
      | some found =>
        simp only [bracedRound, bracedEnd, hbrace]
        rfl
    | some found =>
      rcases found with ⟨c, rest⟩
      have hround : bracedRound (value, count, text) =
          .inr (min 0xFFFFFFFF (value * 16 + Numeral.digitValue c), count + 1, rest) := by
        simp [bracedRound, run_brace_of_digit hdigit, hdigit]
      have hnext := ih rest.length (Reader.consumes_ascii _ _ _ _ hdigit)
        (min 0xFFFFFFFF (value * 16 + Numeral.digitValue c)) (count + 1) rest rfl
      rw [Reader.asciiSpan_of_run hdigit]
      exact .goesOn hround hnext

theorem run_bracedEscape (text : List CodeUnit) :
    bracedEscape.run (CodeUnit.encode ['u', '{'] ++ text) =
      bracedEnd 0 0 (Reader.asciiSpan Numeral.isHexDigit text) := by
  rcases hspan : Reader.asciiSpan Numeral.isHexDigit text with ⟨digits, after⟩
  have hword : (Reader.word ['u', '{']).run (CodeUnit.encode ['u', '{'] ++ text) =
      some ((), text) := Reader.run_word_eq_some_iff.2 rfl
  have hdigits : bracedDigits.run (CodeUnit.encode ['u', '{'] ++ text) =
      some ((digits, Numeral.count digits), after) := by
    rw [Reader.run_bracedDigits, hword, Option.map_some]
    simp only [hspan]
  have hescape : bracedEscape.run (CodeUnit.encode ['u', '{'] ++ text) =
      (bracedDigits.run (CodeUnit.encode ['u', '{'] ++ text)).bind fun found =>
      ((Reader.word ['}']).run found.2).bind fun brace =>
      ((guard (found.1.2 ≠ 0 ∧ Numeral.saturated 16 0xFFFFFFFF found.1.1 ≤ 0x10FFFF) :
        Reader Unit).run brace.2).bind fun last =>
          some (Numeral.saturated 16 0xFFFFFFFF found.1.1, last.2) := rfl
  have hguard (p : Prop) [Decidable p] (rest : List CodeUnit) :
      (guard p : Reader Unit).run rest = if p then some ((), rest) else none := by
    unfold guard
    split <;> rfl
  have hcount : digits.foldl (fun k _ => k + 1) 0 = Numeral.count digits := rfl
  have hvalue : digits.foldl (fun v c => min 0xFFFFFFFF (v * 16 + Numeral.digitValue c)) 0 =
      Numeral.saturated 16 0xFFFFFFFF digits := rfl
  rw [hescape, hdigits, Option.bind_some, bracedEnd, hcount, hvalue]
  generalize Numeral.saturated 16 0xFFFFFFFF digits = n
  cases (Reader.word ['}']).run after with
  | none => rfl
  | some found =>
    rw [Option.bind_some, hguard]
    by_cases hnone : Numeral.count digits = 0 ∨ 0x10FFFF < n
    · have hguarded : ¬ (Numeral.count digits ≠ 0 ∧ n ≤ 0x10FFFF) :=
        fun hread => hnone.elim hread.1 (Nat.not_lt.2 hread.2)
      simp only [if_pos hnone, if_neg hguarded, Option.bind_none]
    · have hguarded : Numeral.count digits ≠ 0 ∧ n ≤ 0x10FFFF := by
        rwa [ne_eq, ← Nat.not_lt, ← not_or]
      simp only [if_neg hnone, if_pos hguarded, Option.bind_some]

/-- The escape with braces is what the loop over its digits finds. -/
theorem runsOut_braced (text : List CodeUnit) :
    RunsOut bracedRound (fun b => b.2.2.length) (0, 0, text)
      (bracedEscape.run (CodeUnit.encode ['u', '{'] ++ text)) where
  decreases := bracedRound_decreases
  ends := by
    rw [run_bracedEscape]
    exact loopEnds_braced 0 0 text

end Grammar

end EcmaPattern
