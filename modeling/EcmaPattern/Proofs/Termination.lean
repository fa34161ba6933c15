import Mathlib.Data.List.Forall2
import EcmaPattern.Proofs.Atomicity
import EcmaPattern.Proofs.Progress

namespace EcmaPattern

open CodeUnit Recognizer

/-! # Termination

A disjunction runs terms, and a term runs disjunctions again. That ends because a term opens its
parenthesis before it runs what stands in it: each level starts with less text than the one around
it. So there are no more levels than units, and no more than the limit.
-/

/-! ## Recognizers that differ only before long texts -/

namespace Recognizer

variable {α : Type} {n : Nat} {p q : Recognizer} {ps qs : List Recognizer}

/-- The recognizers do the same wherever fewer than `n` units are left. -/
def AgreeBelow (n : Nat) (p q : Recognizer) : Prop := ∀ s : State, s.rest.length < n → p s = q s

theorem AgreeBelow.attempt (h : AgreeBelow n p q) (rollback : Rollback) :
    AgreeBelow n (attempt rollback p) (attempt rollback q) := by
  intro s hs
  simp only [Recognizer.attempt, h s hs]

theorem AgreeBelow.followedBy (h : AgreeBelow n p q) (r : Recognizer) :
    AgreeBelow n (p.followedBy r) (q.followedBy r) := by
  intro s hs
  simp only [Recognizer.followedBy, h s hs]

/-- After a parenthesis there is less text. -/
theorem AgreeBelow.parenthesis {r : Reader α} {f g : α → Recognizer} {mode : Mode}
    (parts : r.Parts mode) (h : ∀ a, AgreeBelow n (f a) (g a)) :
    AgreeBelow (n + 1) (reading (Reader.word ['('] *> r) f)
      (reading (Reader.word ['('] *> r) g) := by
  intro s hs
  simp only [reading]
  cases hrun : (Reader.word ['('] *> r).run s.rest with
  | none => rfl
  | some found =>
    have hlt : found.2.length < s.rest.length := by
      simp only [seqRight_eq_bind, StateT.run_bind, Option.bind_eq_bind, Option.bind_eq_some_iff,
        Prod.exists] at hrun
      rcases hrun with ⟨_, inside, hparen, hinside⟩
      exact Nat.lt_of_le_of_lt (parts.suffix_of_run hinside).length_le
        (Reader.length_lt_of_run_word hparen)
    exact h found.1 { s with rest := found.2 } (by change found.2.length < n; omega)

/-- Alternatives that stand where they began when they fail are run at one place. -/
theorem AgreeBelow.anyOf (h : List.Forall₂ (AgreeBelow n) ps qs) (hps : ∀ p ∈ ps, p.Atomic) :
    AgreeBelow n (anyOf ps) (anyOf qs) := by
  induction h with
  | nil => exact fun _ _ => rfl
  | @cons p q ps qs h _ ih =>
    rw [List.forall_mem_cons] at hps
    intro s hs
    cases hmatch : (p s).1.isMatch with
    | true =>
      rw [anyOf_cons_of_match hmatch, anyOf_cons_of_match (by rw [← h s hs, hmatch]), h s hs]
    | false =>
      have hrest : (p s).2.rest = s.rest := (hps.1 s hmatch).rest
      rw [anyOf_cons_of_noMatch hmatch, anyOf_cons_of_noMatch (by rw [← h s hs, hmatch]), ← h s hs]
      exact ih hps.2 _ (by rw [hrest]; exact hs)

theorem AgreeBelow.refl (n : Nat) (p : Recognizer) : AgreeBelow n p p := fun _ _ => rfl

end Recognizer

namespace Grammar

variable {σ : Settings} {body other : Recognizer} {n : Nat} {closer : Option (List Char)}

/-! ## Terms -/

theorem agree_labelledGroup (h : AgreeBelow n body other) (labels : List (List Char)) :
    AgreeBelow (n + 1) (labelledGroup σ body labels) (labelledGroup σ other labels) :=
  .attempt (.parenthesis (.anyWord labels : (Reader.anyWord labels).Parts σ.mode) fun _ => h)
    σ.rollback

theorem agree_capturingGroup (h : AgreeBelow n body other) :
    AgreeBelow (n + 1) (capturingGroup σ body) (capturingGroup σ other) :=
  .attempt (.parenthesis (.optional (.seqRight (.word _) groupNameParts)) fun name =>
    h.followedBy (closeGroup name)) σ.rollback

theorem agree_atom (h : AgreeBelow n body other) :
    AgreeBelow (n + 1) (atom σ body) (atom σ other) := by
  refine .anyOf ?_ atomic_of_mem_atomForms
  have hsame (p : Recognizer) : AgreeBelow (n + 1) p p := .refl _ p
  have hlabelled := agree_labelledGroup (σ := σ) h [['?', ':']]
  have hcapturing := agree_capturingGroup (σ := σ) h
  unfold atomForms
  cases σ.mode with
  | unicode =>
    exact .cons (hsame _) (.cons (hsame _) (.cons (hsame _) (.cons (hsame _)
      (.cons hlabelled (.cons hcapturing .nil)))))
  | legacy =>
    exact .cons (hsame _) (.cons (hsame _) (.cons (hsame _) (.cons (hsame _)
      (.cons hlabelled (.cons hcapturing (.cons (hsame _) .nil))))))

theorem agree_assertion (h : AgreeBelow n body other) :
    AgreeBelow (n + 1) (assertion σ body) (assertion σ other) := by
  refine .anyOf (.cons (.refl _ _) (.cons (agree_labelledGroup h _) .nil)) ?_
  simp only [List.forall_mem_cons]
  exact ⟨atomic_plain, atomic_attempt, List.forall_mem_nil _⟩

theorem agree_quantified {p q : Recognizer} (h : AgreeBelow n p q) :
    AgreeBelow n (quantified σ p) (quantified σ q) :=
  (h.followedBy _).attempt _

/-- What a term runs inside of its parentheses has less text than the term. -/
theorem agree_term (h : AgreeBelow n body other) :
    AgreeBelow (n + 1) (term σ body) (term σ other) := by
  refine .anyOf ?_ atomic_of_mem_termForms
  have hatom := agree_quantified (σ := σ) (agree_atom (σ := σ) h)
  unfold termForms
  cases σ.mode with
  | unicode => exact .cons (agree_assertion h) (.cons hatom .nil)
  | legacy =>
    exact .cons (agree_quantified (agree_labelledGroup h _))
      (.cons (agree_assertion h) (.cons hatom .nil))

/-! ## Disjunctions -/

theorem agree_alternativeWithin (inside : body.Parts σ.mode) (h : AgreeBelow n body other)
    (bound : List CodeUnit) :
    AgreeBelow (n + 1) (alternativeWithin σ body closer bound)
      (alternativeWithin σ other closer bound) := by
  induction bound with
  | nil => exact .refl _ _
  | cons u bound ih =>
    intro s hs
    have hrest : (term σ body s).2.rest.length ≤ s.rest.length :=
      (extending_term inside s).rest.length_le
    rw [alternativeWithin, alternativeWithin, ← agree_term h s hs]
    simp only
    rw [ih _ (Nat.lt_of_le_of_lt hrest hs)]

theorem agree_alternativesWithin (inside : body.Parts σ.mode) (h : AgreeBelow n body other)
    (bound : List CodeUnit) :
    AgreeBelow (n + 1) (alternativesWithin σ body closer bound)
      (alternativesWithin σ other closer bound) := by
  have halternative : AgreeBelow (n + 1) (alternative σ body closer) (alternative σ other closer) :=
    fun s hs => agree_alternativeWithin inside h s.rest s hs
  induction bound with
  | nil =>
    intro s hs
    rw [alternativesWithin, alternativesWithin, ← halternative s hs]
    cases hbar : (Reader.word ['|']).run (alternative σ body closer s).2.rest <;> simp only [hbar]
  | cons u bound ih =>
    intro s hs
    have hrest : (alternative σ body closer s).2.rest.length ≤ s.rest.length :=
      ((holdsAlong_extends σ.mode).of_parts (alternativeParts inside closer) s).rest.length_le
    rw [alternativesWithin, alternativesWithin, ← halternative s hs]
    cases hbar : (Reader.word ['|']).run (alternative σ body closer s).2.rest with
    | none => simp only [hbar]
    | some found =>
      have hlt := Reader.length_lt_of_run_word hbar
      simp only [hbar]
      rw [ih _ (by change found.2.length < n + 1; omega)]

/-- Where two bodies agree before shorter texts, the disjunctions around them do. -/
theorem agree_alternatives (inside : body.Parts σ.mode) (h : AgreeBelow n body other) :
    AgreeBelow (n + 1) (alternatives σ body closer) (alternatives σ other closer) :=
  fun s hs => agree_alternativesWithin inside h s.rest s hs

/-- What stands in parentheses, where `levels` disjunctions are run one in the other and `deeper`
is run in the last of them. -/
def nestedWithin (σ : Settings) (deeper : Recognizer) : (levels : Nat) → Recognizer
  | 0 => deeper
  | levels + 1 => alternatives σ (nestedWithin σ deeper levels) (some [')'])

theorem groupBody_eq_nestedWithin (σ : Settings) (room : Nat) :
    groupBody σ room = nestedWithin σ (limitReached σ.nestingLimit.toNat) room := by
  induction room with
  | zero => rfl
  | succ room ih => rw [groupBody, nestedWithin, ih]

/-- Before fewer than `levels` units no more than `levels` disjunctions are run one in the other. -/
theorem agree_nestedWithin (deeper : Recognizer) {levels room : Nat} (h : levels ≤ room) :
    AgreeBelow levels (groupBody σ room) (nestedWithin σ deeper levels) := by
  induction levels generalizing room with
  | zero => exact fun _ hs => absurd hs (Nat.not_lt_zero _)
  | succ levels ih =>
    cases room with
    | zero => contradiction
    | succ room =>
      exact agree_alternatives (groupBodyParts σ room) (ih (Nat.le_of_succ_le_succ h))

/-! ## All of a disjunction -/

/-- Where it begins in the state `s`, the disjunction ends: its loops do, and it runs only so many
disjunctions one in the other. -/
structure Terminates (σ : Settings) (room : Nat) (closer : Option (List Char)) (s : State) :
    Prop where
  /-- A term that matches takes at least one unit. -/
  term_consumes : (term σ (groupBody σ room) s).1.isMatch = true →
    (term σ (groupBody σ room) s).2.rest.length < s.rest.length
  alternatives_end : RunsOut (alternativesRound σ (groupBody σ room) closer)
    (fun s => s.rest.length) s (disjunction σ room closer s)
  alternative_ends : RunsOut (alternativeRound σ (groupBody σ room) closer)
    (fun s => s.rest.length) s (alternative σ (groupBody σ room) closer s)
  /-- The atoms of a class; where there is no first one, nothing is repeated. -/
  classRanges_end : (classAtom σ s).1.isMatch = true →
    RunsOut (classRangesRound σ) (fun b => b.2.rest.length) (classAtom σ s) (classRanges σ s)
  /-- The digits of an escape in braces, after the opening one. -/
  braced_ends : RunsOut bracedRound (fun b => b.2.2.length) (0, 0, s.rest)
    (bracedEscape.run (encode ['u', '{'] ++ s.rest))
  /-- The characters of a name after the first. -/
  name_ends : ∃ found,
    RunsOut (Reader.takingRound (nameCharacter σ.mode Identifier.continuesName))
      (fun b => b.2.length) ([], s.rest) found ∧
    (Reader.many (nameCharacter σ.mode Identifier.continuesName)).run s.rest = some found
  /-- Decimal digits, and the letters of a property. -/
  asciiRun_ends : ∀ p, ∃ found,
    RunsOut (Reader.takingRound (Reader.ascii p)) (fun b => b.2.length) ([], s.rest) found ∧
    (Reader.asciiRun p).run s.rest = if found.1.isEmpty then none else some found
  /-- A term runs what stands in its parentheses only where it has taken something: another body
  that does the same there makes no difference. A run elsewhere would show, since notes are never
  taken back. -/
  body_later : ∀ other : Recognizer,
    (∀ t : State, t.rest.length < s.rest.length → other t = groupBody σ room t) →
      term σ other s = term σ (groupBody σ room) s
  /-- No more than `room` disjunctions are run in this one, each in the one before. -/
  depth_le_room : disjunction σ room closer s =
    alternatives σ (nestedWithin σ (limitReached σ.nestingLimit.toNat) room) closer s
  /-- There are no more of them than units, so it makes no difference what would be run deeper. -/
  depth_le_length : s.rest.length ≤ room → ∀ deeper : Recognizer, disjunction σ room closer s =
    alternatives σ (nestedWithin σ deeper s.rest.length) closer s

/-- Every disjunction ends in every state, whatever closes it and however many groups may be
open. -/
theorem disjunction_terminates (σ : Settings) (room : Nat) (closer : Option (List Char))
    (s : State) : Terminates σ room closer s where
  term_consumes := consumes_term s
  alternatives_end := runsOut_alternatives (groupBodyParts σ room) s
  alternative_ends := runsOut_alternative consumes_term s
  classRanges_end := runsOut_classRanges
  braced_ends := runsOut_braced s.rest
  name_ends := ⟨_, (consumes_nameCharacter _).runsOut s.rest, rfl⟩
  asciiRun_ends p := ⟨_, Reader.runsOut_ascii p s.rest, Reader.run_asciiRun p s.rest⟩
  body_later other hother := by
    have hagree : AgreeBelow s.rest.length (groupBody σ room) other :=
      fun t ht => (hother t ht).symm
    exact (agree_term hagree s (Nat.lt_succ_self _)).symm
  depth_le_room := by rw [← groupBody_eq_nestedWithin]; rfl
  depth_le_length hroom deeper :=
    agree_alternatives (groupBodyParts σ room)
      (agree_nestedWithin deeper hroom) s (Nat.lt_succ_self _)

/-- The whole text is one term, and its parenthesis would start a class atom as well. -/
theorem terminates_before_nested_groups :
    let σ : Settings := { mode := .unicode, nestingLimit := 40 }
    let s : State := .start (encode "(?:(a)|[b-c]\\u{41}){2}".toList)
    let idle : Recognizer := fun s => (.matched, s)
    let other : Recognizer := fun t =>
      if t.rest.length < s.rest.length then groupBody σ 40 t else idle t
    ((term σ (groupBody σ 40) s).1 = .matched ∧
      (term σ (groupBody σ 40) s).2.rest.length < s.rest.length) ∧
    ((classAtom σ s).1 = .codePoint '('.toNat ∧
      RunsOut (classRangesRound σ) (fun b => b.2.rest.length) (classAtom σ s)
        (classRanges σ s)) ∧
    term σ other s = term σ (groupBody σ 40) s ∧
    (s.rest.length = 22 ∧ disjunction σ 40 none s =
      alternatives σ (nestedWithin σ idle s.rest.length) none s) := by
  intro σ s idle other
  have h := disjunction_terminates σ 40 none s
  have hterm : (term σ (groupBody σ 40) s).1 = .matched := by decide +kernel
  have hatom : (classAtom σ s).1 = .codePoint '('.toNat := by decide +kernel
  have hlen : s.rest.length = 22 := by decide +kernel
  refine ⟨⟨hterm, h.term_consumes ?_⟩, ⟨hatom, h.classRanges_end ?_⟩,
    h.body_later other fun t ht => if_pos ht, hlen, h.depth_le_length ?_ idle⟩
  · rw [hterm]
    rfl
  · rw [hatom]
    rfl
  · rw [hlen]
    decide

end Grammar

end EcmaPattern
