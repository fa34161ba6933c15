import EcmaPattern.Proofs.Checked.Reader
import EcmaPattern.Proofs.Snapshot

namespace EcmaPattern

open CodeUnit Checked

/-! # Runs of recognizers with a position

As for readers: the position and the count of groups are numbers of a fixed width. An attempt that
fails goes back to a position that must not be a later one, and cuts off the candidates that it
added.
-/

namespace Checked

/-- A state whose position is a number of its own. -/
structure Machine extends Evidence where
  units : List CodeUnit
  position : Nat
  log : List Diagnostic
  deriving DecidableEq, Repr

namespace Machine

/-- The machine in a state. -/
def ofState (s : State) : Machine := { s with units := s.text, position := s.position }

/-- The state that the machine is in, which must be in the text. -/
def state? (m : Machine) : Option State := do
  return { m with text := m.units, rest := ← slice? m.units m.position }

/-- Goes back to `before`. -/
def undo? (m : Machine) (rollback : Rollback) (before : Machine) : Option Machine :=
  if before.position ≤ m.position then
    match rollback with
    | .numbers =>
      some { m with
        position := before.position
        groups := before.groups
        candidates := m.candidates.take before.candidates.length }
    | .everything =>
      some { m with position := before.position, toEvidence := before.toEvidence }
  else
    none

/-- Counts a capturing group that ends here, and keeps its name. -/
def closeGroup? (name : Option String) (m : Machine) : Option (Outcome × Machine) :=
  match name with
  | none => do return (.matched, { m with groups := ← add? 32 m.groups 1 })
  | some name =>
    if name ∈ m.names then
      some (.noMatch, { m with log := m.log ++ [.duplicateGroupName m.position] })
    else do
      return (.matched, { m with names := m.names ++ [name], groups := ← add? 32 m.groups 1 })

end Machine

end Checked

/-- The run of a recognizer from a machine on. -/
def Recognizer.Parts.checked {mode : Mode} : {p : Recognizer} → Parts mode p → Machine →
    Option (Outcome × Machine)
  | _, .done o, m => some (o, m)
  | _, .note d, m => do return (.noMatch, { m with log := m.log ++ [d (← m.state?)] })
  | _, .candidate n, m => some (.matched, { m with candidates := m.candidates ++ [n] })
  | _, .reference r, m => some (.matched, { m with references := m.references ++ [r] })
  | _, @ite _ _ _ c _ first second, m => do
    if c (← m.state?) then first.checked m else second.checked m
  | _, .readingOr reader next otherwise, m => do
    match ← reader.checked m.units m.position with
    | some (a, position) => (next a).checked { m with position }
    | none => otherwise.checked m
  | _, .bind first next, m => do
    let found ← first.checked m
    (next found.1).checked found.2
  | _, .orElse first second, m => do
    let found ← first.checked m
    if found.1.isMatch then return found else second.checked found.2
  | _, .followedBy first second, m => do
    let found ← first.checked m
    if found.1.isMatch then second.checked found.2 else return found
  | _, .attempt rollback parts, m => do
    let found ← parts.checked m
    if found.1.isMatch then return found else return (.noMatch, ← found.2.undo? rollback m)
  | _, .bounded next, m => do (next (← m.state?).rest).checked m
  | _, .capture reader body, m => do
    match ← (Reader.Parts.seqRight (.word ['(']) reader).checked m.units m.position with
    | some (name, position) =>
      let found ← body.checked { m with position }
      if found.1.isMatch then found.2.closeGroup? name else return found
    | none => return (.noMatch, m)
  | _, .ofEq _ parts, m => parts.checked m

/-! ## What recognizers do -/

/-- The place is one in `units`, and all groups that can still be opened can be counted. -/
structure State.Ready (units : List CodeUnit) (s : State) : Prop where
  text : s.text = units
  suffix : s.rest <:+ s.text
  length : units.length < 2 ^ 32
  groups : s.groups + s.rest.length < 2 ^ 32

namespace State

variable {units : List CodeUnit} {s t : State}

theorem Ready.start (hlen : units.length < 2 ^ 32) : (start units).Ready units where
  text := rfl
  suffix := List.suffix_refl _
  length := hlen
  groups := by
    change 0 + units.length < 2 ^ 32
    rwa [Nat.zero_add]

theorem Ready.advances (hs : s.Ready units) (h : s.Advances t) : t.Ready units where
  text := h.text.trans hs.text
  suffix := h.suffix hs.suffix
  length := hs.length
  groups := Nat.lt_of_le_of_lt h.counted hs.groups

/-- There is room for the group that a parenthesis opens. -/
theorem Ready.succ_groups_lt (hs : s.Ready units) {inside : List CodeUnit}
    (hparen : (Reader.word ['(']).run s.rest = some ((), inside))
    (h : Advances { s with rest := inside } t) : t.groups + 1 < 2 ^ 32 := by
  have hlength := length_of_paren hparen
  have hcounted : t.groups + t.rest.length ≤ s.groups + inside.length := h.counted
  have hgroups := hs.groups
  omega

end State

namespace Checked

open Recognizer

variable {mode : Mode} {units : List CodeUnit} {s t : State}

theorem Machine.state?_ofState (h : s.rest <:+ s.text) : (Machine.ofState s).state? = some s := by
  change (slice? s.text (s.text.length - s.rest.length)).bind _ = _
  rw [slice?_eq h]
  rfl

theorem Machine.undo?_ofState (hs : s.Ready units) (h : s.Advances t) (rollback : Rollback) :
    (ofState t).undo? rollback (ofState s) = some (ofState (t.undo rollback s)) := by
  have hle : (ofState s).position ≤ (ofState t).position := (h.frames hs.suffix).position_le
  have hcandidates : t.candidates.take s.candidates.length = s.candidates :=
    (List.prefix_iff_eq_take.1 h.candidates).symm
  cases rollback with
  | numbers =>
    rw [undo?, if_pos hle]
    simp only [ofState, State.undo, hcandidates, Cursor.position, h.text]
  | everything =>
    rw [undo?, if_pos hle]
    simp only [ofState, State.undo, Cursor.position, h.text]

theorem Machine.closeGroup?_ofState (h : s.groups + 1 < 2 ^ 32) (name : Option String) :
    (ofState s).closeGroup? name =
      some ((Grammar.closeGroup name s).1, ofState (Grammar.closeGroup name s).2) := by
  have hadd : add? 32 (ofState s).groups 1 = some (s.groups + 1) := add?_of_lt h
  cases name with
  | none =>
    rw [closeGroup?, hadd]
    rfl
  | some name =>
    rw [closeGroup?, hadd, Grammar.closeGroup, State.addName?]
    by_cases htaken : name ∈ s.names
    · have hsame : name ∈ (ofState s).names := htaken
      rw [if_pos htaken, if_pos hsame]
      rfl
    · have hsame : name ∉ (ofState s).names := htaken
      rw [if_neg htaken, if_neg hsame]
      rfl

theorem checked_reader {α : Type} {r : Reader α} (parts : r.Parts mode) (hs : s.Ready units) :
    Yields mode units (parts.checked (Machine.ofState s).units (Machine.ofState s).position)
      ((r.run s.rest).map fun (a, rest) => (a, s.text.length - rest.length)) := by
  obtain rfl := hs.text
  exact follows_checked parts s.text s.rest hs.suffix hs.length

/-- From a state that is ready, no operation of a recognizer fails but a count of digits. -/
theorem checked_ofState {p : Recognizer} (parts : p.Parts mode) (hs : s.Ready units) :
    Yields mode units (parts.checked (Machine.ofState s)) ((p s).1, Machine.ofState (p s).2) := by
  have hadvances := State.holdsAlong_advances mode
  have hlast {p : Recognizer} (parts : p.Parts mode) {s : State} (hs : s.Ready units) :
      (p s).2.Ready units :=
    hs.advances (hadvances.of_parts parts s)
  induction parts generalizing s with
  | done o => exact .of_eq rfl
  | note d =>
    rw [Parts.checked, Machine.state?_ofState hs.suffix]
    exact .of_eq rfl
  | candidate n => exact .of_eq rfl
  | reference r => exact .of_eq rfl
  | ite c first second ih ih' =>
    rw [Parts.checked, Machine.state?_ofState hs.suffix]
    simp only [Option.bind_eq_bind, Option.bind_some]
    split
    · exact ih hs
    · exact ih' hs
  | @readingOr _ r p q reader next otherwise ih ih' =>
    rw [Parts.checked, Recognizer.readingOr]
    refine (checked_reader reader hs).bind ?_
    cases hrun : r.run s.rest with
    | none => exact ih' hs
    | some found => exact ih found.1 (hs.advances (hadvances.of_run reader hrun))
  | @bind p f first next ih ih' =>
    rw [Parts.checked]
    exact (ih hs).bind (ih' (p s).1 (hlast first hs))
  | @orElse p q first second ih ih' =>
    rw [Parts.checked]
    refine (ih hs).bind ?_
    dsimp only
    split
    · exact .of_eq rfl
    · exact ih' (hlast first hs)
  | @followedBy p q first second ih ih' =>
    rw [Parts.checked, Recognizer.followedBy]
    refine (ih hs).bind ?_
    split
    · exact ih' (hlast first hs)
    · exact .of_eq rfl
  | @attempt p rollback parts ih =>
    rw [Parts.checked]
    refine (ih hs).bind (.of_eq ?_)
    cases hmatch : (p s).1.isMatch with
    | true =>
      rw [attempt_of_match hmatch]
      rfl
    | false =>
      rw [attempt_of_noMatch hmatch, Machine.undo?_ofState hs (hadvances.of_parts parts s)]
      rfl
  | bounded next ih =>
    rw [Parts.checked, Machine.state?_ofState hs.suffix]
    exact ih s.rest hs
  | @capture r p reader body ih =>
    rw [Parts.checked, Recognizer.reading]
    refine (checked_reader (Reader.Parts.seqRight (.word ['(']) reader) hs).bind ?_
    cases hrun : (Reader.word ['('] *> r).run s.rest with
    | none => exact .of_eq rfl
    | some found =>
      have hopen := hs.advances <|
        hadvances.of_run (Reader.Parts.seqRight (.word ['(']) reader) hrun
      simp only [seqRight_eq_bind, StateT.run_bind, Option.bind_eq_bind, Option.bind_eq_some_iff,
        Prod.exists] at hrun
      rcases hrun with ⟨_, inside, hparen, hname⟩
      have hcount := hs.succ_groups_lt hparen
        ((hadvances.of_run reader hname).trans (hadvances.of_parts body _))
      refine (ih hopen).bind (.of_eq ?_)
      dsimp only
      cases hmatch : (p { s with rest := found.2 }).1.isMatch with
      | true =>
        rw [followedBy_of_match hmatch]
        exact Machine.closeGroup?_ofState hcount found.1
      | false =>
        rw [followedBy_of_noMatch hmatch]
        rfl
  | ofEq heq parts ih =>
    subst heq
    exact ih hs

end Checked

end EcmaPattern
