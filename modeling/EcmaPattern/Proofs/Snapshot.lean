import EcmaPattern.Proofs.Recognition.Frame

namespace EcmaPattern

open Recognizer

/-! # Going back

To take back an attempt it is enough to keep where it began, how many candidates there were and how
many groups: wherever the attempt gets to, it has gone forward, and the candidates that it found
stand after the earlier ones. So going back never goes forward, and cutting off the list of
candidates gives the earlier list.
-/

/-- What is kept of a state in order to go back to it. -/
structure Snapshot where
  position : Nat
  /-- How many candidates there are. -/
  candidates : Nat
  groups : Nat
  deriving DecidableEq, Repr

namespace State

/-- What is kept of the state. -/
def snapshot (s : State) : Snapshot where
  position := s.position
  candidates := s.candidates.length
  groups := s.groups

/-- Goes back to where `kept` was taken. Names, references and notes stay. -/
def restore (t : State) (kept : Snapshot) : State :=
  { t with
    toCursor := t.moveTo kept.position
    groups := kept.groups
    candidates := t.candidates.take kept.candidates }

/-- The state `t` goes on from `s`, and each new group took a unit of the text. -/
structure Advances (s t : State) : Prop extends s.Extends t where
  counted : t.groups + t.rest.length ≤ s.groups + s.rest.length

/-- The state `t` is further on in the text of `s`, with more found, and what is kept of `s` is
enough to go back. -/
structure Frames (s t : State) : Prop where
  text : t.text = s.text
  /-- The place is one in the text. -/
  place : t.rest = t.text.drop t.position
  position_le_length : t.position ≤ t.text.length
  /-- Going back goes backwards. -/
  position_le : s.snapshot.position ≤ t.position
  candidates : s.candidates <+: t.candidates
  references : s.references <+: t.references
  names : s.names <+: t.names
  groups : s.groups ≤ t.groups
  counted : t.groups - s.groups ≤ t.position - s.position
  restore : t.restore s.snapshot = t.undo .numbers s

/-! ## Places -/

variable {s t u : State}

theorem position_add_length (h : s.rest <:+ s.text) :
    s.position + s.rest.length = s.text.length :=
  Nat.sub_add_cancel h.length_le

/-! ## What a run keeps -/

theorem Advances.refl (s : State) : s.Advances s := ⟨.refl s, Nat.le_refl _⟩

theorem Advances.trans (h : s.Advances t) (h' : t.Advances u) : s.Advances u :=
  ⟨h.toExtends.trans h'.toExtends, Nat.le_trans h'.counted h.counted⟩

/-- What adds no group keeps the count. -/
theorem Extends.advances (h : s.Extends t) (hgroups : t.groups = s.groups) : s.Advances t :=
  ⟨h, by rw [hgroups]; exact Nat.add_le_add_left h.rest.length_le _⟩

theorem Advances.undo (h : s.Advances t) (rollback : Rollback) :
    s.Advances (t.undo rollback s) :=
  (h.toExtends.undo rollback).advances (by cases rollback <;> rfl)

theorem groups_closeGroup_le (name : Option String) (s : State) :
    (Grammar.closeGroup name s).2.groups ≤ s.groups + 1 := by
  rcases closeGroup_cases name s with ⟨names, -, heq⟩ | ⟨d, heq⟩
  · exact Nat.le_of_eq (congrArg (fun found => found.2.groups) heq)
  · rw [heq]
    exact Nat.le_succ _

theorem length_of_paren {text rest : List CodeUnit}
    (h : (Reader.word ['(']).run text = some ((), rest)) : text.length = rest.length + 1 := by
  rw [Reader.run_word_eq_some_iff.1 h, List.length_append, Nat.add_comm]
  rfl

/-- The unit that pays for a group is its parenthesis. -/
theorem Advances.closeGroup {rest : List CodeUnit}
    (hparen : (Reader.word ['(']).run s.rest = some ((), rest))
    (h : Advances { s with rest } t) (name : Option String) :
    s.Advances (Grammar.closeGroup name t).2 := by
  have hclose := extending_closeGroup name t
  have hlength := length_of_paren hparen
  refine ⟨(holdsAlong_extends .unicode).closeGroup name hparen h.toExtends, ?_⟩
  have hcount := h.counted
  have hgroups := groups_closeGroup_le name t
  have hrest := hclose.rest.length_le
  simp only at hcount
  omega

theorem holdsAlong_advances (mode : Mode) : HoldsAlong mode Advances where
  refl := .refl
  trans := .trans
  character s c rest h := ((holdsAlong_extends mode).character s c rest h).advances rfl
  codePoint h := ((holdsAlong_extends mode).codePoint h).advances rfl
  note _ d := (extends_note d).advances rfl
  candidate _ n := (extends_addCandidate n).advances rfl
  reference _ r := (extends_addReference r).advances rfl
  undo rollback h := h.undo rollback
  closeGroup name hparen h := h.closeGroup hparen name

/-! ## Snapshots -/

/-- Where the candidates were only added to, cutting them off gives the earlier ones. -/
theorem Extends.restore_snapshot (h : s.Extends t) (hs : s.rest <:+ s.text) :
    t.restore s.snapshot = t.undo .numbers s := by
  have hrest : t.text.drop s.position = s.rest := by
    rw [h.text, drop_position hs]
  have hcandidates : t.candidates.take s.candidates.length = s.candidates :=
    (List.prefix_iff_eq_take.1 h.candidates).symm
  simp only [restore, snapshot, Cursor.moveTo, hrest, hcandidates]
  rfl

theorem Advances.frames (h : s.Advances t) (hs : s.rest <:+ s.text) : s.Frames t := by
  have ht : t.rest <:+ t.text := h.suffix hs
  have hbefore := position_add_length hs
  have hafter := position_add_length ht
  have hrest := h.rest.length_le
  have hcount := h.counted
  have htext : t.text.length = s.text.length := congrArg List.length h.text
  have hle : s.position ≤ t.position := by omega
  exact
    { text := h.text
      place := (drop_position ht).symm
      position_le_length := Nat.sub_le _ _
      position_le := hle
      candidates := h.candidates
      references := h.references
      names := h.names
      groups := h.groups
      counted := by omega
      restore := h.restore_snapshot hs }

end State

/-! ## Every recognizer of the grammar -/

/-- Each recognizer that a disjunction runs only goes on, in every state, whether it matches or not,
and is further on at each state on its way. The mode, the limit and the number of open groups are
no part of a state: a recognizer is given them and gives them on. -/
theorem frames_of_calls (σ : Settings) (room : Nat) (closer : Option (List Char)) :
    let whole := Grammar.disjunctionParts σ room closer
    (∀ q, whole.Calls q → ∀ s : State, s.rest <:+ s.text →
      s.Frames (q s).2 ∧ ∀ parts : q.Parts σ.mode, ∀ t ∈ parts.trace s, s.Frames t) ∧
    ∀ text : List CodeUnit, text.length < 2 ^ 32 →
      ∀ t ∈ whole.trace (.start text), t.groups < 2 ^ 32 := by
  intro whole
  constructor
  · intro q hq s hs
    have hframes (parts : q.Parts σ.mode) (t : State) (ht : t ∈ parts.trace s) : s.Frames t :=
      ((State.holdsAlong_advances σ.mode).of_mem_trace parts ht).frames hs
    rcases whole.nonempty_of_calls hq with ⟨parts⟩
    exact ⟨hframes parts _ (parts.mem_trace s), hframes⟩
  · intro text hlen t ht
    have hcount : t.groups + t.rest.length ≤ 0 + text.length :=
      ((State.holdsAlong_advances σ.mode).of_mem_trace whole ht).counted
    omega

theorem frames_term_before_group :
    let σ : Settings := { mode := .unicode, nestingLimit := 2 }
    let term := Grammar.term σ (Grammar.groupBody σ 2)
    let s : State :=
      { text := CodeUnit.encode ['\\', '7', '(', '(', 'a', ')', '|', '\\', '1', ')', '*']
        rest := CodeUnit.encode ['(', '(', 'a', ')', '|', '\\', '1', ')', '*']
        groups := 3, candidates := [7], names := ["a"], references := [.named "a"] }
    (term s).1 = .matched ∧ (term s).2.groups = 5 ∧ (term s).2.candidates = [7, 1] ∧
      s.Frames (term s).2 := by
  intro σ term s
  have hcalls : (Grammar.disjunctionParts σ 2 none).Calls term :=
    Grammar.calls_of_termParts (Or.inl rfl)
  have hs : s.rest <:+ s.text := ⟨CodeUnit.encode ['\\', '7'], by decide⟩
  exact ⟨by decide +kernel, by decide +kernel, by decide +kernel,
    ((frames_of_calls σ 2 none).1 term hcalls s hs).1⟩

end EcmaPattern
