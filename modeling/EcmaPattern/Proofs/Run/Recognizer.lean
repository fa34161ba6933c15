import EcmaPattern.Grammar.Term
import EcmaPattern.Proofs.Recognition.Recognizes
import EcmaPattern.Proofs.Run.Reader

namespace EcmaPattern

open CodeUnit

/-! # Runs of recognizers

As for readers, `Parts mode p` says how the recognizer `p` is put together, `Parts.trace` which
states its run passes through, and `Parts.Calls` which recognizers it runs. A relation between
states that one step keeps, and going back as well, holds along a whole run.
-/

namespace Recognizer

variable {α : Type}

/-- Reads with `r` and goes on with `p`; where `r` fails, `q` is run. -/
def readingOr (r : Reader α) (p : α → Recognizer) (q : Recognizer) : Recognizer := fun s =>
  match r.run s.rest with
  | some (a, rest) => p a { s with rest }
  | none => q s

/-! ## Parts -/

/-- How a recognizer is put together. A capturing group is one part with its parenthesis: that it
is counted is right only because a parenthesis was taken. -/
inductive Parts (mode : Mode) : Recognizer → Type 1
  | done (o : Outcome) : Parts mode fun s => (o, s)
  | note (d : State → Diagnostic) : Parts mode fun s => (.noMatch, s.note (d s))
  | candidate (n : Nat) : Parts mode fun s => (.matched, s.addCandidate n)
  | reference (r : Reference) : Parts mode fun s => (.matched, s.addReference r)
  | ite {p q : Recognizer} (c : State → Prop) [DecidablePred c] (first : Parts mode p)
      (second : Parts mode q) : Parts mode fun s => if c s then p s else q s
  | readingOr {α : Type} {r : Reader α} {p : α → Recognizer} {q : Recognizer}
      (reader : r.Parts mode) (next : ∀ a, Parts mode (p a)) (otherwise : Parts mode q) :
      Parts mode (readingOr r p q)
  | bind {p : Recognizer} {f : Outcome → Recognizer} (first : Parts mode p)
      (next : ∀ o, Parts mode (f o)) : Parts mode fun s => f (p s).1 (p s).2
  | orElse {p q : Recognizer} (first : Parts mode p) (second : Parts mode q) :
      Parts mode fun s => if (p s).1.isMatch then p s else q (p s).2
  | followedBy {p q : Recognizer} (first : Parts mode p) (second : Parts mode q) :
      Parts mode (p.followedBy q)
  | attempt {p : Recognizer} (rollback : Rollback) (parts : Parts mode p) :
      Parts mode (attempt rollback p)
  /-- What depends on the rest of the text, as the bound of a loop does. -/
  | bounded {p : List CodeUnit → Recognizer} (next : ∀ bound, Parts mode (p bound)) :
      Parts mode fun s => p s.rest s
  | capture {r : Reader (Option String)} {p : Recognizer} (reader : r.Parts mode)
      (body : Parts mode p) :
      Parts mode (reading (Reader.word ['('] *> r) fun name =>
        p.followedBy (Grammar.closeGroup name))
  | ofEq {p q : Recognizer} (h : p = q) (parts : Parts mode p) : Parts mode q

/-- The states in which `s` has gone on to each of `places`. -/
def movedTo (s : State) (places : List (List CodeUnit)) : List State :=
  places.map fun rest => { s with rest }

namespace Parts

variable {mode : Mode} {p q : Recognizer} {r : Reader α}

/-- The states that a run of the recognizer passes through. -/
def trace : {p : Recognizer} → Parts mode p → State → List State
  | _, .done _, s => [s]
  | _, .note d, s => [s, s.note (d s)]
  | _, .candidate n, s => [s, s.addCandidate n]
  | _, .reference r, s => [s, s.addReference r]
  | _, @ite _ _ _ c _ first second, s => if c s then first.trace s else second.trace s
  | _, .readingOr (r := r) reader next otherwise, s =>
    movedTo s (reader.trace s.rest) ++ match r.run s.rest with
      | some (a, rest) => (next a).trace { s with rest }
      | none => otherwise.trace s
  | _, .bind (p := p) first next, s => first.trace s ++ (next (p s).1).trace (p s).2
  | _, .orElse (p := p) first second, s =>
    first.trace s ++ if (p s).1.isMatch then [] else second.trace (p s).2
  | _, .followedBy (p := p) first second, s =>
    first.trace s ++ if (p s).1.isMatch then second.trace (p s).2 else []
  | _, .attempt (p := p) rollback parts, s =>
    parts.trace s ++ [(Recognizer.attempt rollback p s).2]
  | _, .bounded next, s => (next s.rest).trace s
  | _, .capture (r := r) (p := p) reader body, s =>
    movedTo s ((Reader.Parts.seqRight (.word ['(']) reader).trace s.rest) ++
      match (Reader.word ['('] *> r).run s.rest with
      | some (name, rest) =>
        body.trace { s with rest } ++ [(p.followedBy (Grammar.closeGroup name) { s with rest }).2]
      | none => [s]
  | _, .ofEq _ parts, s => parts.trace s

/-! ### Derived recognizers -/

def reading {f : α → Recognizer} (reader : r.Parts mode) (next : ∀ a, Parts mode (f a)) :
    Parts mode (reading r f) :=
  .readingOr reader next (.done .noMatch)

def ofReader {r : Reader Outcome} (reader : r.Parts mode) : Parts mode (ofReader r) :=
  .reading reader .done

def character {r : Reader Nat} (reader : r.Parts mode) : Parts mode (character r) :=
  .ofReader (reader.map _)

def plain (reader : r.Parts mode) : Parts mode (plain r) := .ofReader (reader.seqRight (.pure _))

end Parts

/-- How each recognizer of a list is put together. -/
inductive Forms (mode : Mode) : List Recognizer → Type 1
  | nil : Forms mode []
  | cons {p : Recognizer} {ps : List Recognizer} (first : Parts mode p) (rest : Forms mode ps) :
      Forms mode (p :: ps)

namespace Forms

variable {mode : Mode} {qs : List Recognizer}

def append : {ps : List Recognizer} → Forms mode ps → Forms mode qs → Forms mode (ps ++ qs)
  | _, .nil, second => second
  | _, .cons first rest, second => .cons first (rest.append second)

/-- The recognizers one after the other, up to the first that matches. -/
def anyOf : {ps : List Recognizer} → Forms mode ps → Parts mode (anyOf ps)
  | _, .nil => .done .noMatch
  | _, .cons first rest => .orElse first rest.anyOf

end Forms

end Recognizer

/-! ## Calls -/

/-- The recognizer `q` is the reader with these parts or a part of it, run on its own. -/
def Reader.Parts.Calls {mode : Mode} {α : Type} {r : Reader α} (parts : r.Parts mode)
    (q : Recognizer) : Prop :=
  q = .plain r ∨ match α, r, parts with
    | _, _, .bind first next => first.Calls q ∨ ∃ a, (next a).Calls q
    | _, _, .orElse first second | _, _, @Reader.Parts.ite _ _ _ _ _ _ first second =>
      first.Calls q ∨ second.Calls q
    | _, _, .ahead parts | _, _, .notAhead parts | _, _, .many parts => parts.Calls q
    | _, _, _ => False

namespace Recognizer

/-- The recognizer `q` is the one with these parts or is run as a part of it. -/
def Parts.Calls {mode : Mode} {p : Recognizer} (parts : Parts mode p) (q : Recognizer) : Prop :=
  q = p ∨ match p, parts with
    | _, @Parts.ite _ _ _ _ _ first second | _, .orElse first second
    | _, .followedBy first second => first.Calls q ∨ second.Calls q
    | _, .readingOr reader next otherwise =>
      reader.Calls q ∨ (∃ a, (next a).Calls q) ∨ otherwise.Calls q
    | _, .bind first next => first.Calls q ∨ ∃ o, (next o).Calls q
    | _, .attempt _ parts | _, .ofEq _ parts => parts.Calls q
    | _, .bounded next => ∃ bound, (next bound).Calls q
    | _, .capture reader body => reader.Calls q ∨ body.Calls q
    | _, _ => False

theorem nonempty_of_readerCalls {mode : Mode} {α : Type} {r : Reader α} (parts : r.Parts mode)
    {q : Recognizer} (h : parts.Calls q) : Nonempty (Parts mode q) := by
  -- the induction takes the parts apart, and where the reader itself is meant they are needed whole
  have whole := parts
  induction parts with
  | bind first next ih ih' =>
    rcases h with rfl | h | ⟨a, h⟩
    · exact ⟨.plain whole⟩
    · exact ih h first
    · exact ih' a h (next a)
  | orElse first second ih ih' | ite _ first second ih ih' =>
    rcases h with rfl | h | h
    · exact ⟨.plain whole⟩
    · exact ih h first
    · exact ih' h second
  | ahead parts ih | notAhead parts ih | many parts ih =>
    rcases h with rfl | h
    · exact ⟨.plain whole⟩
    · exact ih h parts
  | _ =>
    rcases h with rfl | h
    · exact ⟨.plain whole⟩
    · contradiction

/-- What is called is put together from the same parts. -/
theorem Parts.nonempty_of_calls {mode : Mode} {p : Recognizer} (parts : Parts mode p)
    {q : Recognizer} (h : parts.Calls q) : Nonempty (Parts mode q) := by
  have whole := parts
  induction parts with
  | orElse first second ih ih' | followedBy first second ih ih' | ite _ first second ih ih' =>
    rcases h with rfl | h | h
    · exact ⟨whole⟩
    · exact ih h first
    · exact ih' h second
  | readingOr reader next otherwise ih ih' =>
    rcases h with rfl | h | ⟨a, h⟩ | h
    · exact ⟨whole⟩
    · exact nonempty_of_readerCalls reader h
    · exact ih a h (next a)
    · exact ih' h otherwise
  | bind first next ih ih' =>
    rcases h with rfl | h | ⟨o, h⟩
    · exact ⟨whole⟩
    · exact ih h first
    · exact ih' o h (next o)
  | attempt _ parts ih | ofEq _ parts ih =>
    rcases h with rfl | h
    · exact ⟨whole⟩
    · exact ih h parts
  | bounded next ih =>
    rcases h with rfl | ⟨bound, h⟩
    · exact ⟨whole⟩
    · exact ih bound h (next bound)
  | capture reader body ih =>
    rcases h with rfl | h | h
    · exact ⟨whole⟩
    · exact nonempty_of_readerCalls reader h
    · exact ih h body
  | _ =>
    rcases h with rfl | h
    · exact ⟨whole⟩
    · contradiction

theorem Parts.Calls.self {mode : Mode} {p : Recognizer} (parts : Parts mode p) :
    parts.Calls p := by
  cases parts <;> exact Or.inl rfl

theorem Forms.calls_of_mem {mode : Mode} {ps : List Recognizer} (forms : Forms mode ps)
    {q : Recognizer} (hq : q ∈ ps) : forms.anyOf.Calls q := by
  induction forms with
  | nil => contradiction
  | cons first rest ih =>
    rcases List.mem_cons.1 hq with rfl | hq
    · exact Or.inr (Or.inl (Parts.Calls.self first))
    · exact Or.inr (Or.inr (ih hq))

/-! ## The last state -/

/-- The state that a run ends in is one that it passes through. -/
theorem Parts.mem_trace {mode : Mode} {p : Recognizer} (parts : Parts mode p) (s : State) :
    (p s).2 ∈ parts.trace s := by
  induction parts generalizing s with
  | done o => exact List.mem_singleton.2 rfl
  | note d => exact List.mem_cons_of_mem _ (List.mem_singleton.2 rfl)
  | candidate n => exact List.mem_cons_of_mem _ (List.mem_singleton.2 rfl)
  | reference r => exact List.mem_cons_of_mem _ (List.mem_singleton.2 rfl)
  | ite c first second ih ih' =>
    simp only [trace]
    split
    · exact ih s
    · exact ih' s
  | @readingOr _ r p q reader next otherwise ih ih' =>
    rw [trace, Recognizer.readingOr]
    refine List.mem_append_right _ ?_
    cases r.run s.rest with
    | none => exact ih' s
    | some found => exact ih found.1 _
  | bind first next ih ih' => exact List.mem_append_right _ (ih' _ _)
  | orElse first second ih ih' =>
    simp only [trace]
    split
    · exact List.mem_append_left _ (ih s)
    · exact List.mem_append_right _ (ih' _)
  | followedBy first second ih ih' =>
    simp only [trace, Recognizer.followedBy]
    split
    · exact List.mem_append_right _ (ih' _)
    · exact List.mem_append_left _ (ih s)
  | attempt rollback parts ih => exact List.mem_append_right _ (List.mem_singleton.2 rfl)
  | bounded next ih => exact ih s.rest s
  | @capture r p reader body ih =>
    rw [trace, Recognizer.reading]
    refine List.mem_append_right _ ?_
    cases (Reader.word ['('] *> r).run s.rest with
    | none => exact List.mem_singleton.2 rfl
    | some found => exact List.mem_append_right _ (List.mem_singleton.2 rfl)
  | ofEq heq parts ih =>
    subst heq
    exact ih s

/-! ## Relations along a run -/

/-- A relation between states that holds from each state of a run to those after it, because each
step keeps it and going back does. -/
structure HoldsAlong (mode : Mode) (R : State → State → Prop) : Prop where
  refl (s : State) : R s s
  trans {s s' s'' : State} : R s s' → R s' s'' → R s s''
  /-- A character of the text as it was written. -/
  character (s : State) (c : Char) (rest : List CodeUnit) :
    s.rest = ofChar c ++ rest → R s { s with rest }
  /-- A character as the mode reads it. -/
  codePoint {s : State} {n : Nat} {rest : List CodeUnit} :
    (Reader.codePoint mode).run s.rest = some (n, rest) → R s { s with rest }
  note (s : State) (d : Diagnostic) : R s (s.note d)
  candidate (s : State) (n : Nat) : R s (s.addCandidate n)
  reference (s : State) (r : Reference) : R s (s.addReference r)
  undo {s s' : State} (rollback : Rollback) : R s s' → R s (s'.undo rollback s)
  /-- A capturing group, from before its parenthesis to after it. -/
  closeGroup {s s' : State} {rest : List CodeUnit} (name : Option String) :
    (Reader.word ['(']).run s.rest = some ((), rest) → R { s with rest } s' →
      R s (Grammar.closeGroup name s').2

namespace HoldsAlong

variable {mode : Mode} {R : State → State → Prop} {p : Recognizer} {s t : State}

/-- While it only reads, a recognizer keeps what it found. -/
theorem reader (h : HoldsAlong mode R) :
    Reader.HoldsAlong mode fun text rest => ∀ s : State, s.rest = text → R s { s with rest } where
  refl text s hs := by
    subst hs
    exact h.refl s
  trans {_ second third} h₁ h₂ s hs := h.trans (h₁ s hs) (h₂ { s with rest := second } rfl)
  character c rest s hs := h.character s c rest hs
  codePoint hrun s hs := by
    subst hs
    exact h.codePoint hrun

theorem of_mem_movedTo (h : HoldsAlong mode R) {α : Type} {r : Reader α} (parts : r.Parts mode)
    (ht : t ∈ movedTo s (parts.trace s.rest)) : R s t := by
  rcases List.mem_map.1 ht with ⟨rest, hrest, rfl⟩
  exact h.reader.of_mem_trace parts hrest s rfl

theorem of_run (h : HoldsAlong mode R) {α : Type} {r : Reader α} (parts : r.Parts mode) {a : α}
    {rest : List CodeUnit} (hrun : r.run s.rest = some (a, rest)) : R s { s with rest } :=
  h.reader.of_mem_trace parts (parts.mem_trace_of_run hrun) s rfl

/-- From where a recognizer begins the relation holds to every state that it passes through. -/
theorem of_mem_trace (h : HoldsAlong mode R) (parts : Parts mode p) (ht : t ∈ parts.trace s) :
    R s t := by
  induction parts generalizing s t with
  | done o =>
    obtain rfl := List.mem_singleton.1 ht
    exact h.refl t
  | note d =>
    rcases List.mem_cons.1 ht with rfl | hmem
    · exact h.refl t
    · obtain rfl := List.mem_singleton.1 hmem
      exact h.note s _
  | candidate n =>
    rcases List.mem_cons.1 ht with rfl | hmem
    · exact h.refl t
    · obtain rfl := List.mem_singleton.1 hmem
      exact h.candidate s n
  | reference r =>
    rcases List.mem_cons.1 ht with rfl | hmem
    · exact h.refl t
    · obtain rfl := List.mem_singleton.1 hmem
      exact h.reference s r
  | ite c first second ih ih' =>
    rw [Parts.trace] at ht
    split at ht
    · exact ih ht
    · exact ih' ht
  | readingOr reader next otherwise ih ih' =>
    rw [Parts.trace] at ht
    rcases List.mem_append.1 ht with hmem | hmem
    · exact h.of_mem_movedTo reader hmem
    · split at hmem
      next a rest hrun => exact h.trans (h.of_run reader hrun) (ih a hmem)
      next => exact ih' hmem
  | bind first next ih ih' =>
    rcases List.mem_append.1 ht with hmem | hmem
    · exact ih hmem
    · exact h.trans (ih (first.mem_trace s)) (ih' _ hmem)
  | orElse first second ih ih' =>
    rcases List.mem_append.1 ht with hmem | hmem
    · exact ih hmem
    · split at hmem
      · contradiction
      · exact h.trans (ih (first.mem_trace s)) (ih' hmem)
  | followedBy first second ih ih' =>
    rcases List.mem_append.1 ht with hmem | hmem
    · exact ih hmem
    · split at hmem
      · exact h.trans (ih (first.mem_trace s)) (ih' hmem)
      · contradiction
  | @attempt p rollback parts ih =>
    rcases List.mem_append.1 ht with hmem | hmem
    · exact ih hmem
    · obtain rfl := List.mem_singleton.1 hmem
      have hlast : R s (p s).2 := ih (parts.mem_trace s)
      cases hmatch : (p s).1.isMatch with
      | true =>
        rw [attempt_of_match hmatch]
        exact hlast
      | false =>
        rw [attempt_of_noMatch hmatch]
        exact h.undo rollback hlast
  | bounded next ih => exact ih s.rest ht
  | @capture r p reader body ih =>
    rw [Parts.trace] at ht
    rcases List.mem_append.1 ht with hmem | hmem
    · exact h.of_mem_movedTo _ hmem
    · split at hmem
      next name rest hrun =>
        have hopen : R s { s with rest } :=
          h.of_run (Reader.Parts.seqRight (.word ['(']) reader) hrun
        rcases List.mem_append.1 hmem with hmem | hmem
        · exact h.trans hopen (ih hmem)
        · obtain rfl := List.mem_singleton.1 hmem
          have hbody : R { s with rest } (p { s with rest }).2 := ih (body.mem_trace _)
          cases hmatch : (p { s with rest }).1.isMatch with
          | false =>
            rw [followedBy_of_noMatch hmatch]
            exact h.trans hopen hbody
          | true =>
            rw [followedBy_of_match hmatch]
            -- the group is paid for by the parenthesis, which comes before the name
            simp only [seqRight_eq_bind, StateT.run_bind, Option.bind_eq_bind,
              Option.bind_eq_some_iff, Prod.exists] at hrun
            rcases hrun with ⟨_, inside, hparen, hname⟩
            exact h.closeGroup name hparen (h.trans (h.of_run reader hname) hbody)
      next =>
        obtain rfl := List.mem_singleton.1 hmem
        exact h.refl t
  | ofEq heq parts ih => exact ih ht

/-- The relation holds from where a recognizer begins to where it ends. -/
theorem of_parts (h : HoldsAlong mode R) (parts : Parts mode p) (s : State) : R s (p s).2 :=
  h.of_mem_trace parts (parts.mem_trace s)

end HoldsAlong

end Recognizer

end EcmaPattern
