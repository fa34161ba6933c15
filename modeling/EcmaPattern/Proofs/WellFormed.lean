import EcmaPattern.Proofs.Atomicity
import EcmaPattern.Proofs.Run.Loop
import EcmaPattern.Proofs.Run.Value

namespace EcmaPattern

open Recognizer

/-! # Well-formed evidence

Names and references are never taken back, so what is kept of a failed attempt must be as good as
what is kept of a match: each name is one of an identifier, and each number is positive. Every
recognizer of the grammar keeps this at each state on its way. On the side it is shown that what it
finds is a character of the mode, if it is a single one.
-/

/-! ## States -/

/-- The text is the name of an identifier, in legacy mode one of single units. -/
def IsName (mode : Mode) (name : String) : Prop :=
  ∃ first more, name = String.ofList (first :: more) ∧
    (first = '$' ∨ first = '_' ∨ Identifier.isStart first.toNat = true) ∧
    (∀ c ∈ more, c = '$' ∨ c.toNat = Identifier.zeroWidthNonJoiner ∨
      c.toNat = Identifier.zeroWidthJoiner ∨ Identifier.isPart c.toNat = true) ∧
    (mode = .legacy → ∀ c ∈ first :: more, c.toNat < 0x10000)

/-- The reference has a name, or in legacy mode none. -/
def IsReference (mode : Mode) : Reference → Prop
  | .named name => IsName mode name
  | .malformed => mode = .legacy

/-- What the state knows about groups and references is in order. -/
structure State.WellFormed (mode : Mode) (s : State) : Prop where
  names : ∀ name ∈ s.names, IsName mode name
  references : ∀ r ∈ s.references, IsReference mode r
  candidates : ∀ n ∈ s.candidates, 1 ≤ n

namespace State.WellFormed

variable {mode : Mode} {s s' : State}

theorem start (text : List CodeUnit) : (State.start text).WellFormed mode :=
  ⟨List.forall_mem_nil _, List.forall_mem_nil _, List.forall_mem_nil _⟩

theorem moved (h : s.WellFormed mode) (rest : List CodeUnit) :
    ({ s with rest } : State).WellFormed mode := ⟨h.names, h.references, h.candidates⟩

theorem note (h : s.WellFormed mode) (d : Diagnostic) : (s.note d).WellFormed mode :=
  ⟨h.names, h.references, h.candidates⟩

theorem addGroups (h : s.WellFormed mode) (count : Nat) : (s.addGroups count).WellFormed mode :=
  ⟨h.names, h.references, h.candidates⟩

theorem addCandidate (h : s.WellFormed mode) {n : Nat} (hn : 1 ≤ n) :
    (s.addCandidate n).WellFormed mode :=
  { h with candidates := List.forall_mem_append.2 ⟨h.candidates, List.forall_mem_singleton.2 hn⟩ }

theorem addReference (h : s.WellFormed mode) {r : Reference} (hr : IsReference mode r) :
    (s.addReference r).WellFormed mode :=
  { h with references := List.forall_mem_append.2 ⟨h.references, List.forall_mem_singleton.2 hr⟩ }

theorem addName (h : s.WellFormed mode) {name : String} (hname : IsName mode name) :
    ({ s with names := s.names ++ [name] } : State).WellFormed mode :=
  { h with names := List.forall_mem_append.2 ⟨h.names, List.forall_mem_singleton.2 hname⟩ }

/-- Going back leaves names and references as they are, or takes them from the earlier state. -/
theorem undo (h : s.WellFormed mode) (h' : s'.WellFormed mode) (rollback : Rollback) :
    (s'.undo rollback s).WellFormed mode := by
  cases rollback with
  | numbers => exact ⟨h'.names, h'.references, h.candidates⟩
  | everything => exact ⟨h.names, h.references, h.candidates⟩

theorem closeGroup (h : s.WellFormed mode) {name : Option String}
    (hname : ∀ n, name = some n → IsName mode n) :
    (Grammar.closeGroup name s).2.WellFormed mode := by
  cases name with
  | none => exact h.addGroups 1
  | some n =>
    simp only [Grammar.closeGroup, State.addName?]
    by_cases htaken : n ∈ s.names
    · rw [if_pos htaken]
      exact h.note _
    · rw [if_neg htaken]
      exact (h.addName (hname n rfl)).addGroups 1

end State.WellFormed

/-- A single character that was found is one of the mode. -/
def Outcome.InRange (mode : Mode) (o : Outcome) : Prop := ∀ n, o = .codePoint n → n ≤ mode.largest

/-! ## Recognizers -/

namespace Recognizer

variable {mode : Mode} {α : Type} {p q : Recognizer} {r : Reader α} {P : α → Prop}

/-- From a state that is in order the recognizer passes through such states only, and from any state
it finds what it should. -/
structure Parts.Keeps (parts : Parts mode p) : Prop where
  wellFormed : ∀ s : State, s.WellFormed mode → ∀ t ∈ parts.trace s, t.WellFormed mode
  inRange : ∀ s : State, (p s).1.InRange mode

theorem inRange_noMatch : Outcome.noMatch.InRange mode := nofun

theorem inRange_matched : Outcome.matched.InRange mode := nofun

theorem inRange_reading {f : α → Recognizer} (hf : ∀ a s, (f a s).1.InRange mode) (s : State) :
    (reading r f s).1.InRange mode := by
  rw [reading]
  split
  · exact hf _ _
  · exact inRange_noMatch

theorem inRange_followedBy {s : State} (hp : (p s).1.InRange mode)
    (hq : ∀ t, (q t).1.InRange mode) : (p.followedBy q s).1.InRange mode := by
  rw [Recognizer.followedBy]
  split
  · exact hq _
  · exact hp

theorem inRange_closeGroup (name : Option String) (s : State) :
    (Grammar.closeGroup name s).1.InRange mode := by
  rcases closeGroup_cases name s with ⟨names, -, heq⟩ | ⟨d, heq⟩
  · rw [heq]
    exact inRange_matched
  · rw [heq]
    exact inRange_noMatch

theorem wellFormed_movedTo {s : State} (h : s.WellFormed mode) (places : List (List CodeUnit)) :
    ∀ t ∈ movedTo s places, t.WellFormed mode := by
  intro t ht
  rcases List.mem_map.1 ht with ⟨rest, -, rfl⟩
  exact h.moved rest

namespace Parts

/-- From where a reader succeeded the run goes on with what it read. -/
theorem forall_mem_trace_readingOr {f : α → Recognizer} {reader : r.Parts mode}
    {next : ∀ a, Parts mode (f a)} {otherwise : Parts mode q} {s : State}
    (hs : s.WellFormed mode)
    (hnext : ∀ a rest, r.run s.rest = some (a, rest) →
      ∀ t ∈ (next a).trace { s with rest }, t.WellFormed mode)
    (hotherwise : ∀ t ∈ otherwise.trace s, t.WellFormed mode) :
    ∀ t ∈ (Parts.readingOr reader next otherwise).trace s, t.WellFormed mode := by
  rw [trace, List.forall_mem_append]
  refine ⟨wellFormed_movedTo hs _, ?_⟩
  split
  next a rest hrun => exact hnext a rest hrun
  next => exact hotherwise

end Parts

namespace Parts.Keeps

variable {first : Parts mode p} {second : Parts mode q}

/-- The state that a run ends in is one on its way. -/
theorem last (h : first.Keeps) {s : State} (hs : s.WellFormed mode) : (p s).2.WellFormed mode :=
  h.wellFormed s hs _ (first.mem_trace s)

theorem done {o : Outcome} (ho : o.InRange mode) : (Parts.done o : Parts mode _).Keeps where
  wellFormed _ hs := List.forall_mem_singleton.2 hs
  inRange _ := ho

theorem note (d : State → Diagnostic) : (Parts.note d : Parts mode _).Keeps where
  wellFormed _ hs := List.forall_mem_cons.2 ⟨hs, List.forall_mem_singleton.2 (hs.note _)⟩
  inRange _ := inRange_noMatch

theorem reference {r : Reference} (hr : IsReference mode r) :
    (Parts.reference r : Parts mode _).Keeps where
  wellFormed _ hs := List.forall_mem_cons.2 ⟨hs, List.forall_mem_singleton.2 (hs.addReference hr)⟩
  inRange _ := inRange_matched

theorem ite (c : State → Prop) [DecidablePred c] (h : first.Keeps) (h' : second.Keeps) :
    (Parts.ite c first second).Keeps where
  wellFormed s hs := by
    rw [trace]
    split
    · exact h.wellFormed s hs
    · exact h'.wellFormed s hs
  inRange s := by
    split
    · exact h.inRange s
    · exact h'.inRange s

theorem readingOr {f : α → Recognizer} {reader : r.Parts mode} {next : ∀ a, Parts mode (f a)}
    (hr : r.Finds P) (hnext : ∀ a, P a → (next a).Keeps) (h' : second.Keeps) :
    (Parts.readingOr reader next second).Keeps where
  wellFormed s hs := forall_mem_trace_readingOr hs
    (fun a rest hrun => (hnext a (hr _ _ _ hrun)).wellFormed _ (hs.moved rest))
    (h'.wellFormed s hs)
  inRange s := by
    rw [Recognizer.readingOr]
    split
    next a rest hrun => exact (hnext a (hr _ _ _ hrun)).inRange _
    next => exact h'.inRange s

theorem reading {f : α → Recognizer} {reader : r.Parts mode} {next : ∀ a, Parts mode (f a)}
    (hr : r.Finds P) (hnext : ∀ a, P a → (next a).Keeps) : (Parts.reading reader next).Keeps :=
  readingOr hr hnext (done inRange_noMatch)

theorem character {r : Reader Nat} {reader : r.Parts mode} (hr : r.Finds (· ≤ mode.largest)) :
    (Parts.character reader).Keeps :=
  reading (P := fun o : Outcome => o.InRange mode)
    (hr.map fun n hn m hm => by
      obtain rfl := Outcome.codePoint.inj hm
      exact hn)
    fun _ ho => done ho

theorem plain {reader : r.Parts mode} : (Parts.plain reader).Keeps :=
  reading (P := fun o : Outcome => o.InRange mode) (.then_ _ (.pure inRange_matched))
    fun _ ho => done ho

theorem bind {f : Outcome → Recognizer} {next : ∀ o, Parts mode (f o)} (h : first.Keeps)
    (hnext : ∀ o, (next o).Keeps) : (Parts.bind first next).Keeps where
  wellFormed s hs :=
    List.forall_mem_append.2 ⟨h.wellFormed s hs, (hnext _).wellFormed _ (h.last hs)⟩
  inRange _ := (hnext _).inRange _

/-- What is run second may count on the failure of the first. -/
theorem orElse_of_noMatch (h : first.Keeps)
    (h' : ∀ s : State, (p s).1.isMatch = false → (p s).2.WellFormed mode →
      ∀ t ∈ second.trace (p s).2, t.WellFormed mode)
    (hrange : ∀ s, (q s).1.InRange mode) : (Parts.orElse first second).Keeps where
  wellFormed s hs := by
    rw [trace, List.forall_mem_append]
    refine ⟨h.wellFormed s hs, ?_⟩
    split
    next => exact List.forall_mem_nil _
    next hnone => exact h' s (Bool.eq_false_iff.2 hnone) (h.last hs)
  inRange s := by
    split
    · exact h.inRange s
    · exact hrange _

theorem orElse (h : first.Keeps) (h' : second.Keeps) : (Parts.orElse first second).Keeps :=
  h.orElse_of_noMatch (fun _ _ => h'.wellFormed _) h'.inRange

theorem followedBy (h : first.Keeps) (h' : second.Keeps) :
    (Parts.followedBy first second).Keeps where
  wellFormed s hs := by
    rw [trace, List.forall_mem_append]
    refine ⟨h.wellFormed s hs, ?_⟩
    split
    · exact h'.wellFormed _ (h.last hs)
    · exact List.forall_mem_nil _
  inRange s := inRange_followedBy (h.inRange s) h'.inRange

theorem attempt (h : first.Keeps) (rollback : Rollback) : (Parts.attempt rollback first).Keeps where
  wellFormed s hs := by
    rw [trace, List.forall_mem_append]
    refine ⟨h.wellFormed s hs, List.forall_mem_singleton.2 ?_⟩
    cases hmatch : (p s).1.isMatch with
    | true =>
      rw [attempt_of_match hmatch]
      exact h.last hs
    | false =>
      rw [attempt_of_noMatch hmatch]
      exact hs.undo (h.last hs) rollback
  inRange s := by
    cases hmatch : (p s).1.isMatch with
    | true =>
      rw [attempt_of_match hmatch]
      exact h.inRange s
    | false =>
      rw [attempt_of_noMatch hmatch]
      exact inRange_noMatch

theorem bounded {f : List CodeUnit → Recognizer} {next : ∀ bound, Parts mode (f bound)}
    (h : ∀ bound, (next bound).Keeps) : (Parts.bounded next).Keeps where
  wellFormed s hs := (h s.rest).wellFormed s hs
  inRange s := (h s.rest).inRange s

theorem ofEq (heq : p = q) (h : first.Keeps) : (Parts.ofEq heq first).Keeps where
  wellFormed := h.wellFormed
  inRange := heq ▸ h.inRange

/-- A group keeps its name where it closes. -/
theorem capture {r : Reader (Option String)} {reader : r.Parts mode}
    (hr : r.Finds fun name => ∀ n, name = some n → IsName mode n) (h : first.Keeps) :
    (Parts.capture reader first).Keeps where
  wellFormed s hs := by
    rw [trace, List.forall_mem_append]
    refine ⟨wellFormed_movedTo hs _, ?_⟩
    split
    next name rest hrun =>
      have hname : ∀ n, name = some n → IsName mode n := Reader.Finds.then_ _ hr _ _ _ hrun
      have hbody := h.last (hs.moved rest)
      rw [List.forall_mem_append, List.forall_mem_singleton]
      refine ⟨h.wellFormed _ (hs.moved rest), ?_⟩
      cases hmatch : (p { s with rest }).1.isMatch with
      | true =>
        rw [followedBy_of_match hmatch]
        exact hbody.closeGroup hname
      | false =>
        rw [followedBy_of_noMatch hmatch]
        exact hbody
    next => exact List.forall_mem_singleton.2 hs
  inRange := inRange_reading fun _ s => inRange_followedBy (h.inRange s) (inRange_closeGroup _)

end Parts.Keeps

/-- All recognizers of a list keep what one of them should. -/
def Forms.Keeps : {ps : List Recognizer} → Forms mode ps → Prop
  | _, .nil => True
  | _, .cons first rest => first.Keeps ∧ rest.Keeps

namespace Forms.Keeps

variable {ps qs : List Recognizer}

theorem nil : (Forms.nil : Forms mode []).Keeps := trivial

theorem cons {first : Parts mode p} {rest : Forms mode ps} (h : first.Keeps) (h' : rest.Keeps) :
    (Forms.cons first rest).Keeps := ⟨h, h'⟩

theorem append {first : Forms mode ps} {second : Forms mode qs} (h : first.Keeps)
    (h' : second.Keeps) : (first.append second).Keeps := by
  induction first with
  | nil => exact h'
  | cons _ _ ih => exact ⟨h.1, ih h.2⟩

theorem anyOf {forms : Forms mode ps} (h : forms.Keeps) : forms.anyOf.Keeps := by
  induction forms with
  | nil => exact .done inRange_noMatch
  | cons _ _ ih => exact .orElse h.1 (ih h.2)

end Forms.Keeps

end Recognizer

/-! ## The recognizers of the grammar -/

namespace Grammar

variable {mode : Mode} {σ : Settings} {body : Recognizer} {inside : body.Parts σ.mode}
variable {closer : Option (List Char)}

/-! ### Names -/

theorem finds_nameCharacter (p : Nat → Bool) :
    (nameCharacter mode p).Finds fun c => c.toNat ≤ mode.largest ∧ p c.toNat = true := by
  have hend (n : Nat) (hn : n ≤ mode.largest) :
      Reader.Finds (fun c : Char => c.toNat ≤ mode.largest ∧ p c.toNat = true)
        (do guard (p n = true); liftM (CodePoint.toChar? n)) :=
    .bind (.of_guard _) fun _ hp => (Reader.Finds.lift _).mono fun c hc => by
      obtain rfl := toChar?_eq_some_iff.1 hc
      exact ⟨hn, hp⟩
  refine (Reader.Finds.any _).bind fun escaped _ => ?_
  cases escaped with
  | true => exact .bind (.then_ _ finds_unicodeEscape) hend
  | false => exact .bind .codePoint hend

theorem finds_groupName : (groupName mode).Finds (IsName mode) := by
  refine .then_ _ <| (finds_nameCharacter _).bind fun first hfirst =>
    (Reader.Finds.many (finds_nameCharacter _)).bind fun more hmore => .then_ _ <| .pure ?_
  have hchar {c d : Char} (h : (c.toNat == d.toNat) = true) : c = d :=
    Char.toNat_inj.1 (eq_of_beq h)
  refine ⟨first, more, rfl, ?_, fun c hc => ?_, fun hmode c hc => ?_⟩
  · have hstarts := hfirst.2
    rw [Identifier.startsName, Bool.or_eq_true, Bool.or_eq_true, or_assoc] at hstarts
    exact hstarts.imp hchar (Or.imp_left hchar)
  · have hcontinues := (hmore c hc).2
    rw [Identifier.continuesName, Bool.or_eq_true, Bool.or_eq_true, Bool.or_eq_true, or_assoc,
      or_assoc] at hcontinues
    exact hcontinues.imp hchar (Or.imp eq_of_beq (Or.imp_left eq_of_beq))
  · subst hmode
    refine Nat.lt_succ_of_le ?_
    rcases List.mem_cons.1 hc with rfl | hc
    · exact hfirst.1
    · exact (hmore c hc).1

/-! ### Escapes -/

theorem keeps_valuedProperty : (valuedPropertyParts : valuedProperty.Parts mode).Keeps :=
  .reading (.any _) fun _ _ => .ite _ (.done inRange_matched) (.note _)

theorem keeps_propertyForms : (propertyFormsParts σ : Forms mode _).Keeps :=
  .cons (.attempt keeps_valuedProperty _) (.cons (.attempt .plain _) .nil)

theorem keeps_propertyEscape : (propertyEscapeParts σ : Parts mode _).Keeps :=
  .attempt (.reading (.any _) fun _ _ => .followedBy keeps_propertyForms.anyOf .plain) _

theorem keeps_setEscape : (setEscapeParts σ : Parts mode _).Keeps :=
  match σ with
  | ⟨⟨.legacy, _⟩, _⟩ => .plain
  | ⟨⟨.unicode, _⟩, _⟩ => Forms.Keeps.anyOf (.cons .plain (.cons keeps_propertyEscape .nil))

/-- A number after a backslash, without the zero that is tried before it. -/
def number : Recognizer := reading Reader.digits fun digits s =>
  (.matched, s.addCandidate (Numeral.saturated 10 largestReference digits))

def numberParts : number.Parts mode :=
  .readingOr (.asciiRun _) (fun _ => .candidate _) (.done .noMatch)

/-- A number that starts with another digit than zero is positive. -/
theorem one_le_of_digits {text rest : List CodeUnit} {number : List Char}
    (hzero : (Reader.word ['0']).run text = none)
    (hrun : Reader.digits.run text = some (number, rest)) :
    1 ≤ Numeral.saturated 10 largestReference number := by
  rcases Reader.of_run_asciiRun hrun with ⟨hnil, rfl, hdigits⟩
  cases number with
  | nil => contradiction
  | cons c number =>
    have hne : c ≠ '0' := by
      rintro rfl
      have hword : (Reader.word ['0']).run (CodeUnit.encode ('0' :: number) ++ rest) =
          some ((), CodeUnit.encode number ++ rest) := Reader.run_word_eq_some_iff.2 rfl
      rw [hzero] at hword
      contradiction
    have hvalue : 10 ^ 0 ≤ Numeral.value 10 (c :: number) :=
      Numeral.pow_le_value_significant hdigits (by simp [Numeral.significant, hne])
    rw [Numeral.saturated_eq_min _ _ (by decide)]
    exact Nat.le_min.2 ⟨by decide, hvalue⟩

theorem wellFormed_number {s : State} (hs : s.WellFormed mode)
    (hzero : (Reader.word ['0']).run s.rest = none) :
    ∀ t ∈ (numberParts : number.Parts mode).trace s, t.WellFormed mode := by
  refine Parts.forall_mem_trace_readingOr hs (fun number rest hrun => ?_)
    (List.forall_mem_singleton.2 hs)
  have hmoved := hs.moved rest
  exact List.forall_mem_cons.2 ⟨hmoved, List.forall_mem_singleton.2
    (hmoved.addCandidate (one_le_of_digits hzero hrun))⟩

theorem keeps_decimalEscape : (decimalEscapeParts : decimalEscape.Parts mode).Keeps := by
  refine .orElse_of_noMatch (.character (.wordAs (Nat.zero_le _))) (fun s hnone hs => ?_)
    fun s => ?_
  · have hzero : (Reader.word ['0']).run s.rest = none := by
      cases hword : (Reader.word ['0']).run s.rest with
      | none => rfl
      | some found =>
        have hrun : (Reader.wordAs ['0'] 0).run s.rest = some (0, found.2) := by
          simp [Reader.wordAs, seqRight_eq_bind, hword]
        rw [character_of_some hrun] at hnone
        contradiction
    have hrest : (character (Reader.wordAs ['0'] 0) s).2.rest = s.rest :=
      (atomic_character s hnone).rest
    have hnumber := wellFormed_number hs (by rw [hrest]; exact hzero)
    refine List.forall_mem_append.2 ⟨hnumber, ?_⟩
    split
    · exact List.forall_mem_nil _
    · exact List.forall_mem_singleton.2 (hnumber _ (numberParts.mem_trace _))
  · have hnumber : (number s).1.InRange mode := inRange_reading (fun _ _ => inRange_matched) s
    change (anyOf [number] s).1.InRange mode
    cases hmatch : (number s).1.isMatch with
    | true =>
      rw [anyOf_cons_of_match hmatch]
      exact hnumber
    | false =>
      rw [anyOf_cons_of_noMatch hmatch]
      exact inRange_noMatch

theorem finds_referenceAfter : (referenceAfter mode).Finds (IsReference mode) :=
  .then_ _ <| .orElse (finds_groupName.map fun _ hname => hname)
    (.bind (.of_guard _) fun _ hmode => .pure hmode)

theorem keeps_namedReference : (namedReferenceParts : (namedReference mode).Parts mode).Keeps :=
  .reading finds_referenceAfter fun _ hr => .reference hr

theorem keeps_characterEscape : (Parts.character (characterEscapeParts mode)).Keeps :=
  .character finds_characterEscape

theorem keeps_atomEscapeForms : (atomEscapeFormsParts σ).Keeps :=
  ⟨keeps_decimalEscape, keeps_setEscape, keeps_characterEscape, keeps_namedReference, trivial⟩

/-! ### Classes -/

theorem finds_wordAs_small {w : List Char} {n : Nat} (h : n ≤ 0xFFFF) :
    (Reader.wordAs w n).Finds (· ≤ mode.largest) := Reader.Finds.small (.wordAs h)

theorem keeps_classEscapeForms : (classEscapeFormsParts σ).Keeps :=
  match σ with
  | ⟨⟨.unicode, _⟩, _⟩ =>
    ⟨.character (finds_wordAs_small (by decide)), .character (finds_wordAs_small (by decide)),
      keeps_setEscape, keeps_characterEscape, trivial⟩
  | ⟨⟨.legacy, _⟩, _⟩ =>
    ⟨.character (finds_wordAs_small (by decide)), .character finds_classControlEscape,
      keeps_setEscape, keeps_characterEscape, .character (finds_wordAs_small (by decide)), trivial⟩

theorem keeps_classAtomNoDash : (classAtomNoDashParts σ).Keeps :=
  Forms.Keeps.anyOf <|
    .cons (.character ((finds_codePointIf _).mono fun _ h => h.1)) <|
      .cons (.attempt (.reading (.any _) fun _ _ => (keeps_classEscapeForms.append
        (.cons (.character (finds_classBackslash.small)) .nil)).anyOf) _)
        .nil

theorem keeps_classAtom : (classAtomParts σ).Keeps :=
  Forms.Keeps.anyOf
    (.cons (.character (finds_wordAs_small (by decide))) (.cons keeps_classAtomNoDash .nil))

theorem keeps_classRangesFrom (bound : List CodeUnit) (low : Outcome) :
    (classRangesFromParts σ bound low).Keeps := by
  induction bound generalizing low with
  | nil => exact .done inRange_noMatch
  | cons u bound ih =>
    refine .ofEq _ (.ite _ (.done inRange_noMatch) (.ite _ (.done inRange_matched)
      (.readingOr (.any _) (fun _ _ => ?_) (.bind keeps_classAtomNoDash ih))))
    exact .ite _ (.done inRange_matched) (.bind keeps_classAtom fun high =>
      .ite _ (.done inRange_noMatch) (.ite _ (.done inRange_matched) (.bind keeps_classAtom ih)))

theorem keeps_classRanges : (classRangesParts σ).Keeps :=
  .bounded fun bound => .bind keeps_classAtom (keeps_classRangesFrom bound)

theorem keeps_characterClass : (characterClassParts σ).Keeps :=
  .attempt (.reading (.any _) fun _ _ =>
    Forms.Keeps.anyOf (.cons .plain (.cons (.followedBy keeps_classRanges .plain) .nil))) _

/-! ### Terms -/

theorem keeps_labelledGroup (h : inside.Keeps) (labels : List (List Char)) :
    (labelledGroupParts inside labels).Keeps :=
  .attempt (.reading (.any _) fun _ _ => h) _

theorem keeps_capturingGroup (h : inside.Keeps) : (capturingGroupParts inside).Keeps := by
  refine .attempt (.capture ?_ h) _
  refine .orElse (Reader.Finds.map (P := IsName σ.mode) (.then_ _ finds_groupName) ?_) (.pure nofun)
  intro name hname n hn
  obtain rfl := Option.some.inj hn
  exact hname

theorem keeps_escapedAtom : (escapedAtomParts σ).Keeps :=
  .attempt (.reading (.any _) fun _ _ => keeps_atomEscapeForms.anyOf) _

theorem keeps_patternCharacter :
    (Parts.character (patternCharacterParts : (patternCharacter mode).Parts mode)).Keeps :=
  .character ((finds_codePointIf _).mono fun _ h => h.1)

theorem keeps_extendedCharacter : (Parts.character extendedCharacterParts).Keeps :=
  .character (.then_ _ ((finds_codePointIf _).mono fun _ h => h.1))

theorem keeps_atomForms (h : inside.Keeps) : (atomFormsParts inside).Keeps :=
  match σ, inside, h with
  | ⟨⟨.unicode, _⟩, _⟩, _, h =>
    ⟨keeps_patternCharacter, .plain, keeps_escapedAtom, keeps_characterClass,
      keeps_labelledGroup h _, keeps_capturingGroup h, trivial⟩
  | ⟨⟨.legacy, _⟩, _⟩, _, h =>
    ⟨.plain, keeps_escapedAtom, .plain, keeps_characterClass, keeps_labelledGroup h _,
      keeps_capturingGroup h, keeps_extendedCharacter, trivial⟩

theorem keeps_atom (h : inside.Keeps) : (atomParts inside).Keeps := (keeps_atomForms h).anyOf

theorem keeps_assertion (h : inside.Keeps) : (assertionParts inside).Keeps :=
  Forms.Keeps.anyOf (.cons .plain (.cons (keeps_labelledGroup h _) .nil))

theorem keeps_quantified {p : Recognizer} {parts : p.Parts σ.mode} (h : parts.Keeps) :
    (quantifiedParts parts).Keeps := .attempt (.followedBy h .plain) _

theorem keeps_termForms (h : inside.Keeps) : (termFormsParts inside).Keeps :=
  match σ, inside, h with
  | ⟨⟨.unicode, _⟩, _⟩, _, h => ⟨keeps_assertion h, keeps_quantified (keeps_atom h), trivial⟩
  | ⟨⟨.legacy, _⟩, _⟩, _, h =>
    ⟨keeps_quantified (keeps_labelledGroup h _), keeps_assertion h,
      keeps_quantified (keeps_atom h), trivial⟩

theorem keeps_term (h : inside.Keeps) : (termParts inside).Keeps := (keeps_termForms h).anyOf

/-! ### Disjunctions -/

theorem keeps_alternativeWithin (h : inside.Keeps) (bound : List CodeUnit) :
    (alternativeWithinParts inside closer bound).Keeps := by
  induction bound with
  | nil => exact .ite _ (.done inRange_matched) (.done inRange_noMatch)
  | cons u bound ih => exact .ite _ (.done inRange_matched) (.followedBy (keeps_term h) ih)

theorem keeps_alternative (h : inside.Keeps) : (alternativeParts inside closer).Keeps :=
  .bounded (keeps_alternativeWithin h)

theorem keeps_alternativesRound (h : inside.Keeps) {bound : List CodeUnit}
    {after : (afterAlternative σ body closer bound).Parts σ.mode} (hafter : after.Keeps) :
    (alternativesRoundParts inside bound closer after).Keeps := by
  cases closer with
  | none => exact .ofEq _ (.followedBy (keeps_alternative h) hafter)
  | some w =>
    exact .ofEq _ (.readingOr (.any _) (fun _ _ => .done inRange_matched)
      (.followedBy (keeps_alternative h) hafter))

theorem keeps_alternativesWithin (h : inside.Keeps) (bound : List CodeUnit) :
    (alternativesWithinParts inside closer bound).Keeps := by
  induction bound with
  | nil => exact keeps_alternativesRound h (.ofEq _ .plain)
  | cons u bound ih =>
    exact keeps_alternativesRound h (.ofEq _ (.readingOr (.any _) (fun _ _ => ih) .plain))

theorem keeps_alternatives (h : inside.Keeps) : (alternativesParts inside closer).Keeps :=
  .bounded (keeps_alternativesWithin h)

theorem keeps_groupBody (room : Nat) : (groupBodyParts σ room).Keeps := by
  induction room with
  | zero => exact .note _
  | succ room ih => exact keeps_alternatives ih

theorem keeps_disjunction (room : Nat) : (disjunctionParts σ room closer).Keeps :=
  keeps_alternatives (keeps_groupBody room)

end Grammar

end EcmaPattern
