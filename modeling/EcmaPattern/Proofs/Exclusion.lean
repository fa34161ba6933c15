import Mathlib.Data.List.Basic
import EcmaPattern.Proofs.Recognition.Disjunction
import EcmaPattern.Proofs.Recognition.Idle

namespace EcmaPattern

open CodeUnit Form Recognizer

/-! # Forms that exclude each other

In Unicode mode the order in which the forms of a term and of an atom are tried does not matter:
where one of them can match, all others fail before they do anything. For groups this takes more
than a look at the first characters, since a capturing group starts with the parenthesis that opens
every other group as well. It is what stands in parentheses that fails there, because nothing in
parentheses starts with a question mark.
-/

namespace Recognizer

variable {mode : Mode} {p q r : Recognizer} {ps qs before after : List Recognizer} {s : State}

/-! ## Results that agree -/

/-- The recognizers `p` and `q` match in the same states, with the same results. They may leave
different traces where they fail. -/
def Agree (p q : Recognizer) : Prop :=
  ∀ s, (p s).1.isMatch = true ∨ (q s).1.isMatch = true → p s = q s

namespace Agree

theorem refl (p : Recognizer) : Agree p p := fun _ _ => rfl

theorem symm (h : Agree p q) : Agree q p := fun s hs => (h s hs.symm).symm

theorem noMatch (h : Agree p q) (hq : (q s).1.isMatch = false) : (p s).1.isMatch = false := by
  cases hp : (p s).1.isMatch with
  | false => rfl
  | true => rw [← hp, h s (Or.inl hp), hq]

theorem trans (h : Agree p q) (h' : Agree q r) : Agree p r := by
  intro s hs
  have hq : (q s).1.isMatch = true := by
    rcases hs with hs | hs
    · rwa [← h s (Or.inl hs)]
    · rwa [h' s (Or.inr hs)]
  exact (h s (Or.inr hq)).trans (h' s (Or.inl hq))

theorem recognizes {α : Type} {m : Meaning α} {R : Form α} (h : Agree p q)
    (hq : Recognizes mode m q R) : Recognizes mode m p R :=
  fun s => (hq s).of_match (fun hs => h s (Or.inr hs)) h.noMatch

theorem followedBy {p' q' : Recognizer} (h : Agree p q) (h' : Agree p' q') :
    Agree (p.followedBy p') (q.followedBy q') := by
  intro s hs
  have hmatch := hs.imp isMatch_of_followedBy isMatch_of_followedBy
  have heq := h s hmatch
  have hp : (p s).1.isMatch = true := hmatch.elim id (heq ▸ ·)
  rw [followedBy_of_match hp, followedBy_of_match (heq ▸ hp), ← heq] at hs ⊢
  exact h' _ hs

theorem attempt (h : Agree p q) (rollback : Rollback) :
    Agree (attempt rollback p) (attempt rollback q) := by
  intro s hs
  cases hp : (p s).1.isMatch with
  | true =>
    have heq := h s (Or.inl hp)
    rw [attempt_of_match hp, attempt_of_match (heq ▸ hp), heq]
  | false =>
    rw [attempt_of_noMatch hp, attempt_of_noMatch (h.symm.noMatch hp)] at hs
    rcases hs with hs | hs <;> contradiction

theorem anyOf_cons (h : Agree (anyOf ps) (anyOf qs)) (p : Recognizer) :
    Agree (anyOf (p :: ps)) (anyOf (p :: qs)) := by
  intro s hs
  cases hp : (p s).1.isMatch with
  | true => rw [anyOf_cons_of_match hp, anyOf_cons_of_match hp]
  | false =>
    rw [anyOf_cons_of_noMatch hp, anyOf_cons_of_noMatch hp] at hs ⊢
    exact h _ hs

end Agree

/-! ## Exclusive forms -/

/-- At each text either none of the forms matches, whatever was found before, or there is one beside
which all others are idle. -/
def Exclusive (ps : List Recognizer) : Prop :=
  ∀ units : List CodeUnit,
    (∀ s : State, s.rest = units → ∀ p ∈ ps, (p s).1.isMatch = false) ∨
      ∃ before p after, ps = before ++ p :: after ∧
        ∀ s : State, s.rest = units → ∀ q ∈ before ++ after, Idle q s

/-- A form that no text of the others starts with may be tried with them. -/
theorem Exclusive.cons {H : Text → Prop} (hp : ConfinedTo mode H p)
    (hother : ∀ s : State, H (decode mode s.rest) → ∀ q ∈ ps, Idle q s) (h : Exclusive ps) :
    Exclusive (p :: ps) := by
  intro units
  by_cases hat : H (decode mode units)
  · exact Or.inr ⟨[], p, ps, rfl, fun s hs => hother s (hs ▸ hat)⟩
  · have hidle (s : State) (hs : s.rest = units) : Idle p s := hp.idle (hs ▸ hat)
    rcases h units with hnone | ⟨before, q, after, rfl, hsole⟩
    · exact Or.inl fun s hs => List.forall_mem_cons.2 ⟨(hidle s hs).isMatch, hnone s hs⟩
    · exact Or.inr ⟨p :: before, q, after, rfl, fun s hs =>
        List.forall_mem_cons.2 ⟨hidle s hs, hsole s hs⟩⟩

/-- Where one form matches, the others fail and change nothing. -/
theorem Exclusive.idle (h : Exclusive (before ++ p :: after)) (hmatch : (p s).1.isMatch = true) :
    ∀ q ∈ before ++ after, Idle q s := by
  rcases h s.rest with hnone | ⟨before', p', after', heq, hidle⟩
  · rw [hnone s rfl p (by simp)] at hmatch
    contradiction
  · have hactive {q : Recognizer} (hq : q ∈ before' ++ after') : q ≠ p := by
      rintro rfl
      rw [(hidle s rfl q hq).isMatch] at hmatch
      contradiction
    have hbefore : p ∉ before' := fun hp => hactive (List.mem_append_left after' hp) rfl
    have hafter : p ∉ after' := fun hp => hactive (List.mem_append_right before' hp) rfl
    -- so the form that may do something stands where `p` does
    obtain ⟨rfl, -, rfl⟩ := (List.append_cons_inj_of_notMem hbefore hafter).1 heq.symm
    exact hidle s rfl

theorem Exclusive.countP_le_one (h : Exclusive ps) (s : State) :
    ps.countP (fun p => (p s).1.isMatch) ≤ 1 := by
  have hzero {qs : List Recognizer} (hqs : ∀ q ∈ qs, (q s).1.isMatch = false) :
      qs.countP (fun p => (p s).1.isMatch) = 0 := by
    refine List.countP_eq_zero.2 fun q hq => ?_
    rw [hqs q hq]
    decide
  rcases h s.rest with hnone | ⟨before, p, after, rfl, hidle⟩
  · rw [hzero (hnone s rfl)]
    exact Nat.zero_le 1
  · have hsole := List.forall_mem_append.1 (hidle s rfl)
    rw [List.countP_append, List.countP_cons, hzero fun q hq => (hsole.1 q hq).isMatch,
      hzero fun q hq => (hsole.2 q hq).isMatch]
    split <;> decide

/-! ## Choices between them -/

theorem isMatch_anyOf_of_forall (hatomic : ∀ p ∈ ps, p.Atomic)
    (h : ∀ s' : State, s'.rest = s.rest → ∀ p ∈ ps, (p s').1.isMatch = false) :
    (anyOf ps s).1.isMatch = false := by
  induction ps generalizing s with
  | nil => rfl
  | cons p ps ih =>
    rw [List.forall_mem_cons] at hatomic
    have hp := h s rfl p List.mem_cons_self
    rw [anyOf_cons_of_noMatch hp]
    refine ih hatomic.2 fun s' hs' q hq => h s' ?_ q (List.mem_cons_of_mem p hq)
    exact hs'.trans (hatomic.1 s hp).rest

/-- Beside idle forms a choice does what the one form does. -/
theorem anyOf_eq_of_idle (hp : p.Atomic)
    (h : ∀ s' : State, s'.rest = s.rest → ∀ q ∈ before ++ after, Idle q s') :
    anyOf (before ++ p :: after) s = p s := by
  rw [anyOf_append_of_idle (List.forall_mem_append.1 (h s rfl)).1]
  cases hmatch : (p s).1.isMatch with
  | true => rw [anyOf_cons_of_match hmatch]
  | false =>
    have hidle := (List.forall_mem_append.1 (h (p s).2 (hp s hmatch).rest)).2
    rw [anyOf_cons_of_noMatch hmatch, anyOf_of_idle hidle, ← eq_noMatch_of_isMatch hmatch]

/-- Another order of a list has its members around each of them. -/
theorem exists_split_of_perm (h : qs.Perm (before ++ p :: after)) :
    ∃ before' after', qs = before' ++ p :: after' ∧
      ∀ q ∈ before' ++ after', q ∈ before ++ after := by
  have hp : p ∈ qs := h.mem_iff.2 (by simp)
  rcases List.append_of_mem hp with ⟨before', after', rfl⟩
  have hrest : (before' ++ after').Perm (before ++ after) :=
    (List.perm_middle.symm.trans (h.trans List.perm_middle)).cons_inv
  exact ⟨before', after', rfl, fun q => hrest.mem_iff.1⟩

/-- Exclusive forms may be tried in any order. -/
theorem Exclusive.agree (h : Exclusive ps) (hatomic : ∀ p ∈ ps, p.Atomic) (hperm : qs.Perm ps) :
    Agree (anyOf qs) (anyOf ps) := by
  have hmem : ∀ q ∈ qs, q ∈ ps := fun q => hperm.mem_iff.1
  intro s hs
  rcases h s.rest with hnone | ⟨before, p, after, rfl, hidle⟩
  · rw [isMatch_anyOf_of_forall hatomic hnone, isMatch_anyOf_of_forall
      (fun q hq => hatomic q (hmem q hq)) fun s' hs' q hq => hnone s' hs' q (hmem q hq)] at hs
    rcases hs with hs | hs <;> contradiction
  · rcases exists_split_of_perm hperm with ⟨before', after', rfl, hsub⟩
    have hp := hatomic p (by simp)
    rw [anyOf_eq_of_idle hp hidle, anyOf_eq_of_idle hp fun s' hs' q hq =>
      hidle s' hs' q (hsub q hq)]

end Recognizer

namespace Grammar

variable {σ : Settings} {body p : Recognizer} {s : State} {room : Nat} {c : Char} {t : Text}

/-! ## First characters -/

/-- The recognizer does nothing to a text that starts with another character than `c`. -/
def StartsAt (c : Char) (p : Recognizer) : Prop :=
  ConfinedTo .unicode (fun x => ∃ t, word [c] x t) p

theorem StartsAt.idle (h : StartsAt c p) {d : Char} {w : List Char}
    (hp : word (d :: w) (decode .unicode s.rest) t) (hd : d ≠ c) : Idle p s :=
  ConfinedTo.idle h fun ⟨_, ht⟩ => not_word_of_word hp hd ht

theorem startsAt_dot : StartsAt '.' (plain (Reader.word ['.'])) := confinedTo_dot

theorem startsAt_escapedAtom : StartsAt '\\' (escapedAtom σ) := confinedTo_escapedAtom

theorem startsAt_characterClass : StartsAt '[' (characterClass σ) := confinedTo_characterClass

theorem startsAt_labelledGroup : StartsAt '(' (labelledGroup σ body [['?', ':']]) := by
  refine (confinedTo_labelledGroup _ (by decide) (by decide)).mono ?_
  rintro x ⟨w, hw, t, h⟩
  obtain rfl := List.mem_singleton.1 hw
  exact ⟨_, h⟩

theorem startsAt_capturingGroup (hmode : σ.mode = .unicode) :
    StartsAt '(' (capturingGroup σ body) := confinedTo_capturingGroup hmode

/-- The forms of an atom but for a character that stands for itself. -/
def afterCharacter (σ : Settings) (body : Recognizer) : List Recognizer :=
  [plain (Reader.word ['.']), escapedAtom σ, characterClass σ, labelledGroup σ body [['?', ':']],
    capturingGroup σ body]

theorem startsAt_of_mem (hmode : σ.mode = .unicode) :
    ∀ p ∈ afterCharacter σ body, ∃ c ∈ ['.', '\\', '[', '('], StartsAt c p := by
  simp only [afterCharacter, List.forall_mem_cons]
  exact ⟨⟨'.', by simp, startsAt_dot⟩, ⟨'\\', by simp, startsAt_escapedAtom⟩,
    ⟨'[', by simp, startsAt_characterClass⟩, ⟨'(', by simp, startsAt_labelledGroup⟩,
    ⟨'(', by simp, startsAt_capturingGroup hmode⟩, List.forall_mem_nil _⟩

theorem atomForms_eq_cons (hmode : σ.mode = .unicode) : atomForms σ body =
    character (patternCharacter .unicode) :: afterCharacter σ body := by
  rw [atomForms, hmode, afterCharacter]

theorem idle_character (hp : word [c] (decode .unicode s.rest) t)
    (hc : c ∈ Language.syntaxCharacters .unicode) :
    Idle (character (patternCharacter .unicode)) s :=
  traceless_patternCharacter.confined.idle (avoids_literal hc _ ⟨t, hp⟩)

/-- No atom starts with a syntax character that opens none. -/
theorem idle_of_mem_atomForms (hmode : σ.mode = .unicode)
    (hp : word [c] (decode .unicode s.rest) t) (hc : c ∈ ['^', '$', '?']) :
    ∀ p ∈ atomForms σ body, Idle p s := by
  have hspecial : ∀ c ∈ ['^', '$', '?'], c ∈ Language.syntaxCharacters .unicode := by decide
  have hstart : ∀ c ∈ ['^', '$', '?'], c ∉ ['.', '\\', '[', '('] := by decide
  rw [atomForms_eq_cons hmode, List.forall_mem_cons]
  refine ⟨idle_character hp (hspecial c hc), fun p hmem => ?_⟩
  rcases startsAt_of_mem hmode p hmem with ⟨d, hd, hp'⟩
  exact hp'.idle hp fun heq => hstart c hc (heq ▸ hd)

/-! ## Edges of words -/

theorem idle_attempt_reading {α : Type} {r : Reader α} {f : α → Recognizer} {a : α}
    {rest : List CodeUnit} (hrun : r.run s.rest = some (a, rest)) (h : Idle (f a) { s with rest })
    (rollback : Rollback) : Idle (attempt rollback (reading r f)) s := by
  have hreading : reading r f s = (.noMatch, { s with rest }) := by
    simp only [reading, hrun]
    exact h
  rw [Idle, attempt_of_noMatch (by rw [hreading]; rfl), hreading]
  cases rollback <;> rfl

/-- In Unicode mode no escape starts as the edge of a word ends. -/
theorem idle_atomEscape (hmode : σ.mode = .unicode) (hp : word [c] (decode .unicode s.rest) t)
    (hc : c ∈ ['b', 'B']) : Idle (anyOf (atomEscapeForms σ)) s := by
  have hother {α : Type} {R : Form α} {cs : List Char} (hR : R.Opens cs)
      (hcs : ∀ c ∈ ['b', 'B'], c ∉ cs) : ¬ R.Applies (decode .unicode s.rest) :=
    hR.avoids (hcs c hc) _ ⟨t, hp⟩
  have hlater : Traceless .unicode .evidence
      (anyOf [character (characterEscape .unicode), namedReference .unicode]) _ :=
    traceless_characters_references
  have hconfined := traceless_decimalEscape.confined.anyOf_cons
    ((confinedTo_setEscape hmode).anyOf_cons hlater.confined)
  rw [atomEscapeForms, hmode]
  refine hconfined.idle ?_
  rintro (h | (h | h) | h)
  · exact hother Language.opens_decimal (by decide) h
  · exact hother Language.opens_setLetter (by decide) h
  · have hletter : ∀ c ∈ ['b', 'B'], 'p' ∉ [c] ∧ 'P' ∉ [c] := by decide
    exact not_applies_of_propertyStart h opens_word (hletter c hc) ⟨(), t, hp⟩
  · exact hother apart_characters_references.opens_first (by decide) h

theorem idle_escapedAtom (hmode : σ.mode = .unicode)
    (hp : word ['\\', c] (decode .unicode s.rest) t) (hc : c ∈ ['b', 'B']) :
    Idle (escapedAtom σ) s := by
  rcases (word_append (v := ['\\']) (w := [c])).1 hp with ⟨u, hback, hword⟩
  rcases of_decode_append (by decide) hback with ⟨rest, hs, rfl⟩
  have hrun : (Reader.word ['\\']).run s.rest = some ((), rest) :=
    Reader.run_word_eq_some_iff.2 hs
  exact idle_attempt_reading hrun (idle_atomEscape (s := { s with rest }) hmode hword hc) σ.rollback

/-! ## Groups -/

/-- What `body` is where `room` more groups may be open: it reads what stands in parentheses, and at
a question mark, with which nothing in parentheses starts, it does nothing. -/
structure ReadsBody (room : Nat) (body : Recognizer) : Prop where
  recognizes : Recognizes .unicode .evidence body (Body .unicode room)
  idle : 0 < room → ∀ s t, word ['?'] (decode .unicode s.rest) t → Idle body s

/-- A capturing group goes as far as the question mark of a label and gives up there. -/
theorem idle_capturingGroup (hmode : σ.mode = .unicode) (hbody : ReadsBody room body)
    (hroom : 0 < room) {l : List Char} (hl : l ∈ ['?', ':'] :: (aheadLabels ++ behindLabels))
    (hp : word ('(' :: l) (decode .unicode s.rest) t) : Idle (capturingGroup σ body) s := by
  have hascii : ∀ c ∈ ['('], c.toNat < 0x80 := by decide
  rcases (word_append (v := ['('])).1 hp with ⟨u, hparen, hlabel⟩
  rcases of_decode_append hascii hparen with ⟨rest, hs, rfl⟩
  rcases mark_of_label hl hlabel with ⟨v, hmark⟩
  have hstart : CaptureStart .unicode none (decode .unicode s.rest) (decode .unicode rest) :=
    ⟨_, hparen, Or.inr ⟨not_groupName_of_label hl hlabel, rfl, rfl⟩⟩
  rw [capturingGroup, hmode]
  refine idle_attempt_reading (reads_captureStart.run_eq_some_iff.2 hstart) ?_ σ.rollback
  have hidle := hbody.idle hroom { s with rest } v hmark
  rw [Idle, followedBy_of_noMatch hidle.isMatch, hidle]

theorem isMatch_labelledGroup_zero (hbody : ReadsBody 0 body) {labels : List (List Char)}
    (hascii : ∀ l ∈ labels, ∀ c ∈ l, c.toNat < 0x80)
    (hpre : labels.Pairwise fun v w => ¬ v <+: w ∧ ¬ w <+: v) :
    (labelledGroup σ body labels s).1.isMatch = false := by
  refine (recognizes_labelledGroup hbody.recognizes labels hascii hpre).isMatch_eq_false ?_
  rintro ⟨e, q, l, -, t, -, h⟩
  exact h

theorem isMatch_capturingGroup_zero (hmode : σ.mode = .unicode) (hbody : ReadsBody 0 body) :
    (capturingGroup σ body s).1.isMatch = false := by
  refine (recognizes_capturingGroup hmode hbody.recognizes).isMatch_eq_false ?_
  rintro ⟨e, q, ⟨f, t, -, -, h⟩ | ⟨f, name, u, t, -, -, -, h⟩⟩ <;> exact h

theorem exclusive_groups (hmode : σ.mode = .unicode) (hbody : ReadsBody room body) :
    Exclusive [labelledGroup σ body [['?', ':']], capturingGroup σ body] := by
  intro units
  by_cases hlabel : AtWord [['(', '?', ':']] (decode .unicode units)
  · rcases hlabel with ⟨w, hw, t, hp⟩
    obtain rfl := List.mem_singleton.1 hw
    cases room with
    | zero =>
      -- no group may be open, so both forms fail, and each may leave a trace
      refine Or.inl fun s hs => ?_
      simp only [List.forall_mem_cons]
      exact ⟨isMatch_labelledGroup_zero hbody (by decide) (by decide),
        isMatch_capturingGroup_zero hmode hbody, List.forall_mem_nil _⟩
    | succ room =>
      refine Or.inr ⟨[], _, [capturingGroup σ body], rfl, fun s hs => ?_⟩
      subst hs
      simpa using idle_capturingGroup hmode hbody (Nat.succ_pos room) List.mem_cons_self hp
  · refine Or.inr ⟨[labelledGroup σ body [['?', ':']]], _, [], rfl, fun s hs => ?_⟩
    subst hs
    have hconfined : ConfinedTo .unicode _ (labelledGroup σ body [['?', ':']]) :=
      confinedTo_labelledGroup _ (by decide) (by decide)
    simpa using hconfined.idle hlabel

/-! ## Atoms -/

theorem exclusive_atomForms (hmode : σ.mode = .unicode) (hbody : ReadsBody room body) :
    Exclusive (atomForms σ body) := by
  rw [atomForms_eq_cons hmode]
  refine .cons traceless_patternCharacter.confined (fun s hs p hp => ?_) ?_
  · rcases startsAt_of_mem hmode p hp with ⟨c, hc, hstart⟩
    have hspecial : ∀ c ∈ ['.', '\\', '[', '('], c ∈ Language.syntaxCharacters .unicode := by
      decide
    exact ConfinedTo.idle hstart fun h => avoids_literal (hspecial c hc) _ h hs
  -- what is left starts with different characters, but for the groups
  have hlabelled : StartsAt '(' (labelledGroup σ body [['?', ':']]) := startsAt_labelledGroup
  have hcapturing : StartsAt '(' (capturingGroup σ body) := startsAt_capturingGroup hmode
  refine .cons startsAt_dot (fun s ⟨t, ht⟩ => ?_) <|
    .cons startsAt_escapedAtom (fun s ⟨t, ht⟩ => ?_) <|
    .cons startsAt_characterClass (fun s ⟨t, ht⟩ => ?_) <| exclusive_groups hmode hbody
  · simpa using ⟨startsAt_escapedAtom.idle ht (by decide),
      startsAt_characterClass.idle ht (by decide), hlabelled.idle ht (by decide),
      hcapturing.idle ht (by decide)⟩
  · simpa using ⟨startsAt_characterClass.idle ht (by decide), hlabelled.idle ht (by decide),
      hcapturing.idle ht (by decide)⟩
  · simpa using ⟨hlabelled.idle ht (by decide), hcapturing.idle ht (by decide)⟩

theorem idle_atom_of_edge (hmode : σ.mode = .unicode)
    (h : AtWord Language.edges (decode .unicode s.rest)) : ∀ p ∈ atomForms σ body, Idle p s := by
  rcases atWord_edges_iff.1 h with ⟨c, hc, t, hp⟩ | ⟨c, hc, t, hp⟩
  · exact idle_of_mem_atomForms hmode hp (List.mem_append_left ['?'] hc)
  · rw [atomForms_eq_cons hmode, afterCharacter]
    simpa using ⟨idle_character hp (by decide), startsAt_dot.idle hp (by decide),
      idle_escapedAtom hmode hp hc, startsAt_characterClass.idle hp (by decide),
      startsAt_labelledGroup.idle hp (by decide),
      (startsAt_capturingGroup hmode).idle hp (by decide)⟩

theorem idle_atom_of_label (hmode : σ.mode = .unicode) (hbody : ReadsBody room body)
    (hroom : 0 < room) {l : List Char} (hl : l ∈ aheadLabels ++ behindLabels)
    (hp : word ('(' :: l) (decode .unicode s.rest) t) : ∀ p ∈ atomForms σ body, Idle p s := by
  have hgroup : ¬ AtWord [['(', '?', ':']] (decode .unicode s.rest) := by
    have hpre : ∀ l ∈ aheadLabels ++ behindLabels,
        ¬ ['(', '?', ':'] <+: '(' :: l ∧ ¬ '(' :: l <+: ['(', '?', ':'] := by decide
    rintro ⟨w, hw, r, h⟩
    obtain rfl := List.mem_singleton.1 hw
    rcases prefix_or_prefix_of_word h hp with h | h
    · exact (hpre l hl).1 h
    · exact (hpre l hl).2 h
  rcases (word_append (v := ['('])).1 hp with ⟨u, hparen, -⟩
  rw [← hmode] at hparen hgroup
  have hcapturing := idle_capturingGroup hmode hbody hroom (List.mem_cons_of_mem _ hl) hp
  rw [atomForms_eq_append, List.forall_mem_append, List.forall_mem_cons]
  refine ⟨idle_of_mem_beforeGroup hparen (by decide) hgroup, hcapturing,
    idle_of_mem_afterGroup fun hlegacy => ?_⟩
  rw [hmode] at hlegacy
  contradiction

/-! ## Terms -/

/-- Where no group may be open, neither an assertion nor an atom is found at a label. -/
theorem isMatch_of_label (hmode : σ.mode = .unicode) (hbody : ReadsBody 0 body) {l : List Char}
    (hl : l ∈ aheadLabels ++ behindLabels) (hp : word ('(' :: l) (decode .unicode s.rest) t) :
    (assertion σ body s).1.isMatch = false ∧ (atom σ body s).1.isMatch = false := by
  refine ⟨(recognizes_assertion hmode hbody.recognizes).isMatch_eq_false ?_,
    (recognizes_atom hmode hbody.recognizes).isMatch_eq_false (not_anyAtom_of_label hl hp)⟩
  rintro ⟨e, q, h⟩
  rcases assertion_iff.1 h with hedge | ⟨k, -, u, -, h⟩
  · exact not_word_of_edge (applies_edge_iff.1 ⟨e, q, hedge⟩) (by decide) hp
  · exact h

theorem exclusive_terms (hmode : σ.mode = .unicode) (hbody : ReadsBody room body)
    {forms : List Recognizer} (hforms : forms.Perm (atomForms σ body)) :
    Exclusive [assertion σ body, quantified σ (anyOf forms)] := by
  have hagree : Agree (anyOf forms) (atom σ body) :=
    (exclusive_atomForms hmode hbody).agree atomic_of_mem_atomForms hforms
  -- where the atom is idle, only an assertion may be found
  have hassertion {units : List CodeUnit}
      (h : ∀ s : State, s.rest = units → ∀ p ∈ atomForms σ body, Idle p s) :
      ∃ before p after, [assertion σ body, quantified σ (anyOf forms)] = before ++ p :: after ∧
        ∀ s : State, s.rest = units → ∀ q ∈ before ++ after, Idle q s := by
    refine ⟨[], _, [quantified σ (anyOf forms)], rfl, fun s hs => ?_⟩
    have hidle : Idle (anyOf forms) s :=
      anyOf_of_idle fun p hp => h s hs p (hforms.mem_iff.1 hp)
    simpa using idle_quantified hidle
  intro units
  by_cases hat : AtAssertion .unicode (decode .unicode units)
  · rcases hat with hedge | ⟨w, hw, t, hp⟩
    · exact Or.inr (hassertion fun s hs => idle_atom_of_edge hmode (hs ▸ hedge))
    · rcases List.mem_map.1 hw with ⟨l, hl, rfl⟩
      cases room with
      | zero =>
        refine Or.inl fun s hs => ?_
        subst hs
        obtain ⟨hnone, hatom⟩ := isMatch_of_label hmode hbody hl hp
        simp only [List.forall_mem_cons]
        refine ⟨hnone, ?_, List.forall_mem_nil _⟩
        rw [quantified_of_noMatch (hagree.noMatch hatom)]
        rfl
      | succ room =>
        exact Or.inr (hassertion fun s hs =>
          idle_atom_of_label hmode hbody (Nat.succ_pos room) hl (hs ▸ hp))
  · refine Or.inr ⟨[assertion σ body], _, [], rfl, fun s hs => ?_⟩
    subst hs
    simpa using (confinedTo_assertion hmode).idle hat

end Grammar

end EcmaPattern
