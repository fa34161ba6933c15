import EcmaPattern.Grammar.Term
import EcmaPattern.Proofs.Language.Derivation
import EcmaPattern.Proofs.Recognition.CharacterClass

namespace EcmaPattern.Grammar

open Form Reader Recognizer
open EcmaPattern.Language (Derives)

/-! # The recognizers of groups recognize the language of groups

They recognize it if `body` recognizes what may stand in parentheses.
-/

variable {mode : Mode} {σ : Settings} {room : Nat} {body : Recognizer}

/-- What stands in parentheses, closing one included, where `room` more groups may be open. -/
def Body (mode : Mode) : Nat → Form Evidence
  | 0 => fun _ _ _ => False
  | room + 1 => fun e p q => ∃ r, Derives mode room .disjunction e p r ∧ word [')'] r q

/-- Nothing in parentheses starts with a question mark. -/
theorem not_body_of_mark {p t q : Text} {e : Evidence} (hp : word ['?'] p t) :
    ¬ Body mode room e p q := by
  cases room with
  | zero => exact id
  | succ room =>
    intro h
    rcases h with ⟨r, h, hclose⟩
    have hends : '?' ∈ Language.termEnds mode := by cases mode <;> decide
    have hbar : ¬ ∃ t, word ['|'] p t := fun ⟨_, h⟩ => not_word_of_word hp (by decide) h
    rcases Language.eq_of_disjunction (Language.not_startsTerm hends hp) hbar h with ⟨-, rfl⟩
    exact not_word_of_word hp (by decide) hclose

/-! ## Groups -/

/-- A parenthesis, one of `labels` and what stands in parentheses. -/
def Labelled (mode : Mode) (room : Nat) (labels : List (List Char)) : Form Evidence :=
  fun e p q => ∃ l ∈ labels, ∃ t, word ('(' :: l) p t ∧ Body mode room e t q

theorem reads_label {labels : List (List Char)} (hascii : ∀ l ∈ labels, ∀ c ∈ l, c.toNat < 0x80)
    (hpre : labels.Pairwise fun v w => ¬ v <+: w ∧ ¬ w <+: v) :
    Reads mode (Reader.word ['('] *> anyWord labels) fun l p q =>
      l ∈ labels ∧ word ('(' :: l) p q := by
  refine (reads_after (by decide) (reads_anyWord hascii hpre)).congr fun l p q => ?_
  constructor
  · intro h
    rcases h with ⟨hl, h⟩
    obtain ⟨t, ht, h⟩ := (word_append (v := ['('])).1 h
    exact ⟨t, ht, hl, h⟩
  · intro h
    rcases h with ⟨t, ht, hl, h⟩
    exact ⟨hl, (word_append (v := ['('])).2 ⟨t, ht, h⟩⟩

theorem recognizes_labelledGroup (hbody : Recognizes mode .evidence body (Body mode room))
    (labels : List (List Char)) (hascii : ∀ l ∈ labels, ∀ c ∈ l, c.toNat < 0x80)
    (hpre : labels.Pairwise fun v w => ¬ v <+: w ∧ ¬ w <+: v) :
    Recognizes mode .evidence (labelledGroup σ body labels) (Labelled mode room labels) := by
  refine ((Recognizes.reading (reads_label hascii hpre) fun _ => hbody).attempt
    σ.rollback).congr fun e p q => ?_
  constructor
  · intro h
    rcases h with ⟨l, hl, t, h, hbody⟩
    exact ⟨l, t, ⟨hl, h⟩, hbody⟩
  · intro h
    rcases h with ⟨l, t, ⟨hl, h⟩, hbody⟩
    exact ⟨l, hl, t, h, hbody⟩

/-- One of the words stands at the front of the text. -/
def AtWord (ws : List (List Char)) (p : Text) : Prop := ∃ w ∈ ws, ∃ t, word w p t

theorem confinedTo_labelledGroup (labels : List (List Char))
    (hascii : ∀ l ∈ labels, ∀ c ∈ l, c.toNat < 0x80)
    (hpre : labels.Pairwise fun v w => ¬ v <+: w ∧ ¬ w <+: v) :
    ConfinedTo mode (AtWord (labels.map ('(' :: ·))) (labelledGroup σ body labels) := by
  apply (ConfinedTo.attempt_reading (reads_label hascii hpre) _ _).mono
  intro p h
  rcases h with ⟨l, t, hl, h⟩
  exact ⟨_, List.mem_map.2 ⟨l, hl, rfl⟩, t, h⟩

/-- What a capturing group says besides what stands in it. -/
def captureEvidence (name : Option String) : Evidence := { groups := 1, names := name.toList }

theorem recognizes_closeGroup (name : Option String) :
    Recognizes mode .evidence (closeGroup name) fun e p q => e = captureEvidence name ∧ p = q := by
  intro s
  have hfound (hfresh : Fresh s.names name.toList) :
      Found mode .evidence s (.matched, s.read s.rest (captureEvidence name)) fun e q =>
        e = captureEvidence name ∧ q = CodeUnit.decode mode s.rest :=
    Found.matched (m := .evidence) s.rest rfl trivial hfresh
  cases name with
  | none =>
    have hstate : closeGroup none s = (.matched, s.read s.rest (captureEvidence none)) := by
      simp [closeGroup, State.addGroups, State.read, captureEvidence, Evidence.saturated,
        Evidence.append_def]
    rw [hstate]
    exact (hfound (by simp)).congr fun e q => and_congr_right fun _ => eq_comm
  | some name =>
    by_cases hname : name ∈ s.names
    · -- a name that is taken is the one failure that the evidence before decides
      refine .refused ?_ ?_
      · simp only [closeGroup, State.addName?, if_pos hname]
        rfl
      · intro _ q h hfresh
        rcases h with ⟨rfl, -⟩
        exact fresh_singleton.1 hfresh hname
    · have hstate : closeGroup (some name) s =
          (.matched, s.read s.rest (captureEvidence (some name))) := by
        simp [closeGroup, State.addName?, hname, State.addGroups, State.read, captureEvidence,
          Evidence.saturated, Evidence.append_def]
      rw [hstate]
      exact (hfound (fresh_singleton.2 hname)).congr fun e q => and_congr_right fun _ => eq_comm

/-- A parenthesis, and a name after a question mark if there is one. -/
def CaptureStart (mode : Mode) : Form (Option String) := after ['('] fun o p q =>
  (∃ name, after ['?'] (Language.GroupName mode) name p q ∧ o = some name) ∨
    ¬ (after ['?'] (Language.GroupName mode)).Applies p ∧ o = none ∧ p = q

theorem reads_captureStart : Reads mode
    (Reader.word ['('] *> optional (Reader.word ['?'] *> groupName mode)) (CaptureStart mode) :=
  reads_after (by decide) (reads_after (by decide) reads_groupName).optional

/-- A capturing group with its name. -/
def Capturing (mode : Mode) (room : Nat) : Form Evidence := fun e p q =>
  (∃ f t, e = f ++ captureEvidence none ∧ word ['('] p t ∧ Body mode room f t q) ∨
    ∃ f name s t, e = f ++ captureEvidence (some name) ∧ word ['(', '?'] p s ∧
      Language.GroupName mode name s t ∧ Body mode room f t q

theorem recognizes_capturingGroup (hmode : σ.mode = mode)
    (hbody : Recognizes mode .evidence body (Body mode room)) :
    Recognizes mode .evidence (capturingGroup σ body) (Capturing mode room) := by
  rw [capturingGroup, hmode]
  refine ((Recognizes.reading reads_captureStart fun name =>
    hbody.followedBy_evidence (recognizes_closeGroup name)).attempt σ.rollback).congr
      fun e p q => ?_
  constructor
  · intro h
    rcases h with ⟨f, t, rfl, hopen, h⟩ | ⟨f, name, s, t, rfl, hopen, hname, h⟩
    · refine ⟨none, t, ⟨t, hopen, Or.inr ⟨?_, rfl, rfl⟩⟩, f, _, q, rfl, h, rfl, rfl⟩
      intro h
      rcases h with ⟨name, r, u, hmark, -⟩
      exact not_body_of_mark hmark h
    · obtain ⟨u, hparen, hmark⟩ := (word_append (v := ['(']) (w := ['?'])).1 hopen
      exact ⟨some name, t, ⟨u, hparen, Or.inl ⟨name, ⟨s, hmark, hname⟩, rfl⟩⟩, f, _, q, rfl, h, rfl,
        rfl⟩
  · intro h
    rcases h with
      ⟨_, t, ⟨u, hparen, ⟨name, ⟨s, hmark, hname⟩, rfl⟩ | ⟨-, rfl, rfl⟩⟩, f, _, y, rfl, h, rfl, rfl⟩
    · exact Or.inr ⟨f, name, s, t, rfl,
        (word_append (v := ['(']) (w := ['?'])).2 ⟨u, hparen, hmark⟩, hname, h⟩
    · exact Or.inl ⟨f, _, rfl, hparen, h⟩

theorem confinedTo_capturingGroup (hmode : σ.mode = mode) :
    ConfinedTo mode (fun p => ∃ t, word ['('] p t) (capturingGroup σ body) := by
  rw [capturingGroup, hmode]
  apply (ConfinedTo.attempt_reading reads_captureStart _ _).mono
  intro p h
  rcases h with ⟨o, q, t, h, -⟩
  exact ⟨t, h⟩

theorem opens_labelled {labels : List (List Char)} : (Labelled mode room labels).Opens ['('] := by
  intro e p q h
  rcases h with ⟨l, -, t, h, -⟩
  exact ⟨'(', List.mem_cons_self, _, h⟩

theorem opens_capturing : (Capturing mode room).Opens ['('] := by
  intro e p q h
  rcases h with ⟨f, t, -, h, -⟩ | ⟨f, name, s, t, -, h, -⟩
  · exact ⟨'(', List.mem_cons_self, _, h⟩
  · exact ⟨'(', List.mem_cons_self, _, h⟩

/-! ## Words that open a group -/

/-- The labels of look-aheads. -/
def aheadLabels : List (List Char) := [['?', '='], ['?', '!']]

/-- The labels of look-behinds. -/
def behindLabels : List (List Char) := [['?', '<', '='], ['?', '<', '!']]

theorem exists_aheadLabel {w : List Char} (hw : w ∈ [['(', '?', '='], ['(', '?', '!']]) :
    ∃ l ∈ aheadLabels, w = '(' :: l := by
  simpa [aheadLabels] using hw

theorem exists_behindLabel {w : List Char}
    (hw : w ∈ [['(', '?', '<', '='], ['(', '?', '<', '!']]) :
    ∃ l ∈ behindLabels, w = '(' :: l := by
  simpa [behindLabels] using hw

theorem mark_of_label {l : List Char} {p t : Text}
    (hl : l ∈ ['?', ':'] :: (aheadLabels ++ behindLabels)) (hp : word l p t) :
    ∃ u, word ['?'] p u := by
  have hhead : ∀ l ∈ ['?', ':'] :: (aheadLabels ++ behindLabels), l.head? = some '?' := by decide
  rcases List.head?_eq_some_iff.1 (hhead l hl) with ⟨w, rfl⟩
  rcases (word_append (v := ['?']) (w := w)).1 hp with ⟨u, hmark, -⟩
  exact ⟨u, hmark⟩

/-- No label is the beginning of a name in angle brackets. -/
theorem not_groupName_of_label {l : List Char} {p t : Text}
    (hl : l ∈ ['?', ':'] :: (aheadLabels ++ behindLabels)) (hp : word l p t) :
    ¬ (after ['?'] (Language.GroupName mode)).Applies p := by
  rintro ⟨name, q, s, hmark, hname⟩
  -- what follows the question mark would be the rest of the label and a name
  have hrest {w : List Char} {r : Text} (h : word (['?'] ++ w) p r) : word w s r :=
    word_rest hmark h
  simp only [aheadLabels, behindLabels, List.cons_append, List.nil_append, List.mem_cons,
    List.not_mem_nil, or_false] at hl
  rcases hl with rfl | rfl | rfl | rfl | rfl
  · exact Language.not_groupName_of_word (hrest (w := [':']) hp) (by decide) hname
  · exact Language.not_groupName_of_word (hrest (w := ['=']) hp) (by decide) hname
  · exact Language.not_groupName_of_word (hrest (w := ['!']) hp) (by decide) hname
  · exact Language.not_groupName_of_lookbehind (hrest (w := ['<', '=']) hp) (by decide) hname
  · exact Language.not_groupName_of_lookbehind (hrest (w := ['<', '!']) hp) (by decide) hname

/-- What opens a group with a label opens no capturing group. -/
theorem not_capturing_of_label {l : List Char} {p t : Text}
    (hl : l ∈ ['?', ':'] :: (aheadLabels ++ behindLabels)) (hp : word ('(' :: l) p t) :
    ¬ (Capturing mode room).Applies p := by
  intro h
  rcases (word_append (v := ['('])).1 hp with ⟨r, hparen, hlabel⟩
  rcases h with ⟨e, q, ⟨f, s, -, hopen, h⟩ | ⟨f, name, s, u, -, hopen, hname, -⟩⟩
  · obtain rfl := word_unique hparen hopen
    rcases mark_of_label hl hlabel with ⟨u, hmark⟩
    exact not_body_of_mark hmark h
  · have hmark : word ['?'] r s := word_rest hparen hopen
    exact not_groupName_of_label hl hlabel ⟨name, u, s, hmark, hname⟩

theorem labelled_append_iff (first second : List (List Char)) {e : Evidence} {p q : Text} :
    Labelled mode room (first ++ second) e p q ↔
      Labelled mode room first e p q ∨ Labelled mode room second e p q := by
  simp only [Labelled, List.mem_append, or_and_right, exists_or]

/-- Of two labels that stand in one place one is a beginning of the other. -/
theorem not_labelled_of_label {labels : List (List Char)} {l : List Char} {p t : Text}
    (hp : word ('(' :: l) p t) (hpre : ∀ k ∈ labels, ¬ k <+: l ∧ ¬ l <+: k) :
    ¬ (Labelled mode room labels).Applies p := by
  intro h
  rcases h with ⟨e, q, k, hk, r, h, -⟩
  rcases prefix_or_prefix_of_word h hp with hkl | hlk
  · exact (hpre k hk).1 (List.cons_prefix_cons.1 hkl).2
  · exact (hpre k hk).2 (List.cons_prefix_cons.1 hlk).2

end EcmaPattern.Grammar
