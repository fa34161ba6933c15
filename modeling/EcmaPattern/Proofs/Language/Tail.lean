import EcmaPattern.Proofs.Language.Derivation
import EcmaPattern.Proofs.Language.Spelling

namespace EcmaPattern

/-! # Derivations before another tail

A derivation looks ahead at many places: for digits that go on with a number, for a quantifier, for
the rest of a name. Still it is one before any other tail at which the text stops, because none of
what it looks for goes on there.
-/

namespace Form

variable {α : Type} {R : Form α} {p q r r' : Text} {w : List Char}

/-- A text of the form `R` before the tail `r` is one before `r'` too. -/
def Moves (r r' : Text) (R : Form α) : Prop :=
  ∀ a p q, R a p (q ++ r) → ∃ s, p = s ++ r ∧ R a (s ++ r') (q ++ r')

theorem Retails.moves (h : R.Retails r r') : R.Moves r r' := by
  intro a p q hR
  rcases h a p q hR with ⟨w, -, hp, h'⟩
  refine ⟨Text.ofWord w ++ q, ?_, ?_⟩
  · rw [hp, List.append_assoc]
  · rwa [List.append_assoc]

theorem RetailsEscape.moves (h : R.RetailsEscape r r') : R.Moves r r' := by
  intro a p q hR
  rcases h a p q hR with ⟨n, w, -, rfl, h'⟩
  refine ⟨n :: (Text.ofWord w ++ q), ?_, ?_⟩
  · rw [List.cons_append, List.append_assoc]
  · rwa [List.cons_append, List.append_assoc]

theorem moves_word (h : word w p (q ++ r)) (r' : Text) :
    ∃ s, p = s ++ r ∧ word w (s ++ r') (q ++ r') := by
  refine ⟨Text.ofWord w ++ q, ?_, ?_⟩
  · rw [h, List.append_assoc]
  · rw [word, List.append_assoc]

theorem Moves.after (h : R.Moves r r') (v : List Char) : (after v R).Moves r r' := by
  intro a p q hR
  rcases hR with ⟨t, hv, hR⟩
  rcases h a t q hR with ⟨s, rfl, h'⟩
  rcases moves_word hv r' with ⟨s', rfl, hv'⟩
  exact ⟨s', rfl, s ++ r', hv', h'⟩

/-- A word that is not there before the tail `r` is not there before one at which the text stops. -/
theorem not_word_append (hw : ∀ c ∈ w, c ∉ stops) (hr : Stops r')
    (h : ¬ ∃ t, word w (p ++ r) t) : ¬ ∃ t, word w (p ++ r') t := by
  rintro ⟨t, ht⟩
  rcases exists_of_word_append hw hr ht with ⟨s, rfl, hs⟩
  refine h ⟨s ++ r, ?_⟩
  rw [word, hs, List.append_assoc]

theorem not_stops_of_word {c : Char} (h : word [c] p q) (hc : c ∉ stops) : ¬ Stops p := by
  rintro (rfl | ⟨d, hd, t, hp⟩)
  · contradiction
  · exact not_word_of_mem hp hd hc h

end Form

namespace Language

open Form

variable {mode : Mode} {room : Nat} {x : Symbol} {e : Evidence} {p q r r' : Text}

/-! ## Classes -/

theorem moves_classAtomNoDash (hr : Stops r) (hr' : Stops r') :
    (ClassAtomNoDash mode).Moves r r' := by
  intro v p q h
  generalize heq : q ++ r = t at h
  cases h with
  | character hn =>
    subst heq
    exact ⟨_ :: q, rfl, .character hn⟩
  | escape h =>
    subst heq
    rcases (retailsEscape_classEscape hr hr').moves.after _ v p q h with ⟨s, rfl, h'⟩
    exact ⟨s, rfl, .escape h'⟩
  | backslash hmode hback hc hletter =>
    subst heq
    cases q with
    | nil => exact absurd hr (not_stops_of_word hc (by decide))
    | cons n q =>
      obtain ⟨rfl, rfl⟩ := List.cons.inj hc
      rcases moves_word hback r' with ⟨s, rfl, hback'⟩
      exact ⟨s, rfl, .backslash hmode hback' rfl (not_startsWith_append (by decide) hr' hletter)⟩

theorem moves_classAtom (hr : Stops r) (hr' : Stops r') : (ClassAtom mode).Moves r r' := by
  intro v p q h
  generalize heq : q ++ r = t at h
  cases h with
  | dash h =>
    subst heq
    rcases moves_word h r' with ⟨s, rfl, h'⟩
    exact ⟨s, rfl, .dash h'⟩
  | noDash h =>
    subst heq
    rcases moves_classAtomNoDash hr hr' v p q h with ⟨s, rfl, h'⟩
    exact ⟨s, rfl, .noDash h'⟩

theorem moves_classRanges (hr : Stops r) (hr' : Stops r') {x : ClassSymbol}
    (h : ClassRanges mode x p (q ++ r)) :
    ∃ s, p = s ++ r ∧ ClassRanges mode x (s ++ r') (q ++ r') := by
  generalize heq : q ++ r = t at h
  induction h with
  | empty =>
    subst heq
    exact ⟨q, rfl, .empty⟩
  | nonempty _ ih =>
    rcases ih heq with ⟨s, rfl, h⟩
    exact ⟨s, rfl, .nonempty h⟩
  | single h =>
    subst heq
    rcases moves_classAtom hr hr' _ _ _ h with ⟨s, rfl, h'⟩
    exact ⟨s, rfl, .single h'⟩
  | cons h _ ih =>
    rcases ih heq with ⟨t, rfl, hrest⟩
    rcases moves_classAtom hr hr' _ _ _ h with ⟨s, rfl, h'⟩
    exact ⟨s, rfl, .cons h' hrest⟩
  | range hlow hdash hhigh hmay _ ih =>
    rcases ih heq with ⟨t, rfl, hrest⟩
    rcases moves_classAtom hr hr' _ _ _ hhigh with ⟨u, rfl, hhigh'⟩
    rcases moves_word hdash r' with ⟨v, rfl, hdash'⟩
    rcases moves_classAtom hr hr' _ _ _ hlow with ⟨s, rfl, hlow'⟩
    exact ⟨s, rfl, .range hlow' hdash' hhigh' hmay hrest⟩
  | last h =>
    subst heq
    rcases moves_classAtom hr hr' _ _ _ h with ⟨s, rfl, h'⟩
    exact ⟨s, rfl, .last h'⟩
  | consNoDash h _ ih =>
    rcases ih heq with ⟨t, rfl, hrest⟩
    rcases moves_classAtomNoDash hr hr' _ _ _ h with ⟨s, rfl, h'⟩
    exact ⟨s, rfl, .consNoDash h' hrest⟩
  | rangeNoDash hlow hdash hhigh hmay _ ih =>
    rcases ih heq with ⟨t, rfl, hrest⟩
    rcases moves_classAtom hr hr' _ _ _ hhigh with ⟨u, rfl, hhigh'⟩
    rcases moves_word hdash r' with ⟨v, rfl, hdash'⟩
    rcases moves_classAtomNoDash hr hr' _ _ _ hlow with ⟨s, rfl, hlow'⟩
    exact ⟨s, rfl, .rangeNoDash hlow' hdash' hhigh' hmay hrest⟩

/-- All that a class looks for stands before the bracket that closes it, whatever the tail. -/
theorem moves_characterClass (r r' : Text) (h : CharacterClass mode p (q ++ r)) :
    ∃ s, p = s ++ r ∧ CharacterClass mode (s ++ r') (q ++ r') := by
  have hstops (r : Text) : Stops (']'.toNat :: (q ++ r)) := Or.inr ⟨']', by decide, _, rfl⟩
  have hranges {t : Text} (h : ClassRanges mode .ranges t ([] ++ ']'.toNat :: (q ++ r))) :
      ∃ s, t = s ++ ']'.toNat :: (q ++ r) ∧
        ClassRanges mode .ranges (s ++ ']'.toNat :: (q ++ r')) (']'.toNat :: (q ++ r')) :=
    moves_classRanges (hstops r) (hstops r') h
  have hmove {w : List Char} {s : Text} (h : word w p (s ++ ']'.toNat :: (q ++ r))) :
      ∃ t, p = t ++ r ∧ word w (t ++ r') (s ++ ']'.toNat :: (q ++ r')) := by
    refine ⟨Text.ofWord w ++ (s ++ ']'.toNat :: q), ?_, ?_⟩
    · rw [h]
      simp
    · rw [word]
      simp
  generalize heq : q ++ r = t at h
  cases h with
  | plain hopen hcaret h hclose =>
    subst heq
    obtain rfl : _ = ']'.toNat :: (q ++ r) := hclose
    rcases hranges h with ⟨s, rfl, h'⟩
    rcases hmove hopen with ⟨t, rfl, hopen'⟩
    exact ⟨t, rfl, .plain hopen' (not_word_append (by decide) (hstops r') hcaret) h' rfl⟩
  | negated hopen h hclose =>
    subst heq
    obtain rfl : _ = ']'.toNat :: (q ++ r) := hclose
    rcases hranges h with ⟨s, rfl, h'⟩
    rcases hmove hopen with ⟨t, rfl, hopen'⟩
    exact ⟨t, rfl, .negated hopen' h' rfl⟩

/-! ## Patterns -/

/-- A derivation before the tail `r` is one before `r'`, where the text stops. In legacy mode a
backslash alone needs the `c` after it. -/
theorem moves_derives (hr : mode = .legacy → ¬ ∃ t, word ['c'] r t) (hr' : Stops r')
    (h : Derives mode room x e p (q ++ r)) :
    ∃ s, p = s ++ r ∧ Derives mode room x e (s ++ r') (q ++ r') := by
  generalize heq : q ++ r = t at h
  -- the part of a derivation that is read last is moved first, since the others stand before it
  induction h generalizing q with
  | single _ ih =>
    rcases ih heq with ⟨s, rfl, h⟩
    exact ⟨s, rfl, .single h⟩
  | bar _ hbar _ ih ih' =>
    rcases ih' heq with ⟨u, rfl, h'⟩
    rcases moves_word hbar r' with ⟨t, rfl, hbar'⟩
    rcases ih rfl with ⟨s, rfl, h⟩
    exact ⟨s, rfl, .bar h hbar' h'⟩
  | nil =>
    subst heq
    exact ⟨q, rfl, .nil⟩
  | cons _ _ ih ih' =>
    rcases ih' heq with ⟨t, rfl, h'⟩
    rcases ih rfl with ⟨s, rfl, h⟩
    exact ⟨s, rfl, .cons h h'⟩
  | assertion _ ih =>
    rcases ih heq with ⟨s, rfl, h⟩
    exact ⟨s, rfl, .assertion h⟩
  | plain hx _ hnone ih =>
    rcases ih heq with ⟨s, rfl, h⟩
    subst heq
    refine ⟨s, rfl, .plain hx h fun hmode ⟨t, ht⟩ => hnone hmode ?_⟩
    rcases spelled_quantifier.applies (r := r) hr' ⟨(), t, ht⟩ with ⟨_, t', ht'⟩
    exact ⟨t', ht'⟩
  | quantified hx _ hquantifier ih =>
    subst heq
    rcases (spelled_quantifier r r').moves () _ q hquantifier with ⟨t, rfl, hquantifier'⟩
    rcases ih rfl with ⟨s, rfl, h⟩
    exact ⟨s, rfl, .quantified hx h hquantifier'⟩
  | edge hw h =>
    subst heq
    rcases moves_word h r' with ⟨s, rfl, h'⟩
    exact ⟨s, rfl, .edge hw h'⟩
  | lookbehind hw hopen _ hclose ih =>
    subst heq
    rcases moves_word hclose r' with ⟨u, rfl, hclose'⟩
    rcases ih rfl with ⟨t, rfl, h⟩
    rcases moves_word hopen r' with ⟨s, rfl, hopen'⟩
    exact ⟨s, rfl, .lookbehind hw hopen' h hclose'⟩
  | strictLookahead hmode _ ih =>
    rcases ih heq with ⟨s, rfl, h⟩
    exact ⟨s, rfl, .strictLookahead hmode h⟩
  | lookahead hw hopen _ hclose ih =>
    subst heq
    rcases moves_word hclose r' with ⟨u, rfl, hclose'⟩
    rcases ih rfl with ⟨t, rfl, h⟩
    rcases moves_word hopen r' with ⟨s, rfl, hopen'⟩
    exact ⟨s, rfl, .lookahead hw hopen' h hclose'⟩
  | dot h =>
    subst heq
    rcases moves_word h r' with ⟨s, rfl, h'⟩
    exact ⟨s, rfl, .dot h'⟩
  | @character room n t hn hbraces =>
    subst heq
    exact ⟨n :: q, rfl, .character hn fun hmode h =>
      hbraces hmode (spelled_braces.applies (p := n :: q) hr' h)⟩
  | escape hedge h =>
    subst heq
    rcases (retailsEscape_atomEscape hr').moves.after _ _ _ q h with ⟨s, rfl, h'⟩
    have hplain : ∀ w ∈ edges, ∀ c ∈ w, c ∉ stops := by decide
    refine ⟨s, rfl, .escape (fun hmode ⟨w, hw, h⟩ => ?_) h'⟩
    exact not_word_append (hplain w hw) hr' (fun h => hedge hmode ⟨w, hw, h⟩) h
  | backslash hmode hback hc hletter =>
    subst heq
    cases q with
    | nil => exact absurd ⟨_, hc⟩ (hr hmode)
    | cons n q =>
      obtain ⟨rfl, rfl⟩ := List.cons.inj hc
      rcases moves_word hback r' with ⟨s, rfl, hback'⟩
      exact ⟨s, rfl, .backslash hmode hback' rfl (not_startsWith_append (by decide) hr' hletter)⟩
  | characterClass h =>
    subst heq
    rcases moves_characterClass r r' h with ⟨s, rfl, h'⟩
    exact ⟨s, rfl, .characterClass h'⟩
  | group hopen _ hclose ih =>
    subst heq
    rcases moves_word hclose r' with ⟨u, rfl, hclose'⟩
    rcases ih rfl with ⟨t, rfl, h⟩
    rcases moves_word hopen r' with ⟨s, rfl, hopen'⟩
    exact ⟨s, rfl, .group hopen' h hclose'⟩
  | capture hopen _ hclose ih =>
    subst heq
    rcases moves_word hclose r' with ⟨u, rfl, hclose'⟩
    rcases ih rfl with ⟨t, rfl, h⟩
    rcases moves_word hopen r' with ⟨s, rfl, hopen'⟩
    exact ⟨s, rfl, .capture hopen' h hclose'⟩
  | namedCapture hopen hname _ hclose ih =>
    subst heq
    rcases moves_word hclose r' with ⟨u, rfl, hclose'⟩
    rcases ih rfl with ⟨t, rfl, h⟩
    rcases (retails_groupName fun _ => hr').moves _ _ _ hname with ⟨v, rfl, hname'⟩
    rcases moves_word hopen r' with ⟨s, rfl, hopen'⟩
    exact ⟨s, rfl, .namedCapture hopen' hname' h hclose'⟩

end Language

end EcmaPattern
