import EcmaPattern.Proofs.Acceptance
import EcmaPattern.Proofs.Exclusion
import EcmaPattern.Proofs.Run.Grammar

namespace EcmaPattern

open CodeUnit Form Recognizer
open EcmaPattern.Grammar
open EcmaPattern.Language (Derives)

/-! # The order of forms

The grammar with its forms in another order: the forms of an atom and those of a term are tried in
any order that is given, everything else is as in the grammar. In Unicode mode no order accepts
other patterns than the one of the grammar does.
-/

/-! ## The grammar in another order -/

/-- An order in which the forms of an atom and those of a term are tried. -/
structure Order where
  atoms : List Recognizer → List Recognizer
  terms : List Recognizer → List Recognizer
  atoms_perm : ∀ forms, (atoms forms).Perm forms
  terms_perm : ∀ forms, (terms forms).Perm forms

/-- What `term` finds up to the end of the alternative, at most as often as there are elements in
`bound`. -/
def termsWithin (term : Recognizer) (closer : Option (List Char)) : List CodeUnit → Recognizer
  | [] => fun s => if alternativeEnds closer s then (.matched, s) else (.noMatch, s)
  | _ :: bound => fun s =>
    if alternativeEnds closer s then (.matched, s)
    else term.followedBy (termsWithin term closer bound) s

/-- One alternative and what `next` reads after it, or the closing word alone. -/
def barredRound (alternative next : Recognizer) : Option (List Char) → Recognizer
  | none => alternative.followedBy next
  | some w => readingOr (Reader.word w) (fun _ s => (.matched, s)) (alternative.followedBy next)

/-- Alternatives of what `term` finds up to the closing word, with at most as many bars as there are
elements in `bound`. -/
def barredWithin (term : Recognizer) (closer : Option (List Char)) : List CodeUnit → Recognizer
  | [] => barredRound (fun s => termsWithin term closer s.rest s) (plain (closing closer)) closer
  | _ :: bound =>
    barredRound (fun s => termsWithin term closer s.rest s)
      (readingOr (Reader.word ['|']) (fun _ => barredWithin term closer bound)
        (plain (closing closer))) closer

/-- Alternatives of what `term` finds up to the closing word. -/
def barred (term : Recognizer) (closer : Option (List Char)) : Recognizer := fun s =>
  barredWithin term closer s.rest s

namespace Order

/-- The order of the grammar. -/
def given : Order where
  atoms := id
  terms := id
  atoms_perm := .refl
  terms_perm := .refl

variable (order : Order) (σ : Settings)

/-- An atom. -/
def atom (body : Recognizer) : Recognizer := anyOf (order.atoms (atomForms σ body))

/-- A term. -/
def term (body : Recognizer) : Recognizer :=
  anyOf (order.terms (beforeAtom σ body ++ [quantified σ (order.atom σ body)]))

/-- What stands in parentheses, closing one included, where `room` more groups may be open. -/
def groupBody : Nat → Recognizer
  | 0 => limitReached σ.nestingLimit.toNat
  | room + 1 => barred (order.term σ (groupBody room)) (some [')'])

/-- A disjunction up to the closing word, where `room` more groups may be open. -/
def disjunction (room : Nat) (closer : Option (List Char)) : Recognizer :=
  barred (order.term σ (order.groupBody σ room)) closer

/-- Reads a whole text as a disjunction. -/
def recognize (text : List CodeUnit) : Outcome × State :=
  order.disjunction σ σ.nestingLimit.toNat none (.start text)

/-- Whether a text is a pattern. -/
def isPattern (text : List CodeUnit) : Bool :=
  let (outcome, s) := order.recognize σ text
  outcome.isMatch && (s.checkReferences σ.mode).1

end Order

variable {σ : Settings} {order : Order} {room : Nat} {body p q : Recognizer}
variable {closer : Option (List Char)} {s : State} {t : Text}

/-! ## The order of the grammar -/

theorem alternative_eq_termsWithin : alternative σ body closer =
    fun s => termsWithin (Grammar.term σ body) closer s.rest s := by
  have hwithin (bound : List CodeUnit) :
      alternativeWithin σ body closer bound = termsWithin (Grammar.term σ body) closer bound := by
    induction bound with
    | nil => rfl
    | cons u bound ih =>
      rw [termsWithin, ← ih]
      rfl
  funext s
  rw [alternative, hwithin]

theorem alternatives_eq_barred :
    alternatives σ body closer = barred (Grammar.term σ body) closer := by
  have hround (bound : List CodeUnit) : alternativesWithin σ body closer bound =
      barredRound (alternative σ body closer) (afterAlternative σ body closer bound) closer := by
    cases closer with
    | none => exact alternativesWithin_none bound
    | some w => exact alternativesWithin_some w bound
  have hwithin (bound : List CodeUnit) :
      alternativesWithin σ body closer bound = barredWithin (Grammar.term σ body) closer bound := by
    induction bound with
    | nil => rw [hround, afterAlternative_nil, alternative_eq_termsWithin, barredWithin]
    | cons u bound ih =>
      rw [hround, afterAlternative_cons, ih, alternative_eq_termsWithin, barredWithin]
  funext s
  rw [alternatives, hwithin, barred]

theorem term_given : Order.given.term σ body = Grammar.term σ body := by
  rw [Grammar.term, termForms_eq_append]
  rfl

/-- In the order of the grammar the same is read in the same way. -/
theorem groupBody_given (room : Nat) :
    Order.given.groupBody σ room = Grammar.groupBody σ room := by
  induction room with
  | zero => rfl
  | succ room ih =>
    rw [Order.groupBody, ih, term_given, Grammar.groupBody, alternatives_eq_barred]

/-! ## Disjunctions -/

theorem Recognizer.Agree.readingOr {α : Type} {f g : α → Recognizer} (r : Reader α)
    (hfg : ∀ a, Agree (f a) (g a)) (h : Agree p q) :
    Agree (readingOr r f p) (readingOr r g q) := by
  intro s hs
  unfold Recognizer.readingOr at hs ⊢
  cases hrun : r.run s.rest with
  | some found =>
    simp only [hrun] at hs ⊢
    exact hfg found.1 _ hs
  | none =>
    simp only [hrun] at hs ⊢
    exact h s hs

theorem agree_termsWithin (h : Agree p q) (bound : List CodeUnit) :
    Agree (termsWithin p closer bound) (termsWithin q closer bound) := by
  induction bound with
  | nil => exact .refl _
  | cons u bound ih =>
    intro s hs
    cases hends : alternativeEnds closer s with
    | true => simp only [termsWithin, hends, if_true]
    | false =>
      simp only [termsWithin, hends] at hs ⊢
      exact h.followedBy ih s hs

theorem agree_barred (h : Agree p q) : Agree (barred p closer) (barred q closer) := by
  have hterms : Agree (fun s => termsWithin p closer s.rest s)
      (fun s => termsWithin q closer s.rest s) :=
    fun s => agree_termsWithin h s.rest s
  have hround {f g f' g' : Recognizer} (hf : Agree f g) (hf' : Agree f' g') :
      Agree (barredRound f f' closer) (barredRound g g' closer) := by
    cases closer with
    | none => exact hf.followedBy hf'
    | some w => exact .readingOr _ (fun _ => .refl _) (hf.followedBy hf')
  have hwithin (bound : List CodeUnit) :
      Agree (barredWithin p closer bound) (barredWithin q closer bound) := by
    induction bound with
    | nil => exact hround hterms (.refl _)
    | cons u bound ih => exact hround hterms (.readingOr _ (fun _ => ih) (.refl _))
  exact fun s => hwithin s.rest s

/-- Where `p` is idle at a question mark, so is the disjunction in parentheses of what it finds. -/
theorem idle_barred (h : Idle p s) (hp : word ['?'] (decode .unicode s.rest) t) :
    Idle (barred p (some [')'])) s := by
  have hcloser : ∀ w ∈ some [')'], w = [')'] := by simp
  have hends : alternativeEnds (some [')']) s = false := by
    refine Bool.eq_false_iff.2 fun h => ?_
    rcases ((alternativeEnds_iff hcloser).1 h).cases hcloser with hnil | ⟨c, hc, r, hr⟩
    · rw [hnil] at hp
      contradiction
    · exact not_word_of_mem hr hc (by decide) hp
  have hclose : (Reader.word [')']).run s.rest = none := by
    have hreads : Reader.Reads .unicode (Reader.word [')']) fun _ => word [')'] :=
      Reader.reads_word (by decide)
    exact hreads.run_eq_none_iff.2 fun ⟨_, r, hr⟩ => not_word_of_word hp (by decide) hr
  have hterms (u : CodeUnit) (bound : List CodeUnit) :
      termsWithin p (some [')']) (u :: bound) s = (.noMatch, s) := by
    simp only [termsWithin, hends]
    exact (followedBy_of_noMatch h.isMatch).trans h
  have hround {u : CodeUnit} {bound : List CodeUnit} (hrest : s.rest = u :: bound)
      (next : Recognizer) :
      barredRound (fun s => termsWithin p (some [')']) s.rest s) next (some [')']) s =
        (.noMatch, s) := by
    have hnone := hterms u bound
    rw [← hrest] at hnone
    simp only [barredRound, Recognizer.readingOr, hclose]
    rw [followedBy_of_noMatch (by rw [hnone]; rfl), hnone]
  cases hrest : s.rest with
  | nil =>
    rw [hrest, decode_nil] at hp
    contradiction
  | cons u bound =>
    rw [Idle, barred, hrest, barredWithin]
    exact hround hrest _

/-! ## Terms -/

theorem order_term_eq (hmode : σ.mode = .unicode) : order.term σ body =
    anyOf (order.terms [assertion σ body, quantified σ (order.atom σ body)]) := by
  rw [Order.term, beforeAtom, hmode]
  rfl

theorem agree_order_term (hmode : σ.mode = .unicode) (hbody : ReadsBody room body) :
    Agree (order.term σ body) (Grammar.term σ body) := by
  have hatom : Agree (order.atom σ body) (Grammar.atom σ body) :=
    (exclusive_atomForms hmode hbody).agree atomic_of_mem_atomForms (order.atoms_perm _)
  have hquantified : Agree (anyOf [quantified σ (order.atom σ body)])
      (anyOf [quantified σ (Grammar.atom σ body)]) := by
    rw [anyOf_singleton, anyOf_singleton]
    exact (hatom.followedBy (.refl _)).attempt σ.rollback
  have hatomic : ∀ p ∈ [assertion σ body, quantified σ (order.atom σ body)], p.Atomic := by
    simp only [List.forall_mem_cons]
    exact ⟨atomic_assertion, atomic_attempt, List.forall_mem_nil _⟩
  have hexclusive := exclusive_terms hmode hbody (order.atoms_perm (atomForms σ body))
  rw [order_term_eq hmode, Grammar.term, termForms, hmode]
  exact (hexclusive.agree hatomic (order.terms_perm _)).trans (hquantified.anyOf_cons _)

theorem idle_term_of_mark (hmode : σ.mode = .unicode)
    (hp : word ['?'] (decode .unicode s.rest) t) : Idle (order.term σ body) s := by
  have hassertion : Idle (assertion σ body) s := by
    refine (confinedTo_assertion hmode).idle ?_
    rintro (hedge | ⟨w, hw, r, h⟩)
    · exact not_word_of_edge hedge (by decide) hp
    · rcases List.mem_map.1 hw with ⟨l, -, rfl⟩
      exact not_word_of_word hp (by decide) h
  have hatom : Idle (order.atom σ body) s := anyOf_of_idle fun p hmem =>
    idle_of_mem_atomForms hmode hp (by decide) p ((order.atoms_perm _).mem_iff.1 hmem)
  rw [order_term_eq hmode]
  refine anyOf_of_idle fun p hmem => ?_
  have hforms := (order.terms_perm _).mem_iff.1 hmem
  simp only [List.mem_cons, List.not_mem_nil, or_false] at hforms
  rcases hforms with rfl | rfl
  · exact hassertion
  · exact idle_quantified hatom

/-! ## Whole texts -/

/-- The order does not matter to a disjunction if it does not matter to what stands in
parentheses. -/
theorem recognizes_barred (hmode : σ.mode = .unicode) (hbody : ReadsBody room body)
    (hcloser : ∀ w ∈ closer, w = [')']) :
    Recognizes .unicode .evidence (barred (order.term σ body) closer) fun e p q =>
      ∃ r, Derives .unicode room .disjunction e p r ∧ Closes closer r q := by
  refine (agree_barred (agree_order_term hmode hbody)).recognizes ?_
  rw [← alternatives_eq_barred]
  exact recognizes_alternatives hcloser (recognizes_term hmode hbody.recognizes)

theorem readsBody_groupBody (order : Order) (hmode : σ.mode = .unicode) (room : Nat) :
    ReadsBody room (order.groupBody σ room) := by
  induction room with
  | zero => exact ⟨fun s => .noMatch rfl fun _ _ => id, fun h => absurd h (Nat.lt_irrefl 0)⟩
  | succ room ih =>
    exact ⟨recognizes_barred hmode ih (by simp), fun _ s t hp =>
      idle_barred (idle_term_of_mark hmode hp) hp⟩

/-- In Unicode mode the forms of a term exclude each other, and so do those of an atom: where one of
them matches, all others fail and leave the state as it was. So patterns are accepted or not in
whatever order the forms are tried. -/
theorem unicode_order_irrelevant (σ : Settings) (hmode : σ.mode = .unicode) :
    (∀ (room : Nat) (s : State),
      ∀ forms ∈ [termForms σ (groupBody σ room), atomForms σ (groupBody σ room)],
        forms.countP (fun p => (p s).1.isMatch) ≤ 1 ∧
        ∀ before p after, forms = before ++ p :: after → (p s).1.isMatch = true →
          ∀ q ∈ before ++ after, q s = (.noMatch, s)) ∧
      ∀ (order : Order) (text : List CodeUnit), order.isPattern σ text = isPattern σ text := by
  constructor
  · intro room s forms hforms
    have hbody : ReadsBody room (groupBody σ room) :=
      groupBody_given room ▸ readsBody_groupBody .given hmode room
    have hexclusive : Exclusive forms := by
      simp only [List.mem_cons, List.not_mem_nil, or_false] at hforms
      rcases hforms with rfl | rfl
      · rw [termForms, hmode]
        exact exclusive_terms hmode hbody (.refl _)
      · exact exclusive_atomForms hmode hbody
    refine ⟨hexclusive.countP_le_one s, ?_⟩
    rintro before p after rfl hmatch
    exact hexclusive.idle hmatch
  · intro order text
    have hgrammar : Recognizes .unicode .evidence
        (Grammar.disjunction σ σ.nestingLimit.toNat none) _ :=
      recognizes_alternatives (by simp) (recognizes_term hmode (recognizes_groupBody hmode _))
    have horder : Recognizes .unicode .evidence
        (order.disjunction σ σ.nestingLimit.toNat none) _ :=
      recognizes_barred hmode (readsBody_groupBody order hmode _) (by simp)
    have hfound := horder.eq_of_same hgrammar (.start text)
    have hmatch : (order.recognize σ text).1.isMatch = (recognize σ text).1.isMatch := hfound.1
    have hstate : (order.recognize σ text).1.isMatch = true →
        (order.recognize σ text).2 = (recognize σ text).2 := hfound.2
    have hand : order.isPattern σ text = ((order.recognize σ text).1.isMatch &&
        ((order.recognize σ text).2.checkReferences σ.mode).1) := rfl
    rw [hand, isPattern_eq_and, ← hmatch]
    cases h : (order.recognize σ text).1.isMatch with
    | true => rw [hstate h]
    | false => rfl

theorem reversed_order_of_groups :
    let σ := ({ mode := .unicode } : Options).settings
    let body := groupBody σ 1
    let s := State.start (encode "(?:a)(?<n>b)\\k<n>".toList)
    let reversed : Order := ⟨List.reverse, List.reverse, List.reverse_perm, List.reverse_perm⟩
    σ.mode = .unicode ∧ (labelledGroup σ body [['?', ':']] s).1.isMatch = true ∧
      capturingGroup σ body s = (.noMatch, s) ∧ reversed.isPattern σ s.text = true := by
  intro σ body s reversed
  have hmode : σ.mode = .unicode := rfl
  obtain ⟨hforms, horder⟩ := unicode_order_irrelevant σ hmode
  have hmatch : (labelledGroup σ body [['?', ':']] s).1.isMatch = true := by decide +kernel
  obtain ⟨-, hidle⟩ := hforms 1 s (atomForms σ body) (List.mem_cons_of_mem _ List.mem_cons_self)
  have hcapturing := hidle [_, _, _, _] (labelledGroup σ body [['?', ':']])
    [capturingGroup σ body] rfl hmatch (capturingGroup σ body) (by simp)
  have hpattern : isPattern σ s.text = true := by decide +kernel
  exact ⟨hmode, hmatch, hcapturing, (horder reversed s.text).trans hpattern⟩

end EcmaPattern
