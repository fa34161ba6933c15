import EcmaPattern.Grammar.Disjunction
import EcmaPattern.Proofs.Recognition.Term

namespace EcmaPattern.Grammar

open CodeUnit Form Reader Recognizer
open EcmaPattern.Language (Derives EndsTerm StartsTerm)

/-! # The recognizers of disjunctions recognize the language of disjunctions

The loops over terms and over alternatives have a bound that outlasts the text. What stands in
parentheses is a disjunction again, with one group less to open.
-/

variable {mode : Mode} {σ : Settings} {room : Nat} {body : Recognizer}
variable {closer : Option (List Char)} {e : Evidence} {p q : Text}

/-- Where a disjunction closes: at the closing word, which is taken, or at the end of the text. -/
def Closes : Option (List Char) → Text → Text → Prop
  | none => fun p q => p = [] ∧ p = q
  | some w => word w

/-- Where an alternative ends: at a bar, at the end of the text or at the closing word. -/
def EndsAlternative (closer : Option (List Char)) (p : Text) : Prop :=
  (∃ t, word ['|'] p t) ∨ p = [] ∨ ∃ w ∈ closer, ∃ t, word w p t

/-! ## Ends of alternatives -/

theorem alternativeEnds_iff (hcloser : ∀ w ∈ closer, w = [')']) {s : State} :
    alternativeEnds closer s = true ↔ EndsAlternative closer (decode mode s.rest) := by
  have hbar : s.isAt ['|'] = true ↔ ∃ t, word ['|'] (decode mode s.rest) t :=
    isPrefixOf_encode_iff (by decide)
  have hend : s.atEnd = true ↔ decode mode s.rest = [] := by
    rw [decode_eq_nil_iff, Cursor.atEnd, List.isEmpty_iff]
  have hclose : closer.any s.isAt = true ↔ ∃ w ∈ closer, ∃ t, word w (decode mode s.rest) t := by
    cases closer with
    | none => simp
    | some w =>
      obtain rfl := hcloser w rfl
      have hparen : s.isAt [')'] = true ↔ ∃ t, word [')'] (decode mode s.rest) t :=
        isPrefixOf_encode_iff (by decide)
      simpa using hparen
  rw [alternativeEnds, Bool.or_eq_true, Bool.or_eq_true, hbar, hend, hclose, or_assoc]
  rfl

/-- Where an alternative ends, there is nothing or a character that starts no term. -/
theorem EndsAlternative.cases (hcloser : ∀ w ∈ closer, w = [')'])
    (hp : EndsAlternative closer p) : p = [] ∨ ∃ c ∈ ['|', ')'], ∃ t, word [c] p t := by
  rcases hp with ⟨t, h⟩ | h | ⟨w, hw, t, h⟩
  · exact Or.inr ⟨'|', by decide, t, h⟩
  · exact Or.inl h
  · obtain rfl := hcloser w hw
    exact Or.inr ⟨')', by decide, t, h⟩

theorem EndsAlternative.not_startsTerm (hcloser : ∀ w ∈ closer, w = [')'])
    (hp : EndsAlternative closer p) : ¬ StartsTerm mode p := by
  rcases hp.cases hcloser with rfl | ⟨c, hc, t, h⟩
  · rintro (⟨c, -, t, h⟩ | ⟨n, t, h, -⟩) <;> contradiction
  · exact Language.not_startsTerm (List.mem_append_left _ hc) h

theorem EndsAlternative.endsTerm (hcloser : ∀ w ∈ closer, w = [')'])
    (hp : EndsAlternative closer p) : EndsTerm mode p := by
  have hdisjoint : ∀ c ∈ ['|', ')'], c ∉ Language.quantifierStarts mode := by
    cases mode <;> decide
  intro d hd h
  rcases h with ⟨r, hr⟩
  rcases hp.cases hcloser with rfl | ⟨c, hc, t, h⟩
  · contradiction
  · refine not_word_of_word h ?_ hr
    intro heq
    subst heq
    exact hdisjoint c hc hd

theorem Closes.endsAlternative (h : Closes closer p q) : EndsAlternative closer p := by
  cases closer with
  | none => exact Or.inr (Or.inl h.1)
  | some w => exact Or.inr (Or.inr ⟨w, rfl, q, h⟩)

/-- A disjunction does not close at a bar. -/
theorem Closes.not_bar (hcloser : ∀ w ∈ closer, w = [')']) (h : Closes closer p q) :
    ¬ ∃ t, word ['|'] p t := by
  intro h
  rcases h with ⟨t, hbar⟩
  cases closer with
  | none =>
    rcases h with ⟨rfl, -⟩
    contradiction
  | some w =>
    obtain rfl := hcloser w rfl
    exact not_word_of_word hbar (by decide) h

/-! ## Alternatives -/

/-- Before more terms a term goes only so far as it can. -/
theorem alternative_iff_of_ends (hcloser : ∀ w ∈ closer, w = [')'])
    (hp : EndsAlternative closer p) :
    Derives mode room .alternative e p q ∧ EndsAlternative closer q ↔ e = {} ∧ q = p := by
  constructor
  · intro h
    rcases h with ⟨h, -⟩
    exact Language.eq_of_alternative (hp.not_startsTerm hcloser) h
  · intro h
    rcases h with ⟨rfl, rfl⟩
    exact ⟨.nil, hp⟩

theorem alternative_iff_of_not_ends (hcloser : ∀ w ∈ closer, w = [')'])
    (hp : ¬ EndsAlternative closer p) :
    Derives mode room .alternative e p q ∧ EndsAlternative closer q ↔
      ∃ e₁ e₂ t, e = e₁ ++ e₂ ∧ TakenTerm mode room e₁ p t ∧
        Derives mode room .alternative e₂ t q ∧ EndsAlternative closer q := by
  constructor
  · intro h
    rcases h with ⟨h, hq⟩
    cases h with
    | nil => exact absurd hq hp
    | cons hterm h =>
      -- another term or the end of the alternative follows, so all of a quantifier was taken
      have ht := Language.endsTerm_of_alternative h (hq.endsTerm hcloser)
      exact ⟨_, _, _, rfl, .of_derives hterm ht, h, hq⟩
  · intro h
    rcases h with ⟨e₁, e₂, t, rfl, hterm, h, hq⟩
    exact ⟨.cons hterm.derives h, hq⟩

/-- Each term takes a character, so the bound lasts up to the end of the alternative. -/
theorem found_alternativeWithin (hcloser : ∀ w ∈ closer, w = [')'])
    (hterm : Recognizes mode .evidence (term σ body) (TakenTerm mode room))
    (bound : List CodeUnit) (s : State) (hlen : (decode mode s.rest).length ≤ bound.length) :
    Found mode .evidence s (alternativeWithin σ body closer bound s) fun e q =>
      Derives mode room .alternative e (decode mode s.rest) q ∧ EndsAlternative closer q := by
  induction bound generalizing s with
  | nil =>
    -- no bound means no text
    have hends : EndsAlternative closer (decode mode s.rest) :=
      Or.inr (Or.inl (List.length_eq_zero_iff.1 (Nat.le_zero.1 hlen)))
    rw [alternativeWithin, if_pos ((alternativeEnds_iff hcloser).2 hends)]
    exact (Found.here rfl trivial rfl).congr fun e q => alternative_iff_of_ends hcloser hends
  | cons u bound ih =>
    rw [alternativeWithin]
    by_cases hends : EndsAlternative closer (decode mode s.rest)
    · rw [if_pos ((alternativeEnds_iff hcloser).2 hends)]
      exact (Found.here rfl trivial rfl).congr fun e q => alternative_iff_of_ends hcloser hends
    · rw [if_neg (mt (alternativeEnds_iff hcloser).1 hends)]
      refine ((hterm s).bind_evidence (fun e hmatch hfound => ?_) fun hnone => ?_).congr fun e q =>
        alternative_iff_of_not_ends hcloser hends
      · have hshrinks := (Language.length_of_derives (x := .term) hfound.derives).2 trivial
        simp only [if_pos hmatch]
        apply ih _
        simp only [List.length_cons] at hlen
        omega
      · simp [hnone]

/-! ## Disjunctions -/

theorem reads_closing (hcloser : ∀ w ∈ closer, w = [')']) :
    Reads mode (closing closer) fun _ p q => closer.elim (p = q) fun w => word w p q := by
  cases closer with
  | none =>
    refine (Reads.of_pure ()).congr fun _ p q => ?_
    simp
  | some w =>
    obtain rfl := hcloser w rfl
    exact reads_word (by decide)

/-- What may follow an alternative: a bar and more of them, or where there is no bar the place where
the disjunction closes. -/
def AfterAlternative (mode : Mode) (room : Nat) (closer : Option (List Char)) : Form Evidence :=
  fun e p q =>
    (∃ t, word ['|'] p t ∧ ∃ r, Derives mode room .disjunction e t r ∧ Closes closer r q) ∨
      (¬ ∃ t, word ['|'] p t) ∧ e = {} ∧ closer.elim (p = q) fun w => word w p q

/-- What stands before the place where it closes is one alternative after the other. -/
theorem closed_iff (hcloser : ∀ w ∈ closer, w = [')']) :
    (∃ r, Derives mode room .disjunction e p r ∧ Closes closer r q) ↔
      ∃ e₁ e₂ t, e = e₁ ++ e₂ ∧
        (Derives mode room .alternative e₁ p t ∧ EndsAlternative closer t) ∧
          AfterAlternative mode room closer e₂ t q := by
  constructor
  · intro h
    rcases h with ⟨r, h, hr⟩
    cases h with
    | single h =>
      refine ⟨e, {}, r, (Evidence.append_empty e).symm, ⟨h, hr.endsAlternative⟩,
        Or.inr ⟨hr.not_bar hcloser, rfl, ?_⟩⟩
      cases closer with
      | none => exact hr.2
      | some w => exact hr
    | bar halternative hbar h =>
      exact ⟨_, _, _, rfl, ⟨halternative, Or.inl ⟨_, hbar⟩⟩, Or.inl ⟨_, hbar, r, h, hr⟩⟩
  · intro h
    rcases h with
      ⟨e₁, e₂, t, rfl, ⟨halternative, hends⟩, ⟨t', hbar, r, h, hr⟩ | ⟨hnone, rfl, hclose⟩⟩
    · exact ⟨r, .bar halternative hbar h, hr⟩
    · refine ⟨t, ?_, ?_⟩
      · rw [Evidence.append_empty]
        exact .single halternative
      · cases closer with
        | none =>
          rcases hends with hbar | hnil | ⟨w, hw, -⟩
          · exact absurd hbar hnone
          · exact ⟨hnil, hclose⟩
          · contradiction
        | some w => exact hclose

/-- Only the empty alternative stands before the closing word. -/
theorem closed_iff_of_word (hcloser : ∀ w ∈ closer, w = [')']) {t : Text}
    (ht : ∃ w ∈ closer, word w p t) :
    (∃ r, Derives mode room .disjunction e p r ∧ Closes closer r q) ↔ e = {} ∧ q = t := by
  rcases ht with ⟨w, rfl, ht⟩
  obtain rfl := hcloser w rfl
  have hends : EndsAlternative (some [')']) p := Or.inr (Or.inr ⟨_, rfl, t, ht⟩)
  have hbar : ¬ ∃ t, word ['|'] p t := fun ⟨_, h⟩ => not_word_of_word ht (by decide) h
  constructor
  · intro h
    rcases h with ⟨r, h, hr⟩
    rcases Language.eq_of_disjunction (hends.not_startsTerm hcloser) hbar h with ⟨rfl, rfl⟩
    exact ⟨rfl, word_unique hr ht⟩
  · intro h
    rcases h with ⟨rfl, rfl⟩
    exact ⟨p, .single .nil, ht⟩

/-- At the closing word it is taken, and nothing stands before it. -/
theorem found_closingWord (hcloser : ∀ w ∈ closer, w = [')']) {s : State}
    {found : Unit × List CodeUnit}
    (h : (closer.bind fun w => (Reader.word w).run s.rest) = some found) :
    Found mode .evidence s (.matched, { s with rest := found.2 }) fun e q =>
      ∃ r, Derives mode room .disjunction e (decode mode s.rest) r ∧ Closes closer r q := by
  rcases Option.bind_eq_some_iff.1 h with ⟨w, rfl, hrun⟩
  obtain rfl := hcloser w rfl
  have hparen : Reads mode (Reader.word [')']) fun _ => word [')'] := reads_word (by decide)
  exact (Found.moved (Found.here rfl trivial rfl)).congr fun e q =>
    closed_iff_of_word hcloser ⟨_, rfl, hparen.sound hrun⟩

theorem found_closing (hcloser : ∀ w ∈ closer, w = [')']) {s : State}
    (hbar : ¬ ∃ t, word ['|'] (decode mode s.rest) t) :
    Found mode .evidence s (plain (closing closer) s) fun e q =>
      AfterAlternative mode room closer e (decode mode s.rest) q := by
  refine ((Traceless.plain_evidence (reads_closing hcloser)).recognizes s).congr fun e q => ?_
  constructor
  · intro h
    rcases h with ⟨t, ht, -⟩ | ⟨-, rfl, h⟩
    · exact absurd ⟨t, ht⟩ hbar
    · exact ⟨(), rfl, h⟩
  · intro h
    rcases h with ⟨_, rfl, h⟩
    exact Or.inr ⟨hbar, rfl, h⟩

/-- What the loop over alternatives does after one of them. -/
def afterAlternative (σ : Settings) (body : Recognizer) (closer : Option (List Char))
    (bound : List CodeUnit) : Recognizer := fun s =>
  match (Reader.word ['|']).run s.rest, bound with
  | some (_, rest), _ :: bound => alternativesWithin σ body closer bound { s with rest }
  | _, _ => plain (closing closer) s

theorem afterAlternative_of_none {bound : List CodeUnit} {s : State}
    (h : (Reader.word ['|']).run s.rest = none) :
    afterAlternative σ body closer bound s = plain (closing closer) s := by
  simp [afterAlternative, h]

theorem alternativesWithin_eq_followedBy {bound : List CodeUnit} {s : State}
    (h : (closer.bind fun w => (Reader.word w).run s.rest) = none) :
    alternativesWithin σ body closer bound s =
      (alternative σ body closer).followedBy (afterAlternative σ body closer bound) s := by
  rw [alternativesWithin.eq_def, h]
  rfl

/-- One round of the loop over alternatives, where all that follows is right. -/
theorem found_round (hcloser : ∀ w ∈ closer, w = [')'])
    (hterm : Recognizes mode .evidence (term σ body) (TakenTerm mode room))
    {bound : List CodeUnit} {s : State}
    (hafter : ∀ s' : State, (decode mode s'.rest).length ≤ (decode mode s.rest).length →
      Found mode .evidence s' (afterAlternative σ body closer bound s') fun e q =>
        AfterAlternative mode room closer e (decode mode s'.rest) q) :
    Found mode .evidence s (alternativesWithin σ body closer bound s) fun e q =>
      ∃ r, Derives mode room .disjunction e (decode mode s.rest) r ∧ Closes closer r q := by
  cases hclosing : closer.bind fun w => (Reader.word w).run s.rest with
  | some found =>
    have hmatched : alternativesWithin σ body closer bound s =
        (.matched, { s with rest := found.2 }) := by
      rw [alternativesWithin.eq_def, hclosing]
    rw [hmatched]
    exact found_closingWord hcloser hclosing
  | none =>
    rw [alternativesWithin_eq_followedBy hclosing]
    have halternative : Found mode .evidence s (alternative σ body closer s) _ :=
      found_alternativeWithin hcloser hterm s.rest s (length_decode_le mode s.rest)
    refine (halternative.bind_evidence (fun e hmatch h => ?_) fun hnone => ?_).congr fun e q =>
      closed_iff hcloser
    · rw [followedBy_of_match hmatch]
      exact hafter _ (Language.length_of_derives h.1).1
    · rw [followedBy_of_noMatch hnone, hnone]

/-- Each bar takes a character, so the bound lasts up to the closing word. -/
theorem found_alternativesWithin (hcloser : ∀ w ∈ closer, w = [')'])
    (hterm : Recognizes mode .evidence (term σ body) (TakenTerm mode room))
    (bound : List CodeUnit) (s : State) (hlen : (decode mode s.rest).length ≤ bound.length) :
    Found mode .evidence s (alternativesWithin σ body closer bound s) fun e q =>
      ∃ r, Derives mode room .disjunction e (decode mode s.rest) r ∧ Closes closer r q := by
  have hbar : Reads mode (Reader.word ['|']) fun _ => word ['|'] := reads_word (by decide)
  have hclosing {bound : List CodeUnit} {s : State}
      (hrun : (Reader.word ['|']).run s.rest = none) :
      Found mode .evidence s (afterAlternative σ body closer bound s) fun e q =>
        AfterAlternative mode room closer e (decode mode s.rest) q := by
    rw [afterAlternative_of_none hrun]
    exact found_closing hcloser fun ⟨t, h⟩ => hbar.run_eq_none_iff.1 hrun ⟨(), t, h⟩
  induction bound generalizing s with
  | nil =>
    -- with no bound left there is no text, and no bar in it
    refine found_round hcloser hterm fun s' hle => hclosing ?_
    rw [hbar.run_eq_none_iff]
    intro h
    rcases h with ⟨_, t, h⟩
    have hlt := length_lt_of_word h
    simp only [List.length_nil] at hlen
    omega
  | cons u bound ih =>
    refine found_round hcloser hterm fun s' hle => ?_
    cases hrun : (Reader.word ['|']).run s'.rest with
    | none => exact hclosing hrun
    | some found =>
      rcases found with ⟨_, rest⟩
      have hword := hbar.sound hrun
      have hlt := length_lt_of_word hword
      have hafter : afterAlternative σ body closer (u :: bound) s' =
          alternativesWithin σ body closer bound { s' with rest } := by
        simp only [afterAlternative, hrun]
      rw [hafter]
      simp only [List.length_cons] at hlen
      refine (ih { s' with rest } (by change (decode mode rest).length ≤ _; omega)).moved.congr
        fun e q => ?_
      constructor
      · intro h
        rcases h with ⟨t, ht, h⟩ | ⟨hnone, -⟩
        · obtain rfl := word_unique ht hword
          exact h
        · exact absurd ⟨_, hword⟩ hnone
      · exact fun h => Or.inl ⟨_, hword, h⟩

theorem recognizes_alternatives (hcloser : ∀ w ∈ closer, w = [')'])
    (hterm : Recognizes mode .evidence (term σ body) (TakenTerm mode room)) :
    Recognizes mode .evidence (alternatives σ body closer) fun e p q =>
      ∃ r, Derives mode room .disjunction e p r ∧ Closes closer r q :=
  fun s => found_alternativesWithin hcloser hterm s.rest s (length_decode_le mode s.rest)

theorem recognizes_groupBody (hmode : σ.mode = mode) (room : Nat) :
    Recognizes mode .evidence (groupBody σ room) (Body mode room) := by
  induction room with
  -- a group whose body may open `room` more is one disjunction, in which one less may be opened
  | zero => exact fun s => .noMatch rfl fun _ _ => id
  | succ room ih => exact recognizes_alternatives (by simp) (recognizes_term hmode ih)

/-- A disjunction up to the end of the text. -/
theorem recognizes_disjunction (hmode : σ.mode = mode) (room : Nat) :
    Recognizes mode .evidence (disjunction σ room none) fun e p q =>
      q = [] ∧ Derives mode room .disjunction e p [] := by
  refine (recognizes_alternatives (by simp) (recognizes_term hmode
    (recognizes_groupBody hmode room))).congr fun e p q => ?_
  constructor
  · intro h
    rcases h with ⟨rfl, h⟩
    exact ⟨[], h, rfl, rfl⟩
  · intro h
    rcases h with ⟨_, h, rfl, rfl⟩
    exact ⟨rfl, h⟩

end EcmaPattern.Grammar
