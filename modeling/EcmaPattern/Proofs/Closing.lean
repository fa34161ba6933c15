import EcmaPattern.Proofs.Acceptance
import EcmaPattern.Proofs.Language.Tail

namespace EcmaPattern

open CodeUnit Form Recognizer
open EcmaPattern.Language (Derives)

/-! # Disjunctions in parentheses and whole patterns

What stands in parentheses is read up to the closing one, a whole pattern up to the end of the text.
The two look for the place to stop at different points of their loops, but both read the same
language: a closing parenthesis is, as the end of the text is, where every form stops that looks
ahead.
-/

variable {mode : Mode} {room : Nat} {e : Evidence} {p r : Text}

/-! ## The language -/

/-- A text before a closing parenthesis is a disjunction if and only if it is one by itself. -/
theorem Language.disjunction_before_paren_iff :
    Derives mode room .disjunction e (p ++ ')'.toNat :: r) (')'.toNat :: r) ↔
      Derives mode room .disjunction e p [] := by
  constructor
  · intro h
    have hletter : mode = .legacy → ¬ ∃ t, word ['c'] (')'.toNat :: r) t := by
      rintro - ⟨t, ht⟩
      exact absurd (List.cons.inj ht).1 (by decide)
    rcases moves_derives (q := []) hletter (Or.inl rfl) h with ⟨s, heq, hmoved⟩
    obtain rfl := List.append_cancel_right heq
    rwa [List.append_nil] at hmoved
  · intro h
    have hletter : mode = .legacy → ¬ ∃ t, word ['c'] [] t := by
      rintro - ⟨t, ht⟩
      contradiction
    have hparen : Stops (')'.toNat :: r) := Or.inr ⟨')', by decide, r, rfl⟩
    rcases moves_derives (q := []) hletter hparen h with ⟨s, rfl, hmoved⟩
    rwa [List.append_nil]

/-! ## The recognizers -/

theorem decode_append_paren (mode : Mode) (x rest : List CodeUnit) :
    decode mode (x ++ encode [')'] ++ rest) = decode mode x ++ ')'.toNat :: decode mode rest := by
  have hascii : ∀ c ∈ [')'], c.toNat < 0x80 := by decide
  rw [List.append_assoc]
  refine (decode_append_of_not_trail mode x (by decide) rest).trans (congrArg _ ?_)
  exact decode_encode_append mode hascii rest

/-- What a disjunction in parentheses finds where it ends before `rest`. -/
theorem found_closed (σ : Settings) (room : Nat) (s : State) :
    Found σ.mode .evidence s (Grammar.disjunction σ room (some [')']) s) fun e q =>
      ∃ r, Derives σ.mode room .disjunction e (decode σ.mode s.rest) r ∧ word [')'] r q :=
  Grammar.recognizes_alternatives (by simp)
    (Grammar.recognizes_term rfl (Grammar.recognizes_groupBody rfl room)) s

/-- A disjunction in parentheses is one that the closing parenthesis ends as the end of the text
does: `x` is read to its end, and the same is found in it. -/
theorem disjunction_closed_iff (σ : Settings) (room : Nat) (s : State)
    (text text' x rest : List CodeUnit) :
    let closed := Grammar.disjunction σ room (some [')'])
      { s with text, rest := x ++ encode [')'] ++ rest }
    let whole := Grammar.disjunction σ room none { s with text := text', rest := x }
    (closed.1.isMatch = true ∧ closed.2.rest = rest ↔ whole.1.isMatch = true) ∧
      (whole.1.isMatch = true → whole.2.rest = [] ∧ closed.2.toEvidence = whole.2.toEvidence) := by
  intro closed whole
  have hclosed := found_closed σ room { s with text, rest := x ++ encode [')'] ++ rest }
  have hwhole := Grammar.recognizes_disjunction (σ := σ) rfl room
    { s with text := text', rest := x }
  simp only [decode_append_paren] at hclosed
  have hagree (h : whole.1.isMatch = true) : (closed.1.isMatch = true ∧ closed.2.rest = rest) ∧
      whole.2.rest = [] ∧ closed.2.toEvidence = whole.2.toEvidence := by
    rcases hwhole.sound h with ⟨e, rest', -, hstate, ⟨hnil, hderives⟩, hfresh⟩
    obtain rfl := decode_eq_nil_iff.1 hnil
    have hderives' := Language.disjunction_before_paren_iff (r := decode σ.mode rest).2 hderives
    rcases hclosed.complete e (decode σ.mode rest) ⟨_, hderives', rfl⟩ hfresh with
      ⟨hmatch, -, rest', hstate', hrest⟩
    obtain rfl := decode_injective σ.mode hrest
    refine ⟨⟨hmatch, ?_⟩, ?_, ?_⟩
    · exact congrArg (fun s : State => s.rest) hstate'
    · exact congrArg (fun s : State => s.rest) hstate
    · exact (congrArg State.toEvidence hstate').trans (congrArg State.toEvidence hstate).symm
  refine ⟨⟨?_, fun h => (hagree h).1⟩, fun h => (hagree h).2⟩
  rintro ⟨hmatch, hrest⟩
  rcases hclosed.sound hmatch with ⟨e, rest', -, hstate, ⟨r, hderives, hparen⟩, hfresh⟩
  obtain rfl : rest' = rest := (congrArg (fun s : State => s.rest) hstate).symm.trans hrest
  obtain rfl : r = ')'.toNat :: decode σ.mode rest' := hparen
  have hderives' := Language.disjunction_before_paren_iff.1 hderives
  exact (hwhole.complete e [] ⟨rfl, hderives'⟩ hfresh).1

end EcmaPattern
