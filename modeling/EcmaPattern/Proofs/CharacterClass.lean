import EcmaPattern.Proofs.Atomicity
import EcmaPattern.Proofs.Language.Spelling
import EcmaPattern.Proofs.Scan.Scanner

namespace EcmaPattern

open CodeUnit Form

/-! # Where classes end

The loop over class atoms reads what the three productions of the grammar derive. So as to find the
end of a class none of them is needed: it is the first bracket that no backslash escapes.
-/

section

variable {α : Type}

/-- What follows the first closing bracket that no backslash escapes, where `v` is the value of a
character. The flag tells whether such a backslash precedes that is not escaped itself. -/
def afterBracket (v : α → Nat) : (escaped : Bool) → List α → Option (List α)
  | _, [] => none
  | true, _ :: text => afterBracket v false text
  | false, a :: text =>
    if v a = ']'.toNat then some text else afterBracket v (v a == '\\'.toNat) text

variable {v : α → Nat} {a : α}

/-- A character that is neither a bracket nor a backslash makes no difference. -/
theorem afterBracket_cons {escaped : Bool} (h : v a ∉ Text.ofWord [']', '\\']) (text : List α) :
    afterBracket v escaped (a :: text) = afterBracket v false text := by
  cases escaped with
  | true => rfl
  | false =>
    obtain ⟨hbracket, hback⟩ : v a ≠ ']'.toNat ∧ v a ≠ '\\'.toNat := by
      simpa [Text.ofWord] using h
    rw [afterBracket, if_neg hbracket, beq_false_of_ne hback]

end

/-! ## Code units and characters -/

/-- The bracket is the same in the units as in the characters. -/
theorem afterBracket_decode (mode : Mode) (escaped : Bool) (units : List CodeUnit) :
    afterBracket id escaped (decode mode units) =
      (afterBracket UInt16.toNat escaped units).map (decode mode) := by
  have hlarge {n : Nat} (h : 0x80 ≤ n) : n ∉ Text.ofWord [']', '\\'] := by
    intro hmem
    have hcases : n = 93 ∨ n = 92 := by simpa [Text.ofWord] using hmem
    omega
  -- a pair takes two units at once, so the induction is on how many units are left
  induction hlen : units.length using Nat.strongRecOn generalizing escaped units with
  | ind n ih =>
    cases units with
    | nil =>
      rw [decode_nil]
      cases escaped <;> rfl
    | cons u units =>
      rw [List.length_cons] at hlen
      rcases Scan.decode_cons mode u units with h | ⟨w, rest, c, rfl, h, hu, hw, hc⟩
      · have htail (escaped : Bool) := ih units.length (by omega) escaped units rfl
        rw [h]
        cases escaped with
        | true => exact htail false
        | false =>
          rw [afterBracket, afterBracket, id_eq]
          split
          · rfl
          · exact htail _
      · rw [List.length_cons] at hlen
        rw [h, afterBracket_cons (hlarge hc), afterBracket_cons (hlarge hu),
          afterBracket_cons (hlarge hw), ih rest.length (by omega) false rest rfl]

/-! ## Classes -/

theorem afterBracket_of_passesClass {p q r : Text} (h : PassesClass p q)
    (hclose : word [']'] q r) : afterBracket id false p = some r := by
  have hescape (n : Nat) (p : Text) :
      afterBracket id false ('\\'.toNat :: n :: p) = afterBracket id false p := rfl
  induction h with
  | @refl p =>
    obtain rfl : p = _ := hclose
    rfl
  | cons hn _ ih => rw [afterBracket_cons hn, ih hclose]
  | escape _ ih => rw [hescape, ih hclose]
  | backslash _ ih =>
    have hc : id 'c'.toNat ∉ Text.ofWord [']', '\\'] := by decide
    have htail := ih hclose
    rw [afterBracket_cons hc] at htail
    rw [hescape, htail]

/-- A class ends after the first bracket that no backslash escapes. -/
theorem afterBracket_of_characterClass {mode : Mode} {units rest : List CodeUnit}
    (h : Language.CharacterClass mode (decode mode units) (decode mode rest)) :
    afterBracket UInt16.toNat false (units.drop 1) = some rest := by
  rcases Language.passesClass_of_characterClass h with ⟨p, q, hopen, hpasses, hclose⟩
  rcases of_decode_append (by decide) hopen with ⟨inside, rfl, rfl⟩
  have hfound := afterBracket_of_passesClass hpasses hclose
  rw [afterBracket_decode, Option.map_eq_some_iff] at hfound
  rcases hfound with ⟨after, hafter, heq⟩
  obtain rfl : after = rest := decode_injective mode heq
  exact hafter

/-- The recognizer of classes matches what the grammar derives, and then ends after the first
bracket that no backslash escapes; a caret at the front is neither. Where it fails, the place, the
candidates and the groups are as they were. -/
theorem characterClass_spec (σ : Settings) (s : State) :
    let found := Grammar.characterClass σ s
    (found.1.isMatch = true ↔ ∃ q, Language.CharacterClass σ.mode (decode σ.mode s.rest) q) ∧
    (found.1.isMatch = true → ∃ rest, found.2 = { s with rest } ∧
      Language.CharacterClass σ.mode (decode σ.mode s.rest) (decode σ.mode rest) ∧
      afterBracket UInt16.toNat false (s.rest.drop 1) = some rest) ∧
    (found.1.isMatch = false → s.Returns found.2) := by
  intro found
  have h := Grammar.recognizes_characterClass (σ := σ) rfl s
  have hsound (hmatch : found.1.isMatch = true) : ∃ rest, found.2 = { s with rest } ∧
      Language.CharacterClass σ.mode (decode σ.mode s.rest) (decode σ.mode rest) := by
    rcases h.sound hmatch with ⟨_, rest, -, hstate, ⟨rfl, hclass⟩, -⟩
    exact ⟨rest, hstate.trans State.moved_eq_read.symm, hclass⟩
  refine ⟨⟨fun hmatch => ?_, fun hclass => ?_⟩, fun hmatch => ?_, fun hnone => ?_⟩
  · rcases hsound hmatch with ⟨rest, -, hclass⟩
    exact ⟨_, hclass⟩
  · rcases hclass with ⟨q, hclass⟩
    exact (h.complete {} q ⟨rfl, hclass⟩ (by simp [Recognizer.Meaning.evidence])).1
  · rcases hsound hmatch with ⟨rest, hstate, hclass⟩
    exact ⟨rest, hstate, hclass, afterBracket_of_characterClass hclass⟩
  · have hatomic : (Grammar.characterClass σ).Atomic := Recognizer.atomic_attempt
    exact (hatomic s hnone).returns
      ((Recognizer.holdsAlong_extends σ.mode).of_parts (Grammar.characterClassParts σ) s).text

/-- The bracket after the backslash belongs to the class, the one after the `a` closes it. -/
theorem characterClass_before_bracket :
    let text := CodeUnit.encode "x[^--\\d\\]a]]y[b-a]".toList
    let s : State := { text, rest := text.drop 1, groups := 2, candidates := [7] }
    let refused : State := { s with rest := text.drop 13 }
    (Grammar.characterClass {} s).1 = .matched ∧ (Grammar.characterClass {} s).2.position = 11 ∧
      (∃ rest, (Grammar.characterClass {} s).2 = { s with rest } ∧
        afterBracket UInt16.toNat false (s.rest.drop 1) = some rest) ∧
      (Grammar.characterClass {} refused).1 = .noMatch ∧
      refused.Returns (Grammar.characterClass {} refused).2 := by
  intro text s refused
  have hmatch : (Grammar.characterClass {} s).1 = .matched := by decide +kernel
  have hnone : (Grammar.characterClass {} refused).1 = .noMatch := by decide +kernel
  rcases (characterClass_spec {} s).2.1 (congrArg Outcome.isMatch hmatch) with
    ⟨rest, hstate, -, hbracket⟩
  exact ⟨hmatch, by decide +kernel, ⟨rest, hstate, hbracket⟩, hnone,
    (characterClass_spec {} refused).2.2 (congrArg Outcome.isMatch hnone)⟩

end EcmaPattern
