import EcmaPattern.Proofs.Recognition.Frame

namespace EcmaPattern

open CodeUnit Recognizer

/-! # Places between characters

In Unicode mode a character is taken whole, also where it is read as part of a word, and going back
leads to where a character was taken before. So a surrogate pair is never entered, and no surrogate
is ever read as a character.
-/

/-- Where what is left of `s` is a text of characters, `t` has taken some of them whole. -/
def State.Aligned (s t : State) : Prop :=
  ∀ chars, s.rest = encode chars → ∃ taken left, chars = taken ++ left ∧ t.rest = encode left

namespace State

variable {s t u : State} {rest : List CodeUnit} {n : Nat}

theorem Aligned.of_rest_eq (h : t.rest = s.rest) : s.Aligned t :=
  fun chars hs => ⟨[], chars, rfl, h.trans hs⟩

theorem Aligned.trans (h : s.Aligned t) (h' : t.Aligned u) : s.Aligned u := by
  intro chars hs
  rcases h chars hs with ⟨taken, left, rfl, ht⟩
  rcases h' left ht with ⟨more, left, rfl, hu⟩
  exact ⟨taken ++ more, left, (List.append_assoc ..).symm, hu⟩

/-- A text of characters starts with the character that is read. -/
theorem exists_of_run_codePoint {chars : List Char}
    (h : (Reader.codePoint .unicode).run (encode chars) = some (n, rest)) :
    ∃ c left, chars = c :: left ∧ n = c.toNat ∧ rest = encode left := by
  cases chars with
  | nil => contradiction
  | cons c left =>
    rw [encode_cons, run_codePoint_ofChar] at h
    obtain ⟨rfl, rfl⟩ := Prod.mk.inj (Option.some.inj h)
    exact ⟨c, left, rfl, rfl, rfl⟩

theorem Aligned.codePoint (h : (Reader.codePoint .unicode).run s.rest = some (n, rest)) :
    s.Aligned { s with rest } := by
  intro chars hs
  rw [hs] at h
  rcases exists_of_run_codePoint h with ⟨c, left, rfl, -, hrest⟩
  exact ⟨[c], left, rfl, hrest⟩

theorem Aligned.character (s : State) (c : Char) (rest : List CodeUnit)
    (h : s.rest = ofChar c ++ rest) : s.Aligned { s with rest } :=
  .codePoint (h ▸ run_codePoint_ofChar c rest)

theorem rest_closeGroup (name : Option String) (s : State) :
    (Grammar.closeGroup name s).2.rest = s.rest := by
  rcases closeGroup_cases name s with ⟨names, -, heq⟩ | ⟨d, heq⟩
  · rw [heq]
  · rw [heq]
    rfl

/-- Each step of a run takes whole characters. -/
theorem holdsAlong_aligned : HoldsAlong .unicode Aligned where
  refl _ := .of_rest_eq rfl
  trans := .trans
  character := .character
  codePoint := .codePoint
  note _ _ := .of_rest_eq rfl
  candidate _ _ := .of_rest_eq rfl
  reference _ _ := .of_rest_eq rfl
  undo rollback _ := .of_rest_eq (by cases rollback <;> rfl)
  closeGroup {s _ rest} name hparen h := by
    have hopen : s.Aligned { s with rest } :=
      .character s '(' rest (by simpa using Reader.run_word_eq_some_iff.1 hparen)
    exact hopen.trans (h.trans (.of_rest_eq (rest_closeGroup name _)))

end State

/-- In Unicode mode each state on the way stands between two characters of the pattern, and what is
read there as a character is no surrogate. -/
theorem between_characters (limit : UInt64) (pattern : String) :
    let options : Options := { mode := .unicode, nestingLimit := limit }
    ∀ t ∈ visited options.settings (encode pattern.toList),
      (∃ before after, pattern.toList = before ++ after ∧ t.text = encode (before ++ after) ∧
        t.position = (encode before).length ∧ t.rest = encode after) ∧
      ∀ n rest, (Reader.codePoint .unicode).run t.rest = some (n, rest) →
        Surrogate.isLead n = false ∧ Surrogate.isTrail n = false := by
  intro options t ht
  let start := State.start (encode pattern.toList)
  have haligned : start.Aligned t := State.holdsAlong_aligned.of_mem_trace _ ht
  have htext : t.text = encode pattern.toList :=
    ((holdsAlong_extends .unicode).of_mem_trace _ ht).text
  rcases haligned pattern.toList rfl with ⟨before, after, hpattern, hrest⟩
  rw [hpattern] at htext
  constructor
  · refine ⟨before, after, hpattern, htext, ?_, hrest⟩
    rw [Cursor.position, htext, hrest, encode_append, List.length_append, Nat.add_sub_cancel]
  · intro n rest hrun
    rw [hrest] at hrun
    rcases State.exists_of_run_codePoint hrun with ⟨c, -, -, rfl, -⟩
    exact ⟨not_isLead_toNat c, not_isTrail_toNat c⟩

theorem between_characters_before_unmatched :
    let pattern := "😀(?<𝒜>[^😀])|)😀"
    let t := (recognize (Options.settings { mode := .unicode }) (encode pattern.toList)).2
    t.position = 15 ∧
      ∃ before after, pattern.toList = before ++ after ∧ t.text = encode (before ++ after) ∧
        t.position = (encode before).length ∧ t.rest = encode after := by
  intro pattern t
  have ht : t ∈ visited _ (encode pattern.toList) := recognize_mem_visited _ _
  exact ⟨by decide +kernel, (between_characters 256 pattern t ht).1⟩

end EcmaPattern
