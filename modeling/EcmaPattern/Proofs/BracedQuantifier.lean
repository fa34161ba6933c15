import EcmaPattern.Proofs.Recognition.Idle

namespace EcmaPattern

open CodeUnit Form Recognizer
open EcmaPattern.Language (BracesWord)

/-! # Bounds in braces

They are read in two ways, as a quantifier and only for their shape. Both readings take the same
braces, and they part only where the bounds are out of order: then there is no quantifier, but the
shape is there, so that legacy mode does not take the brace for a character.
-/

/-- Bounds in order: the greatest number, if there is one, is at least the least one. -/
def InOrder (m : List Char) (most : Option (List Char)) : Prop :=
  ∀ n ∈ most, Numeral.value 10 m ≤ Numeral.value 10 n

instance (m : List Char) (most : Option (List Char)) : Decidable (InOrder m most) :=
  inferInstanceAs (Decidable (∀ n ∈ most, _))

/-- What is left of a text after a question mark, if it starts with one. -/
def afterMark (units : List CodeUnit) : List CodeUnit :=
  if (encode ['?']).isPrefixOf units then units.drop 1 else units

variable {m n w : List Char} {most : Option (List Char)} {units rest : List CodeUnit}
variable {mode : Mode} {s : State}

theorem Language.BracesWord.ascii (h : BracesWord m most w) : ∀ c ∈ w, c.toNat < 0x80 := by
  have hnumeral {n : List Char} (hn : Language.IsNumeral n) : ∀ c ∈ n, c.toNat < 0x80 :=
    fun c hc => Grammar.isAscii_isDigit c (hn.2 c hc)
  cases h with
  | exact hm =>
    simp only [List.forall_mem_append]
    exact ⟨⟨by decide, hnumeral hm⟩, by decide⟩
  | atLeast hm =>
    simp only [List.forall_mem_append]
    exact ⟨⟨by decide, hnumeral hm⟩, by decide⟩
  | between hm hn =>
    simp only [List.forall_mem_append]
    exact ⟨⟨⟨⟨by decide, hnumeral hm⟩, by decide⟩, hnumeral hn⟩, by decide⟩

theorem Language.BracesWord.word_iff (h : BracesWord m most w) :
    word w (decode mode units) (decode mode rest) ↔ units = encode w ++ rest :=
  word_decode_iff (whole_of_ascii h.ascii)

theorem inOrder_iff {most : Option (List Char)} :
    InOrder m most ↔ ∀ n ∈ most.map (Numeral.value 10), Numeral.value 10 m ≤ n := by
  simp [InOrder]

namespace Grammar

/-! ## The shape -/

theorem run_bracedShape_iff : bracedShape.run units = some ((), rest) ↔
    ∃ m most w, BracesWord m most w ∧ units = encode w ++ rest := by
  have hreads : Reader.Reads .legacy bracedShape _ := reads_bracedShape
  rw [hreads.run_eq_some_iff]
  simp only [Language.braces_iff]
  constructor
  · intro h
    rcases h with ⟨v, m, most, w, hw, h, -⟩
    exact ⟨m, most, w, hw, hw.word_iff.1 h⟩
  · intro h
    rcases h with ⟨m, most, w, hw, h⟩
    exact ⟨_, m, most, w, hw, hw.word_iff.2 h, rfl⟩

/-! ## The quantifier -/

theorem greedyMark_decode_iff :
    GreedyMark (decode mode units) (decode mode rest) ↔ rest = afterMark units := by
  have hat : (encode ['?']).isPrefixOf units = true ↔ ∃ t, word ['?'] (decode mode units) t :=
    Reader.isPrefixOf_encode_iff (by decide)
  rw [GreedyMark, ← hat, word_decode_iff (whole_of_ascii (by decide)),
    (decode_injective mode).eq_iff, afterMark]
  cases hmark : (encode ['?']).isPrefixOf units with
  | true =>
    rcases List.isPrefixOf_iff_prefix.1 hmark with ⟨after, rfl⟩
    have hdrop : (encode ['?'] ++ after).drop 1 = after := rfl
    rw [if_pos rfl, hdrop, List.append_cancel_left_eq]
    constructor
    · intro h
      rcases h with rfl | ⟨hfalse, -⟩
      · rfl
      · exact absurd rfl hfalse
    · exact fun h => Or.inl h.symm
  | false =>
    rw [if_neg Bool.false_ne_true]
    constructor
    · intro h
      rcases h with rfl | ⟨-, rfl⟩
      · rw [List.isPrefixOf_iff_prefix.2 (List.prefix_append _ _)] at hmark
        contradiction
      · rfl
    · exact fun h => Or.inr ⟨Bool.false_ne_true, h.symm⟩

theorem run_bracedQuantifier_iff : bracedQuantifier.run units = some ((), rest) ↔
    ∃ m most w after, BracesWord m most w ∧ units = encode w ++ after ∧ InOrder m most ∧
      rest = afterMark after := by
  have hreads : Reader.Reads .legacy bracedQuantifier _ := reads_bracedQuantifier
  rw [hreads.run_eq_some_iff]
  constructor
  · intro h
    rcases h with ⟨least, _, t, hbraces, hle, hmark⟩
    rcases Language.braces_iff.1 hbraces with ⟨m, most, w, hw, hword, hv⟩
    rcases Prod.mk.inj hv with ⟨rfl, rfl⟩
    rcases of_decode_append hw.ascii hword with ⟨after, hunits, rfl⟩
    exact ⟨m, most, w, after, hw, hunits, inOrder_iff.2 hle, greedyMark_decode_iff.1 hmark⟩
  · intro h
    rcases h with ⟨m, most, w, after, hw, hunits, hle, hrest⟩
    exact ⟨_, _, _, Language.braces_iff.2 ⟨m, most, w, hw, hw.word_iff.2 hunits, rfl⟩,
      inOrder_iff.1 hle, greedyMark_decode_iff.2 hrest⟩

/-- Bounds out of order are no quantifier. -/
theorem run_bracedQuantifier_eq_none (hw : BracesWord m most w) (hunits : units = encode w ++ rest)
    (hle : ¬ InOrder m most) : bracedQuantifier.run units = none := by
  rw [Option.eq_none_iff_forall_ne_some]
  rintro ⟨_, rest'⟩ hrun
  rcases run_bracedQuantifier_iff.1 hrun with ⟨m', most', w', after, hw', hunits', hle', -⟩
  have hword : word w (decode .legacy units) _ := hw.word_iff.2 hunits
  rcases hw.unique hw' hword (hw'.word_iff.2 hunits') with ⟨rfl, rfl, -⟩
  exact hle hle'

/-! ## After an atom -/

/-- In legacy mode a brace that opens no quantifier is left where it is. -/
theorem run_quantifier_of_none (hbrace : ∃ after, units = encode ['{'] ++ after)
    (h : bracedQuantifier.run units = none) :
    (quantifier .legacy).run units = some ((), units) := by
  rw [reads_quantifier.run_eq_some_iff]
  rcases hbrace with ⟨after, hunits⟩
  have hword : word ['{'] (decode .legacy units) (decode .legacy after) :=
    (word_decode_iff (whole_of_ascii (by decide))).2 hunits
  refine Or.inr ⟨?_, nofun, rfl⟩
  rintro ⟨t, ht⟩
  exact reads_bracedQuantifier.run_eq_none_iff.1 h
    ⟨(), t, (GreedyQuantifier.bounds_iff ⟨_, hword⟩).1 ht⟩

variable {σ : Settings} {p body : Recognizer}

theorem exists_brace (hw : BracesWord m most w) :
    ∃ after, encode w ++ rest = encode ['{'] ++ after := by
  cases hw <;> exact ⟨_, rfl⟩

/-- What matches before bounds out of order matches without them. -/
theorem quantified_of_disorder (hmode : σ.mode = .legacy) (hmatch : (p s).1.isMatch = true)
    (hw : BracesWord m most w) (hrest : (p s).2.rest = encode w ++ rest) (hle : ¬ InOrder m most) :
    quantified σ p s = (.matched, (p s).2) := by
  have hquantifier : plain (quantifier .legacy) (p s).2 = (.matched, (p s).2) :=
    plain_of_some (run_quantifier_of_none (hrest ▸ exists_brace hw)
      (run_bracedQuantifier_eq_none hw hrest hle))
  have hboth : p.followedBy (plain (quantifier σ.mode)) s = (.matched, (p s).2) := by
    rw [followedBy_of_match hmatch, hmode, hquantifier]
  rw [quantified, attempt_of_match (by rw [hboth]; rfl), hboth]

/-- No term starts with bounds in braces. -/
theorem idle_term_of_braces (hw : BracesWord m most w) (hrest : s.rest = encode w ++ rest) :
    Idle (term σ body) s := by
  rcases exists_brace hw with ⟨after, hafter⟩
  have hbrace : word ['{'] (decode σ.mode s.rest) (decode σ.mode after) :=
    (word_decode_iff (whole_of_ascii (by decide))).2 (hrest.trans hafter)
  have hparen (l : List Char) (t : Text) : ¬ word ('(' :: l) (decode σ.mode s.rest) t :=
    not_word_of_word hbrace (by decide)
  have hlabels (labels : List (List Char)) :
      ¬ AtWord (labels.map ('(' :: ·)) (decode σ.mode s.rest) := by
    rintro ⟨v, hv, t, ht⟩
    rcases List.mem_map.1 hv with ⟨l, -, rfl⟩
    exact hparen l t ht
  have hgroup : Idle (capturingGroup σ body) s :=
    (confinedTo_capturingGroup rfl).idle fun ⟨t, ht⟩ => hparen [] t ht
  have hliteral : ¬ (Literal .legacy).Applies (decode .legacy s.rest) := by
    rintro ⟨e, q, n, -, -, -, hnone⟩
    exact hnone rfl ⟨_, _, Language.braces_iff.2 ⟨m, most, w, hw, hw.word_iff.2 hrest, rfl⟩⟩
  have hatom : Idle (atom σ body) s := by
    refine anyOf_of_idle fun p hp => ?_
    rw [atomForms_eq_append] at hp
    rcases List.mem_append.1 hp with hp | hp
    · exact idle_of_mem_beforeGroup hbrace (by decide) (hlabels [['?', ':']]) p hp
    · rcases List.mem_cons.1 hp with rfl | hp
      · exact hgroup
      · exact idle_of_mem_afterGroup (fun _ => hliteral) p hp
  rw [Idle, term_eq_quantified (idle_of_mem_beforeAtom hbrace (by decide) (hlabels _))]
  exact idle_quantified hatom

end Grammar

/-- The two readings of bounds in braces agree. The shape is found if and only if the text starts
with `{m}`, `{m,}` or `{m,n}`, and the quantifier if and only if it does with the bounds in order,
whatever the lengths of the numerals. Both take the same braces, and the quantifier a question mark
directly after them as well. So in legacy mode bounds out of order after an atom are not read again
as characters: the atom ends before the brace, and the next term fails there. -/
theorem braced_readings_agree (s : State) :
    let shape := plain Grammar.bracedShape s
    let quantifier := plain Grammar.bracedQuantifier s
    (shape.1.isMatch = true ↔ ∃ m most w rest, BracesWord m most w ∧ s.rest = encode w ++ rest) ∧
    (quantifier.1.isMatch = true ↔
      ∃ m most w rest, BracesWord m most w ∧ s.rest = encode w ++ rest ∧ InOrder m most) ∧
    (∀ m most w rest, BracesWord m most w → s.rest = encode w ++ rest →
      shape = (.matched, { s with rest }) ∧
      quantifier =
        if InOrder m most then (.matched, { s with rest := afterMark rest }) else (.noMatch, s)) ∧
    ∀ σ body, σ.mode = .legacy → (Grammar.atom σ body s).1.isMatch = true →
      ∀ m n w rest, BracesWord m (some n) w →
        (Grammar.atom σ body s).2.rest = encode w ++ rest →
        Numeral.value 10 n < Numeral.value 10 m →
        Grammar.quantified σ (Grammar.atom σ body) s = (.matched, (Grammar.atom σ body s).2) ∧
          Grammar.term σ body (Grammar.atom σ body s).2 =
            (.noMatch, (Grammar.atom σ body s).2) := by
  intro shape quantifier
  refine ⟨?shapeMatches, ?quantifierMatches, ?taken, ?refused⟩
  case shapeMatches =>
    rw [isMatch_plain_iff]
    constructor
    · intro h
      rcases h with ⟨_, rest, hrun⟩
      rcases Grammar.run_bracedShape_iff.1 hrun with ⟨m, most, w, hw, hrest⟩
      exact ⟨m, most, w, rest, hw, hrest⟩
    · intro h
      rcases h with ⟨m, most, w, rest, hw, hrest⟩
      exact ⟨(), rest, Grammar.run_bracedShape_iff.2 ⟨m, most, w, hw, hrest⟩⟩
  case quantifierMatches =>
    rw [isMatch_plain_iff]
    constructor
    · intro h
      rcases h with ⟨_, rest, hrun⟩
      rcases Grammar.run_bracedQuantifier_iff.1 hrun with ⟨m, most, w, after, hw, hrest, hle, -⟩
      exact ⟨m, most, w, after, hw, hrest, hle⟩
    · intro h
      rcases h with ⟨m, most, w, rest, hw, hrest, hle⟩
      exact ⟨(), _, Grammar.run_bracedQuantifier_iff.2 ⟨m, most, w, rest, hw, hrest, hle, rfl⟩⟩
  case taken =>
    intro m most w rest hw hrest
    refine ⟨plain_of_some (Grammar.run_bracedShape_iff.2 ⟨m, most, w, hw, hrest⟩), ?_⟩
    split
    next hle =>
      exact plain_of_some
        (Grammar.run_bracedQuantifier_iff.2 ⟨m, most, w, rest, hw, hrest, hle, rfl⟩)
    next hle => exact plain_of_none (Grammar.run_bracedQuantifier_eq_none hw hrest hle)
  case refused =>
    intro σ body hmode hmatch m n w rest hw hrest hlt
    have hle : ¬ InOrder m (some n) := fun hle => absurd (hle n rfl) (Nat.not_le.2 hlt)
    exact ⟨Grammar.quantified_of_disorder hmode hmatch hw hrest hle,
      Grammar.idle_term_of_braces hw hrest⟩

/-- Bounds out of order after a letter, the first of them with leading zeros. -/
theorem braces_out_of_order :
    let σ : Settings := { mode := .legacy }
    let body := Grammar.groupBody σ 1
    let s := State.start (encode "a{0012,3}?".toList)
    let after : State := { s with rest := s.rest.drop 1 }
    Grammar.quantified σ (Grammar.atom σ body) s = (.matched, after) ∧
      Grammar.term σ body after = (.noMatch, after) := by
  intro σ body s after
  have hatom : Grammar.atom σ body s = (.codePoint 'a'.toNat, after) := by decide +kernel
  have hbraces : BracesWord ['0', '0', '1', '2'] (some ['3']) _ :=
    .between ⟨by decide, by decide⟩ ⟨by decide, by decide⟩
  have h := (braced_readings_agree s).2.2.2 σ body rfl (by rw [hatom]; rfl) _ _ _ (encode ['?'])
    hbraces (by rw [hatom]; decide +kernel) (by decide +kernel)
  rwa [hatom] at h

end EcmaPattern
