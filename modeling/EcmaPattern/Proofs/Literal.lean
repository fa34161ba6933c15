import EcmaPattern.Literal
import Mathlib.Data.Set.Subsingleton

namespace EcmaPattern.Literal

/-! # Reading what was written

A literal is read from exactly the texts that are written for one, and each text is written for one
literal at most. Of any other text the error tells what is wrong with it.
-/

variable {c : Char} {seen flags pattern rest : List Char} {text : String} {l : Literal}

/-! ## Flags -/

/-- Different flags, all of which a literal may have. -/
structure ValidFlags (flags : List Char) : Prop where
  nodup : flags.Nodup
  known : flags ⊆ knownFlags

/-- The first of `flags` that no literal may have is `c`. -/
def FirstUnknown (c : Char) (flags : List Char) : Prop :=
  ∃ before after, flags = before ++ c :: after ∧ before ⊆ knownFlags ∧ c ∉ knownFlags

/-- Of all second occurrences in `flags` that of `c` comes first. -/
def FirstTwice (c : Char) (flags : List Char) : Prop :=
  ∃ before after, flags = before ++ c :: after ∧ before.Nodup ∧ c ∈ before

theorem firstRepeated_eq_none_iff :
    firstRepeated seen flags = none ↔ flags.Nodup ∧ ∀ d ∈ flags, d ∉ seen := by
  induction flags generalizing seen with
  | nil => simp [firstRepeated]
  | cons d flags ih =>
    rw [firstRepeated]
    split
    next hd =>
      refine iff_of_false (by simp) fun h => ?_
      exact h.2 d List.mem_cons_self hd
    next hd =>
      rw [ih, List.nodup_cons, List.forall_mem_cons]
      constructor
      · rintro ⟨hnodup, hfresh⟩
        have hself : d ∉ flags := fun hmem => hfresh d hmem List.mem_cons_self
        exact ⟨⟨hself, hnodup⟩, hd, fun x hx hmem => hfresh x hx (List.mem_cons_of_mem d hmem)⟩
      · rintro ⟨⟨hself, hnodup⟩, -, hfresh⟩
        refine ⟨hnodup, fun x hx hmem => ?_⟩
        rcases List.mem_cons.1 hmem with rfl | hmem
        · exact hself hx
        · exact hfresh x hx hmem

/-- A flag counts as repeated from its second occurrence on, or from its first if it is among those
seen before. -/
theorem firstRepeated_eq_some_iff :
    firstRepeated seen flags = some c ↔
      ∃ before after, flags = before ++ c :: after ∧ before.Nodup ∧ (∀ d ∈ before, d ∉ seen) ∧
        (c ∈ seen ∨ c ∈ before) := by
  induction flags generalizing seen with
  | nil => simp [firstRepeated]
  | cons d flags ih =>
    rw [firstRepeated]
    split
    next hd =>
      constructor
      · intro h
        obtain rfl := Option.some.inj h
        exact ⟨[], flags, rfl, List.nodup_nil, by simp, Or.inl hd⟩
      · rintro ⟨before, after, heq, -, hfresh, -⟩
        cases before with
        | nil => rw [(List.cons.inj heq).1]
        | cons x before =>
          obtain ⟨rfl, -⟩ := List.cons.inj heq
          exact absurd hd (hfresh d List.mem_cons_self)
    next hd =>
      rw [ih]
      constructor
      · rintro ⟨before, after, rfl, hnodup, hfresh, hc⟩
        have hself : d ∉ before := fun hmem => hfresh d hmem List.mem_cons_self
        refine ⟨d :: before, after, rfl, List.nodup_cons.2 ⟨hself, hnodup⟩, ?_, ?_⟩
        · exact List.forall_mem_cons.2
            ⟨hd, fun x hx hmem => hfresh x hx (List.mem_cons_of_mem d hmem)⟩
        · rwa [List.mem_cons, or_assoc, or_left_comm, ← List.mem_cons] at hc
      · rintro ⟨before, after, heq, hnodup, hfresh, hc⟩
        cases before with
        | nil =>
          obtain ⟨rfl, -⟩ := List.cons.inj heq
          simp [hd] at hc
        | cons x before =>
          obtain ⟨rfl, rfl⟩ := List.cons.inj heq
          rw [List.nodup_cons] at hnodup
          rw [List.forall_mem_cons] at hfresh
          refine ⟨before, after, rfl, hnodup.2, fun y hy hmem => ?_, ?_⟩
          · rcases List.mem_cons.1 hmem with rfl | hmem
            · exact hnodup.1 hy
            · exact hfresh.2 y hy hmem
          · rwa [List.mem_cons, or_left_comm, ← or_assoc, ← List.mem_cons] at hc

theorem find?_unknown_eq_none_iff : flags.find? (· ∉ knownFlags) = none ↔ flags ⊆ knownFlags := by
  simp [List.subset_def]

theorem find?_unknown_eq_some_iff :
    flags.find? (· ∉ knownFlags) = some c ↔ FirstUnknown c flags := by
  rw [List.find?_eq_some_iff_append]
  constructor
  · rintro ⟨hc, before, after, rfl, hknown⟩
    exact ⟨before, after, rfl, fun d hd => by simpa using hknown d hd, by simpa using hc⟩
  · rintro ⟨before, after, rfl, hknown, hc⟩
    exact ⟨by simpa using hc, before, after, rfl, fun d hd => by simpa using hknown hd⟩

/-! ### What is wrong with flags -/

/-- The error in flags of which `c` is the first unknown one, whatever is repeated. -/
theorem flagError?_of_unknown (h : FirstUnknown c flags) :
    flagError? flags = some (.unknownFlag c) := by
  rw [flagError?, find?_unknown_eq_some_iff.2 h]
  rfl

theorem flagError?_of_known (h : flags ⊆ knownFlags) :
    flagError? flags = (firstRepeated [] flags).map .duplicateFlag := by
  rw [flagError?, find?_unknown_eq_none_iff.2 h]
  rfl

theorem flagError?_of_twice (hknown : flags ⊆ knownFlags) (h : FirstTwice c flags) :
    flagError? flags = some (.duplicateFlag c) := by
  rcases h with ⟨before, after, heq, hnodup, hc⟩
  have hrepeated : firstRepeated [] flags = some c :=
    firstRepeated_eq_some_iff.2 ⟨before, after, heq, hnodup, by simp, Or.inr hc⟩
  rw [flagError?_of_known hknown, hrepeated, Option.map_some]

theorem flagError?_of_valid (h : ValidFlags flags) : flagError? flags = none := by
  have hrepeated : firstRepeated [] flags = none :=
    firstRepeated_eq_none_iff.2 ⟨h.nodup, by simp⟩
  rw [flagError?_of_known h.known, hrepeated, Option.map_none]

/-- Flags are valid, or there is a first one that is unknown, or all are known and there is one that
is the first to occur twice. -/
theorem flags_cases (flags : List Char) :
    ValidFlags flags ∨ (∃ c, FirstUnknown c flags) ∨
      ∃ c, flags ⊆ knownFlags ∧ FirstTwice c flags := by
  cases hunknown : flags.find? (· ∉ knownFlags) with
  | some c => exact Or.inr (Or.inl ⟨c, find?_unknown_eq_some_iff.1 hunknown⟩)
  | none =>
    have hknown := find?_unknown_eq_none_iff.1 hunknown
    cases hrepeated : firstRepeated [] flags with
    | none => exact Or.inl ⟨(firstRepeated_eq_none_iff.1 hrepeated).1, hknown⟩
    | some c =>
      rcases firstRepeated_eq_some_iff.1 hrepeated with ⟨before, after, heq, hnodup, -, hc⟩
      exact Or.inr (Or.inr ⟨c, hknown, before, after, heq, hnodup, by simpa using hc⟩)

/-! ## Texts -/

/-- The pattern stands between the first slash, which begins the text, and the last one, and the
flags stand after that. -/
structure Splits (text : String) (pattern flags : List Char) : Prop where
  eq : text.toList = '/' :: (pattern ++ '/' :: flags)
  last : '/' ∉ flags

theorem splitAtLast_eq_some_iff :
    splitAtLast c rest = some (pattern, flags) ↔ rest = pattern ++ c :: flags ∧ c ∉ flags := by
  induction rest generalizing pattern with
  | nil => simp [splitAtLast]
  | cons d rest ih =>
    rw [splitAtLast]
    split
    next before after hsplit =>
      -- the last `c` is one of `rest`
      constructor
      · intro h
        obtain ⟨rfl, rfl⟩ := Prod.mk.inj (Option.some.inj h)
        obtain ⟨rfl, hlast⟩ := ih.1 hsplit
        exact ⟨rfl, hlast⟩
      · rintro ⟨heq, hlast⟩
        cases pattern with
        | nil =>
          obtain ⟨-, rfl⟩ := List.cons.inj heq
          rw [splitAtLast_eq_none_iff.2 hlast] at hsplit
          contradiction
        | cons x pattern =>
          obtain ⟨rfl, hrest⟩ := List.cons.inj heq
          rw [ih.2 ⟨hrest, hlast⟩] at hsplit
          obtain ⟨rfl, rfl⟩ := Prod.mk.inj (Option.some.inj hsplit)
          rfl
    next hsplit =>
      have hnone : c ∉ rest := splitAtLast_eq_none_iff.1 hsplit
      constructor
      · intro h
        split at h
        next hd =>
          obtain ⟨rfl, rfl⟩ := Prod.mk.inj (Option.some.inj h)
          exact ⟨by rw [hd, List.nil_append], hnone⟩
        next => contradiction
      · rintro ⟨heq, -⟩
        cases pattern with
        | nil =>
          obtain ⟨rfl, rfl⟩ := List.cons.inj heq
          rw [if_pos rfl]
        | cons x pattern =>
          obtain ⟨-, hrest⟩ := List.cons.inj heq
          exact absurd (hrest ▸ List.mem_append_right pattern List.mem_cons_self) hnone

/-- A text does not begin with a slash, or has no other slash, or has a last one. -/
theorem text_cases (text : String) :
    text.toList.head? ≠ some '/' ∨ (∃ rest, text.toList = '/' :: rest ∧ '/' ∉ rest) ∨
      ∃ pattern flags, Splits text pattern flags := by
  by_cases hhead : text.toList.head? = some '/'
  · rcases List.head?_eq_some_iff.1 hhead with ⟨rest, heq⟩
    cases hsplit : splitAtLast '/' rest with
    | none => exact Or.inr (Or.inl ⟨rest, heq, splitAtLast_eq_none_iff.1 hsplit⟩)
    | some parts =>
      obtain ⟨rfl, hlast⟩ := splitAtLast_eq_some_iff.1 hsplit
      exact Or.inr (Or.inr ⟨parts.1, parts.2, heq, hlast⟩)
  · exact Or.inl hhead

/-! ## Reading -/

/-- What a text is to be read as: a literal, or what is wrong with it. -/
inductive ReadAs (text : String) : Except LiteralError Literal → Prop
  | missingOpeningSlash :
      text.toList.head? ≠ some '/' → ReadAs text (.error .missingOpeningSlash)
  | missingClosingSlash {rest : List Char} :
      text.toList = '/' :: rest → '/' ∉ rest → ReadAs text (.error .missingClosingSlash)
  | unknownFlag {pattern flags : List Char} {c : Char} :
      Splits text pattern flags → FirstUnknown c flags → ReadAs text (.error (.unknownFlag c))
  | duplicateFlag {pattern flags : List Char} {c : Char} :
      Splits text pattern flags → flags ⊆ knownFlags → FirstTwice c flags →
      ReadAs text (.error (.duplicateFlag c))
  | literal {pattern flags : List Char} :
      Splits text pattern flags → ValidFlags flags →
      ReadAs text (.ok { pattern := .ofList pattern, flags := .ofList flags })

theorem ofString_of_splits (h : Splits text pattern flags) :
    ofString text =
      (flagError? flags).elim (.ok { pattern := .ofList pattern, flags := .ofList flags })
        .error := by
  rw [ofString, h.eq]
  simp only [splitAtLast_eq_some_iff.2 ⟨rfl, h.last⟩]
  cases flagError? flags <;> rfl

theorem ReadAs.ofString_eq {r : Except LiteralError Literal} (h : ReadAs text r) :
    ofString text = r := by
  cases h with
  | missingOpeningSlash hhead =>
    rw [ofString]
    split
    next rest heq => exact absurd (by rw [heq]; rfl) hhead
    next => rfl
  | missingClosingSlash heq hrest =>
    rw [ofString, heq]
    simp only [splitAtLast_eq_none_iff.2 hrest]
  | unknownFlag hsplits hflags =>
    rw [ofString_of_splits hsplits, flagError?_of_unknown hflags, Option.elim_some]
  | duplicateFlag hsplits hknown hflags =>
    rw [ofString_of_splits hsplits, flagError?_of_twice hknown hflags, Option.elim_some]
  | literal hsplits hflags =>
    rw [ofString_of_splits hsplits, flagError?_of_valid hflags, Option.elim_none]

theorem exists_readAs (text : String) : ∃ r, ReadAs text r := by
  rcases text_cases text with hhead | ⟨rest, heq, hrest⟩ | ⟨pattern, flags, hsplits⟩
  · exact ⟨_, .missingOpeningSlash hhead⟩
  · exact ⟨_, .missingClosingSlash heq hrest⟩
  · rcases flags_cases flags with hvalid | ⟨c, hunknown⟩ | ⟨c, hknown, htwice⟩
    · exact ⟨_, .literal hsplits hvalid⟩
    · exact ⟨_, .unknownFlag hsplits hunknown⟩
    · exact ⟨_, .duplicateFlag hsplits hknown htwice⟩

/-- A text is read as what it is to be read as, and as nothing else. -/
theorem ofString_eq_iff {r : Except LiteralError Literal} : ofString text = r ↔ ReadAs text r := by
  refine ⟨fun h => ?_, ReadAs.ofString_eq⟩
  rcases exists_readAs text with ⟨r', hreadAs⟩
  rwa [← h, hreadAs.ofString_eq]

/-! ## Writing -/

theorem eq_render_iff :
    text = l.render ↔ text.toList = '/' :: (l.pattern.toList ++ '/' :: l.flags.toList) := by
  rw [String.ext_iff, render]
  simp

/-- Valid flags do not contain the slash before them. -/
theorem ValidFlags.splits_render (h : ValidFlags l.flags.toList) :
    Splits l.render l.pattern.toList l.flags.toList where
  eq := eq_render_iff.1 rfl
  last hmem := absurd (h.known hmem) (by decide)

theorem ofString_eq_ok_iff :
    ofString text = .ok l ↔ text = l.render ∧ ValidFlags l.flags.toList := by
  rw [ofString_eq_iff]
  constructor
  · intro h
    cases h with
    | literal hsplits hvalid =>
      rw [eq_render_iff, String.toList_ofList, String.toList_ofList]
      exact ⟨hsplits.eq, hvalid⟩
  · rintro ⟨rfl, hvalid⟩
    have hreadAs := ReadAs.literal hvalid.splits_render hvalid
    rwa [String.ofList_toList, String.ofList_toList] at hreadAs

/-- Reading a literal undoes writing one: a text is read as a literal if and only if it is that literal
written with valid flags, and of no more than one literal is it that. What is wrong with any other
text is its first slash, its last one, the first unknown flag or, where all are known, the one that
is the first to occur twice. -/
theorem ofString_inverts_render (text : String) :
    (∀ l : Literal, ofString text = .ok l ↔ text = l.render ∧ ValidFlags l.flags.toList) ∧
      {l : Literal | text = l.render ∧ ValidFlags l.flags.toList}.Subsingleton ∧
      (ofString text = .error .missingOpeningSlash ↔ text.toList.head? ≠ some '/') ∧
      (ofString text = .error .missingClosingSlash ↔
        ∃ rest, text.toList = '/' :: rest ∧ '/' ∉ rest) ∧
      (∀ c, ofString text = .error (.unknownFlag c) ↔
        ∃ pattern flags, Splits text pattern flags ∧ FirstUnknown c flags) ∧
      ∀ c, ofString text = .error (.duplicateFlag c) ↔
        ∃ pattern flags, Splits text pattern flags ∧ flags ⊆ knownFlags ∧ FirstTwice c flags := by
  refine ⟨fun l => ofString_eq_ok_iff, fun l hl l' hl' => ?_, ?_, ?_, fun c => ?_, fun c => ?_⟩
  · have hok : (Except.ok l : Except LiteralError Literal) = .ok l' :=
      (ofString_eq_ok_iff.2 hl).symm.trans (ofString_eq_ok_iff.2 hl')
    exact Except.ok.inj hok
  all_goals rw [ofString_eq_iff]
  · constructor
    · intro h
      cases h with
      | missingOpeningSlash hhead => exact hhead
    · exact .missingOpeningSlash
  · constructor
    · intro h
      cases h with
      | missingClosingSlash heq hrest => exact ⟨_, heq, hrest⟩
    · rintro ⟨rest, heq, hrest⟩
      exact .missingClosingSlash heq hrest
  · constructor
    · intro h
      cases h with
      | unknownFlag hsplits hunknown => exact ⟨_, _, hsplits, hunknown⟩
    · rintro ⟨pattern, flags, hsplits, hunknown⟩
      exact .unknownFlag hsplits hunknown
  · constructor
    · intro h
      cases h with
      | duplicateFlag hsplits hknown htwice => exact ⟨_, _, hsplits, hknown, htwice⟩
    · rintro ⟨pattern, flags, hsplits, hknown, htwice⟩
      exact .duplicateFlag hsplits hknown htwice

/-- An unknown flag counts even after a repeated one. -/
example : ofString "/a/b/ggx" = .error (.unknownFlag 'x') := by decide +kernel

end EcmaPattern.Literal
