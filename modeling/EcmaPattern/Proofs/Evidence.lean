import EcmaPattern.Grammar.AtomEscape

namespace EcmaPattern

/-! # Evidence from one text after another -/

namespace Evidence

attribute [ext] Evidence

/-- What is known from two texts, the second after the first. -/
instance : Append Evidence where
  append e f :=
    { groups := e.groups + f.groups
      candidates := e.candidates ++ f.candidates
      names := e.names ++ f.names
      references := e.references ++ f.references }

theorem append_def (e f : Evidence) : e ++ f =
    { groups := e.groups + f.groups
      candidates := e.candidates ++ f.candidates
      names := e.names ++ f.names
      references := e.references ++ f.references } :=
  rfl

@[simp] theorem groups_append (e f : Evidence) : (e ++ f).groups = e.groups + f.groups := rfl

@[simp] theorem candidates_append (e f : Evidence) :
    (e ++ f).candidates = e.candidates ++ f.candidates := rfl

@[simp] theorem names_append (e f : Evidence) : (e ++ f).names = e.names ++ f.names := rfl

@[simp] theorem references_append (e f : Evidence) :
    (e ++ f).references = e.references ++ f.references := rfl

@[simp] theorem append_empty (e : Evidence) : e ++ ({} : Evidence) = e := by
  ext1 <;> simp

@[simp] theorem empty_append (e : Evidence) : ({} : Evidence) ++ e = e := by
  ext1 <;> simp

theorem append_assoc (e f g : Evidence) : e ++ f ++ g = e ++ (f ++ g) := by
  ext1 <;> simp [Nat.add_assoc]

/-! ## Sound evidence -/

/-- Whether the references of a whole pattern are sound. In Unicode mode no number is greater than
the number of groups, and each name is the name of a group. In legacy mode numbers do not count, and
names only where a group has one. -/
structure Sound (mode : Mode) (e : Evidence) : Prop where
  numbers : mode = .unicode → ∀ n ∈ e.candidates, n ≤ e.groups
  names : mode = .unicode ∨ e.names ≠ [] → ∀ r ∈ e.references, ∃ name ∈ e.names, r = .named name

theorem numberFault?_eq_none_iff {e : Evidence} :
    e.numberFault? = none ↔ ∀ n ∈ e.candidates, n ≤ e.groups := by
  simp [numberFault?]

theorem referenceFault?_eq_none_iff {e : Evidence} {r : Reference} :
    e.referenceFault? r = none ↔ ∃ name ∈ e.names, r = .named name := by
  cases r with
  | named name => simp [referenceFault?]
  | malformed => simp [referenceFault?]

theorem nameFault?_eq_none_iff {e : Evidence} :
    e.nameFault? = none ↔ ∀ r ∈ e.references, ∃ name ∈ e.names, r = .named name := by
  simp [nameFault?, List.findSome?_eq_none_iff, referenceFault?_eq_none_iff]

/-- Evidence without a fault is sound. -/
theorem fault?_eq_none_iff {mode : Mode} {e : Evidence} : e.fault? mode = none ↔ e.Sound mode := by
  cases mode with
  | unicode =>
    rw [fault?, Option.orElse_eq_orElse, Option.orElse_eq_or, Option.or_eq_none_iff,
      numberFault?_eq_none_iff, nameFault?_eq_none_iff]
    constructor
    · intro h
      rcases h with ⟨hnumbers, hnames⟩
      exact ⟨fun _ => hnumbers, fun _ => hnames⟩
    · intro h
      exact ⟨h.numbers rfl, h.names (Or.inl rfl)⟩
  | legacy =>
    rw [fault?]
    split
    next hnone =>
      -- without names legacy mode does not look at references at all
      have hnil : e.names = [] := List.isEmpty_iff.1 hnone
      refine iff_of_true rfl ⟨nofun, ?_⟩
      intro h
      rcases h with hmode | hne
      · contradiction
      · exact absurd hnil hne
    next hnone =>
      have hne : e.names ≠ [] := fun hnil => hnone (List.isEmpty_iff.2 hnil)
      rw [nameFault?_eq_none_iff]
      constructor
      · intro h
        exact ⟨nofun, fun _ => h⟩
      · intro h
        exact h.names (Or.inr hne)

/-- The evidence of a state, in which numbers are saturated. -/
def saturated (e : Evidence) : Evidence :=
  { e with candidates := e.candidates.map (min Grammar.largestReference) }

@[simp] theorem saturated_empty : ({} : Evidence).saturated = {} := rfl

theorem saturated_append (e f : Evidence) : (e ++ f).saturated = e.saturated ++ f.saturated := by
  ext1 <;> simp [saturated]

/-- Saturated numbers are sound as the numbers are, if there are fewer groups than the largest
reference that is told apart. -/
theorem sound_saturated_iff {mode : Mode} {e : Evidence}
    (h : mode = .unicode → e.groups < Grammar.largestReference) :
    e.saturated.Sound mode ↔ e.Sound mode := by
  -- saturation moves a number only down to the limit, which no number of groups reaches
  have hmin (hmode : mode = .unicode) (n : Nat) :
      min Grammar.largestReference n ≤ e.groups ↔ n ≤ e.groups := by
    have := h hmode
    omega
  constructor
  · intro hsound
    refine ⟨fun hmode n hn => ?_, hsound.names⟩
    exact (hmin hmode n).1 (hsound.numbers hmode _ (List.mem_map.2 ⟨n, hn, rfl⟩))
  · intro hsound
    refine ⟨fun hmode m hm => ?_, hsound.names⟩
    rcases List.mem_map.1 hm with ⟨n, hn, rfl⟩
    exact (hmin hmode n).2 (hsound.numbers hmode n hn)

end Evidence

/-! ## Names -/

/-- Names that may join the names `old`: all are new, and all are different. -/
def Fresh (old new : List String) : Prop := new.Nodup ∧ ∀ n ∈ new, n ∉ old

@[simp] theorem fresh_nil {old : List String} : Fresh old [] := by simp [Fresh]

@[simp] theorem nil_fresh {new : List String} : Fresh [] new ↔ new.Nodup := by simp [Fresh]

theorem fresh_singleton {old : List String} {n : String} : Fresh old [n] ↔ n ∉ old := by
  simp [Fresh]

/-- Names may join one after the other if they may join together. -/
theorem fresh_append {old first second : List String} :
    Fresh old (first ++ second) ↔ Fresh old first ∧ Fresh (old ++ first) second := by
  simp only [Fresh, List.nodup_append, List.mem_append]
  constructor
  · intro h
    rcases h with ⟨⟨hfirst, hsecond, hne⟩, hold⟩
    refine ⟨⟨hfirst, fun n hn => hold n (Or.inl hn)⟩, hsecond, ?_⟩
    intro n hn h
    rcases h with hmem | hmem
    · exact hold n (Or.inr hn) hmem
    · exact hne n hmem n hn rfl
  · intro h
    rcases h with ⟨⟨hfirst, hold⟩, hsecond, hold'⟩
    refine ⟨⟨hfirst, hsecond, ?_⟩, ?_⟩
    · intro m hm n hn heq
      subst heq
      exact hold' m hn (Or.inr hm)
    · intro n h
      rcases h with hn | hn
      · exact hold n hn
      · exact fun hmem => hold' n hn (Or.inl hmem)

/-! ## States -/

namespace State

/-- The state after a text that says `e` was read and `rest` is left. -/
def read (s : State) (rest : List CodeUnit) (e : Evidence) : State :=
  { s with rest, toEvidence := s.toEvidence ++ e.saturated }

variable {s : State} {rest rest' : List CodeUnit} {e f : Evidence}

theorem moved_eq_read : { s with rest } = s.read rest {} := by
  rw [read, Evidence.saturated_empty, Evidence.append_empty]

@[simp] theorem read_rest_empty : s.read s.rest {} = s := moved_eq_read.symm

/-- Reading one text after another is reading both. -/
theorem read_read : (s.read rest e).read rest' f = s.read rest' (e ++ f) := by
  simp only [read, Evidence.saturated_append, Evidence.append_assoc]

theorem addCandidate_eq_read (digits : List Char) :
    { s with rest }.addCandidate (Numeral.saturated 10 Grammar.largestReference digits) =
      s.read rest { candidates := [Numeral.value 10 digits] } := by
  rw [Numeral.saturated_eq_min 10 Grammar.largestReference (by decide)]
  simp [addCandidate, read, Evidence.saturated, Evidence.append_def]

theorem addReference_eq_read (r : Reference) :
    { s with rest }.addReference r = s.read rest { references := [r] } := by
  simp [addReference, read, Evidence.saturated, Evidence.append_def]

end State

end EcmaPattern
