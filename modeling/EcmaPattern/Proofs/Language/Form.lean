import EcmaPattern.Options

namespace EcmaPattern

/-! # Forms of text

A grammar is made of forms. A form relates a text to what may follow the part of it that has the
form, so a grammar can look at what follows without taking it.
-/

/-- What is true of all characters of a word is decided character by character. -/
instance (priority := high) decidableForallMem {P : Char → Prop} [DecidablePred P]
    (w : List Char) : Decidable (∀ c ∈ w, P c) :=
  List.decidableBAll P w

/-- A text as a grammar sees it: the values of its characters, which are code points in Unicode
mode and code units in legacy mode. -/
abbrev Text := List Nat

namespace Text

/-- The characters of `w`. -/
def ofWord (w : List Char) : Text := w.map Char.toNat

@[simp] theorem ofWord_nil : ofWord [] = [] := rfl

@[simp] theorem ofWord_cons (c : Char) (w : List Char) : ofWord (c :: w) = c.toNat :: ofWord w :=
  rfl

@[simp] theorem ofWord_append (v w : List Char) : ofWord (v ++ w) = ofWord v ++ ofWord w := by
  simp [ofWord]

@[simp] theorem length_ofWord (w : List Char) : (ofWord w).length = w.length := by
  simp [ofWord]

theorem mem_ofWord {c : Char} {w : List Char} : c.toNat ∈ ofWord w ↔ c ∈ w := by
  constructor
  · intro h
    rcases List.mem_map.1 h with ⟨d, hd, hdc⟩
    rw [Char.toNat_inj] at hdc
    exact hdc ▸ hd
  · intro h
    exact List.mem_map.2 ⟨c, h, rfl⟩

theorem ofWord_prefix_iff {v w : List Char} : ofWord v <+: ofWord w ↔ v <+: w := by
  induction v generalizing w with
  | nil => simp
  | cons c v ih =>
    cases w with
    | nil => simp
    | cons d w => simp [List.cons_prefix_cons, ih, Char.toNat_inj]

/-- The first character is one that `P` holds of. -/
def StartsWith (P : Char → Bool) (p : Text) : Prop := ∃ c t, P c = true ∧ p = c.toNat :: t

theorem startsWith_cons {P : Char → Bool} {c : Char} {t : Text} :
    StartsWith P (c.toNat :: t) ↔ P c = true := by
  constructor
  · intro h
    rcases h with ⟨d, t', hd, h⟩
    rcases List.cons.inj h with ⟨hcd, -⟩
    rwa [Char.toNat_inj.1 hcd]
  · intro h
    exact ⟨c, t, h, rfl⟩

@[simp] theorem not_startsWith_nil {P : Char → Bool} : ¬ StartsWith P [] := by
  intro h
  rcases h with ⟨c, t, -, h⟩
  contradiction

/-- The longest run of characters that `P` holds of is unique. -/
theorem ofWord_append_inj {P : Char → Bool} {v w : List Char} {p q : Text}
    (hv : ∀ c ∈ v, P c = true) (hw : ∀ c ∈ w, P c = true)
    (hp : ¬ StartsWith P p) (hq : ¬ StartsWith P q) (h : ofWord v ++ p = ofWord w ++ q) :
    v = w ∧ p = q := by
  -- both runs go on as long as the other does, since neither is followed by a character of its kind
  induction v generalizing w with
  | nil =>
    cases w with
    | nil => exact ⟨rfl, h⟩
    | cons d w =>
      refine absurd ⟨d, ofWord w ++ q, hw d (by simp), ?_⟩ hp
      simpa using h
  | cons c v ih =>
    cases w with
    | nil =>
      refine absurd ⟨c, ofWord v ++ p, hv c (by simp), ?_⟩ hq
      simpa using h.symm
    | cons d w =>
      rcases List.cons.inj h with ⟨hcd, htail⟩
      rcases ih (fun e he => hv e (by simp [he])) (fun e he => hw e (by simp [he])) htail with
        ⟨rfl, rfl⟩
      exact ⟨by rw [Char.toNat_inj.1 hcd], rfl⟩

end Text

/-- A form of text with a meaning: `R a p q` says that `p` starts with a text of the form that
means `a`, and that `q` follows it. -/
abbrev Form (α : Type) := α → Text → Text → Prop

namespace Form

variable {α β : Type}

/-- Whether some text of the form stands at the front of `p`. -/
def Applies (R : Form α) (p : Text) : Prop := ∃ a q, R a p q

/-- The text `p` starts with the word `w`. -/
def word (w : List Char) : Text → Text → Prop := fun p q => p = Text.ofWord w ++ q

/-- A text of the form `R` after the word `w`. -/
def after (w : List Char) (R : Form α) : Form α := fun a p q => ∃ t, word w p t ∧ R a t q

/-- A text of the form `R`, whose meaning `f` takes further. -/
def map (f : α → β) (R : Form α) : Form β := fun b p q => ∃ a, b = f a ∧ R a p q

/-- A text of the form `R`, whatever it means, which now means `b`. -/
def as (R : Form α) (b : β) : Form β := R.map fun _ => b

theorem word_cons {c : Char} {w : List Char} {p q : Text} :
    word (c :: w) p q ↔ ∃ t, p = c.toNat :: t ∧ word w t q := by
  constructor
  · intro h
    exact ⟨Text.ofWord w ++ q, h, rfl⟩
  · intro h
    rcases h with ⟨t, rfl, rfl⟩
    rfl

theorem length_of_word {w : List Char} {p q : Text} (h : word w p q) :
    p.length = w.length + q.length := by
  rw [h, List.length_append, Text.length_ofWord]

theorem word_append {v w : List Char} {p q : Text} :
    word (v ++ w) p q ↔ ∃ t, word v p t ∧ word w t q := by
  constructor
  · intro h
    refine ⟨Text.ofWord w ++ q, ?_, rfl⟩
    rw [word, h, Text.ofWord_append, List.append_assoc]
  · intro h
    rcases h with ⟨t, rfl, rfl⟩
    rw [word, Text.ofWord_append, List.append_assoc]

/-- A word leaves one text. -/
theorem word_unique {w : List Char} {p q r : Text} (hq : word w p q) (hr : word w p r) : q = r :=
  List.append_cancel_left (hq.symm.trans hr)

/-- What follows a word after a part of it was read. -/
theorem word_rest {v w : List Char} {p q t : Text} (hv : word v p t) (h : word (v ++ w) p q) :
    word w t q := by
  rcases word_append.1 h with ⟨t', hv', hw⟩
  rwa [word_unique hv hv']

theorem not_startsWith_of_word {P : Char → Bool} {c : Char} {w : List Char} {p q : Text}
    (h : word (c :: w) p q) (hc : P c = false) : ¬ p.StartsWith P := by
  rw [show p = c.toNat :: (Text.ofWord w ++ q) from h, Text.startsWith_cons, hc]
  decide

/-- Words that stand in one place start with the same character. -/
theorem word_head_unique {c d : Char} {v w : List Char} {p q r : Text} (h : word (c :: v) p q)
    (h' : word (d :: w) p r) : c = d := by
  have heq := h.symm.trans h'
  exact Char.toNat_inj.1 (List.cons.inj heq).1

/-- Two words that start differently do not stand in one place. -/
theorem not_word_of_word {c d : Char} {v w : List Char} {p q r : Text} (h : word (c :: v) p q)
    (hcd : c ≠ d) : ¬ word (d :: w) p r :=
  fun h' => hcd (word_head_unique h h')

/-- A word does not stand where one starts with a character of a list that its own is not in. -/
theorem not_word_of_mem {c d : Char} {cs v w : List Char} {p q r : Text} (h : word (c :: v) p q)
    (hc : c ∈ cs) (hd : d ∉ cs) : ¬ word (d :: w) p r := by
  apply not_word_of_word h
  intro hcd
  exact hd (hcd ▸ hc)

/-- Of two words that stand in one place one is a beginning of the other. -/
theorem prefix_or_prefix_of_word {v w : List Char} {p q r : Text} (hv : word v p q)
    (hw : word w p r) : v <+: w ∨ w <+: v := by
  have hvp : Text.ofWord v <+: p := ⟨q, hv.symm⟩
  have hwp : Text.ofWord w <+: p := ⟨r, hw.symm⟩
  rw [← Text.ofWord_prefix_iff, ← Text.ofWord_prefix_iff]
  exact List.prefix_or_prefix_of_prefix hvp hwp

theorem after_append {v w : List Char} {R : Form α} {a : α} {p q : Text} :
    after (v ++ w) R a p q ↔ after v (after w R) a p q := by
  constructor
  · intro h
    rcases h with ⟨t, h, hR⟩
    rcases word_append.1 h with ⟨s, hv, hw⟩
    exact ⟨s, hv, t, hw, hR⟩
  · intro h
    rcases h with ⟨s, hv, t, hw, hR⟩
    exact ⟨t, word_append.2 ⟨s, hv, hw⟩, hR⟩

@[simp] theorem applies_map {f : α → β} {R : Form α} {p : Text} :
    (R.map f).Applies p ↔ R.Applies p := by
  constructor
  · intro h
    rcases h with ⟨_, q, a, -, h⟩
    exact ⟨a, q, h⟩
  · intro h
    rcases h with ⟨a, q, h⟩
    exact ⟨_, q, a, rfl, h⟩

theorem map_map {γ : Type} {f : α → β} {g : β → γ} {R : Form α} :
    (R.map f).map g = R.map (g ∘ f) := by
  funext c p q
  refine propext ⟨?_, ?_⟩
  · intro h
    rcases h with ⟨_, rfl, a, rfl, h⟩
    exact ⟨a, rfl, h⟩
  · intro h
    rcases h with ⟨a, rfl, h⟩
    exact ⟨f a, rfl, a, rfl, h⟩

@[simp] theorem map_as {γ : Type} {f : α → β} {R : Form α} {c : γ} : (R.map f).as c = R.as c :=
  map_map

@[simp] theorem as_as {γ : Type} {R : Form α} {b : β} {c : γ} : (R.as b).as c = R.as c :=
  map_map

/-! ## Words of some characters -/

/-- A word of `n` characters that `P` holds of. -/
def exactly (n : Nat) (P : Char → Bool) : Form (List Char) := fun w p q =>
  w.length = n ∧ (∀ c ∈ w, P c = true) ∧ word w p q

/-- A word of at most `n` characters that `P` holds of, and of fewer only where no more follow. -/
def upTo (n : Nat) (P : Char → Bool) : Form (List Char) := fun w p q =>
  w.length ≤ n ∧ (∀ c ∈ w, P c = true) ∧ (w.length = n ∨ ¬ q.StartsWith P) ∧ word w p q

/-- All the characters that `P` holds of at the front of a text, at least one. -/
def run (P : Char → Bool) : Form (List Char) := fun w p q =>
  w ≠ [] ∧ (∀ c ∈ w, P c = true) ∧ ¬ q.StartsWith P ∧ word w p q

theorem applies_upTo (n : Nat) (P : Char → Bool) (p : Text) : (upTo n P).Applies p := by
  induction n generalizing p with
  | zero => exact ⟨[], p, by simp, by simp, Or.inl rfl, rfl⟩
  | succ n ih =>
    by_cases hp : p.StartsWith P
    · rcases hp with ⟨c, t, hc, rfl⟩
      rcases ih t with ⟨w, q, hlen, hall, hmax, rfl⟩
      exact ⟨c :: w, q, by simpa using hlen, by simpa [hc] using hall, by simpa using hmax, rfl⟩
    · exact ⟨[], p, by simp, by simp, Or.inr hp, rfl⟩

theorem startsWith_of_run {P : Char → Bool} {w : List Char} {p q : Text} (h : run P w p q) :
    p.StartsWith P := by
  rcases h with ⟨hne, hall, -, hword⟩
  cases w with
  | nil => exact absurd rfl hne
  | cons c w => exact ⟨c, _, hall c List.mem_cons_self, hword⟩

theorem run_unique {P : Char → Bool} {v w : List Char} {p q r : Text} (hv : run P v p q)
    (hw : run P w p r) : v = w ∧ q = r := by
  rcases hv with ⟨-, hv, hq, hp⟩
  rcases hw with ⟨-, hw, hr, hp'⟩
  exact Text.ofWord_append_inj hv hw hq hr (hp.symm.trans hp')

theorem applies_run {P : Char → Bool} {p : Text} (h : p.StartsWith P) : (run P).Applies p := by
  induction p with
  | nil => exact absurd h Text.not_startsWith_nil
  | cons n t ih =>
    rcases h with ⟨c, t', hc, heq⟩
    rcases List.cons.inj heq with ⟨rfl, rfl⟩
    by_cases ht : Text.StartsWith P t
    · rcases ih ht with ⟨w, q, -, hw, hq, hword⟩
      exact ⟨c :: w, q, by simp, by simpa [hc] using hw, hq, word_cons.2 ⟨t, rfl, hword⟩⟩
    · exact ⟨[c], t, by simp, by simpa using hc, ht, rfl⟩

/-! ## Choices -/

/-- The first of `forms` that applies. -/
inductive First : List (Form α) → Form α
  | here {R : Form α} {forms : List (Form α)} {a : α} {p q : Text} :
      R a p q → First (R :: forms) a p q
  | later {R : Form α} {forms : List (Form α)} {a : α} {p q : Text} :
      ¬ R.Applies p → First forms a p q → First (R :: forms) a p q

theorem first_cons {R : Form α} {forms : List (Form α)} {a : α} {p q : Text} :
    First (R :: forms) a p q ↔ R a p q ∨ ¬ R.Applies p ∧ First forms a p q := by
  constructor
  · intro h
    cases h with
    | here h => exact Or.inl h
    | later hR h => exact Or.inr ⟨hR, h⟩
  · intro h
    rcases h with h | ⟨hR, h⟩
    · exact .here h
    · exact .later hR h

@[simp] theorem not_first_nil {a : α} {p q : Text} : ¬ First [] a p q := nofun

@[simp] theorem first_singleton {R : Form α} : First [R] = R := by
  funext a p q
  simp [first_cons]

theorem First.exists_mem {forms : List (Form α)} {a : α} {p q : Text} (h : First forms a p q) :
    ∃ R ∈ forms, R a p q := by
  induction h with
  | here h => exact ⟨_, by simp, h⟩
  | later _ _ ih =>
    rcases ih with ⟨R, hR, h⟩
    exact ⟨R, by simp [hR], h⟩

theorem first_cons_congr {R : Form α} {forms others : List (Form α)}
    (h : First forms = First others) : First (R :: forms) = First (R :: others) := by
  funext a p q
  rw [first_cons, first_cons, h]

@[simp] theorem applies_first {forms : List (Form α)} {p : Text} :
    (First forms).Applies p ↔ ∃ R ∈ forms, R.Applies p := by
  constructor
  · intro h
    rcases h with ⟨a, q, h⟩
    rcases h.exists_mem with ⟨R, hR, h⟩
    exact ⟨R, hR, a, q, h⟩
  · intro h
    rcases h with ⟨R, hR, h⟩
    induction forms with
    | nil => simp at hR
    | cons S forms ih =>
      by_cases hS : S.Applies p
      · rcases hS with ⟨a, q, hS⟩
        exact ⟨a, q, .here hS⟩
      · rcases List.mem_cons.1 hR with rfl | hR
        · exact absurd h hS
        · rcases ih hR with ⟨a, q, hfirst⟩
          exact ⟨a, q, .later hS hfirst⟩

theorem map_first {f : α → β} {forms : List (Form α)} :
    (First forms).map f = First (forms.map (Form.map f)) := by
  funext b p q
  apply propext
  induction forms with
  | nil => simp [Form.map]
  | cons R forms ih =>
    rw [List.map_cons, first_cons, ← ih, applies_map]
    constructor
    · intro h
      rcases h with ⟨a, rfl, h⟩
      rcases first_cons.1 h with h | ⟨hR, h⟩
      · exact Or.inl ⟨a, rfl, h⟩
      · exact Or.inr ⟨hR, a, rfl, h⟩
    · intro h
      rcases h with ⟨a, rfl, h⟩ | ⟨hR, a, rfl, h⟩
      · exact ⟨a, rfl, .here h⟩
      · exact ⟨a, rfl, .later hR h⟩

/-- A choice in front of a choice is one choice. -/
theorem first_first {forms others : List (Form α)} :
    First (First forms :: others) = First (forms ++ others) := by
  funext a p q
  apply propext
  induction forms with
  | nil => simp [first_cons]
  | cons R forms ih =>
    rw [List.cons_append, first_cons, first_cons, first_cons (R := R), ← ih,
      first_cons, applies_first, applies_first]
    simp only [List.mem_cons, exists_eq_or_imp, not_or]
    rw [or_assoc, and_assoc, ← and_or_left]

theorem first_pair {forms others : List (Form α)} :
    First [First forms, First others] = First (forms ++ others) :=
  (first_cons_congr first_singleton).trans first_first

/-- A form that applies only where an earlier one does is never chosen. -/
theorem first_shadowed (before : List (Form α)) {after : List (Form α)} {R : Form α}
    (h : ∀ p, R.Applies p → ∃ S ∈ before, S.Applies p) :
    First (before ++ R :: after) = First (before ++ after) := by
  funext a p q
  apply propext
  rw [← first_first, ← first_first, first_cons, first_cons, first_cons, applies_first]
  -- where none of the earlier forms applies, neither does this one
  refine or_congr_right (and_congr_right fun hnone => ?_)
  have hR : ¬ R.Applies p := fun hR => hnone (h p hR)
  constructor
  · intro h
    rcases h with h | ⟨-, h⟩
    · exact absurd ⟨a, q, h⟩ hR
    · exact h
  · exact fun h => Or.inr ⟨hR, h⟩

/-- A choice of the mode: Unicode mode takes any of `forms`, legacy mode the first that applies. -/
def Choice (mode : Mode) (forms : List (Form α)) : Form α := fun a p q =>
  match mode with
  | .unicode => ∃ R ∈ forms, R a p q
  | .legacy => First forms a p q

theorem Choice.exists_mem {mode : Mode} {forms : List (Form α)} {a : α} {p q : Text}
    (h : Choice mode forms a p q) : ∃ R ∈ forms, R a p q := by
  cases mode with
  | unicode => exact h
  | legacy => exact First.exists_mem h

/-! ## First characters -/

/-- Each text of the form starts with one of the characters `cs`. -/
def Opens (R : Form α) (cs : List Char) : Prop :=
  ∀ a p q, R a p q → ∃ c ∈ cs, ∃ t, p = c.toNat :: t

theorem Opens.not_applies {R : Form α} {cs : List Char} (h : R.Opens cs) {c : Char} {t : Text}
    (hc : c ∉ cs) : ¬ R.Applies (c.toNat :: t) := by
  intro h
  rcases h with ⟨a, q, hR⟩
  rcases h _ _ _ hR with ⟨d, hd, t', heq⟩
  have hcd : c = d := Char.toNat_inj.1 (List.cons.inj heq).1
  exact hc (hcd ▸ hd)

theorem Opens.mem {R : Form α} {cs : List Char} (h : R.Opens cs) {c : Char} {t : Text}
    (hR : R.Applies (c.toNat :: t)) : c ∈ cs :=
  Decidable.byContradiction fun hc => h.not_applies hc hR

theorem Opens.subset {R : Form α} {cs ds : List Char} (h : R.Opens cs) (hsub : cs ⊆ ds) :
    R.Opens ds := by
  intro a p q hR
  rcases h a p q hR with ⟨c, hc, t, rfl⟩
  exact ⟨c, hsub hc, t, rfl⟩

/-- Forms that start with different characters do not stand in one place. -/
theorem Opens.disjoint {R : Form α} {S : Form β} {cs ds : List Char} (hR : R.Opens cs)
    (hS : S.Opens ds) (hdisj : ∀ c ∈ cs, c ∉ ds) {a : α} {p q : Text} (h : R a p q) :
    ¬ S.Applies p := by
  rcases hR a p q h with ⟨c, hc, t, rfl⟩
  exact hS.not_applies (hdisj c hc)

theorem opens_word {c : Char} {w : List Char} : Opens (fun (_ : α) => word (c :: w)) [c] := by
  intro _ p q h
  exact ⟨c, by simp, _, h⟩

theorem opens_after {c : Char} {w : List Char} {R : Form α} : (after (c :: w) R).Opens [c] := by
  intro a p q h
  rcases h with ⟨t, h, -⟩
  exact ⟨c, by simp, _, h⟩

theorem Opens.map {R : Form α} {cs : List Char} (h : R.Opens cs) (f : α → β) :
    (R.map f).Opens cs := by
  intro _ p q h
  rcases h with ⟨a, rfl, hR⟩
  exact h a p q hR

theorem Opens.or {R S : Form α} {cs ds : List Char} (hR : R.Opens cs) (hS : S.Opens ds) :
    Opens (fun a p q => R a p q ∨ S a p q) (cs ++ ds) := by
  intro a p q h
  rcases h with h | h
  · rcases hR a p q h with ⟨c, hc, t, rfl⟩
    exact ⟨c, List.mem_append_left _ hc, t, rfl⟩
  · rcases hS a p q h with ⟨c, hc, t, rfl⟩
    exact ⟨c, List.mem_append_right _ hc, t, rfl⟩

/-- No text of the form starts with the character `c`. -/
def Avoids (R : Form α) (c : Char) : Prop := ∀ p, (∃ t, word [c] p t) → ¬ R.Applies p

theorem opens_first_nil : (First ([] : List (Form α))).Opens [] :=
  fun _ _ _ h => (not_first_nil h).elim

theorem Opens.avoids {R : Form α} {cs : List Char} {c : Char} (h : R.Opens cs) (hc : c ∉ cs) :
    R.Avoids c := by
  intro p h
  rcases h with ⟨t, rfl⟩
  exact h.not_applies hc

theorem Avoids.or {R S : Form α} {c : Char} (hR : R.Avoids c) (hS : S.Avoids c) :
    Avoids (fun a p q => R a p q ∨ S a p q) c := by
  intro p hp h
  rcases h with ⟨a, q, h | h⟩
  · exact hR p hp ⟨a, q, h⟩
  · exact hS p hp ⟨a, q, h⟩

/-- Forms that start with different characters, all of which are in the list. -/
inductive Apart : List (Form α) → List Char → Prop
  | nil : Apart [] []
  | cons {R : Form α} {forms : List (Form α)} {cs ds : List Char} :
      R.Opens cs → (∀ c ∈ cs, c ∉ ds) → Apart forms ds → Apart (R :: forms) (cs ++ ds)

theorem Apart.opens {forms : List (Form α)} {cs : List Char} (h : Apart forms cs) {R : Form α}
    (hR : R ∈ forms) : R.Opens cs := by
  induction h with
  | nil => simp at hR
  | @cons S forms cs ds hS _ _ ih =>
    intro a p q hRp
    rcases List.mem_cons.1 hR with rfl | hR
    · rcases hS a p q hRp with ⟨c, hc, t, rfl⟩
      exact ⟨c, List.mem_append_left _ hc, t, rfl⟩
    · rcases ih hR a p q hRp with ⟨c, hc, t, rfl⟩
      exact ⟨c, List.mem_append_right _ hc, t, rfl⟩

/-- Of forms that start with different characters at most one has texts with a given first
character. -/
theorem Apart.eq_of_applies {forms : List (Form α)} {cs : List Char} (h : Apart forms cs)
    {R S : Form α} (hR : R ∈ forms) (hS : S ∈ forms) {c : Char} {t t' : Text}
    (hRt : R.Applies (c.toNat :: t)) (hSt : S.Applies (c.toNat :: t')) : R = S := by
  induction h with
  | nil => contradiction
  | cons hopens hdisj hforms ih =>
    rcases List.mem_cons.1 hR with rfl | hR'
    · rcases List.mem_cons.1 hS with rfl | hS'
      · rfl
      · exact absurd hSt ((hforms.opens hS').not_applies (hdisj c (hopens.mem hRt)))
    · rcases List.mem_cons.1 hS with rfl | hS'
      · exact absurd hRt ((hforms.opens hR').not_applies (hdisj c (hopens.mem hSt)))
      · exact ih hR' hS'

theorem Apart.opens_first {forms : List (Form α)} {cs : List Char} (h : Apart forms cs) :
    (First forms).Opens cs := by
  intro a p q hfirst
  rcases hfirst.exists_mem with ⟨R, hR, hRp⟩
  exact h.opens hR a p q hRp

/-- Of forms that start with different characters any that applies is the first. -/
theorem Apart.first_iff {forms : List (Form α)} {cs : List Char} (h : Apart forms cs) {a : α}
    {p q : Text} : First forms a p q ↔ ∃ R ∈ forms, R a p q := by
  refine ⟨First.exists_mem, ?_⟩
  intro h
  rcases h with ⟨S, hS, hSp⟩
  -- each form before the one that applies starts with characters that the text does not start with
  induction h with
  | nil => simp at hS
  | cons hR hdisj hforms ih =>
    rcases List.mem_cons.1 hS with rfl | hS
    · exact .here hSp
    · have hne : ∀ d ∈ _, d ∉ _ := fun d hd hc => hdisj d hc hd
      exact .later ((hforms.opens hS).disjoint hR hne hSp) (ih hS)

theorem choice_eq_first {mode : Mode} {forms : List (Form α)} {cs : List Char}
    (h : mode = .unicode → Apart forms cs) : Choice mode forms = First forms := by
  funext a p q
  cases mode with
  | legacy => rfl
  | unicode => exact propext (h rfl).first_iff.symm

/-! ## Repetition -/

/-- Texts of the form one after the other. -/
inductive Repeats (R : Form α) : Form (List α)
  | nil {p : Text} : Repeats R [] p p
  | cons {a : α} {as : List α} {p t q : Text} :
      R a p t → Repeats R as t q → Repeats R (a :: as) p q

/-! ## Lengths -/

/-- Each text of the form has at least one character. -/
def Shrinks (R : Form α) : Prop := ∀ a p q, R a p q → q.length < p.length

theorem length_lt_of_word {c : Char} {w : List Char} {p q : Text} (h : word (c :: w) p q) :
    q.length < p.length := by
  rw [length_of_word h, List.length_cons]
  omega

theorem Shrinks.map {R : Form α} (h : R.Shrinks) (f : α → β) : (R.map f).Shrinks := by
  intro _ p q h
  rcases h with ⟨a, rfl, hR⟩
  exact h a p q hR

theorem Shrinks.after {R : Form α} (h : R.Shrinks) (w : List Char) : (after w R).Shrinks := by
  intro a p q h
  rcases h with ⟨t, hw, hR⟩
  have := length_of_word hw
  have := h a t q hR
  omega

theorem Shrinks.repeats {R : Form α} (h : R.Shrinks) {as : List α} {p q : Text}
    (hrep : Repeats R as p q) : q.length ≤ p.length := by
  induction hrep with
  | nil => exact Nat.le_refl _
  | cons hR _ ih => exact Nat.le_trans ih (Nat.le_of_lt (h _ _ _ hR))

theorem shrinks_choice {mode : Mode} {forms : List (Form α)} (h : ∀ R ∈ forms, R.Shrinks) :
    (Choice mode forms).Shrinks := by
  intro a p q hchoice
  rcases hchoice.exists_mem with ⟨R, hR, hRp⟩
  exact h R hR a p q hRp

end Form

end EcmaPattern
