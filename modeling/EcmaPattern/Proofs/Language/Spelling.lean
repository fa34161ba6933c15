import EcmaPattern.Proofs.Language.CharacterClass
import EcmaPattern.Proofs.Language.Quantifier

namespace EcmaPattern

/-! # Spelling

Most forms of text are spelled with words that hold none of the characters that structure a pattern.
So they can be passed over without a look at the grammar, and they are the same whatever structure
follows them.
-/

namespace Form

variable {α β : Type} {p q t r r' : Text} {v w : List Char}

/-! ## Plain words -/

/-- The characters that open, close or separate what a pattern is made of. -/
def stops : List Char := ['[', ']', '(', ')', '|']

/-- The characters that structure a pattern. -/
def delimiters : List Char := '\\' :: stops

/-- A word without delimiters, except that a backslash may stand before a `u`. -/
inductive Plain : List Char → Prop
  | nil : Plain []
  | cons {c : Char} {w : List Char} : c ∉ delimiters → Plain w → Plain (c :: w)
  | escape {w : List Char} : Plain w → Plain ('\\' :: 'u' :: w)

theorem Plain.append (hv : Plain v) (hw : Plain w) : Plain (v ++ w) := by
  induction hv with
  | nil => exact hw
  | cons hc _ ih => exact .cons hc ih
  | escape _ ih => exact .escape ih

theorem plain_of_forall (hw : ∀ c ∈ w, c ∉ delimiters) : Plain w := by
  induction w with
  | nil => exact .nil
  | cons c w ih =>
    rw [List.forall_mem_cons] at hw
    exact .cons hw.1 (ih hw.2)

/-- A word of a kind that no delimiter is of. -/
theorem plain_of_all {P : Char → Bool} (hP : ∀ c ∈ delimiters, P c = false)
    (hw : ∀ c ∈ w, P c = true) : Plain w := by
  refine plain_of_forall fun c hc hmem => ?_
  have hfalse := hP c hmem
  rw [hw c hc] at hfalse
  contradiction

theorem Plain.tail {c : Char} (h : Plain (c :: w)) : Plain w := by
  cases h with
  | cons _ h => exact h
  | escape h => exact .cons (by decide) h

theorem Plain.not_mem_stops (h : Plain w) : ∀ c ∈ w, c ∉ stops := by
  induction h with
  | nil => simp
  | cons hc _ ih =>
    rw [List.forall_mem_cons]
    exact ⟨fun h => hc (List.mem_cons_of_mem _ h), ih⟩
  | escape _ ih =>
    rw [List.forall_mem_cons, List.forall_mem_cons]
    exact ⟨by decide, by decide, ih⟩

/-! ## Texts to pass over -/

/-- What stands in `p` before `q` is a plain word. -/
def Passes (p q : Text) : Prop := ∃ w, Plain w ∧ word w p q

/-- What stands in `p` before `q` is a character of any kind and a plain word. -/
def PassesEscape (p q : Text) : Prop := ∃ n t, p = n :: t ∧ Passes t q

theorem Passes.refl (p : Text) : Passes p p := ⟨[], .nil, rfl⟩

theorem Passes.trans (h : Passes p t) (h' : Passes t q) : Passes p q := by
  rcases h with ⟨v, hv, hp⟩
  rcases h' with ⟨w, hw, ht⟩
  exact ⟨v ++ w, hv.append hw, word_append.2 ⟨t, hp, ht⟩⟩

theorem passes_word (hw : ∀ c ∈ w, c ∉ delimiters) (h : word w p q) : Passes p q :=
  ⟨w, plain_of_forall hw, h⟩

/-- What stands in `p` before `q` holds no bracket that closes a class, except after a backslash.
-/
inductive PassesClass : Text → Text → Prop
  | refl {p : Text} : PassesClass p p
  | cons {n : Nat} {p q : Text} :
      n ∉ Text.ofWord [']', '\\'] → PassesClass p q → PassesClass (n :: p) q
  | escape {n : Nat} {p q : Text} : PassesClass p q → PassesClass ('\\'.toNat :: n :: p) q
  /-- A backslash that stands for itself takes nothing from the `c` after it. -/
  | backslash {p q : Text} :
      PassesClass ('c'.toNat :: p) q → PassesClass ('\\'.toNat :: 'c'.toNat :: p) q

theorem PassesClass.trans (h : PassesClass p t) (h' : PassesClass t q) : PassesClass p q := by
  induction h with
  | refl => exact h'
  | cons hn _ ih => exact .cons hn (ih h')
  | escape _ ih => exact .escape (ih h')
  | backslash _ ih => exact .backslash (ih h')

theorem Plain.passesClass (hw : Plain w) (h : word w p q) : PassesClass p q := by
  induction hw generalizing p with
  | nil =>
    obtain rfl : p = q := h
    exact .refl
  | cons hc _ ih =>
    rcases word_cons.1 h with ⟨t, rfl, ht⟩
    have hsub : ∀ c ∈ [']', '\\'], c ∈ delimiters := by decide
    exact .cons (fun hmem => hc (hsub _ (Text.mem_ofWord.1 hmem))) (ih ht)
  | escape _ ih =>
    rcases word_cons.1 h with ⟨s, rfl, hs⟩
    rcases word_cons.1 hs with ⟨t, rfl, ht⟩
    exact .escape (ih ht)

/-! ## Texts before another tail -/

/-- A text without a plain word at its front. -/
def Stops (p : Text) : Prop := p = [] ∨ ∃ c ∈ stops, ∃ t, word [c] p t

/-- A text of the form `R` before the tail `r` is a plain word that has the form before `r'` too. -/
def Retails (r r' : Text) (R : Form α) : Prop :=
  ∀ a p q, R a p (q ++ r) →
    ∃ w, Plain w ∧ word w p (q ++ r) ∧ R a (Text.ofWord w ++ (q ++ r')) (q ++ r')

/-- A text of the form `R` before the tail `r` is a character of any kind and a plain word that have
the form before `r'` too. -/
def RetailsEscape (r r' : Text) (R : Form α) : Prop :=
  ∀ a p q, R a p (q ++ r) → ∃ n w, Plain w ∧ p = n :: (Text.ofWord w ++ (q ++ r)) ∧
    R a (n :: (Text.ofWord w ++ (q ++ r'))) (q ++ r')

/-- The texts of the form are plain words, whatever follows. -/
def Spelled (R : Form α) : Prop := ∀ r r', R.Retails r r'

variable {R : Form α}

theorem Retails.passes (h : R.Retails [] []) {a : α} (hR : R a p q) : Passes p q := by
  rw [← List.append_nil q] at hR
  rcases h a p q hR with ⟨w, hw, hp, -⟩
  rw [List.append_nil] at hp
  exact ⟨w, hw, hp⟩

theorem RetailsEscape.passesEscape (h : R.RetailsEscape [] []) {a : α} (hR : R a p q) :
    PassesEscape p q := by
  rw [← List.append_nil q] at hR
  rcases h a p q hR with ⟨n, w, hw, hp, -⟩
  rw [List.append_nil] at hp
  exact ⟨n, _, hp, w, hw, rfl⟩

theorem Spelled.passes (h : R.Spelled) {a : α} (hR : R a p q) : Passes p q := (h [] []).passes hR

theorem Retails.escape (h : R.Retails r r') (hR : R.Shrinks) : R.RetailsEscape r r' := by
  intro a p q hRp
  rcases h a p q hRp with ⟨w, hw, hp, h'⟩
  cases w with
  | nil =>
    obtain rfl : p = q ++ r := hp
    exact absurd (hR a _ _ hRp) (Nat.lt_irrefl _)
  | cons c w => exact ⟨_, w, hw.tail, hp, h'⟩

theorem Retails.map (h : R.Retails r r') (f : α → β) : (R.map f).Retails r r' := by
  intro b p q hb
  rcases hb with ⟨a, rfl, hR⟩
  rcases h a p q hR with ⟨w, hw, hp, h'⟩
  exact ⟨w, hw, hp, a, rfl, h'⟩

theorem RetailsEscape.map (h : R.RetailsEscape r r') (f : α → β) :
    (R.map f).RetailsEscape r r' := by
  intro b p q hb
  rcases hb with ⟨a, rfl, hR⟩
  rcases h a p q hR with ⟨n, w, hw, hp, h'⟩
  exact ⟨n, w, hw, hp, a, rfl, h'⟩

theorem Retails.after (h : R.Retails r r') (hv : Plain v) : (after v R).Retails r r' := by
  intro a p q hR
  rcases hR with ⟨t, hvp, hR⟩
  rcases h a t q hR with ⟨w, hw, ht, h'⟩
  refine ⟨v ++ w, hv.append hw, word_append.2 ⟨t, hvp, ht⟩, _, ?_, h'⟩
  rw [word, Text.ofWord_append, List.append_assoc]

/-- After any character the form is one of an escape. -/
theorem Retails.after_singleton (h : R.Retails r r') (c : Char) :
    (Form.after [c] R).RetailsEscape r r' := by
  intro a p q hR
  rcases hR with ⟨t, hc, hR⟩
  rcases h a t q hR with ⟨w, hw, ht, h'⟩
  obtain rfl : t = _ := ht
  exact ⟨_, w, hw, hc, _, rfl, h'⟩

/-- A text of the form in front of a plain word makes a longer one with it. -/
theorem Retails.before (h : R.Retails r r') {a : α} (hw : Plain w) (ht : word w t (q ++ r))
    (hR : R a p t) : ∃ v, Plain (v ++ w) ∧ word (v ++ w) p (q ++ r) ∧
      R a (Text.ofWord (v ++ w) ++ (q ++ r')) (Text.ofWord w ++ (q ++ r')) := by
  rw [word, ← List.append_assoc] at ht
  subst ht
  rcases h a p _ hR with ⟨v, hv, hp, h'⟩
  rw [List.append_assoc] at hp h'
  refine ⟨v, hv.append hw, word_append.2 ⟨_, hp, rfl⟩, ?_⟩
  rwa [Text.ofWord_append, List.append_assoc]

theorem Retails.repeats (h : R.Retails r r') : (Repeats R).Retails r r' := by
  intro as p q hR
  generalize heq : q ++ r = s at hR
  induction hR with
  | nil =>
    subst heq
    exact ⟨[], .nil, rfl, .nil⟩
  | cons hR _ ih =>
    subst heq
    rcases ih rfl with ⟨w, hw, ht, h'⟩
    rcases h.before hw ht hR with ⟨v, hvw, hp, h''⟩
    exact ⟨v ++ w, hvw, hp, .cons h'' h'⟩

/-- No plain word goes on where the text stops. -/
theorem exists_of_word_append (hw : ∀ c ∈ w, c ∉ stops) (hr : Stops r) (h : word w (p ++ r) q) :
    ∃ t, q = t ++ r ∧ word w p t := by
  induction w generalizing p with
  | nil => exact ⟨p, h.symm, rfl⟩
  | cons c w ih =>
    rw [List.forall_mem_cons] at hw
    cases p with
    | nil =>
      rcases hr with rfl | ⟨d, hd, t, hr⟩
      · contradiction
      · exact absurd h (not_word_of_mem hr hd hw.1)
    | cons n p =>
      rcases List.cons.inj h with ⟨rfl, htail⟩
      rcases ih hw.2 htail with ⟨t, rfl, ht⟩
      exact ⟨t, rfl, word_cons.2 ⟨p, rfl, ht⟩⟩

/-- Where the text stops after `p`, a form that applies to it applies to `p` before any tail. -/
theorem Spelled.applies (h : R.Spelled) (hr : Stops r') (hR : R.Applies (p ++ r')) :
    R.Applies (p ++ r) := by
  rcases hR with ⟨a, q, hR⟩
  rcases h.passes hR with ⟨v, hv, hq⟩
  rcases exists_of_word_append hv.not_mem_stops hr hq with ⟨t, rfl, -⟩
  rcases h r' r a _ t hR with ⟨w, -, hp, h'⟩
  obtain rfl : p = Text.ofWord w ++ t := by
    rw [word, ← List.append_assoc] at hp
    exact List.append_cancel_right hp
  rw [← List.append_assoc] at h'
  exact ⟨a, _, h'⟩

/-! ## Choices before another tail -/

/-- What has the form `R` before the tail `r` has it before `r'`, and what does not have it, not. -/
structure Stable (r r' : Text) (R : Form α) : Prop where
  retails : R.RetailsEscape r r'
  applies : ∀ n p, R.Applies (n :: (p ++ r')) → R.Applies (n :: (p ++ r))

theorem Spelled.stable (h : R.Spelled) (hR : R.Shrinks) (hr : Stops r') : R.Stable r r' where
  retails := (h r r').escape hR
  applies n p := h.applies (p := n :: p) hr

theorem Stable.map (h : R.Stable r r') (f : α → β) : (R.map f).Stable r r' where
  retails := h.retails.map f
  applies n p := by simpa using h.applies n p

theorem stable_nil : (First ([] : List (Form α))).Stable r r' where
  retails _ _ _ h := (not_first_nil h).elim
  applies _ _ := fun ⟨_, _, h⟩ => (not_first_nil h).elim

/-- A choice of stable forms is stable, since none that did not apply before applies now. -/
theorem Stable.cons {forms : List (Form α)} (h : R.Stable r r')
    (hforms : (First forms).Stable r r') : (First (R :: forms)).Stable r r' where
  retails := by
    intro a p q hfirst
    rcases first_cons.1 hfirst with hR | ⟨hnone, hlater⟩
    · rcases h.retails a p q hR with ⟨n, w, hw, hp, h'⟩
      exact ⟨n, w, hw, hp, .here h'⟩
    · rcases hforms.retails a p q hlater with ⟨n, w, hw, rfl, h'⟩
      refine ⟨n, w, hw, rfl, .later (fun happlies => hnone ?_) h'⟩
      rw [← List.append_assoc] at happlies ⊢
      exact h.applies n _ happlies
  applies n p := by
    intro happlies
    simp only [applies_first, List.mem_cons, exists_eq_or_imp] at happlies ⊢
    rcases happlies with hR | hlater
    · exact Or.inl (h.applies n p hR)
    · exact Or.inr (applies_first.1 (hforms.applies n p (applies_first.2 hlater)))

/-- A text that stops starts with no character of a kind that no delimiter is of. -/
theorem not_startsWith_append {P : Char → Bool} (hP : ∀ c ∈ stops, P c = false) (hr : Stops r')
    (h : ¬ (q ++ r).StartsWith P) : ¬ (q ++ r').StartsWith P := by
  cases q with
  | nil =>
    rcases hr with rfl | ⟨c, hc, t, hr⟩
    · exact Text.not_startsWith_nil
    · exact not_startsWith_of_word hr (hP c hc)
  | cons n q =>
    rintro ⟨c, t, hc, heq⟩
    obtain ⟨rfl, -⟩ := List.cons.inj heq
    exact h ⟨c, _, hc, rfl⟩

end Form

namespace Language

open Form

variable {mode : Mode} {p q t r r' : Text}

/-! ## Escapes -/

theorem spelled_control : control.Spelled := by
  intro r r' n p q h
  rcases h with ⟨c, hc, h⟩
  have hplain : ∀ c ∈ controls.map Prod.fst, c ∉ delimiters := by decide
  have hc' : c ∉ delimiters := hplain c (List.mem_map.2 ⟨(c, n), hc, rfl⟩)
  exact ⟨[c], .cons hc' .nil, h, c, hc, rfl⟩

theorem spelled_controlLetter : controlLetter.Spelled := by
  intro r r' n p q h
  rcases h with ⟨letter, hletter, hn, h⟩
  have hplain : Plain [letter] := plain_of_all (P := Char.isAlpha) (by decide) (by simpa)
  exact ⟨['c', letter], .cons (by decide) hplain, h, letter, hletter, hn, rfl⟩

theorem spelled_classControl : classControl.Spelled := by
  intro r r' n p q h
  rcases h with ⟨c, hc, hn, h⟩
  have hplain : Plain [c] :=
    plain_of_all (P := fun c => c.isDigit || c == '_') (by decide) (by simpa using hc)
  exact ⟨['c', c], .cons (by decide) hplain, h, c, hc, hn, rfl⟩

theorem spelled_hexDigits (k : Nat) : (hexDigits k).Spelled := by
  intro r r' n p q h
  rcases h with ⟨w, hn, hlen, hw, h⟩
  exact ⟨w, plain_of_all (by decide) hw, h, w, hn, hlen, hw, rfl⟩

theorem spelled_hex : hex.Spelled := fun r r' =>
  (spelled_hexDigits 2 r r').after (.cons (by decide) .nil)

theorem spelled_unit : (after ['u'] (hexDigits 4)).Spelled := fun r r' =>
  (spelled_hexDigits 4 r r').after (.cons (by decide) .nil)

theorem spelled_trail : trail.Spelled := by
  intro r r' n p q h
  rcases h with ⟨h, htrail⟩
  rcases (spelled_hexDigits 4 r r').after (.escape .nil) n p q h with ⟨w, hw, hp, h'⟩
  exact ⟨w, hw, hp, h', htrail⟩

theorem spelled_setLetter : setLetter.Spelled := by
  intro r r' c p q h
  rcases h with ⟨hc, h⟩
  have hplain : ∀ c ∈ ['d', 'D', 's', 'S', 'w', 'W'], c ∉ delimiters := by decide
  exact ⟨[c], .cons (hplain c hc) .nil, h, hc, rfl⟩

theorem plain_propertyExpression {e : List Char} (he : PropertyExpression e) : Plain e := by
  cases he with
  | valued _ hname _ hvalue _ =>
    exact ((plain_of_all (by decide) hname).append (.cons (by decide) .nil)).append
      (plain_of_all (by decide) hvalue)
  | lone _ hname _ _ => exact plain_of_all (by decide) hname

theorem spelled_property : property.Spelled := by
  intro r r' c p q h
  rcases h with ⟨hc, e, he, h⟩
  have hplain : ∀ c ∈ ['p', 'P'], c ∉ delimiters := by decide
  have hopen : Plain [c, '{'] := .cons (hplain c hc) (.cons (by decide) .nil)
  exact ⟨[c, '{'] ++ e ++ ['}'],
    (hopen.append (plain_propertyExpression he)).append (.cons (by decide) .nil), h, hc, e, he, rfl⟩

/-- The escapes that start with `u` look ahead for a trail surrogate in Unicode mode only. -/
theorem retails_unicodeEscape (hr : mode = .unicode → Stops r') :
    (UnicodeEscape mode).Retails r r' := by
  intro n p q h
  generalize heq : q ++ r = s at h
  cases h with
  | unit h hlone =>
    subst heq
    rcases spelled_unit r r' n p q h with ⟨w, hw, hp, h'⟩
    exact ⟨w, hw, hp, .unit h' fun hmode hlead htrail =>
      hlone hmode hlead (spelled_trail.applies (hr hmode) htrail)⟩
  | pair hmode h hlead hlow =>
    subst heq
    rcases spelled_trail r r' _ _ q hlow with ⟨w, hw, ht, hlow'⟩
    rcases (spelled_unit r r').before hw ht h with ⟨v, hvw, hp, h'⟩
    exact ⟨v ++ w, hvw, hp, .pair hmode h' hlead hlow'⟩
  | braced hmode hcount hw h hle =>
    subst heq
    exact ⟨_, ((plain_of_forall (by decide)).append (plain_of_all (by decide) hw)).append
      (.cons (by decide) .nil), h, .braced hmode hcount hw rfl hle⟩

/-- In legacy mode none of them looks ahead. -/
theorem spelled_unicodeEscape : (UnicodeEscape .legacy).Spelled :=
  fun _ _ => retails_unicodeEscape nofun

theorem retailsEscape_identity : (identity mode).RetailsEscape r r' := by
  intro n p q h
  rcases h with ⟨rfl, hn⟩
  exact ⟨n, [], .nil, rfl, rfl, hn⟩

/-! ## Names -/

theorem retails_nameCharacter {P : Nat → Bool} (hP : ∀ c ∈ delimiters, P c.toNat = false)
    (hr : mode = .unicode → Stops r') : (NameCharacter mode P).Retails r r' := by
  intro c p q h
  generalize heq : q ++ r = s at h
  cases h with
  | literal hback hc h =>
    subst heq
    have hplain : c ∉ delimiters := by
      intro hmem
      rw [hP c hmem] at hc
      contradiction
    exact ⟨[c], .cons hplain .nil, h, .literal hback hc rfl⟩
  | escaped hc h =>
    subst heq
    rcases h with ⟨t, hback, h⟩
    rcases (retails_unicodeEscape hr).escape shrinks_unicodeEscape _ _ _ h with ⟨n, w, hw, rfl, h'⟩
    -- the escape starts with a `u`, so with the backslash it is a plain word
    obtain rfl : n = 'u'.toNat := by
      rcases opens_unicodeEscape _ _ _ h with ⟨d, hd, t, heq⟩
      rw [List.mem_singleton.1 hd] at heq
      exact (List.cons.inj heq).1
    exact ⟨'\\' :: 'u' :: w, .escape hw, hback, .escaped hc ⟨_, rfl, h'⟩⟩

theorem retails_groupName (hr : mode = .unicode → Stops r') : (GroupName mode).Retails r r' := by
  intro name p q h
  generalize heq : q ++ r = s at h
  cases h with
  | mk hopen hc hcs hclose =>
    subst heq
    -- from the closing bracket back to the opening one
    have hplain : Plain ['>'] := .cons (by decide) .nil
    rcases (retails_nameCharacter (by decide) hr).repeats.before hplain hclose hcs with
      ⟨w, hw, ht, hcs'⟩
    rcases (retails_nameCharacter (by decide) hr).before hw ht hc with ⟨v, hvw, hp, hc'⟩
    exact ⟨'<' :: (v ++ (w ++ ['>'])), .cons (by decide) hvw, word_cons.2 ⟨_, hopen, hp⟩,
      .mk rfl hc' hcs' rfl⟩

/-! ## Escapes outside classes -/

theorem applies_decimal (h : p.StartsWith Char.isDigit) : Decimal.Applies p := by
  rcases applies_run h with ⟨digits, q, hrun⟩
  by_cases hzero : digits.head? = some '0'
  · rcases List.head?_eq_some_iff.1 hzero with ⟨w, rfl⟩
    rcases word_cons.1 hrun.2.2.2 with ⟨t, ht, -⟩
    exact ⟨{}, t, .zero ht⟩
  · exact ⟨_, q, .number hrun hzero⟩

theorem stable_decimal (hr : Stops r') : Decimal.Stable r r' where
  retails := by
    intro e p q h
    generalize heq : q ++ r = s at h
    cases h with
    | zero h =>
      subst heq
      exact ⟨_, [], .nil, h, .zero rfl⟩
    | @number digits _ _ h hzero =>
      subst heq
      rcases h with ⟨hne, hdigits, hstop, h⟩
      have hstop' := not_startsWith_append (by decide) hr hstop
      cases digits with
      | nil => exact absurd rfl hne
      | cons d digits =>
        have hplain := plain_of_all (by decide) (List.forall_mem_cons.1 hdigits).2
        exact ⟨_, digits, hplain, h, .number ⟨hne, hdigits, hstop', rfl⟩ hzero⟩
  applies n p := by
    rintro ⟨e, q, h⟩
    have hdigits : ∀ c ∈ ['0', '1', '2', '3', '4', '5', '6', '7', '8', '9'], c.isDigit = true := by
      decide
    rcases opens_decimal e _ q h with ⟨c, hc, t, heq⟩
    obtain ⟨rfl, -⟩ := List.cons.inj heq
    exact applies_decimal ⟨c, _, hdigits c hc, rfl⟩

theorem stable_identity : (identity .legacy).Stable r r' where
  retails := retailsEscape_identity
  applies n p := by
    rintro ⟨m, q, heq, hm⟩
    obtain ⟨rfl, -⟩ := List.cons.inj heq
    exact ⟨n, _, rfl, hm⟩

theorem spelled_malformedReference : malformedReference.Spelled := by
  intro r r' e p q h
  rcases h with ⟨he, h⟩
  exact ⟨['k'], .cons (by decide) .nil, h, he, rfl⟩

theorem retailsEscape_reference (hr : mode = .unicode → Stops r') :
    (reference mode).RetailsEscape r r' :=
  ((retails_groupName hr).after_singleton 'k').map _

theorem spelled_reference : (reference .legacy).Spelled := by
  intro r r'
  have hname : (GroupName .legacy).Retails r r' := retails_groupName nofun
  exact (hname.after (.cons (by decide) .nil)).map _

theorem retailsEscape_atomEscape (hr : Stops r') : (AtomEscape mode).RetailsEscape r r' := by
  cases mode with
  | unicode =>
    have hforms : ∀ R ∈ atomEscapes .unicode, R.RetailsEscape r r' := by
      simp only [atomEscapes, List.forall_mem_cons, List.not_mem_nil, false_implies,
        implies_true, and_true]
      exact ⟨(stable_decimal hr).retails,
        ((spelled_setLetter r r').escape shrinks_setLetter).map _,
        ((spelled_property r r').escape shrinks_property).map _,
        ((spelled_control r r').escape shrinks_control).map _,
        ((spelled_controlLetter r r').escape shrinks_controlLetter).map _,
        ((spelled_hex r r').escape shrinks_hex).map _,
        ((retails_unicodeEscape fun _ => hr).escape shrinks_unicodeEscape).map _,
        retailsEscape_identity.map _, retailsEscape_reference fun _ => hr⟩
    rintro e p q ⟨R, hR, h⟩
    rcases hforms R hR e p q h with ⟨n, w, hw, hp, h'⟩
    exact ⟨n, w, hw, hp, R, hR, h'⟩
  | legacy =>
    exact ((stable_decimal hr).cons <|
      ((spelled_setLetter.stable shrinks_setLetter hr).map _).cons <|
      ((spelled_control.stable shrinks_control hr).map _).cons <|
      ((spelled_controlLetter.stable shrinks_controlLetter hr).map _).cons <|
      ((spelled_hex.stable shrinks_hex hr).map _).cons <|
      ((spelled_unicodeEscape.stable shrinks_unicodeEscape hr).map _).cons <|
      (stable_identity.map _).cons <|
      (spelled_reference.stable ((shrinks_groupName.after _).map _) hr).cons <|
      (spelled_malformedReference.stable shrinks_malformedReference hr).cons stable_nil).retails

/-! ## Quantifiers -/

theorem spelled_braces : Braces.Spelled := by
  have hnumeral {m : List Char} (hm : IsNumeral m) : Plain m := plain_of_all (by decide) hm.2
  have hopen {m : List Char} (hm : IsNumeral m) : Plain (['{'] ++ m) :=
    .cons (by decide) (hnumeral hm)
  intro r r' v p q h
  generalize heq : q ++ r = s at h
  cases h with
  | exact hm h =>
    subst heq
    exact ⟨_, (hopen hm).append (plain_of_forall (by decide)), h, .exact hm rfl⟩
  | atLeast hm h =>
    subst heq
    exact ⟨_, (hopen hm).append (plain_of_forall (by decide)), h, .atLeast hm rfl⟩
  | between hm hn h =>
    subst heq
    exact ⟨_, (((hopen hm).append (plain_of_forall (by decide))).append (hnumeral hn)).append
      (plain_of_forall (by decide)), h, .between hm hn rfl⟩

theorem spelled_optionalMark : Spelled fun (_ : Unit) => OptionalMark := by
  intro r r' _ p q h
  rcases h with rfl | h
  · exact ⟨[], .nil, rfl, Or.inl rfl⟩
  · exact ⟨['?'], .cons (by decide) .nil, h, Or.inr rfl⟩

theorem spelled_quantifier : Spelled fun (_ : Unit) => Quantifier := by
  intro r r' _ p q h
  generalize heq : q ++ r = s at h
  cases h with
  | @mark c _ _ _ hc h hmark =>
    subst heq
    have hplain : ∀ c ∈ ['*', '+', '?'], c ∉ delimiters := by decide
    rcases spelled_optionalMark r r' () _ q hmark with ⟨w, hw, ht, hmark'⟩
    exact ⟨c :: w, .cons (hplain c hc) hw, word_cons.2 ⟨_, h, ht⟩, .mark hc rfl hmark'⟩
  | bounds h hle hmark =>
    subst heq
    rcases spelled_optionalMark r r' () _ q hmark with ⟨w, hw, ht, hmark'⟩
    rcases (spelled_braces r r').before hw ht h with ⟨v, hvw, hp, h'⟩
    exact ⟨v ++ w, hvw, hp, .bounds h' hle hmark'⟩

/-! ## Escapes in classes -/

theorem spelled_written {c : Char} {n : Nat} (hc : c ∉ delimiters) : (written c n).Spelled := by
  intro r r' v p q h
  rcases h with ⟨hv, h⟩
  exact ⟨[c], .cons hc .nil, h, hv, rfl⟩

/-- What follows the zero matters, so both tails must stop. -/
theorem stable_null (hr : Stops r) (hr' : Stops r') : null.Stable r r' where
  retails := by
    intro n p q h
    rcases h with ⟨hn, h, hdigit⟩
    exact ⟨_, [], .nil, h, hn, rfl, not_startsWith_append (by decide) hr' hdigit⟩
  applies n p := by
    rintro ⟨m, q, hm, h, hdigit⟩
    obtain ⟨rfl, rfl⟩ := List.cons.inj h
    exact ⟨m, _, hm, rfl, not_startsWith_append (by decide) hr hdigit⟩

theorem stable_octal (hr : Stops r') : octal.Stable r r' where
  retails := by
    intro n p q h
    rcases h with ⟨first, more, t, hfirst, hword, ⟨hlen, hmore, hmax, h⟩, hn⟩
    obtain rfl : t = _ := h
    have hmax' := hmax.imp_right (not_startsWith_append (by decide) hr)
    exact ⟨_, more, plain_of_all (by decide) hmore, hword, first, more, _, hfirst, rfl,
      ⟨hlen, hmore, hmax', rfl⟩, hn⟩
  applies n p := by
    rintro ⟨m, q, first, more, t, hfirst, hword, -, -⟩
    obtain ⟨rfl, -⟩ := List.cons.inj hword
    rcases applies_upTo (if first ≤ '3' then 2 else 1) Numeral.isOctalDigit (p ++ r) with
      ⟨more, q, h⟩
    exact ⟨_, q, first, more, _, hfirst, rfl, h, rfl⟩

theorem retailsEscape_classEscape (hr : Stops r) (hr' : Stops r') :
    (ClassEscape mode).RetailsEscape r r' := by
  cases mode with
  | unicode =>
    have hforms : ∀ R ∈ classEscapes .unicode, R.RetailsEscape r r' := by
      simp only [classEscapes, List.forall_mem_cons, List.not_mem_nil, false_implies,
        implies_true, and_true]
      exact ⟨(spelled_written (by decide) r r').escape shrinks_written,
        (spelled_written (by decide) r r').escape shrinks_written,
        ((spelled_setLetter r r').escape shrinks_setLetter).map _,
        ((spelled_property r r').escape shrinks_property).map _,
        ((spelled_control r r').escape shrinks_control).map _,
        ((spelled_controlLetter r r').escape shrinks_controlLetter).map _,
        (stable_null hr hr').retails.map _,
        ((spelled_hex r r').escape shrinks_hex).map _,
        ((retails_unicodeEscape fun _ => hr').escape shrinks_unicodeEscape).map _,
        retailsEscape_identity.map _⟩
    rintro v p q ⟨R, hR, h⟩
    rcases hforms R hR v p q h with ⟨n, w, hw, hp, h'⟩
    exact ⟨n, w, hw, hp, R, hR, h'⟩
  | legacy =>
    have hwritten {c : Char} {n : Nat} (hc : c ∉ delimiters) : (written c n).Stable r r' :=
      (spelled_written hc).stable shrinks_written hr'
    exact ((hwritten (by decide)).cons <|
      ((spelled_classControl.stable shrinks_classControl hr').map _).cons <|
      ((spelled_setLetter.stable shrinks_setLetter hr').map _).cons <|
      ((spelled_control.stable shrinks_control hr').map _).cons <|
      ((spelled_controlLetter.stable shrinks_controlLetter hr').map _).cons <|
      ((stable_null hr hr').map _).cons <|
      ((spelled_hex.stable shrinks_hex hr').map _).cons <|
      ((spelled_unicodeEscape.stable shrinks_unicodeEscape hr').map _).cons <|
      ((stable_octal hr').map _).cons <|
      (stable_identity.map _).cons <|
      (hwritten (by decide)).cons stable_nil).retails

/-! ## Classes -/

theorem passesClass_of_escape (hback : word ['\\'] p t) (h : PassesEscape t q) :
    PassesClass p q := by
  rcases h with ⟨n, s, rfl, w, hw, hs⟩
  obtain rfl : p = _ := hback
  exact .escape (hw.passesClass hs)

theorem passesClass_of_classAtomNoDash {v : Option Nat} (h : ClassAtomNoDash mode v p t)
    (ht : PassesClass t q) : PassesClass p q := by
  have hstops : Stops [] := Or.inl rfl
  cases h with
  | character hn =>
    have hsub : [']', '\\'] ⊆ [']', '-', '\\'] := by decide
    exact .cons (fun hmem => hn (List.map_subset _ hsub hmem)) ht
  | escape h =>
    rcases h with ⟨s, hback, h⟩
    exact (passesClass_of_escape hback
      ((retailsEscape_classEscape hstops hstops).passesEscape h)).trans ht
  | backslash _ hback hc _ =>
    obtain rfl : p = _ := hback
    obtain rfl : t = _ := hc
    exact .backslash ht

theorem passesClass_of_classAtom {v : Option Nat} (h : ClassAtom mode v p t)
    (ht : PassesClass t q) : PassesClass p q := by
  cases h with
  | dash h =>
    obtain rfl : p = _ := h
    exact .cons (by decide) ht
  | noDash h => exact passesClass_of_classAtomNoDash h ht

theorem passesClass_of_classRanges {x : ClassSymbol} (h : ClassRanges mode x p q) :
    PassesClass p q := by
  have hdash {p q t : Text} (h : word ['-'] p t) (ht : PassesClass t q) : PassesClass p q := by
    obtain rfl : p = _ := h
    exact .cons (by decide) ht
  induction h with
  | empty => exact .refl
  | nonempty _ ih => exact ih
  | single h => exact passesClass_of_classAtom h .refl
  | cons h _ ih => exact passesClass_of_classAtom h ih
  | range h hword h' _ _ ih =>
    exact passesClass_of_classAtom h (hdash hword (passesClass_of_classAtom h' ih))
  | last h => exact passesClass_of_classAtom h .refl
  | consNoDash h _ ih => exact passesClass_of_classAtomNoDash h ih
  | rangeNoDash h hword h' _ _ ih =>
    exact passesClass_of_classAtomNoDash h (hdash hword (passesClass_of_classAtom h' ih))

/-- A class is passed over from its bracket to the one that closes it. -/
theorem passesClass_of_characterClass (h : CharacterClass mode p q) :
    ∃ t r, word ['['] p t ∧ PassesClass t r ∧ word [']'] r q := by
  cases h with
  | plain hopen _ hranges hclose =>
    exact ⟨_, _, hopen, passesClass_of_classRanges hranges, hclose⟩
  | negated hopen hranges hclose =>
    rcases (word_append (v := ['[']) (w := ['^'])).1 hopen with ⟨t, hbracket, hcaret⟩
    obtain rfl : t = _ := hcaret
    exact ⟨_, _, hbracket, .cons (by decide) (passesClass_of_classRanges hranges), hclose⟩

end Language

end EcmaPattern
