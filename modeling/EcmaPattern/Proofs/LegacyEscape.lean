import EcmaPattern.Proofs.Recognition.Disjunction

namespace EcmaPattern

open CodeUnit Form Recognizer
open EcmaPattern.Language (Derives)

/-! # Escapes of legacy mode

In legacy mode a backslash is never wrong unless nothing follows it. An escape that is only begun is
read as its first character. All characters but `c` and `k` stand for themselves, and for these two
there is a form that is tried last.
-/

variable {mode : Mode} {room n : Nat} {p q : Text}

namespace Language

/-! ## Outside of classes -/

theorem identity_legacy_cons (hc : n ≠ 'c'.toNat) (hk : n ≠ 'k'.toNat) :
    identity .legacy n (n :: p) p := by
  refine ⟨rfl, ?_⟩
  simpa [Text.ofWord] using And.intro hc hk

/-- In legacy mode each character but a `c` starts an escape. -/
theorem applies_atomEscape_cons (hn : n ≠ 'c'.toNat) : (AtomEscape .legacy).Applies (n :: p) := by
  refine applies_first.2 ?_
  by_cases hk : n = 'k'.toNat
  · subst hk
    exact ⟨malformedReference, by simp [atomEscapes], _, p, rfl, rfl⟩
  · exact ⟨(identity .legacy).as {}, by simp [atomEscapes],
      applies_map.2 ⟨n, p, identity_legacy_cons hn hk⟩⟩

/-- In legacy mode a backslash and a character after it start a term, which names no group. -/
theorem exists_term_of_backslash (room n : Nat) (p : Text) :
    ∃ e q, e.names = [] ∧ Grammar.TakenTerm .legacy room e ('\\'.toNat :: n :: p) q := by
  have hback : word ['\\'] ('\\'.toNat :: n :: p) (n :: p) := rfl
  have hatom {e : Evidence} {t : Text} (hnames : e.names = [])
      (h : Derives .legacy room .atom e ('\\'.toNat :: n :: p) t) :
      ∃ e q, e.names = [] ∧ Grammar.TakenTerm .legacy room e ('\\'.toNat :: n :: p) q := by
    rcases Grammar.exists_takenQuantifier t with ⟨q, hq⟩
    exact ⟨e, q, hnames, Or.inr ⟨.atom, t, quantifiable_atom .legacy, h, hq⟩⟩
  -- an edge of a word is tried before the escapes, a backslash by itself after them
  by_cases hedge : ∃ w ∈ edges, ∃ r, word w ('\\'.toNat :: n :: p) r
  · rcases hedge with ⟨w, hw, r, hr⟩
    exact ⟨{}, r, rfl, Or.inl (.edge hw hr)⟩
  · by_cases hescape : (AtomEscape .legacy).Applies (n :: p)
    · rcases hescape with ⟨e, t, h⟩
      exact hatom (no_group_of_atomEscape h).2 (.escape (fun _ => hedge) ⟨_, hback, h⟩)
    · obtain rfl : n = 'c'.toNat := Classical.byContradiction fun hn =>
        hescape (applies_atomEscape_cons hn)
      have hletter := mt (Grammar.applies_atomEscape_iff rfl).2 hescape
      exact hatom rfl (.backslash rfl hback rfl hletter)

/-! ## In classes -/

/-- In a class of legacy mode each character but a `c` starts an escape. -/
theorem applies_classEscape_cons (hn : n ≠ 'c'.toNat) :
    (ClassEscape .legacy).Applies (n :: p) := by
  refine applies_first.2 ?_
  by_cases hk : n = 'k'.toNat
  · subst hk
    exact ⟨written 'k' 'k'.toNat, by simp [classEscapes], _, p, rfl, rfl⟩
  · exact ⟨(identity .legacy).map some, by simp [classEscapes],
      applies_map.2 ⟨n, p, identity_legacy_cons hn hk⟩⟩

/-- In legacy mode a backslash and a character after it start a class atom. -/
theorem applies_classAtom_of_backslash (n : Nat) (p : Text) :
    (ClassAtom .legacy).Applies ('\\'.toNat :: n :: p) := by
  have hback : word ['\\'] ('\\'.toNat :: n :: p) (n :: p) := rfl
  by_cases hescape : (ClassEscape .legacy).Applies (n :: p)
  · rcases hescape with ⟨v, t, h⟩
    exact ⟨v, t, .noDash (.escape ⟨_, hback, h⟩)⟩
  · obtain rfl : n = 'c'.toNat := Classical.byContradiction fun hn =>
      hescape (applies_classEscape_cons hn)
    have hletter := mt (Grammar.applies_classEscape_iff rfl).2 hescape
    exact ⟨_, _, .noDash (.backslash rfl hback rfl hletter)⟩

/-! ## At the end of the text -/

/-- A backslash at the end of the text starts no term and no part of one. -/
theorem not_derives_backslash {x : Symbol} {e : Evidence} (hx : x.IsSingle)
    (hp : word ['\\'] p []) : ¬ Derives mode room x e p q := by
  intro h
  have hother {c : Char} {w : List Char} {t : Text} (hc : c ≠ '\\') : ¬ word (c :: w) p t :=
    not_word_of_word hp hc.symm
  induction h with
  | single => exact hx.elim
  | bar => exact hx.elim
  | nil => exact hx.elim
  | cons => exact hx.elim
  | assertion _ ih => exact ih trivial hp hother
  | plain hq _ _ ih => exact ih hq.isSingle hp hother
  | quantified hq _ _ ih => exact ih hq.isSingle hp hother
  | edge hw h =>
    rcases edges_iff.1 ⟨_, hw, _, h⟩ with ⟨c, hc, t, h⟩ | ⟨c, -, t, h⟩
    · exact not_word_of_mem h hc (by decide) hp
    · have := word_rest (v := ['\\']) hp h
      contradiction
  | lookbehind hw h =>
    simp only [List.mem_cons, List.not_mem_nil, or_false] at hw
    rcases hw with rfl | rfl <;> exact hother (by decide) h
  | strictLookahead _ _ ih => exact ih trivial hp hother
  | lookahead hw h =>
    simp only [List.mem_cons, List.not_mem_nil, or_false] at hw
    rcases hw with rfl | rfl <;> exact hother (by decide) h
  | dot h => exact hother (by decide) h
  | character hn =>
    rcases List.cons.inj hp with ⟨rfl, -⟩
    exact hn (Text.mem_ofWord.2 (by cases mode <;> decide))
  | escape _ h =>
    rcases h with ⟨t, h, hescape⟩
    obtain rfl := word_unique h hp
    exact absurd (shrinks_atomEscape _ _ _ hescape) (Nat.not_lt_zero _)
  | backslash _ h hc =>
    obtain rfl := word_unique h hp
    contradiction
  | characterClass h =>
    rcases bracket_of_characterClass h with ⟨t, h⟩
    exact hother (by decide) h
  | group h => exact hother (by decide) h
  | capture h => exact hother (by decide) h
  | namedCapture h => exact hother (by decide) h

/-- A backslash at the end of the text starts no class atom. -/
theorem not_classAtom_backslash (hp : word ['\\'] p []) : ¬ (ClassAtom mode).Applies p := by
  rintro ⟨v, q, h⟩
  cases h with
  | dash h => exact not_word_of_word hp (by decide) h
  | noDash h =>
    cases h with
    | character hn =>
      rcases List.cons.inj hp with ⟨rfl, -⟩
      exact hn (by decide)
    | escape h =>
      rcases h with ⟨t, h, hescape⟩
      obtain rfl := word_unique h hp
      exact absurd (shrinks_classEscape _ _ _ hescape) (Nat.not_lt_zero _)
    | backslash _ h hc =>
      obtain rfl := word_unique h hp
      contradiction

end Language

/-! ## The recognizers -/

/-- In legacy mode a term and a class atom match at each backslash but one at the end of the
text. -/
theorem isMatch_backslash_iff (σ : Settings) (hmode : σ.mode = .legacy) (room : Nat) (s : State)
    (rest : List CodeUnit) (hs : s.rest = encode ['\\'] ++ rest) :
    ((Grammar.term σ (Grammar.groupBody σ room) s).1.isMatch = true ↔ rest ≠ []) ∧
      ((Grammar.classAtom σ s).1.isMatch = true ↔ rest ≠ []) := by
  have hterm := Grammar.recognizes_term hmode (Grammar.recognizes_groupBody hmode room) s
  have hclass := Grammar.recognizes_classAtom hmode s
  have hascii : ∀ c ∈ ['\\'], c.toNat < 0x80 := by decide
  have hback : word ['\\'] (decode .legacy s.rest) (decode .legacy rest) := by
    rw [hs]
    exact decode_encode_append .legacy hascii rest
  cases rest with
  | nil =>
    constructor
    · refine iff_of_false (fun h => ?_) (· rfl)
      rcases hterm.sound h with ⟨e, _, -, -, h, -⟩
      exact Language.not_derives_backslash (x := .term) trivial hback h.derives
    · refine iff_of_false (fun h => ?_) (· rfl)
      rcases hclass.sound h with ⟨v, _, -, -, h, -⟩
      exact Language.not_classAtom_backslash hback ⟨v, _, h⟩
  | cons u rest =>
    rw [hback] at hterm hclass
    constructor
    · refine iff_of_true ?_ (List.cons_ne_nil u rest)
      rcases Language.exists_term_of_backslash room u.toNat (decode .legacy rest) with
        ⟨e, q, hnames, h⟩
      exact (hterm.complete e q h (by simp [Meaning.evidence, hnames])).1
    · refine iff_of_true ?_ (List.cons_ne_nil u rest)
      rcases Language.applies_classAtom_of_backslash u.toNat (decode .legacy rest) with ⟨v, q, h⟩
      exact (hclass.complete v q h (by simp [Meaning.character])).1

theorem isMatch_partial_control :
    let σ := ({ mode := .legacy } : Options).settings
    let s := State.start (encode "\\c1".toList)
    s.rest = encode ['\\'] ++ encode ['c', '1'] ∧
      (Grammar.term σ (Grammar.groupBody σ 0) s).1.isMatch = true ∧
      (Grammar.classAtom σ s).1.isMatch = true := by
  intro σ s
  have hrest : s.rest = encode ['\\'] ++ encode ['c', '1'] := by decide
  obtain ⟨hterm, hclass⟩ := isMatch_backslash_iff σ rfl 0 s (encode ['c', '1']) hrest
  exact ⟨hrest, hterm.2 (by decide), hclass.2 (by decide)⟩

end EcmaPattern
