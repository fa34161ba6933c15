import EcmaPattern.Proofs.Acceptance
import EcmaPattern.Proofs.Atomicity
import EcmaPattern.Proofs.Language.Tail

namespace EcmaPattern

open CodeUnit Form Recognizer
open EcmaPattern.Language (Derives)

/-! # What a rejection leaves behind

A text that is no disjunction is read term by term, up to one that fails. What stands before that
term is a disjunction itself, and the state counts its groups and its numbers and no others.
-/

variable {mode : Mode} {σ : Settings} {room : Nat} {body : Recognizer}

/-! ## The term that fails -/

namespace Grammar

/-- From the state `s` on a text of the form `x` is read, and after it a term that fails; the result
`r` is the one of that term. -/
def FailsAfter (mode : Mode) (room : Nat) (σ : Settings) (body : Recognizer) (x : Language.Symbol)
    (s : State) (r : Outcome × State) : Prop :=
  ∃ e rest, Derives mode room x e (decode mode s.rest) (decode mode rest) ∧
    Fresh s.names e.names ∧ (term σ body (s.read rest e)).1.isMatch = false ∧
    r.2 = (term σ body (s.read rest e)).2

variable {x : Language.Symbol} {s : State} {r : Outcome × State} {e : Evidence}
variable {rest : List CodeUnit}

/-- What is read first goes in front of what is read before the term. -/
theorem FailsAfter.prepend {y : Language.Symbol}
    (h : FailsAfter mode room σ body x (s.read rest e) r) (hfresh : Fresh s.names e.names)
    (hxy : ∀ f q, Derives mode room x f (decode mode rest) q →
      Derives mode room y (e ++ f) (decode mode s.rest) q) :
    FailsAfter mode room σ body y s r := by
  rcases h with ⟨f, rest', h, hfresh', hfails, hlast⟩
  rw [State.read_read] at hfails hlast
  exact ⟨e ++ f, rest', hxy f _ h, fresh_append.2 ⟨hfresh, hfresh'⟩, hfails, hlast⟩

/-- Terms up to one that fails are an alternative before it. -/
theorem failsAfter_alternativeWithin
    (hterm : Recognizes mode .evidence (term σ body) (TakenTerm mode room))
    (bound : List CodeUnit) (s : State) (hlen : (decode mode s.rest).length ≤ bound.length)
    (hnone : (alternativeWithin σ body none bound s).1.isMatch = false) :
    FailsAfter mode room σ body .alternative s (alternativeWithin σ body none bound s) := by
  induction bound generalizing s with
  | nil =>
    -- no bound means no text, and there the alternative ends
    have hnil : decode mode s.rest = [] := List.length_eq_zero_iff.1 (Nat.le_zero.1 hlen)
    have hends : alternativeEnds none s = true :=
      (alternativeEnds_iff (by simp)).2 (Or.inr (Or.inl hnil))
    rw [alternativeWithin, if_pos hends] at hnone
    contradiction
  | cons u bound ih =>
    rw [alternativeWithin] at hnone ⊢
    by_cases hends : alternativeEnds none s = true
    · rw [if_pos hends] at hnone
      contradiction
    · rw [if_neg hends] at hnone ⊢
      cases hmatch : (term σ body s).1.isMatch with
      | false =>
        simp only [hmatch, Bool.false_eq_true, if_false]
        refine ⟨{}, s.rest, .nil, fresh_nil, ?_, ?_⟩
        · rwa [State.read_rest_empty]
        · rw [State.read_rest_empty]
      | true =>
        simp only [hmatch, if_true] at hnone ⊢
        rcases (hterm s).sound hmatch with ⟨e, rest, -, hstate, htaken, hfresh⟩
        have hderives : Derives mode room .term e _ _ := htaken.derives
        have hshrinks := (Language.length_of_derives hderives).2 trivial
        have hlen' : (decode mode (s.read rest e).rest).length ≤ bound.length := by
          change (decode mode rest).length ≤ _
          rw [List.length_cons] at hlen
          omega
        rw [hstate] at hnone ⊢
        exact (ih _ hlen' hnone).prepend hfresh fun f q h => .cons hderives h

/-- After an alternative only a bar leads on to a term that fails. -/
theorem exists_of_afterAlternative {bound : List CodeUnit}
    (hnone : (afterAlternative σ body none bound s).1.isMatch = false) :
    ∃ u bound' rest, bound = u :: bound' ∧ (Reader.word ['|']).run s.rest = some ((), rest) ∧
      afterAlternative σ body none bound s =
        alternativesWithin σ body none bound' { s with rest } := by
  simp only [afterAlternative] at hnone ⊢
  split at hnone
  next rest u bound' hrun => exact ⟨u, bound', rest, rfl, hrun, rfl⟩
  next => contradiction

/-- Alternatives up to a term that fails are a disjunction before it. -/
theorem failsAfter_alternativesWithin
    (hterm : Recognizes mode .evidence (term σ body) (TakenTerm mode room))
    (bound : List CodeUnit) (s : State)
    (hnone : (alternativesWithin σ body none bound s).1.isMatch = false) :
    FailsAfter mode room σ body .disjunction s (alternativesWithin σ body none bound s) := by
  have hbar : Reader.Reads mode (Reader.word ['|']) fun _ => word ['|'] :=
    Reader.reads_word (by decide)
  have hlen (s : State) := length_decode_le mode s.rest
  -- each bar takes an element of the bound
  induction hbound : bound.length using Nat.strongRecOn generalizing bound s with
  | ind n ih =>
    rw [alternativesWithin_eq_followedBy rfl] at hnone ⊢
    cases hmatch : (alternative σ body none s).1.isMatch with
    | false =>
      rw [followedBy_of_noMatch hmatch]
      rcases failsAfter_alternativeWithin hterm s.rest s (hlen s) hmatch with
        ⟨e, rest, h, hfresh, hfails, hlast⟩
      exact ⟨e, rest, .single h, hfresh, hfails, hlast⟩
    | true =>
      rw [followedBy_of_match hmatch] at hnone ⊢
      rcases (found_alternativeWithin (by simp) hterm s.rest s (hlen s)).sound hmatch with
        ⟨e, rest, -, hstate, ⟨h, -⟩, hfresh⟩
      have hstate : (alternative σ body none s).2 = s.read rest e := hstate
      rw [hstate] at hnone ⊢
      rcases exists_of_afterAlternative hnone with ⟨u, bound', rest', rfl, hrun, heq⟩
      have hword : word ['|'] (decode mode rest) (decode mode rest') := hbar.sound hrun
      have hmoved : { s.read rest e with rest := rest' } = s.read rest' e := by
        rw [State.moved_eq_read, State.read_read, Evidence.append_empty]
      rw [heq, hmoved] at hnone ⊢
      rw [List.length_cons] at hbound
      exact (ih bound'.length (by omega) bound' _ hnone rfl).prepend hfresh
        fun f q hrest => .bar h hword hrest

/-- In legacy mode a character that stands for itself is a term. -/
theorem isMatch_term_of_character (hmode : σ.mode = .legacy)
    (hbody : Recognizes .legacy .evidence body (Body .legacy room)) {n : Nat} {q : Text}
    (hn : n ∉ Text.ofWord ('{' :: Language.syntaxCharacters .legacy))
    (hs : decode .legacy s.rest = n :: q) : (term σ body s).1.isMatch = true := by
  have hbraces : ¬ Language.Braces.Applies (n :: q) := by
    rintro ⟨v, t, h⟩
    rcases Language.brace_of_braces h with ⟨t', hbrace⟩
    obtain ⟨rfl, -⟩ := List.cons.inj hbrace
    exact hn (by decide)
  have hatom : Derives .legacy room .atom {} (n :: q) q :=
    .character (fun hmem => hn (List.mem_cons_of_mem _ hmem)) fun _ => hbraces
  rcases exists_takenQuantifier q with ⟨t, htaken⟩
  have hterm : TakenTerm .legacy room {} (decode .legacy s.rest) t := by
    rw [hs]
    exact Or.inr ⟨.atom, q, Or.inl rfl, hatom, htaken⟩
  exact ((recognizes_term hmode hbody s).complete {} t hterm fresh_nil).1

end Grammar

/-! ## The text before it -/

/-- No term fails inside of a surrogate pair: in Unicode mode such a place is never reached, and in
legacy mode the unit there is a term. -/
theorem not_isTrail_of_fails (hmode : σ.mode = mode)
    (hbody : Recognizes mode .evidence body (Grammar.Body mode room)) {text : List Char} {w : Text}
    {s : State} (htext : decode mode (encode text) = w ++ decode mode s.rest)
    (hfails : (Grammar.term σ body s).1.isMatch = false) (u : CodeUnit) (after : List CodeUnit)
    (hu : s.rest = u :: after) : Surrogate.isTrail u.toNat = false := by
  rw [Bool.eq_false_iff]
  intro htrail
  have hrange : 0xDC00 ≤ u.toNat := by
    simp only [Surrogate.isTrail, Bool.and_eq_true, decide_eq_true_eq] at htrail
    exact htrail.1
  have hlead : Surrogate.isLead u.toNat = false := by
    simp only [Surrogate.isLead, Bool.and_eq_false_iff, decide_eq_false_iff_not]
    omega
  have hrest : decode mode s.rest = u.toNat :: decode mode after := by
    rw [hu, decode_cons_of_not_lead mode hlead]
  cases mode with
  | unicode =>
    rw [decode_unicode_encode, hrest] at htext
    have hmem : u.toNat ∈ Text.ofWord text := by
      rw [htext]
      exact List.mem_append_right _ List.mem_cons_self
    rcases List.mem_map.1 hmem with ⟨c, -, hc⟩
    rw [← hc, not_isTrail_toNat] at htrail
    contradiction
  | legacy =>
    have hsmall : ∀ n ∈ Text.ofWord ('{' :: Language.syntaxCharacters .legacy), n < 0x80 := by
      decide
    have hn : u.toNat ∉ Text.ofWord ('{' :: Language.syntaxCharacters .legacy) := fun hmem => by
      have := hsmall _ hmem
      omega
    rw [Grammar.isMatch_term_of_character hmode hbody hn hrest] at hfails
    contradiction

/-- The units up to the position and what is left are the text. -/
theorem take_position {s : State} (h : s.rest <:+ s.text) :
    s.text.take s.position ++ s.rest = s.text :=
  calc
    s.text.take s.position ++ s.rest = s.text.take s.position ++ s.text.drop s.position := by
      rw [State.drop_position h]
    _ = s.text := List.take_append_drop _ _

/-- Where a text is turned down, what stands before is a text that is recognized, with the groups
and the numbers that were kept. Names and references may have been left behind since. -/
theorem exists_recognized_before (options : Options) (pattern : String)
    (h : (recognize options.settings (encode pattern.toList)).1.isMatch = false) :
    let failed := (recognize options.settings (encode pattern.toList)).2
    ∃ before : String, encode before.toList = (encode pattern.toList).take failed.position ∧
      let found := recognize options.settings (encode before.toList)
      found.1.isMatch = true ∧ found.2.groups = failed.groups ∧
        found.2.candidates = failed.candidates ∧ found.2.names <+: failed.names ∧
        found.2.references <+: failed.references := by
  intro failed
  let σ := options.settings
  let room := σ.nestingLimit.toNat
  let s := State.start (encode pattern.toList)
  have hbody := Grammar.recognizes_groupBody (σ := σ) rfl room
  rcases Grammar.failsAfter_alternativesWithin (Grammar.recognizes_term rfl hbody) _ s h with
    ⟨e, rest, hderives, hfresh, hfails, hlast⟩
  have hlast : failed = (Grammar.term σ (Grammar.groupBody σ room) (s.read rest e)).2 := hlast
  -- the term that fails goes back and leaves only names and references
  have hresumes : (s.read rest e).Resumes failed := hlast ▸ Grammar.atomic_term _ hfails
  have hextends : (s.read rest e).Extends failed :=
    hlast ▸ Grammar.extending_term (Grammar.groupBodyParts σ room) _
  have hwhole : s.Extends failed := Grammar.extending_disjunction room s
  have htake : (encode pattern.toList).take failed.position ++ rest = encode pattern.toList := by
    have hsuffix : failed.rest <:+ failed.text := hwhole.text ▸ hwhole.rest
    have htake := take_position hsuffix
    rwa [hwhole.text, hresumes.rest] at htake
  -- a control character is the one reading of a bare backslash that looks at what comes after it
  have hcontrol : σ.mode = .legacy → ¬ ∃ t, word ['c'] (decode σ.mode rest) t := by
    rintro hmode ⟨t, ht⟩
    rw [hmode] at ht hbody
    have hmatch := Grammar.isMatch_term_of_character (s := s.read rest e) hmode hbody (by decide) ht
    rw [hmatch] at hfails
    contradiction
  rcases Language.moves_derives (q := []) hcontrol (Or.inl rfl) hderives with ⟨w, hw, hmoved⟩
  rcases exists_of_encode_eq_append htake.symm
    (not_isTrail_of_fails (s := s.read rest e) rfl hbody hw hfails) with
      ⟨first, second, hpattern, hfirst, hsecond⟩
  have hdecode : decode σ.mode (encode first) = w := by
    have hw : decode σ.mode (encode pattern.toList) = w ++ decode σ.mode rest := hw
    rw [hpattern, decode_encode_append_encode, hsecond] at hw
    exact List.append_cancel_right hw
  rw [List.append_nil, List.append_nil, ← hdecode] at hmoved
  rcases recognize_of_derives (σ := σ) (nil_fresh.1 hfresh) hmoved with ⟨hmatch, hstate⟩
  refine ⟨String.ofList first, ?_, ?_⟩
  · rw [String.toList_ofList, hfirst]
  · rw [String.toList_ofList]
    refine ⟨hmatch, ?_, ?_, ?_, ?_⟩
    · rw [hstate]
      exact hresumes.groups.symm
    · rw [hstate]
      exact hresumes.candidates.symm
    · rw [hstate]
      exact hextends.names
    · rw [hstate]
      exact hextends.references

theorem recognized_before_second_group :
    let pattern := "(?<a>b)\\1|c(?<a>d)"
    let failed := recognize (Options.settings {}) (encode pattern.toList)
    failed.1.isMatch = false ∧ failed.2.position = 11 ∧
      ∃ before : String, encode before.toList = (encode pattern.toList).take failed.2.position ∧
        let found := recognize (Options.settings {}) (encode before.toList)
        found.1.isMatch = true ∧ found.2.groups = failed.2.groups ∧
          found.2.candidates = failed.2.candidates ∧ found.2.names <+: failed.2.names ∧
          found.2.references <+: failed.2.references := by
  intro pattern failed
  have hfails : failed.1.isMatch = false := by decide +kernel
  have hposition : failed.2.position = 11 := by decide +kernel
  exact ⟨hfails, hposition, exists_recognized_before {} pattern hfails⟩

end EcmaPattern
