import EcmaPattern.Proofs.Acceptance
import EcmaPattern.Proofs.Language.Relaxation
import EcmaPattern.Proofs.Recognition.Idle
import EcmaPattern.Proofs.Writing

namespace EcmaPattern

open CodeUnit Form Recognizer
open EcmaPattern.Language (Derives Narrow NameWord angled narrow_decode)

/-! # Names of groups

A name may be written in many ways, and all of them are read as the one name. So a name is taken
twice, and found by a reference, however it is written.
-/

namespace Language

variable {mode : Mode} {room : Nat} {name : String} {w : List Char} {p q : Text}

/-- An empty group with a name, which `w` stands for. -/
def namedGroup (w : List Char) : List Char := ['(', '?'] ++ angled w ++ [')']

/-- A reference to a name, which `w` stands for. -/
def backReference (w : List Char) : List Char := ['\\', 'k'] ++ angled w

theorem NameWord.whole_namedGroup (h : NameWord mode name w) : Whole mode (namedGroup w) :=
  whole_append (whole_append (whole_of_ascii (by decide)) h.whole_angled)
    (whole_of_ascii (by decide))

theorem NameWord.whole_backReference (h : NameWord mode name w) : Whole mode (backReference w) :=
  whole_append (whole_of_ascii (by decide)) h.whole_angled

/-- What an empty group with the name `name` says. -/
def groupEvidence (name : String) : Evidence := { groups := 1, names := [name] }

/-- The parts of an empty group with a name. -/
theorem NameWord.parts (hname : NameWord mode name w) (hp : Narrow mode p)
    (h : word (namedGroup w) p q) :
    ∃ s t, word ['(', '?'] p s ∧ GroupName mode name s t ∧ word [')'] t q := by
  rcases word_append.1 h with ⟨t, h, hclose⟩
  rcases word_append.1 h with ⟨s, hopen, hword⟩
  exact ⟨s, t, hopen, (groupName_iff (hp.of_word hopen)).2 ⟨w, hname, hword⟩, hclose⟩

theorem derives_namedGroup (hname : NameWord mode name w) (hp : Narrow mode p)
    (h : word (namedGroup w) p q) : Derives mode (room + 1) .atom (groupEvidence name) p q := by
  rcases hname.parts hp h with ⟨s, t, hopen, hgroup, hclose⟩
  have hatom : Derives mode (room + 1) .atom _ p q :=
    .namedCapture hopen hgroup (.single .nil) hclose
  rwa [Evidence.empty_append] at hatom

theorem derives_backReference (hname : NameWord mode name w) (hp : Narrow mode p)
    (h : word (backReference w) p q) :
    Derives mode room .atom { references := [.named name] } p q := by
  rcases word_append.1 h with ⟨s, hopen, hword⟩
  rcases (word_append (v := ['\\']) (w := ['k'])).1 hopen with ⟨t, hback, hk⟩
  have hgroup : GroupName mode name s q := (groupName_iff (hp.of_word hopen)).2 ⟨w, hname, hword⟩
  have href : reference mode { references := [.named name] } t q := ⟨name, rfl, s, hk, hgroup⟩
  have hescape : AtomEscape mode { references := [.named name] } t q := by
    cases mode with
    | unicode => exact ⟨reference .unicode, by simp [atomEscapes], href⟩
    | legacy => exact atomEscape_of_reference href
  refine .escape (fun _ => not_edge_of_escape hback fun c hc => ?_) ⟨t, hback, hescape⟩
  rintro ⟨r, hr⟩
  exact not_word_of_mem hr hc (by decide) hk

end Language

open EcmaPattern.Language (bracedWord namedGroup backReference groupEvidence)

variable {σ : Settings} {mode : Mode} {s s' : State} {name : String} {w A B : List Char}
variable {units rest : List CodeUnit} {room : Nat} {body : Recognizer}

namespace Grammar

/-! ## Reading a name -/

theorem run_groupName_iff : (groupName mode).run units = some (name, rest) ↔
    ∃ w, NameWord mode name w ∧ units = encode (angled w) ++ rest := by
  rw [reads_groupName.run_eq_some_iff, Language.groupName_iff (narrow_decode mode units)]
  exact exists_congr fun w => and_congr_right fun h => word_decode_iff h.whole_angled

theorem run_groupName_eq_none
    (h : ¬ ∃ name w rest, NameWord mode name w ∧ units = encode (angled w) ++ rest) :
    (groupName mode).run units = none := by
  rw [Option.eq_none_iff_forall_ne_some]
  rintro ⟨name, rest⟩ hrun
  rcases run_groupName_iff.1 hrun with ⟨w, hw, hunits⟩
  exact h ⟨name, w, rest, hw, hunits⟩

/-- No name starts with digits in braces that count as none. -/
theorem run_groupName_of_dvd {digits : List Char} (hcount : 2 ^ 32 ∣ digits.length)
    (hall : ∀ d ∈ digits, Numeral.isHexDigit d = true)
    (h : units = encode (angled ('\\' :: bracedWord digits)) ++ rest) :
    (groupName .unicode).run units = none := by
  have hwhole : Whole .unicode ('\\' :: bracedWord digits) :=
    whole_of_ascii (List.forall_mem_cons.2 ⟨by decide, Language.ascii_bracedWord hall⟩)
  have hword : word (angled ('\\' :: bracedWord digits)) (decode .unicode units)
      (decode .unicode rest) := (word_decode_iff (Language.whole_angled hwhole)).2 h
  rw [reads_groupName.run_eq_none_iff]
  rintro ⟨name, q, hname⟩
  rcases word_append.1 hword with ⟨r, hword, -⟩
  rcases word_append.1 hword with ⟨t, hopen, hescape⟩
  rcases (word_append (v := ['\\'])).1 hescape with ⟨u, hback, hbraced⟩
  cases hname with
  | mk hopen' hc _ _ =>
    obtain rfl := word_unique hopen hopen'
    cases hc with
    | literal hne _ hc => exact not_word_of_word hback hne.symm hc
    | escaped _ hc =>
      rcases hc with ⟨u', hback', hc⟩
      obtain rfl := word_unique hback hback'
      exact Language.not_unicodeEscape_of_dvd hcount hall hbraced ⟨_, _, hc⟩

theorem groupName_eq_name_iff {t : State} :
    ofReader (Outcome.name <$> groupName mode) s = (.name name, t) ↔
      ∃ w rest, NameWord mode name w ∧ s.rest = encode (angled w) ++ rest ∧
        t = { s with rest } := by
  constructor
  · intro h
    cases hrun : (groupName mode).run s.rest with
    | none =>
      rw [ofReader_map_of_none hrun] at h
      exact absurd (Prod.mk.inj h).1 nofun
    | some found =>
      rcases found with ⟨found, rest⟩
      rw [ofReader_map_of_some hrun] at h
      rcases Prod.mk.inj h with ⟨hname, rfl⟩
      obtain rfl : found = name := by simpa using hname
      rcases run_groupName_iff.1 hrun with ⟨w, hw, hrest⟩
      exact ⟨w, rest, hw, hrest, rfl⟩
  · intro h
    rcases h with ⟨w, rest, hw, hrest, rfl⟩
    exact ofReader_map_of_some (run_groupName_iff.2 ⟨w, hw, hrest⟩)

/-! ## A name that is taken -/

/-- What stands in an empty group is its closing parenthesis. -/
theorem groupBody_of_close (h : s.rest = encode [')'] ++ rest) :
    groupBody σ (room + 1) s = (.matched, { s with rest }) := by
  have hclose : (Reader.word [')']).run s.rest = some ((), rest) := Reader.run_word_eq_some_iff.2 h
  rw [groupBody, alternatives, alternativesWithin.eq_def]
  simp only [Option.bind_some, hclose]

theorem run_captureStart (hname : NameWord σ.mode name w)
    (h : units = encode (namedGroup w) ++ rest) :
    (Reader.word ['('] *> optional (Reader.word ['?'] *> groupName σ.mode)).run units =
      some (some name, encode [')'] ++ rest) := by
  rw [reads_captureStart.run_eq_some_iff]
  have hword : word (namedGroup w) (decode σ.mode units) (decode σ.mode rest) :=
    (word_decode_iff hname.whole_namedGroup).2 h
  have hclose : word [')'] (decode σ.mode (encode [')'] ++ rest)) (decode σ.mode rest) :=
    (word_decode_iff (whole_of_ascii (by decide))).2 rfl
  rcases hname.parts (narrow_decode σ.mode units) hword with ⟨r, t, hopen, hgroup, ht⟩
  obtain rfl : t = decode σ.mode (encode [')'] ++ rest) := ht.trans hclose.symm
  rcases (word_append (v := ['(']) (w := ['?'])).1 hopen with ⟨u, hparen, hmark⟩
  exact ⟨u, hparen, Or.inl ⟨name, ⟨r, hmark, hgroup⟩, rfl⟩⟩

/-- A group with a name that is taken fails at its end, and says where. -/
theorem capturingGroup_of_taken (room : Nat) (hname : NameWord σ.mode name w)
    (hrest : s.rest = encode (namedGroup w) ++ rest) (htaken : name ∈ s.names) :
    capturingGroup σ (groupBody σ (room + 1)) s = (.noMatch,
      (({ s with rest } : State).note (.duplicateGroupName
        ({ s with rest } : State).position)).undo σ.rollback s) := by
  have hbody : groupBody σ (room + 1) { s with rest := encode [')'] ++ rest } =
      (.matched, { s with rest }) := groupBody_of_close rfl
  have hgroup : (Recognizer.reading
      (Reader.word ['('] *> optional (Reader.word ['?'] *> groupName σ.mode)) fun name =>
        (groupBody σ (room + 1)).followedBy (closeGroup name)) s =
      (.noMatch, ({ s with rest } : State).note (.duplicateGroupName
        ({ s with rest } : State).position)) := by
    simp only [Recognizer.reading, run_captureStart hname hrest]
    rw [followedBy_of_match (by rw [hbody]; rfl), hbody]
    simp [closeGroup, State.addName?, htaken]
  rw [capturingGroup, attempt_of_noMatch (by rw [hgroup]; rfl), hgroup]

/-- What opens an empty group with a name is no label. -/
theorem not_atWord_of_namedGroup (labels : List (List Char)) (hname : NameWord σ.mode name w)
    (hrest : s.rest = encode (namedGroup w) ++ rest)
    (hlabels : ∀ l ∈ labels, l ∈ ['?', ':'] :: (aheadLabels ++ behindLabels)) :
    ¬ AtWord (labels.map ('(' :: ·)) (decode σ.mode s.rest) := by
  rintro ⟨v, hv, t, ht⟩
  rcases List.mem_map.1 hv with ⟨l, hl, rfl⟩
  rcases hname.parts (narrow_decode σ.mode s.rest)
    ((word_decode_iff hname.whole_namedGroup).2 hrest) with ⟨r, u, hopen, hgroup, hclose⟩
  have hcapturing : Capturing σ.mode 1 _ (decode σ.mode s.rest) (decode σ.mode rest) :=
    Or.inr ⟨{}, name, r, u, rfl, hopen, hgroup, u, .single .nil, hclose⟩
  exact not_capturing_of_label (hlabels l hl) ht ⟨_, _, hcapturing⟩

/-- A term that is such a group fails as the group does. -/
theorem term_of_taken (room : Nat) (hname : NameWord σ.mode name w)
    (hrest : s.rest = encode (namedGroup w) ++ rest) (htaken : name ∈ s.names) :
    (term σ (groupBody σ (room + 1)) s).1 = .noMatch ∧
      (term σ (groupBody σ (room + 1)) s).2.log =
        s.log ++ [.duplicateGroupName ({ s with rest } : State).position] := by
  have hparen : word ['('] (decode σ.mode s.rest)
      (decode σ.mode (encode (['?'] ++ angled w ++ [')']) ++ rest)) :=
    (word_decode_iff (whole_of_ascii (by decide))).2 hrest
  have hgroup := capturingGroup_of_taken room hname hrest htaken
  have hrest' : (capturingGroup σ (groupBody σ (room + 1)) s).2.rest = s.rest := by
    rw [hgroup]
    exact (State.resumes_undo s _ σ.rollback).rest
  have hbefore : ∀ p ∈ beforeGroup σ (groupBody σ (room + 1)), Idle p s :=
    idle_of_mem_beforeGroup hparen (by decide)
      (not_atWord_of_namedGroup [['?', ':']] hname hrest (by decide))
  have hafter : ∀ p ∈ afterGroup σ, Idle p (capturingGroup σ (groupBody σ (room + 1)) s).2 := by
    refine idle_of_mem_afterGroup fun hmode => ?_
    rw [hrest', ← hmode]
    exact avoids_literal (by rw [hmode]; decide) _ ⟨_, hparen⟩
  have hatom := atom_of_group hbefore hafter (by rw [hgroup]; rfl)
  have hterm : term σ (groupBody σ (room + 1)) s = _ :=
    (term_eq_quantified (idle_of_mem_beforeAtom hparen (by decide)
      (not_atWord_of_namedGroup _ hname hrest fun l hl => List.mem_cons_of_mem _ hl))).trans
      (quantified_of_noMatch (by rw [hatom]; rfl))
  rw [hterm, hatom, hgroup]
  refine ⟨rfl, ?_⟩
  cases σ.rollback <;> rfl

/-- Where a term matches and the next one fails, the disjunction fails as that one does. -/
theorem alternatives_of_failing_term (hends : alternativeEnds none s = false)
    (hmatch : (term σ body s).1.isMatch = true) (hstate : (term σ body s).2 = s')
    (hends' : alternativeEnds none s' = false) (hlen : s'.rest.length < s.rest.length)
    (hfail : (term σ body s').1.isMatch = false) : alternatives σ body none s = term σ body s' := by
  have hne : s'.rest ≠ [] := by
    intro hnil
    simp [alternativeEnds, Cursor.atEnd, hnil] at hends'
  have halternative : alternative σ body none s = term σ body s' := by
    rw [alternative]
    -- two rounds of the loop, for which there is room
    rcases hbound : s.rest with _ | ⟨u, bound⟩
    · simp [hbound] at hlen
    · rcases bound with _ | ⟨v, bound⟩
      · rw [hbound, List.length_singleton, Nat.lt_one_iff, List.length_eq_zero_iff] at hlen
        exact absurd hlen hne
      · simp only [alternativeWithin, hends, Bool.false_eq_true, if_false, hmatch, if_true, hstate,
          hends', hfail]
  rw [alternatives, alternativesWithin.eq_def]
  simp only [Option.bind_none, halternative, hfail, Bool.false_eq_true, if_false]

end Grammar

/-! ## Patterns with two groups, or with a group and a reference -/

theorem startsTerm_of_namedGroup (mode' : Mode) (hname : NameWord mode name w)
    (hrest : units = encode (namedGroup w) ++ rest) :
    Language.StartsTerm mode' (decode mode units) :=
  Language.startsTerm_of_word ((word_decode_iff hname.whole_namedGroup).2 hrest) (by decide)

theorem startsTerm_of_backReference (mode' : Mode) (hname : NameWord mode name w)
    (hrest : units = encode (backReference w) ++ rest) :
    Language.StartsTerm mode' (decode mode units) :=
  Language.startsTerm_of_word ((word_decode_iff hname.whole_backReference).2 hrest) (by decide)

/-- An empty group with a name, where another term follows. -/
theorem derives_term_of_namedGroup (room : Nat) (hname : NameWord mode name A)
    (hunits : units = encode (namedGroup A) ++ rest)
    (hrest : ∀ mode', Language.StartsTerm mode' (decode mode rest)) :
    Derives mode (room + 1) .term (groupEvidence name) (decode mode units) (decode mode rest) := by
  have hatom : Derives mode (room + 1) .atom (groupEvidence name) _ _ :=
    Language.derives_namedGroup hname (narrow_decode mode units)
      ((word_decode_iff hname.whole_namedGroup).2 hunits)
  exact .plain (Language.quantifiable_atom mode) hatom fun _ =>
    (hrest .unicode).endsTerm.not_quantifier

/-- A second group of one name is refused at its end. -/
theorem recognize_of_taken (hlimit : σ.nestingLimit.toNat = room + 1)
    (hA : NameWord σ.mode name A) (hB : NameWord σ.mode name B)
    (hunits : units = encode (namedGroup A ++ namedGroup B)) :
    (recognize σ units).1 = .noMatch ∧
      (recognize σ units).2.log = [.duplicateGroupName units.length] := by
  rw [encode_append] at hunits
  have hrest : encode (namedGroup B) = encode (namedGroup B) ++ [] := (List.append_nil _).symm
  have hsecond (mode' : Mode) : Language.StartsTerm mode' (decode σ.mode (encode (namedGroup B))) :=
    startsTerm_of_namedGroup mode' hB hrest
  have hends {s : State} (h : Language.StartsTerm σ.mode (decode σ.mode s.rest)) :
      Grammar.alternativeEnds none s = false := by
    rw [Bool.eq_false_iff]
    intro hends
    exact ((Grammar.alternativeEnds_iff (by simp)).1 hends).not_startsTerm (by simp) h
  -- the first group is read, and its name is kept
  have hterm := derives_term_of_namedGroup room hA hunits hsecond
  rcases (Grammar.recognizes_term rfl (Grammar.recognizes_groupBody rfl (room + 1))
    (.start units)).complete (groupEvidence name) _ (.of_derives hterm (hsecond _).endsTerm)
    (nil_fresh.2 (by simp [groupEvidence, Meaning.evidence]))
    with ⟨hmatch, -, rest, hstate, hdecode⟩
  obtain rfl := decode_injective σ.mode hdecode
  -- the second one fails where it ends, at the end of the text
  have htaken : name ∈ ((State.start units).read (encode (namedGroup B))
      (groupEvidence name)).names := by
    simp [State.start, State.read, groupEvidence, Evidence.append_def, Evidence.saturated]
  have hfail := Grammar.term_of_taken room hB hrest htaken
  have hlen : (encode (namedGroup B)).length < units.length := by
    rw [hunits, List.length_append]
    simp [namedGroup, CodeUnit.ofChar]
  have hrecognize : recognize σ units = Grammar.term σ (Grammar.groupBody σ (room + 1))
      ((State.start units).read (encode (namedGroup B)) (groupEvidence name)) := by
    rw [recognize, Grammar.disjunction, hlimit]
    exact Grammar.alternatives_of_failing_term (hends (startsTerm_of_namedGroup _ hA hunits)) hmatch
      hstate (hends (hsecond _)) hlen (by rw [hfail.1]; rfl)
  rw [hrecognize]
  refine ⟨hfail.1, hfail.2.trans ?_⟩
  simp [State.start, State.read, Cursor.start, Cursor.position]

/-- A reference finds the group before it. -/
theorem isPattern_of_backReference (hlimit : σ.nestingLimit.toNat = room + 1)
    (hA : NameWord σ.mode name A) (hB : NameWord σ.mode name B)
    (hunits : units = encode (namedGroup A ++ backReference B)) : isPattern σ units = true := by
  rw [encode_append] at hunits
  have hrest : encode (backReference B) = encode (backReference B) ++ [] := (List.append_nil _).symm
  have hgroup : Derives σ.mode (room + 1) .term (groupEvidence name) _ _ :=
    derives_term_of_namedGroup room hA hunits fun _ => startsTerm_of_backReference _ hB hrest
  have hatom : Derives σ.mode (room + 1) .atom { references := [.named name] } _ [] :=
    Language.derives_backReference hB (narrow_decode _ _)
      (decode_nil σ.mode ▸ (word_decode_iff hB.whole_backReference).2 hrest)
  have hterm : Derives σ.mode (room + 1) .term { references := [.named name] }
      (decode σ.mode (encode (backReference B))) [] :=
    .plain (Language.quantifiable_atom _) hatom fun _ => Language.not_quantifier_nil
  rw [isPattern_iff_saturated, hlimit]
  refine ⟨_, .single (.cons hgroup (.cons hterm .nil)), ?_, ?_, ?_⟩
  · simp [groupEvidence]
  · intro _ n hn
    simp [groupEvidence, Evidence.saturated] at hn
  · intro _ r hr
    obtain rfl : r = .named name := by simpa [groupEvidence, Evidence.saturated] using hr
    exact ⟨name, by simp [groupEvidence, Evidence.saturated], rfl⟩

/-- Nothing that few groups allow is lost where more may be open. -/
theorem isPattern_of_limit_le {τ : Settings} (hmode : σ.mode = τ.mode)
    (hlimit : σ.nestingLimit.toNat ≤ τ.nestingLimit.toNat) (h : isPattern σ units = true) :
    isPattern τ units = true := by
  rw [isPattern_iff_saturated] at h ⊢
  rcases h with ⟨e, h, hnames, hsound⟩
  rw [← hmode]
  exact ⟨e, h.mono hlimit, hnames, hsound⟩

/-- Two groups of one name are no pattern, however many groups may be open. -/
theorem isPattern_of_taken (hA : NameWord σ.mode name A) (hB : NameWord σ.mode name B)
    (hunits : units = encode (namedGroup A ++ namedGroup B)) : isPattern σ units = false := by
  rw [Bool.eq_false_iff]
  intro h
  -- with the largest limit of all it would be a pattern as well
  let largest : Settings := { σ with nestingLimit := 0xFFFFFFFFFFFFFFFF }
  have hlimit : largest.nestingLimit.toNat = 0xFFFFFFFFFFFFFFFE + 1 := rfl
  have hle : σ.nestingLimit.toNat ≤ largest.nestingLimit.toNat := by
    have := σ.nestingLimit.toNat_lt
    omega
  have hlargest : isPattern largest units = true :=
    isPattern_of_limit_le (σ := σ) (τ := largest) rfl hle h
  have hrecognize := recognize_of_taken (σ := largest) hlimit hA hB hunits
  rw [isPattern_eq_and, hrecognize.1] at hlargest
  contradiction

/-- A disjunction that does not match is inspected no further. -/
theorem state_inspect_of_noMatch {options : Options} {pattern : String}
    (h : (recognize options.settings (encode pattern.toList)).1 = .noMatch) :
    (inspect options pattern).state =
      (recognize options.settings (encode pattern.toList)).2 := by
  simp [inspect, h, Outcome.isMatch]

/-- Names of groups are read exactly. In both modes a name is found if and only if the text at the
place is a word for it in angle brackets, and the place is then after the closing one; otherwise
nothing is found and the place is as it was. In a word for a name digits in braces have any leading
zeros, as long as they do not count as none. So of two groups with one name, however it is written,
the second is refused as a duplicate, and a reference finds a group, however both are written. -/
theorem groupName_exact (mode : Mode) :
    (∀ s name t, ofReader (Outcome.name <$> Grammar.groupName mode) s = (.name name, t) ↔
      ∃ w rest, NameWord mode name w ∧ s.rest = encode (angled w) ++ rest ∧ t = { s with rest }) ∧
    (∀ s : State,
      (¬ ∃ name w rest, NameWord mode name w ∧ s.rest = encode (angled w) ++ rest) →
        ofReader (Outcome.name <$> Grammar.groupName mode) s = (.noMatch, s)) ∧
    ∀ limit name A B, NameWord mode name A → NameWord mode name B →
      let options : Options := { mode, nestingLimit := limit }
      let twice := String.ofList (namedGroup A ++ namedGroup B)
      let referred := String.ofList (namedGroup A ++ backReference B)
      accepts options twice = false ∧
        (0 < limit →
          (inspect options twice).state.log = [.duplicateGroupName (encode twice.toList).length] ∧
            accepts options referred = true) := by
  refine ⟨fun s name t => Grammar.groupName_eq_name_iff, fun s h => ?_, ?_⟩
  · exact ofReader_map_of_none (Grammar.run_groupName_eq_none h)
  · intro limit name A B hA hB options twice referred
    have htwice : encode twice.toList = encode (namedGroup A ++ namedGroup B) := by
      rw [String.toList_ofList]
    have hreferred : encode referred.toList = encode (namedGroup A ++ backReference B) := by
      rw [String.toList_ofList]
    constructor
    · exact isPattern_of_taken (σ := options.settings) hA hB htwice
    · intro hpos
      have hlimit : options.settings.nestingLimit.toNat = (limit.toNat - 1) + 1 := by
        have : 0 < limit.toNat := UInt64.lt_iff_toNat_lt.1 hpos
        change limit.toNat = _
        omega
      have hrecognize := recognize_of_taken (σ := options.settings) hlimit hA hB htwice
      rw [state_inspect_of_noMatch hrecognize.1]
      exact ⟨hrecognize.2,
        isPattern_of_backReference (σ := options.settings) hlimit hA hB hreferred⟩

/-- The name of one letter, as itself and as an escape. -/
theorem groupName_of_letter :
    let options : Options := { mode := .legacy, nestingLimit := 1 }
    NameWord .legacy "é" ['é'] ∧ NameWord .legacy "é" ['\\', 'u', '0', '0', 'E', '9'] ∧
      (inspect options "(?<é>)(?<\\u00E9>)").state.log = [.duplicateGroupName 17] ∧
      accepts options "(?<é>)\\k<\\u00E9>" = true := by
  intro options
  have hname : Language.IsName "é".toList := ⟨by decide +kernel, by decide +kernel⟩
  have hliteral : NameWord .legacy "é" ['é'] := ⟨hname, .cons (.literal (by decide)) .nil⟩
  have hescaped : NameWord .legacy "é" ['\\', 'u', '0', '0', 'E', '9'] := by
    have hhex : Language.IsHex 4 ['0', '0', 'E', '9'] := by decide
    have hunit : Language.UnicodeWord .legacy 'é'.toNat ['u', '0', '0', 'E', '9'] := .unit hhex
    exact ⟨hname, .cons (.escaped hunit) .nil⟩
  have htwice : String.ofList (namedGroup ['é'] ++ namedGroup ['\\', 'u', '0', '0', 'E', '9']) =
      "(?<é>)(?<\\u00E9>)" := by decide +kernel
  have hreferred :
      String.ofList (namedGroup ['é'] ++ backReference ['\\', 'u', '0', '0', 'E', '9']) =
        "(?<é>)\\k<\\u00E9>" := by decide +kernel
  have hlen : (encode "(?<é>)(?<\\u00E9>)".toList).length = 17 := by decide +kernel
  have h := ((groupName_exact .legacy).2.2 1 "é" _ _ hliteral hescaped).2 (by decide)
  rw [htwice, hreferred, hlen] at h
  exact ⟨hliteral, hescaped, h⟩

/-- The name of one letter, which is not read after so many zeros. -/
theorem groupName_of_uncounted_digits :
    let digits := List.replicate (2 ^ 32 - 2) '0' ++ ['6', '1']
    let s := State.start (encode (angled ('\\' :: bracedWord digits)))
    Language.IsName "a".toList ∧ Numeral.value 16 digits = 'a'.toNat ∧
      ofReader (Outcome.name <$> Grammar.groupName .unicode) s = (.noMatch, s) := by
  intro digits s
  have hlength : digits.length = 2 ^ 32 := by
    rw [List.length_append, List.length_replicate]
    rfl
  have hcount : 2 ^ 32 ∣ digits.length := ⟨1, hlength⟩
  have hall : ∀ d ∈ digits, Numeral.isHexDigit d = true :=
    List.forall_mem_append.2 ⟨fun d => Numeral.isHexDigit_of_mem_zeros, by decide⟩
  refine ⟨⟨by decide +kernel, by decide +kernel⟩, ?_, ofReader_map_of_none ?_⟩
  · exact Numeral.value_zeros_append 16 (2 ^ 32 - 2) ['6', '1']
  · exact Grammar.run_groupName_of_dvd hcount hall (List.append_nil _).symm

end EcmaPattern
