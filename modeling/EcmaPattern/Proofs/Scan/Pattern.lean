import Mathlib.Data.List.Forall2
import EcmaPattern.Proofs.Acceptance
import EcmaPattern.Proofs.Scan.Escape

namespace EcmaPattern.Scan

open CodeUnit Form
open EcmaPattern.Language

/-! # What a scan finds in a pattern

A scan of a text finds what a derivation of it says, and so what is found when the text is
recognized. Names are in another order: a scan finds a group where it starts, a derivation says what
it says where the group ends.
-/

variable {mode : Mode} {e e' : Evidence} {f f' : Findings Nat} {p q t : Text}

/-! ## Findings and evidence -/

/-- The name stands at the front of the text. -/
def Names (mode : Mode) (text : Text) (name : String) : Prop := ∃ q, GroupName mode name text q

/-- What a `k` before the text refers to: the name that stands there, or nothing. -/
def RefersTo (mode : Mode) (text : Text) : Reference → Prop
  | .named name => Names mode text name
  | .malformed => ¬ (GroupName mode).Applies text

/-- What a scan finds is what the evidence is. -/
structure Agrees (mode : Mode) (f : Findings Nat) (e : Evidence) : Prop where
  groups : f.groups = e.groups
  names : ∃ names, List.Forall₂ (Names mode) f.names names ∧ names.Perm e.names
  numbers : f.numbers = e.candidates
  references : List.Forall₂ (RefersTo mode) f.references e.references

theorem Agrees.empty : Agrees mode {} {} where
  groups := rfl
  names := ⟨[], .nil, .nil⟩
  numbers := rfl
  references := .nil

theorem Agrees.append (h : Agrees mode f e) (h' : Agrees mode f' e') :
    Agrees mode (f ++ f') (e ++ e') := by
  rcases h.names with ⟨names, hnames, hperm⟩
  rcases h'.names with ⟨names', hnames', hperm'⟩
  constructor
  · rw [Findings.groups_append, Evidence.groups_append, h.groups, h'.groups]
  · exact ⟨names ++ names', List.rel_append hnames hnames', hperm.append hperm'⟩
  · rw [Findings.numbers_append, Evidence.candidates_append, h.numbers, h'.numbers]
  · exact List.rel_append h.references h'.references

/-- What a group itself says comes after what stands in it. -/
theorem Agrees.append_group (h : Agrees mode f e) (h' : Agrees mode f' e')
    (hnumbers : f'.numbers = []) (hreferences : f'.references = []) :
    Agrees mode (f' ++ f) (e ++ e') := by
  rcases h.names with ⟨names, hnames, hperm⟩
  rcases h'.names with ⟨names', hnames', hperm'⟩
  have hcandidates : e'.candidates = [] := h'.numbers.symm.trans hnumbers
  have hnil : e'.references = [] := by
    have := h'.references.length_eq
    rw [hreferences] at this
    exact List.length_eq_zero_iff.1 this.symm
  constructor
  · rw [Findings.groups_append, Evidence.groups_append, h.groups, h'.groups, Nat.add_comm]
  · -- the only thing that is found in another order
    exact ⟨names' ++ names, List.rel_append hnames' hnames,
      List.perm_append_comm.trans (hperm.append hperm')⟩
  · rw [Findings.numbers_append, Evidence.candidates_append, hnumbers, hcandidates,
      List.nil_append, List.append_nil, h.numbers]
  · rw [Findings.references_append, Evidence.references_append, hreferences, hnil,
      List.nil_append, List.append_nil]
    exact h.references

/-- From `p` up to `q` a scan finds what `e` says. -/
def Scans (mode : Mode) (e : Evidence) (p q : Text) : Prop :=
  ∃ f, scan id {} p = f ++ scan id {} q ∧ Agrees mode f e

theorem Scans.of_eq (h : scan id {} p = scan id {} q) : Scans mode {} p q :=
  ⟨{}, by rw [h, Findings.empty_append], .empty⟩

theorem Skipped.scans (h : Skipped p q) : Scans mode {} p q := .of_eq (h false)

theorem Scans.trans (h : Scans mode e p t) (h' : Scans mode e' t q) : Scans mode (e ++ e') p q := by
  rcases h with ⟨f, hf, hagrees⟩
  rcases h' with ⟨f', hf', hagrees'⟩
  exact ⟨f ++ f', by rw [hf, hf', Findings.append_assoc], hagrees.append hagrees'⟩

/-! ## Escapes -/

theorem isDigit_toNat (c : Char) : isDigit c.toNat = c.isDigit := by
  rw [Bool.eq_iff_iff]
  simp only [isDigit, Char.isDigit, Bool.and_eq_true, decide_eq_true_eq, ge_iff_le,
    UInt32.le_iff_toNat_le]
  rfl

theorem startsWith_of_isDigit {n : Nat} (h : isDigit n = true) :
    Text.StartsWith Char.isDigit (n :: t) := by
  have hle : n ≤ 57 := by
    simp only [isDigit, Bool.and_eq_true, decide_eq_true_eq] at h
    exact h.2
  have hc : (Char.ofNat n).toNat = n := by
    rw [Char.ofNat, dif_pos (Or.inl (by omega))]
    rfl
  refine ⟨Char.ofNat n, t, ?_, by rw [hc]⟩
  rw [← isDigit_toNat, hc, h]

/-- The digits at the front of a text are those of a run. -/
theorem takeWhile_of_run {digits : List Char} (h : run Char.isDigit digits p q) :
    p.takeWhile isDigit = Text.ofWord digits := by
  rcases h with ⟨-, hdigits, hstop, rfl⟩
  have hall : ∀ n ∈ Text.ofWord digits, isDigit n = true := by
    intro n hn
    rcases List.mem_map.1 hn with ⟨c, hc, rfl⟩
    rw [isDigit_toNat, hdigits c hc]
  have hnil : q.takeWhile isDigit = [] := by
    cases q with
    | nil => rfl
    | cons n t =>
      cases hn : isDigit n with
      | true => exact absurd (startsWith_of_isDigit hn) hstop
      | false => rw [List.takeWhile_cons, hn]; rfl
  rw [List.takeWhile_append_of_pos hall, hnil, List.append_nil]

theorem numberAt_of_run {digits : List Char} (h : run Char.isDigit digits p q) :
    numberAt id p = Numeral.value 10 digits := by
  have hchars : (Text.ofWord digits).map Char.ofNat = digits := by
    simp [Text.ofWord, Function.comp_def]
  rw [numberAt, List.map_id, takeWhile_of_run h, hchars]

theorem agrees_number {digits : List Char} (h : run Char.isDigit digits p q)
    (hzero : digits.head? ≠ some '0') :
    Agrees mode (findsEscape id p) { candidates := [Numeral.value 10 digits] } := by
  have hnumber := numberAt_of_run h
  rcases h with ⟨hne, hdigits, -, rfl⟩
  cases digits with
  | nil => exact absurd rfl hne
  | cons d digits =>
    have hd := hdigits d List.mem_cons_self
    have hk : startsWith id ['k'] (Text.ofWord (d :: digits) ++ q) = false := by
      refine startsWith_cons_eq_false fun heq => ?_
      rw [Char.toNat_inj.1 heq] at hd
      contradiction
    have hzero' : startsWith id ['0'] (Text.ofWord (d :: digits) ++ q) = false := by
      refine startsWith_cons_eq_false fun heq => hzero ?_
      rw [Char.toNat_inj.1 heq]
      rfl
    have hdigit : (Text.ofWord (d :: digits) ++ q).head?.any (isDigit ∘ id) = true :=
      (isDigit_toNat d).trans hd
    rw [findsEscape, hk, hzero', hdigit, hnumber]
    exact ⟨rfl, ⟨[], .nil, .nil⟩, rfl, .nil⟩

theorem agrees_reference {r : Reference} (h : word ['k'] p t) (hr : RefersTo mode t r) :
    Agrees mode (findsEscape id p) { references := [r] } := by
  obtain rfl : p = 'k'.toNat :: t := h
  exact ⟨rfl, ⟨[], .nil, .nil⟩, rfl, .cons hr .nil⟩

/-- An escape that says nothing starts with a character that is not looked for. -/
theorem agrees_of_opens {α : Type} {R : Form α} {cs : List Char} (hR : R.Opens cs)
    (hcs : ∀ c ∈ cs, c ∉ escapeMarks) (h : R.as ({} : Evidence) e p q) :
    Agrees mode (findsEscape id p) e := by
  rcases h with ⟨a, rfl, h⟩
  rcases hR a p q h with ⟨c, hc, t, rfl⟩
  rw [findsEscape_eq_empty (mt Text.mem_ofWord.1 (hcs c hc))]
  exact .empty

theorem agrees_decimal (h : Decimal e p q) : Agrees mode (findsEscape id p) e := by
  cases h with
  | zero h =>
    obtain rfl : p = '0'.toNat :: q := h
    rw [findsEscape_eq_empty (by decide)]
    exact .empty
  | number h hzero => exact agrees_number h hzero

theorem agrees_namedReference (h : reference mode e p q) : Agrees mode (findsEscape id p) e := by
  rcases h with ⟨name, rfl, t, hk, hname⟩
  exact agrees_reference hk ⟨q, hname⟩

/-- In legacy mode no character that starts a number or a reference stands for itself. -/
theorem agrees_identity (hdecimal : ¬ Decimal.Applies p)
    (h : (identity .legacy).as ({} : Evidence) e p q) : Agrees .legacy (findsEscape id p) e := by
  rcases h with ⟨n, rfl, rfl, hn⟩
  have hdigits : ∀ m ∈ Text.ofWord escapeMarks, m ∉ Text.ofWord ['c', 'k'] → isDigit m = true := by
    decide
  have hmark : n ∉ Text.ofWord escapeMarks := fun hmem =>
    hdecimal (applies_decimal (startsWith_of_isDigit (hdigits n hmem hn)))
  rw [findsEscape_eq_empty hmark]
  exact .empty

/-- After a backslash a scan finds what the escape says. -/
theorem agrees_atomEscape (h : AtomEscape mode e p q) : Agrees mode (findsEscape id p) e := by
  cases mode with
  | unicode =>
    rcases h with ⟨R, hR, h⟩
    simp only [atomEscapes, List.mem_cons, List.not_mem_nil, or_false] at hR
    rcases hR with rfl | rfl | rfl | rfl | rfl | rfl | rfl | rfl | rfl
    · exact agrees_decimal h
    · exact agrees_of_opens opens_setLetter (by decide) h
    · exact agrees_of_opens opens_property (by decide) h
    · exact agrees_of_opens opens_control (by decide) h
    · exact agrees_of_opens opens_controlLetter (by decide) h
    · exact agrees_of_opens opens_after (by decide) h
    · exact agrees_of_opens opens_unicodeEscape (by decide) h
    · exact agrees_of_opens opens_identity (by decide) h
    · exact agrees_namedReference h
  | legacy =>
    -- here it matters which forms did not apply: a digit is no literal after a backslash, and a `k`
    -- without a name is a `k` that no name follows
    simp only [AtomEscape, Choice, atomEscapes, first_cons, not_first_nil, and_false,
      or_false] at h
    rcases h with h | ⟨hdecimal, h | ⟨-, h | ⟨-, h | ⟨-, h | ⟨-, h | ⟨-, h | ⟨-, h |
      ⟨hreference, h⟩⟩⟩⟩⟩⟩⟩⟩
    · exact agrees_decimal h
    · exact agrees_of_opens opens_setLetter (by decide) h
    · exact agrees_of_opens opens_control (by decide) h
    · exact agrees_of_opens opens_controlLetter (by decide) h
    · exact agrees_of_opens opens_after (by decide) h
    · exact agrees_of_opens opens_unicodeEscape (by decide) h
    · exact agrees_identity hdecimal h
    · exact agrees_namedReference h
    · rcases h with ⟨rfl, hk⟩
      apply agrees_reference hk
      intro h
      rcases h with ⟨name, r, hname⟩
      exact hreference ⟨_, r, name, rfl, q, hk, hname⟩

theorem scans_atomEscape (h : after ['\\'] (AtomEscape mode) e p q) : Scans mode e p q := by
  rcases h with ⟨t, hback, h⟩
  refine ⟨findsEscape id t, ?_, agrees_atomEscape h⟩
  rw [show scan id {} p = _ from scan_backslash hback false, (skippedEscape_atomEscape h).scan_eq]

/-! ## Groups -/

theorem startsWith_iff_word {w : List Char} : startsWith id w p = true ↔ ∃ q, word w p q := by
  rw [startsWith_iff, List.map_id]
  rfl

theorem startsWith_eq_false {w : List Char} (h : ¬ ∃ q, word w p q) : startsWith id w p = false :=
  Bool.eq_false_iff.2 fun hw => h (startsWith_iff_word.1 hw)

theorem scan_paren (h : word ['('] p t) : scan id {} p = findsGroup id t ++ scan id {} t := by
  obtain rfl : p = '('.toNat :: t := h
  rfl

theorem findsGroup_of_label {l : List Char}
    (hl : l ∈ ['?', ':'] :: (Grammar.aheadLabels ++ Grammar.behindLabels)) (h : word l t q) :
    findsGroup id t = {} := by
  simp only [Grammar.aheadLabels, Grammar.behindLabels, List.cons_append, List.nil_append,
    List.mem_cons, List.not_mem_nil, or_false] at hl
  rcases hl with rfl | rfl | rfl | rfl | rfl <;> rw [h] <;> rfl

theorem findsGroup_of_no_mark (h : ¬ ∃ q, word ['?'] t q) :
    findsGroup id t = { groups := 1 } := by
  rw [findsGroup, startsWith_eq_false h]
  rfl

theorem findsGroup_of_name {name : String} {s : Text} (hmark : word ['?'] t s)
    (hname : GroupName mode name s q) : findsGroup id t = { groups := 1, names := [s] } := by
  have hlookbehind {c : Char} (hc : c ∈ ['=', '!']) : startsWith id ['?', '<', c] t = false := by
    apply startsWith_eq_false
    intro h
    rcases h with ⟨r, h⟩
    exact not_groupName_of_lookbehind (word_rest (v := ['?']) hmark h) hc hname
  have hopen : startsWith id ['?', '<'] t = true := by
    cases hname with
    | mk hopen _ _ _ =>
      exact startsWith_iff_word.2 ⟨_, (word_append (v := ['?'])).2 ⟨s, hmark, hopen⟩⟩
  rw [findsGroup, startsWith_iff_word.2 ⟨s, hmark⟩, hopen, hlookbehind (by decide),
    hlookbehind (by decide), show t = '?'.toNat :: s from hmark]
  rfl

/-- A group without a number says what stands in it. -/
theorem scans_labelled {l : List Char} {r : Text}
    (hl : l ∈ ['?', ':'] :: (Grammar.aheadLabels ++ Grammar.behindLabels))
    (hopen : word ('(' :: l) p t) (h : Scans mode e t r) (hclose : word [')'] r q) :
    Scans mode e p q := by
  have hskip : ∀ l ∈ ['?', ':'] :: (Grammar.aheadLabels ++ Grammar.behindLabels),
      ∀ c ∈ l, c ∉ marks := by
    decide
  obtain ⟨s, hparen, hlabel⟩ := (word_append (v := ['('])).1 hopen
  have hstart : Scans mode {} p t := by
    apply Scans.of_eq
    rw [scan_paren hparen, findsGroup_of_label hl hlabel, Findings.empty_append]
    exact skipped_word (hskip l hl) hlabel false
  have hend : Scans mode {} r q := (skipped_word (by decide) hclose).scans
  simpa using (hstart.trans h).trans hend

/-- A capturing group says that there is one more group, besides what stands in it. -/
theorem scans_capturing {s r : Text} (hparen : word ['('] p s) (hskip : Skipped s t)
    (hgroup : Agrees mode (findsGroup id s) e') (hnumbers : (findsGroup id s).numbers = [])
    (hreferences : (findsGroup id s).references = []) (h : Scans mode e t r)
    (hclose : word [')'] r q) : Scans mode (e ++ e') p q := by
  rcases h with ⟨f, hf, hagrees⟩
  refine ⟨findsGroup id s ++ f, ?_, hagrees.append_group hgroup hnumbers hreferences⟩
  have hend : scan id {} r = scan id {} q := skipped_word (by decide) hclose false
  rw [scan_paren hparen, show scan id {} s = _ from hskip false, hf, hend, Findings.append_assoc]

/-! ## Derivations -/

theorem scans_edge {w : List Char} (hw : w ∈ edges) (h : word w p q) : Scans mode {} p q := by
  have hletter {c : Char} (h : word ['\\', c] p q) (hc : c ∉ escapeMarks) : Scans mode {} p q := by
    rcases (word_append (v := ['\\']) (w := [c])).1 h with ⟨t, hback, hword⟩
    refine (skipped_escape hback (skippedEscape_of_word (by simp) hword) ?_).scans
    rw [show t = c.toNat :: q from hword, findsEscape_eq_empty (mt Text.mem_ofWord.1 hc)]
  simp only [edges, List.mem_cons, List.not_mem_nil, or_false] at hw
  rcases hw with rfl | rfl | rfl | rfl
  · exact (skipped_word (by decide) h).scans
  · exact (skipped_word (by decide) h).scans
  · exact hletter h (by decide)
  · exact hletter h (by decide)

/-- A bracket that closes no class is skipped outside classes, as all literals are. -/
theorem scans_character {n : Nat} (hn : n ∉ Text.ofWord (syntaxCharacters mode)) :
    Scans mode {} (n :: q) q := by
  have hmem : ∀ c ∈ ['\\', '[', '('], c ∈ syntaxCharacters mode := by cases mode <;> decide
  have hne {c : Char} (hc : c ∈ ['\\', '[', '(']) : (n == c.toNat) = false :=
    beq_eq_false_of_not_mem hn (hmem c hc)
  have hback : (n == '\\'.toNat) = false := hne (by decide)
  have hopen : (n == '['.toNat) = false := hne (by decide)
  have hparen : (n == '('.toNat) = false := hne (by decide)
  have hnext : Flags.next {} n = {} := by
    rw [Flags.next, hback, hopen]
    rfl
  have hfinds : finds id {} n q = {} := by
    rw [finds, id_eq, hparen]
    rfl
  apply Scans.of_eq
  rw [scan, id_eq, hnext, hfinds, Findings.empty_append]

/-- The scanner takes the `c` after a bare backslash for escaped, which leads to the same place. -/
theorem scans_backslash (hback : word ['\\'] p q) (hc : word ['c'] q t) : Scans mode {} p q := by
  have hnone : findsEscape id q = {} := by
    rw [show q = 'c'.toNat :: t from hc, findsEscape_eq_empty (by decide)]
  have hescape : Skipped p t := skipped_escape hback (skippedEscape_of_word (by simp) hc) hnone
  have hskip : Skipped q t := skipped_word (by decide) hc
  exact .of_eq ((hescape false).trans (hskip false).symm)

/-- A scan finds what a derivation says. -/
theorem scans_of_derives {room : Nat} {x : Symbol} (h : Derives mode room x e p q) :
    Scans mode e p q := by
  induction h with
  | single _ ih => exact ih
  | bar _ hbar _ ih ih' =>
    have hskip : Scans mode {} _ _ := (skipped_word (by decide) hbar).scans
    simpa using (ih.trans hskip).trans ih'
  | nil => exact (Skipped.refl _).scans
  | cons _ _ ih ih' => exact ih.trans ih'
  | assertion _ ih => exact ih
  | plain _ _ _ ih => exact ih
  | quantified _ _ h ih =>
    have hskip : Scans mode {} _ _ := (skipped_quantifier h).scans
    simpa using ih.trans hskip
  | edge hw h => exact scans_edge hw h
  | lookbehind hw hopen _ hclose ih =>
    rcases Grammar.exists_behindLabel hw with ⟨l, hl, rfl⟩
    exact scans_labelled (List.mem_cons_of_mem _ (List.mem_append_right _ hl)) hopen ih hclose
  | strictLookahead _ _ ih => exact ih
  | lookahead hw hopen _ hclose ih =>
    rcases Grammar.exists_aheadLabel hw with ⟨l, hl, rfl⟩
    exact scans_labelled (List.mem_cons_of_mem _ (List.mem_append_left _ hl)) hopen ih hclose
  | dot h => exact (skipped_word (by decide) h).scans
  | character hn _ => exact scans_character hn
  | escape _ h => exact scans_atomEscape h
  | backslash _ hback hc _ => exact scans_backslash hback hc
  | characterClass h => exact .of_eq (scan_characterClass h)
  | group hopen _ hclose ih => exact scans_labelled List.mem_cons_self hopen ih hclose
  | @capture room e p t r q hopen h hclose ih =>
    -- what stands in parentheses starts with no question mark, so the scanner counts the group too
    have hgroup : findsGroup id t = { groups := 1 } := by
      apply findsGroup_of_no_mark
      intro h
      rcases h with ⟨s, hmark⟩
      have hbody : Grammar.Body mode (room + 1) e t q := ⟨r, h, hclose⟩
      exact Grammar.not_body_of_mark hmark hbody
    refine scans_capturing hopen (.refl t) ?_ ?_ ?_ ih hclose
    · rw [hgroup]
      exact ⟨rfl, ⟨[], .nil, .nil⟩, rfl, .nil⟩
    · rw [hgroup]
    · rw [hgroup]
  | @namedCapture room name e p s t r q hopen hname h hclose ih =>
    obtain ⟨u, hparen, hmark⟩ := (word_append (v := ['(']) (w := ['?'])).1 hopen
    -- a name is neither of the two look-behinds that the scanner leaves out
    have hgroup := findsGroup_of_name hmark hname
    have hskip : Skipped u t := (skipped_word (by decide) hmark).trans (skipped_groupName hname)
    refine scans_capturing hparen hskip ?_ ?_ ?_ ih hclose
    · rw [hgroup]
      exact ⟨rfl, ⟨[name], .cons ⟨t, hname⟩ .nil, .refl _⟩, rfl, .nil⟩
    · rw [hgroup]
    · rw [hgroup]

/-! ## Recognized texts -/

/-- The name at the front of the units, if one stands there. -/
def nameAt (mode : Mode) (units : List CodeUnit) : Option String :=
  ((Grammar.groupName mode).run units).map Prod.fst

/-- What a `k` before the units refers to. -/
def referenceAt (mode : Mode) (units : List CodeUnit) : Reference :=
  ((nameAt mode units).map .named).getD .malformed

variable {units : List CodeUnit}

theorem nameAt_of_names {name : String} (h : Names mode (decode mode units) name) :
    nameAt mode units = some name := by
  rcases h with ⟨q, h⟩
  rcases Grammar.reads_groupName.complete h with ⟨rest, hrun, -⟩
  rw [nameAt, hrun]
  rfl

theorem referenceAt_of_refersTo {r : Reference} (h : RefersTo mode (decode mode units) r) :
    referenceAt mode units = r := by
  cases r with
  | named name =>
    rw [referenceAt, nameAt_of_names h]
    rfl
  | malformed =>
    rw [referenceAt, nameAt, Grammar.reads_groupName.run_eq_none_iff.2 h]
    rfl

/-- Related element by element, the values of two functions are the same. -/
theorem map_eq_map_of_forall₂ {α β γ : Type} {R : α → β → Prop} {g : α → γ} {h : β → γ}
    (hR : ∀ a b, R a b → g a = h b) {as : List α} {bs : List β} (hall : List.Forall₂ R as bs) :
    as.map g = bs.map h := by
  induction hall with
  | nil => rfl
  | cons hab _ ih => rw [List.map_cons, List.map_cons, hR _ _ hab, ih]

/-- What is found when a text is recognized is what a scan finds, except that names stand in the
order in which their groups end and that numbers are saturated. -/
theorem recognize_eq_scan (σ : Settings) (text : List CodeUnit)
    (h : (recognize σ text).1.isMatch = true) :
    let found := (recognize σ text).2
    let scanned := scan UInt16.toNat {} text
    found.groups = scanned.groups ∧
      (found.names.map some).Perm (scanned.names.map (nameAt σ.mode)) ∧
      found.candidates = scanned.numbers.map (min 0xFFFFFFFF) ∧
      found.references = scanned.references.map (referenceAt σ.mode) := by
  intro found scanned
  rcases exists_derives_of_match h with ⟨e, hderives, -, hstate⟩
  have hfound : found.toEvidence = e.saturated :=
    (congrArg State.toEvidence hstate).trans (toEvidence_start_read e)
  rcases scans_of_derives hderives with ⟨f, hf, hagrees⟩
  -- what is found in characters is what is found in units, read as characters
  have hscanned : f = scanned.map (decode σ.mode) := by
    rw [← scan_decode, hf]
    exact (Findings.append_empty f).symm
  subst hscanned
  rcases hagrees.names with ⟨names, hnames, hperm⟩
  have hmap : scanned.names.map (nameAt σ.mode) = names.map some :=
    map_eq_map_of_forall₂ (fun _ _ h => nameAt_of_names h) (List.forall₂_map_left_iff.1 hnames)
  have hrefs : scanned.references.map (referenceAt σ.mode) = e.references.map id :=
    map_eq_map_of_forall₂ (fun _ _ h => referenceAt_of_refersTo h)
      (List.forall₂_map_left_iff.1 hagrees.references)
  refine ⟨?_, ?_, ?_, ?_⟩
  · rw [hfound]
    exact hagrees.groups.symm
  · rw [hfound, hmap]
    exact (hperm.map some).symm
  · rw [hfound]
    exact congrArg (List.map (min Grammar.largestReference)) hagrees.numbers.symm
  · rw [hfound, hrefs, List.map_id]
    rfl

theorem recognize_eq_scan_named_group :
    let text := encode "(?<a>\\1)[\\](]\\k<a>(?:\\k)".toList
    (recognize { mode := .legacy } text).1.isMatch = true ∧
      (recognize { mode := .legacy } text).2.groups = 1 ∧
      (recognize { mode := .legacy } text).2.references = [.named "a", .malformed] := by
  intro text
  have h : (recognize { mode := .legacy } text).1.isMatch = true := by decide +kernel
  rcases recognize_eq_scan { mode := .legacy } text h with ⟨hgroups, -, -, hreferences⟩
  exact ⟨h, hgroups.trans (by decide +kernel), hreferences.trans (by decide +kernel)⟩

end EcmaPattern.Scan
