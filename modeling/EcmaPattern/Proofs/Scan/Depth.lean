import EcmaPattern.Proofs.Acceptance
import EcmaPattern.Proofs.Scan.Escape
import EcmaPattern.Proofs.Silence

namespace EcmaPattern.Scan

open CodeUnit Form
open EcmaPattern.Language

/-! # The depth of a pattern

A scan counts the parentheses that are open. The limit on the nesting of groups is a limit on this
number and on nothing else: a pattern is accepted if and only if it is accepted with the largest
limit there is and no more parentheses are open in it at once than its own limit allows.
-/

variable {α : Type} {mode : Mode} {room : Nat} {x : Symbol} {e : Evidence} {p q t : Text}

/-! ## Open parentheses -/

/-- How many parentheses are open after the character `n`, where `opened` were open before it.
Parentheses in classes and after a backslash do not count. -/
def Flags.opened (flags : Flags) (n opened : Nat) : Nat :=
  if flags.escaped || flags.inClass then opened
  else if n == '('.toNat then opened + 1
  else if n == ')'.toNat then opened - 1
  else opened

/-- The largest number of parentheses that are open at once, where `opened` are open already. -/
def depthFrom (v : α → Nat) : Flags → Nat → List α → Nat
  | _, opened, [] => opened
  | flags, opened, a :: text =>
    max opened (depthFrom v (flags.next (v a)) (flags.opened (v a) opened) text)

/-- The largest number of parentheses that are open at once. -/
def depth (text : List CodeUnit) : Nat := depthFrom UInt16.toNat {} 0 text

example : depth (encode "(a(b[(]\\()|(c))(d)".toList) = 2 := by decide

theorem le_depthFrom (v : α → Nat) (flags : Flags) (opened : Nat) (text : List α) :
    opened ≤ depthFrom v flags opened text := by
  cases text with
  | nil => exact Nat.le_refl opened
  | cons a text => exact Nat.le_max_left _ _

/-- A character that opens and closes nothing is passed over. -/
theorem depthFrom_cons {v : α → Nat} {flags : Flags} {opened : Nat} {a : α}
    (h : flags.opened (v a) opened = opened) (text : List α) :
    depthFrom v flags opened (a :: text) = depthFrom v (flags.next (v a)) opened text := by
  rw [depthFrom, h]
  exact Nat.max_eq_right (le_depthFrom v _ opened text)

theorem opened_of_not_ascii {flags : Flags} {n : Nat} (h : 0x80 ≤ n) (opened : Nat) :
    flags.opened n opened = opened := by
  have hne {c : Char} (hc : c.toNat < 0x80) : (n == c.toNat) = false := by
    rw [beq_eq_false_iff_ne]
    omega
  rw [Flags.opened, hne (c := '(') (by decide), hne (c := ')') (by decide)]
  simp

/-- Parentheses are counted the same in the units as in the characters. -/
theorem depthFrom_decode (mode : Mode) (flags : Flags) (opened : Nat) (units : List CodeUnit) :
    depthFrom id flags opened (decode mode units) = depthFrom UInt16.toNat flags opened units := by
  induction hlen : units.length using Nat.strongRecOn generalizing flags opened units with
  | ind n ih =>
    cases units with
    | nil =>
      rw [decode_nil]
      rfl
    | cons u units =>
      rw [List.length_cons] at hlen
      rcases decode_cons mode u units with h | ⟨w, rest, c, rfl, h, hu, hw, hc⟩
      · rw [h, depthFrom, depthFrom, ih _ (by omega) _ _ units rfl]
        rfl
      · -- neither half of a pair nor the pair is a parenthesis, and the flags end up the same
        rw [List.length_cons] at hlen
        rw [h, depthFrom_cons (opened_of_not_ascii hc opened),
          depthFrom_cons (opened_of_not_ascii hu opened),
          depthFrom_cons (opened_of_not_ascii hw opened), next_of_not_ascii hu,
          next_of_not_ascii hw, id_eq, next_of_not_ascii hc, ih _ (by omega) _ _ rest rfl]

/-! ## Texts without parentheses -/

/-- From `p` up to `q` no parenthesis counts, in a class or outside of one. -/
def Level (inClass : Bool) (p q : Text) : Prop :=
  ∀ opened, depthFrom id { inClass } opened p = depthFrom id { inClass } opened q

theorem Level.refl (inClass : Bool) (p : Text) : Level inClass p p := fun _ => rfl

theorem Level.symm {inClass : Bool} (h : Level inClass p q) : Level inClass q p :=
  fun opened => (h opened).symm

theorem Level.trans {inClass : Bool} (h : Level inClass p t) (h' : Level inClass t q) :
    Level inClass p q :=
  fun opened => (h opened).trans (h' opened)

/-- Outside classes parentheses count, and a closing bracket is a character like any other. -/
theorem level_cons {n : Nat} {cs : List Char} (hn : n ∉ Text.ofWord cs) {inClass : Bool}
    (hback : '\\' ∈ cs) (hbracket : (if inClass then ']' else '[') ∈ cs)
    (hparens : inClass = false → '(' ∈ cs ∧ ')' ∈ cs) : Level inClass (n :: q) q := by
  intro opened
  have hopened : Flags.opened { inClass } n opened = opened := by
    cases inClass with
    | true => rfl
    | false =>
      rw [Flags.opened, beq_eq_false_of_not_mem hn (hparens rfl).1,
        beq_eq_false_of_not_mem hn (hparens rfl).2]
      rfl
  rw [depthFrom_cons hopened, id_eq, next_of_not_mem hn hback hbracket]

/-- A backslash and the character after it count as nothing. -/
theorem level_escaped (inClass : Bool) (n : Nat) : Level inClass ('\\'.toNat :: n :: q) q := by
  intro opened
  rw [depthFrom_cons, depthFrom_cons]
  · cases inClass <;> rfl
  · cases inClass <;> rfl
  · cases inClass <;> rfl

theorem level_of_passes (h : Passes p q) (inClass : Bool) : Level inClass p q := by
  rcases h with ⟨w, hw, h⟩
  induction hw generalizing p with
  | nil =>
    obtain rfl : p = q := h
    exact .refl inClass p
  | cons hc _ ih =>
    rcases word_cons.1 h with ⟨t, rfl, ht⟩
    have hlevel : Level inClass (_ :: t) t :=
      level_cons (mt Text.mem_ofWord.1 hc) (by decide) (by cases inClass <;> decide)
        fun _ => by decide
    exact hlevel.trans (ih ht)
  | escape _ ih =>
    rcases word_cons.1 h with ⟨s, rfl, hs⟩
    rcases word_cons.1 hs with ⟨t, rfl, ht⟩
    exact (level_escaped inClass _).trans (ih ht)

theorem level_of_passesEscape (hback : word ['\\'] p t) (h : PassesEscape t q) :
    Level false p q := by
  rcases h with ⟨n, s, rfl, h⟩
  obtain rfl : p = '\\'.toNat :: n :: s := hback
  exact (level_escaped false n).trans (level_of_passes h false)

theorem level_of_passesClass (h : PassesClass p q) : Level true p q := by
  induction h with
  | refl => exact .refl true _
  | @cons n p _ hn _ ih =>
    have hlevel : Level true (n :: p) p := level_cons hn (by decide) (by decide) nofun
    exact hlevel.trans ih
  | escape _ ih => exact (level_escaped true _).trans ih
  | @backslash p q _ ih =>
    have hmem : 'c'.toNat ∉ Text.ofWord [']', '\\'] := by decide
    have hc : Level true ('c'.toNat :: p) p := level_cons hmem (by decide) (by decide) nofun
    exact (level_escaped true _).trans (hc.symm.trans ih)

theorem level_characterClass (h : CharacterClass mode p q) : Level false p q := by
  rcases passesClass_of_characterClass h with ⟨t, r, hopen, hclass, hclose⟩
  obtain rfl : p = '['.toNat :: t := hopen
  obtain rfl : r = ']'.toNat :: q := hclose
  intro opened
  rw [depthFrom_cons rfl]
  exact (level_of_passesClass hclass opened).trans (depthFrom_cons rfl q)

theorem level_of_word {w : List Char} (hw : ∀ c ∈ w, c ∉ ['\\', '[', '(', ')']) (h : word w p q) :
    Level false p q := by
  induction w generalizing p with
  | nil =>
    obtain rfl : p = q := h
    exact .refl false p
  | cons c w ih =>
    rw [List.forall_mem_cons] at hw
    rcases word_cons.1 h with ⟨t, rfl, ht⟩
    have hlevel : Level false (_ :: t) t :=
      level_cons (mt Text.mem_ofWord.1 hw.1) (by decide) (by decide) (by decide)
    exact hlevel.trans (ih hw.2 ht)

theorem level_character {n : Nat} (hn : n ∉ Text.ofWord (syntaxCharacters mode)) :
    Level false (n :: q) q := by
  cases mode with
  | unicode => exact level_cons hn (by decide) (by decide) fun _ => by decide
  | legacy => exact level_cons hn (by decide) (by decide) fun _ => by decide

theorem level_edge {w : List Char} (hw : w ∈ edges) (h : word w p q) : Level false p q := by
  have hletter {c : Char} (h : word ['\\', c] p q) : Level false p q := by
    rcases (word_append (v := ['\\']) (w := [c])).1 h with ⟨t, hback, hc⟩
    exact level_of_passesEscape hback ⟨_, q, hc, .refl q⟩
  simp only [edges, List.mem_cons, List.not_mem_nil, or_false] at hw
  rcases hw with rfl | rfl | rfl | rfl
  · exact level_of_word (by decide) h
  · exact level_of_word (by decide) h
  · exact hletter h
  · exact hletter h

/-- The scanner takes the `c` after a bare backslash for escaped, which leads to the same place. -/
theorem level_backslash (hback : word ['\\'] p q) (hc : word ['c'] q t) : Level false p q := by
  have hescape : Level false p t := level_of_passesEscape hback ⟨_, t, hc, .refl t⟩
  exact hescape.trans (level_of_word (by decide) hc).symm

/-! ## Groups -/

/-- From `p` up to `q` parentheses are balanced, and at most `height` of them are open at once
besides those that were open before. -/
def Nests (height : Nat) (p q : Text) : Prop :=
  ∀ opened, depthFrom id {} opened p = max (opened + height) (depthFrom id {} opened q)

theorem Level.nests (h : Level false p q) : Nests 0 p q := by
  intro opened
  have hle := le_depthFrom id {} opened q
  rw [h opened]
  omega

theorem Nests.trans {first second : Nat} (h : Nests first p t) (h' : Nests second t q) :
    Nests (max first second) p q := by
  intro opened
  rw [h opened, h' opened]
  omega

/-- A group is one parenthesis deeper than what stands in it. -/
theorem Nests.group {height : Nat} {s r : Text} (hopen : word ['('] p s) (hlabel : Level false s t)
    (h : Nests height t r) (hclose : word [')'] r q) : Nests (height + 1) p q := by
  obtain rfl : p = '('.toNat :: s := hopen
  obtain rfl : r = ')'.toNat :: q := hclose
  intro opened
  have hstart : depthFrom id {} opened ('('.toNat :: s) =
      max opened (depthFrom id {} (opened + 1) s) := rfl
  have hend : depthFrom id {} (opened + 1) (')'.toNat :: q) =
      max (opened + 1) (depthFrom id {} opened q) := rfl
  rw [hstart, hlabel, h, hend]
  omega

/-- A group with a label, from its parenthesis on. -/
theorem Nests.labelled {height : Nat} {l : List Char} {r : Text}
    (hl : l ∈ ['?', ':'] :: (Grammar.aheadLabels ++ Grammar.behindLabels))
    (hopen : word ('(' :: l) p t) (h : Nests height t r) (hclose : word [')'] r q) :
    Nests (height + 1) p q := by
  have hplain : ∀ l ∈ ['?', ':'] :: (Grammar.aheadLabels ++ Grammar.behindLabels),
      ∀ c ∈ l, c ∉ delimiters := by
    decide
  rcases (word_append (v := ['('])).1 hopen with ⟨s, hparen, hlabel⟩
  exact .group hparen (level_of_passes (passes_word (hplain l hl) hlabel) false) h hclose

/-- What is derived nests no deeper than there is room, and needs no more room than it nests. -/
theorem exists_nests_of_derives (h : Derives mode room x e p q) :
    ∃ height ≤ room, Derives mode height x e p q ∧ Nests height p q := by
  have hflat {room : Nat} {x : Symbol} {e : Evidence} {p q : Text} (h : Derives mode 0 x e p q)
      (hlevel : Level false p q) :
      ∃ height ≤ room, Derives mode height x e p q ∧ Nests height p q :=
    ⟨0, Nat.zero_le room, h, hlevel.nests⟩
  induction h with
  | single _ ih =>
    rcases ih with ⟨height, hle, h, hnests⟩
    exact ⟨height, hle, .single h, hnests⟩
  | bar _ hbar _ ih ih' =>
    rcases ih with ⟨first, hle, h, hnests⟩
    rcases ih' with ⟨second, hle', h', hnests'⟩
    have hskip : Level false _ _ := level_of_word (by decide) hbar
    refine ⟨max first second, by omega, .bar (h.mono (by omega)) hbar (h'.mono (by omega)), ?_⟩
    have hafter := hskip.nests.trans hnests'
    rw [Nat.zero_max] at hafter
    exact hnests.trans hafter
  | nil => exact hflat .nil (.refl false _)
  | cons _ _ ih ih' =>
    rcases ih with ⟨first, hle, h, hnests⟩
    rcases ih' with ⟨second, hle', h', hnests'⟩
    exact ⟨max first second, by omega, .cons (h.mono (by omega)) (h'.mono (by omega)),
      hnests.trans hnests'⟩
  | assertion _ ih =>
    rcases ih with ⟨height, hle, h, hnests⟩
    exact ⟨height, hle, .assertion h, hnests⟩
  | plain hx _ hnone ih =>
    rcases ih with ⟨height, hle, h, hnests⟩
    exact ⟨height, hle, .plain hx h hnone, hnests⟩
  | quantified hx _ hquantifier ih =>
    rcases ih with ⟨height, hle, h, hnests⟩
    have hskip := level_of_passes (spelled_quantifier.passes (a := ()) hquantifier) false
    refine ⟨height, hle, .quantified hx h hquantifier, ?_⟩
    simpa using hnests.trans hskip.nests
  | edge hw h => exact hflat (.edge hw h) (level_edge hw h)
  | lookbehind hw hopen _ hclose ih =>
    rcases ih with ⟨height, hle, h, hnests⟩
    rcases Grammar.exists_behindLabel hw with ⟨l, hl, rfl⟩
    exact ⟨height + 1, by omega, .lookbehind hw hopen h hclose,
      .labelled (List.mem_cons_of_mem _ (List.mem_append_right _ hl)) hopen hnests hclose⟩
  | strictLookahead hmode _ ih =>
    rcases ih with ⟨height, hle, h, hnests⟩
    exact ⟨height, hle, .strictLookahead hmode h, hnests⟩
  | lookahead hw hopen _ hclose ih =>
    rcases ih with ⟨height, hle, h, hnests⟩
    rcases Grammar.exists_aheadLabel hw with ⟨l, hl, rfl⟩
    exact ⟨height + 1, by omega, .lookahead hw hopen h hclose,
      .labelled (List.mem_cons_of_mem _ (List.mem_append_left _ hl)) hopen hnests hclose⟩
  | dot h => exact hflat (.dot h) (level_of_word (by decide) h)
  | character hn hbraces => exact hflat (.character hn hbraces) (level_character hn)
  | escape hedge h =>
    refine hflat (.escape hedge h) ?_
    rcases h with ⟨t, hback, h⟩
    exact level_of_passesEscape hback ((retailsEscape_atomEscape (Or.inl rfl)).passesEscape h)
  | backslash hmode hback hc hletter =>
    exact hflat (.backslash hmode hback hc hletter) (level_backslash hback hc)
  | characterClass h => exact hflat (.characterClass h) (level_characterClass h)
  | group hopen _ hclose ih =>
    rcases ih with ⟨height, hle, h, hnests⟩
    exact ⟨height + 1, by omega, .group hopen h hclose,
      .labelled List.mem_cons_self hopen hnests hclose⟩
  | capture hopen _ hclose ih =>
    rcases ih with ⟨height, hle, h, hnests⟩
    exact ⟨height + 1, by omega, .capture hopen h hclose,
      .group hopen (.refl false _) hnests hclose⟩
  | namedCapture hopen hname _ hclose ih =>
    rcases ih with ⟨height, hle, h, hnests⟩
    rcases (word_append (v := ['(']) (w := ['?'])).1 hopen with ⟨s, hparen, hmark⟩
    have hpasses := (passes_word (by decide) hmark).trans
      ((retails_groupName fun _ => Or.inl rfl).passes hname)
    exact ⟨height + 1, by omega, .namedCapture hopen hname h hclose,
      .group hparen (level_of_passes hpasses false) hnests hclose⟩

/-! ## Limits -/

theorem depth_of_derives {limit : Nat} {text : List CodeUnit}
    (h : Derives mode limit .disjunction e (decode mode text) []) :
    depth text ≤ limit ∧ Derives mode (depth text) .disjunction e (decode mode text) [] := by
  rcases exists_nests_of_derives h with ⟨height, hle, h, hnests⟩
  have hdepth : depth text = height := by
    have hmax : depthFrom id {} 0 (decode mode text) = max (0 + height) 0 := hnests 0
    rw [depth, ← depthFrom_decode mode, hmax]
    omega
  rw [hdepth]
  exact ⟨hle, h⟩

theorem isPattern_iff_depth_le (σ : Settings) (limit : UInt64) (text : List CodeUnit)
    (hle : σ.nestingLimit ≤ limit) :
    isPattern σ text = true ↔
      isPattern { σ with nestingLimit := limit } text = true ∧
        depth text ≤ σ.nestingLimit.toNat := by
  have hle : σ.nestingLimit.toNat ≤ limit.toNat := hle
  rw [isPattern_iff_saturated, isPattern_iff_saturated]
  constructor
  · rintro ⟨e, h, hnames, hsound⟩
    exact ⟨⟨e, h.mono hle, hnames, hsound⟩, (depth_of_derives h).1⟩
  · rintro ⟨⟨e, h, hnames, hsound⟩, hdepth⟩
    exact ⟨e, (depth_of_derives h).2.mono hdepth, hnames, hsound⟩

/-- A limit is exact: a pattern is accepted if it is accepted with the largest limit and is no
deeper than its own. So a larger limit only accepts more, and a run that reaches the limit anywhere
does not accept. -/
theorem accepts_iff_depth_le (options : Options) (pattern : String) :
    (accepts options pattern = true ↔
      accepts { options with nestingLimit := 0xFFFFFFFFFFFFFFFF } pattern = true ∧
        depth (encode pattern.toList) ≤ options.nestingLimit.toNat) ∧
    (∀ limit, options.nestingLimit ≤ limit → accepts options pattern = true →
      accepts { options with nestingLimit := limit } pattern = true) ∧
    ∀ limit offset, .nestingLimit limit offset ∈ (inspect options pattern).state.log →
      accepts options pattern = false := by
  have hmax : options.nestingLimit ≤ 0xFFFFFFFFFFFFFFFF := by
    rw [UInt64.le_iff_toNat_le]
    exact Nat.le_of_lt_succ options.nestingLimit.toNat_lt
  have hexact (limit : UInt64) (hle : options.nestingLimit ≤ limit) :=
    isPattern_iff_depth_le options.settings limit (encode pattern.toList) hle
  refine ⟨hexact _ hmax, fun limit hle h => ((hexact limit hle).1 h).1, ?_⟩
  intro limit offset hmem
  rw [← Bool.not_eq_true]
  intro h
  rw [log_eq_nil_of_accepts h] at hmem
  contradiction

theorem accepts_depth_two :
    let pattern := "(?:a(?=[(])|\\((?<b>c))d"
    (2 : UInt64) ≤ 3 ∧ accepts { nestingLimit := 2 } pattern = true ∧
      accepts { nestingLimit := 3 } pattern = true ∧ depth (encode pattern.toList) ≤ 2 ∧
      .nestingLimit 1 7 ∈ (inspect { nestingLimit := 1 } pattern).state.log ∧
      accepts { nestingLimit := 1 } pattern = false := by
  intro pattern
  have hle : (2 : UInt64) ≤ 3 := by decide
  have haccepts : accepts { nestingLimit := 2 } pattern = true := by decide +kernel
  have hlog : .nestingLimit 1 7 ∈ (inspect { nestingLimit := 1 } pattern).state.log := by
    decide +kernel
  rcases accepts_iff_depth_le { nestingLimit := 2 } pattern with ⟨hexact, hmono, -⟩
  rcases accepts_iff_depth_le { nestingLimit := 1 } pattern with ⟨-, -, hreached⟩
  exact ⟨hle, haccepts, hmono 3 hle haccepts, (hexact.1 haccepts).2, hlog, hreached 1 7 hlog⟩

end EcmaPattern.Scan
