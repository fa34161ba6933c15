import EcmaPattern.Proofs.Evidence
import EcmaPattern.Proofs.Language.CharacterClass
import EcmaPattern.Proofs.Language.Quantifier

namespace EcmaPattern.Language

open Form

/-! # The language of patterns -/

/-- The nonterminals of a pattern. -/
inductive Symbol
  | disjunction
  | alternative
  | term
  | assertion
  | lookahead
  | atom

/-- What a quantifier may follow: an atom, and in legacy mode a look-ahead. -/
def Quantifiable : Mode → Symbol → Prop
  | .unicode, x => x = .atom
  | .legacy, x => x = .atom ∨ x = .lookahead

theorem quantifiable_atom (mode : Mode) : Quantifiable mode .atom := by
  cases mode with
  | unicode => rfl
  | legacy => exact Or.inl rfl

/-- The edges of a text, of a line or of a word. -/
def edges : List (List Char) := [['^'], ['$'], ['\\', 'b'], ['\\', 'B']]

theorem edges_iff {p : Text} : (∃ w ∈ edges, ∃ t, word w p t) ↔
    (∃ c ∈ ['^', '$'], ∃ t, word [c] p t) ∨ ∃ c ∈ ['b', 'B'], ∃ t, word ['\\', c] p t := by
  simp [edges, or_assoc]

/-- A backslash starts no edge but one of a word. -/
theorem not_edge_of_escape {p t : Text} (hback : word ['\\'] p t)
    (ht : ∀ c ∈ ['b', 'B'], ¬ ∃ r, word [c] t r) : ¬ ∃ w ∈ edges, ∃ r, word w p r := by
  rw [edges_iff]
  rintro (⟨c, hc, r, hp⟩ | ⟨c, hc, r, hp⟩)
  · exact not_word_of_mem hp hc (by decide) hback
  · exact ht c hc ⟨r, word_rest hback hp⟩

/-- In Unicode mode no escape is the edge of a word. -/
theorem not_edge_of_atomEscape {p t : Text} (hback : word ['\\'] p t)
    (h : (AtomEscape .unicode).Applies t) : ¬ ∃ w ∈ edges, ∃ r, word w p r := by
  refine not_edge_of_escape hback fun c hc hword => ?_
  rcases h with ⟨e, q, R, hR, h⟩
  rcases hword with ⟨r, rfl⟩
  refine (apart_atomEscapes.opens hR).not_applies ?_ ⟨e, q, h⟩
  clear hback h
  revert c
  decide

/-- The derivations of the grammar in which at most `room` groups are open at once. A derivation
gathers what it says about groups and references; a group counts where it closes. -/
inductive Derives (mode : Mode) : Nat → Symbol → Form Evidence
  -- disjunctions: alternatives with bars between them
  | single {room : Nat} {e : Evidence} {p q : Text} :
      Derives mode room .alternative e p q → Derives mode room .disjunction e p q
  | bar {room : Nat} {e f : Evidence} {p t t' q : Text} :
      Derives mode room .alternative e p t → word ['|'] t t' →
      Derives mode room .disjunction f t' q → Derives mode room .disjunction (e ++ f) p q
  -- alternatives: terms one after the other
  | nil {room : Nat} {p : Text} : Derives mode room .alternative {} p p
  | cons {room : Nat} {e f : Evidence} {p t q : Text} :
      Derives mode room .term e p t → Derives mode room .alternative f t q →
      Derives mode room .alternative (e ++ f) p q
  -- terms; in legacy mode a quantifier is always taken where there is one
  | assertion {room : Nat} {e : Evidence} {p q : Text} :
      Derives mode room .assertion e p q → Derives mode room .term e p q
  | plain {room : Nat} {x : Symbol} {e : Evidence} {p q : Text} :
      Quantifiable mode x → Derives mode room x e p q →
      (mode = .legacy → ¬ ∃ r, Quantifier q r) → Derives mode room .term e p q
  | quantified {room : Nat} {x : Symbol} {e : Evidence} {p t q : Text} :
      Quantifiable mode x → Derives mode room x e p t → Quantifier t q →
      Derives mode room .term e p q
  -- assertions
  | edge {room : Nat} {w : List Char} {p q : Text} :
      w ∈ edges → word w p q → Derives mode room .assertion {} p q
  | lookbehind {room : Nat} {w : List Char} {e : Evidence} {p t r q : Text} :
      w ∈ [['(', '?', '<', '='], ['(', '?', '<', '!']] → word w p t →
      Derives mode room .disjunction e t r → word [')'] r q →
      Derives mode (room + 1) .assertion e p q
  -- in Unicode mode a look-ahead is an assertion as any other
  | strictLookahead {room : Nat} {e : Evidence} {p q : Text} :
      mode = .unicode → Derives mode room .lookahead e p q → Derives mode room .assertion e p q
  -- look-aheads, which legacy mode lets be quantified
  | lookahead {room : Nat} {w : List Char} {e : Evidence} {p t r q : Text} :
      w ∈ [['(', '?', '='], ['(', '?', '!']] → word w p t →
      Derives mode room .disjunction e t r → word [')'] r q →
      Derives mode (room + 1) .lookahead e p q
  -- atoms
  | dot {room : Nat} {p q : Text} : word ['.'] p q → Derives mode room .atom {} p q
  -- in legacy mode no character stands for itself where bounds in braces start
  | character {room : Nat} {n : Nat} {q : Text} :
      n ∉ Text.ofWord (syntaxCharacters mode) → (mode = .legacy → ¬ Braces.Applies (n :: q)) →
      Derives mode room .atom {} (n :: q) q
  -- in legacy mode an edge of a word takes precedence
  | escape {room : Nat} {e : Evidence} {p q : Text} :
      (mode = .legacy → ¬ ∃ w ∈ edges, ∃ r, word w p r) →
      after ['\\'] (AtomEscape mode) e p q → Derives mode room .atom e p q
  -- a backslash before a `c` that starts no escape stands for itself
  | backslash {room : Nat} {p q t : Text} :
      mode = .legacy → word ['\\'] p q → word ['c'] q t → ¬ t.StartsWith Char.isAlpha →
      Derives mode room .atom {} p q
  | characterClass {room : Nat} {p q : Text} :
      CharacterClass mode p q → Derives mode room .atom {} p q
  | group {room : Nat} {e : Evidence} {p t r q : Text} :
      word ['(', '?', ':'] p t → Derives mode room .disjunction e t r → word [')'] r q →
      Derives mode (room + 1) .atom e p q
  | capture {room : Nat} {e : Evidence} {p t r q : Text} :
      word ['('] p t → Derives mode room .disjunction e t r → word [')'] r q →
      Derives mode (room + 1) .atom (e ++ { groups := 1 }) p q
  | namedCapture {room : Nat} {name : String} {e : Evidence} {p s t r q : Text} :
      word ['(', '?'] p s → GroupName mode name s t → Derives mode room .disjunction e t r →
      word [')'] r q → Derives mode (room + 1) .atom (e ++ { groups := 1, names := [name] }) p q

variable {mode : Mode} {room : Nat} {x : Symbol} {e : Evidence} {p q : Text}

/-! ## First characters -/

/-- The nonterminals of a single term or a part of one. -/
def Symbol.IsSingle : Symbol → Prop
  | .disjunction | .alternative => False
  | _ => True

theorem Quantifiable.isSingle (h : Quantifiable mode x) : x.IsSingle := by
  cases mode with
  | unicode =>
    obtain rfl := h
    trivial
  | legacy => rcases h with rfl | rfl <;> trivial

/-- What a term starts with: a character that opens an assertion or an atom, or one that stands for
itself. -/
def StartsTerm (mode : Mode) (p : Text) : Prop :=
  (∃ c ∈ ['^', '$', '\\', '(', '.', '['], ∃ t, word [c] p t) ∨
    ∃ n t, p = n :: t ∧ n ∉ Text.ofWord (syntaxCharacters mode)

theorem startsTerm_of_word {c : Char} {w : List Char} (h : word (c :: w) p q)
    (hc : c ∈ ['^', '$', '\\', '(', '.', '[']) : StartsTerm mode p :=
  Or.inl ⟨c, hc, _, h⟩

theorem startsTerm_of_derives (hx : x.IsSingle) (h : Derives mode room x e p q) :
    StartsTerm mode p := by
  -- a term with a quantifier starts as what is quantified does, so this is an induction as well
  induction h with
  | single => exact hx.elim
  | bar => exact hx.elim
  | nil => exact hx.elim
  | cons => exact hx.elim
  | assertion _ ih => exact ih trivial
  | plain hq _ _ ih => exact ih hq.isSingle
  | quantified hq _ _ ih => exact ih hq.isSingle
  | edge hw h =>
    simp only [edges, List.mem_cons, List.not_mem_nil, or_false] at hw
    rcases hw with rfl | rfl | rfl | rfl <;> exact startsTerm_of_word h (by decide)
  | lookbehind hw h =>
    simp only [List.mem_cons, List.not_mem_nil, or_false] at hw
    rcases hw with rfl | rfl <;> exact startsTerm_of_word h (by decide)
  | strictLookahead _ _ ih => exact ih trivial
  | lookahead hw h =>
    simp only [List.mem_cons, List.not_mem_nil, or_false] at hw
    rcases hw with rfl | rfl <;> exact startsTerm_of_word h (by decide)
  | dot h => exact startsTerm_of_word h (by decide)
  | character hn => exact Or.inr ⟨_, _, rfl, hn⟩
  | escape _ h =>
    rcases h with ⟨t, h, -⟩
    exact startsTerm_of_word h (by decide)
  | backslash _ h => exact startsTerm_of_word h (by decide)
  | characterClass h =>
    rcases bracket_of_characterClass h with ⟨t, h⟩
    exact startsTerm_of_word h (by decide)
  | group h => exact startsTerm_of_word h (by decide)
  | capture h => exact startsTerm_of_word h (by decide)
  | namedCapture h => exact startsTerm_of_word h (by decide)

/-- The characters that no term starts with. -/
def termEnds (mode : Mode) : List Char := ['|', ')'] ++ quantifierStarts mode

theorem disjoint_termEnds : ∀ c ∈ termEnds mode, c ∉ ['^', '$', '\\', '(', '.', '['] := by
  cases mode <;> decide

theorem termEnds_subset : ∀ c ∈ termEnds mode, c ∈ syntaxCharacters mode := by
  cases mode <;> decide

theorem not_startsTerm {c : Char} (hc : c ∈ termEnds mode) (h : word [c] p q) :
    ¬ StartsTerm mode p := by
  intro h
  rcases h with ⟨d, hd, t, ht⟩ | ⟨n, t, rfl, hn⟩
  · obtain rfl : c = d := Char.toNat_inj.1 (List.cons.inj (h.symm.trans ht)).1
    exact disjoint_termEnds c hc hd
  · rcases List.cons.inj h with ⟨rfl, -⟩
    exact hn (Text.mem_ofWord.2 (termEnds_subset c hc))

theorem StartsTerm.endsTerm (h : StartsTerm mode p) : EndsTerm mode p := by
  intro c hc h
  rcases h with ⟨t, ht⟩
  exact not_startsTerm (List.mem_append_right _ hc) ht h

/-- Only the empty alternative stands where no term starts. -/
theorem eq_of_alternative (hp : ¬ StartsTerm mode p) (h : Derives mode room .alternative e p q) :
    e = {} ∧ q = p := by
  cases h with
  | nil => exact ⟨rfl, rfl⟩
  | cons hterm _ => exact absurd (startsTerm_of_derives (x := .term) trivial hterm) hp

theorem endsTerm_of_alternative (h : Derives mode room .alternative e p q)
    (hq : EndsTerm mode q) : EndsTerm mode p := by
  cases h with
  | nil => exact hq
  | cons hterm _ => exact (startsTerm_of_derives (x := .term) trivial hterm).endsTerm

theorem eq_of_disjunction (hp : ¬ StartsTerm mode p) (hbar : ¬ ∃ t, word ['|'] p t)
    (h : Derives mode room .disjunction e p q) : e = {} ∧ q = p := by
  cases h with
  | single h => exact eq_of_alternative hp h
  | bar h hword _ =>
    rcases eq_of_alternative hp h with ⟨-, rfl⟩
    exact absurd ⟨_, hword⟩ hbar

/-! ## Room -/

/-- What is derived with few groups open at once is derived where more may be open. -/
theorem Derives.mono (h : Derives mode room x e p q) {room' : Nat} (hroom : room ≤ room') :
    Derives mode room' x e p q := by
  induction h generalizing room' with
  | single _ ih => exact .single (ih hroom)
  | bar _ hbar _ ih ih' => exact .bar (ih hroom) hbar (ih' hroom)
  | nil => exact .nil
  | cons _ _ ih ih' => exact .cons (ih hroom) (ih' hroom)
  | assertion _ ih => exact .assertion (ih hroom)
  | plain hx _ hnone ih => exact .plain hx (ih hroom) hnone
  | quantified hx _ hquantifier ih => exact .quantified hx (ih hroom) hquantifier
  | edge hw h => exact .edge hw h
  | strictLookahead hmode _ ih => exact .strictLookahead hmode (ih hroom)
  | dot h => exact .dot h
  | character hn hbraces => exact .character hn hbraces
  | escape hedge h => exact .escape hedge h
  | backslash hmode hback hc hletter => exact .backslash hmode hback hc hletter
  | characterClass h => exact .characterClass h
  -- a group takes one of the groups that may be open
  | lookbehind hw hopen _ hclose ih =>
    cases room' with
    | zero => omega
    | succ room' => exact .lookbehind hw hopen (ih (by omega)) hclose
  | lookahead hw hopen _ hclose ih =>
    cases room' with
    | zero => omega
    | succ room' => exact .lookahead hw hopen (ih (by omega)) hclose
  | group hopen _ hclose ih =>
    cases room' with
    | zero => omega
    | succ room' => exact .group hopen (ih (by omega)) hclose
  | capture hopen _ hclose ih =>
    cases room' with
    | zero => omega
    | succ room' => exact .capture hopen (ih (by omega)) hclose
  | namedCapture hopen hname _ hclose ih =>
    cases room' with
    | zero => omega
    | succ room' => exact .namedCapture hopen hname (ih (by omega)) hclose

/-! ## Lengths -/

theorem length_of_derives (h : Derives mode room x e p q) :
    q.length ≤ p.length ∧ (x.IsSingle → q.length < p.length) := by
  induction h with
  | single _ ih => exact ⟨ih.1, False.elim⟩
  | bar _ hword _ ih ih' =>
    have := length_lt_of_word hword
    exact ⟨by omega, False.elim⟩
  | nil => exact ⟨Nat.le_refl _, False.elim⟩
  | cons _ _ ih ih' => exact ⟨by omega, False.elim⟩
  | assertion _ ih => exact ⟨ih.1, fun _ => ih.2 trivial⟩
  | plain hq _ _ ih => exact ⟨ih.1, fun _ => ih.2 hq.isSingle⟩
  | quantified hq _ hquantifier ih =>
    have := length_lt_of_quantifier hquantifier
    exact ⟨by omega, fun _ => by omega⟩
  | edge hw h =>
    have hpos : ∀ w ∈ edges, 0 < w.length := by decide
    have := hpos _ hw
    have := length_of_word h
    exact ⟨by omega, fun _ => by omega⟩
  | lookbehind _ h _ hclose ih =>
    have := length_of_word h
    have := length_lt_of_word hclose
    exact ⟨by omega, fun _ => by omega⟩
  | strictLookahead _ _ ih => exact ih
  | lookahead _ h _ hclose ih =>
    have := length_of_word h
    have := length_lt_of_word hclose
    exact ⟨by omega, fun _ => by omega⟩
  | dot h =>
    have := length_lt_of_word h
    exact ⟨by omega, fun _ => this⟩
  | character hn => simp
  | escape _ h =>
    have := shrinks_atomEscape.after _ _ _ _ h
    exact ⟨by omega, fun _ => this⟩
  | backslash _ h _ _ =>
    have := length_lt_of_word h
    exact ⟨by omega, fun _ => this⟩
  | characterClass h =>
    have := length_lt_of_characterClass h
    exact ⟨by omega, fun _ => this⟩
  | group h _ hclose ih =>
    have := length_of_word h
    have := length_lt_of_word hclose
    exact ⟨by omega, fun _ => by omega⟩
  | capture h _ hclose ih =>
    have := length_of_word h
    have := length_lt_of_word hclose
    exact ⟨by omega, fun _ => by omega⟩
  | namedCapture h hname _ hclose ih =>
    have := length_of_word h
    have := shrinks_groupName _ _ _ hname
    have := length_lt_of_word hclose
    exact ⟨by omega, fun _ => by omega⟩

/-- A group takes two characters at least, its parentheses. -/
theorem groups_of_derives (h : Derives mode room x e p q) :
    2 * e.groups + q.length ≤ p.length := by
  -- each case adds up the characters that its parts take; only captures add to the groups
  induction h with
  | single _ ih => exact ih
  | bar _ hword _ ih ih' =>
    have := length_of_word hword
    simp only [Evidence.groups_append]
    omega
  | nil => simp
  | cons _ _ ih ih' =>
    simp only [Evidence.groups_append]
    omega
  | assertion _ ih => exact ih
  | plain _ _ _ ih => exact ih
  | quantified _ _ hquantifier ih =>
    have := length_lt_of_quantifier hquantifier
    omega
  | edge _ h =>
    have := length_of_word h
    simp only [Nat.mul_zero]
    omega
  | lookbehind _ h _ hclose ih =>
    have := length_of_word h
    have := length_lt_of_word hclose
    omega
  | strictLookahead _ _ ih => exact ih
  | lookahead _ h _ hclose ih =>
    have := length_of_word h
    have := length_lt_of_word hclose
    omega
  | dot h =>
    have := length_lt_of_word h
    simp only [Nat.mul_zero]
    omega
  | character hn => simp
  | escape _ h =>
    have := shrinks_atomEscape.after _ _ _ _ h
    rcases h with ⟨t, -, h⟩
    rw [groups_of_atomEscape h]
    omega
  | backslash _ h _ _ =>
    have := length_lt_of_word h
    simp only [Nat.mul_zero]
    omega
  | characterClass h =>
    have := length_lt_of_characterClass h
    simp only [Nat.mul_zero]
    omega
  | group h _ hclose ih =>
    have := length_of_word h
    have := length_lt_of_word hclose
    omega
  | capture h _ hclose ih =>
    have := length_of_word h
    have := length_of_word hclose
    simp only [Evidence.groups_append, List.length_cons, List.length_nil] at *
    omega
  | namedCapture h hname _ hclose ih =>
    have := length_of_word h
    have := shrinks_groupName _ _ _ hname
    have := length_lt_of_word hclose
    simp only [Evidence.groups_append, List.length_cons, List.length_nil] at *
    omega

/-- Each name is that of a group, which counts. -/
theorem names_le_groups (h : Derives mode room x e p q) : e.names.length ≤ e.groups := by
  induction h with
  | single _ ih | assertion _ ih | plain _ _ _ ih | quantified _ _ _ ih | lookbehind _ _ _ _ ih
  | strictLookahead _ _ ih | lookahead _ _ _ _ ih | group _ _ _ ih => exact ih
  | bar _ _ _ ih ih' | cons _ _ ih ih' =>
    rw [Evidence.names_append, List.length_append, Evidence.groups_append]
    exact Nat.add_le_add ih ih'
  | nil | edge | dot | character | backslash | characterClass => exact Nat.le_refl _
  | escape _ h =>
    rcases h with ⟨_, -, h⟩
    rw [(no_group_of_atomEscape h).2]
    exact Nat.zero_le _
  | capture _ _ _ ih =>
    rw [Evidence.names_append, List.length_append, Evidence.groups_append]
    exact Nat.add_le_add ih (Nat.zero_le _)
  | namedCapture _ _ _ _ ih =>
    rw [Evidence.names_append, List.length_append, Evidence.groups_append]
    exact Nat.add_le_add ih (Nat.le_refl _)

end EcmaPattern.Language
