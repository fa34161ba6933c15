import EcmaPattern.Proofs.Acceptance
import EcmaPattern.Proofs.Scan.Escape

namespace EcmaPattern.Scan

open CodeUnit Form
open EcmaPattern.Language

/-! # Places after a backslash

The scanner knows no grammar, but of every place in a text it knows whether a backslash precedes and
whether a class is open. In a pattern each such place is one where the grammar wants an escape, and
in Unicode mode one stands there: a backslash that is not escaped itself is never read as anything
else.
-/

variable {room : Nat} {x : Symbol} {e : Evidence} {flags flags' flags'' : Flags} {inClass : Bool}
variable {b p q r t : Text}

/-! ## Walks -/

/-- The flags after a text. -/
def Flags.after (flags : Flags) (text : Text) : Flags := text.foldl Flags.next flags

/-- What may follow a backslash in Unicode mode, in a class or outside of one. -/
inductive Escaped : Bool → Text → Prop
  | atom {p : Text} : (AtomEscape .unicode).Applies p → Escaped false p
  /-- The edges of words are assertions. -/
  | edge {c : Char} {p q : Text} : c ∈ ['b', 'B'] → word [c] p q → Escaped false p
  | inClass {p : Text} : (ClassEscape .unicode).Applies p → Escaped true p
  /-- An escape in a name, or the second of two escapes that are one character. -/
  | unit {inClass : Bool} {p q : Text} : word ['u'] p q → Escaped inClass p

/-- Where no edge of a word and no `u` follows, it is an escape of the place. -/
theorem Escaped.applies {c : Char} (h : Escaped inClass (c.toNat :: q)) (hc : c ∉ ['b', 'B', 'u']) :
    (inClass = false → (AtomEscape .unicode).Applies (c.toNat :: q)) ∧
      (inClass = true → (ClassEscape .unicode).Applies (c.toNat :: q)) := by
  have hword : word [c] (c.toNat :: q) q := rfl
  cases h with
  | atom h => exact ⟨fun _ => h, nofun⟩
  | edge hd h =>
    have hmem : _ ∈ ['b', 'B', 'u'] := List.mem_append_left ['u'] hd
    exact absurd hword (not_word_of_mem h hmem hc)
  | inClass h => exact ⟨nofun, fun _ => h⟩
  | unit h =>
    have hmem : 'u' ∈ ['b', 'B', 'u'] := by decide
    exact absurd hword (not_word_of_mem h hmem hc)

/-- The scanner comes from one place to another, and after each backslash that sets its flag follows
what may follow there. -/
inductive Walk : Flags → Text → Flags → Text → Prop
  | refl {flags : Flags} {p : Text} : Walk flags p flags p
  | step {flags flags' : Flags} {n : Nat} {p q : Text} :
      (flags.escaped = true → Escaped flags.inClass (n :: p)) →
      Walk (flags.next n) p flags' q → Walk flags (n :: p) flags' q

theorem Walk.trans (h : Walk flags p flags' t) (h' : Walk flags' t flags'' q) :
    Walk flags p flags'' q := by
  induction h with
  | refl => exact h'
  | step hescaped _ ih => exact .step hescaped (ih h')

/-- What follows a backslash on a walk may follow there. -/
theorem Walk.escaped (h : Walk flags (b ++ r) flags' q) (hlen : q.length < r.length)
    (hescaped : (flags.after b).escaped = true) : Escaped (flags.after b).inClass r := by
  generalize hp : b ++ r = p at h
  induction h generalizing b with
  | refl =>
    subst hp
    rw [List.length_append] at hlen
    omega
  | step hhere _ ih =>
    cases b with
    | nil =>
      obtain rfl : r = _ := hp
      exact hhere hescaped
    | cons m b =>
      obtain ⟨rfl, htail⟩ := List.cons.inj hp
      exact ih hlen hescaped htail

/-! ## Words -/

/-- Outside classes three characters set a flag, in a class two. -/
theorem walk_cons {n : Nat} {cs : List Char} (hn : n ∉ Text.ofWord cs) (hback : '\\' ∈ cs)
    (hbracket : (if inClass then ']' else '[') ∈ cs) :
    Walk { inClass } (n :: q) { inClass } q := by
  refine .step nofun ?_
  rw [next_of_not_mem hn hback hbracket]
  exact .refl

theorem walk_word {w : List Char} (hw : ∀ c ∈ w, c ∉ ['\\', '[']) (h : word w p q) :
    Walk {} p {} q := by
  induction w generalizing p with
  | nil =>
    obtain rfl : p = q := h
    exact .refl
  | cons c w ih =>
    rw [List.forall_mem_cons] at hw
    rcases word_cons.1 h with ⟨t, rfl, ht⟩
    exact (walk_cons (mt Text.mem_ofWord.1 hw.1) (by decide) (by decide)).trans (ih hw.2 ht)

/-- A backslash sets the flag, and the character after it takes it back. -/
theorem walk_escaped {n : Nat} (h : Escaped inClass (n :: q)) :
    Walk { inClass } ('\\'.toNat :: n :: q) { inClass } q := by
  have hset : Flags.next { inClass } '\\'.toNat = { escaped := true, inClass } := by
    cases inClass <;> rfl
  refine .step nofun ?_
  rw [hset]
  exact .step (fun _ => h) .refl

theorem walk_of_passes (h : Passes p q) : Walk { inClass } p { inClass } q := by
  rcases h with ⟨w, hw, h⟩
  induction hw generalizing p with
  | nil =>
    obtain rfl : p = q := h
    exact .refl
  | cons hc _ ih =>
    rcases word_cons.1 h with ⟨t, rfl, ht⟩
    exact (walk_cons (mt Text.mem_ofWord.1 hc) (by decide) (by cases inClass <;> decide)).trans
      (ih ht)
  | escape _ ih =>
    rcases word_cons.1 h with ⟨s, rfl, hs⟩
    rcases word_cons.1 hs with ⟨t, rfl, ht⟩
    exact (walk_escaped (.unit (q := t) rfl)).trans (ih ht)

theorem walk_of_passesEscape (hback : word ['\\'] p t) (h : Escaped inClass t)
    (hskip : PassesEscape t q) : Walk { inClass } p { inClass } q := by
  rcases hskip with ⟨n, s, rfl, hskip⟩
  obtain rfl : p = '\\'.toNat :: n :: s := hback
  exact (walk_escaped h).trans (walk_of_passes hskip)

/-! ## Classes -/

theorem walk_classAtomNoDash {v : Option Nat} (h : ClassAtomNoDash .unicode v p q) :
    Walk { inClass := true } p { inClass := true } q := by
  have hstops : Stops [] := Or.inl rfl
  cases h with
  | character hn => exact walk_cons hn (by decide) (by decide)
  | escape h =>
    rcases h with ⟨t, hback, h⟩
    exact walk_of_passesEscape hback (.inClass ⟨v, q, h⟩)
      ((retailsEscape_classEscape hstops hstops).passesEscape h)
  | backslash hmode => contradiction

theorem walk_dash (h : word ['-'] p q) : Walk { inClass := true } p { inClass := true } q :=
  walk_of_passes (passes_word (by decide) h)

theorem walk_classAtom {v : Option Nat} (h : ClassAtom .unicode v p q) :
    Walk { inClass := true } p { inClass := true } q := by
  cases h with
  | dash h => exact walk_dash h
  | noDash h => exact walk_classAtomNoDash h

theorem walk_classRanges {x : ClassSymbol} (h : ClassRanges .unicode x p q) :
    Walk { inClass := true } p { inClass := true } q := by
  induction h with
  | empty => exact .refl
  | nonempty _ ih => exact ih
  | single h => exact walk_classAtom h
  | cons h _ ih => exact (walk_classAtom h).trans ih
  | range hlow hdash hhigh _ _ ih =>
    exact (walk_classAtom hlow).trans ((walk_dash hdash).trans ((walk_classAtom hhigh).trans ih))
  | last h => exact walk_classAtom h
  | consNoDash h _ ih => exact (walk_classAtomNoDash h).trans ih
  | rangeNoDash hlow hdash hhigh _ _ ih =>
    exact (walk_classAtomNoDash hlow).trans
      ((walk_dash hdash).trans ((walk_classAtom hhigh).trans ih))

/-- A bracket opens a class, and the one after what stands in it closes it. -/
theorem walk_characterClass (h : CharacterClass .unicode p q) : Walk {} p {} q := by
  have hopen {p t : Text} (h : word ['['] p t) : Walk {} p { inClass := true } t := by
    obtain rfl : p = '['.toNat :: t := h
    exact .step nofun .refl
  have hclose {p q : Text} (h : word [']'] p q) : Walk { inClass := true } p {} q := by
    obtain rfl : p = ']'.toNat :: q := h
    exact .step nofun .refl
  cases h with
  | plain h _ hranges h' => exact (hopen h).trans ((walk_classRanges hranges).trans (hclose h'))
  | negated h hranges h' =>
    rcases (word_append (v := ['['])).1 h with ⟨t, hbracket, hcaret⟩
    have hskip : Walk { inClass := true } t { inClass := true } _ :=
      walk_of_passes (passes_word (by decide) hcaret)
    exact (hopen hbracket).trans (hskip.trans ((walk_classRanges hranges).trans (hclose h')))

/-! ## Patterns -/

theorem walk_edge {w : List Char} (hw : w ∈ edges) (h : word w p q) : Walk {} p {} q := by
  have hletter {c : Char} (hc : c ∈ ['b', 'B']) (h : word ['\\', c] p q) : Walk {} p {} q := by
    rcases (word_append (v := ['\\']) (w := [c])).1 h with ⟨t, hback, hword⟩
    exact walk_of_passesEscape hback (.edge hc hword) ⟨_, q, hword, .refl q⟩
  simp only [edges, List.mem_cons, List.not_mem_nil, or_false] at hw
  rcases hw with rfl | rfl | rfl | rfl
  · exact walk_word (by decide) h
  · exact walk_word (by decide) h
  · exact hletter (by decide) h
  · exact hletter (by decide) h

/-- What is derived in Unicode mode has an escape after each backslash. -/
theorem walk_of_derives (h : Derives .unicode room x e p q) : Walk {} p {} q := by
  have hgroup {w : List Char} {p t r q : Text} (hw : ∀ c ∈ w, c ∉ ['\\', '['])
      (hopen : word w p t) (h : Walk {} t {} r) (hclose : word [')'] r q) : Walk {} p {} q :=
    (walk_word hw hopen).trans (h.trans (walk_word (by decide) hclose))
  induction h with
  | single _ ih => exact ih
  | bar _ hbar _ ih ih' => exact ih.trans ((walk_word (by decide) hbar).trans ih')
  | nil => exact .refl
  | cons _ _ ih ih' => exact ih.trans ih'
  | assertion _ ih => exact ih
  | plain _ _ _ ih => exact ih
  | quantified _ _ h ih => exact ih.trans (walk_of_passes (spelled_quantifier.passes (a := ()) h))
  | edge hw h => exact walk_edge hw h
  | lookbehind hw hopen _ hclose ih =>
    have hplain : ∀ w ∈ [['(', '?', '<', '='], ['(', '?', '<', '!']], ∀ c ∈ w, c ∉ ['\\', '['] := by
      decide
    exact hgroup (hplain _ hw) hopen ih hclose
  | strictLookahead _ _ ih => exact ih
  | lookahead hw hopen _ hclose ih =>
    have hplain : ∀ w ∈ [['(', '?', '='], ['(', '?', '!']], ∀ c ∈ w, c ∉ ['\\', '['] := by decide
    exact hgroup (hplain _ hw) hopen ih hclose
  | dot h => exact walk_word (by decide) h
  | character hn _ => exact walk_cons hn (by decide) (by decide)
  | @escape room e p q _ h =>
    rcases h with ⟨t, hback, h⟩
    exact walk_of_passesEscape hback (.atom ⟨e, q, h⟩)
      ((retailsEscape_atomEscape (Or.inl rfl)).passesEscape h)
  | backslash hmode => contradiction
  | characterClass h => exact walk_characterClass h
  | group hopen _ hclose ih => exact hgroup (by decide) hopen ih hclose
  | capture hopen _ hclose ih => exact hgroup (by decide) hopen ih hclose
  | namedCapture hopen hname _ hclose ih =>
    have hskip : Passes _ _ := (retails_groupName fun _ => Or.inl rfl).passes hname
    exact (walk_word (by decide) hopen).trans
      ((walk_of_passes hskip).trans (ih.trans (walk_word (by decide) hclose)))

/-- A backslash that is not escaped itself leaves open whether a class is. -/
theorem after_backslash (hplace : (flags.after b).escaped = false) :
    flags.after (b ++ ['\\'.toNat]) = { escaped := true, inClass := (flags.after b).inClass } := by
  rw [Flags.after, List.foldl_append]
  change (flags.after b).next '\\'.toNat = _
  rw [Flags.next, hplace]
  cases (flags.after b).inClass <;> rfl

/-- In a text that is accepted in Unicode mode an escape follows each backslash that is not escaped
itself. -/
theorem escaped_of_accepts {limit : UInt64} {pattern : String} {before rest : List Char}
    (h : accepts { mode := .unicode, nestingLimit := limit } pattern = true)
    (hsplit : pattern.toList = before ++ '\\' :: rest) (hrest : rest ≠ [])
    (hplace : (Flags.after {} (Text.ofWord before)).escaped = false) :
    Escaped (Flags.after {} (Text.ofWord before)).inClass (Text.ofWord rest) := by
  rw [accepts, isPattern_eq_and, Bool.and_eq_true] at h
  rcases exists_derives_of_match h.1 with ⟨e, hderives, -, -⟩
  have hwalk : Walk {} (decode .unicode (encode pattern.toList)) {} [] := walk_of_derives hderives
  have htext : decode .unicode (encode pattern.toList) =
      (Text.ofWord before ++ ['\\'.toNat]) ++ Text.ofWord rest := by
    rw [decode_unicode_encode, hsplit, Text.ofWord_append, Text.ofWord_cons, List.append_cons]
  have hafter := after_backslash hplace
  rw [htext] at hwalk
  have hescaped := hwalk.escaped (by simpa [List.length_pos_iff] using hrest) (by rw [hafter])
  rwa [hafter] at hescaped

end EcmaPattern.Scan
