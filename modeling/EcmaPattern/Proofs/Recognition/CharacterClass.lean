import EcmaPattern.Proofs.Recognition.AtomEscape

namespace EcmaPattern.Grammar

open CodeUnit Form Reader Recognizer
open EcmaPattern.Language (ClassAtom ClassAtomNoDash ClassEscape ClassRanges MayRange)

/-! # The recognizers of classes recognize the language of classes -/

variable {mode : Mode} {σ : Settings}

/-! ## Escapes -/

/-- A backslash that stands for itself; the form starts after it. -/
def ClassBackslash (mode : Mode) : Form Nat := fun n p q =>
  mode = .legacy ∧ n = '\\'.toNat ∧ (∃ t, word ['c'] p t) ∧ p = q

theorem reads_classBackslash : Reads mode (classBackslash mode) (ClassBackslash mode) := by
  refine ((Reads.of_guard (P := mode = .legacy)).bind fun _ => (reads_word (by decide)).ahead.bind
    fun _ => .of_pure _).congr fun n p q => ?_
  constructor
  · intro h
    rcases h with ⟨hmode, rfl, ⟨t, h⟩, rfl⟩
    exact ⟨(), p, ⟨hmode, rfl⟩, (), p, ⟨⟨(), t, h⟩, rfl⟩, rfl, rfl⟩
  · intro h
    rcases h with ⟨_, _, ⟨hmode, rfl⟩, _, _, ⟨⟨_, t, h⟩, rfl⟩, rfl, rfl⟩
    exact ⟨hmode, rfl, ⟨t, h⟩, rfl⟩

theorem traceless_written {c : Char} (hc : c.toNat < 0x80) (n : Nat) :
    Traceless mode .character (character (wordAs [c] n)) (Language.written c n) := by
  refine (Traceless.character (reads_wordAs (by simpa using hc) n)).congr fun v p q => ?_
  constructor
  · intro h
    rcases h with ⟨rfl, h⟩
    exact ⟨n, rfl, rfl, h⟩
  · intro h
    rcases h with ⟨_, rfl, rfl, h⟩
    exact ⟨rfl, h⟩

theorem apart_classEscapes : Apart (Language.classEscapes .unicode)
    (['b'] ++ (['-'] ++ (['d', 'D', 's', 'S', 'w', 'W'] ++ (['p', 'P'] ++
      (['f', 'n', 'r', 't', 'v'] ++ (['c'] ++ (['0'] ++ (['x'] ++ (['u'] ++
        ('/' :: Language.syntaxCharacters .unicode ++ [])))))))))) :=
  .cons Language.opens_written (by decide) <| .cons Language.opens_written (by decide) <|
  .cons (Language.opens_setLetter.map _) (by decide) <|
  .cons (Language.opens_property.map _) (by decide) <|
  .cons (Language.opens_control.map _) (by decide) <|
  .cons (Language.opens_controlLetter.map _) (by decide) <|
  .cons (Language.opens_null.map _) (by decide) <|
  .cons (opens_after.map _) (by decide) <|
  .cons (Language.opens_unicodeEscape.map _) (by decide) <|
  .cons (Language.opens_identity.map _) (by decide) .nil

/-- The forms of an escape in a class, in the order in which they are tried. -/
def triedClassEscapes : Mode → List (Form (Option Nat))
  | .unicode =>
    [Language.written 'b' 0x08, Language.written '-' '-'.toNat,
      (First (setForms .unicode)).as none, (First (characterForms .unicode)).map some]
  | .legacy =>
    [Language.written 'b' 0x08, Language.classControl.map some,
      (First (setForms .legacy)).as none, (First (characterForms .legacy)).map some,
      Language.written 'k' 'k'.toNat]

theorem first_triedClassEscapes (mode : Mode) :
    First (triedClassEscapes mode) = ClassEscape mode := by
  rw [ClassEscape, choice_eq_first fun h => h ▸ apart_classEscapes]
  cases mode with
  | unicode =>
    rw [triedClassEscapes, as, map_first, map_first]
    exact first_cons_congr (first_cons_congr first_pair)
  | legacy =>
    rw [triedClassEscapes, as, map_first, map_first]
    exact first_cons_congr (first_cons_congr ((first_cons_congr first_first).trans first_first))

theorem apart_characters_backslash : Apart [(First (characterForms .unicode)).map some,
    (ClassBackslash .unicode).map some] (['f', 'n', 'r', 't', 'v'] ++ (['c'] ++ (['0'] ++ (['x'] ++
      (['u'] ++ ('/' :: Language.syntaxCharacters .unicode ++ []))))) ++ ([] ++ [])) :=
  .cons (apart_characterForms.opens_first.map _) (by decide) <|
  .cons (by rintro _ p q ⟨n, -, hmode, -⟩; contradiction) (by decide) .nil

theorem recognizes_classEscape (hmode : σ.mode = mode) :
    Recognizes mode .character (anyOf (classEscapeForms σ ++ [character (classBackslash mode)]))
      (First [ClassEscape mode, (ClassBackslash mode).map some]) := by
  have hcharacter : Traceless mode .character (character (characterEscape mode)) _ :=
    .character reads_characterEscape
  have hbackslash : Traceless mode .character (anyOf [character (classBackslash mode)]) _ :=
    Traceless.anyOf_cons (.character reads_classBackslash) .anyOf_nil
  rw [← first_triedClassEscapes, first_first]
  cases mode with
  | legacy =>
    rw [classEscapeForms, hmode]
    exact ((traceless_written (by decide) _).anyOf_cons <|
      (Traceless.character reads_classControlEscape).anyOf_cons <|
      (traceless_setEscape hmode).anyOf_cons <| hcharacter.anyOf_cons <|
      (traceless_written (by decide) _).anyOf_cons hbackslash).recognizes
  | unicode =>
    rw [classEscapeForms, hmode]
    exact (traceless_written (by decide) _).anyOf_first <|
      (traceless_written (by decide) _).anyOf_first <|
      recognizes_anyOf_setEscape hmode (recognizes_setEscape hmode) rfl
        (hcharacter.anyOf_cons hbackslash).recognizes apart_characters_backslash.opens_first
        (by decide)

/-! ## Class atoms -/

theorem applies_classEscape_iff {p t : Text} (h : word ['c'] p t) :
    (ClassEscape .legacy).Applies p ↔ t.StartsWith Language.followsControl := by
  obtain rfl : p = 'c'.toNat :: t := h
  constructor
  · intro happ
    rcases applies_first.1 happ with ⟨R, hR, happ⟩
    simp only [Language.classEscapes, List.mem_cons, List.not_mem_nil, or_false] at hR
    -- two of the escapes start with a `c`, and all others with a different character
    rcases hR with rfl | rfl | rfl | rfl | rfl | rfl | rfl | rfl | rfl | rfl | rfl
    · exact absurd happ (Language.opens_written.not_applies (by decide))
    · rcases applies_map.1 happ with ⟨n, q, c, hc, -, h⟩
      exact ⟨c, q, Bool.or_eq_true_iff.2 (Or.inr hc), (List.cons.inj h).2⟩
    · exact absurd (applies_map.1 happ) (Language.opens_setLetter.not_applies (by decide))
    · exact absurd (applies_map.1 happ) (Language.opens_control.not_applies (by decide))
    · rcases applies_map.1 happ with ⟨n, q, c, hc, -, h⟩
      exact ⟨c, q, Bool.or_eq_true_iff.2 (Or.inl hc), (List.cons.inj h).2⟩
    · exact absurd (applies_map.1 happ) (Language.opens_null.not_applies (by decide))
    · exact absurd (applies_map.1 happ) (opens_after.not_applies (by decide))
    · exact absurd (applies_map.1 happ) (Language.opens_unicodeEscape.not_applies (by decide))
    · rcases applies_map.1 happ with ⟨n, q, d, more, r, hd, h, -⟩
      obtain rfl : d = 'c' := Char.toNat_inj.1 (List.cons.inj h).1.symm
      exact absurd hd (by decide)
    · rcases applies_map.1 happ with ⟨n, q, h, hn⟩
      rcases List.cons.inj h with ⟨rfl, -⟩
      exact absurd hn (by decide)
    · exact absurd happ (Language.opens_written.not_applies (by decide))
  · intro h
    rcases h with ⟨c, q, hc, rfl⟩
    apply applies_first.2
    rcases Bool.or_eq_true_iff.1 hc with hc | hc
    · exact ⟨Language.controlLetter.map some, by simp [Language.classEscapes], _, q, _, rfl, c, hc,
        rfl, rfl⟩
    · exact ⟨Language.classControl.map some, by simp [Language.classEscapes], _, q, _, rfl, c, hc,
        rfl, rfl⟩

theorem first_classEscape_iff {v : Option Nat} {p q : Text} :
    First [ClassEscape mode, (ClassBackslash mode).map some] v p q ↔
      ClassEscape mode v p q ∨ mode = .legacy ∧ v = some '\\'.toNat ∧ p = q ∧
        ∃ t, word ['c'] p t ∧ ¬ t.StartsWith Language.followsControl := by
  rw [first_cons, first_singleton]
  refine or_congr_right ?_
  constructor
  · intro h
    rcases h with ⟨hnone, n, rfl, rfl, rfl, ⟨t, h⟩, rfl⟩
    exact ⟨rfl, rfl, rfl, t, h, mt (applies_classEscape_iff h).2 hnone⟩
  · intro h
    rcases h with ⟨rfl, rfl, rfl, t, h, hstop⟩
    exact ⟨mt (applies_classEscape_iff h).1 hstop, _, rfl, rfl, rfl, ⟨t, h⟩, rfl⟩

theorem isClassCharacter_iff {n : Nat} :
    isClassCharacter n = true ↔ n ∉ Text.ofWord [']', '-', '\\'] := by
  simp [isClassCharacter, Text.ofWord, and_assoc]

theorem recognizes_classAtomNoDash (hmode : σ.mode = mode) :
    Recognizes mode .character (classAtomNoDash σ) (ClassAtomNoDash mode) := by
  have hescape := (Recognizes.reading (reads_word (w := ['\\']) (by decide)) fun _ =>
    recognizes_classEscape hmode).attempt σ.rollback
  rw [classAtomNoDash, hmode]
  refine ((Traceless.character (reads_codePointIf _)).anyOf_first
    (hescape.anyOf_last.congr fun _ _ _ => by rw [first_singleton])).congr fun v p q => ?_
  rw [first_cons, first_singleton]
  have hnone {t : Text} (h : word ['\\'] p t) : ¬ Applies
      (Form.map some fun n p q => isClassCharacter n = true ∧ p = n :: q) p := by
    intro h
    rcases h with ⟨_, _, n, -, hn, hp⟩
    rcases List.cons.inj (hp.symm.trans h) with ⟨rfl, -⟩
    exact absurd hn (by decide)
  constructor
  · intro h
    cases h with
    | character hn => exact Or.inl ⟨_, rfl, isClassCharacter_iff.2 hn, rfl⟩
    | escape h =>
      rcases h with ⟨t, hword, h⟩
      exact Or.inr ⟨hnone hword, (), t, hword, first_classEscape_iff.2 (Or.inl h)⟩
    | @backslash _ _ t hmode hword hc hstop =>
      exact Or.inr ⟨hnone hword, (), q, hword,
        first_classEscape_iff.2 (Or.inr ⟨hmode, rfl, rfl, t, hc, hstop⟩)⟩
  · intro h
    rcases h with ⟨n, rfl, hn, rfl⟩ | ⟨-, _, t, hword, h⟩
    · exact .character (isClassCharacter_iff.1 hn)
    · rcases first_classEscape_iff.1 h with h | ⟨hmode, rfl, rfl, r, hc, hstop⟩
      · exact .escape ⟨t, hword, h⟩
      · exact .backslash hmode hword hc hstop

theorem recognizes_classAtom (hmode : σ.mode = mode) :
    Recognizes mode .character (classAtom σ) (ClassAtom mode) := by
  rw [classAtom]
  refine ((traceless_written (c := '-') (by decide) '-'.toNat).anyOf_first
    ((recognizes_classAtomNoDash hmode).anyOf_last.congr fun _ _ _ => by
      rw [first_singleton])).congr fun v p q => ?_
  rw [first_cons, first_singleton]
  constructor
  · intro h
    cases h with
    | dash h => exact Or.inl ⟨rfl, h⟩
    | noDash h =>
      refine Or.inr ⟨?_, h⟩
      intro h
      rcases h with ⟨_, t, -, hdash⟩
      exact Language.not_word_of_classAtomNoDash h (by decide) hdash
  · intro h
    rcases h with ⟨rfl, h⟩ | ⟨-, h⟩
    · exact .dash h
    · exact .noDash h

/-! ## Ranges -/

/-- What may follow a class atom up to `q`: nothing, or more atoms and ranges, or the rest of a
range that starts with the atom. -/
def Continues (mode : Mode) (v : Option Nat) (p q : Text) : Prop :=
  p = q ∨ ClassRanges mode .nonemptyNoDash p q ∨ ∃ t high r, word ['-'] p t ∧
    ClassAtom mode high t r ∧ MayRange mode v high ∧ ClassRanges mode .ranges r q

theorem nonempty_iff {p q : Text} :
    ClassRanges mode .nonempty p q ↔ ∃ v t, ClassAtom mode v p t ∧ Continues mode v t q := by
  constructor
  · intro h
    cases h with
    | single h => exact ⟨_, q, h, Or.inl rfl⟩
    | cons h hrest => exact ⟨_, _, h, Or.inr (Or.inl hrest)⟩
    | range hlow hdash hhigh hmay hrest =>
      exact ⟨_, _, hlow, Or.inr (Or.inr ⟨_, _, _, hdash, hhigh, hmay, hrest⟩)⟩
  · intro h
    rcases h with ⟨v, t, h, rfl | hrest | ⟨t', high, r, hdash, hhigh, hmay, hrest⟩⟩
    · exact .single h
    · exact .cons h hrest
    · exact .range h hdash hhigh hmay hrest

theorem ranges_iff {p q : Text} :
    ClassRanges mode .ranges p q ↔ p = q ∨ ClassRanges mode .nonempty p q := by
  constructor
  · intro h
    cases h with
    | empty => exact Or.inl rfl
    | nonempty h => exact Or.inr h
  · intro h
    rcases h with rfl | h
    · exact .empty
    · exact .nonempty h

/-- Where no dash stands, the next atom is none. -/
theorem nonemptyNoDash_iff {p q : Text} (hp : ¬ ∃ t, word ['-'] p t) :
    ClassRanges mode .nonemptyNoDash p q ↔
      ∃ v t, ClassAtomNoDash mode v p t ∧ Continues mode v t q := by
  constructor
  · intro h
    cases h with
    | last h =>
      cases h with
      | dash h => exact absurd ⟨q, h⟩ hp
      | noDash h => exact ⟨_, q, h, Or.inl rfl⟩
    | consNoDash h hrest => exact ⟨_, _, h, Or.inr (Or.inl hrest)⟩
    | rangeNoDash hlow hdash hhigh hmay hrest =>
      exact ⟨_, _, hlow, Or.inr (Or.inr ⟨_, _, _, hdash, hhigh, hmay, hrest⟩)⟩
  · intro h
    rcases h with ⟨v, t, h, rfl | hrest | ⟨t', high, r, hdash, hhigh, hmay, hrest⟩⟩
    · exact .last (.noDash h)
    · exact .consNoDash h hrest
    · exact .rangeNoDash h hdash hhigh hmay hrest

/-- After a dash only the dash itself can be the last atom. -/
theorem nonemptyNoDash_of_dash {p q t : Text} (hp : word ['-'] p t) :
    ClassRanges mode .nonemptyNoDash p q ↔ q = t := by
  have hno {v : Option Nat} {r : Text} : ¬ ClassAtomNoDash mode v p r := fun h =>
    Language.not_word_of_classAtomNoDash h (by decide) hp
  constructor
  · intro h
    cases h with
    | last h =>
      cases h with
      | dash h => exact word_unique h hp
      | noDash h => exact absurd h hno
    | consNoDash h _ => exact absurd h hno
    | rangeNoDash h _ _ _ _ => exact absurd h hno
  · intro heq
    subst heq
    exact .last (.dash hp)

/-- The place where a class ends. -/
def AtClose (p : Text) : Prop := ∃ t, word [']'] p t

theorem nonempty_of_close {p q : Text} (h : AtClose p) : ¬ ClassRanges mode .nonempty p q := by
  rcases h with ⟨t, h⟩
  rw [nonempty_iff]
  intro h
  rcases h with ⟨v, r, hatom, -⟩
  exact Language.not_close_of_classAtom hatom h

theorem ranges_of_close {p q : Text} (h : AtClose p) : ClassRanges mode .ranges p q ↔ p = q := by
  rw [ranges_iff, or_iff_left (nonempty_of_close h)]

theorem continues_of_close {v : Option Nat} {p q : Text} (h : AtClose p) :
    Continues mode v p q ↔ p = q := by
  rcases h with ⟨t, h⟩
  have hdash : ¬ ∃ r, word ['-'] p r := by
    intro h
    rcases h with ⟨r, hr⟩
    exact not_word_of_word h (by decide) hr
  constructor
  · intro h
    rcases h with h | hrest | ⟨r, -, -, hr, -⟩
    · exact h
    · rcases (nonemptyNoDash_iff hdash).1 hrest with ⟨w, r, hatom, -⟩
      exact absurd h (Language.not_word_of_classAtomNoDash hatom (by decide))
    · exact absurd ⟨r, hr⟩ hdash
  · exact Or.inl

theorem isRange_iff {low high : Outcome} :
    isRange mode low high = true ↔ MayRange mode low.codePoint? high.codePoint? := by
  unfold isRange MayRange
  cases low.codePoint? <;> cases high.codePoint? <;> simp

/-! ## The loop over class atoms -/

/-- What follows an atom in a class, up to `q`, where the class ends. -/
def ContinuesToClose (mode : Mode) (v : Option Nat) (p q : Text) : Prop :=
  Continues mode v p q ∧ AtClose q

theorem continuesToClose_of_close {v : Option Nat} {p q : Text} (h : AtClose p) :
    ContinuesToClose mode v p q ↔ q = p := by
  rw [ContinuesToClose, continues_of_close h]
  constructor
  · intro h
    rcases h with ⟨rfl, -⟩
    rfl
  · intro heq
    subst heq
    exact ⟨rfl, h⟩

theorem continuesToClose_of_noDash {v : Option Nat} {p q : Text} (hp : ¬ AtClose p)
    (hdash : ¬ ∃ t, word ['-'] p t) :
    ContinuesToClose mode v p q ↔
      ∃ w t, ClassAtomNoDash mode w p t ∧ ContinuesToClose mode w t q := by
  constructor
  · intro h
    rcases h with ⟨rfl | hrest | ⟨t, -, -, ht, -⟩, hq⟩
    · exact absurd hq hp
    · rcases (nonemptyNoDash_iff hdash).1 hrest with ⟨w, t, hatom, hrest⟩
      exact ⟨w, t, hatom, hrest, hq⟩
    · exact absurd ⟨t, ht⟩ hdash
  · intro h
    rcases h with ⟨w, t, hatom, hrest, hq⟩
    exact ⟨Or.inr (Or.inl ((nonemptyNoDash_iff hdash).2 ⟨w, t, hatom, hrest⟩)), hq⟩

theorem continuesToClose_of_dash {v : Option Nat} {p q t : Text} (ht : word ['-'] p t) :
    ContinuesToClose mode v p q ↔ q = t ∧ AtClose q ∨ ∃ high r, ClassAtom mode high t r ∧
      MayRange mode v high ∧ ClassRanges mode .ranges r q ∧ AtClose q := by
  constructor
  · intro h
    rcases h with ⟨rfl | hrest | ⟨t', high, r, ht', hatom, hmay, hrest⟩, hq⟩
    · rcases hq with ⟨r, hr⟩
      exact absurd hr (not_word_of_word ht (by decide))
    · exact Or.inl ⟨(nonemptyNoDash_of_dash ht).1 hrest, hq⟩
    · obtain rfl := word_unique ht' ht
      exact Or.inr ⟨high, r, hatom, hmay, hrest, hq⟩
  · intro h
    rcases h with ⟨rfl, hq⟩ | ⟨high, r, hatom, hmay, hrest, hq⟩
    · exact ⟨Or.inr (Or.inl ((nonemptyNoDash_of_dash ht).2 rfl)), hq⟩
    · exact ⟨Or.inr (Or.inr ⟨t, high, r, ht, hatom, hmay, hrest⟩), hq⟩

section Loop

variable {bound : List CodeUnit} {low : Outcome} {s : State} {rest : List CodeUnit}

theorem isAt_close_iff (mode : Mode) : s.isAt [']'] = true ↔ AtClose (decode mode s.rest) :=
  isPrefixOf_encode_iff (by decide)

theorem classRangesFrom_of_noMatch (h : low.isMatch = false) :
    (classRangesFrom σ bound low s).1.isMatch = false := by
  cases bound with
  | nil => rfl
  | cons u bound =>
    simp only [classRangesFrom, h, Bool.not_false, if_true]
    rfl

theorem classRangesFrom_of_close {u : CodeUnit} (h : low.isMatch = true)
    (hat : s.isAt [']'] = true) : classRangesFrom σ (u :: bound) low s = (.matched, s) := by
  simp [classRangesFrom, h, hat]

theorem classRangesFrom_of_noDash {u : CodeUnit} (h : low.isMatch = true)
    (hat : s.isAt [']'] = false) (hdash : (Reader.word ['-']).run s.rest = none) :
    classRangesFrom σ (u :: bound) low s =
      classRangesFrom σ bound (classAtomNoDash σ s).1 (classAtomNoDash σ s).2 := by
  simp [classRangesFrom, h, hat, hdash]

theorem classRangesFrom_of_lastDash {u : CodeUnit} (h : low.isMatch = true)
    (hat : s.isAt [']'] = false) (hdash : (Reader.word ['-']).run s.rest = some ((), rest))
    (hat' : ({ s with rest } : State).isAt [']'] = true) :
    classRangesFrom σ (u :: bound) low s = (.matched, { s with rest }) := by
  simp [classRangesFrom, h, hat, hdash, hat']

/-- What the loop does after the dash of a range. -/
def rangeFrom (σ : Settings) (bound : List CodeUnit) (low : Outcome) : Recognizer := fun s =>
  let high := classAtom σ s
  if !high.1.isMatch || !isRange σ.mode low high.1 then
    (.noMatch, high.2)
  else if high.2.isAt [']'] then
    (.matched, high.2)
  else
    classRangesFrom σ bound (classAtom σ high.2).1 (classAtom σ high.2).2

theorem classRangesFrom_of_range {u : CodeUnit} (h : low.isMatch = true)
    (hat : s.isAt [']'] = false) (hdash : (Reader.word ['-']).run s.rest = some ((), rest))
    (hat' : ({ s with rest } : State).isAt [']'] = false) :
    classRangesFrom σ (u :: bound) low s = rangeFrom σ bound low { s with rest } := by
  simp [classRangesFrom, rangeFrom, h, hat, hdash, hat']

variable {v : Option Nat} {p : Text}

/-- The loop reads what follows an atom, where `bound` leaves room for the text. -/
def LoopReads (mode : Mode) (σ : Settings) (bound : List CodeUnit) : Prop :=
  ∀ low s v p, low.isMatch = true → low.codePoint? = v → decode mode s.rest = p →
    p.length < bound.length →
    Found mode .evidence s (classRangesFrom σ bound low s) fun e q =>
      e = {} ∧ ContinuesToClose mode v p q

theorem LoopReads.next (h : LoopReads mode σ bound) {r : Outcome × State}
    {Q : Option Nat → Text → Prop} (hr : Found mode .character s r Q)
    (hbound : ∀ v t, Q v t → t.length < bound.length) :
    Found mode .evidence s (classRangesFrom σ bound r.1 r.2) fun e q =>
      e = {} ∧ ∃ v t, Q v t ∧ ContinuesToClose mode v t q := by
  have hnext := hr.bind_character (T := fun v t e q => e = {} ∧ ContinuesToClose mode v t q)
    (fun v rest hmatch hv hstate hQ => h _ _ v _ hmatch hv (by rw [hstate]; rfl) (hbound v _ hQ))
    classRangesFrom_of_noMatch
  refine hnext.congr fun e q => ?_
  constructor
  · intro h
    rcases h with ⟨rfl, v, t, hQ, hend⟩
    exact ⟨v, t, hQ, rfl, hend⟩
  · intro h
    rcases h with ⟨v, t, hQ, rfl, hend⟩
    exact ⟨rfl, v, t, hQ, hend⟩

theorem found_rangeFrom (hmode : σ.mode = mode) (ih : LoopReads mode σ bound)
    (hv : low.codePoint? = v) (hp : decode mode s.rest = p) (hbound : p.length ≤ bound.length) :
    Found mode .evidence s (rangeFrom σ bound low s) fun e q => ∃ high r,
      ClassAtom mode high p r ∧ e = {} ∧ MayRange mode v high ∧ ClassRanges mode .ranges r q ∧
        AtClose q := by
  have hatom := recognizes_classAtom hmode s
  rw [hp] at hatom
  refine hatom.bind_character (fun high rest hmatch hhigh hstate hr => ?_) fun hnone => ?_
  · have hshrinks := Language.shrinks_classAtom _ _ _ hr
    have hrest : (classAtom σ s).2.rest = rest := by rw [hstate]; rfl
    have hrange : isRange σ.mode low (classAtom σ s).1 = true ↔ MayRange mode v high := by
      rw [isRange_iff, hmode, hv, hhigh]
    by_cases hmay : MayRange mode v high
    · -- after a range the loop starts over, unless the class ends there
      cases hat : (classAtom σ s).2.isAt [']'] with
      | true =>
        have hend := (isAt_close_iff mode).1 hat
        have heq : rangeFrom σ bound low s = (.matched, (classAtom σ s).2) := by
          simp [rangeFrom, hmatch, hrange.2 hmay, hat]
        rw [hrest] at hend
        rw [heq]
        refine (Found.here (m := .evidence) (o := .matched) (a := {}) rfl trivial rfl).congr
          fun e q => ?_
        rw [ranges_of_close hend, hrest]
        constructor
        · intro h
          rcases h with ⟨rfl, -, rfl, -⟩
          exact ⟨rfl, rfl⟩
        · intro h
          rcases h with ⟨rfl, rfl⟩
          exact ⟨rfl, hmay, rfl, hend⟩
      | false =>
        have hopen := mt (isAt_close_iff mode).2 (by rw [hat]; decide)
        have heq : rangeFrom σ bound low s =
            classRangesFrom σ bound (classAtom σ (classAtom σ s).2).1
              (classAtom σ (classAtom σ s).2).2 := by
          simp [rangeFrom, hmatch, hrange.2 hmay, hat]
        rw [hrest] at hopen
        rw [heq]
        have hnext := recognizes_classAtom hmode (classAtom σ s).2
        rw [hrest] at hnext
        refine (ih.next hnext fun w t ht => ?_).congr fun e q => ?_
        · have := Language.shrinks_classAtom _ _ _ ht
          omega
        · constructor
          · intro h
            rcases h with ⟨rfl, -, h, hend⟩
            rcases ranges_iff.1 h with rfl | h
            · exact absurd hend hopen
            · rcases nonempty_iff.1 h with ⟨w, t, hatom, hrest⟩
              exact ⟨rfl, w, t, hatom, hrest, hend⟩
          · intro h
            rcases h with ⟨rfl, w, t, hatom, hrest, hend⟩
            exact ⟨rfl, hmay, ranges_iff.2 (Or.inr (nonempty_iff.2 ⟨w, t, hatom, hrest⟩)), hend⟩
    · have heq : rangeFrom σ bound low s = (.noMatch, (classAtom σ s).2) := by
        simp [rangeFrom, mt hrange.1 hmay]
      rw [heq]
      exact .noMatch rfl fun e q h => hmay h.2.1
  · simp only [rangeFrom, hnone]
    rfl

theorem loopReads (hmode : σ.mode = mode) (bound : List CodeUnit) : LoopReads mode σ bound := by
  -- each round takes an atom, a last dash or a range; the text after it is shorter than the bound
  induction bound with
  | nil => exact fun _ _ _ _ _ _ _ hbound => absurd hbound (Nat.not_lt_zero _)
  | cons u bound ih =>
    intro low s v p hlow hv hp hbound
    cases hat : s.isAt [']'] with
    | true =>
      have hclose : AtClose p := hp ▸ (isAt_close_iff mode).1 hat
      rw [classRangesFrom_of_close hlow hat]
      refine (Found.here (m := .evidence) (o := .matched) (a := {}) rfl trivial rfl).congr
        fun e q => ?_
      rw [continuesToClose_of_close hclose, hp]
    | false =>
      have hopen : ¬ AtClose p := by
        rw [← hp, ← isAt_close_iff mode, hat]
        decide
      cases hdash : (Reader.word ['-']).run s.rest with
      | none =>
        have hno : ¬ ∃ t, word ['-'] p t := by
          intro h
          rcases h with ⟨t, ht⟩
          rw [← hp] at ht
          exact (reads_word (by decide)).run_eq_none_iff.1 hdash ⟨(), t, ht⟩
        have hatom := recognizes_classAtomNoDash hmode s
        rw [hp] at hatom
        rw [classRangesFrom_of_noDash hlow hat hdash]
        refine (ih.next hatom fun w t ht => ?_).congr fun e q => ?_
        · have := Language.shrinks_classAtomNoDash _ _ _ ht
          simp only [List.length_cons] at hbound
          omega
        · rw [continuesToClose_of_noDash hopen hno]
      | some found =>
        rcases found with ⟨_, rest⟩
        have hrest : word ['-'] p (decode mode rest) := hp ▸ (reads_word (by decide)).sound hdash
        have hle : (decode mode rest).length ≤ bound.length := by
          have := length_lt_of_word hrest
          simp only [List.length_cons] at hbound
          omega
        cases hat' : ({ s with rest } : State).isAt [']'] with
        | true =>
          have hclose := (isAt_close_iff mode).1 hat'
          rw [classRangesFrom_of_lastDash hlow hat hdash hat']
          refine (Found.here (m := .evidence) (o := .matched) (a := {}) rfl trivial rfl).moved.congr
            fun e q => and_congr_right fun _ => ?_
          rw [continuesToClose_of_dash hrest]
          constructor
          · intro h
            -- before the closing bracket no atom stands, so the dash is the last one
            rcases h with ⟨rfl, -⟩ | ⟨high, r, hatom, -⟩
            · rfl
            · rcases hclose with ⟨t, ht⟩
              exact absurd ht (Language.not_close_of_classAtom hatom)
          · intro heq
            subst heq
            exact Or.inl ⟨rfl, hclose⟩
        | false =>
          have hopen' := mt (isAt_close_iff mode).2 (by rw [hat']; decide)
          rw [classRangesFrom_of_range hlow hat hdash hat']
          refine (found_rangeFrom hmode ih hv rfl hle).moved.congr fun e q => ?_
          rw [continuesToClose_of_dash hrest]
          constructor
          · intro h
            rcases h with ⟨rfl, ⟨rfl, hq⟩ | ⟨high, r, hatom, hmay, hranges, hq⟩⟩
            · exact absurd hq hopen'
            · exact ⟨high, r, hatom, rfl, hmay, hranges, hq⟩
          · intro h
            rcases h with ⟨high, r, hatom, rfl, hmay, hranges, hq⟩
            exact ⟨rfl, Or.inr ⟨high, r, hatom, hmay, hranges, hq⟩⟩

end Loop

/-! ## Classes -/

theorem recognizes_classRanges (hmode : σ.mode = mode) :
    Recognizes mode .evidence (classRanges σ) fun e p q =>
      e = {} ∧ ClassRanges mode .nonempty p q ∧ AtClose q := by
  intro s
  refine ((loopReads hmode s.rest).next (recognizes_classAtom hmode s) fun v t h => ?_).congr
    fun e q => and_congr_right fun _ => ?_
  · have := Language.shrinks_classAtom _ _ _ h
    have := length_decode_le mode s.rest
    omega
  · rw [nonempty_iff]
    constructor
    · intro h
      rcases h with ⟨⟨v, t, h, hrest⟩, hq⟩
      exact ⟨v, t, h, hrest, hq⟩
    · intro h
      rcases h with ⟨v, t, h, hrest, hq⟩
      exact ⟨⟨v, t, h, hrest⟩, hq⟩

/-- What stands in a class, closing bracket included. -/
def ClassBody (mode : Mode) (p q : Text) : Prop :=
  ∃ r, ClassRanges mode .ranges p r ∧ word [']'] r q

theorem recognizes_classBody (hmode : σ.mode = mode) :
    Recognizes mode .evidence
      (anyOf [plain (Reader.word [']']), (classRanges σ).followedBy (plain (Reader.word [']']))])
      fun e p q => e = {} ∧ ClassBody mode p q := by
  have hclose : Traceless mode .evidence (plain (Reader.word [']'])) _ :=
    .plain_evidence (reads_word (by decide))
  have hranges := (recognizes_classRanges hmode).followedBy_evidence hclose.recognizes
  refine (hclose.anyOf_first (hranges.anyOf_last.congr fun _ _ _ => by
    rw [first_singleton])).congr fun e p q => ?_
  rw [first_cons, first_singleton]
  constructor
  · intro h
    rcases h with ⟨rfl, r, h, hr⟩
    rcases ranges_iff.1 h with rfl | h
    · exact Or.inl ⟨(), rfl, hr⟩
    · refine Or.inr ⟨?_, {}, {}, r, rfl, ⟨rfl, h, q, hr⟩, (), rfl, hr⟩
      intro h
      rcases h with ⟨_, t, _, -, ht⟩
      exact nonempty_of_close ⟨t, ht⟩ h
  · intro h
    rcases h with ⟨_, rfl, h⟩ | ⟨-, _, _, r, rfl, ⟨rfl, h, -⟩, _, rfl, hr⟩
    · exact ⟨rfl, p, .empty, h⟩
    · exact ⟨by simp, r, .nonempty h, hr⟩

/-- The bracket that opens a class, and a caret if there is one. -/
def ClassStart : Form (Option Unit) := after ['['] fun o p q =>
  (∃ u, word ['^'] p q ∧ o = some u) ∨ (¬ ∃ t, word ['^'] p t) ∧ o = none ∧ p = q

theorem reads_classStart :
    Reads mode (Reader.word ['['] *> optional (Reader.word ['^'])) ClassStart := by
  refine reads_after (by decide) ((reads_word (by decide)).optional.congr fun o p q => ?_)
  exact or_congr_right (and_congr_left fun _ => not_congr
    ⟨fun ⟨t, ht⟩ => ⟨(), t, ht⟩, fun ⟨_, t, ht⟩ => ⟨t, ht⟩⟩)

theorem recognizes_characterClass (hmode : σ.mode = mode) :
    Recognizes mode .evidence (characterClass σ) fun e p q =>
      e = {} ∧ Language.CharacterClass mode p q := by
  refine ((Recognizes.reading reads_classStart fun _ =>
    recognizes_classBody hmode).attempt σ.rollback).congr fun e p q => ?_
  constructor
  · intro h
    rcases h with ⟨rfl, h⟩
    cases h with
    | plain hopen hcaret hranges hclose =>
      exact ⟨none, _, ⟨_, hopen, Or.inr ⟨hcaret, rfl, rfl⟩⟩, rfl, _, hranges, hclose⟩
    | negated hopen hranges hclose =>
      obtain ⟨s, hbracket, hcaret⟩ := (word_append (v := ['[']) (w := ['^'])).1 hopen
      exact ⟨some (), _, ⟨s, hbracket, Or.inl ⟨(), hcaret, rfl⟩⟩, rfl, _, hranges, hclose⟩
  · intro h
    rcases h with ⟨o, t, ⟨s, hopen, ⟨_, hcaret, -⟩ | ⟨hcaret, -, rfl⟩⟩, rfl, r, hranges, hclose⟩
    · exact ⟨rfl, .negated ((word_append (v := ['[']) (w := ['^'])).2 ⟨s, hopen, hcaret⟩) hranges
        hclose⟩
    · exact ⟨rfl, .plain hopen hcaret hranges hclose⟩

theorem confinedTo_characterClass :
    ConfinedTo mode (fun p => ∃ t, word ['['] p t) (characterClass σ) := by
  apply (ConfinedTo.attempt_reading reads_classStart _ _).mono
  intro p h
  rcases h with ⟨o, q, t, hopen, -⟩
  exact ⟨t, hopen⟩

end EcmaPattern.Grammar
