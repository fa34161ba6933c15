import EcmaPattern.Proofs.Acceptance
import EcmaPattern.Proofs.Language.Relaxation
import EcmaPattern.Proofs.Writing

namespace EcmaPattern

open CodeUnit Form

/-! # The order of ranges

Each end of a range may be written in many ways, and each way is read by a form of its own. What
counts are the characters that the words stand for: a range is a pattern if and only if they are in
order.
-/

namespace Language

/-- The words that stand for the character `n` in a class after a backslash. -/
inductive ClassEscapeWord (mode : Mode) : Nat → List Char → Prop
  | control {c : Char} {n : Nat} : (c, n) ∈ ('b', 0x08) :: controls → ClassEscapeWord mode n [c]
  | controlLetter {letter : Char} :
      letter.isAlpha = true → ClassEscapeWord mode (letter.toNat % 32) ['c', letter]
  | hex {digits : List Char} :
      IsHex 2 digits → ClassEscapeWord mode (Numeral.value 16 digits) ('x' :: digits)
  | unicode {n : Nat} {w : List Char} : UnicodeWord mode n w → ClassEscapeWord mode n w
  /-- Only legacy mode has digits and the low line after a `c`. -/
  | classControl {c : Char} :
      mode = .legacy → (c.isDigit || c == '_') = true →
      ClassEscapeWord mode (c.toNat % 32) ['c', c]
  /-- Only legacy mode has octal digits. -/
  | octal {first : Char} {more : List Char} :
      mode = .legacy → Numeral.isOctalDigit first = true →
      (∀ d ∈ more, Numeral.isOctalDigit d = true) →
      more.length ≤ (if first ≤ '3' then 2 else 1) →
      ClassEscapeWord mode (Numeral.value 8 (first :: more)) (first :: more)

/-- The words that stand for the character `n` in a class: the character itself, which legacy mode
has only below 10000, and its escapes. -/
inductive ClassWord (mode : Mode) : Nat → List Char → Prop
  | literal {c : Char} :
      c ∉ [']', '\\'] → (mode = .legacy → c.toNat < 0x10000) → ClassWord mode c.toNat [c]
  | escaped {n : Nat} {w : List Char} : ClassEscapeWord mode n w → ClassWord mode n ('\\' :: w)

/-- A place where an atom of a range ends: before the dash, or before the bracket. -/
def EndsAtom (p : Text) : Prop := ∃ c ∈ ['-', ']'], ∃ t, word [c] p t

variable {mode : Mode} {n a b : Nat} {v w : List Char} {p q r s t : Text}

/-! ## Words are whole -/

theorem ClassEscapeWord.ascii (h : ClassEscapeWord mode n w) : ∀ c ∈ w, c.toNat < 0x80 := by
  cases h with
  | @control c _ h =>
    have hall : ∀ d ∈ ('b', 0x08) :: controls, d.1.toNat < 0x80 := by decide
    simpa using hall _ h
  | @controlLetter letter h => simpa using Grammar.isAscii_isAlpha letter h
  | hex h =>
    rw [List.forall_mem_cons]
    exact ⟨by decide, ascii_of_hex h.2⟩
  | unicode h => exact h.ascii
  | @classControl c _ h => simpa using Grammar.isAscii_classControl c h
  | octal _ hfirst hmore _ =>
    rw [List.forall_mem_cons]
    exact ⟨Grammar.isAscii_isOctalDigit _ hfirst,
      fun d hd => Grammar.isAscii_isOctalDigit d (hmore d hd)⟩

theorem ClassWord.whole (h : ClassWord mode n w) : Whole mode w := by
  cases h with
  | literal _ hc => exact whole_singleton hc
  | escaped h =>
    apply whole_of_ascii
    rw [List.forall_mem_cons]
    exact ⟨by decide, h.ascii⟩

/-! ## Words are atoms -/

theorem EndsAtom.not_startsWith {P : Char → Bool} (hq : EndsAtom q)
    (hP : ∀ c ∈ ['-', ']'], P c = false) : ¬ q.StartsWith P := by
  rcases hq with ⟨c, hc, t, h⟩
  exact not_startsWith_of_word h (hP c hc)

/-- The escapes of one character that both modes read in the same way in classes. -/
theorem classEscape_of_common {R : Form Nat}
    (hR : R ∈ [control, controlLetter, hex, UnicodeEscape mode]) (h : R n p q) :
    ClassEscape mode (some n) p q := by
  simp only [List.mem_cons, List.not_mem_nil, or_false] at hR
  cases mode with
  | unicode =>
    refine ⟨R.map some, ?_, n, rfl, h⟩
    rcases hR with rfl | rfl | rfl | rfl <;> simp [classEscapes]
  | legacy =>
    have hmem : R.map some ∈ earlyClassEscapes := by
      rcases hR with rfl | rfl | rfl | rfl <;> simp [earlyClassEscapes]
    refine classEscape_of_early hmem ?_ ⟨n, rfl, h⟩
    rcases hR with rfl | rfl | rfl | rfl
    · exact opens_control.disjoint opens_classControl (by decide) h
    · exact not_classControl_of_controlLetter h
    · exact Opens.disjoint opens_after opens_classControl (by decide) h
    · exact opens_unicodeEscape.disjoint opens_classControl (by decide) h

theorem classEscape_of_classControl (h : classControl n p q) :
    ClassEscape .legacy (some n) p q :=
  .later (opens_classControl.disjoint opens_written (by decide) h) (.here ⟨n, rfl, h⟩)

/-- Where a zero alone may be read, octal digits are just this zero. -/
theorem null_of_octal (hnull : null.Applies p) (h : octal n p q) : null n p q := by
  rcases hnull with ⟨_, t, rfl, hzero, hdigit⟩
  rcases h with ⟨first, more, t', -, hfirst, ⟨-, hall, -, hmore⟩, rfl⟩
  rcases List.cons.inj (hzero.symm.trans hfirst) with ⟨hchar, rfl⟩
  obtain rfl := Char.toNat_inj.1 hchar
  cases more with
  | nil =>
    obtain rfl : t = q := hmore
    exact ⟨rfl, hzero, hdigit⟩
  | cons d more =>
    have hd : d.isDigit = true := Grammar.isDigit_of_isOctalDigit (hall d List.mem_cons_self)
    exact absurd ⟨d, _, hd, hmore⟩ hdigit

/-- A zero alone is read before octal digits are, with the same value. -/
theorem classEscape_of_octal (h : octal n p q) : ClassEscape .legacy (some n) p q := by
  by_cases hnull : null.Applies p
  · have hzero := null_of_octal hnull h
    have hcontrol := opens_null.disjoint opens_classControl (by decide) hzero
    exact classEscape_of_early (R := null.map some) (by simp [earlyClassEscapes]) hcontrol
      ⟨n, rfl, hzero⟩
  · have hearly : ¬ (First earlyClassEscapes).Applies p := by
      rw [applies_first]
      rintro ⟨R, hR, happlies⟩
      simp only [earlyClassEscapes, List.mem_cons, List.not_mem_nil, or_false] at hR
      rcases hR with rfl | rfl | rfl | rfl | rfl | rfl
      · exact opens_octal.disjoint (opens_setLetter.map _) (by decide) h happlies
      · exact opens_octal.disjoint (opens_control.map _) (by decide) h happlies
      · exact opens_octal.disjoint (opens_controlLetter.map _) (by decide) h happlies
      · exact hnull (applies_map.1 happlies)
      · exact opens_octal.disjoint (opens_after.map _) (by decide) h happlies
      · exact opens_octal.disjoint (opens_unicodeEscape.map _) (by decide) h happlies
    rw [classEscape_legacy]
    exact .later (opens_octal.disjoint opens_written (by decide) h) <|
      .later (opens_octal.disjoint (opens_classControl.map _) (by decide) h) <|
      .later hearly (.here ⟨n, rfl, h⟩)

theorem classEscape_of_backspace (h : word ['b'] p q) : ClassEscape mode (some 0x08) p q := by
  cases mode with
  | unicode => exact ⟨_, List.mem_cons_self, rfl, h⟩
  | legacy => exact .here ⟨rfl, h⟩

/-- Where an atom may end, each word is read with the value that it stands for. -/
theorem ClassEscapeWord.classEscape (hw : ClassEscapeWord mode n w) (h : word w p q)
    (hq : EndsAtom q) : ClassEscape mode (some n) p q := by
  cases hw with
  | @control c _ hc =>
    rcases List.mem_cons.1 hc with heq | hc
    · obtain ⟨rfl, rfl⟩ := Prod.mk.inj heq
      exact classEscape_of_backspace h
    · exact classEscape_of_common (R := Language.control) (by simp) ⟨c, hc, h⟩
  | controlLetter hletter =>
    exact classEscape_of_common (R := Language.controlLetter) (by simp) ⟨_, hletter, rfl, h⟩
  | hex hhex =>
    exact classEscape_of_common (R := Language.hex) (by simp)
      (after_hexDigits_iff.2 ⟨_, hhex, rfl, h⟩)
  | unicode hw =>
    refine classEscape_of_common (R := UnicodeEscape mode) (by simp) (hw.escape h fun _ _ => ?_)
    rcases hq with ⟨c, hc, t, rfl⟩
    have hback : ∀ c ∈ ['-', ']'], c ∉ ['\\'] := by decide
    exact opens_trail.not_applies (hback c hc)
  | classControl hmode hc =>
    subst hmode
    exact classEscape_of_classControl ⟨_, hc, rfl, h⟩
  | @octal first more hmode hfirst hmore hlen =>
    subst hmode
    rcases (word_append (v := [first])).1 h with ⟨t, hword, hrest⟩
    have hstop : ¬ q.StartsWith Numeral.isOctalDigit := hq.not_startsWith (by decide)
    exact classEscape_of_octal
      ⟨first, more, t, hfirst, hword, ⟨hlen, hmore, Or.inr hstop, hrest⟩, rfl⟩

theorem ClassWord.classAtom (hw : ClassWord mode n w) (h : word w p q) (hq : EndsAtom q) :
    ClassAtom mode (some n) p q := by
  cases hw with
  | @literal c hc _ =>
    by_cases hdash : c = '-'
    · subst hdash
      exact .dash h
    · obtain rfl : p = c.toNat :: q := h
      have hnone : c ∉ [']', '-', '\\'] := by simpa [hdash] using hc
      exact .noDash (.character (mt Text.mem_ofWord.1 hnone))
  | escaped hw =>
    rcases (word_append (v := ['\\'])).1 h with ⟨t, hback, hword⟩
    exact .noDash (.escape ⟨t, hback, hw.classEscape hword hq⟩)

/-- Only a caret itself starts with a caret. -/
theorem ClassWord.not_caret (hw : ClassWord mode n w) (hcaret : w ≠ ['^']) (h : word w p q) :
    ¬ ∃ t, word ['^'] p t := by
  rintro ⟨t, ht⟩
  cases hw with
  | @literal c _ _ =>
    have hc : c ≠ '^' := fun heq => hcaret (by rw [heq])
    exact not_word_of_word h hc ht
  | escaped _ => exact not_word_of_word h (by decide) ht

/-! ## One range in a class -/

theorem classAtom_unique {units : List CodeUnit} {u v : Option Nat}
    (h : ClassAtom mode u (decode mode units) p) (h' : ClassAtom mode v (decode mode units) q) :
    u = v ∧ p = q :=
  (Grammar.recognizes_classAtom (σ := { mode }) rfl).unique_character h h'

/-- Digits in braces that count as none are no escape of a class. -/
theorem not_classEscape_of_dvd {digits : List Char} (hcount : 2 ^ 32 ∣ digits.length)
    (hall : ∀ d ∈ digits, Numeral.isHexDigit d = true) (h : word (bracedWord digits) p q) :
    ¬ (ClassEscape .unicode).Applies p := by
  have hzero : UnicodeEscape .unicode (Numeral.value 16 ['0'])
      (Text.ofWord ['u', '{', '0', '}'] ++ []) [] :=
    .braced rfl (by decide) (by decide) rfl (by decide)
  rintro ⟨v, t, R, hR, he⟩
  have hnot : ¬ (UnicodeEscape .unicode).Applies p := not_unicodeEscape_of_dvd hcount hall h
  obtain rfl : p = Text.ofWord (bracedWord digits) ++ q := h
  -- no other escape starts with this letter
  obtain rfl : R = (UnicodeEscape .unicode).map some :=
    Grammar.apart_classEscapes.eq_of_applies hR (by simp [classEscapes]) ⟨v, t, he⟩
      (applies_map.2 ⟨_, [], hzero⟩)
  exact hnot (applies_map.1 ⟨v, t, he⟩)

theorem not_classAtom_of_dvd {digits : List Char} (hcount : 2 ^ 32 ∣ digits.length)
    (hall : ∀ d ∈ digits, Numeral.isHexDigit d = true) (h : word ('\\' :: bracedWord digits) p q) :
    ¬ (ClassAtom .unicode).Applies p := by
  rcases (word_append (v := ['\\'])).1 h with ⟨r, hback, hbraced⟩
  rintro ⟨v, t, hatom⟩
  cases hatom with
  | dash hdash => exact not_word_of_word hback (by decide) hdash
  | noDash hatom =>
    cases hatom with
    | character hn =>
      rcases List.cons.inj hback with ⟨rfl, -⟩
      exact hn (by decide)
    | escape hescape =>
      rcases hescape with ⟨r', hback', hescape⟩
      obtain rfl := word_unique hback hback'
      exact not_classEscape_of_dvd hcount hall hbraced ⟨v, t, hescape⟩
    | backslash hmode => contradiction

/-- Between two atoms a dash makes a range, and its ends are in order. -/
theorem le_of_characterClass {units units' : List CodeUnit}
    (hopen : word ['['] p (decode mode units)) (hcaret : ¬ ∃ t, word ['^'] (decode mode units) t)
    (ha : ClassAtom mode (some a) (decode mode units) t) (hdash : word ['-'] t (decode mode units'))
    (hb : ClassAtom mode (some b) (decode mode units') r) (h : CharacterClass mode p q) :
    a ≤ b := by
  cases h with
  | negated hopen' _ _ =>
    rcases (word_append (v := ['[']) (w := ['^'])).1 hopen' with ⟨_, hopen', hnegated⟩
    rw [word_unique hopen' hopen] at hnegated
    exact absurd ⟨_, hnegated⟩ hcaret
  | plain hopen' _ hranges hclose =>
    rw [word_unique hopen' hopen] at hranges
    rcases Grammar.ranges_iff.1 hranges with rfl | hranges
    · exact absurd hclose (not_close_of_classAtom ha)
    · rcases Grammar.nonempty_iff.1 hranges with ⟨v, t', hv, hrest⟩
      rcases classAtom_unique hv ha with ⟨rfl, rfl⟩
      -- an atom follows the dash and not the bracket, so the dash is no atom itself
      rcases (Grammar.continuesToClose_of_dash hdash).1 ⟨hrest, _, hclose⟩ with
        ⟨rfl, _, hclosed⟩ | ⟨high, r', hhigh, hle, -⟩
      · exact absurd hclosed (not_close_of_classAtom hb)
      · rcases classAtom_unique hhigh hb with ⟨rfl, -⟩
        exact hle

/-- A text that starts with a bracket starts with a class, if anything. -/
theorem characterClass_of_derives {room : Nat} {x : Symbol} {e : Evidence}
    (h : Derives mode room x e p q) (hp : word ['['] p t) (hx : x.IsSingle ∨ p ≠ q) :
    ∃ r, CharacterClass mode p r := by
  -- an alternative or a disjunction may also be empty, and then nothing is known of the text
  induction h with
  | single _ ih => exact ih hp (Or.inr (hx.resolve_left id))
  | bar _ hbar _ ih =>
    refine ih hp (Or.inr ?_)
    rintro rfl
    exact not_word_of_word hp (by decide) hbar
  | nil => exact absurd rfl (hx.resolve_left id)
  | cons _ _ ih => exact ih hp (Or.inl trivial)
  | assertion _ ih => exact ih hp (Or.inl trivial)
  | plain hq _ _ ih => exact ih hp (Or.inl hq.isSingle)
  | quantified hq _ _ ih => exact ih hp (Or.inl hq.isSingle)
  | edge hw h =>
    simp only [edges, List.mem_cons, List.not_mem_nil, or_false] at hw
    rcases hw with rfl | rfl | rfl | rfl <;> exact absurd h (not_word_of_word hp (by decide))
  | lookbehind hw h =>
    simp only [List.mem_cons, List.not_mem_nil, or_false] at hw
    rcases hw with rfl | rfl <;> exact absurd h (not_word_of_word hp (by decide))
  | strictLookahead _ _ ih => exact ih hp (Or.inl trivial)
  | lookahead hw h =>
    simp only [List.mem_cons, List.not_mem_nil, or_false] at hw
    rcases hw with rfl | rfl <;> exact absurd h (not_word_of_word hp (by decide))
  | dot h => exact absurd h (not_word_of_word hp (by decide))
  | character hn =>
    rcases List.cons.inj hp with ⟨rfl, -⟩
    exact absurd (by cases mode <;> decide) hn
  | escape _ h =>
    rcases h with ⟨_, h, -⟩
    exact absurd h (not_word_of_word hp (by decide))
  | backslash _ h => exact absurd h (not_word_of_word hp (by decide))
  | characterClass h => exact ⟨_, h⟩
  | group h => exact absurd h (not_word_of_word hp (by decide))
  | capture h => exact absurd h (not_word_of_word hp (by decide))
  | namedCapture h => exact absurd h (not_word_of_word hp (by decide))

end Language

open EcmaPattern.Language (CharacterClass ClassWord)

/-- A class that is a range from the one word to the other. -/
def rangeWord (A B : List Char) : List Char := ['['] ++ A ++ ['-'] ++ B ++ [']']

variable {σ : Settings} {text : List CodeUnit} {a b : Nat} {A B : List Char}

/-- A text that starts with a bracket is a pattern if it is a class and only if it starts with one.
-/
theorem exists_characterClass_of_isPattern {t : Text} (hopen : word ['['] (decode σ.mode text) t)
    (h : isPattern σ text = true) : ∃ q, CharacterClass σ.mode (decode σ.mode text) q := by
  rw [isPattern_iff_saturated] at h
  rcases h with ⟨e, h, -⟩
  refine Language.characterClass_of_derives h hopen (Or.inr fun hnil => ?_)
  rw [hnil] at hopen
  contradiction

/-- No range starts with digits in braces that count as none. -/
theorem not_accepts_of_dvd (limit : UInt64) {digits : List Char} (hcount : 2 ^ 32 ∣ digits.length)
    (hall : ∀ d ∈ digits, Numeral.isHexDigit d = true) (B : List Char) :
    ¬ accepts { mode := .unicode, nestingLimit := limit }
      (String.ofList (rangeWord ('\\' :: Language.bracedWord digits) B)) = true := by
  let after := encode (['-'] ++ B ++ [']'])
  let low := encode ('\\' :: Language.bracedWord digits) ++ after
  have htext : encode (String.ofList (rangeWord ('\\' :: Language.bracedWord digits) B)).toList =
      encode ['['] ++ low := by
    simp only [String.toList_ofList, rangeWord, encode_append, List.append_assoc, low, after]
  have hascii : ∀ c ∈ '\\' :: Language.bracedWord digits, c.toNat < 0x80 :=
    List.forall_mem_cons.2 ⟨by decide, Language.ascii_bracedWord hall⟩
  have hopen : word ['['] (decode .unicode (encode ['['] ++ low)) (decode .unicode low) :=
    (word_decode_iff (whole_of_ascii (by decide))).2 rfl
  have hlow : word ('\\' :: Language.bracedWord digits) (decode .unicode low)
      (decode .unicode after) := (word_decode_iff (whole_of_ascii hascii)).2 rfl
  rw [accepts, htext]
  intro h
  rcases exists_characterClass_of_isPattern hopen h with ⟨q, hclass⟩
  cases hclass with
  | negated hopen' _ _ =>
    rcases (word_append (v := ['[']) (w := ['^'])).1 hopen' with ⟨t, hopen', hcaret⟩
    obtain rfl := word_unique hopen' hopen
    exact not_word_of_word hlow (by decide) hcaret
  | plain hopen' _ hranges hclose =>
    obtain rfl := word_unique hopen' hopen
    rcases Grammar.ranges_iff.1 hranges with rfl | hranges
    · exact not_word_of_word hlow (by decide) hclose
    · rcases Grammar.nonempty_iff.1 hranges with ⟨v, t, hatom, -⟩
      exact Language.not_classAtom_of_dvd hcount hall hlow ⟨v, t, hatom⟩

/-- A range is accepted if and only if its ends are in order, in whichever ways they are written.
Digits in braces may have any leading zeros, as long as they are not so many that they count as
none. -/
theorem range_accepted_iff (mode : Mode) (limit : UInt64) (hA : ClassWord mode a A)
    (hB : ClassWord mode b B) (hcaret : A ≠ ['^']) :
    accepts { mode, nestingLimit := limit } (String.ofList (rangeWord A B)) = true ↔ a ≤ b := by
  let high := encode B ++ encode [']']
  let low := encode A ++ (encode ['-'] ++ high)
  have htext : encode (String.ofList (rangeWord A B)).toList = encode ['['] ++ low := by
    simp only [String.toList_ofList, rangeWord, encode_append, List.append_assoc, low, high]
  have hopen : word ['['] (decode mode (encode ['['] ++ low)) (decode mode low) :=
    (word_decode_iff (whole_of_ascii (by decide))).2 rfl
  have hlow : word A (decode mode low) (decode mode (encode ['-'] ++ high)) :=
    (word_decode_iff hA.whole).2 rfl
  have hdash : word ['-'] (decode mode (encode ['-'] ++ high)) (decode mode high) :=
    (word_decode_iff (whole_of_ascii (by decide))).2 rfl
  have hhigh : word B (decode mode high) (decode mode (encode [']'])) :=
    (word_decode_iff hB.whole).2 rfl
  have hclose : word [']'] (decode mode (encode [']'])) (decode mode []) :=
    (word_decode_iff (whole_of_ascii (by decide))).2 (List.append_nil _).symm
  -- each word is followed by what ends it, so it is read as the atom that it is written for
  have ha := hA.classAtom hlow ⟨'-', by simp, _, hdash⟩
  have hb := hB.classAtom hhigh ⟨']', by simp, _, hclose⟩
  have hplain := hA.not_caret hcaret hlow
  rw [accepts, htext]
  constructor
  · intro h
    rcases exists_characterClass_of_isPattern hopen h with ⟨q, hclass⟩
    exact Language.le_of_characterClass hopen hplain ha hdash hb hclass
  · intro hle
    rw [decode_nil] at hclose
    have hclass : CharacterClass mode _ [] :=
      .plain hopen hplain (.nonempty (.range ha hdash hb hle .empty)) hclose
    exact isPattern_of_atom (.characterClass hclass)

/-- Two escapes of surrogates before a character that is greater by one, and an octal escape before
a control character that is less by one. -/
theorem range_of_escapes :
    ClassWord .unicode 0x1F600 "\\uD83D\\uDE00".toList ∧ ClassWord .unicode 0x1F601 ['😁'] ∧
      accepts { mode := .unicode, nestingLimit := 0 } "[\\uD83D\\uDE00-😁]" = true ∧
      ClassWord .legacy 0x20 ['\\', '4', '0'] ∧ ClassWord .legacy 0x1F ['\\', 'c', '_'] ∧
      accepts { mode := .legacy, nestingLimit := 0 } "[\\40-\\c_]" = false := by
  have hlead : Language.IsHex 4 ['D', '8', '3', 'D'] := by decide
  have htrail : Language.IsHex 4 ['D', 'E', '0', '0'] := by decide
  have hpair : ClassWord .unicode _ ('\\' :: Language.pairWord _ _) :=
    .escaped (.unicode (.pair rfl hlead htrail (by decide) (by decide)))
  have hliteral : ClassWord .unicode '😁'.toNat ['😁'] := .literal (by decide) (by decide)
  have hoctal : ClassWord .legacy (Numeral.value 8 ['4', '0']) ['\\', '4', '0'] :=
    .escaped (.octal rfl (by decide) (by decide) (by decide))
  have hcontrol : ClassWord .legacy ('_'.toNat % 32) ['\\', 'c', '_'] :=
    .escaped (.classControl rfl (by decide))
  have hordered := range_accepted_iff .unicode 0 hpair hliteral (by decide)
  have hreversed := range_accepted_iff .legacy 0 hoctal hcontrol (by decide)
  exact ⟨hpair, hliteral, hordered.2 (by decide), hoctal, hcontrol,
    Bool.eq_false_iff.2 (mt hreversed.1 (by decide))⟩

/-- The ends are in order, but where the zeros of the lower one count as none it is not read. -/
theorem range_of_uncounted_zeros :
    let zeros := List.replicate (2 ^ 32) '0'
    let range := String.ofList (rangeWord ('\\' :: Language.bracedWord zeros) ['a'])
    Numeral.value 16 zeros ≤ 'a'.toNat ∧
      accepts { mode := .unicode, nestingLimit := 256 } range = false := by
  intro zeros range
  have hcount : 2 ^ 32 ∣ zeros.length := ⟨1, List.length_replicate⟩
  have hall : ∀ d ∈ zeros, Numeral.isHexDigit d = true :=
    fun d => Numeral.isHexDigit_of_mem_zeros
  have hvalue : Numeral.value 16 zeros = 0 := Numeral.value_zeros 16 (2 ^ 32)
  constructor
  · rw [hvalue]
    exact Nat.zero_le _
  · rw [Bool.eq_false_iff]
    exact not_accepts_of_dvd 256 hcount hall ['a']

end EcmaPattern
