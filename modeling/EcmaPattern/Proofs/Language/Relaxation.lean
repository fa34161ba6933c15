import EcmaPattern.Proofs.Language.Tail

namespace EcmaPattern.Language

open Form

/-! # Unicode patterns in legacy mode

Legacy mode derives what Unicode mode derives, and finds the same in it, if the escapes that start
with `u` mean the same in both modes. The derivations differ where a property is escaped: legacy
mode lets the letter escape itself, and the name and its braces are characters as any other.
-/

variable {mode : Mode} {room : Nat} {x : Symbol} {e f : Evidence} {v : Option Nat}
variable {p q r s t : Text} {c : Char} {w : List Char}

/-! ## Portable texts -/

/-- A text in which the escapes of Unicode mode that start with `u` are escapes of legacy mode. -/
def Portable (p : Text) : Prop := ∀ t, t <:+ p → ∀ n q,
  after ['\\'] (UnicodeEscape .unicode) n t q → after ['\\'] (UnicodeEscape .legacy) n t q

theorem Portable.suffix (hp : Portable p) (h : q <:+ p) : Portable q :=
  fun t ht => hp t (ht.trans h)

theorem Portable.word (hp : Portable p) (h : word w p q) : Portable q :=
  hp.suffix ⟨_, h.symm⟩

theorem Portable.passes (hp : Portable p) (h : Passes p q) : Portable q := by
  rcases h with ⟨w, -, h⟩
  exact hp.word h

theorem Portable.passesClass (hp : Portable p) (h : PassesClass p q) : Portable q := by
  have hcons {n : Nat} {p : Text} (hp : Portable (n :: p)) : Portable p :=
    hp.suffix (List.suffix_cons n p)
  induction h with
  | refl => exact hp
  | cons _ _ ih => exact ih (hcons hp)
  | escape _ ih => exact ih (hcons (hcons hp))
  | backslash _ ih => exact ih (hcons hp)

theorem Portable.groupName {name : String} (hp : Portable p)
    (h : GroupName .unicode name p q) : Portable q :=
  hp.passes ((retails_groupName fun _ => Or.inl rfl).passes h)

theorem Portable.classAtom (hp : Portable p) (h : ClassAtom mode v p q) : Portable q :=
  hp.passesClass (passesClass_of_classAtom h .refl)

theorem Portable.derives (hp : Portable p) (h : Derives .unicode room x e p q) : Portable q := by
  have hr : Mode.unicode = .legacy → ¬ ∃ t, Form.word ['c'] q t := nofun
  rcases moves_derives (q := []) hr (Or.inl rfl) h with ⟨w, rfl, -⟩
  exact hp.suffix (List.suffix_append w q)

theorem UnicodeEscape.relax {n : Nat} (hp : Portable p) (hback : Form.word ['\\'] p t)
    (h : UnicodeEscape .unicode n t q) : UnicodeEscape .legacy n t q := by
  rcases hp p (List.suffix_refl p) n q ⟨t, hback, h⟩ with ⟨t', hback', h'⟩
  rwa [word_unique hback hback']

/-! ## Names of groups -/

variable {P : Nat → Bool}

theorem NameCharacter.relax (hp : Portable p) (h : NameCharacter .unicode P c p q) :
    NameCharacter .legacy P c p q := by
  cases h with
  | literal hback hc h => exact .literal hback hc h
  | escaped hc h => exact .escaped hc (hp p (List.suffix_refl p) _ _ h)

theorem Portable.nameCharacter (hP : ∀ c ∈ delimiters, P c.toNat = false) (hp : Portable p)
    (h : NameCharacter .unicode P c p q) : Portable q :=
  hp.passes ((retails_nameCharacter hP fun _ => Or.inl rfl).passes h)

theorem GroupName.relax {name : String} (hp : Portable p) (h : GroupName .unicode name p q) :
    GroupName .legacy name p q := by
  have hrepeats {cs : List Char} {t r : Text} (ht : Portable t)
      (h : Repeats (NameCharacter .unicode Identifier.continuesName) cs t r) :
      Repeats (NameCharacter .legacy Identifier.continuesName) cs t r := by
    induction h with
    | nil => exact .nil
    | cons hc _ ih => exact .cons (hc.relax ht) (ih (ht.nameCharacter (by decide) hc))
  cases h with
  | mk hopen hc hcs hclose =>
    have ht := hp.word hopen
    exact .mk hopen (hc.relax ht) (hrepeats (ht.nameCharacter (by decide) hc) hcs) hclose

/-! ## Escapes outside classes -/

/-- The characters that mean something else than themselves after a backslash in legacy mode. -/
def escapeStarts : List Char :=
  ['0', '1', '2', '3', '4', '5', '6', '7', '8', '9', 'd', 'D', 's', 'S', 'w', 'W',
    'f', 'n', 'r', 't', 'v', 'c', 'x', 'u', 'k', 'b', 'B']

theorem identity_of_not_mem (hc : c ∉ escapeStarts) (q : Text) :
    identity .legacy c.toNat (c.toNat :: q) q := by
  have hsub : ['c', 'k'] ⊆ escapeStarts := by decide
  exact ⟨rfl, fun hmem => hc (hsub (Text.mem_ofWord.1 hmem))⟩

/-- The escapes that legacy mode tries before a character that escapes itself. -/
def earlyAtomEscapes : List (Form Evidence) :=
  [Decimal, setLetter.as {}, control.as {}, controlLetter.as {}, hex.as {},
    (UnicodeEscape .legacy).as {}]

theorem apart_earlyAtomEscapes : Apart earlyAtomEscapes
    (['0', '1', '2', '3', '4', '5', '6', '7', '8', '9'] ++ (['d', 'D', 's', 'S', 'w', 'W'] ++
      (['f', 'n', 'r', 't', 'v'] ++ (['c'] ++ (['x'] ++ (['u'] ++ [])))))) :=
  .cons opens_decimal (by decide) <| .cons (opens_setLetter.map _) (by decide) <|
  .cons (opens_control.map _) (by decide) <| .cons (opens_controlLetter.map _) (by decide) <|
  .cons (opens_after.map _) (by decide) <| .cons (opens_unicodeEscape.map _) (by decide) .nil

theorem atomEscape_legacy : AtomEscape .legacy =
    First [First earlyAtomEscapes, (identity .legacy).as {}, reference .legacy,
      malformedReference] := by
  rw [first_first]
  rfl

theorem atomEscape_of_early {R : Form Evidence} (hR : R ∈ earlyAtomEscapes) (h : R e p q) :
    AtomEscape .legacy e p q := by
  rw [atomEscape_legacy]
  exact .here (apart_earlyAtomEscapes.first_iff.2 ⟨R, hR, h⟩)

theorem atomEscape_of_identity (hc : c ∉ escapeStarts) (q : Text) :
    AtomEscape .legacy {} (c.toNat :: q) q := by
  have hearly : (First earlyAtomEscapes).Opens escapeStarts :=
    apart_earlyAtomEscapes.opens_first.subset (by decide)
  rw [atomEscape_legacy]
  exact .later (hearly.not_applies hc) (.here ⟨_, rfl, identity_of_not_mem hc q⟩)

theorem atomEscape_of_reference (h : reference .legacy e p q) : AtomEscape .legacy e p q := by
  have hearly := opens_reference.disjoint apart_earlyAtomEscapes.opens_first (by decide) h
  have hidentity : ¬ ((identity .legacy).as ({} : Evidence)).Applies p := by
    rintro ⟨_, t, n, -, hp, hn⟩
    rcases opens_reference e p q h with ⟨d, hd, r, rfl⟩
    obtain ⟨rfl, -⟩ := List.cons.inj hp
    obtain rfl := List.mem_singleton.1 hd
    exact hn (by decide)
  rw [atomEscape_legacy]
  exact .later hearly (.later hidentity (.here h))

/-- Characters that escape themselves in Unicode mode do so in legacy mode. -/
theorem exists_of_identity {n : Nat} (h : identity .unicode n p q) :
    ∃ c : Char, c ∉ escapeStarts ∧ n = c.toNat ∧ p = c.toNat :: q := by
  rcases h with ⟨rfl, hn⟩
  rcases List.mem_map.1 hn with ⟨c, hc, rfl⟩
  have hdisj : ∀ c ∈ '/' :: syntaxCharacters .unicode, c ∉ escapeStarts := by decide
  exact ⟨c, hdisj c hc, rfl, rfl⟩

/-- An escape of Unicode mode is one of legacy mode, unless it is the one of a property. -/
theorem AtomEscape.relax (hp : Portable p) (hback : word ['\\'] p t)
    (h : AtomEscape .unicode e t q) : property.as {} e t q ∨ AtomEscape .legacy e t q := by
  have hearly {R : Form Evidence} (hR : R ∈ earlyAtomEscapes) (h : R e t q) :
      property.as {} e t q ∨ AtomEscape .legacy e t q := Or.inr (atomEscape_of_early hR h)
  rcases h with ⟨R, hR, h⟩
  simp only [atomEscapes, List.mem_cons, List.not_mem_nil, or_false] at hR
  -- only the escapes that start with `u` and those of names look different in the two modes
  rcases hR with rfl | rfl | rfl | rfl | rfl | rfl | rfl | rfl | rfl
  · exact hearly (by simp [earlyAtomEscapes]) h
  · exact hearly (by simp [earlyAtomEscapes]) h
  · exact Or.inl h
  · exact hearly (by simp [earlyAtomEscapes]) h
  · exact hearly (by simp [earlyAtomEscapes]) h
  · exact hearly (by simp [earlyAtomEscapes]) h
  · rcases h with ⟨n, rfl, h⟩
    have h' := h.relax hp hback
    exact hearly (R := (UnicodeEscape .legacy).as {}) (by simp [earlyAtomEscapes]) ⟨n, rfl, h'⟩
  · rcases h with ⟨n, rfl, h⟩
    rcases exists_of_identity h with ⟨c, hc, rfl, rfl⟩
    exact Or.inr (atomEscape_of_identity hc q)
  · rcases h with ⟨name, rfl, t', hk, hname⟩
    have hname' := hname.relax ((hp.word hback).word hk)
    exact Or.inr (atomEscape_of_reference ⟨name, rfl, t', hk, hname'⟩)

/-! ## Property escapes -/

/-- The names that may stand alone. -/
def loneNames : List String :=
  Property.aliases.map Prod.fst ++ (Property.binary ++
    Property.generalCategories.flatMap fun value => value.1 :: value.2)

theorem mem_loneNames {name : String} (h : Property.isLone name = true) : name ∈ loneNames := by
  simp only [Property.isLone, Bool.or_eq_true, List.contains_iff_mem] at h
  rcases h with h | h
  · cases hname : Property.alias? name with
    | some canonical =>
      rcases List.lookup_eq_some_iff.1 hname with ⟨before, after, hl, -⟩
      have hmem : (name, canonical) ∈ Property.aliases := by
        rw [hl]
        exact List.mem_append_right _ List.mem_cons_self
      exact List.mem_append_left _ (List.mem_map.2 ⟨_, hmem, rfl⟩)
    | none =>
      rw [Property.canonical, hname] at h
      exact List.mem_append_right _ (List.mem_append_left _ h)
  · rcases List.any_eq_true.1 h with ⟨⟨canonical, others⟩, hmem, h⟩
    have hname : name ∈ canonical :: others := by simpa using h
    exact List.mem_append_right _ (List.mem_append_right _
      (List.mem_flatMap.2 ⟨(canonical, others), hmem, hname⟩))

theorem all_loneNames :
    loneNames.all (fun name => !name.front?.any Char.isDigit) = true := by
  decide +kernel

/-- No property expression starts as bounds do, with a digit. -/
theorem head_of_propertyExpression (h : PropertyExpression w) :
    ∃ c v, w = c :: v ∧ c.isDigit = false := by
  cases h with
  | @valued name value hne hname _ _ _ =>
    cases name with
    | nil => contradiction
    | cons c name =>
      refine ⟨c, _, rfl, ?_⟩
      have hc := hname c List.mem_cons_self
      rcases Bool.or_eq_true_iff.1 hc with hc | hc
      · exact Numeral.not_isDigit_of_isAlpha hc
      · rw [eq_of_beq hc]
        rfl
  | lone hne _ _ hlone =>
    have hhead := List.all_eq_true.1 all_loneNames _ (mem_loneNames hlone)
    rw [String.front?_eq, String.toList_ofList] at hhead
    cases w with
    | nil => contradiction
    | cons c v => exact ⟨c, v, rfl, by simpa using hhead⟩

/-- The characters of a property expression stand for themselves in legacy mode. -/
theorem not_mem_of_propertyExpression (h : PropertyExpression w) :
    ∀ c ∈ w, c ∉ [']', '-', '{'] ++ syntaxCharacters .legacy := by
  have hkind {P : Char → Bool} {w : List Char}
      (hP : ∀ c ∈ [']', '-', '{'] ++ syntaxCharacters .legacy, P c = false)
      (hw : ∀ c ∈ w, P c = true) : ∀ c ∈ w, c ∉ [']', '-', '{'] ++ syntaxCharacters .legacy := by
    intro c hc hmem
    have hfalse := hP c hmem
    rw [hw c hc] at hfalse
    contradiction
  cases h with
  | valued _ hname _ hvalue _ =>
    rw [List.forall_mem_append, List.forall_mem_append]
    exact ⟨⟨hkind (by decide) hname, by decide⟩, hkind (by decide) hvalue⟩
  | lone _ hname _ _ => exact hkind (by decide) hname

/-- The characters of a property escape after its letter. -/
theorem exists_of_property (h : property c p q) : c ∉ escapeStarts ∧
    ∃ d w s t r, p = c.toNat :: s ∧ word ['{'] s t ∧ word (d :: w) t r ∧ word ['}'] r q ∧
      d.isDigit = false ∧ ∀ c ∈ d :: w, c ∉ [']', '-', '{'] ++ syntaxCharacters .legacy := by
  rcases h with ⟨hc, e, he, h⟩
  have hletter : ∀ c ∈ ['p', 'P'], c ∉ escapeStarts := by decide
  rcases head_of_propertyExpression he with ⟨d, w, rfl, hd⟩
  rcases word_append.1 h with ⟨r, h, hclose⟩
  rcases word_append.1 h with ⟨t, hopen, hexpression⟩
  rcases word_cons.1 hopen with ⟨s, rfl, hbrace⟩
  exact ⟨hletter c hc, d, w, s, t, r, rfl, hbrace, hexpression, hclose, hd,
    not_mem_of_propertyExpression he⟩

/-! ## Escapes in classes -/

/-- The escapes that legacy mode tries in a class before a character that escapes itself. Octal
escapes are others, for they start as the escape of a zero does. -/
def earlyClassEscapes : List (Form (Option Nat)) :=
  [setLetter.as none, control.map some, controlLetter.map some, null.map some, hex.map some,
    (UnicodeEscape .legacy).map some]

theorem apart_earlyClassEscapes : Apart earlyClassEscapes
    (['d', 'D', 's', 'S', 'w', 'W'] ++ (['f', 'n', 'r', 't', 'v'] ++ (['c'] ++ (['0'] ++
      (['x'] ++ (['u'] ++ [])))))) :=
  .cons (opens_setLetter.map _) (by decide) <| .cons (opens_control.map _) (by decide) <|
  .cons (opens_controlLetter.map _) (by decide) <| .cons (opens_null.map _) (by decide) <|
  .cons (opens_after.map _) (by decide) <| .cons (opens_unicodeEscape.map _) (by decide) .nil

theorem classEscape_legacy : ClassEscape .legacy =
    First [written 'b' 0x08, classControl.map some, First earlyClassEscapes, octal.map some,
      (identity .legacy).map some, written 'k' 'k'.toNat] := by
  rw [first_cons_congr (first_cons_congr first_first)]
  rfl

theorem classEscape_of_early {R : Form (Option Nat)} (hR : R ∈ earlyClassEscapes)
    (hcontrol : ¬ classControl.Applies p) (h : R v p q) : ClassEscape .legacy v p q := by
  have hwritten : ¬ (written 'b' 0x08).Applies p :=
    (apart_earlyClassEscapes.opens hR).disjoint opens_written (by decide) h
  have hfirst := apart_earlyClassEscapes.first_iff.2 ⟨R, hR, h⟩
  rw [classEscape_legacy]
  exact .later hwritten (.later (mt applies_map.1 hcontrol) (.here hfirst))

theorem classEscape_of_identity (hc : c ∉ escapeStarts) (q : Text) :
    ClassEscape .legacy (some c.toNat) (c.toNat :: q) q := by
  have hnone {α : Type} {R : Form α} {cs : List Char} (h : R.Opens cs) (hsub : cs ⊆ escapeStarts) :
      ¬ R.Applies (c.toNat :: q) := (h.subset hsub).not_applies hc
  rw [classEscape_legacy]
  exact .later (hnone opens_written (by decide)) <|
    .later (hnone (opens_classControl.map _) (by decide)) <|
    .later (hnone apart_earlyClassEscapes.opens_first (by decide)) <|
    .later (hnone (opens_octal.map _) (by decide)) (.here ⟨_, rfl, identity_of_not_mem hc q⟩)

/-- No letter of a control character is a digit or a low line. -/
theorem not_classControl_of_controlLetter {n : Nat} (h : controlLetter n p q) :
    ¬ classControl.Applies p := by
  rcases h with ⟨letter, hletter, -, h⟩
  rintro ⟨m, r, d, hd, -, h'⟩
  obtain rfl : letter = d := by
    have htail := (List.cons.inj (h.symm.trans h')).2
    exact Char.toNat_inj.1 (List.cons.inj htail).1
  rcases Bool.or_eq_true_iff.1 hd with hd | hd
  · rw [Numeral.not_isDigit_of_isAlpha hletter] at hd
    contradiction
  · rw [eq_of_beq hd] at hletter
    contradiction

theorem ClassEscape.relax (hp : Portable p) (hback : word ['\\'] p t)
    (h : ClassEscape .unicode v t q) : property.as none v t q ∨ ClassEscape .legacy v t q := by
  have hearly {R : Form (Option Nat)} {cs : List Char} (hR : R ∈ earlyClassEscapes)
      (hopens : R.Opens cs) (hcs : ∀ c ∈ cs, c ∉ ['c']) (h : R v t q) :
      property.as none v t q ∨ ClassEscape .legacy v t q :=
    Or.inr (classEscape_of_early hR (hopens.disjoint opens_classControl hcs h) h)
  rcases h with ⟨R, hR, h⟩
  simp only [classEscapes, List.mem_cons, List.not_mem_nil, or_false] at hR
  -- legacy mode has an escape of its own that starts with `c`, but not with a letter after it
  rcases hR with rfl | rfl | rfl | rfl | rfl | rfl | rfl | rfl | rfl | rfl
  · exact Or.inr (.here h)
  · rcases h with ⟨rfl, h⟩
    obtain rfl : t = _ := h
    exact Or.inr (classEscape_of_identity (by decide) q)
  · exact hearly (R := setLetter.as none) (by simp [earlyClassEscapes]) (opens_setLetter.map _)
      (by decide) h
  · exact Or.inl h
  · exact hearly (by simp [earlyClassEscapes]) (opens_control.map _) (by decide) h
  · have hcontrol : ¬ classControl.Applies t := by
      rcases h with ⟨n, -, h⟩
      exact not_classControl_of_controlLetter h
    exact Or.inr (classEscape_of_early (by simp [earlyClassEscapes]) hcontrol h)
  · exact hearly (by simp [earlyClassEscapes]) (opens_null.map _) (by decide) h
  · exact hearly (R := hex.map some) (by simp [earlyClassEscapes]) (opens_after.map _)
      (by decide) h
  · rcases h with ⟨n, rfl, h⟩
    have h' := h.relax hp hback
    exact hearly (R := (UnicodeEscape .legacy).map some) (by simp [earlyClassEscapes])
      (opens_unicodeEscape.map _) (by decide) ⟨n, rfl, h'⟩
  · rcases h with ⟨n, rfl, h⟩
    rcases exists_of_identity h with ⟨c, hc, rfl, rfl⟩
    exact Or.inr (classEscape_of_identity hc q)

/-! ## Classes -/

/-- A class that starts with no dash goes on as one that may. -/
theorem nonempty_of_nonemptyNoDash (h : ClassRanges mode .nonemptyNoDash p q) :
    ClassRanges mode .nonempty p q := by
  cases h with
  | last h => exact .single h
  | consNoDash h hrest => exact .cons (.noDash h) hrest
  | rangeNoDash h hdash h' hmay hrest => exact .range (.noDash h) hdash h' hmay hrest

/-- Characters in a class in front of what it goes on with. -/
theorem nonemptyNoDash_of_word (hw : ∀ c ∈ w, c ∉ [']', '-', '\\']) (h : word w p t)
    (ht : ClassRanges mode .nonemptyNoDash t q) : ClassRanges mode .nonemptyNoDash p q := by
  induction w generalizing p with
  | nil =>
    obtain rfl : p = t := h
    exact ht
  | cons c w ih =>
    rw [List.forall_mem_cons] at hw
    rcases word_cons.1 h with ⟨s, rfl, hs⟩
    exact .consNoDash (.character fun hmem => hw.1 (Text.mem_ofWord.1 hmem)) (ih hw.2 hs)

/-- In a class of legacy mode the characters of a property escape are atoms. -/
theorem nonemptyNoDash_of_property (h : after ['\\'] (property.as none) v p t)
    (ht : t = q ∨ ClassRanges .legacy .nonemptyNoDash t q) :
    ClassRanges .legacy .nonemptyNoDash p q := by
  rcases h with ⟨_, hback, c, -, h⟩
  rcases exists_of_property h with ⟨hc, d, w, s, u, r, rfl, hopen, hname, hclose, -, hplain⟩
  have hescape : ClassAtomNoDash .legacy (some c.toNat) p s :=
    .escape ⟨_, hback, classEscape_of_identity hc s⟩
  have hatom : ClassAtomNoDash .legacy (some '}'.toNat) r t := by
    obtain rfl : r = _ := hclose
    exact .character (by decide)
  have hlast : ClassRanges .legacy .nonemptyNoDash r q := by
    rcases ht with rfl | ht
    · exact .last (.noDash hatom)
    · exact .consNoDash hatom ht
  have hsub : [']', '-', '\\'] ⊆ [']', '-', '{'] ++ syntaxCharacters .legacy := by decide
  have hnone : ∀ c ∈ d :: w, c ∉ [']', '-', '\\'] := fun c hc hmem => hplain c hc (hsub hmem)
  have hrest := nonemptyNoDash_of_word hnone hname hlast
  exact .consNoDash hescape (nonemptyNoDash_of_word (by decide) hopen hrest)

theorem ClassAtomNoDash.relax (hp : Portable p) (h : ClassAtomNoDash .unicode v p t) :
    after ['\\'] (property.as none) v p t ∨ ClassAtomNoDash .legacy v p t := by
  cases h with
  | character hn => exact Or.inr (.character hn)
  | escape h =>
    rcases h with ⟨s, hback, h⟩
    rcases h.relax hp hback with h | h
    · exact Or.inl ⟨s, hback, h⟩
    · exact Or.inr (.escape ⟨s, hback, h⟩)
  | backslash hmode => contradiction

theorem ClassAtom.relax (hp : Portable p) (h : ClassAtom .unicode v p t) :
    after ['\\'] (property.as none) v p t ∨ ClassAtom .legacy v p t := by
  cases h with
  | dash h => exact Or.inr (.dash h)
  | noDash h => exact (h.relax hp).imp_right .noDash

/-- A property escape stands for no character, so the other atoms are the same in legacy mode. -/
theorem not_property_some {n : Nat} : ¬ after ['\\'] (property.as none) (some n) p q := by
  rintro ⟨t, -, c, heq, -⟩
  contradiction

/-- The ends of a range are characters in Unicode mode. -/
theorem MayRange.exists_some {low high : Option Nat} (h : MayRange .unicode low high) :
    ∃ m n, low = some m ∧ high = some n ∧ m ≤ n := by
  cases low with
  | none => contradiction
  | some m =>
    cases high with
    | none => contradiction
    | some n => exact ⟨m, n, rfl, rfl, h⟩

theorem ClassRanges.relax {x : ClassSymbol} (hp : Portable p) (h : ClassRanges .unicode x p q) :
    ClassRanges .legacy x p q := by
  induction h with
  | empty => exact .empty
  | nonempty _ ih => exact .nonempty (ih hp)
  | single h =>
    rcases h.relax hp with h | h
    · exact nonempty_of_nonemptyNoDash (nonemptyNoDash_of_property h (Or.inl rfl))
    · exact .single h
  | cons h _ ih =>
    have hrest := ih (hp.classAtom h)
    rcases h.relax hp with h | h
    · exact nonempty_of_nonemptyNoDash (nonemptyNoDash_of_property h (Or.inr hrest))
    · exact .cons h hrest
  | range hlow hdash hhigh hmay _ ih =>
    rcases hmay.exists_some with ⟨m, n, rfl, rfl, hle⟩
    have ht := (hp.classAtom hlow).word hdash
    have hlow' := (hlow.relax hp).resolve_left not_property_some
    have hhigh' := (hhigh.relax ht).resolve_left not_property_some
    exact .range hlow' hdash hhigh' hle (ih (ht.classAtom hhigh))
  | last h =>
    rcases h.relax hp with h | h
    · exact nonemptyNoDash_of_property h (Or.inl rfl)
    · exact .last h
  | consNoDash h _ ih =>
    have hrest := ih (hp.classAtom (.noDash h))
    rcases h.relax hp with h | h
    · exact nonemptyNoDash_of_property h (Or.inr hrest)
    · exact .consNoDash h hrest
  | rangeNoDash hlow hdash hhigh hmay _ ih =>
    rcases hmay.exists_some with ⟨m, n, rfl, rfl, hle⟩
    have ht := (hp.classAtom (.noDash hlow)).word hdash
    have hlow' := (hlow.relax hp).resolve_left not_property_some
    have hhigh' := (hhigh.relax ht).resolve_left not_property_some
    exact .rangeNoDash hlow' hdash hhigh' hle (ih (ht.classAtom hhigh))

theorem CharacterClass.relax (hp : Portable p) (h : CharacterClass .unicode p q) :
    CharacterClass .legacy p q := by
  cases h with
  | plain hopen hcaret h hclose => exact .plain hopen hcaret (h.relax (hp.word hopen)) hclose
  | negated hopen h hclose => exact .negated hopen (h.relax (hp.word hopen)) hclose

/-! ## Alternatives of legacy mode -/

/-- A quantifier, or nothing where there is none. -/
def OptionalQuantifier (p q : Text) : Prop := Quantifier p q ∨ p = q ∧ ¬ ∃ r, Quantifier p r

/-- One alternative after the other is an alternative. -/
theorem Derives.append (h : Derives mode room .alternative e p t)
    (h' : Derives mode room .alternative f t q) : Derives mode room .alternative (e ++ f) p q := by
  generalize hx : Symbol.alternative = x at h
  induction h with
  | nil => rwa [Evidence.empty_append]
  | cons hterm _ _ ih =>
    rw [Evidence.append_assoc]
    exact .cons hterm (ih h' rfl)
  | _ => contradiction

theorem Derives.alternative (h : Derives mode room .term e p q) :
    Derives mode room .alternative e p q := by
  have halternative := Derives.cons h .nil
  rwa [Evidence.append_empty] at halternative

/-- What may be quantified is an alternative with its quantifier. -/
theorem Derives.quantify (hx : Quantifiable .legacy x) (h : Derives .legacy room x e p t)
    (hq : OptionalQuantifier t q) : Derives .legacy room .alternative e p q := by
  rcases hq with hq | ⟨rfl, hnone⟩
  · exact (Derives.quantified hx h hq).alternative
  · exact (Derives.plain hx h fun _ => hnone).alternative

theorem endsTerm_cons (hc : c ∉ quantifierStarts mode) (q : Text) :
    EndsTerm mode (c.toNat :: q) := by
  rintro d hd ⟨t, ht⟩
  obtain rfl : c = d := Char.toNat_inj.1 (List.cons.inj ht).1
  exact hc hd

theorem endsTerm_of_word (h : word (c :: w) p q) (hc : c ∉ quantifierStarts mode) :
    EndsTerm mode p := by
  rcases word_cons.1 h with ⟨t, rfl, -⟩
  exact endsTerm_cons hc t

/-- An atom without a quantifier in front of an alternative. -/
theorem Derives.before (h : Derives .legacy room .atom {} p t) (ht : ¬ ∃ r, Quantifier t r)
    (hrest : Derives .legacy room .alternative e t q) :
    Derives .legacy room .alternative e p q := by
  have halternative := (h.quantify (Or.inl rfl) (Or.inr ⟨rfl, ht⟩)).append hrest
  rwa [Evidence.empty_append] at halternative

theorem atom_of_character {n : Nat} (hn : n ∉ Text.ofWord ('{' :: syntaxCharacters .legacy))
    (q : Text) : Derives .legacy room .atom {} (n :: q) q := by
  refine .character (fun hmem => hn (List.mem_cons_of_mem _ hmem)) fun _ => ?_
  rintro ⟨bounds, r, hbounds⟩
  rcases brace_of_braces hbounds with ⟨r, hr⟩
  obtain ⟨rfl, -⟩ := List.cons.inj hr
  exact hn List.mem_cons_self

/-- Characters that stand for themselves, in front of an alternative. -/
theorem alternative_of_word (hw : ∀ c ∈ w, c ∉ '{' :: syntaxCharacters .legacy) (h : word w p t)
    (ht : EndsTerm .unicode t) (hrest : Derives .legacy room .alternative e t q) :
    EndsTerm .unicode p ∧ Derives .legacy room .alternative e p q := by
  induction w generalizing p with
  | nil =>
    obtain rfl : p = t := h
    exact ⟨ht, hrest⟩
  | cons c w ih =>
    rw [List.forall_mem_cons] at hw
    rcases word_cons.1 h with ⟨s, rfl, hs⟩
    rcases ih hw.2 hs with ⟨hends, hrest'⟩
    have hsub : quantifierStarts .unicode ⊆ '{' :: syntaxCharacters .legacy := by decide
    have hatom : Derives .legacy room .atom {} (c.toNat :: s) s :=
      atom_of_character (fun hmem => hw.1 (Text.mem_ofWord.1 hmem)) s
    exact ⟨endsTerm_cons (fun hmem => hw.1 (hsub hmem)) s,
      hatom.before hends.not_quantifier hrest'⟩

/-- Bounds start with a digit after the brace. -/
theorem startsWith_of_braces {bounds : Nat × Option Nat} (h : Braces bounds p q)
    (hopen : word ['{'] p t) : t.StartsWith Char.isDigit := by
  have hnumeral {m w : List Char} (hm : IsNumeral m) (h : word (['{'] ++ (m ++ w)) p q) :
      t.StartsWith Char.isDigit := by
    have ht := word_rest hopen h
    cases m with
    | nil => exact absurd rfl hm.1
    | cons c m => exact ⟨c, _, hm.2 c List.mem_cons_self, ht⟩
  cases h with
  | exact hm h => exact hnumeral hm (by simpa using h)
  | atLeast hm h => exact hnumeral hm (by simpa using h)
  | between hm _ h => exact hnumeral hm (by simpa using h)

/-- In legacy mode the letter of a property escape is an atom, and so are the characters after it.
-/
theorem alternative_of_property (h : after ['\\'] (property.as {}) e p t)
    (hq : OptionalQuantifier t q) : Derives .legacy room .alternative e p q := by
  rcases h with ⟨_, hback, c, rfl, h⟩
  rcases exists_of_property h with ⟨hc, d, w, s, u, r, rfl, hopen, hname, hclose, hd, hplain⟩
  have hbraces : ¬ Braces.Applies s := by
    rintro ⟨bounds, v, hbounds⟩
    have hdigit := startsWith_of_braces hbounds hopen
    exact not_startsWith_of_word hname hd hdigit
  have hquantifier : ¬ ∃ v, Quantifier s v := by
    rintro ⟨v, hv⟩
    cases hv with
    | mark hmark hword _ => exact not_word_of_mem hword hmark (by decide) hopen
    | bounds hbounds _ _ => exact hbraces ⟨_, _, hbounds⟩
  -- from the brace that closes the expression back to the backslash
  have hlast : Derives .legacy room .alternative {} r q := by
    obtain rfl : r = _ := hclose
    exact (atom_of_character (by decide) t).quantify (Or.inl rfl) hq
  have hsub : '{' :: syntaxCharacters .legacy ⊆ [']', '-', '{'] ++ syntaxCharacters .legacy := by
    decide
  have hends : EndsTerm .unicode r := endsTerm_of_word hclose (by decide)
  rcases alternative_of_word (fun c hc hmem => hplain c hc (hsub hmem)) hname hends hlast with
    ⟨hends', hrest⟩
  have hbrace : Derives .legacy room .atom {} s u := by
    obtain rfl : s = _ := hopen
    exact .character (by decide) fun _ => hbraces
  have hedge : ∀ d ∈ ['b', 'B'], ¬ ∃ r, word [d] (c.toNat :: s) r := by
    rintro d hd ⟨r, hr⟩
    obtain rfl : c = d := Char.toNat_inj.1 (List.cons.inj hr).1
    have hsub : ['b', 'B'] ⊆ escapeStarts := by decide
    exact hc (hsub hd)
  have hescape : Derives .legacy room .atom {} p s :=
    .escape (fun _ => not_edge_of_escape hback hedge) ⟨_, hback, atomEscape_of_identity hc s⟩
  exact hescape.before hquantifier (hbrace.before hends'.not_quantifier hrest)

/-! ## Derivations -/

/-- What legacy mode makes of a text that Unicode mode derives from `x`: terms are alternatives,
since legacy mode may take a term for several, and an atom is one with its quantifier. -/
def Relaxed (room : Nat) : Symbol → Form Evidence
  | .disjunction, e, p, q => EndsTerm .unicode q → Derives .legacy room .disjunction e p q
  | .alternative, e, p, q | .term, e, p, q | .assertion, e, p, q =>
    EndsTerm .unicode q → Derives .legacy room .alternative e p q
  | .lookahead, e, p, q => Derives .legacy room .lookahead e p q
  | .atom, e, p, q => ∀ r, OptionalQuantifier q r → Derives .legacy room .alternative e p r

theorem relaxed_of_atom (h : Derives .legacy room .atom e p q) : Relaxed room .atom e p q :=
  fun _ hr => h.quantify (Or.inl rfl) hr

/-- What Unicode mode derives from a portable text, legacy mode derives too. -/
theorem relaxed_of_derives (hp : Portable p) (h : Derives .unicode room x e p q) :
    Relaxed room x e p q := by
  have hclosed {p q : Text} (h : word [')'] p q) : EndsTerm .unicode p :=
    endsTerm_of_word h (by decide)
  -- a term of Unicode mode ends where no quantifier stands, so legacy mode takes none there either
  induction h with
  | single _ ih => exact fun hq => .single (ih hp hq)
  | bar h hbar _ ih ih' =>
    intro hq
    have ht := hp.derives h
    exact .bar (ih hp (endsTerm_of_word hbar (by decide))) hbar (ih' (ht.word hbar) hq)
  | nil => exact fun _ => .nil
  | cons h h' ih ih' =>
    intro hq
    have ht := endsTerm_of_alternative h' hq
    exact (ih hp ht).append (ih' (hp.derives h) hq)
  | assertion _ ih => exact ih hp
  | plain hx _ _ ih =>
    obtain rfl := hx
    exact fun hq => ih hp _ (Or.inr ⟨rfl, hq.not_quantifier⟩)
  | quantified hx _ hquantifier ih =>
    obtain rfl := hx
    exact fun _ => ih hp _ (Or.inl hquantifier)
  | edge hw h => exact fun _ => (Derives.assertion (.edge hw h)).alternative
  | lookbehind hw hopen _ hclose ih =>
    intro _
    have hbody := ih (hp.word hopen) (hclosed hclose)
    exact (Derives.assertion (.lookbehind hw hopen hbody hclose)).alternative
  | strictLookahead _ _ ih =>
    exact fun hq => (ih hp).quantify (Or.inr rfl) (Or.inr ⟨rfl, hq.not_quantifier⟩)
  | lookahead hw hopen _ hclose ih =>
    exact .lookahead hw hopen (ih (hp.word hopen) (hclosed hclose)) hclose
  | dot h => exact relaxed_of_atom (.dot h)
  | @character room n t hn =>
    have hsub : '{' :: syntaxCharacters .legacy ⊆ syntaxCharacters .unicode := by decide
    exact relaxed_of_atom (atom_of_character (fun hmem => hn (List.map_subset _ hsub hmem)) t)
  | escape _ h =>
    rcases h with ⟨t, hback, h⟩
    have hedge := not_edge_of_atomEscape hback ⟨_, _, h⟩
    rcases h.relax hp hback with h | h
    · exact fun r hr => alternative_of_property ⟨t, hback, h⟩ hr
    · exact relaxed_of_atom (.escape (fun _ => hedge) ⟨t, hback, h⟩)
  | backslash hmode => contradiction
  | characterClass h => exact relaxed_of_atom (.characterClass (h.relax hp))
  | group hopen _ hclose ih =>
    have hbody := ih (hp.word hopen) (hclosed hclose)
    exact relaxed_of_atom (.group hopen hbody hclose)
  | capture hopen _ hclose ih =>
    have hbody := ih (hp.word hopen) (hclosed hclose)
    exact relaxed_of_atom (.capture hopen hbody hclose)
  | namedCapture hopen hname _ hclose ih =>
    have hs := hp.word hopen
    have hbody := ih (hs.groupName hname) (hclosed hclose)
    exact relaxed_of_atom (.namedCapture hopen (hname.relax hs) hbody hclose)

end EcmaPattern.Language
