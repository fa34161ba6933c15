import EcmaPattern.Proofs.GroupName
import EcmaPattern.Proofs.Scan.Pattern

namespace EcmaPattern

open CodeUnit Form
open EcmaPattern.Language (Derives GroupName NameWord Spells angled namedGroup backReference)

/-! # Names as they are

A name may stand in a pattern without any escape. Unicode mode reads all characters of it. Legacy
mode reads code units, and no half of a surrogate pair is a character of a name, so that there a name
may stand as it is only where each of its characters is a single unit.
-/

variable {mode : Mode} {room : Nat} {e : Evidence} {c d : Char} {v w : List Char} {p q t : Text}

/-! ## Names that are read -/

namespace Language

/-- Characters of a mode spell themselves. -/
theorem spells_self (h : Whole mode w) : Spells mode w w := by
  induction w with
  | nil => exact .nil
  | cons c w ih =>
    have hc : mode = .legacy → c.toNat < 0x10000 := fun hmode => h hmode c List.mem_cons_self
    exact .cons (.literal hc) (ih fun hmode d hd => h hmode d (List.mem_cons_of_mem c hd))

theorem nameWord_self {name : String} (hname : IsName name.toList) (h : Whole mode name.toList) :
    NameWord mode name name.toList :=
  ⟨hname, spells_self h⟩

/-- No name has a character that closes a name or opens a look-behind. -/
theorem IsName.not_mem (hname : IsName w) : ∀ c ∈ ['=', '!', '>'], c ∉ w := by
  intro c hc hmem
  cases w with
  | nil => contradiction
  | cons d w =>
    have hstart : ∀ c ∈ ['=', '!', '>'], Identifier.startsName c.toNat = false := by decide
    have hpart : ∀ c ∈ ['=', '!', '>'], Identifier.continuesName c.toNat = false := by decide
    rcases List.mem_cons.1 hmem with rfl | hmem
    · exact absurd hname.1 (by rw [hstart c hc]; decide)
    · exact absurd (hname.2 c hmem) (by rw [hpart c hc]; decide)

end Language

/-! ## Names that are refused -/

/-- The first character that is more than one unit. -/
theorem exists_wide (h : ¬ Whole .legacy w) :
    ∃ v c u, w = v ++ c :: u ∧ Whole .legacy v ∧ 0x10000 ≤ c.toNat := by
  induction w with
  | nil => exact absurd (whole_of_ascii (by simp)) h
  | cons d w ih =>
    by_cases hd : d.toNat < 0x10000
    · have hw : ¬ Whole .legacy w := fun hw =>
        h fun hmode => List.forall_mem_cons.2 ⟨hd, hw hmode⟩
      rcases ih hw with ⟨v, c, u, rfl, hv, hc⟩
      exact ⟨d :: v, c, u, rfl, fun hmode => List.forall_mem_cons.2 ⟨hd, hv hmode⟩, hc⟩
    · exact ⟨[], d, w, rfl, whole_of_ascii (by simp), Nat.le_of_not_lt hd⟩

/-- Such a character is a lead surrogate and what follows it. -/
theorem decode_of_wide (hc : 0x10000 ≤ c.toNat) (w : List Char) :
    ∃ n p, decode .legacy (encode (c :: w)) = n :: p ∧ Surrogate.isLead n = true := by
  have htwo : ofChar c = [.ofNat (Surrogate.lead c.toNat), .ofNat (Surrogate.trail c.toNat)] :=
    if_neg (Nat.not_lt.2 hc)
  refine ⟨_, _, by rw [encode_cons, htwo]; rfl, ?_⟩
  rw [toNat_lead (toNat_le c), Surrogate.isLead_lead (toNat_le c)]

/-- A word in front of a text does not reach a place that holds no character. -/
theorem prefix_of_word {n : Nat} (hword : word v (Text.ofWord w ++ n :: p) q)
    (hn : n ∉ Text.ofWord v) : v <+: w := by
  rw [← Text.ofWord_prefix_iff]
  rcases List.append_eq_append_iff.1 hword with ⟨u, hv, hp⟩ | ⟨u, hw, -⟩
  · cases u with
    | nil => exact ⟨[], by simpa using hv⟩
    | cons m u =>
      obtain ⟨rfl, -⟩ := List.cons.inj hp
      exact absurd (hv ▸ List.mem_append_right _ List.mem_cons_self) hn
  · exact ⟨u, hw.symm⟩

theorem eq_of_word_encode (hc : c.toNat < 0x80)
    (h : word [c] (decode mode (encode (d :: w))) q) : c = d := by
  have hascii : ∀ c' ∈ [c], c'.toNat < 0x80 := by simpa using hc
  rcases of_decode_append hascii h with ⟨rest, hunits, -⟩
  have hdecode := congrArg (decode .unicode) hunits
  rw [decode_unicode_encode, decode_encode_append .unicode hascii] at hdecode
  exact (Char.toNat_inj.1 (List.cons.inj hdecode).1).symm

/-- A text that starts as a group with a name does, and not as a look-behind, starts with the name
after its question mark. -/
theorem Language.exists_groupName_of_derives (h : Derives mode room .disjunction e p [])
    (hp : word ['(', '?'] p t) (hopen : ∃ r, word ['<'] t r)
    (hbehind : ∀ c ∈ ['=', '!'], ¬ ∃ r, word ['<', c] t r) : ∃ name q, GroupName mode name t q := by
  obtain ⟨s, hparen, hmark⟩ := (word_append (v := ['('])).1 hp
  have hstarts {l : List Char} : Scan.startsWith id ('?' :: l) s = true ↔ ∃ r, word l t r := by
    rw [Scan.startsWith_iff_word]
    exact exists_congr fun r => ⟨word_rest (v := ['?']) hmark,
      fun h => (word_append (v := ['?'])).2 ⟨t, hmark, h⟩⟩
  have hlookbehind {c : Char} (hc : c ∈ ['=', '!']) : Scan.startsWith id ['?', '<', c] s = false :=
    Bool.eq_false_iff.2 fun h => hbehind c hc (hstarts.1 h)
  -- a scan finds a name there, and each name that a scan finds is one of the grammar
  have hfinds : Scan.findsGroup id s = { groups := 1, names := [t] } := by
    rw [Scan.findsGroup, (hstarts (l := [])).2 ⟨t, rfl⟩, hstarts.2 hopen, hlookbehind (by decide),
      hlookbehind (by decide), show s = '?'.toNat :: t from hmark]
    rfl
  rcases Scan.scans_of_derives h with ⟨f, hf, hagrees⟩
  rcases hagrees.names with ⟨names, hnames, -⟩
  have hscan : f = { groups := 1, names := [t] } ++ Scan.scan id {} s := by
    rw [← hfinds, ← Scan.scan_paren hparen, hf]
    exact (Scan.Findings.append_empty f).symm
  rw [hscan, Scan.Findings.names_append, List.singleton_append] at hnames
  cases hnames with
  | cons hname _ => exact ⟨_, hname⟩

/-! ## Patterns -/

/-- A group with a name and a reference to it, both with the name as it is. -/
def literalPattern (name : List Char) : List Char := namedGroup name ++ backReference name

theorem literalPattern_eq (name : List Char) : literalPattern name =
    ['(', '?'] ++ (['<'] ++ (name ++ (['>', ')'] ++ backReference name))) := by
  simp [literalPattern, namedGroup, angled]

/-- A word in angle brackets before a name and more text ends in the name, if at all, at its bracket:
so no character of the name is more than one unit. -/
theorem whole_of_angled {name : List Char} (hname : Language.IsName name)
    (h : word (angled w) (decode .legacy (encode (['<'] ++ (name ++ v)))) q) :
    Whole .legacy name := by
  by_contra hwide
  rcases exists_wide hwide with ⟨before, c, after, rfl, hbefore, hc⟩
  rcases decode_of_wide hc (after ++ v) with ⟨n, p, hdecode, hlead⟩
  have htext : decode .legacy (encode (['<'] ++ (before ++ c :: after ++ v))) =
      Text.ofWord (['<'] ++ before) ++ n :: p := by
    have hwhole : Whole .legacy (['<'] ++ before) :=
      Language.whole_append (whole_of_ascii (by decide)) hbefore
    rw [← hdecode, ← decode_encode_append_of_whole hwhole, ← encode_append]
    simp
  have hn : n ∉ Text.ofWord (angled w) := by
    intro hmem
    rcases List.mem_map.1 hmem with ⟨d, -, rfl⟩
    rw [not_isLead_toNat] at hlead
    contradiction
  -- the word ends before the surrogate, so its closing bracket is a character of the name
  have hprefix : angled w <+: ['<'] ++ before := prefix_of_word (htext ▸ h) hn
  have hclose : '>' ∈ ['<'] ++ before := hprefix.subset (by simp [angled])
  have hmem : '>' ∈ before ++ c :: after := by simpa using Or.inl hclose
  exact hname.not_mem '>' (by decide) hmem

theorem whole_of_derives {name : List Char} (hname : Language.IsName name)
    (h : Derives .legacy room .disjunction e (decode .legacy (encode (literalPattern name))) []) :
    Whole .legacy name := by
  have hword {w : List Char} (hw : ∀ c ∈ w, c.toNat < 0x80) (v : List Char) :
      word w (decode .legacy (encode (w ++ v))) (decode .legacy (encode v)) := by
    rw [encode_append]
    exact decode_encode_append .legacy hw _
  rw [literalPattern_eq] at h
  have hbehind : ∀ c ∈ ['=', '!'], ¬ ∃ r, word ['<', c] (decode .legacy (encode
      (['<'] ++ (name ++ (['>', ')'] ++ backReference name))))) r := by
    rintro c hc ⟨r, hr⟩
    have hascii : ∀ c ∈ ['=', '!'], c.toNat < 0x80 := by decide
    cases name with
    | nil => exact hname.elim
    | cons d name =>
      obtain rfl : c = d :=
        eq_of_word_encode (hascii c hc) (word_rest (v := ['<']) (hword (by decide) _) hr)
      exact hname.not_mem c (List.mem_append_left ['>'] hc) List.mem_cons_self
  rcases Language.exists_groupName_of_derives h (hword (by decide) _) ⟨_, hword (by decide) _⟩
    hbehind with ⟨name', q, hgroup⟩
  rcases (Language.groupName_iff (Language.narrow_decode .legacy _)).1 hgroup with ⟨w, -, hw⟩
  exact whole_of_angled hname hw

/-- A name that stands as it is in a group and in a reference to it is accepted in Unicode mode,
whatever its characters, and in legacy mode if and only if each of them is a single unit. -/
theorem accepts_literalPattern (limit : UInt64) (hlimit : 1 ≤ limit) (name : String)
    (hname : Language.IsName name.toList) :
    accepts { mode := .unicode, nestingLimit := limit }
        (String.ofList (literalPattern name.toList)) = true ∧
      (accepts { mode := .legacy, nestingLimit := limit }
          (String.ofList (literalPattern name.toList)) = true ↔
        ∀ c ∈ name.toList, c.toNat < 0x10000) := by
  obtain ⟨room, hroom⟩ : ∃ room, limit.toNat = room + 1 :=
    Nat.exists_eq_add_one.2 (UInt64.le_iff_toNat_le.1 hlimit)
  have haccepts (mode : Mode) (hwhole : Whole mode name.toList) :
      accepts { mode, nestingLimit := limit } (String.ofList (literalPattern name.toList)) = true := by
    have hword := Language.nameWord_self hname hwhole
    rw [accepts, String.toList_ofList]
    exact isPattern_of_backReference (σ := ({ mode, nestingLimit := limit } : Options).settings)
      hroom hword hword rfl
  have hwide : Whole .unicode name.toList := fun hmode => absurd hmode (by decide)
  refine ⟨haccepts .unicode hwide, fun h => ?_, fun h => haccepts .legacy fun _ => h⟩
  rw [accepts, isPattern_eq_and, Bool.and_eq_true, String.toList_ofList] at h
  rcases exists_derives_of_match h.1 with ⟨e, hderives, -, -⟩
  exact whole_of_derives hname hderives rfl

/-- A name of a letter and a mathematical one, which takes two units. -/
theorem accepts_mathematical_letter :
    let pattern := "(?<a𝐀>)\\k<a𝐀>"
    Language.IsName "a𝐀".toList ∧ accepts { mode := .unicode, nestingLimit := 1 } pattern = true ∧
      accepts { mode := .legacy, nestingLimit := 1 } pattern = false := by
  intro pattern
  have hname : Language.IsName "a𝐀".toList := ⟨by decide +kernel, by decide +kernel⟩
  have hpattern : String.ofList (literalPattern "a𝐀".toList) = pattern := by decide +kernel
  obtain ⟨hunicode, hlegacy⟩ := accepts_literalPattern 1 (by decide) "a𝐀" hname
  rw [hpattern] at hunicode hlegacy
  exact ⟨hname, hunicode, Bool.eq_false_iff.2 (mt hlegacy.1 (by decide +kernel))⟩

/-- Names that stand as they are do not have the same patterns in both modes. -/
theorem literal_names_depend_on_mode :
    ¬ ∀ name : String, Language.IsName name.toList →
      accepts { mode := .unicode } (String.ofList (literalPattern name.toList)) = true ∧
        accepts { mode := .legacy } (String.ofList (literalPattern name.toList)) = true := by
  intro h
  have hname : Language.IsName "𝐀".toList := ⟨by decide +kernel, by decide +kernel⟩
  have hlegacy := (h "𝐀" hname).2
  have hrefused : accepts { mode := .legacy } (String.ofList (literalPattern "𝐀".toList)) = false := by
    decide +kernel
  rw [hrefused] at hlegacy
  contradiction

end EcmaPattern
