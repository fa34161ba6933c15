import EcmaPattern.Grammar.Quantifier
import EcmaPattern.Proofs.Language.Quantifier
import EcmaPattern.Proofs.Recognition.Escape

namespace EcmaPattern.Grammar

open Form Reader

/-! # The readers of quantifiers read the language of quantifiers -/

variable {mode : Mode}

theorem reads_digits : Reads mode digits (run Char.isDigit) := reads_asciiRun isAscii_isDigit

/-! ## Bounds in braces -/

theorem reads_afterComma {r : Reader Unit} {R : Text → Text → Prop}
    (hr : Reads mode r fun _ => R) :
    Reads mode (afterComma r) fun _ p q =>
      (∃ t, word [','] p t ∧ R t q) ∨ (¬ ∃ t, word [','] p t) ∧ p = q := by
  refine ((reads_word (w := [',']) (by decide)).optional.bind fun comma =>
    Reads.ite (P := comma.isSome = true) (fun _ => hr) fun _ => .of_pure ()).congr fun _ p q => ?_
  constructor
  · intro h
    rcases h with ⟨t, hcomma, h⟩ | ⟨hnone, rfl⟩
    · exact ⟨some (), t, Or.inl ⟨(), hcomma, rfl⟩, Or.inl ⟨rfl, h⟩⟩
    · exact ⟨none, p, Or.inr ⟨fun ⟨_, t, h⟩ => hnone ⟨t, h⟩, rfl, rfl⟩, Or.inr ⟨nofun, rfl, rfl⟩⟩
  · intro h
    rcases h with ⟨_, t, ⟨_, hcomma, rfl⟩ | ⟨hnone, rfl, rfl⟩, ⟨hsome, h⟩ | ⟨hsome, -, rfl⟩⟩
    · exact Or.inl ⟨t, hcomma, h⟩
    · exact absurd rfl hsome
    · contradiction
    · exact Or.inr ⟨fun ⟨t, h⟩ => hnone ⟨(), t, h⟩, rfl⟩

theorem reads_anyGreatest :
    Reads mode anyGreatest fun _ p q => (∃ t, word ['}'] p t) ∧ p = q ∨
      (¬ ∃ t, word ['}'] p t) ∧ ∃ n, run Char.isDigit n p q := by
  have hdigits : Reads mode (digits *> pure () : Reader Unit) _ :=
    reads_digits.seqRight (.of_pure ())
  refine ((reads_word (by decide)).ahead.orElse hdigits).congr fun _ p q => ?_
  constructor
  · intro h
    rcases h with ⟨⟨t, h⟩, rfl⟩ | ⟨hnone, n, h⟩
    · exact Or.inl ⟨⟨(), t, h⟩, rfl⟩
    · exact Or.inr ⟨fun ⟨_, _, ⟨_, t, h⟩, _⟩ => hnone ⟨t, h⟩, n, q, h, rfl, rfl⟩
  · intro h
    rcases h with ⟨⟨_, t, h⟩, rfl⟩ | ⟨hnone, n, _, h, -, rfl⟩
    · exact Or.inl ⟨⟨t, h⟩, rfl⟩
    · exact Or.inr ⟨fun ⟨t, h⟩ => hnone ⟨(), p, ⟨(), t, h⟩, rfl⟩, n, h⟩

theorem reads_greatest (least : List Char) :
    Reads mode (greatest least) fun _ p q =>
      (∃ n, run Char.isDigit n p q ∧ Numeral.le least n = true) ∨
        ¬ p.StartsWith Char.isDigit ∧ p = q := by
  refine (reads_digits.optional.bind fun _ => .of_guard).congr fun _ p q => ?_
  constructor
  · intro h
    rcases h with ⟨n, h, hle⟩ | ⟨hnone, rfl⟩
    · exact ⟨some n, q, Or.inl ⟨n, h, rfl⟩, hle, rfl⟩
    · refine ⟨none, p, Or.inr ⟨?_, rfl, rfl⟩, rfl, rfl⟩
      intro h
      rcases h with ⟨n, t, h⟩
      exact hnone (startsWith_of_run h)
  · intro h
    rcases h with ⟨_, t, ⟨n, h, rfl⟩ | ⟨hnone, rfl, rfl⟩, hle, rfl⟩
    · exact Or.inl ⟨n, h, hle⟩
    · exact Or.inr ⟨mt applies_run hnone, rfl⟩

/-- What is read of bounds in braces, where `P` says which numerals may follow a comma. -/
def Braced (P : List Char → List Char → Prop) : Text → Text → Prop := fun p q =>
  ∃ m t s u, word ['{'] p t ∧ run Char.isDigit m t s ∧
    (s = u ∨ ∃ c, word [','] s c ∧ (c = u ∨ ∃ n, Language.IsNumeral n ∧ word n c u ∧ P m n)) ∧
      word ['}'] u q

theorem braced_iff {P : List Char → List Char → Prop} (hP : ∀ m, Language.IsNumeral m → P m m)
    {p q : Text} : Braced P p q ↔
      ∃ m most w, Language.BracesWord m most w ∧ word w p q ∧ ∀ n ∈ most, P m n := by
  constructor
  · intro h
    rcases h with ⟨m, t, s, u, hopen, ⟨hne, hall, -, hm⟩, hrest, hclose⟩
    have hpre : word (['{'] ++ m) p s := word_append.2 ⟨t, hopen, hm⟩
    rcases hrest with rfl | ⟨c, hcomma, rfl | ⟨n, hn, hword, hle⟩⟩
    · exact ⟨m, some m, _, .exact ⟨hne, hall⟩, word_append.2 ⟨s, hpre, hclose⟩, by
        simpa using hP m ⟨hne, hall⟩⟩
    · have hend : word [',', '}'] s q := (word_append (v := [','])).2 ⟨c, hcomma, hclose⟩
      exact ⟨m, none, _, .atLeast ⟨hne, hall⟩, word_append.2 ⟨s, hpre, hend⟩, nofun⟩
    · have hpre' : word (['{'] ++ m ++ [',']) p c := word_append.2 ⟨s, hpre, hcomma⟩
      exact ⟨m, some n, _, .between ⟨hne, hall⟩ hn,
        word_append.2 ⟨u, word_append.2 ⟨c, hpre', hword⟩, hclose⟩, by simpa using hle⟩
  · intro h
    rcases h with ⟨m, most, w, hw, h, hle⟩
    rcases hw.parts h with ⟨t, s, hopen, hm, htail⟩
    cases htail with
    | exact hclose => exact ⟨m, t, s, s, hopen, hm, Or.inl rfl, hclose⟩
    | atLeast hcomma hclose =>
      exact ⟨m, t, s, _, hopen, hm, Or.inr ⟨_, hcomma, Or.inl rfl⟩, hclose⟩
    | @between n _ c u _ hcomma hn hclose =>
      rcases hn with ⟨hne, hall, -, hword⟩
      exact ⟨m, t, s, u, hopen, hm,
        Or.inr ⟨c, hcomma, Or.inr ⟨n, ⟨hne, hall⟩, hword, hle n rfl⟩⟩, hclose⟩

/-- The two readings of bounds in braces differ only in what they read after a comma. -/
theorem reads_braced {R : List Char → Text → Text → Prop} {r : List Char → Reader Unit}
    {P : List Char → List Char → Prop} (hr : ∀ m, Reads mode (r m) fun _ => R m)
    (hR : ∀ m c u q, word ['}'] u q →
      (R m c u ↔ c = u ∨ ∃ n, Language.IsNumeral n ∧ word n c u ∧ P m n)) :
    Reads mode (do Reader.word ['{']; let m ← digits; afterComma (r m); Reader.word ['}'])
      fun _ => Braced P := by
  refine ((reads_word (by decide)).bind fun _ => reads_digits.bind fun m =>
    (reads_afterComma (hr m)).bind fun _ => reads_word (by decide)).congr fun _ p q => ?_
  constructor
  · intro h
    rcases h with ⟨m, t, s, u, hopen, hm, hrest, hclose⟩
    refine ⟨(), t, hopen, m, s, hm, (), u, ?_, hclose⟩
    rcases hrest with rfl | ⟨c, hcomma, h⟩
    · exact Or.inr ⟨fun ⟨_, h⟩ => not_word_of_word hclose (by decide) h, rfl⟩
    · exact Or.inl ⟨c, hcomma, (hR m c u q hclose).2 h⟩
  · intro h
    rcases h with ⟨_, t, hopen, m, s, hm, _, u, hrest, hclose⟩
    refine ⟨m, t, s, u, hopen, hm, ?_, hclose⟩
    rcases hrest with ⟨c, hcomma, h⟩ | ⟨-, rfl⟩
    · exact Or.inr ⟨c, hcomma, (hR m c u q hclose).1 h⟩
    · exact Or.inl rfl

theorem not_word_of_isNumeral {n : List Char} {p q t : Text} (hn : Language.IsNumeral n)
    (h : word n p q) : ¬ word ['}'] p t := by
  rcases hn with ⟨hne, hall⟩
  cases n with
  | nil => exact absurd rfl hne
  | cons d n =>
    refine not_word_of_word h ?_
    intro heq
    subst heq
    exact absurd (hall '}' List.mem_cons_self) (by decide)

/-- Numerals in any order. -/
def AnyOrder (_ _ : List Char) : Prop := True

theorem reads_bracedShape :
    Reads mode bracedShape fun _ p q => ∃ v, Language.Braces v p q := by
  have hany (m c u : _) (q : Text) (hclose : word ['}'] u q) :
      ((∃ t, word ['}'] c t) ∧ c = u ∨ (¬ ∃ t, word ['}'] c t) ∧ ∃ n, run Char.isDigit n c u) ↔
        c = u ∨ ∃ n, Language.IsNumeral n ∧ word n c u ∧ AnyOrder m n := by
    constructor
    · intro h
      rcases h with ⟨-, rfl⟩ | ⟨-, n, hne, hall, -, hword⟩
      · exact Or.inl rfl
      · exact Or.inr ⟨n, ⟨hne, hall⟩, hword, trivial⟩
    · intro h
      rcases h with rfl | ⟨n, hn, hword, -⟩
      · exact Or.inl ⟨⟨q, hclose⟩, rfl⟩
      · refine Or.inr ⟨fun ⟨_, h⟩ => not_word_of_isNumeral hn hword h, n, hn.1, hn.2, ?_, hword⟩
        exact not_startsWith_of_word hclose rfl
  refine (reads_braced (fun _ => reads_anyGreatest) hany).congr fun _ p q => ?_
  rw [braced_iff (P := AnyOrder) fun _ _ => trivial]
  simp only [Language.braces_iff]
  constructor
  · intro h
    rcases h with ⟨_, m, most, w, hw, h, -⟩
    exact ⟨m, most, w, hw, h, fun _ _ => trivial⟩
  · intro h
    rcases h with ⟨m, most, w, hw, h, -⟩
    exact ⟨_, m, most, w, hw, h, rfl⟩

/-! ## Quantifiers -/

/-- A question mark, if there is one. -/
def GreedyMark (p q : Text) : Prop := word ['?'] p q ∨ (¬ ∃ t, word ['?'] p t) ∧ p = q

theorem reads_lazyMark : Reads mode lazyMark fun _ => GreedyMark := by
  refine ((reads_word (by decide)).optional.bind fun _ => .of_pure ()).congr fun _ p q => ?_
  constructor
  · intro h
    rcases h with h | ⟨hnone, rfl⟩
    · exact ⟨some (), q, Or.inl ⟨(), h, rfl⟩, rfl, rfl⟩
    · exact ⟨none, p, Or.inr ⟨fun ⟨_, t, ht⟩ => hnone ⟨t, ht⟩, rfl, rfl⟩, rfl, rfl⟩
  · intro h
    rcases h with ⟨_, t, ⟨_, h, -⟩ | ⟨hnone, -, rfl⟩, -, rfl⟩
    · exact Or.inl h
    · exact Or.inr ⟨fun ⟨t, ht⟩ => hnone ⟨(), t, ht⟩, rfl⟩

/-- A quantifier with the question mark after it, if there is one. -/
inductive GreedyQuantifier : Text → Text → Prop
  | mark {c : Char} {p t q : Text} :
      c ∈ ['*', '+', '?'] → word [c] p t → GreedyMark t q → GreedyQuantifier p q
  | bounds {least : Nat} {most : Option Nat} {p t q : Text} :
      Language.Braces (least, most) p t → (∀ n ∈ most, least ≤ n) → GreedyMark t q →
      GreedyQuantifier p q

theorem bracedQuantifier_eq : bracedQuantifier =
    (do Reader.word ['{']; let m ← digits; afterComma (greatest m); Reader.word ['}']) *>
      lazyMark := by
  simp only [bracedQuantifier, seqRight_eq_bind, bind_assoc]

theorem reads_bracedQuantifier :
    Reads mode bracedQuantifier fun _ p q => ∃ least most t,
      Language.Braces (least, most) p t ∧ (∀ n ∈ most, least ≤ n) ∧ GreedyMark t q := by
  have hordered (m c : _) (u q : Text) (hclose : word ['}'] u q) :
      ((∃ n, run Char.isDigit n c u ∧ Numeral.le m n = true) ∨
          ¬ c.StartsWith Char.isDigit ∧ c = u) ↔
        c = u ∨ ∃ n, Language.IsNumeral n ∧ word n c u ∧ Numeral.le m n = true := by
    constructor
    · intro h
      rcases h with ⟨n, ⟨hne, hall, -, hword⟩, hle⟩ | ⟨-, rfl⟩
      · exact Or.inr ⟨n, ⟨hne, hall⟩, hword, hle⟩
      · exact Or.inl rfl
    · intro h
      rcases h with rfl | ⟨n, hn, hword, hle⟩
      · exact Or.inr ⟨not_startsWith_of_word hclose rfl, rfl⟩
      · exact Or.inl ⟨n, ⟨hn.1, hn.2, not_startsWith_of_word hclose rfl, hword⟩, hle⟩
  rw [bracedQuantifier_eq]
  refine ((reads_braced reads_greatest hordered).seqRight reads_lazyMark).congr fun _ p q => ?_
  have hself (m : List Char) (hm : Language.IsNumeral m) : Numeral.le m m = true :=
    (Numeral.le_iff_value_le hm.2 hm.2).2 (Nat.le_refl _)
  simp only [braced_iff (P := fun m n => Numeral.le m n = true) hself, Language.braces_iff]
  constructor
  · intro h
    rcases h with ⟨_, _, t, ⟨m, most, w, hw, h, hv⟩, hle, hmark⟩
    rcases Prod.mk.inj hv with ⟨rfl, rfl⟩
    exact ⟨(), t, ⟨m, most, w, hw, h, hw.ordered_iff.2 hle⟩, hmark⟩
  · intro h
    rcases h with ⟨_, t, ⟨m, most, w, hw, h, hle⟩, hmark⟩
    exact ⟨_, _, t, ⟨m, most, w, hw, h, rfl⟩, hw.ordered_iff.1 hle, hmark⟩

/-- What the reader of quantifiers takes: a quantifier, or nothing where none stands. Unicode mode
turns down a brace that opens none. -/
def TakenQuantifier (mode : Mode) (p q : Text) : Prop :=
  GreedyQuantifier p q ∨
    (¬ ∃ t, GreedyQuantifier p t) ∧ (mode = .unicode → ¬ ∃ t, word ['{'] p t) ∧ p = q

theorem GreedyQuantifier.bounds_iff {p q : Text} (h : ∃ t, word ['{'] p t) :
    GreedyQuantifier p q ↔ ∃ least most t,
      Language.Braces (least, most) p t ∧ (∀ n ∈ most, least ≤ n) ∧ GreedyMark t q := by
  constructor
  · intro hq
    cases hq with
    | @mark c _ t _ hc hword _ =>
      rcases h with ⟨t', hbrace⟩
      exact absurd hbrace (not_word_of_mem hword hc (by decide))
    | bounds hb hle hmark => exact ⟨_, _, _, hb, hle, hmark⟩
  · intro h
    rcases h with ⟨least, most, t, hb, hle, hmark⟩
    exact .bounds hb hle hmark

theorem GreedyQuantifier.mark_iff {p q : Text} (h : ¬ ∃ t, word ['{'] p t) :
    GreedyQuantifier p q ↔ ∃ w t,
      (w ∈ [['*'], ['+'], ['?']] ∧ word w p t) ∧ GreedyMark t q := by
  constructor
  · intro hq
    cases hq with
    | @mark c _ t _ hc hword hmark =>
      have hmem : [c] ∈ [['*'], ['+'], ['?']] := by simpa using hc
      exact ⟨[c], t, ⟨hmem, hword⟩, hmark⟩
    | bounds hb _ _ => exact absurd (Language.brace_of_braces hb) h
  · intro h
    rcases h with ⟨w, t, ⟨hw, hword⟩, hmark⟩
    obtain ⟨c, hc, rfl⟩ : ∃ c ∈ ['*', '+', '?'], w = [c] := by simpa using hw
    exact .mark hc hword hmark

theorem reads_quantifier : Reads mode (quantifier mode) fun _ => TakenQuantifier mode := by
  refine ((reads_isAt (w := ['{']) (by decide)).bind fun b => Reads.ite (P := b = true)
    (fun _ => reads_bracedQuantifier.orElse Reads.of_guard) fun _ =>
      ((reads_anyWord (by decide) (by decide)).seqRight
        reads_lazyMark).orElse (.of_pure ())).congr fun _ p q => ?_
  -- the reader looks for a brace first, so the two kinds of quantifiers are told apart here too
  by_cases hbrace : ∃ t, word ['{'] p t
  · constructor
    · intro h
      refine ⟨true, p, ⟨by simpa using hbrace, rfl⟩, Or.inl ⟨rfl, ?_⟩⟩
      rcases h with h | ⟨hnone, hmode, rfl⟩
      · exact Or.inl ((GreedyQuantifier.bounds_iff hbrace).1 h)
      · refine Or.inr ⟨?_, ?_, rfl⟩
        · intro h
          rcases h with ⟨_, t, ht⟩
          exact hnone ⟨t, (GreedyQuantifier.bounds_iff hbrace).2 ht⟩
        · cases mode with
          | legacy => rfl
          | unicode => exact absurd hbrace (hmode rfl)
    · intro h
      rcases h with ⟨b, t, ⟨hb, rfl⟩, ⟨-, h | ⟨hnone, hmode, rfl⟩⟩ | ⟨hfalse, -⟩⟩
      · exact Or.inl ((GreedyQuantifier.bounds_iff hbrace).2 h)
      · refine Or.inr ⟨?_, ?_, rfl⟩
        · intro h
          rcases h with ⟨t, ht⟩
          exact hnone ⟨(), t, (GreedyQuantifier.bounds_iff hbrace).1 ht⟩
        · intro heq
          subst heq
          contradiction
      · exact absurd (hb.2 hbrace) hfalse
  · constructor
    · intro h
      refine ⟨false, p, ⟨by simpa using hbrace, rfl⟩, Or.inr ⟨by simp, ?_⟩⟩
      rcases h with h | ⟨hnone, -, rfl⟩
      · exact Or.inl ((GreedyQuantifier.mark_iff hbrace).1 h)
      · refine Or.inr ⟨?_, rfl, rfl⟩
        intro h
        rcases h with ⟨_, t, ht⟩
        exact hnone ⟨t, (GreedyQuantifier.mark_iff hbrace).2 ht⟩
    · intro h
      rcases h with ⟨b, t, ⟨hb, rfl⟩, ⟨htrue, -⟩ | ⟨-, h | ⟨hnone, -, rfl⟩⟩⟩
      · exact absurd (hb.1 htrue) hbrace
      · exact Or.inl ((GreedyQuantifier.mark_iff hbrace).2 h)
      · refine Or.inr ⟨?_, fun _ => hbrace, rfl⟩
        intro h
        rcases h with ⟨t, ht⟩
        exact hnone ⟨(), t, (GreedyQuantifier.mark_iff hbrace).1 ht⟩

/-! ## In the grammar -/

theorem GreedyMark.optionalMark {p q : Text} (h : GreedyMark p q) : Language.OptionalMark p q := by
  rcases h with h | ⟨-, h⟩
  · exact Or.inr h
  · exact Or.inl h

theorem exists_greedyMark (p : Text) : ∃ q, GreedyMark p q := by
  by_cases h : ∃ t, word ['?'] p t
  · rcases h with ⟨t, ht⟩
    exact ⟨t, Or.inl ht⟩
  · exact ⟨p, Or.inr ⟨h, rfl⟩⟩

theorem GreedyQuantifier.quantifier {p q : Text} (h : GreedyQuantifier p q) :
    Language.Quantifier p q := by
  cases h with
  | mark hc hword hmark => exact .mark hc hword hmark.optionalMark
  | bounds hb hle hmark => exact .bounds hb hle hmark.optionalMark

theorem exists_greedyQuantifier_iff {p : Text} :
    (∃ q, GreedyQuantifier p q) ↔ ∃ q, Language.Quantifier p q := by
  constructor
  · intro h
    rcases h with ⟨q, h⟩
    exact ⟨q, h.quantifier⟩
  · intro h
    rcases h with ⟨q, h⟩
    cases h with
    | @mark c _ t _ hc hword _ =>
      rcases exists_greedyMark t with ⟨r, hr⟩
      exact ⟨r, .mark hc hword hr⟩
    | @bounds least most _ t _ hb hle _ =>
      rcases exists_greedyMark t with ⟨r, hr⟩
      exact ⟨r, .bounds hb hle hr⟩

/-- What is taken is a quantifier, or there is none to take. -/
theorem TakenQuantifier.cases {p q : Text} (h : TakenQuantifier mode p q) :
    Language.Quantifier p q ∨ (¬ ∃ t, Language.Quantifier p t) ∧ p = q := by
  rcases h with h | ⟨hnone, -, heq⟩
  · exact Or.inl h.quantifier
  · exact Or.inr ⟨(not_congr exists_greedyQuantifier_iff).1 hnone, heq⟩

/-- Where the text goes on with another term, all of a quantifier is taken. -/
theorem TakenQuantifier.of_quantifier {p q : Text} (h : Language.Quantifier p q)
    (hq : Language.EndsTerm mode q) : TakenQuantifier mode p q := by
  have hmark {t : Text} (ht : Language.OptionalMark t q) : GreedyMark t q := by
    rcases ht with rfl | ht
    · refine Or.inr ⟨hq '?' ?_, rfl⟩
      cases mode <;> decide
    · exact Or.inl ht
  cases h with
  | mark hc hword ht => exact Or.inl (.mark hc hword (hmark ht))
  | bounds hb hle ht => exact Or.inl (.bounds hb hle (hmark ht))

/-- Where no quantifier stands, none is taken. -/
theorem TakenQuantifier.of_none {q : Text} (h : mode = .legacy → ¬ ∃ t, Language.Quantifier q t)
    (hq : Language.EndsTerm mode q) : TakenQuantifier mode q q := by
  refine Or.inr ⟨?_, ?_, rfl⟩
  · rw [exists_greedyQuantifier_iff]
    cases mode with
    | legacy => exact h rfl
    | unicode => exact hq.not_quantifier
  · intro heq
    subst heq
    exact hq '{' (by decide)

/-- Legacy mode reads on whatever follows, with a quantifier or without one. -/
theorem exists_takenQuantifier (p : Text) : ∃ q, TakenQuantifier .legacy p q := by
  by_cases h : ∃ q, GreedyQuantifier p q
  · rcases h with ⟨q, h⟩
    exact ⟨q, Or.inl h⟩
  · exact ⟨p, Or.inr ⟨h, nofun, rfl⟩⟩

end EcmaPattern.Grammar
