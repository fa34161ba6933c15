import EcmaPattern.Options
import EcmaPattern.Proofs.Language.Form
import EcmaPattern.Proofs.Text.NumeralOrder

namespace EcmaPattern.Language

open Form

/-! # The language of quantifiers -/

/-- A decimal numeral of any length. -/
def IsNumeral (digits : List Char) : Prop := digits ≠ [] ∧ ∀ d ∈ digits, d.isDigit = true

/-- Bounds in braces: `{m}`, `{m,}` or `{m,n}`, in any order. They mean the least and the greatest
number of repetitions. -/
inductive Braces : Form (Nat × Option Nat)
  | exact {m : List Char} {p q : Text} :
      IsNumeral m → word (['{'] ++ m ++ ['}']) p q →
      Braces (Numeral.value 10 m, some (Numeral.value 10 m)) p q
  | atLeast {m : List Char} {p q : Text} :
      IsNumeral m → word (['{'] ++ m ++ [',', '}']) p q → Braces (Numeral.value 10 m, none) p q
  | between {m n : List Char} {p q : Text} :
      IsNumeral m → IsNumeral n → word (['{'] ++ m ++ [','] ++ n ++ ['}']) p q →
      Braces (Numeral.value 10 m, some (Numeral.value 10 n)) p q

/-- A word that is bounds in braces, with the numerals that it is written with. The second one is
missing where no number follows a comma. -/
inductive BracesWord : List Char → Option (List Char) → List Char → Prop
  | exact {m : List Char} : IsNumeral m → BracesWord m (some m) (['{'] ++ m ++ ['}'])
  | atLeast {m : List Char} : IsNumeral m → BracesWord m none (['{'] ++ m ++ [',', '}'])
  | between {m n : List Char} :
      IsNumeral m → IsNumeral n → BracesWord m (some n) (['{'] ++ m ++ [','] ++ n ++ ['}'])

theorem braces_iff {v : Nat × Option Nat} {p q : Text} : Braces v p q ↔
    ∃ m most w, BracesWord m most w ∧ word w p q ∧
      v = (Numeral.value 10 m, most.map (Numeral.value 10)) := by
  constructor
  · intro h
    cases h with
    | exact hm h => exact ⟨_, _, _, .exact hm, h, rfl⟩
    | atLeast hm h => exact ⟨_, _, _, .atLeast hm, h, rfl⟩
    | between hm hn h => exact ⟨_, _, _, .between hm hn, h, rfl⟩
  · intro h
    rcases h with ⟨m, most, w, hw, h, rfl⟩
    cases hw with
    | exact hm => exact .exact hm h
    | atLeast hm => exact .atLeast hm h
    | between hm hn => exact .between hm hn h

/-- What follows the least number `m` of bounds in braces. -/
inductive BracesTail (m : List Char) : Option (List Char) → Text → Text → Prop
  | exact {p q : Text} : word ['}'] p q → BracesTail m (some m) p q
  | atLeast {p t q : Text} : word [','] p t → word ['}'] t q → BracesTail m none p q
  | between {n : List Char} {p t u q : Text} :
      word [','] p t → run Char.isDigit n t u → word ['}'] u q → BracesTail m (some n) p q

/-- A numeral of such a word ends where a comma or the closing brace stands. -/
theorem BracesWord.parts {m w : List Char} {most : Option (List Char)} {p q : Text}
    (h : BracesWord m most w) (hw : word w p q) :
    ∃ t s, word ['{'] p t ∧ run Char.isDigit m t s ∧ BracesTail m most s q := by
  have hrun {n v : List Char} {c : Char} {t s r : Text} (hn : IsNumeral n) (hword : word n t s)
      (hend : word (c :: v) s r) (hc : c.isDigit = false) : run Char.isDigit n t s :=
    ⟨hn.1, hn.2, not_startsWith_of_word hend hc, hword⟩
  cases h with
  | exact hm =>
    rcases word_append.1 hw with ⟨s, hpre, hclose⟩
    rcases word_append.1 hpre with ⟨t, hopen, hm'⟩
    exact ⟨t, s, hopen, hrun hm hm' hclose rfl, .exact hclose⟩
  | atLeast hm =>
    rcases word_append.1 hw with ⟨s, hpre, hend⟩
    rcases word_append.1 hpre with ⟨t, hopen, hm'⟩
    rcases (word_append (v := [',']) (w := ['}'])).1 hend with ⟨c, hcomma, hclose⟩
    exact ⟨t, s, hopen, hrun hm hm' hcomma rfl, .atLeast hcomma hclose⟩
  | between hm hn =>
    rcases word_append.1 hw with ⟨u, hpre, hclose⟩
    rcases word_append.1 hpre with ⟨c, hpre, hn'⟩
    rcases word_append.1 hpre with ⟨s, hpre, hcomma⟩
    rcases word_append.1 hpre with ⟨t, hopen, hm'⟩
    exact ⟨t, s, hopen, hrun hm hm' hcomma rfl, .between hcomma (hrun hn hn' hclose rfl) hclose⟩

theorem BracesTail.unique {m : List Char} {most most' : Option (List Char)} {p q r : Text}
    (h : BracesTail m most p q) (h' : BracesTail m most' p r) : most = most' ∧ q = r := by
  have hdigit {n : List Char} {t u s : Text} (hn : run Char.isDigit n t u) : ¬ word ['}'] t s := by
    intro hclose
    exact not_startsWith_of_word hclose rfl (startsWith_of_run hn)
  cases h with
  | exact hclose =>
    cases h' with
    | exact hclose' => exact ⟨rfl, word_unique hclose hclose'⟩
    | atLeast hcomma _ => exact absurd hcomma (not_word_of_word hclose (by decide))
    | between hcomma _ _ => exact absurd hcomma (not_word_of_word hclose (by decide))
  | atLeast hcomma hclose =>
    cases h' with
    | exact hclose' => exact absurd hclose' (not_word_of_word hcomma (by decide))
    | atLeast hcomma' hclose' =>
      obtain rfl := word_unique hcomma hcomma'
      exact ⟨rfl, word_unique hclose hclose'⟩
    | between hcomma' hn _ =>
      obtain rfl := word_unique hcomma hcomma'
      exact absurd hclose (hdigit hn)
  | between hcomma hn hclose =>
    cases h' with
    | exact hclose' => exact absurd hclose' (not_word_of_word hcomma (by decide))
    | atLeast hcomma' hclose' =>
      obtain rfl := word_unique hcomma hcomma'
      exact absurd hclose' (hdigit hn)
    | between hcomma' hn' hclose' =>
      obtain rfl := word_unique hcomma hcomma'
      rcases run_unique hn hn' with ⟨rfl, rfl⟩
      exact ⟨rfl, word_unique hclose hclose'⟩

/-- At most one such word stands in a place. -/
theorem BracesWord.unique {m m' w w' : List Char} {most most' : Option (List Char)} {p q r : Text}
    (h : BracesWord m most w) (h' : BracesWord m' most' w') (hw : word w p q) (hw' : word w' p r) :
    m = m' ∧ most = most' ∧ q = r := by
  rcases h.parts hw with ⟨t, s, hopen, hm, htail⟩
  rcases h'.parts hw' with ⟨t', s', hopen', hm', htail'⟩
  obtain rfl := word_unique hopen hopen'
  rcases run_unique hm hm' with ⟨rfl, rfl⟩
  exact ⟨rfl, htail.unique htail'⟩

/-- Comparing the numerals compares the values. -/
theorem BracesWord.ordered_iff {m w : List Char} {most : Option (List Char)}
    (h : BracesWord m most w) : (∀ n ∈ most, Numeral.le m n = true) ↔
      ∀ n ∈ most.map (Numeral.value 10), Numeral.value 10 m ≤ n := by
  cases h with
  | exact hm => simp [Numeral.le_iff_value_le hm.2 hm.2]
  | atLeast hm => simp
  | between hm hn => simp [Numeral.le_iff_value_le hm.2 hn.2]

/-- A question mark, or nothing. -/
def OptionalMark (p q : Text) : Prop := p = q ∨ word ['?'] p q

/-- A quantifier: a mark or ordered bounds, and a question mark if it is lazy. -/
inductive Quantifier : Text → Text → Prop
  | mark {c : Char} {p t q : Text} :
      c ∈ ['*', '+', '?'] → word [c] p t → OptionalMark t q → Quantifier p q
  | bounds {least : Nat} {most : Option Nat} {p t q : Text} :
      Braces (least, most) p t → (∀ n ∈ most, least ≤ n) → OptionalMark t q → Quantifier p q

/-- The characters that no term starts with, because they would go on with the one before. -/
def quantifierStarts : Mode → List Char
  | .unicode => ['*', '+', '?', '{']
  | .legacy => ['*', '+', '?']

/-- A text that does not go on with a term before it. -/
def EndsTerm (mode : Mode) (p : Text) : Prop := ∀ c ∈ quantifierStarts mode, ¬ ∃ t, word [c] p t

theorem brace_of_braces {v : Nat × Option Nat} {p q : Text} (h : Braces v p q) :
    ∃ t, word ['{'] p t := by
  cases h with
  | exact _ h => exact ⟨_, h⟩
  | atLeast _ h => exact ⟨_, h⟩
  | between _ _ h => exact ⟨_, h⟩

/-- A quantifier starts with a character that no term of Unicode mode starts with. -/
theorem EndsTerm.not_quantifier {p : Text} (h : EndsTerm .unicode p) :
    ¬ ∃ q, Quantifier p q := by
  rintro ⟨q, hq⟩
  cases hq with
  | mark hc hword _ => exact h _ (List.mem_append_left ['{'] hc) ⟨_, hword⟩
  | bounds hb _ _ => exact h '{' (by decide) (brace_of_braces hb)

theorem length_le_of_optionalMark {p q : Text} (h : OptionalMark p q) : q.length ≤ p.length := by
  rcases h with rfl | h
  · exact Nat.le_refl _
  · exact Nat.le_of_lt (length_lt_of_word h)

theorem length_lt_of_quantifier {p q : Text} (h : Quantifier p q) : q.length < p.length := by
  cases h with
  | mark _ h hmark =>
    have := length_lt_of_word h
    have := length_le_of_optionalMark hmark
    omega
  | bounds h _ hmark =>
    have := length_le_of_optionalMark hmark
    cases h with
    | exact _ h =>
      have := length_lt_of_word h
      omega
    | atLeast _ h =>
      have := length_lt_of_word h
      omega
    | between _ _ h =>
      have := length_lt_of_word h
      omega

theorem not_quantifier_nil : ¬ ∃ q, Quantifier [] q := by
  rintro ⟨q, h⟩
  exact absurd (length_lt_of_quantifier h) (Nat.not_lt_zero _)

end EcmaPattern.Language
