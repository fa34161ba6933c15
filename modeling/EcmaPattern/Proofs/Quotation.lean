import EcmaPattern.Proofs.Alternation
import EcmaPattern.Proofs.Language.Relaxation

namespace EcmaPattern

open CodeUnit Form
open EcmaPattern.Language (Derives)

/-! # Quotation

A text in which a backslash stands before each character that means something else than itself is a
pattern, whatever the text is: no neighbours in it are read together as something longer.
-/

/-- The text with a backslash before each of the characters `special`. -/
def quote (special text : List Char) : List Char :=
  text.flatMap fun c => if c ∈ special then ['\\', c] else [c]

/-- Texts in which the characters `special` stand only after a backslash of their own. -/
inductive Quoted (special : List Char) : Text → Prop
  | nil : Quoted special []
  | plain {n : Nat} {p : Text} :
      n ∉ Text.ofWord special → Quoted special p → Quoted special (n :: p)
  | escaped {c : Char} {p : Text} :
      c ∈ special → Quoted special p → Quoted special ('\\'.toNat :: c.toNat :: p)

variable {mode : Mode} {special : List Char} {c : Char} {p q : Text}

/-! ## Quoted texts -/

theorem Quoted.append (hp : Quoted special p) (hq : Quoted special q) :
    Quoted special (p ++ q) := by
  induction hp with
  | nil => exact hq
  | plain hn _ ih => exact .plain hn ih
  | escaped hc _ ih => exact .escaped hc ih

theorem quoted_of_forall (h : ∀ n ∈ p, n ∉ Text.ofWord special) : Quoted special p := by
  induction p with
  | nil => exact .nil
  | cons n p ih =>
    rw [List.forall_mem_cons] at h
    exact .plain h.1 (ih h.2)

/-- A character is read as itself or, in legacy mode, as two surrogates. -/
theorem eq_or_le_of_mem_decode {n : Nat} (hn : n ∈ decode mode (encode [c])) :
    n = c.toNat ∨ 0xD800 ≤ n := by
  by_cases hone : Whole mode [c]
  · rw [decode_encode_of_whole hone] at hn
    exact Or.inl (List.mem_singleton.1 hn)
  · obtain ⟨hmode, hc⟩ : mode = .legacy ∧ ¬ c.toNat < 0x10000 := by
      simpa [Whole] using hone
    have hle : 0xD800 ≤ Surrogate.lead c.toNat ∧ 0xD800 ≤ Surrogate.trail c.toNat := by
      unfold Surrogate.lead Surrogate.trail
      omega
    have htwo : ofChar c = [.ofNat (Surrogate.lead c.toNat), .ofNat (Surrogate.trail c.toNat)] :=
      if_neg hc
    subst hmode
    rw [encode_cons, htwo, encode_nil, List.append_nil] at hn
    rcases List.mem_map.1 hn with ⟨u, hu, rfl⟩
    simp only [List.mem_cons, List.not_mem_nil, or_false] at hu
    rcases hu with rfl | rfl
    · rw [toNat_lead (toNat_le c)]
      exact Or.inr hle.1
    · rw [toNat_trail]
      exact Or.inr hle.2

/-- What is quoted is read as a quoted text. -/
theorem quoted_decode_quote (mode : Mode) (hascii : ∀ c ∈ special, c.toNat < 0x80)
    (text : List Char) : Quoted special (decode mode (encode (quote special text))) := by
  induction text with
  | nil => simpa [quote] using Quoted.nil
  | cons c text ih =>
    rw [quote, List.flatMap_cons, decode_encode_append_encode]
    refine Quoted.append ?_ ih
    by_cases hc : c ∈ special
    · have hwhole : ∀ d ∈ ['\\', c], d.toNat < 0x80 := by simpa using hascii c hc
      rw [if_pos hc, decode_encode_of_whole (whole_of_ascii hwhole)]
      exact .escaped hc .nil
    · rw [if_neg hc]
      refine quoted_of_forall fun n hn hmem => ?_
      rcases List.mem_map.1 hmem with ⟨d, hd, rfl⟩
      rcases eq_or_le_of_mem_decode hn with heq | hle
      · exact hc (Char.toNat_inj.1 heq ▸ hd)
      · have := hascii d hd
        omega

/-- No quoted character stands in front. -/
theorem Quoted.not_word (h : Quoted special p) (hc : c ∈ special) (hback : c ≠ '\\') :
    ¬ ∃ t, word [c] p t := by
  rintro ⟨t, ht⟩
  cases h with
  | nil => contradiction
  | plain hn _ =>
    obtain ⟨rfl, -⟩ := List.cons.inj ht
    exact hn (Text.mem_ofWord.2 hc)
  | escaped _ _ => exact hback (Char.toNat_inj.1 (List.cons.inj ht).1).symm

/-! ## Outside of classes -/

namespace Language

theorem not_quantifier_of_quoted (h : Quoted (syntaxCharacters .unicode) p) :
    ¬ ∃ q, Quantifier p q := by
  have hstarts : ∀ c ∈ quantifierStarts .unicode, c ∈ syntaxCharacters .unicode ∧ c ≠ '\\' := by
    decide
  refine EndsTerm.not_quantifier fun c hc => ?_
  exact h.not_word (hstarts c hc).1 (hstarts c hc).2

/-- A syntax character may be escaped in both modes. -/
theorem atomEscape_of_special (mode : Mode) (hc : c ∈ syntaxCharacters .unicode) (q : Text) :
    AtomEscape mode {} (c.toNat :: q) q := by
  cases mode with
  | unicode =>
    have hidentity : identity .unicode c.toNat (c.toNat :: q) q :=
      ⟨rfl, Text.mem_ofWord.2 (List.mem_cons_of_mem _ hc)⟩
    exact ⟨(identity .unicode).as {}, by simp [atomEscapes], _, rfl, hidentity⟩
  | legacy =>
    have hdisj : ∀ c ∈ syntaxCharacters .unicode, c ∉ escapeStarts := by decide
    exact atomEscape_of_identity (hdisj c hc) q

theorem derives_of_quoted (mode : Mode) (room : Nat) (h : Quoted (syntaxCharacters .unicode) p) :
    Derives mode room .alternative {} p [] := by
  have hterm {p q : Text} (h : Derives mode room .atom {} p q)
      (hq : Quoted (syntaxCharacters .unicode) q) : Derives mode room .term {} p q :=
    .plain (quantifiable_atom mode) h fun _ => not_quantifier_of_quoted hq
  -- each character and each escape is an atom that no quantifier follows
  induction h with
  | nil => exact .nil
  | @plain n p hn hp ih =>
    have hspecial : n ∉ Text.ofWord (syntaxCharacters mode) := by
      have hsub : syntaxCharacters mode ⊆ syntaxCharacters .unicode := by
        cases mode <;> decide
      exact fun hmem => hn (List.map_subset _ hsub hmem)
    refine .cons (hterm (.character hspecial fun _ h => ?_) hp) ih
    rcases h with ⟨v, r, h⟩
    exact (Quoted.plain hn hp).not_word (by decide) (by decide) (brace_of_braces h)
  | @escaped c p hc hp ih =>
    have hback : word ['\\'] ('\\'.toNat :: c.toNat :: p) (c.toNat :: p) := rfl
    have hedge : ∀ d ∈ ['b', 'B'], d ∉ syntaxCharacters .unicode := by decide
    refine .cons (hterm (.escape (fun _ => ?_) ⟨_, hback, atomEscape_of_special mode hc p⟩) hp) ih
    refine not_edge_of_escape hback fun d hd ⟨r, hr⟩ => hedge d hd ?_
    exact Char.toNat_inj.1 (List.cons.inj hr).1 ▸ hc

/-! ## In classes -/

/-- The characters that do not always stand for themselves in a class. -/
def classSyntaxCharacters : List Char := ['\\', ']', '-', '^']

theorem classEscape_of_special (mode : Mode) (hc : c ∈ classSyntaxCharacters) (q : Text) :
    ClassEscape mode (some c.toNat) (c.toNat :: q) q := by
  cases mode with
  | unicode =>
    by_cases hdash : c = '-'
    · subst hdash
      exact ⟨written '-' '-'.toNat, by simp [classEscapes], rfl, rfl⟩
    · have hspecial : ∀ c ∈ classSyntaxCharacters, c ≠ '-' → c ∈ syntaxCharacters .unicode := by
        decide
      have hidentity : identity .unicode c.toNat (c.toNat :: q) q :=
        ⟨rfl, Text.mem_ofWord.2 (List.mem_cons_of_mem _ (hspecial c hc hdash))⟩
      exact ⟨(identity .unicode).map some, by simp [classEscapes], _, rfl, hidentity⟩
  | legacy =>
    have hdisj : ∀ c ∈ classSyntaxCharacters, c ∉ escapeStarts := by decide
    exact classEscape_of_identity (hdisj c hc) q

/-- In a quoted text no atom is a dash, so all of them stand for themselves. -/
theorem nonemptyNoDash_of_quoted (mode : Mode) (h : Quoted classSyntaxCharacters p) (q : Text) :
    p = [] ∨ ClassRanges mode .nonemptyNoDash (p ++ q) q := by
  have hcons {v : Option Nat} {p t : Text} (h : ClassAtomNoDash mode v (t ++ q) (p ++ q))
      (ih : p = [] ∨ ClassRanges mode .nonemptyNoDash (p ++ q) q) :
      ClassRanges mode .nonemptyNoDash (t ++ q) q := by
    rcases ih with rfl | ih
    · exact .last (.noDash h)
    · exact .consNoDash h ih
  induction h with
  | nil => exact Or.inl rfl
  | @plain n p hn _ ih =>
    have hsub : Text.ofWord [']', '-', '\\'] ⊆ Text.ofWord classSyntaxCharacters := by decide
    exact Or.inr (hcons (t := n :: p) (.character fun hmem => hn (hsub hmem)) ih)
  | @escaped c p hc _ ih =>
    have hescape : after ['\\'] (ClassEscape mode) (some c.toNat)
        ('\\'.toNat :: c.toNat :: (p ++ q)) (p ++ q) :=
      ⟨_, rfl, classEscape_of_special mode hc (p ++ q)⟩
    exact Or.inr (hcons (t := '\\'.toNat :: c.toNat :: p) (.escape hescape) ih)

theorem characterClass_of_quoted (mode : Mode) (h : Quoted classSyntaxCharacters p) :
    CharacterClass mode ('['.toNat :: (p ++ [']'.toNat])) [] := by
  have hcaret : ¬ ∃ t, word ['^'] (p ++ [']'.toNat]) t := by
    rintro ⟨t, ht⟩
    cases p with
    | nil => exact absurd (List.cons.inj ht).1 (by decide)
    | cons n p =>
      obtain ⟨rfl, -⟩ := List.cons.inj ht
      exact h.not_word (c := '^') (by decide) (by decide) ⟨p, rfl⟩
  refine .plain rfl hcaret (r := [']'.toNat]) ?_ rfl
  rcases nonemptyNoDash_of_quoted mode h [']'.toNat] with rfl | hranges
  · exact .empty
  · exact .nonempty (nonempty_of_nonemptyNoDash hranges)

theorem derives_of_quoted_class (mode : Mode) (room : Nat) (h : Quoted classSyntaxCharacters p) :
    Derives mode room .alternative {} ('['.toNat :: (p ++ [']'.toNat])) [] :=
  .cons (.plain (quantifiable_atom mode) (.characterClass (characterClass_of_quoted mode h))
    fun _ => not_quantifier_nil) .nil

end Language

/-! ## Acceptance -/

theorem accepts_of_derives {options : Options} {pattern : String}
    (h : Derives options.mode options.nestingLimit.toNat .alternative {}
      (decode options.mode (encode pattern.toList)) []) : accepts options pattern = true := by
  refine (accepts_iff_of_derives (e := {}) List.nodup_nil (.single h) fun _ => by decide).2 ?_
  exact ⟨fun _ => nofun, fun _ => nofun⟩

/-- A quoted text is a pattern, and in brackets it is a class. -/
theorem accepts_quote (options : Options) (text : String) :
    accepts options (.ofList (quote (Grammar.specialCharacters .unicode) text.toList)) = true ∧
      accepts options (.ofList (['['] ++ quote ['\\', ']', '-', '^'] text.toList ++ [']'])) =
        true := by
  constructor
  · refine accepts_of_derives ?_
    rw [String.toList_ofList]
    exact Language.derives_of_quoted _ _ (quoted_decode_quote _ (by decide) text.toList)
  · refine accepts_of_derives ?_
    have hopen : decode options.mode (encode ['[']) = ['['.toNat] :=
      decode_encode_of_whole (whole_of_ascii (by decide))
    have hclose : decode options.mode (encode [']']) = [']'.toNat] :=
      decode_encode_of_whole (whole_of_ascii (by decide))
    rw [String.toList_ofList, decode_encode_append_encode, decode_encode_append_encode, hopen,
      hclose]
    exact Language.derives_of_quoted_class _ _ (quoted_decode_quote _ (by decide) text.toList)

end EcmaPattern
