import EcmaPattern.Proofs.Atomicity
import EcmaPattern.Proofs.Scan.Place

namespace EcmaPattern

open CodeUnit Form Recognizer
open EcmaPattern.Language (PropertyExpression)
open EcmaPattern.Scan (Flags)

/-! # Property escapes

What stands between the braces of a property escape is a name with one of its values or a name
alone, and all of it up to the first closing brace. The name with a value is tried first; where it
fails, a name alone is tried at the same place, but that never makes up for it.
-/

variable {mode : Mode} {σ : Settings} {s s' : State} {c : Char} {e : List Char} {p q : Text}
variable {text rest : List CodeUnit}

/-! ## Recognizers that only note -/

namespace Recognizer

variable {α : Type} {r : Reader α} {p q : Recognizer} {ps : List Recognizer}

/-- In each state `p` moves on and makes notes, and finds out nothing about groups and references. -/
def OnlyNotes (p : Recognizer) : Prop := ∀ s : State, ∃ rest log, (p s).2 = { s with rest, log }

theorem onlyNotes_reading {p : α → Recognizer} (hp : ∀ a, (p a).OnlyNotes) :
    (reading r p).OnlyNotes := by
  intro s
  rw [reading]
  split
  next a rest hrun => exact hp a { s with rest }
  next => exact ⟨s.rest, s.log, rfl⟩

theorem onlyNotes_plain : (plain r).OnlyNotes :=
  onlyNotes_reading fun _ s => ⟨s.rest, s.log, rfl⟩

theorem OnlyNotes.attempt (hp : p.OnlyNotes) (rollback : Rollback) :
    (attempt rollback p).OnlyNotes := by
  intro s
  rcases hp s with ⟨rest, log, hstate⟩
  cases h : (p s).1.isMatch with
  | true => exact ⟨rest, log, by rw [attempt_of_match h, hstate]⟩
  | false =>
    refine ⟨s.rest, log, ?_⟩
    rw [attempt_of_noMatch h, hstate]
    cases rollback <;> rfl

theorem OnlyNotes.followedBy (hp : p.OnlyNotes) (hq : q.OnlyNotes) :
    (p.followedBy q).OnlyNotes := by
  intro s
  rcases hp s with ⟨rest, log, hstate⟩
  cases h : (p s).1.isMatch with
  | true =>
    rw [followedBy_of_match h, hstate]
    exact hq { s with rest, log }
  | false => exact ⟨rest, log, by rw [followedBy_of_noMatch h, hstate]⟩

theorem onlyNotes_anyOf (h : ∀ p ∈ ps, p.OnlyNotes) : (anyOf ps).OnlyNotes := by
  induction ps with
  | nil => exact fun s => ⟨s.rest, s.log, rfl⟩
  | cons p ps ih =>
    rw [List.forall_mem_cons] at h
    intro s
    rcases h.1 s with ⟨rest, log, hstate⟩
    cases hmatch : (p s).1.isMatch with
    | true => exact ⟨rest, log, by rw [anyOf_cons_of_match hmatch, hstate]⟩
    | false =>
      rw [anyOf_cons_of_noMatch hmatch, hstate]
      exact ih h.2 { s with rest, log }

end Recognizer

namespace Grammar

theorem onlyNotes_valuedProperty : valuedProperty.OnlyNotes := by
  refine onlyNotes_reading fun _ s => ?_
  dsimp only
  split
  · exact ⟨s.rest, s.log, rfl⟩
  · exact ⟨s.rest, _, rfl⟩

theorem onlyNotes_setEscape : (setEscape σ).OnlyNotes := by
  have hforms : ∀ p ∈ propertyForms σ, p.OnlyNotes := by
    simp only [propertyForms, List.forall_mem_cons]
    exact ⟨onlyNotes_valuedProperty.attempt _, onlyNotes_plain.attempt _, List.forall_mem_nil _⟩
  have hproperty : (propertyEscape σ).OnlyNotes :=
    (onlyNotes_reading fun _ => (onlyNotes_anyOf hforms).followedBy onlyNotes_plain).attempt _
  rw [setEscape]
  split
  · exact onlyNotes_plain
  · refine onlyNotes_anyOf ?_
    simp only [List.forall_mem_cons]
    exact ⟨onlyNotes_plain, hproperty, List.forall_mem_nil _⟩

/-- A set escape that fails leaves no more than a note. -/
theorem setEscape_of_noMatch (h : (setEscape σ s).1.isMatch = false) :
    (setEscape σ s).2 = { s with log := (setEscape σ s).2.log } := by
  have hrest := (atomic_setEscape s h).rest
  rcases onlyNotes_setEscape (σ := σ) s with ⟨rest, log, hstate⟩
  rw [hstate] at hrest ⊢
  obtain rfl : rest = s.rest := hrest
  rfl

end Grammar

/-! ## The language -/

namespace Language

theorem not_mem_close_of_propertyExpression (h : PropertyExpression e) : '}' ∉ e := by
  have hkind {P : Char → Bool} {w : List Char} (hclose : P '}' = false)
      (hw : ∀ c ∈ w, P c = true) : '}' ∉ w := by
    intro hmem
    rw [hw _ hmem] at hclose
    contradiction
  cases h with
  | valued _ hname _ hvalue _ =>
    simp only [List.mem_append, not_or]
    exact ⟨⟨hkind rfl hname, by decide⟩, hkind rfl hvalue⟩
  | lone _ hname _ _ => exact hkind rfl hname

/-- Where a property escape starts, no other escape for a set does. -/
theorem setForms_iff {t : Text} {v : Option Nat} (hc : c ∈ ['p', 'P']) (hopen : word [c, '{'] p t) :
    (First (Grammar.setForms .unicode)).as none v p q ↔
      v = none ∧ ∃ e, PropertyExpression e ∧ word (e ++ ['}']) t q := by
  have hletter : ¬ setLetter.Applies p := by
    rintro ⟨d, r, hd, h⟩
    have hother : ∀ d ∈ ['d', 'D', 's', 'S', 'w', 'W'], d ∉ ['p', 'P'] := by decide
    exact not_word_of_mem hopen hc (hother d hd) h
  have hproperty {d : Char} : property d p q ↔
      d = c ∧ ∃ e, PropertyExpression e ∧ word (e ++ ['}']) t q := by
    constructor
    · rintro ⟨-, e, he, h⟩
      obtain rfl : d = c := word_head_unique h hopen
      rw [List.append_assoc] at h
      exact ⟨rfl, e, he, word_rest hopen h⟩
    · rintro ⟨rfl, e, he, h⟩
      refine ⟨hc, e, he, ?_⟩
      rw [List.append_assoc]
      exact word_append.2 ⟨t, hopen, h⟩
  constructor
  · rintro ⟨d, rfl, h⟩
    rw [Grammar.setForms, first_cons, first_singleton] at h
    rcases h with h | ⟨-, h⟩
    · exact absurd ⟨d, q, h⟩ hletter
    · exact ⟨rfl, (hproperty.1 h).2⟩
  · rintro ⟨rfl, he⟩
    exact ⟨c, rfl, .later hletter (.here (hproperty.2 ⟨rfl, he⟩))⟩

/-- Of the escapes of one place only that of a property starts with `p` or `P`. -/
theorem property_of_apart {α : Type} {forms : List (Form α)} {cs : List Char} {b : α}
    (hapart : Apart forms cs) (hmem : property.as b ∈ forms) (hc : c ∈ ['p', 'P'])
    (h : ∃ v r, ∃ R ∈ forms, R v (c.toNat :: q) r) : property.Applies (c.toNat :: q) := by
  have hlone : PropertyExpression ['L', 'u'] :=
    .lone (by decide) (by decide) (by decide +kernel) (by decide +kernel)
  have hproperty : (property.as b).Applies (c.toNat :: Text.ofWord ['{', 'L', 'u', '}']) :=
    applies_map.2 ⟨c, [], hc, _, hlone, rfl⟩
  rcases h with ⟨v, r, R, hR, h⟩
  obtain rfl : R = property.as b := hapart.eq_of_applies hR hmem ⟨v, r, h⟩ hproperty
  exact applies_map.1 ⟨v, r, h⟩

end Language

theorem Scan.Escaped.property {inClass : Bool} (h : Scan.Escaped inClass (c.toNat :: q))
    (hc : c ∈ ['p', 'P']) : Language.property.Applies (c.toNat :: q) := by
  have hother : ∀ c ∈ ['p', 'P'], c ∉ ['b', 'B', 'u'] := by decide
  obtain ⟨hatom, hclass⟩ := h.applies (hother c hc)
  have hatomMem : Language.property.as ({} : Evidence) ∈ Language.atomEscapes .unicode := by
    simp [Language.atomEscapes]
  have hclassMem : Language.property.as (none : Option Nat) ∈ Language.classEscapes .unicode := by
    simp [Language.classEscapes]
  cases inClass with
  | false => exact Language.property_of_apart Language.apart_atomEscapes hatomMem hc (hatom rfl)
  | true => exact Language.property_of_apart Grammar.apart_classEscapes hclassMem hc (hclass rfl)

/-! ## States -/

namespace Grammar

/-- What a property escape matches in a state, and where it ends. -/
theorem setEscape_of_property (hmode : σ.mode = .unicode) (hc : c ∈ ['p', 'P'])
    (hrest : s.rest = encode [c, '{'] ++ text) :
    ((setEscape σ s).1.isMatch = true ↔
      ∃ e rest, PropertyExpression e ∧ text = encode (e ++ ['}']) ++ rest) ∧
    ∀ e rest, PropertyExpression e → text = encode (e ++ ['}']) ++ rest →
      (setEscape σ s).2 = { s with rest } := by
  have hwhole (w : List Char) : Whole .unicode w := nofun
  have hopen : word [c, '{'] (decode .unicode s.rest) (decode .unicode text) :=
    (word_decode_iff (hwhole _)).2 hrest
  have hfound : Found .unicode .character s (setEscape σ s) _ :=
    (recognizes_setEscape hmode s).congr fun v q => (Language.setForms_iff hc hopen).symm
  have hcomplete {e : List Char} {rest : List CodeUnit} (he : PropertyExpression e)
      (htext : text = encode (e ++ ['}']) ++ rest) :=
    hfound.complete none (decode .unicode rest) ⟨rfl, e, he, (word_decode_iff (hwhole _)).2 htext⟩
      fresh_nil
  constructor
  · constructor
    · intro h
      rcases hfound.sound h with ⟨v, rest, -, -, ⟨-, e, he, hword⟩, -⟩
      exact ⟨e, rest, he, (word_decode_iff (hwhole _)).1 hword⟩
    · rintro ⟨e, rest, he, htext⟩
      exact (hcomplete he htext).1
  · intro e rest he htext
    rcases (hcomplete he htext).2.2 with ⟨rest', hstate, hdecode⟩
    obtain rfl : rest' = rest := decode_injective .unicode hdecode
    exact hstate.trans State.moved_eq_read.symm

end Grammar

/-! ## Patterns -/

/-- In a text that is accepted, what follows the brace of a property escape is an expression and the
closing brace. -/
theorem exists_property_of_accepts {limit : UInt64} {pattern : String} {before after : List Char}
    (h : accepts { mode := .unicode, nestingLimit := limit } pattern = true)
    (hsplit : pattern.toList = before ++ '\\' :: c :: '{' :: after) (hc : c ∈ ['p', 'P'])
    (hplace : (Flags.after {} (Text.ofWord before)).escaped = false) :
    ∃ e after', PropertyExpression e ∧ after = e ++ '}' :: after' := by
  have hescaped := Scan.escaped_of_accepts h hsplit (List.cons_ne_nil _ _) hplace
  rcases hescaped.property hc with ⟨d, q, -, e, he, hword⟩
  have hopen : word [c, '{'] (Text.ofWord (c :: '{' :: after)) (Text.ofWord after) := rfl
  obtain rfl : d = c := word_head_unique hword hopen
  rw [List.append_assoc] at hword
  have hprefix : Text.ofWord (e ++ ['}']) <+: Text.ofWord after := ⟨q, (word_rest hopen hword).symm⟩
  rcases Text.ofWord_prefix_iff.1 hprefix with ⟨after', rfl⟩
  exact ⟨e, after', he, by simp⟩

/-- A property escape of Unicode mode is matched if and only if what stands between its brace and the
first closing one is a property with one of its values or a name that may stand alone; then exactly
that is read. Where it is not matched nothing is read or found out, though a note may be left; and
no text with it is accepted, whether it stands in a class or not. -/
theorem property_escape_exact (limit : UInt64) :
    let options : Options := { mode := .unicode, nestingLimit := limit }
    let escape := Grammar.setEscape options.settings
    (∀ s c text, c ∈ ['p', 'P'] → s.rest = encode [c, '{'] ++ text →
      ((escape s).1.isMatch = true ↔
        ∃ e rest, '}' ∉ e ∧ PropertyExpression e ∧ text = encode (e ++ ['}']) ++ rest) ∧
      (∀ e rest, PropertyExpression e → text = encode (e ++ ['}']) ++ rest →
        (escape s).2 = { s with rest }) ∧
      ((escape s).1.isMatch = false → (escape s).2 = { s with log := (escape s).2.log })) ∧
    ∀ pattern before c after, pattern.toList = before ++ '\\' :: c :: '{' :: after →
      c ∈ ['p', 'P'] → (Flags.after {} (Text.ofWord before)).escaped = false →
      (¬ ∃ e after', '}' ∉ e ∧ PropertyExpression e ∧ after = e ++ '}' :: after') →
      accepts options pattern = false := by
  intro options escape
  constructor
  · intro s c text hc hrest
    obtain ⟨hmatch, hread⟩ := Grammar.setEscape_of_property (σ := options.settings) rfl hc hrest
    refine ⟨hmatch.trans ?_, hread, Grammar.setEscape_of_noMatch⟩
    refine exists_congr fun e => exists_congr fun rest => ?_
    rw [and_iff_right_of_imp fun h => Language.not_mem_close_of_propertyExpression h.1]
  · intro pattern before c after hsplit hc hplace hnone
    rw [Bool.eq_false_iff]
    intro h
    rcases exists_property_of_accepts h hsplit hc hplace with ⟨e, after', he, hafter⟩
    exact hnone ⟨e, after', Language.not_mem_close_of_propertyExpression he, he, hafter⟩

/-- The name of a script, and a category with a value, which it does not take. -/
theorem property_escape_of_script :
    let options : Options := { mode := .unicode, nestingLimit := 1 }
    let s := State.start (encode "p{sc=Grek}x".toList)
    let escape := Grammar.setEscape options.settings
    (escape s).1.isMatch = true ∧ (escape s).2 = { s with rest := encode ['x'] } ∧
      accepts options "[\\P{Lu=Lu}]" = false := by
  intro options s escape
  obtain ⟨hstates, hpatterns⟩ := property_escape_exact 1
  have hgreek : PropertyExpression (['s', 'c'] ++ ['='] ++ ['G', 'r', 'e', 'k']) :=
    .valued (by decide) (by decide) (by decide) (by decide) (by decide +kernel)
  obtain ⟨hmatch, hread, -⟩ := hstates s 'p' (encode "sc=Grek\x7dx".toList) (by decide) (by decide)
  refine ⟨hmatch.2 ⟨_, encode ['x'], by decide, hgreek, by decide +kernel⟩,
    hread _ _ hgreek (by decide +kernel), ?_⟩
  refine hpatterns _ ['['] 'P' "Lu=Lu\x7d]".toList (by decide +kernel) (by decide) (by decide) ?_
  rintro ⟨e, after, hclose, he, hafter⟩
  -- a state before the same text is one where nothing matches
  let refused := State.start (encode "P{Lu=Lu}]".toList)
  have hrest : encode "Lu=Lu\x7d]".toList = encode (e ++ ['}']) ++ encode after := by
    rw [hafter, ← encode_append, List.append_assoc, List.singleton_append]
  have hnone : (escape refused).1.isMatch = false := by decide +kernel
  have hsome := (hstates refused 'P' _ (by decide) (by decide +kernel)).1.2 ⟨e, _, hclose, he, hrest⟩
  exact absurd hsome (by rw [hnone]; decide)

end EcmaPattern
