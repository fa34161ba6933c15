import EcmaPattern.Proofs.Language.Spelling
import EcmaPattern.Proofs.Scan.Scanner

namespace EcmaPattern.Scan

open Form
open EcmaPattern.Language

/-! # What a scan finds in escapes and in classes

The scanner passes over most of an escape without a look at it: only its first character counts. A
class says nothing at all, since each bracket in it that closes it is escaped.
-/

variable {mode : Mode} {p q t : Text}

/-! ## Texts that are skipped -/

/-- The characters that the flags depend on or that something starts with. -/
def marks : List Char := ['\\', '[', ']', '(']

/-- From `p` up to `q` a scan finds nothing and ends with the flags that it began with. -/
def Skipped (p q : Text) : Prop :=
  ∀ inClass : Bool, scan id { inClass } p = scan id { inClass } q

theorem Skipped.refl (p : Text) : Skipped p p := fun _ => rfl

theorem Skipped.trans (h : Skipped p t) (h' : Skipped t q) : Skipped p q :=
  fun inClass => (h inClass).trans (h' inClass)

theorem beq_eq_false_of_not_mem {n : Nat} {cs : List Char} (hn : n ∉ Text.ofWord cs) {c : Char}
    (hc : c ∈ cs) : (n == c.toNat) = false := by
  rw [beq_eq_false_iff_ne]
  intro heq
  subst heq
  exact hn (Text.mem_ofWord.2 hc)

/-- Outside classes three characters set a flag, in a class two. -/
theorem next_of_not_mem {n : Nat} {cs : List Char} (hn : n ∉ Text.ofWord cs) {inClass : Bool}
    (hback : '\\' ∈ cs) (hbracket : (if inClass then ']' else '[') ∈ cs) :
    Flags.next { inClass } n = { inClass } := by
  rw [Flags.next, beq_eq_false_of_not_mem hn hback]
  cases inClass with
  | false =>
    have hopen : (n == '['.toNat) = false := beq_eq_false_of_not_mem hn hbracket
    exact congrArg (Flags.mk false) hopen
  | true =>
    have hclose : (n == ']'.toNat) = false := beq_eq_false_of_not_mem hn hbracket
    exact congrArg (Flags.mk false) (congrArg not hclose)

theorem skipped_cons {n : Nat} (hn : n ∉ Text.ofWord marks) : Skipped (n :: q) q := by
  have hparen : (n == '('.toNat) = false := beq_eq_false_of_not_mem hn (by decide)
  intro inClass
  have hnext : Flags.next { inClass } n = { inClass } :=
    next_of_not_mem hn (by decide) (by cases inClass <;> decide)
  have hfinds : finds id { inClass } n q = {} := by
    rw [finds, id_eq, hparen]
    cases inClass <;> rfl
  rw [scan, id_eq, hnext, hfinds, Findings.empty_append]

theorem skipped_word {w : List Char} (hw : ∀ c ∈ w, c ∉ marks) (h : word w p q) : Skipped p q := by
  induction w generalizing p with
  | nil =>
    obtain rfl : p = q := h
    exact .refl p
  | cons c w ih =>
    rcases word_cons.1 h with ⟨t, rfl, ht⟩
    have hc : c.toNat ∉ Text.ofWord marks := mt Text.mem_ofWord.1 (hw c List.mem_cons_self)
    exact (skipped_cons hc).trans (ih (fun d hd => hw d (List.mem_cons_of_mem _ hd)) ht)

/-! ## Escapes -/

/-- The first character of `p` stands after a backslash, and the others up to `q` are skipped. -/
def SkippedEscape (p q : Text) : Prop := ∃ n t, p = n :: t ∧ Skipped t q

theorem skippedEscape_of_word {c : Char} {w : List Char} (hw : ∀ d ∈ w, d ∉ marks)
    (h : word (c :: w) p q) : SkippedEscape p q := by
  rcases word_cons.1 h with ⟨t, rfl, ht⟩
  exact ⟨_, t, rfl, skipped_word hw ht⟩

/-- A backslash sets the flag. -/
theorem scan_backslash (h : word ['\\'] p q) (inClass : Bool) :
    scan id { inClass } p = scan id { escaped := true, inClass } q := by
  have hfinds : finds id { inClass } '\\'.toNat q = {} := by cases inClass <;> rfl
  have hnext : Flags.next { inClass } '\\'.toNat = { escaped := true, inClass } := by
    cases inClass <;> rfl
  obtain rfl : p = '\\'.toNat :: q := h
  rw [scan, hfinds, Findings.empty_append, id_eq, hnext]

/-- In a class an escape says nothing. -/
theorem SkippedEscape.scan_class (h : SkippedEscape p q) :
    scan id { escaped := true, inClass := true } p = scan id { inClass := true } q := by
  rcases h with ⟨n, t, rfl, h⟩
  exact (Findings.empty_append _).trans (h true)

theorem SkippedEscape.scan_eq (h : SkippedEscape p q) :
    scan id { escaped := true } p = findsEscape id p ++ scan id {} q := by
  rcases h with ⟨n, t, rfl, h⟩
  exact congrArg (findsEscape id (n :: t) ++ ·) (h false)

/-- An escape that starts with no digit from 1 on and no `k` is skipped with its backslash. -/
theorem skipped_escape (h : word ['\\'] p t) (hskip : SkippedEscape t q)
    (hnone : findsEscape id t = {}) : Skipped p q := by
  intro inClass
  rw [scan_backslash h]
  cases inClass with
  | true => exact hskip.scan_class
  | false => rw [hskip.scan_eq, hnone, Findings.empty_append]

/-- What a number or a reference starts with after a backslash. -/
def escapeMarks : List Char := ['1', '2', '3', '4', '5', '6', '7', '8', '9', 'k']

theorem startsWith_cons_eq_false {c : Char} {n : Nat} (h : n ≠ c.toNat) :
    startsWith id [c] (n :: q) = false := by
  rw [Bool.eq_false_iff, ne_eq, startsWith_iff]
  intro h
  rcases h with ⟨t, ht⟩
  exact h (List.cons.inj ht).1

theorem findsEscape_eq_empty {n : Nat} (hn : n ∉ Text.ofWord escapeMarks) :
    findsEscape id (n :: q) = {} := by
  have hk : startsWith id ['k'] (n :: q) = false := by
    apply startsWith_cons_eq_false
    intro heq
    subst heq
    exact hn (by decide)
  rw [findsEscape, hk]
  cases hdigit : isDigit n with
  | false => simp [hdigit]
  | true =>
    -- of the digits only the zero is no mark, and it starts no number
    have hzero : n = '0'.toNat := by
      simp only [isDigit, Bool.and_eq_true, decide_eq_true_eq, escapeMarks, Text.ofWord,
        List.map_cons, List.map_nil, List.mem_cons, List.not_mem_nil, or_false, not_or,
        Char.reduceToNat] at hdigit hn ⊢
      omega
    have hstarts : startsWith id ['0'] (n :: q) = true := by
      rw [startsWith_iff, List.map_id, hzero]
      exact ⟨q, rfl⟩
    rw [hstarts]
    rfl

/-! ## Plain words -/

/-- A plain word says nothing, nor does a `u` after a backslash in it. -/
theorem skipped_of_passes (h : Passes p q) : Skipped p q := by
  rcases h with ⟨w, hw, h⟩
  induction hw generalizing p with
  | nil =>
    obtain rfl : p = q := h
    exact .refl p
  | @cons c w hc _ ih =>
    have hsub : ∀ c ∈ marks, c ∈ delimiters := by decide
    rcases word_cons.1 h with ⟨t, rfl, ht⟩
    exact (skipped_cons fun hmem => hc (hsub c (Text.mem_ofWord.1 hmem))).trans (ih ht)
  | escape _ ih =>
    rcases word_cons.1 h with ⟨s, rfl, hs⟩
    rcases word_cons.1 hs with ⟨t, rfl, ht⟩
    have hu : SkippedEscape ('u'.toNat :: t) t := ⟨_, t, rfl, .refl t⟩
    exact (skipped_escape rfl hu (findsEscape_eq_empty (by decide))).trans (ih ht)

theorem skippedEscape_of_passesEscape (h : PassesEscape p q) : SkippedEscape p q := by
  rcases h with ⟨n, t, rfl, h⟩
  exact ⟨n, t, rfl, skipped_of_passes h⟩

theorem skipped_groupName {name : String} (h : GroupName mode name p q) : Skipped p q :=
  skipped_of_passes ((retails_groupName fun _ => Or.inl rfl).passes h)

theorem skipped_quantifier (h : Quantifier p q) : Skipped p q :=
  skipped_of_passes (spelled_quantifier.passes (a := ()) h)

theorem skippedEscape_atomEscape {e : Evidence} (h : AtomEscape mode e p q) :
    SkippedEscape p q :=
  skippedEscape_of_passesEscape ((retailsEscape_atomEscape (Or.inl rfl)).passesEscape h)

/-! ## Classes -/

/-- In a class a scan finds nothing from `p` up to `q`, where it is in the class still. -/
def SkippedInClass (p q : Text) : Prop :=
  scan id { inClass := true } p = scan id { inClass := true } q

theorem skippedInClass_cons {n : Nat} (hn : n ∉ Text.ofWord [']', '\\']) :
    SkippedInClass (n :: q) q := by
  rw [SkippedInClass, scan, id_eq, next_of_not_mem hn (by decide) (by decide)]
  exact Findings.empty_append _

theorem skippedInClass_of_passesClass (h : PassesClass p q) : SkippedInClass p q := by
  have hescape {n : Nat} {p : Text} :
      scan id { inClass := true } ('\\'.toNat :: n :: p) = scan id { inClass := true } p :=
    (scan_backslash rfl true).trans (SkippedEscape.scan_class ⟨n, p, rfl, .refl p⟩)
  induction h with
  | refl => rfl
  | cons hn _ ih => exact (skippedInClass_cons hn).trans ih
  | escape _ ih => exact hescape.trans ih
  | @backslash p q _ ih =>
    -- the scanner takes the `c` for escaped, which leads to the same place
    have hc : SkippedInClass ('c'.toNat :: p) p := skippedInClass_cons (by decide)
    exact hescape.trans (hc.symm.trans ih)

/-- A bracket opens a class, and the bracket after what stands in it closes it. -/
theorem scan_characterClass (h : CharacterClass mode p q) : scan id {} p = scan id {} q := by
  rcases passesClass_of_characterClass h with ⟨t, r, hopen, hclass, hclose⟩
  obtain rfl : p = '['.toNat :: t := hopen
  obtain rfl : r = ']'.toNat :: q := hclose
  have hstart : scan id {} ('['.toNat :: t) = scan id { inClass := true } t :=
    Findings.empty_append _
  have hend : scan id { inClass := true } (']'.toNat :: q) = scan id {} q :=
    Findings.empty_append _
  exact hstart.trans ((skippedInClass_of_passesClass hclass).trans hend)

end EcmaPattern.Scan
