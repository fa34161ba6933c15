import EcmaPattern.Proofs.Alternation
import EcmaPattern.Proofs.Scan.Pattern

namespace EcmaPattern

open CodeUnit Form
open EcmaPattern.Language (Derives)

/-! # Groups that come later

A reference by number may stand before its group, so it is judged when all groups of the pattern are
counted. Groups behind a pattern change nothing in how it is read. All that they change is the count,
and they make a number that was too large for the pattern alone refer to one of them.
-/

variable {mode : Mode} {room n : Nat} {e f : Evidence} {p q t : Text}

/-! ## The language -/

/-- As many empty groups as `n` says, one after the other. -/
def emptyGroups (n : Nat) : List Char := (List.replicate n ['(', ')']).flatten

theorem emptyGroups_succ (n : Nat) : emptyGroups (n + 1) = '(' :: ')' :: emptyGroups n := by
  rw [emptyGroups, List.replicate_succ, List.flatten_cons]
  rfl

theorem stops_emptyGroups (n : Nat) : Stops (Text.ofWord (emptyGroups n)) := by
  cases n with
  | zero => exact Or.inl rfl
  | succ n =>
    rw [emptyGroups_succ]
    exact Or.inr ⟨'(', by decide, _, rfl⟩

namespace Language

/-- An alternative goes on with the terms of another one. -/
theorem alternative_append (h : Derives mode room .alternative e p t)
    (h' : Derives mode room .alternative f t q) : Derives mode room .alternative (e ++ f) p q := by
  generalize hx : Symbol.alternative = x at h
  induction h with
  | nil =>
    rw [Evidence.empty_append]
    exact h'
  | cons hterm _ _ ih =>
    rw [Evidence.append_assoc]
    exact .cons hterm (ih h' rfl)
  | _ => contradiction

/-- Terms after a disjunction are terms of its last alternative. -/
theorem disjunction_append_alternative (h : Derives mode room .disjunction e p t)
    (h' : Derives mode room .alternative f t q) : Derives mode room .disjunction (e ++ f) p q := by
  generalize hx : Symbol.disjunction = x at h
  induction h with
  | single h => exact .single (alternative_append h h')
  | bar h hbar _ _ ih =>
    rw [Evidence.append_assoc]
    exact .bar h hbar (ih h' rfl)
  | _ => contradiction

theorem derives_emptyGroups (n : Nat) : Derives .unicode (room + 1) .alternative { groups := n }
    (Text.ofWord (emptyGroups n)) [] := by
  induction n with
  | zero => exact .nil
  | succ n ih =>
    have hatom : Derives .unicode (room + 1) .atom ({} ++ { groups := 1 })
        (Text.ofWord (emptyGroups (n + 1))) (Text.ofWord (emptyGroups n)) := by
      rw [emptyGroups_succ]
      exact .capture rfl (.single .nil) rfl
    have hsum : ({} ++ { groups := 1 } : Evidence) ++ { groups := n } = { groups := n + 1 } := by
      ext1 <;> simp [Nat.add_comm]
    rw [← hsum]
    exact .cons (.plain (quantifiable_atom .unicode) hatom nofun) ih

/-- What a text says is the same with groups behind it, except that there are more groups. -/
theorem derives_append_emptyGroups (n : Nat) (h : Derives .unicode (room + 1) .disjunction e p []) :
    Derives .unicode (room + 1) .disjunction (e ++ { groups := n })
      (p ++ Text.ofWord (emptyGroups n)) [] := by
  have hend : Mode.unicode = .legacy → ¬ ∃ t, word ['c'] [] t := nofun
  rcases moves_derives (q := []) hend (stops_emptyGroups n) h with ⟨p, rfl, hmoved⟩
  rw [List.append_nil]
  exact disjunction_append_alternative hmoved (derives_emptyGroups n)

end Language

/-! ## Numbers -/

/-- A scan of the units finds the groups and the numbers of a derivation. -/
theorem Scan.agrees_of_derives {text : List CodeUnit}
    (h : Derives mode room .disjunction e (decode mode text) []) :
    (Scan.scan UInt16.toNat {} text).groups = e.groups ∧
      (Scan.scan UInt16.toNat {} text).numbers = e.candidates := by
  rcases scans_of_derives h with ⟨f, hf, hagrees⟩
  have hscanned : f = (scan UInt16.toNat {} text).map (decode mode) := by
    rw [← scan_decode, hf]
    exact (Findings.append_empty f).symm
  subst hscanned
  exact ⟨hagrees.groups, hagrees.numbers⟩

theorem decode_append_emptyGroups (pattern : String) (n : Nat) :
    decode .unicode (encode (pattern ++ String.ofList (emptyGroups n)).toList) =
      decode .unicode (encode pattern.toList) ++ Text.ofWord (emptyGroups n) := by
  rw [String.toList_append, String.toList_ofList, decode_encode_append_encode,
    decode_unicode_encode (emptyGroups n)]

/-- References by number are judged by their exact values against all groups of a pattern. Behind a
text whose references by name are sound, `n` more groups make it a pattern if and only if no number
in it, however long, is greater than the number of its own groups and `n` together. -/
theorem accepts_append_emptyGroups_iff (limit : UInt64) (hlimit : 1 ≤ limit) (pattern : String)
    (n : Nat) :
    let options : Options := { mode := .unicode, nestingLimit := limit }
    let run := recognize options.settings (encode pattern.toList)
    let scanned := Scan.scan UInt16.toNat {} (encode pattern.toList)
    run.1.isMatch = true →
    (∀ r ∈ run.2.references, ∃ name ∈ run.2.names, r = .named name) →
    scanned.groups + n < 2 ^ 32 - 1 →
      (accepts options (pattern ++ String.ofList (emptyGroups n)) = true ↔
        ∀ m ∈ scanned.numbers, m ≤ scanned.groups + n) := by
  intro options run scanned hmatch hrefs hgroups
  obtain ⟨room, hroom⟩ : ∃ room, limit.toNat = room + 1 :=
    Nat.exists_eq_add_one.2 (UInt64.le_iff_toNat_le.1 hlimit)
  rcases exists_derives_of_match hmatch with ⟨e, hderives, hnodup, hstate⟩
  rw [show run.2 = _ from hstate, toEvidence_start_read] at hrefs
  obtain ⟨hcount, hnumbers⟩ : scanned.groups = e.groups ∧ scanned.numbers = e.candidates :=
    Scan.agrees_of_derives hderives
  -- the text with groups behind it says the same about numbers and names
  have hboth : Derives .unicode limit.toNat .disjunction (e ++ { groups := n })
      (decode .unicode (encode (pattern ++ String.ofList (emptyGroups n)).toList)) [] := by
    rw [decode_append_emptyGroups, hroom]
    exact Language.derives_append_emptyGroups n (hroom ▸ hderives)
  have hnames : (e ++ { groups := n }).names.Nodup := by simpa using hnodup
  have hlt : (e ++ { groups := n }).groups < Grammar.largestReference := by
    change e.groups + n < _
    rw [← hcount]
    exact hgroups
  rw [accepts_iff_of_derives hnames hboth fun _ => hlt, hcount, hnumbers]
  constructor
  · intro h m hm
    exact h.numbers rfl m (List.mem_append_left _ hm)
  · intro h
    refine ⟨fun _ m hm => h m (by simpa using hm), fun _ r hr => ?_⟩
    have hr : r ∈ e.references := by simpa using hr
    rcases hrefs r hr with ⟨name, hname, heq⟩
    exact ⟨name, List.mem_append_left _ hname, heq⟩

/-- A reference to the group after the last one, where there is one more and where there is none. The
parenthesis in the class opens no group. -/
theorem accepts_later_group :
    let options : Options := { mode := .unicode, nestingLimit := 1 }
    let pattern := "\\2(?<a>[(\\]])\\k<a>"
    accepts options (pattern ++ String.ofList (emptyGroups 1)) = true ∧
      accepts options (pattern ++ String.ofList (emptyGroups 0)) = false := by
  intro options pattern
  have hscan : (Scan.scan UInt16.toNat {} (encode pattern.toList)).groups = 1 ∧
      (Scan.scan UInt16.toNat {} (encode pattern.toList)).numbers = [2] := by decide +kernel
  have h (n : Nat) (hn : 1 + n < 2 ^ 32 - 1) :
      accepts options (pattern ++ String.ofList (emptyGroups n)) = true ↔ 2 ≤ 1 + n := by
    have h := accepts_append_emptyGroups_iff 1 (by decide) pattern n (by decide +kernel)
      (by decide +kernel) (hscan.1 ▸ hn)
    rw [hscan.1, hscan.2] at h
    exact h.trans (by simp)
  exact ⟨(h 1 (by decide)).2 (by decide), Bool.eq_false_iff.2 (mt (h 0 (by decide)).1 (by decide))⟩

/-- A number that no machine word holds refers to no group. -/
example : accepts { mode := .unicode } "\\18446744073709551618()()" = false := by decide +kernel

end EcmaPattern
