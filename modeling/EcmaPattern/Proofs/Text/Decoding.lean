import EcmaPattern.Proofs.Language.Form
import EcmaPattern.Text.Reader

namespace EcmaPattern

/-! # Texts as characters

Grammars speak about characters, readers about code units. `CodeUnit.decode` is the view of the
units that joins them: the characters of a mode, as numbers.
-/

namespace CodeUnit

/-! ## The characters of a mode -/

/-- The code points of a text, in which a lead and a trail surrogate are one. -/
def decodePairs : List CodeUnit → Text
  | [] => []
  | [u] => [u.toNat]
  | lead :: trail :: rest =>
    if Surrogate.isLead lead.toNat && Surrogate.isTrail trail.toNat then
      Surrogate.combine lead.toNat trail.toNat :: decodePairs rest
    else
      lead.toNat :: decodePairs (trail :: rest)

/-- The characters of a text in a mode. -/
def decode : Mode → List CodeUnit → Text
  | .legacy, units => units.map UInt16.toNat
  | .unicode, units => decodePairs units

@[simp] theorem decode_nil (mode : Mode) : decode mode [] = [] := by
  cases mode <;> rfl

theorem decode_eq_nil_iff {mode : Mode} {units : List CodeUnit} :
    decode mode units = [] ↔ units = [] := by
  cases mode with
  | legacy => simp [decode]
  | unicode =>
    match units with
    | [] => simp
    | [u] => simp [decode, decodePairs]
    | lead :: trail :: rest =>
      simp only [decode, decodePairs]
      -- a pair or not, there is a first character
      split <;> simp

/-- A character is never longer than one unit for each place it takes. -/
theorem length_decode_le (mode : Mode) (units : List CodeUnit) :
    (decode mode units).length ≤ units.length := by
  cases mode with
  | legacy => simp [decode]
  | unicode =>
    simp only [decode]
    fun_induction decodePairs units with
    | case1 => simp
    | case2 => simp
    | case3 lead trail rest h ih =>
      simp only [List.length_cons]
      omega
    | case4 lead trail rest h ih =>
      simp only [List.length_cons] at ih ⊢
      omega

/-! ## The units again -/

/-- The units of one character of a mode, which may be half of a surrogate pair. -/
def unitsOf (n : Nat) : List CodeUnit :=
  if n < 0x10000 then [.ofNat n] else [.ofNat (Surrogate.lead n), .ofNat (Surrogate.trail n)]

theorem unitsOf_toNat (u : CodeUnit) : unitsOf u.toNat = [u] := by
  rw [unitsOf, if_pos u.toNat_lt, UInt16.ofNat_toNat]

theorem unitsOf_combine {lead trail : CodeUnit} (hlead : Surrogate.isLead lead.toNat = true)
    (htrail : Surrogate.isTrail trail.toNat = true) :
    unitsOf (Surrogate.combine lead.toNat trail.toNat) = [lead, trail] := by
  simp only [Surrogate.isLead, Surrogate.isTrail, Bool.and_eq_true,
    decide_eq_true_eq] at hlead htrail
  have hfirst : Surrogate.lead (Surrogate.combine lead.toNat trail.toNat) = lead.toNat := by
    unfold Surrogate.lead Surrogate.combine
    omega
  have hsecond : Surrogate.trail (Surrogate.combine lead.toNat trail.toNat) = trail.toNat := by
    unfold Surrogate.trail Surrogate.combine
    omega
  have hlarge : ¬ Surrogate.combine lead.toNat trail.toNat < 0x10000 := by
    unfold Surrogate.combine
    omega
  rw [unitsOf, if_neg hlarge, hfirst, hsecond, UInt16.ofNat_toNat, UInt16.ofNat_toNat]

theorem flatMap_unitsOf_decode (mode : Mode) (units : List CodeUnit) :
    (decode mode units).flatMap unitsOf = units := by
  cases mode with
  | legacy =>
    induction units with
    | nil => rfl
    | cons u units ih =>
      have hcons : decode .legacy (u :: units) = u.toNat :: decode .legacy units := rfl
      rw [hcons, List.flatMap_cons, unitsOf_toNat, ih, List.singleton_append]
  | unicode =>
    simp only [decode]
    fun_induction decodePairs units with
    | case1 => rfl
    | case2 u => rw [List.flatMap_singleton, unitsOf_toNat]
    | case3 lead trail rest h ih =>
      rw [Bool.and_eq_true] at h
      rw [List.flatMap_cons, unitsOf_combine h.1 h.2, ih]
      rfl
    | case4 lead trail rest h ih => rw [List.flatMap_cons, unitsOf_toNat, ih, List.singleton_append]

/-- No two texts have the same characters. -/
theorem decode_injective (mode : Mode) : Function.Injective (decode mode) :=
  Function.LeftInverse.injective (flatMap_unitsOf_decode mode)

/-! ## One character -/

/-- What a reader of one character takes is the first character of the text. -/
theorem decode_of_codePoint {mode : Mode} {units rest : List CodeUnit} {n : Nat}
    (h : (Reader.codePoint mode).run units = some (n, rest)) :
    decode mode units = n :: decode mode rest := by
  cases mode with
  | legacy =>
    cases units with
    | nil => simp [Reader.codePoint, StateT.run] at h
    | cons u units =>
      obtain ⟨rfl, rfl⟩ : u.toNat = n ∧ units = rest := by
        simpa [Reader.codePoint, StateT.run] using h
      rfl
  | unicode =>
    match units with
    | [] => simp [Reader.codePoint, StateT.run] at h
    | [u] =>
      obtain ⟨rfl, rfl⟩ : u.toNat = n ∧ [] = rest := by
        simpa [Reader.codePoint, StateT.run] using h
      rfl
    | lead :: trail :: after =>
      simp only [Reader.codePoint, StateT.run] at h
      simp only [decode, decodePairs]
      split at h
      next hpair =>
        obtain ⟨rfl, rfl⟩ : Surrogate.combine lead.toNat trail.toNat = n ∧ after = rest := by
          simpa using h
        rw [if_pos hpair]
      next hpair =>
        obtain ⟨rfl, rfl⟩ : lead.toNat = n ∧ trail :: after = rest := by
          simpa using h
        rw [if_neg hpair]

/-- A text that is not empty has a first character. -/
theorem exists_codePoint (mode : Mode) {units : List CodeUnit} (h : units ≠ []) :
    ∃ n rest, (Reader.codePoint mode).run units = some (n, rest) := by
  cases mode with
  | legacy =>
    cases units with
    | nil => exact absurd rfl h
    | cons u rest => exact ⟨u.toNat, rest, rfl⟩
  | unicode =>
    match units with
    | [] => exact absurd rfl h
    | [u] => exact ⟨u.toNat, [], rfl⟩
    | lead :: trail :: after =>
      simp only [Reader.codePoint, StateT.run]
      split
      · exact ⟨_, _, rfl⟩
      · exact ⟨_, _, rfl⟩

/-- The first character of the text is what a reader of one character takes. -/
theorem codePoint_of_decode {mode : Mode} {units : List CodeUnit} {n : Nat} {q : Text}
    (h : decode mode units = n :: q) :
    ∃ rest, (Reader.codePoint mode).run units = some (n, rest) ∧ decode mode rest = q := by
  have hne : units ≠ [] := by
    intro heq
    subst heq
    simp at h
  rcases exists_codePoint mode hne with ⟨m, rest, hm⟩
  rw [decode_of_codePoint hm] at h
  obtain ⟨rfl, rfl⟩ : m = n ∧ decode mode rest = q := by simpa using h
  exact ⟨rest, hm, rfl⟩

/-! ## ASCII -/

theorem decode_cons_of_ascii (mode : Mode) {u : CodeUnit} (h : u.toNat < 0x80)
    (units : List CodeUnit) : decode mode (u :: units) = u.toNat :: decode mode units := by
  cases mode with
  | legacy => rfl
  | unicode =>
    cases units with
    | nil => rfl
    | cons v units =>
      have hlead : Surrogate.isLead u.toNat = false := by
        simp only [Surrogate.isLead, Bool.and_eq_false_iff, decide_eq_false_iff_not]
        omega
      simp [decode, decodePairs, hlead]

/-- A character below 80 is one unit. -/
theorem of_decode_ascii {mode : Mode} {units : List CodeUnit} {n : Nat} {q : Text}
    (hn : n < 0x80) (h : decode mode units = n :: q) :
    ∃ u rest, units = u :: rest ∧ u.toNat = n ∧ decode mode rest = q := by
  cases units with
  | nil => simp at h
  | cons u rest =>
    by_cases hu : u.toNat < 0x80
    · rw [decode_cons_of_ascii mode hu] at h
      obtain ⟨rfl, rfl⟩ : u.toNat = n ∧ decode mode rest = q := by simpa using h
      exact ⟨u, rest, rfl, rfl, rfl⟩
    · -- a unit from 80 on stands for itself or, in a pair, for more than itself
      exfalso
      cases mode with
      | legacy =>
        have : u.toNat = n := by simpa [decode] using congrArg List.head? h
        omega
      | unicode =>
        cases rest with
        | nil =>
          have : u.toNat = n := by simpa [decode, decodePairs] using congrArg List.head? h
          omega
        | cons v rest =>
          simp only [decode, decodePairs] at h
          split at h
          · have : Surrogate.combine u.toNat v.toNat = n := by simpa using congrArg List.head? h
            unfold Surrogate.combine at this
            omega
          · have : u.toNat = n := by simpa using congrArg List.head? h
            omega

theorem toNat_ascii? {u : CodeUnit} {c : Char} (h : u.ascii? = some c) :
    u.toNat = c.toNat ∧ c.toNat < 0x80 := by
  unfold ascii? at h
  split at h
  next hu =>
    have hu : u.toNat < 0x80 := UInt16.lt_iff_toNat_lt.1 hu
    obtain rfl := Option.some.inj h
    have hc : (Char.ofNat u.toNat).toNat = u.toNat := by
      rw [Char.ofNat, dif_pos (Or.inl (by omega))]
      rfl
    omega
  next => contradiction

theorem ascii?_of_toNat {u : CodeUnit} {c : Char} (hc : c.toNat < 0x80)
    (h : u.toNat = c.toNat) : u.ascii? = some c := by
  unfold ascii?
  have hu : u < 0x80 := UInt16.lt_iff_toNat_lt.2 (by simpa [h] using hc)
  rw [if_pos hu, h, Char.ofNat_toNat]

/-- An ASCII word has as many units as characters. -/
theorem length_encode_of_ascii {w : List Char} (hw : ∀ c ∈ w, c.toNat < 0x80) :
    (encode w).length = w.length := by
  induction w with
  | nil => rfl
  | cons c w ih =>
    rw [List.forall_mem_cons] at hw
    rw [encode_cons, ofChar_of_ascii hw.1, List.singleton_append, List.length_cons, ih hw.2,
      List.length_cons]

/-- A text that starts with an ASCII word starts with the units of that word. -/
theorem of_decode_append {mode : Mode} {w : List Char} (hw : ∀ c ∈ w, c.toNat < 0x80)
    {units : List CodeUnit} {q : Text} (h : decode mode units = Text.ofWord w ++ q) :
    ∃ rest, units = encode w ++ rest ∧ decode mode rest = q := by
  induction w generalizing units with
  | nil => exact ⟨units, rfl, h⟩
  | cons c w ih =>
    have hc : c.toNat < 0x80 := hw c (by simp)
    rcases of_decode_ascii hc h with ⟨u, rest, rfl, hu, hrest⟩
    rcases ih (fun d hd => hw d (by simp [hd])) hrest with ⟨rest, rfl, hq⟩
    refine ⟨rest, ?_, hq⟩
    rw [encode_cons, ofChar_of_ascii hc, ← hu, UInt16.ofNat_toNat]
    rfl

/-! ## Whole texts -/

theorem toNat_le (c : Char) : c.toNat ≤ 0x10FFFF := by
  have hv : c.toNat.isValidChar := c.valid
  unfold Nat.isValidChar at hv
  omega

theorem toNat_lead {n : Nat} (h : n ≤ 0x10FFFF) :
    (UInt16.ofNat (Surrogate.lead n)).toNat = Surrogate.lead n := by
  rw [UInt16.toNat_ofNat', Nat.mod_eq_of_lt]
  unfold Surrogate.lead
  omega

theorem toNat_trail (n : Nat) :
    (UInt16.ofNat (Surrogate.trail n)).toNat = Surrogate.trail n := by
  rw [UInt16.toNat_ofNat', Nat.mod_eq_of_lt]
  unfold Surrogate.trail
  omega

/-- A code point is no surrogate. -/
theorem not_isLead_toNat (c : Char) : Surrogate.isLead c.toNat = false := by
  have hv : c.toNat.isValidChar := c.valid
  rw [Surrogate.isLead, Bool.and_eq_false_iff, decide_eq_false_iff_not, decide_eq_false_iff_not]
  unfold Nat.isValidChar at hv
  omega

theorem not_isTrail_toNat (c : Char) : Surrogate.isTrail c.toNat = false := by
  have hv : c.toNat.isValidChar := c.valid
  rw [Surrogate.isTrail, Bool.and_eq_false_iff, decide_eq_false_iff_not, decide_eq_false_iff_not]
  unfold Nat.isValidChar at hv
  omega

theorem run_codePoint_of_not_lead {u : CodeUnit} (h : Surrogate.isLead u.toNat = false)
    (rest : List CodeUnit) :
    (Reader.codePoint .unicode).run (u :: rest) = some (u.toNat, rest) := by
  cases rest with
  | nil => rfl
  | cons v rest => simp [Reader.codePoint, StateT.run, h]

theorem run_codePoint_of_pair {lead trail : CodeUnit} (hlead : Surrogate.isLead lead.toNat = true)
    (htrail : Surrogate.isTrail trail.toNat = true) (rest : List CodeUnit) :
    (Reader.codePoint .unicode).run (lead :: trail :: rest) =
      some (Surrogate.combine lead.toNat trail.toNat, rest) := by
  simp [Reader.codePoint, StateT.run, hlead, htrail]

/-- In Unicode mode a character is taken as it was written, whatever follows it. -/
theorem run_codePoint_ofChar (c : Char) (rest : List CodeUnit) :
    (Reader.codePoint .unicode).run (ofChar c ++ rest) = some (c.toNat, rest) := by
  by_cases hc : c.toNat < 0x10000
  · -- a character below 10000 is no lead surrogate
    have hone : ofChar c = [.ofNat c.toNat] := if_pos hc
    have hu : (UInt16.ofNat c.toNat).toNat = c.toNat := by
      rw [UInt16.toNat_ofNat', Nat.mod_eq_of_lt (by omega)]
    rw [hone, List.singleton_append, run_codePoint_of_not_lead (by rw [hu, not_isLead_toNat]), hu]
  · -- the other characters are written as a pair
    have htwo : ofChar c =
        [.ofNat (Surrogate.lead c.toNat), .ofNat (Surrogate.trail c.toNat)] := if_neg hc
    have hlead := toNat_lead (toNat_le c)
    have htrail := toNat_trail c.toNat
    rw [htwo, List.cons_append, List.singleton_append,
      run_codePoint_of_pair (by rw [hlead, Surrogate.isLead_lead (toNat_le c)])
        (by rw [htrail, Surrogate.isTrail_trail]),
      hlead, htrail, Surrogate.combine_lead_trail (Nat.le_of_not_lt hc)]

/-- A word whose characters are each one character of the mode. -/
def Whole (mode : Mode) (w : List Char) : Prop := mode = .legacy → ∀ c ∈ w, c.toNat < 0x10000

theorem whole_of_ascii {mode : Mode} {w : List Char} (hw : ∀ c ∈ w, c.toNat < 0x80) :
    Whole mode w :=
  fun _ c hc => Nat.lt_trans (hw c hc) (by decide)

theorem whole_singleton {mode : Mode} {c : Char} (hc : mode = .legacy → c.toNat < 0x10000) :
    Whole mode [c] := by
  intro hmode d hd
  rw [List.mem_singleton.1 hd]
  exact hc hmode

/-- The units of a word decode to its characters, whatever follows. -/
theorem decode_encode_append_of_whole {mode : Mode} {w : List Char} (hw : Whole mode w)
    (units : List CodeUnit) :
    decode mode (encode w ++ units) = Text.ofWord w ++ decode mode units := by
  induction w with
  | nil => rfl
  | cons c w ih =>
    have hrest := ih fun hmode d hd => hw hmode d (List.mem_cons_of_mem c hd)
    rw [encode_cons, List.append_assoc, Text.ofWord_cons, List.cons_append, ← hrest]
    cases mode with
    | unicode => exact decode_of_codePoint (run_codePoint_ofChar c _)
    | legacy =>
      have hc : c.toNat < 0x10000 := hw rfl c List.mem_cons_self
      have hone : ofChar c = [.ofNat c.toNat] := if_pos hc
      have hvalue : (UInt16.ofNat c.toNat).toNat = c.toNat := by
        rw [UInt16.toNat_ofNat', Nat.mod_eq_of_lt hc]
      rw [hone, List.singleton_append]
      simp [decode, hvalue]

/-- The units of an ASCII word decode to its characters. -/
theorem decode_encode_append (mode : Mode) {w : List Char} (hw : ∀ c ∈ w, c.toNat < 0x80)
    (units : List CodeUnit) :
    decode mode (encode w ++ units) = Text.ofWord w ++ decode mode units :=
  decode_encode_append_of_whole (whole_of_ascii hw) units

theorem decode_encode_of_whole {mode : Mode} {text : List Char} (h : Whole mode text) :
    decode mode (encode text) = Text.ofWord text := by
  have hnil := decode_encode_append_of_whole h []
  rwa [decode_nil, List.append_nil, List.append_nil] at hnil

/-- A word stands in front of the characters where its units stand in front of the text. -/
theorem word_decode_iff {mode : Mode} {w : List Char} (hw : Whole mode w)
    {units rest : List CodeUnit} :
    Form.word w (decode mode units) (decode mode rest) ↔ units = encode w ++ rest := by
  rw [Form.word, ← decode_encode_append_of_whole hw]
  exact (decode_injective mode).eq_iff

/-- Decoding gives back the code points of an encoded text. -/
theorem decode_unicode_encode (text : List Char) :
    decode .unicode (encode text) = Text.ofWord text :=
  decode_encode_of_whole nofun

/-- No pair of surrogates stands in two texts at once. -/
theorem decode_encode_append_encode (mode : Mode) (first second : List Char) :
    decode mode (encode (first ++ second)) =
      decode mode (encode first) ++ decode mode (encode second) := by
  cases mode with
  | legacy => simp [decode]
  | unicode =>
    rw [decode_unicode_encode, decode_unicode_encode, decode_unicode_encode, Text.ofWord_append]

/-- A unit that is no lead surrogate is a character. -/
theorem decode_cons_of_not_lead (mode : Mode) {u : CodeUnit}
    (h : Surrogate.isLead u.toNat = false) (units : List CodeUnit) :
    decode mode (u :: units) = u.toNat :: decode mode units := by
  cases mode with
  | legacy => rfl
  | unicode => exact decode_of_codePoint (run_codePoint_of_not_lead h units)

/-- A unit that closes no pair parts a text in two. -/
theorem decode_append_of_not_trail (mode : Mode) (units : List CodeUnit) {u : CodeUnit}
    (hu : Surrogate.isTrail u.toNat = false) (rest : List CodeUnit) :
    decode mode (units ++ u :: rest) = decode mode units ++ decode mode (u :: rest) := by
  cases mode with
  | legacy => simp [decode]
  | unicode =>
    simp only [decode]
    fun_induction decodePairs units with
    | case1 => rfl
    | case2 v => simp [decodePairs, hu]
    | case3 lead trail tail h ih => simp [decodePairs, h, ih]
    | case4 lead trail tail h ih =>
      rw [List.cons_append, List.cons_append, decodePairs, if_neg h, ← List.cons_append, ih]
      rfl

/-- What stands before a place that is not inside of a surrogate pair is a text of its own. -/
theorem exists_of_encode_eq_append {text : List Char} {before rest : List CodeUnit}
    (h : encode text = before ++ rest)
    (hrest : ∀ u after, rest = u :: after → Surrogate.isTrail u.toNat = false) :
    ∃ first second, text = first ++ second ∧ encode first = before ∧ encode second = rest := by
  induction text generalizing before with
  | nil =>
    obtain ⟨rfl, rfl⟩ : before = [] ∧ rest = [] := by simpa using h
    exact ⟨[], [], rfl, rfl, rfl⟩
  | cons c text ih =>
    have hstep {units tail : List CodeUnit} (hc : ofChar c = units)
        (hbefore : before = units ++ tail) (htail : encode text = tail ++ rest) :
        ∃ first second, c :: text = first ++ second ∧ encode first = before ∧
          encode second = rest := by
      rcases ih htail with ⟨first, second, rfl, hfirst, hsecond⟩
      exact ⟨c :: first, second, rfl, by rw [encode_cons, hc, hfirst, hbefore], hsecond⟩
    have hunits : ofChar c ++ encode text = before ++ rest := h
    cases before with
    | nil => exact ⟨[], c :: text, rfl, rfl, h⟩
    | cons u before =>
      by_cases hc : c.toNat < 0x10000
      · have hone : ofChar c = [.ofNat c.toNat] := if_pos hc
        rw [hone] at hunits
        obtain ⟨hu, htail⟩ := List.cons.inj hunits
        have hbefore : u :: before = [.ofNat c.toNat] ++ before := by
          rw [hu, List.singleton_append]
        exact hstep hone hbefore htail
      · have htwo : ofChar c =
            [.ofNat (Surrogate.lead c.toNat), .ofNat (Surrogate.trail c.toNat)] := if_neg hc
        rw [htwo] at hunits
        obtain ⟨hu, htail⟩ := List.cons.inj hunits
        cases before with
        | nil =>
          -- the rest would start with the second half of a pair
          have htrail := hrest _ _ htail.symm
          rw [toNat_trail, Surrogate.isTrail_trail] at htrail
          contradiction
        | cons v before =>
          obtain ⟨hv, htail⟩ := List.cons.inj htail
          have hbefore : u :: v :: before =
              [.ofNat (Surrogate.lead c.toNat), .ofNat (Surrogate.trail c.toNat)] ++ before := by
            rw [hu, hv, List.cons_append, List.singleton_append]
          exact hstep htwo hbefore htail

end CodeUnit

end EcmaPattern
