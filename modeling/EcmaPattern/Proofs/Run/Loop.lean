import EcmaPattern.Proofs.Run.Reader

namespace EcmaPattern

/-! # Loops

The loops of the program go on until a round ends them. Here each of them is a recursion over a list
that outlasts it. A loop of its own has no such list, and it ends because each round that goes on
leaves less of the text.
-/

variable {α ρ : Type}

/-- A loop whose rounds go on from one value to the next ends with `r`. -/
inductive LoopEnds (round : α → ρ ⊕ α) : α → ρ → Prop
  | done {a : α} {r : ρ} : round a = .inl r → LoopEnds round a r
  | goesOn {a b : α} {r : ρ} : round a = .inr b → LoopEnds round b r → LoopEnds round a r

/-- The loop from `a` ends with `r`, and each round that goes on leaves less. -/
structure RunsOut (round : α → ρ ⊕ α) (left : α → Nat) (a : α) (r : ρ) : Prop where
  decreases : ∀ b c, round b = .inr c → left c < left b
  ends : LoopEnds round a r

namespace Reader

/-! ## Repeated readers -/

/-- A round that takes one more value, if there is one. -/
def takingRound (r : Reader α) :
    List α × List CodeUnit → (List α × List CodeUnit) ⊕ (List α × List CodeUnit) :=
  fun (taken, text) =>
    match r.run text with
    | some (a, rest) => .inr (taken ++ [a], rest)
    | none => .inl (taken, text)

/-- In each text the reader takes at least one unit. -/
def Consumes (r : Reader α) : Prop :=
  ∀ text a rest, r.run text = some (a, rest) → rest.length < text.length

theorem Consumes.decreases {r : Reader α} (hr : r.Consumes) :
    ∀ b c, takingRound r b = .inr c → c.2.length < b.2.length := by
  intro b c h
  rw [takingRound] at h
  split at h
  next a rest hrun =>
    obtain rfl := Sum.inr.inj h
    exact hr _ a rest hrun
  next => contradiction

theorem Consumes.loopEnds {r : Reader α} (hr : r.Consumes) {bound text : List CodeUnit}
    (hlen : text.length ≤ bound.length) (taken : List α) :
    LoopEnds (takingRound r) (taken, text)
      (taken ++ (manyWithin r bound text).1, (manyWithin r bound text).2) := by
  induction bound generalizing text taken with
  | nil =>
    -- with no bound left there is no text to take anything from
    obtain rfl : text = [] := List.length_eq_zero_iff.1 (Nat.le_zero.1 hlen)
    have hrun : r.run [] = none := by
      cases hrun : r.run [] with
      | none => rfl
      | some found => exact absurd (hr [] _ _ hrun) (Nat.not_lt_zero _)
    refine .done ?_
    simp [takingRound, hrun, manyWithin]
  | cons u bound ih =>
    cases hrun : r.run text with
    | none =>
      refine .done ?_
      simp [takingRound, hrun, manyWithin]
    | some found =>
      have hlt : found.2.length < text.length := hr text _ _ hrun
      have hrest : found.2.length ≤ bound.length := by
        simp only [List.length_cons] at hlen
        omega
      have hround : takingRound r (taken, text) = .inr (taken ++ [found.1], found.2) := by
        simp [takingRound, hrun]
      refine .goesOn hround ?_
      simpa [manyWithin, hrun] using ih hrest (taken ++ [found.1])

/-- A reader that is repeated while it takes something is a loop. -/
theorem Consumes.runsOut {r : Reader α} (hr : r.Consumes) (text : List CodeUnit) :
    RunsOut (takingRound r) (fun b => b.2.length) ([], text) (manyWithin r text text) where
  decreases := hr.decreases
  ends := hr.loopEnds (Nat.le_refl _) []

/-! ## Runs of ASCII characters -/

theorem consumes_ascii (p : Char → Bool) : (ascii p).Consumes := by
  intro text c rest hrun
  cases text with
  | nil => contradiction
  | cons u text =>
    simp only [ascii, StateT.run] at hrun
    split at hrun
    · split at hrun
      · obtain rfl : text = rest := (Prod.mk.inj (Option.some.inj hrun)).2
        exact Nat.lt_succ_self _
      · contradiction
    · contradiction

theorem asciiSpan_of_run {p : Char → Bool} {text rest : List CodeUnit} {c : Char}
    (h : (ascii p).run text = some (c, rest)) :
    asciiSpan p text = (c :: (asciiSpan p rest).1, (asciiSpan p rest).2) := by
  cases text with
  | nil => contradiction
  | cons u text =>
    simp only [ascii, StateT.run] at h
    split at h
    next d hd =>
      split at h
      next hp =>
        obtain ⟨rfl, rfl⟩ := Prod.mk.inj (Option.some.inj h)
        simp [asciiSpan, hd, hp]
      next => contradiction
    next => contradiction

theorem asciiSpan_of_run_eq_none {p : Char → Bool} {text : List CodeUnit}
    (h : (ascii p).run text = none) : asciiSpan p text = ([], text) := by
  cases text with
  | nil => rfl
  | cons u text =>
    cases hu : u.ascii? with
    | none => simp [asciiSpan, hu]
    | some c =>
      cases hc : p c with
      | true => simp [ascii, StateT.run, hu, hc] at h
      | false => simp [asciiSpan, hu, hc]

theorem run_asciiRun (p : Char → Bool) (text : List CodeUnit) :
    (asciiRun p).run text =
      if (asciiSpan p text).1.isEmpty then none else some (asciiSpan p text) := by
  cases hspan : asciiSpan p text with
  | mk taken rest => cases taken <;> simp [asciiRun, StateT.run, hspan]

theorem of_run_asciiRun {p : Char → Bool} {text rest : List CodeUnit} {taken : List Char}
    (h : (asciiRun p).run text = some (taken, rest)) :
    taken ≠ [] ∧ text = CodeUnit.encode taken ++ rest ∧ ∀ c ∈ taken, p c = true := by
  rw [run_asciiRun] at h
  split at h
  next => contradiction
  next hne =>
    have hspan : asciiSpan p text = (taken, rest) := Option.some.inj h
    have htext := encode_asciiSpan p text
    have hall (c : Char) (hc : c ∈ (asciiSpan p text).1) : p c = true := of_mem_asciiSpan hc
    rw [hspan] at hne htext hall
    exact ⟨mt List.isEmpty_iff.2 hne, htext.symm, hall⟩

/-- A run of characters is what is taken one by one. -/
theorem manyWithin_ascii (p : Char → Bool) {bound text : List CodeUnit}
    (hlen : text.length ≤ bound.length) : manyWithin (ascii p) bound text = asciiSpan p text := by
  induction bound generalizing text with
  | nil =>
    obtain rfl : text = [] := List.length_eq_zero_iff.1 (Nat.le_zero.1 hlen)
    rfl
  | cons u bound ih =>
    rw [manyWithin]
    cases hrun : (ascii p).run text with
    | none => exact (asciiSpan_of_run_eq_none hrun).symm
    | some found =>
      have hlt : found.2.length < text.length := consumes_ascii p text _ _ hrun
      have hrest : found.2.length ≤ bound.length := by
        rw [List.length_cons] at hlen
        omega
      simp only [ih hrest, asciiSpan_of_run hrun]

/-- Taking a run of characters is a loop. -/
theorem runsOut_ascii (p : Char → Bool) (text : List CodeUnit) :
    RunsOut (takingRound (ascii p)) (fun b => b.2.length) ([], text) (asciiSpan p text) := by
  rw [← manyWithin_ascii p (Nat.le_refl text.length)]
  exact (consumes_ascii p).runsOut text

end Reader

end EcmaPattern
