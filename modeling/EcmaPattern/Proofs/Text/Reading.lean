import EcmaPattern.Proofs.Text.Decoding

namespace EcmaPattern.Reader

open CodeUnit

/-! # What readers read

`r.Reads mode R` ties a reader to a relation between a value, the text before it and the text after
it. It says both that `r` takes nothing that `R` does not describe and that it takes all that `R`
describes; so `R` is a function of the text. Each way of building readers has a rule.
-/

variable {mode : Mode} {α β : Type}

/-- The reader `r` finds `a` and leaves `q` exactly where `R` says so. -/
def Reads (mode : Mode) (r : Reader α) (R : Form α) : Prop :=
  ∀ units a q, R a (decode mode units) q ↔
    ∃ rest, r.run units = some (a, rest) ∧ decode mode rest = q

namespace Reads

variable {r : Reader α} {R : Form α}

theorem congr {S : Form α} (h : Reads mode r R)
    (hRS : ∀ a p q, S a p q ↔ R a p q) : Reads mode r S := by
  intro units a q
  rw [hRS]
  exact h units a q

/-- What the reader takes, the relation describes. -/
theorem sound (h : Reads mode r R) {units rest : List CodeUnit} {a : α}
    (hr : r.run units = some (a, rest)) : R a (decode mode units) (decode mode rest) :=
  (h units a _).2 ⟨rest, hr, rfl⟩

/-- What the relation describes, the reader takes. -/
theorem complete (h : Reads mode r R) {units : List CodeUnit} {a : α} {q : Text}
    (hR : R a (decode mode units) q) :
    ∃ rest, r.run units = some (a, rest) ∧ decode mode rest = q :=
  (h units a q).1 hR

theorem run_eq_some_iff (h : Reads mode r R) {units rest : List CodeUnit} {a : α} :
    r.run units = some (a, rest) ↔ R a (decode mode units) (decode mode rest) := by
  constructor
  · exact h.sound
  · intro hR
    rcases h.complete hR with ⟨rest', hrun, hrest⟩
    rw [hrun, decode_injective mode hrest]

/-- A reader finds one thing in a text, and so does its relation. -/
theorem unique (h : Reads mode r R) {units : List CodeUnit} {a b : α} {q q' : Text}
    (ha : R a (decode mode units) q) (hb : R b (decode mode units) q') : a = b ∧ q = q' := by
  rcases h.complete ha with ⟨rest, hrun, rfl⟩
  rcases h.complete hb with ⟨rest', hrun', rfl⟩
  rw [hrun] at hrun'
  obtain ⟨rfl, rfl⟩ : a = b ∧ rest = rest' := by simpa using hrun'
  exact ⟨rfl, rfl⟩

theorem run_eq_none_iff (h : Reads mode r R) {units : List CodeUnit} :
    r.run units = none ↔ ¬ R.Applies (decode mode units) := by
  constructor
  · intro hr h
    rcases h with ⟨a, q, hR⟩
    rcases h.complete hR with ⟨rest, hrun, -⟩
    rw [hr] at hrun
    contradiction
  · intro hR
    cases hr : r.run units with
    | none => rfl
    | some found => exact absurd ⟨_, _, h.sound hr⟩ hR

/-! ## Monad rules -/

theorem of_pure (a : α) : Reads mode (pure a) fun b p q => b = a ∧ p = q := by
  intro units b q
  simp only [StateT.run_pure, Option.pure_def, Option.some.injEq, Prod.mk.injEq]
  constructor
  · intro h
    rcases h with ⟨rfl, rfl⟩
    exact ⟨units, ⟨rfl, rfl⟩, rfl⟩
  · intro h
    rcases h with ⟨rest, ⟨rfl, rfl⟩, rfl⟩
    exact ⟨rfl, rfl⟩

theorem bind {f : α → Reader β} {S : α → Form β} (hr : Reads mode r R)
    (hf : ∀ a, Reads mode (f a) (S a)) :
    Reads mode (r >>= f) fun b p q => ∃ a t, R a p t ∧ S a b t q := by
  intro units b q
  simp only [StateT.run_bind, Option.bind_eq_bind, Option.bind_eq_some_iff, Prod.exists]
  constructor
  · intro h
    rcases h with ⟨a, t, hR, hS⟩
    rcases (hr units a t).1 hR with ⟨rest, hrun, rfl⟩
    rcases (hf a rest b q).1 hS with ⟨rest', hrun', rfl⟩
    exact ⟨rest', ⟨a, rest, hrun, hrun'⟩, rfl⟩
  · intro h
    rcases h with ⟨rest', ⟨a, rest, hrun, hrun'⟩, rfl⟩
    exact ⟨a, _, hr.sound hrun, (hf a).sound hrun'⟩

theorem map {f : α → β} (hr : Reads mode r R) :
    Reads mode (f <$> r) fun b p q => ∃ a, R a p q ∧ b = f a := by
  rw [map_eq_pure_bind]
  refine (hr.bind fun a => of_pure (f a)).congr fun b p q => ?_
  constructor
  · intro h
    rcases h with ⟨a, hR, rfl⟩
    exact ⟨a, q, hR, rfl, rfl⟩
  · intro h
    rcases h with ⟨a, t, hR, rfl, rfl⟩
    exact ⟨a, hR, rfl⟩

theorem seqRight {s : Reader β} {S : Form β} (hr : Reads mode r R)
    (hs : Reads mode s S) : Reads mode (r *> s) fun b p q => ∃ a t, R a p t ∧ S b t q := by
  rw [seqRight_eq_bind]
  exact hr.bind fun _ => hs

theorem of_failure : Reads mode (failure : Reader α) fun _ _ _ => False := by
  intro units a q
  have hrun : (failure : Reader α).run units = none := rfl
  simp [hrun]

/-- A choice takes the second reader only where the first one takes nothing. -/
theorem orElse {s : Reader α} {S : Form α} (hr : Reads mode r R) (hs : Reads mode s S) :
    Reads mode (r <|> s) fun a p q => R a p q ∨ ¬ R.Applies p ∧ S a p q := by
  intro units a q
  cases hrun : r.run units with
  | none =>
    -- where the first reader fails, its relation does not apply, so the choice is the second one
    have hchoice : (r <|> s).run units = s.run units := by
      change (r.run units <|> s.run units) = s.run units
      rw [hrun]
      rfl
    have hR := hr.run_eq_none_iff.1 hrun
    rw [hchoice, ← hs units a q]
    constructor
    · intro h
      rcases h with h | ⟨-, h⟩
      · exact absurd ⟨a, q, h⟩ hR
      · exact h
    · intro h
      exact Or.inr ⟨hR, h⟩
  | some found =>
    -- where it takes something, the second one is not asked
    have hchoice : (r <|> s).run units = r.run units := by
      change (r.run units <|> s.run units) = r.run units
      rw [hrun]
      rfl
    rw [hchoice, ← hr units a q]
    constructor
    · intro h
      rcases h with h | ⟨h, -⟩
      · exact h
      · exact absurd ⟨_, _, hr.sound hrun⟩ h
    · exact Or.inl

theorem of_guard {P : Prop} [Decidable P] :
    Reads mode (guard P) fun _ p q => P ∧ p = q := by
  unfold guard
  split
  next h => exact (of_pure ()).congr fun _ p q => by simp [h]
  next h => exact of_failure.congr fun _ p q => by simp [h]

theorem ite {P : Prop} [Decidable P] {s : Reader α} {S : Form α}
    (hr : P → Reads mode r R) (hs : ¬ P → Reads mode s S) :
    Reads mode (if P then r else s) fun a p q => (P ∧ R a p q) ∨ (¬ P ∧ S a p q) := by
  by_cases h : P
  · simpa [h] using hr h
  · simpa [h] using hs h

theorem of_lift (o : Option α) :
    Reads mode (liftM o : Reader α) fun a p q => o = some a ∧ p = q := by
  cases o with
  | none =>
    have hlift : (liftM (none : Option α) : Reader α) = failure := rfl
    rw [hlift]
    exact of_failure.congr fun a p q => by simp
  | some b =>
    have hlift : (liftM (some b) : Reader α) = pure b := rfl
    rw [hlift]
    exact (of_pure b).congr fun a p q => by simp [eq_comm]

theorem optional (hr : Reads mode r R) :
    Reads mode (optional r) fun o p q =>
      (∃ a, R a p q ∧ o = some a) ∨ ¬ R.Applies p ∧ o = none ∧ p = q := by
  refine (hr.map.orElse (of_pure none)).congr fun o p q => ?_
  have happ : Form.Applies (fun o p q => ∃ a, R a p q ∧ o = some a) p ↔ R.Applies p := by
    constructor
    · intro h
      rcases h with ⟨_, t, a, hR, -⟩
      exact ⟨a, t, hR⟩
    · intro h
      rcases h with ⟨a, t, hR⟩
      exact ⟨_, t, a, hR, rfl⟩
  rw [happ]

theorem firstOf_nil : Reads mode (firstOf ([] : List (Reader α))) (Form.First []) :=
  of_failure.congr fun a p q => by simp

theorem firstOf_cons {readers : List (Reader α)} {forms : List (Form α)} (hr : Reads mode r R)
    (h : Reads mode (firstOf readers) (Form.First forms)) :
    Reads mode (firstOf (r :: readers)) (Form.First (R :: forms)) :=
  (hr.orElse h).congr fun _ _ _ => Form.first_cons

/-! ## Looking ahead -/

theorem ahead (hr : Reads mode r R) : Reads mode (ahead r) fun _ p q => R.Applies p ∧ p = q := by
  intro units a q
  cases hrun : r.run units with
  | none =>
    have happ := hr.run_eq_none_iff.1 hrun
    have hahead : (Reader.ahead r).run units = none := by simp [Reader.ahead, StateT.run, ← hrun]
    simp [hahead, happ]
  | some found =>
    have happ : R.Applies (decode mode units) := ⟨_, _, hr.sound hrun⟩
    have hahead : (Reader.ahead r).run units = some ((), units) := by
      change (r.run units).map (fun _ => ((), units)) = _
      rw [hrun]
      rfl
    simp [hahead, happ]

theorem notAhead (hr : Reads mode r R) :
    Reads mode (notAhead r) fun _ p q => ¬ R.Applies p ∧ p = q := by
  intro units a q
  cases hrun : r.run units with
  | none =>
    have happ := hr.run_eq_none_iff.1 hrun
    have hahead : (Reader.notAhead r).run units = some ((), units) := by
      simp only [Reader.notAhead, StateT.run] at hrun ⊢
      rw [hrun]
    simp [hahead, happ]
  | some found =>
    have happ : R.Applies (decode mode units) := ⟨_, _, hr.sound hrun⟩
    have hahead : (Reader.notAhead r).run units = none := by
      simp only [Reader.notAhead, StateT.run] at hrun ⊢
      rw [hrun]
    simp [hahead, happ]

end Reads

/-! ## Words -/

/-- The words that grammars are written with are in ASCII. -/
theorem reads_word {w : List Char} (hw : ∀ c ∈ w, c.toNat < 0x80) :
    Reads mode (word w) fun _ => Form.word w := by
  intro units a q
  constructor
  · intro h
    rcases of_decode_append hw h with ⟨rest, rfl, hq⟩
    exact ⟨rest, run_word_eq_some_iff.2 rfl, hq⟩
  · intro h
    rcases h with ⟨rest, hrun, rfl⟩
    obtain rfl := run_word_eq_some_iff.1 hrun
    exact decode_encode_append mode hw rest

theorem reads_wordAs {w : List Char} (hw : ∀ c ∈ w, c.toNat < 0x80) (a : α) :
    Reads mode (wordAs w a) fun b p q => b = a ∧ Form.word w p q := by
  refine ((reads_word hw).seqRight (.of_pure a)).congr fun b p q => ?_
  constructor
  · intro h
    rcases h with ⟨rfl, h⟩
    exact ⟨(), q, h, rfl, rfl⟩
  · intro h
    rcases h with ⟨-, t, h, rfl, rfl⟩
    exact ⟨rfl, h⟩

/-- Of words that are no beginnings of each other at most one stands at the front. -/
theorem reads_anyWord {ws : List (List Char)} (hws : ∀ w ∈ ws, ∀ c ∈ w, c.toNat < 0x80)
    (hpre : ws.Pairwise fun v w => ¬ v <+: w ∧ ¬ w <+: v) :
    Reads mode (anyWord ws) fun w p q => w ∈ ws ∧ Form.word w p q := by
  induction ws with
  | nil => exact Reads.of_failure.congr fun w p q => by simp
  | cons v ws ih =>
    rcases List.pairwise_cons.1 hpre with ⟨hv, hws'⟩
    have hhead : Reads mode (word v *> pure v) _ := reads_wordAs (hws v (by simp)) v
    have htail := ih (fun w hw => hws w (by simp [hw])) hws'
    refine (hhead.orElse htail).congr fun w p q => ?_
    constructor
    · intro h
      rcases h with ⟨hmem, h⟩
      rcases List.mem_cons.1 hmem with rfl | hw
      · exact Or.inl ⟨rfl, h⟩
      · refine Or.inr ⟨?_, hw, h⟩
        intro h
        rcases h with ⟨_, t, -, hvt⟩
        -- words in one place are beginnings of each other, which these are not
        rcases Form.prefix_or_prefix_of_word hvt h with hvw | hwv
        · exact (hv w hw).1 hvw
        · exact (hv w hw).2 hwv
    · intro h
      rcases h with ⟨rfl, h⟩ | ⟨-, hw, h⟩
      · exact ⟨by simp, h⟩
      · exact ⟨by simp [hw], h⟩

theorem isPrefixOf_encode_iff {w : List Char} (hw : ∀ c ∈ w, c.toNat < 0x80)
    {units : List CodeUnit} :
    (encode w).isPrefixOf units = true ↔ ∃ t, Form.word w (decode mode units) t := by
  rw [List.isPrefixOf_iff_prefix]
  constructor
  · intro h
    rcases h with ⟨rest, rfl⟩
    exact ⟨_, decode_encode_append mode hw rest⟩
  · intro h
    rcases h with ⟨t, h⟩
    rcases of_decode_append hw h with ⟨rest, rfl, -⟩
    exact List.prefix_append _ _

theorem reads_isAt {w : List Char} (hw : ∀ c ∈ w, c.toNat < 0x80) :
    Reads mode (isAt w) fun b p q => (b = true ↔ ∃ t, Form.word w p t) ∧ p = q := by
  intro units b q
  simp only [isAt, StateT.run, Option.some.injEq, Prod.mk.injEq]
  rw [← isPrefixOf_encode_iff hw]
  constructor
  · intro h
    rcases h with ⟨hb, rfl⟩
    exact ⟨units, ⟨by rw [Bool.eq_iff_iff, hb], rfl⟩, rfl⟩
  · intro h
    rcases h with ⟨rest, ⟨rfl, rfl⟩, rfl⟩
    exact ⟨Iff.rfl, rfl⟩

/-! ## Characters -/

theorem reads_codePoint : Reads mode (codePoint mode) fun n p q => p = n :: q := by
  intro units n q
  constructor
  · exact codePoint_of_decode
  · intro h
    rcases h with ⟨rest, hrun, rfl⟩
    exact decode_of_codePoint hrun

theorem reads_codePointIf (P : Nat → Bool) :
    Reads mode (codePointIf mode P) fun n p q => P n = true ∧ p = n :: q := by
  refine (reads_codePoint.bind fun n => Reads.of_guard.bind fun _ => .of_pure n).congr
    fun n p q => ?_
  constructor
  · intro h
    rcases h with ⟨hn, h⟩
    exact ⟨n, q, h, (), q, ⟨hn, rfl⟩, rfl, rfl⟩
  · intro h
    rcases h with ⟨m, t, h, _, t', ⟨hm, rfl⟩, rfl, rfl⟩
    exact ⟨hm, h⟩

/-- A property that only ASCII characters have. -/
def IsAscii (P : Char → Bool) : Prop := ∀ c, P c = true → c.toNat < 0x80

theorem reads_ascii {P : Char → Bool} (hP : IsAscii P) :
    Reads mode (ascii P) fun c p q => P c = true ∧ p = c.toNat :: q := by
  intro units c q
  constructor
  · intro h
    rcases h with ⟨hc, h⟩
    rcases of_decode_ascii (hP c hc) h with ⟨u, rest, rfl, hu, rfl⟩
    refine ⟨rest, ?_, rfl⟩
    simp [ascii, StateT.run, ascii?_of_toNat (hP c hc) hu, hc]
  · intro h
    rcases h with ⟨rest, hrun, rfl⟩
    cases units with
    | nil => simp [ascii, StateT.run] at hrun
    | cons u units =>
      simp only [ascii, StateT.run] at hrun
      split at hrun
      next d hd =>
        split at hrun
        next hPd =>
          obtain ⟨rfl, rfl⟩ : d = c ∧ units = rest := by simpa using hrun
          rcases toNat_ascii? hd with ⟨hu, hlt⟩
          exact ⟨hPd, by rw [decode_cons_of_ascii mode (by omega), hu]⟩
        next => contradiction
      next => contradiction

/-! ## Repetition -/

theorem reads_exactly {P : Char → Bool} (hP : IsAscii P) (n : Nat) :
    Reads mode (exactly n (ascii P)) (Form.exactly n P) := by
  induction n with
  | zero =>
    refine (Reads.of_pure []).congr fun w p q => ?_
    constructor
    · intro h
      rcases h with ⟨hlen, -, h⟩
      obtain rfl := List.length_eq_zero_iff.1 hlen
      exact ⟨rfl, h⟩
    · intro h
      rcases h with ⟨rfl, rfl⟩
      exact ⟨rfl, by simp, rfl⟩
  | succ n ih =>
    refine ((reads_ascii hP).bind fun c => ih.bind fun w => .of_pure (c :: w)).congr
      fun w p q => ?_
    constructor
    · intro h
      rcases h with ⟨hlen, hall, h⟩
      cases w with
      | nil => simp at hlen
      | cons c w =>
        exact ⟨c, _, ⟨hall c (by simp), h⟩, w, q,
          ⟨by simpa using hlen, fun d hd => hall d (by simp [hd]), rfl⟩, rfl, rfl⟩
    · intro h
      rcases h with ⟨c, t, ⟨hc, hp⟩, w, t', ⟨hlen, hall, ht⟩, rfl, rfl⟩
      refine ⟨by simp [hlen], by simpa [hc] using hall, ?_⟩
      rw [hp, ht]
      rfl

theorem reads_upTo {P : Char → Bool} (hP : IsAscii P) (n : Nat) :
    Reads mode (upTo n (ascii P)) (Form.upTo n P) := by
  induction n with
  | zero =>
    refine (Reads.of_pure []).congr fun w p q => ?_
    constructor
    · intro h
      rcases h with ⟨hlen, -, -, h⟩
      obtain rfl := List.length_eq_zero_iff.1 (Nat.le_zero.1 hlen)
      exact ⟨rfl, h⟩
    · intro h
      rcases h with ⟨rfl, rfl⟩
      exact ⟨Nat.le_refl _, by simp, Or.inl rfl, rfl⟩
  | succ n ih =>
    refine (((reads_ascii hP).bind fun c => ih.bind fun w => .of_pure (c :: w)).orElse
      (.of_pure [])).congr fun w p q => ?_
    constructor
    · intro h
      rcases h with ⟨hlen, hall, hmax, h⟩
      cases w with
      | nil =>
        -- no character is taken, which is right only where none could be
        have hp : ¬ p.StartsWith P := by
          rcases hmax with hmax | hmax
          · simp at hmax
          · rwa [show p = q from h]
        refine Or.inr ⟨?_, rfl, h⟩
        intro h
        rcases h with ⟨_, _, c, t, ⟨hc, hp'⟩, -⟩
        exact hp ⟨c, t, hc, hp'⟩
      | cons c w =>
        exact Or.inl ⟨c, _, ⟨hall c (by simp), h⟩, w, q,
          ⟨by simpa using hlen, fun d hd => hall d (by simp [hd]), by simpa using hmax, rfl⟩, rfl,
          rfl⟩
    · intro h
      rcases h with ⟨c, t, ⟨hc, hp⟩, w, t', ⟨hlen, hall, hmax, ht⟩, rfl, rfl⟩ | ⟨hnone, rfl, rfl⟩
      · refine ⟨by simpa using hlen, by simpa [hc] using hall, by simpa using hmax, ?_⟩
        rw [hp, ht]
        rfl
      · refine ⟨by simp, by simp, Or.inr ?_, rfl⟩
        intro h
        rcases h with ⟨c, t, hc, hp⟩
        -- after `c` at least the empty word can be taken
        rcases Form.applies_upTo n P t with ⟨w, q, hw⟩
        exact hnone ⟨c :: w, q, c, t, ⟨hc, hp⟩, w, q, hw, rfl, rfl⟩

/-- The characters of a span and what follows them. -/
theorem asciiSpan_iff {P : Char → Bool} (hP : IsAscii P) {units : List CodeUnit} {w : List Char}
    {q : Text} : (∃ rest, asciiSpan P units = (w, rest) ∧ decode mode rest = q) ↔
      (∀ c ∈ w, P c = true) ∧ ¬ q.StartsWith P ∧ Form.word w (decode mode units) q := by
  have hspan := encode_asciiSpan P units
  have hmem : ∀ c ∈ (asciiSpan P units).1, P c = true := fun c hc => of_mem_asciiSpan hc
  have hascii : ∀ c ∈ (asciiSpan P units).1, c.toNat < 0x80 := fun c hc => hP c (hmem c hc)
  have hstop : ¬ (decode mode (asciiSpan P units).2).StartsWith P := by
    intro h
    rcases h with ⟨c, t, hc, ht⟩
    have hreads : Reads mode (ascii P) _ := reads_ascii hP
    exact hreads.run_eq_none_iff.1 (run_ascii_asciiSpan P units) ⟨c, t, hc, ht⟩
  have hdecode : decode mode units =
      Text.ofWord (asciiSpan P units).1 ++ decode mode (asciiSpan P units).2 := by
    rw [← decode_encode_append mode hascii, hspan]
  constructor
  · intro h
    rcases h with ⟨rest, heq, rfl⟩
    rw [heq] at hmem hstop hdecode
    exact ⟨hmem, hstop, hdecode⟩
  · intro h
    rcases h with ⟨hw, hq, h⟩
    -- the span and `w` are both longest runs of one text, and there is only one such run
    rcases Text.ofWord_append_inj hmem hw hstop hq (hdecode.symm.trans h) with ⟨hfst, hsnd⟩
    exact ⟨_, Prod.ext hfst rfl, hsnd⟩

/-- A span goes on at least as far as a word in front. -/
theorem le_length_asciiSpan {P : Char → Bool} (hP : IsAscii P) {w : List Char}
    (hw : ∀ c ∈ w, P c = true) (rest : List CodeUnit) :
    w.length ≤ (asciiSpan P (encode w ++ rest)).1.length := by
  induction w with
  | nil => exact Nat.zero_le _
  | cons c w ih =>
    rw [List.forall_mem_cons] at hw
    have hascii : c.toNat < 0x80 := hP c hw.1
    have hunit : CodeUnit.ascii? (.ofNat c.toNat) = some c :=
      ascii?_of_toNat hascii (UInt16.toNat_ofNat_of_lt (Nat.lt_trans hascii (by decide)))
    rw [encode_cons, ofChar_of_ascii hascii, List.append_assoc, List.singleton_append]
    simp only [asciiSpan, hunit, hw.1, if_true, List.length_cons]
    exact Nat.succ_le_succ (ih hw.2)

theorem reads_asciiRun {P : Char → Bool} (hP : IsAscii P) :
    Reads mode (asciiRun P) (Form.run P) := by
  intro units w q
  have hrun (rest : List CodeUnit) : (asciiRun P).run units = some (w, rest) ↔
      w ≠ [] ∧ asciiSpan P units = (w, rest) := by
    simp only [asciiRun, StateT.run]
    split
    next after hspan =>
      constructor
      · nofun
      · intro h
        rcases h with ⟨hne, heq⟩
        rw [hspan] at heq
        exact absurd (congrArg Prod.fst heq).symm hne
    next c cs after hspan =>
      rw [hspan, Option.some.injEq]
      constructor
      · intro heq
        obtain ⟨rfl, rfl⟩ := Prod.mk.inj heq
        exact ⟨List.cons_ne_nil c cs, rfl⟩
      · exact And.right
  rw [Form.run, ← asciiSpan_iff hP]
  simp only [hrun, and_assoc, exists_and_left]

theorem reads_countedRun {P : Char → Bool} (hP : IsAscii P) :
    Reads mode (countedRun P) fun found p q =>
      found.2 = Numeral.count found.1 ∧ (∀ c ∈ found.1, P c = true) ∧ ¬ q.StartsWith P ∧
        Form.word found.1 p q := by
  intro units found q
  constructor
  · intro h
    rcases h with ⟨hcount, h⟩
    rcases (asciiSpan_iff hP).2 h with ⟨rest, hspan, hrest⟩
    refine ⟨rest, ?_, hrest⟩
    simp only [countedRun, StateT.run, hspan, ← hcount]
  · intro h
    rcases h with ⟨rest, hrun, hrest⟩
    obtain ⟨rfl, rfl⟩ := Prod.mk.inj (Option.some.inj hrun)
    exact ⟨rfl, (asciiSpan_iff hP).1 ⟨_, rfl, hrest⟩⟩

theorem Reads.repeats_unique {r : Reader α} {R : Form α} (hr : Reads mode r R)
    {units : List CodeUnit} {as bs : List α} {q q' : Text}
    (h : Form.Repeats R as (decode mode units) q) (hq : ¬ R.Applies q)
    (h' : Form.Repeats R bs (decode mode units) q') (hq' : ¬ R.Applies q') :
    as = bs ∧ q = q' := by
  generalize hp : decode mode units = p at h h'
  -- both repetitions go the same way as long as the reader takes something, so they end together
  induction h generalizing units bs with
  | nil =>
    cases h' with
    | nil => exact ⟨rfl, rfl⟩
    | cons hR _ => exact absurd ⟨_, _, hR⟩ hq
  | cons hR _ ih =>
    cases h' with
    | nil => exact absurd ⟨_, _, hR⟩ hq'
    | cons hR' hrep' =>
      subst hp
      rcases hr.unique hR hR' with ⟨rfl, rfl⟩
      rcases hr.complete hR with ⟨rest, -, hrest⟩
      rcases ih hq hrest hrep' with ⟨rfl, rfl⟩
      exact ⟨rfl, rfl⟩

/-- The bound is large enough, so the repetition ends only where the reader fails. -/
theorem Reads.manyWithin {r : Reader α} {R : Form α} (hr : Reads mode r R)
    (hshrink : R.Shrinks) (bound units : List CodeUnit)
    (hbound : (decode mode units).length ≤ bound.length) :
    Form.Repeats R (manyWithin r bound units).1 (decode mode units)
        (decode mode (manyWithin r bound units).2) ∧
      ¬ R.Applies (decode mode (manyWithin r bound units).2) := by
  induction bound generalizing units with
  | nil =>
    -- the bound is used up together with the text, and nothing shrinks an empty text
    refine ⟨.nil, ?_⟩
    intro h
    rcases h with ⟨a, t, hR⟩
    have hlt := hshrink _ _ _ hR
    have hle : (decode mode units).length ≤ 0 := hbound
    simp only [Reader.manyWithin] at hlt
    omega
  | cons u bound ih =>
    simp only [Reader.manyWithin]
    cases hrun : r.run units with
    | none => exact ⟨.nil, hr.run_eq_none_iff.1 hrun⟩
    | some found =>
      rcases found with ⟨a, after⟩
      have hR := hr.sound hrun
      have hlt := hshrink _ _ _ hR
      simp only [List.length_cons] at hbound
      rcases ih after (by omega) with ⟨hrep, hstop⟩
      exact ⟨.cons hR hrep, hstop⟩

/-- A reader that takes something each time is repeated until it fails. -/
theorem reads_many {r : Reader α} {R : Form α} (hr : Reads mode r R)
    (hshrink : R.Shrinks) :
    Reads mode (many r) fun as p q => Form.Repeats R as p q ∧ ¬ R.Applies q := by
  intro units as q
  rcases hr.manyWithin hshrink units units (length_decode_le mode units) with ⟨hrep, hstop⟩
  simp only [many, StateT.run, Option.some.injEq]
  constructor
  · intro h
    rcases h with ⟨h, hq⟩
    rcases hr.repeats_unique h hq hrep hstop with ⟨rfl, rfl⟩
    exact ⟨_, rfl, rfl⟩
  · intro h
    rcases h with ⟨rest, heq, rfl⟩
    rw [heq] at hrep hstop
    exact ⟨hrep, hstop⟩

end EcmaPattern.Reader
