import EcmaPattern.Proofs.Run.Loop
import EcmaPattern.Proofs.Text.Decoding
import EcmaPattern.Text.Cursor

namespace EcmaPattern

open CodeUnit

/-! # Cursors

A cursor is asked for one thing after the other. What it says that it took is what stands in the text
between the places before and after, and characters that are taken one by one are those of the text.
-/

/-! ## Readers -/

namespace Reader

variable {mode : Mode} {α : Type}

/-- Where `r` finds `a`, the units `f a` stand in front, and it takes those. -/
def Takes (r : Reader α) (f : α → List CodeUnit) : Prop :=
  ∀ text a rest, r.run text = some (a, rest) → text = f a ++ rest

theorem takes_word (w : List Char) : (word w).Takes fun _ => encode w :=
  fun _ _ _ => run_word_eq_some_iff.1

theorem takes_anyWord (words : List (List Char)) : (anyWord words).Takes encode := by
  induction words with
  | nil => exact fun _ _ _ h => nomatch h
  | cons w words ih =>
    intro text found rest h
    have hrun : (anyWord (w :: words)).run text =
        (((word w *> pure w : Reader (List Char)).run text) <|> (anyWord words).run text) := rfl
    rw [hrun, seqRight_eq_bind, StateT.run_bind] at h
    cases hword : (word w).run text with
    | none =>
      rw [hword] at h
      exact ih text found rest h
    | some taken =>
      rw [hword] at h
      obtain ⟨rfl, rfl⟩ : w = found ∧ taken.2 = rest := Prod.mk.inj (Option.some.inj h)
      exact takes_word w text () taken.2 hword

theorem takes_ascii (p : Char → Bool) : (ascii p).Takes ofChar := by
  intro text c rest h
  cases text with
  | nil => contradiction
  | cons u text =>
    simp only [ascii, StateT.run] at h
    split at h
    next d hd =>
      split at h
      · obtain ⟨rfl, rfl⟩ := Prod.mk.inj (Option.some.inj h)
        rw [ofChar_of_ascii? hd, List.singleton_append]
      · contradiction
    next => contradiction

theorem takes_digits : digits.Takes encode :=
  fun _ _ _ h => (of_run_asciiRun h).2.1

/-- A character of either mode is taken with all of its units. -/
theorem takes_codePoint : (codePoint mode).Takes unitsOf := by
  intro text n rest h
  calc text
    _ = (decode mode text).flatMap unitsOf := (flatMap_unitsOf_decode mode text).symm
    _ = unitsOf n ++ (decode mode rest).flatMap unitsOf := by
      rw [decode_of_codePoint h, List.flatMap_cons]
    _ = unitsOf n ++ rest := by rw [flatMap_unitsOf_decode]

theorem takes_ahead (r : Reader α) : (ahead r).Takes fun _ => [] := by
  intro text a rest h
  rcases Option.map_eq_some_iff.1 h with ⟨_, -, heq⟩
  exact (Prod.mk.inj heq).2

end Reader

namespace Cursor

variable {mode : Mode} {α : Type} {c : Cursor} {n : Nat} {rest : List CodeUnit}

/-! ## Operations -/

/-- What a cursor is asked for, going back aside. -/
inductive Operation
  /-- The next character, which is left where it is. -/
  | peek
  /-- The next character. -/
  | advance
  /-- Whether nothing follows. -/
  | atEnd
  /-- Whether the word follows. -/
  | isAt (word : List Char)
  /-- The word. -/
  | take (word : List Char)
  /-- The first of the words that follows. -/
  | takeAny (words : List (List Char))
  /-- One ASCII character that `p` holds of. -/
  | takeAscii (p : Char → Bool)
  /-- Whether a decimal digit follows. -/
  | isAtDigit
  /-- The decimal digits that follow, of which there is at least one. -/
  | takeNumber

/-- What a cursor answers. -/
inductive Answer
  | truth (b : Bool)
  | codePoint (n : Option Nat)
  | character (c : Option Char)
  | word (w : Option (List Char))
  deriving DecidableEq, Repr

/-- Whether the answer is that nothing was found. -/
def Answer.failed : Answer → Bool
  | .truth b => !b
  | .codePoint n => n.isNone
  | .character c => c.isNone
  | .word w => w.isNone

/-- The units that an operation takes, as its answer tells. -/
def Operation.taken : Operation → Answer → List CodeUnit
  | .advance, .codePoint (some n) => unitsOf n
  | .take w, .truth true => encode w
  | .takeAny _, .word (some w) => encode w
  | .takeAscii _, .character (some c) => ofChar c
  | .takeNumber, .word (some w) => encode w
  | _, _ => []

/-- The answer to what `r` takes, and the place after it. -/
def taking (c : Cursor) (r : Reader α) (answer : Option α → Answer) : Answer × Cursor :=
  match c.read? r with
  | some (a, d) => (answer (some a), d)
  | none => (answer none, c)

/-- The answer to one operation, and the place after it. -/
def perform (mode : Mode) (c : Cursor) : Operation → Answer × Cursor
  | .peek => ((c.taking (Reader.codePoint mode) .codePoint).1, c)
  | .advance => c.taking (Reader.codePoint mode) .codePoint
  | .atEnd => (.truth c.atEnd, c)
  | .isAt w => (.truth (c.isAt w), c)
  | .take w => c.taking (Reader.word w) fun found => .truth found.isSome
  | .takeAny words => c.taking (Reader.anyWord words) .word
  | .takeAscii p => c.taking (Reader.ascii p) .character
  | .isAtDigit =>
    c.taking (Reader.ahead (Reader.ascii Char.isDigit)) fun found => .truth found.isSome
  | .takeNumber => c.taking Reader.digits .word

/-- The answers to operations, one after the other, and the place after the last. -/
def performAll (mode : Mode) (c : Cursor) : List Operation → List Answer × Cursor
  | [] => ([], c)
  | operation :: operations =>
    let (answer, next) := c.perform mode operation
    let (answers, last) := next.performAll mode operations
    (answer :: answers, last)

/-- The units that operations take, one after the other. -/
def takenAll (mode : Mode) (c : Cursor) (operations : List Operation) : List CodeUnit :=
  (List.zipWith Operation.taken operations (c.performAll mode operations).1).flatten

/-! ## One operation -/

theorem taking_of_some {r : Reader α} {a : α} (answer : Option α → Answer)
    (h : r.run c.rest = some (a, rest)) :
    c.taking r answer = (answer (some a), { c with rest }) := by
  rw [taking, read?, h]
  rfl

theorem taking_of_none {r : Reader α} (answer : Option α → Answer) (h : r.run c.rest = none) :
    c.taking r answer = (answer none, c) := by
  rw [taking, read?, h]
  rfl

/-- The place `d` is in the same text as `c`, after the units `taken`. -/
structure Passes (c : Cursor) (taken : List CodeUnit) (d : Cursor) : Prop where
  text : d.text = c.text
  rest : c.rest = taken ++ d.rest

theorem Passes.refl (c : Cursor) : c.Passes [] c := ⟨rfl, rfl⟩

theorem Passes.trans {d e : Cursor} {first second : List CodeUnit} (h : c.Passes first d)
    (h' : d.Passes second e) : c.Passes (first ++ second) e where
  text := h'.text.trans h.text
  rest := by rw [h.rest, h'.rest, List.append_assoc]

theorem passes_taking {r : Reader α} {f : α → List CodeUnit} {answer : Option α → Answer}
    {operation : Operation} (hr : r.Takes f)
    (hsome : ∀ a, operation.taken (answer (some a)) = f a)
    (hnone : operation.taken (answer none) = []) :
    c.Passes (operation.taken (c.taking r answer).1) (c.taking r answer).2 := by
  cases hrun : r.run c.rest with
  | none =>
    rw [taking_of_none answer hrun, hnone]
    exact .refl c
  | some found =>
    rw [taking_of_some answer hrun, hsome]
    exact ⟨rfl, hr _ _ _ hrun⟩

/-- An operation passes the units that its answer tells. -/
theorem passes_perform (mode : Mode) (c : Cursor) (operation : Operation) :
    c.Passes (operation.taken (c.perform mode operation).1) (c.perform mode operation).2 := by
  cases operation with
  | peek => exact .refl c
  | advance => exact passes_taking Reader.takes_codePoint (fun _ => rfl) rfl
  | atEnd => exact .refl c
  | isAt w => exact .refl c
  | take w => exact passes_taking (Reader.takes_word w) (fun _ => rfl) rfl
  | takeAny words => exact passes_taking (Reader.takes_anyWord words) (fun _ => rfl) rfl
  | takeAscii p => exact passes_taking (Reader.takes_ascii p) (fun _ => rfl) rfl
  | isAtDigit => exact passes_taking (Reader.takes_ahead _) (fun _ => rfl) rfl
  | takeNumber => exact passes_taking Reader.takes_digits (fun _ => rfl) rfl

theorem taking_of_failed {r : Reader α} {answer : Option α → Answer}
    (hsome : ∀ a, (answer (some a)).failed = false)
    (h : (c.taking r answer).1.failed = true) : (c.taking r answer).2 = c := by
  cases hrun : r.run c.rest with
  | none => rw [taking_of_none answer hrun]
  | some found =>
    rw [taking_of_some answer hrun, hsome] at h
    contradiction

/-- An operation that finds nothing leaves the cursor where it is. -/
theorem perform_of_failed {operation : Operation}
    (h : (c.perform mode operation).1.failed = true) : (c.perform mode operation).2 = c := by
  cases operation with
  | peek => rfl
  | advance => exact taking_of_failed (fun _ => rfl) h
  | atEnd => rfl
  | isAt w => rfl
  | take w => exact taking_of_failed (fun _ => rfl) h
  | takeAny words => exact taking_of_failed (fun _ => rfl) h
  | takeAscii p => exact taking_of_failed (fun _ => rfl) h
  | isAtDigit => exact taking_of_failed (fun _ => rfl) h
  | takeNumber => exact taking_of_failed (fun _ => rfl) h

/-! ## Any operations -/

/-- Operations pass the units that their answers tell, one after the other. -/
theorem passes_performAll (mode : Mode) (c : Cursor) (operations : List Operation) :
    c.Passes (c.takenAll mode operations) (c.performAll mode operations).2 := by
  induction operations generalizing c with
  | nil => exact .refl c
  | cons operation operations ih => exact (passes_perform mode c operation).trans (ih _)

/-- The units `taken` are those of the text between the positions of `c` and `d`. -/
structure Spans (c : Cursor) (taken : List CodeUnit) (d : Cursor) : Prop where
  text : d.text = c.text
  le : c.position ≤ d.position
  inside : d.position ≤ c.text.length
  taken : taken = (c.text.take d.position).drop c.position

theorem Passes.spans {d : Cursor} {taken : List CodeUnit} (h : c.Passes taken d)
    (hc : c.rest <:+ c.text) : c.Spans taken d := by
  rcases hc with ⟨before, hbefore⟩
  have htext : c.text = before ++ taken ++ d.rest := by
    rw [← hbefore, h.rest, List.append_assoc]
  have hfirst : c.position = before.length := by
    rw [position, ← hbefore, List.length_append, Nat.add_sub_cancel]
  have hlast : d.position = (before ++ taken).length := by
    rw [position, h.text, htext, List.length_append, Nat.add_sub_cancel]
  refine ⟨h.text, ?_, ?_, ?_⟩
  · rw [hfirst, hlast, List.length_append]
    exact Nat.le_add_right _ _
  · rw [hlast, htext]
    exact (List.prefix_append _ _).length_le
  · rw [hfirst, hlast, htext, List.take_left, List.drop_left]

/-! ## Characters one by one -/

/-- The characters of a text are taken in order, and then there is none. -/
theorem performAll_advance (characters : Text) (h : decode mode c.rest = characters) :
    (c.performAll mode (List.replicate (characters.length + 1) .advance)).1 =
      characters.map (fun n => .codePoint (some n)) ++ [.codePoint none] := by
  induction characters generalizing c with
  | nil =>
    have hnone : (Reader.codePoint mode).run c.rest = none := by
      rw [decode_eq_nil_iff.1 h]
      cases mode <;> rfl
    have hperform : c.perform mode .advance = (.codePoint none, c) := taking_of_none _ hnone
    rw [List.length_nil, Nat.zero_add, List.replicate_one, performAll, hperform]
    rfl
  | cons n characters ih =>
    rcases codePoint_of_decode h with ⟨rest, hrun, hrest⟩
    have hperform : c.perform mode .advance = (.codePoint (some n), { c with rest }) :=
      taking_of_some _ hrun
    rw [List.length_cons, List.replicate_succ, performAll, hperform]
    exact congrArg _ (ih (c := { c with rest }) hrest)

/-- The characters of a text: its scalar values in Unicode mode, and in legacy mode its code units. -/
def characters (text : String) : Mode → Text
  | .unicode => text.toList.map Char.toNat
  | .legacy => (encode text.toList).map UInt16.toNat

theorem decode_encode_toList (text : String) (mode : Mode) :
    decode mode (encode text.toList) = characters text mode := by
  cases mode with
  | unicode => exact decode_unicode_encode text.toList
  | legacy => rfl

/-- A cursor gives back what was written. Taken one by one until there is none, the characters are
those of the text in Unicode mode and its code units in legacy mode. From any position on, the units
that operations take are those of the text between the first position and the last, and an operation
that finds nothing stays where it is. -/
theorem reads_what_was_written (text : String) :
    (∀ mode,
      ((start (encode text.toList)).performAll mode
          (List.replicate ((characters text mode).length + 1) .advance)).1 =
        (characters text mode).map (fun n => .codePoint (some n)) ++ [.codePoint none]) ∧
      (∀ (mode : Mode) (position : Nat) (operations : List Operation),
        ((start (encode text.toList)).moveTo position).Spans
          (((start (encode text.toList)).moveTo position).takenAll mode operations)
          (((start (encode text.toList)).moveTo position).performAll mode operations).2) ∧
      ∀ (mode : Mode) (c : Cursor) (operation : Operation),
        (c.perform mode operation).1.failed = true →
          (c.perform mode operation).2.position = c.position := by
  refine ⟨fun mode => ?_, fun mode position operations => ?_, fun mode c operation h => ?_⟩
  · exact performAll_advance _ (decode_encode_toList text mode)
  · exact (passes_performAll mode _ operations).spans (List.drop_suffix position _)
  · rw [perform_of_failed h]

end Cursor

end EcmaPattern
