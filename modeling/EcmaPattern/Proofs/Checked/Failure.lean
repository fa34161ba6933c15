import EcmaPattern.Proofs.Checked.Recognizer
import EcmaPattern.Proofs.Recognition.Idle

namespace EcmaPattern

open CodeUnit Recognizer

/-! # Runs that fail

A run has no result where one of its parts has none. What is run first fails as it is; what is run
later fails if all before it has the result of the model.
-/

namespace Checked

variable {mode : Mode} {α β : Type} {units text : List CodeUnit} {s : State} {m : Machine}
  {position : Nat}

/-! ## What is run first -/

section

variable {r r' : Reader α} {f : α → Reader β} {first : r.Parts mode} {second : r'.Parts mode}
  {next : ∀ a, (f a).Parts mode}

theorem reader_bind_eq_none (h : first.checked units position = none) :
    (Reader.Parts.bind first next).checked units position = none := by
  rw [Reader.Parts.checked, h]
  rfl

theorem reader_orElse_eq_none (h : first.checked units position = none) :
    (Reader.Parts.orElse first second).checked units position = none := by
  rw [Reader.Parts.checked, h]
  rfl

end

section

variable {r : Reader α} {p q : Recognizer} {f : α → Recognizer} {first : p.Parts mode}
  {second : q.Parts mode} {reader : r.Parts mode} {next : ∀ a, (f a).Parts mode}

theorem reading_eq_none (h : reader.checked m.units m.position = none) :
    (Parts.reading reader next).checked m = none := by
  change (Parts.readingOr reader next (.done .noMatch)).checked m = none
  rw [Parts.checked, h]
  rfl

theorem orElse_eq_none (h : first.checked m = none) :
    (Parts.orElse first second).checked m = none := by
  rw [Parts.checked, h]
  rfl

theorem followedBy_eq_none (h : first.checked m = none) :
    (Parts.followedBy first second).checked m = none := by
  rw [Parts.checked, h]
  rfl

theorem attempt_eq_none {rollback : Rollback} (h : first.checked m = none) :
    (Parts.attempt rollback first).checked m = none := by
  rw [Parts.checked, h]
  rfl

theorem ofEq_eq_none {heq : p = q} (h : first.checked m = none) :
    (Parts.ofEq heq first).checked m = none := by
  rwa [Parts.checked]

/-! ## What is run later -/

theorem ite_eq_none_of_not {c : State → Prop} [DecidablePred c] (hs : s.Ready units) (hc : ¬ c s)
    (h : second.checked (Machine.ofState s) = none) :
    (Parts.ite c first second).checked (Machine.ofState s) = none := by
  rw [Parts.checked, Machine.state?_ofState hs.suffix, Option.bind_eq_bind, Option.bind_some,
    if_neg hc]
  exact h

theorem bounded_eq_none {p : List CodeUnit → Recognizer} {next : ∀ bound, (p bound).Parts mode}
    (hs : s.Ready units) (h : (next s.rest).checked (Machine.ofState s) = none) :
    (Parts.bounded next).checked (Machine.ofState s) = none := by
  rw [Parts.checked, Machine.state?_ofState hs.suffix]
  exact h

/-- A form is tried after one that does nothing. -/
theorem orElse_eq_none_of_idle (hs : s.Ready units) (hp : Idle p s)
    (h : second.checked (Machine.ofState s) = none) :
    (Parts.orElse first second).checked (Machine.ofState s) = none :=
  (checked_ofState first hs).bind_eq_none <| by
    rw [hp]
    exact h

theorem firstOfCons_eq_none {readers : List (Reader α)}
    {later : (Reader.firstOf readers).Parts mode} (htext : text <:+ units)
    (hlen : units.length < 2 ^ 32) (hrun : r.run text = none)
    (h : later.checked units (units.length - text.length) = none) :
    (Reader.Parts.firstOfCons reader later).checked units (units.length - text.length) = none :=
  (follows_checked reader units text htext hlen).bind_eq_none <| by
    rw [hrun]
    exact h

/-- After a word that stands in front the rest is run. -/
theorem reading_word_eq_none {w : List Char} {next : Unit → q.Parts mode} {rest : List CodeUnit}
    (hs : s.Ready units) (hrest : s.rest = encode w ++ rest)
    (h : (next ()).checked (Machine.ofState { s with rest }) = none) :
    (Parts.reading (.word w) next).checked (Machine.ofState s) = none := by
  change (Parts.readingOr (.word w) next (.done .noMatch)).checked (Machine.ofState s) = none
  rw [Parts.checked]
  refine (checked_reader (.word w) hs).bind_eq_none ?_
  rw [Reader.run_word_eq_some_iff.2 hrest]
  exact h

end

end Checked

end EcmaPattern
