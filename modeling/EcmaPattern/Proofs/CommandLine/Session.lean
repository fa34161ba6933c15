import EcmaPattern.CommandLine.Session
import EcmaPattern.Proofs.CommandLine.Arguments
import EcmaPattern.Proofs.Literal
import EcmaPattern.Proofs.Text.Lines

namespace EcmaPattern.CommandLine

/-! # Two ways to give the inputs

A session reports the same on inputs that are arguments as on those that are lines of the standard
input, however its options are spelled.
-/

variable {a : Arguments} {input : String} {inputs : List String} {l : Literal}
variable {spellings : List Spelling}

/-- The report is `r` when `inputs` are arguments that follow the options and two dashes, whatever the
standard input is, and when they are the lines of the standard input. -/
def Reports (options inputs : List String) (r : Report) : Prop :=
  (∀ stdin, run (options ++ "--" :: inputs) stdin = r) ∧ run options (Lines.write inputs) = r

/-! ## Verdicts -/

theorem options_eq (a : Arguments) :
    a.options =
      { mode := if a.unicode then .unicode else .legacy
        nestingLimit := a.nestingLimit.getD 256 } := by
  rw [Arguments.options]
  cases a.nestingLimit <;> rfl

theorem check_of_not_literal (h : a.literal = false) : check a input = accepts a.options input := by
  rw [check, h]
  rfl

/-- A literal is checked in the mode of its flags. -/
theorem check_render (h : a.literal = true) (hflags : Literal.ValidFlags l.flags.toList) :
    check a l.render = accepts { a.options with mode := l.mode } l.pattern := by
  rw [check, h, if_pos rfl, Literal.ofString_eq_ok_iff.2 ⟨rfl, hflags⟩]
  rfl

/-- Among literals, what is none is rejected. -/
theorem check_of_ne_render (h : a.literal = true)
    (hinput : ∀ l : Literal, Literal.ValidFlags l.flags.toList → input ≠ l.render) :
    check a input = false := by
  rw [check, h, if_pos rfl]
  cases hread : Literal.ofString input with
  | error => rfl
  | ok l =>
    obtain ⟨heq, hflags⟩ := Literal.ofString_eq_ok_iff.1 hread
    exact absurd heq (hinput l hflags)

/-! ## Reports -/

/-- Each input has a line, and the status tells whether all are accepted. -/
theorem report_eq (a : Arguments) (inputs : List String) :
    report a inputs true =
      { stdout :=
          if a.quiet then ""
          else String.join (inputs.map fun input => verdictLine (check a input) input)
        status := if ∀ input ∈ inputs, check a input = true then 0 else 1 } := by
  have hall : (inputs.map fun input => (input, check a input)).all (·.2) = true ↔
      ∀ input ∈ inputs, check a input = true := by
    rw [List.all_map, List.all_eq_true]
    rfl
  rw [report, List.map_map, Bool.and_true, ite_congr (propext hall) (fun _ => rfl) fun _ => rfl]
  rfl

/-- The status does not depend on whether the session is quiet. -/
theorem report_quiet (a : Arguments) (inputs : List String) :
    report { a with quiet := true } inputs true =
      { report { a with quiet := false } inputs true with stdout := "" } :=
  rfl

theorem reports_of_selects (hinputs : inputs ≠ []) (hlines : ∀ input ∈ inputs, Lines.IsLine input)
    (h : a.Selects (spellings.flatMap Spelling.choices)) :
    Reports (spellings.flatMap Spelling.words) inputs (report a inputs true) := by
  constructor
  · intro stdin
    have hnonempty : ¬ inputs.isEmpty = true := mt List.isEmpty_iff.1 hinputs
    rw [run, Arguments.ofList_dashes_of_selects h]
    dsimp only
    rw [if_neg hnonempty]
    -- no check reads the patterns among the arguments
    rfl
  · rw [run, Arguments.ofList_of_selects h]
    dsimp only
    rw [h.patterns, List.isEmpty_nil, if_pos rfl, reportLines, Lines.decodeAll_split_write hlines]

theorem Reports.unique {options : List String} {r r' : Report} (h : Reports options inputs r)
    (h' : Reports options inputs r') : r = r' :=
  h.2.symm.trans h'.2

/-- Inputs that are lines may be given either way: any options can be spelled, and however they are,
both ways print a line for each input, in order, and end with the same status, which is 0 if all are
accepted and else 1. A quiet session differs in its output only, which is empty. Among literals a
pattern with its flags is checked in the mode of the flags, and what is no literal is rejected; other
inputs are checked in the mode of the options. -/
theorem input_paths_agree (ha : a.patterns = []) (hinputs : inputs ≠ [])
    (hlines : ∀ input ∈ inputs, Lines.IsLine input) :
    (∃ spellings : List Spelling, a.Selects (spellings.flatMap Spelling.choices)) ∧
      (∀ spellings : List Spelling, a.Selects (spellings.flatMap Spelling.choices) →
        Reports (spellings.flatMap Spelling.words) inputs
          { stdout :=
              if a.quiet then ""
              else String.join (inputs.map fun input => verdictLine (check a input) input)
            status := if ∀ input ∈ inputs, check a input = true then 0 else 1 }) ∧
      (∀ (loud silent : List Spelling) (r : Report),
        Arguments.Selects (loud.flatMap Spelling.choices) { a with quiet := false } →
        Arguments.Selects (silent.flatMap Spelling.choices) { a with quiet := true } →
        Reports (loud.flatMap Spelling.words) inputs r →
        Reports (silent.flatMap Spelling.words) inputs { r with stdout := "" }) ∧
      (a.literal = true → ∀ l : Literal, Literal.ValidFlags l.flags.toList →
        check a l.render =
          accepts
            { mode := if 'u' ∈ l.flags.toList then .unicode else .legacy
              nestingLimit := a.nestingLimit.getD 256 }
            l.pattern) ∧
      (a.literal = true → ∀ input,
        (∀ l : Literal, Literal.ValidFlags l.flags.toList → input ≠ l.render) →
        check a input = false) ∧
      (a.literal = false → ∀ input,
        check a input =
          accepts
            { mode := if a.unicode then .unicode else .legacy
              nestingLimit := a.nestingLimit.getD 256 }
            input) := by
  refine ⟨Arguments.exists_selects ha, fun spellings hspellings => ?_,
    fun loud silent r hloud hsilent hr => ?_, fun hliteral l hflags => ?_,
    fun hliteral input => check_of_ne_render hliteral, fun hliteral input => ?_⟩
  · rw [← report_eq]
    exact reports_of_selects hinputs hlines hspellings
  · rw [hr.unique (reports_of_selects hinputs hlines hloud), ← report_quiet]
    exact reports_of_selects hinputs hlines hsilent
  · rw [check_render hliteral hflags, options_eq]
    rfl
  · rw [check_of_not_literal hliteral, options_eq]

/-- Flags of a literal count, not `-u`: the first one is checked in legacy mode. -/
theorem input_paths_agree_for_literals :
    (∀ input ∈ ["/\\-/", "/\\-/u", "", "/((a))/"], Lines.IsLine input) ∧
      Reports ["-lu", "--max-nesting=1"] ["/\\-/", "/\\-/u", "", "/((a))/"]
        { stdout := "accept\t/\\-/\nreject\t/\\-/u\nreject\t\nreject\t/((a))/\n", status := 1 } ∧
      Reports ["--max-nesting", "+1", "-ul", "--quiet"] ["/\\-/", "/\\-/u", "", "/((a))/"]
        { stdout := "", status := 1 } := by
  let a : Arguments := { unicode := true, literal := true, nestingLimit := some 1 }
  have hlines : ∀ input ∈ ["/\\-/", "/\\-/u", "", "/((a))/"], Lines.IsLine input := by
    unfold Lines.IsLine
    decide +kernel
  have hloud : a.Selects
      ([Spelling.letters .literal [.unicode], .joinedLimit "1"].flatMap Spelling.choices) := by
    refine ⟨by decide, fun flag => ?_, .cons ⟨['1'], by decide +kernel⟩ .nil, rfl⟩
    cases flag <;> decide
  have hsilent : Arguments.Selects
      ([Spelling.limit "+1", .letters .unicode [.literal], .long .quiet].flatMap Spelling.choices)
      { a with quiet := true } := by
    refine ⟨by decide, fun flag => ?_, .cons ⟨['1'], by decide +kernel⟩ .nil, rfl⟩
    cases flag <;> decide
  have hreport : report a ["/\\-/", "/\\-/u", "", "/((a))/"] true =
      { stdout := "accept\t/\\-/\nreject\t/\\-/u\nreject\t\nreject\t/((a))/\n", status := 1 } := by
    decide +kernel
  have ha : a.patterns = [] := rfl
  obtain ⟨-, hboth, hquiet, -⟩ := input_paths_agree ha (by decide) hlines
  have h := hboth _ hloud
  rw [← report_eq, hreport] at h
  exact ⟨hlines, h, hquiet _ _ _ hloud hsilent h⟩

end EcmaPattern.CommandLine
