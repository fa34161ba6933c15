import EcmaPattern.CommandLine.Arguments
import EcmaPattern.Proofs.Text.NumeralOrder
import Mathlib.Data.List.Forall2
import Mathlib.Data.List.Induction

namespace EcmaPattern.CommandLine

/-! # Options in any order and spelling

Options may be given as words or as letters, the letters together or apart, and in any order: where
each is given once, the arguments are read as what was chosen.
-/

/-! ## Choices -/

/-- One option that is chosen, with its value if it has one. -/
inductive Choice
  | flag (flag : Flag)
  | limit (value : String)
  deriving DecidableEq, Repr

/-- The value of a nesting limit. -/
def Choice.limit? : Choice → Option String
  | .flag _ => none
  | .limit value => some value

/-- The text is decimal digits of `depth`, perhaps after a plus sign. -/
def WritesDepth (value : String) (depth : UInt64) : Prop :=
  ∃ digits, (value.toList = digits ∨ value.toList = '+' :: digits) ∧ digits ≠ [] ∧
    (∀ c ∈ digits, c.isDigit = true) ∧ Numeral.value 10 digits = depth.toNat

/-- How options are spelled, in one argument or two. -/
inductive Spelling
  /-- The name of a flag after two dashes. -/
  | long (flag : Flag)
  /-- The letters of flags after one dash. -/
  | letters (flag : Flag) (more : List Flag)
  /-- The nesting limit, its value in an argument of its own. -/
  | limit (value : String)
  /-- The nesting limit and its value in one argument. -/
  | joinedLimit (value : String)
  deriving DecidableEq, Repr

namespace Spelling

/-- The arguments. -/
def words : Spelling → List String
  | .long flag => ["--" ++ flag.name]
  | .letters flag more => [.ofList ('-' :: (flag :: more).map Flag.letter)]
  | .limit value => ["--" ++ Arguments.limitName, value]
  | .joinedLimit value => ["--" ++ (Arguments.limitName ++ "=" ++ value)]

/-- The options that are spelled. -/
def choices : Spelling → List Choice
  | .long flag => [.flag flag]
  | .letters flag more => (flag :: more).map .flag
  | .limit value | .joinedLimit value => [.limit value]

end Spelling

namespace Arguments

variable {a b : Arguments} {flag flag' : Flag} {choice : Choice} {choices : List Choice}
variable {value : String} {depth : UInt64}

/-- Whether a flag is set. The version and the help are never, since they end a session at once. -/
def has (a : Arguments) : Flag → Bool
  | .unicode => a.unicode
  | .literal => a.literal
  | .quiet => a.quiet
  | .version | .help => false

/-- The arguments `a` have the options `choices`, each chosen once, and no pattern. -/
structure Selects (choices : List Choice) (a : Arguments) : Prop where
  once : choices.Nodup
  flag (flag : Flag) : .flag flag ∈ choices ↔ a.has flag = true
  limit : List.Forall₂ WritesDepth (choices.filterMap Choice.limit?) a.nestingLimit.toList
  patterns : a.patterns = []

/-! ## Depths -/

theorem ne_plus_of_isDigit {c : Char} (h : c.isDigit = true) : c ≠ '+' ∧ c ≠ '-' := by
  constructor
  · rintro rfl
    contradiction
  · rintro rfl
    contradiction

theorem depth?_of_writesDepth (h : WritesDepth value depth) : depth? value = some depth := by
  rcases h with ⟨digits, hvalue, hne, hdigits, hnumeral⟩
  have hall : digits.all Char.isDigit = true := List.all_eq_true.2 hdigits
  have hlt : depth.toNat < UInt64.size := depth.toNat_lt
  have hread : depth? value =
      if !digits.isEmpty && digits.all Char.isDigit && Numeral.value 10 digits < UInt64.size then
        some (.ofNat (Numeral.value 10 digits))
      else none := by
    rw [depth?]
    rcases hvalue with hvalue | hvalue
    · rw [hvalue]
      split
      next rest =>
        exact absurd rfl (ne_plus_of_isDigit (hdigits '+' List.mem_cons_self)).1
      next => rfl
    · rw [hvalue]
      rfl
  rw [hread, hnumeral, hall, UInt64.ofNat_toNat, if_pos (by simpa [hne] using hlt)]

/-- What writes a depth is no option. -/
theorem head_of_writesDepth (h : WritesDepth value depth) : value.toList.head? ≠ some '-' := by
  rcases h with ⟨digits, hvalue | hvalue, hne, hdigits, -⟩
  · rw [hvalue]
    cases digits with
    | nil => exact absurd rfl hne
    | cons c digits =>
      have hc := (ne_plus_of_isDigit (hdigits c List.mem_cons_self)).2
      simpa using hc
  · rw [hvalue]
    exact fun hhead => absurd (Option.some.inj hhead) (by decide)

/-- Each depth can be written. -/
theorem writesDepth_repr (depth : UInt64) : WritesDepth depth.toNat.repr depth := by
  have hdigits : ∀ c ∈ Nat.toDigits 10 depth.toNat, c.isDigit = true :=
    fun c hc => Nat.isDigit_of_mem_toDigits (by decide) (by decide) hc
  have hvalue (digits : List Char) (h : ∀ c ∈ digits, c.isDigit = true) (n : Nat) :
      digits.foldl (fun v c => v * 10 + Numeral.digitValue c) n = Nat.ofDigitChars 10 digits n := by
    induction digits generalizing n with
    | nil => rfl
    | cons c digits ih =>
      rw [List.forall_mem_cons] at h
      rw [List.foldl_cons, ih h.2, Nat.ofDigitChars_cons, (Numeral.digitValue_of_isDigit h.1).1,
        Nat.mul_comm]
      rfl
  refine ⟨_, Or.inl Nat.toList_repr, Nat.toDigits_ne_nil, hdigits, ?_⟩
  rw [Numeral.value, hvalue _ hdigits, Nat.ofDigitChars_ten_toDigits]

/-! ## Applying choices -/

/-- Applies one choice. -/
def choose (a : Arguments) : Choice → Except Halt Arguments
  | .flag flag => a.addFlag flag
  | .limit value => a.setLimit value

/-- The arguments with a flag set or not. -/
def withFlag (a : Arguments) (given : Bool) : Flag → Arguments
  | .unicode => { a with unicode := given }
  | .literal => { a with literal := given }
  | .quiet => { a with quiet := given }
  | .version | .help => a

theorem has_withFlag_self (b : Arguments) (flag : Flag) :
    (b.withFlag false flag).has flag = false := by
  cases flag <;> rfl

theorem has_withFlag_of_ne (b : Arguments) (given : Bool) (h : flag' ≠ flag) :
    (b.withFlag given flag).has flag' = b.has flag' := by
  cases flag <;> cases flag' <;> first | rfl | contradiction

theorem nestingLimit_withFlag (b : Arguments) (given : Bool) (flag : Flag) :
    (b.withFlag given flag).nestingLimit = b.nestingLimit := by
  cases flag <;> rfl

theorem patterns_withFlag (b : Arguments) (given : Bool) (flag : Flag) :
    (b.withFlag given flag).patterns = b.patterns := by
  cases flag <;> rfl

theorem addFlag_withFlag (h : b.has flag = true) :
    (b.withFlag false flag).addFlag flag = .ok b := by
  obtain ⟨unicode, literal, quiet, nestingLimit, patterns⟩ := b
  cases flag with
  | unicode =>
    obtain rfl : unicode = true := h
    rfl
  | literal =>
    obtain rfl : literal = true := h
    rfl
  | quiet =>
    obtain rfl : quiet = true := h
    rfl
  | version => contradiction
  | help => contradiction

theorem eq_empty_of_selects (h : Selects [] a) : a = {} := by
  have hflag (flag : Flag) : a.has flag = false :=
    Bool.eq_false_iff.2 fun hset => List.not_mem_nil ((h.flag flag).2 hset)
  obtain ⟨unicode, literal, quiet, nestingLimit, patterns⟩ := a
  obtain rfl : unicode = false := hflag .unicode
  obtain rfl : literal = false := hflag .literal
  obtain rfl : quiet = false := hflag .quiet
  obtain rfl : patterns = [] := h.patterns
  cases nestingLimit with
  | none => rfl
  | some depth => exact nomatch h.limit

/-- A value that is given is the only one. -/
theorem exists_of_forall₂_append {values : List String} {limit : Option UInt64}
    (h : List.Forall₂ WritesDepth (values ++ [value]) limit.toList) :
    ∃ depth, limit = some depth ∧ values = [] ∧ WritesDepth value depth := by
  cases limit with
  | none => exact absurd h.length_eq (by simp)
  | some depth =>
    cases values with
    | nil => exact ⟨depth, rfl, rfl, (List.forall₂_cons.1 h).1⟩
    | cons other values => exact absurd h.length_eq (by simp)

/-- The last choice is applied to what the others select. -/
theorem exists_of_selects_append (h : Selects (choices ++ [choice]) b) :
    ∃ a, Selects choices a ∧ a.choose choice = .ok b := by
  have hparts := List.nodup_append.1 h.once
  have hnew : choice ∉ choices := fun hmem => hparts.2.2 _ hmem _ List.mem_cons_self rfl
  have hlimit := h.limit
  rw [List.filterMap_append] at hlimit
  cases choice with
  | flag flag =>
    have hset : b.has flag = true :=
      (h.flag flag).1 (List.mem_append_right choices List.mem_cons_self)
    refine ⟨b.withFlag false flag, ⟨hparts.1, fun flag' => ?_, ?_, ?_⟩, addFlag_withFlag hset⟩
    · by_cases heq : flag' = flag
      · subst heq
        rw [has_withFlag_self]
        exact iff_of_false hnew (by decide)
      · rw [has_withFlag_of_ne b false heq, ← h.flag flag', List.mem_append, List.mem_singleton,
          Choice.flag.injEq, or_iff_left heq]
    · rw [nestingLimit_withFlag]
      rwa [List.filterMap_cons_none rfl, List.filterMap_nil, List.append_nil] at hlimit
    · rw [patterns_withFlag, h.patterns]
  | limit value =>
    obtain ⟨unicode, literal, quiet, nestingLimit, patterns⟩ := b
    obtain ⟨depth, rfl, hnone, hvalue⟩ := exists_of_forall₂_append hlimit
    refine ⟨{ unicode, literal, quiet, patterns }, ⟨hparts.1, fun flag => ?_, ?_, h.patterns⟩, ?_⟩
    · have hflag := h.flag flag
      rw [List.mem_append, or_iff_left (by simp)] at hflag
      rw [hflag]
      cases flag <;> rfl
    · rw [hnone]
      exact .nil
    · rw [choose, setLimit, depth?_of_writesDepth hvalue]
      rfl

/-- Applied in order, choices give what they select. -/
theorem foldlM_choose_of_selects (h : Selects choices a) : choices.foldlM choose {} = .ok a := by
  induction choices using List.reverseRecOn generalizing a with
  | nil =>
    rw [eq_empty_of_selects h]
    rfl
  | append_singleton choices choice ih =>
    rcases exists_of_selects_append h with ⟨b, hb, hchoose⟩
    rw [List.foldlM_append, ih hb]
    change [choice].foldlM choose b = .ok a
    rw [List.foldlM_cons, hchoose]
    rfl

/-! ## Reading spellings -/

theorem find?_name (flag : Flag) : Flag.all.find? (·.name == flag.name) = some flag := by
  cases flag <;> decide +kernel

theorem find?_letter (flag : Flag) : Flag.all.find? (·.letter == flag.letter) = some flag := by
  cases flag <;> decide +kernel

theorem add_long (a : Arguments) (flag : Flag) : a.add ("--" ++ flag.name) = a.addFlag flag := by
  have hname : flag.name.toList.takeWhile (· != '=') = flag.name.toList ∧
      flag.name.toList.dropWhile (· != '=') = [] := by
    cases flag <;> decide +kernel
  have hadd : a.add ("--" ++ flag.name) = a.addLong flag.name.toList := by
    rw [add, String.toList_append]
    rfl
  rw [hadd, addLong, hname.1, hname.2, String.ofList_toList]
  simp only [find?_name]

theorem addLetters_letter (a : Arguments) (flags : List Flag) :
    a.addLetters (flags.map Flag.letter) = (flags.map Choice.flag).foldlM choose a := by
  induction flags generalizing a with
  | nil => rfl
  | cons flag flags ih =>
    rw [List.map_cons, addLetters, find?_letter, List.map_cons, List.foldlM_cons]
    exact congrArg _ (funext ih)

theorem add_letters (a : Arguments) (flag : Flag) (more : List Flag) :
    a.add (.ofList ('-' :: (flag :: more).map Flag.letter)) =
      ((flag :: more).map Choice.flag).foldlM choose a := by
  rw [add, String.toList_ofList, ← addLetters_letter]
  -- no flag has a dash for its letter
  cases flag <;> rfl

theorem add_joinedLimit (a : Arguments) (value : String) :
    a.add ("--" ++ (limitName ++ "=" ++ value)) = a.setLimit value := by
  have hname : ∀ c ∈ limitName.toList, (c != '=') = true := by decide +kernel
  have htext : (limitName ++ "=" ++ value).toList = limitName.toList ++ '=' :: value.toList := by
    simp
  have htake : (limitName ++ "=" ++ value).toList.takeWhile (· != '=') = limitName.toList := by
    rw [htext, List.takeWhile_append_of_pos hname, List.takeWhile_cons_of_neg (by decide),
      List.append_nil]
  have hdrop : (limitName ++ "=" ++ value).toList.dropWhile (· != '=') = '=' :: value.toList := by
    rw [htext, List.dropWhile_append_of_pos hname, List.dropWhile_cons_of_neg (by decide)]
  have hadd : a.add ("--" ++ (limitName ++ "=" ++ value)) =
      a.addLong (limitName ++ "=" ++ value).toList := by
    rw [add, String.toList_append]
    rfl
  rw [hadd, addLong, htake, hdrop, String.ofList_toList]
  simp only [String.ofList_toList, if_true]

/-- An argument that is neither the name of the nesting limit nor two dashes is applied by itself. -/
theorem addAll_cons {argument : String} (hdashes : argument ≠ "--")
    (hlimit : argument ≠ "--" ++ limitName) (rest : List String) :
    a.addAll (argument :: rest) = a.add argument >>= fun b => b.addAll rest := by
  rw [addAll.eq_def]
  dsimp only
  rw [if_neg hdashes, if_neg hlimit]

theorem addAll_dashes (a : Arguments) (rest : List String) :
    a.addAll ("--" :: rest) = .ok (a.addPatterns rest) := by
  rw [addAll.eq_def]
  dsimp only
  rw [if_pos rfl]

theorem addAll_limit (h : value.toList.head? ≠ some '-') (rest : List String) :
    a.addAll (("--" ++ limitName) :: value :: rest) =
      a.setLimit value >>= fun b => b.addAll rest := by
  have hdashes : "--" ++ limitName ≠ "--" := by decide +kernel
  rw [addAll.eq_def]
  dsimp only
  rw [if_neg hdashes, if_pos rfl, if_neg h]

theorem foldlM_choose_singleton (a : Arguments) (choice : Choice) :
    [choice].foldlM choose a = a.choose choice := by
  rw [List.foldlM_cons]
  exact bind_pure _

/-- Letters after one dash are no argument that starts with two. -/
theorem letters_ne {word : String} {text : List Char} (hword : word.toList = '-' :: '-' :: text)
    (flag : Flag) (more : List Flag) :
    String.ofList ('-' :: (flag :: more).map Flag.letter) ≠ word := by
  have hletter : flag.letter ≠ '-' := by
    cases flag <;> decide
  rintro rfl
  rw [String.toList_ofList] at hword
  exact hletter (List.cons.inj (List.cons.inj hword).2).1

/-- Arguments that spell options are read as what is chosen, and then come the others. -/
theorem addAll_words (a : Arguments) (spelling : Spelling) (rest : List String)
    (hvalue : ∀ value, .limit value ∈ spelling.choices → value.toList.head? ≠ some '-') :
    a.addAll (spelling.words ++ rest) =
      spelling.choices.foldlM choose a >>= fun b => b.addAll rest := by
  cases spelling with
  | long flag =>
    have hne : "--" ++ flag.name ≠ "--" ∧ "--" ++ flag.name ≠ "--" ++ limitName := by
      cases flag <;> decide +kernel
    rw [Spelling.words, List.singleton_append, addAll_cons hne.1 hne.2, add_long, Spelling.choices,
      foldlM_choose_singleton]
    rfl
  | letters flag more =>
    rw [Spelling.words, List.singleton_append,
      addAll_cons (letters_ne rfl flag more) (letters_ne rfl flag more), add_letters,
      Spelling.choices]
  | limit value =>
    have hhead : value.toList.head? ≠ some '-' := hvalue value List.mem_cons_self
    rw [Spelling.words, List.cons_append, List.singleton_append, addAll_limit hhead,
      Spelling.choices, foldlM_choose_singleton]
    rfl
  | joinedLimit value =>
    have hne {word : String} (hword : '=' ∉ word.toList) :
        "--" ++ (limitName ++ "=" ++ value) ≠ word := by
      rintro rfl
      simp at hword
    rw [Spelling.words, List.singleton_append,
      addAll_cons (hne (by decide +kernel)) (hne (by decide +kernel)), add_joinedLimit,
      Spelling.choices, foldlM_choose_singleton]
    rfl

/-! ## Reading all options -/

theorem writesDepth_of_selects (h : Selects choices a) (hmem : .limit value ∈ choices) :
    ∃ depth, WritesDepth value depth := by
  have hvalue : value ∈ choices.filterMap Choice.limit? := List.mem_filterMap.2 ⟨_, hmem, rfl⟩
  have hlimit := h.limit
  generalize choices.filterMap Choice.limit? = values at hvalue hlimit
  generalize a.nestingLimit.toList = depths at hlimit
  induction hlimit with
  | nil => contradiction
  | @cons _ depth _ _ hdepth _ ih =>
    rcases List.mem_cons.1 hvalue with rfl | hvalue
    · exact ⟨depth, hdepth⟩
    · exact ih hvalue

theorem addAll_spellings (a : Arguments) (spellings : List Spelling) (rest : List String)
    (hvalue : ∀ value, .limit value ∈ spellings.flatMap Spelling.choices →
      value.toList.head? ≠ some '-') :
    a.addAll (spellings.flatMap Spelling.words ++ rest) =
      (spellings.flatMap Spelling.choices).foldlM choose a >>= fun b => b.addAll rest := by
  induction spellings generalizing a with
  | nil => rfl
  | cons spelling spellings ih =>
    simp only [List.flatMap_cons, List.mem_append, or_imp, forall_and] at hvalue
    rw [List.flatMap_cons, List.append_assoc, addAll_words a spelling _ hvalue.1,
      List.flatMap_cons, List.foldlM_append, bind_assoc]
    exact congrArg _ (funext fun b => ih b hvalue.2)

/-- Options that select `a` are read as `a`, and then come the other arguments. -/
theorem ofList_append_of_selects {spellings : List Spelling}
    (h : Selects (spellings.flatMap Spelling.choices) a) (rest : List String) :
    ofList (spellings.flatMap Spelling.words ++ rest) = a.addAll rest := by
  have hvalue (value : String) (hmem : .limit value ∈ spellings.flatMap Spelling.choices) :
      value.toList.head? ≠ some '-' := by
    rcases writesDepth_of_selects h hmem with ⟨depth, hdepth⟩
    exact head_of_writesDepth hdepth
  rw [ofList, addAll_spellings _ _ _ hvalue, foldlM_choose_of_selects h]
  rfl

theorem ofList_of_selects {spellings : List Spelling}
    (h : Selects (spellings.flatMap Spelling.choices) a) :
    ofList (spellings.flatMap Spelling.words) = .ok a := by
  rw [← List.append_nil (spellings.flatMap _), ofList_append_of_selects h]
  rfl

/-- After two dashes all arguments are patterns. -/
theorem ofList_dashes_of_selects {spellings : List Spelling}
    (h : Selects (spellings.flatMap Spelling.choices) a) (patterns : List String) :
    ofList (spellings.flatMap Spelling.words ++ "--" :: patterns) = .ok { a with patterns } := by
  rw [ofList_append_of_selects h, addAll_dashes, addPatterns, h.patterns, List.nil_append]

/-- Each combination of options can be given. -/
theorem exists_selects (h : a.patterns = []) :
    ∃ spellings : List Spelling, Selects (spellings.flatMap Spelling.choices) a := by
  let flags := [Flag.unicode, .literal, .quiet].filter a.has
  let values := a.nestingLimit.toList.map fun depth => depth.toNat.repr
  refine ⟨flags.map .long ++ values.map .limit, ?_⟩
  have hchoices : (flags.map Spelling.long ++ values.map Spelling.limit).flatMap Spelling.choices =
      flags.map Choice.flag ++ values.map Choice.limit := by
    rw [List.flatMap_append, List.flatMap_map, List.flatMap_map, List.map_eq_flatMap,
      List.map_eq_flatMap]
    rfl
  have hflags : (flags.map Choice.flag).Nodup := by
    have hall : [Flag.unicode, .literal, .quiet].Nodup := by decide
    exact List.Pairwise.map Choice.flag (fun _ _ hne heq => hne (Choice.flag.inj heq))
      (hall.filter a.has)
  have hvalues : (values.map Choice.limit).Nodup ∧
      List.Forall₂ WritesDepth values a.nestingLimit.toList := by
    unfold values
    cases a.nestingLimit with
    | none => exact ⟨.nil, .nil⟩
    | some depth => exact ⟨List.pairwise_singleton _ _, .cons (writesDepth_repr depth) .nil⟩
  rw [hchoices]
  refine ⟨List.nodup_append.2 ⟨hflags, hvalues.1, ?_⟩, fun flag => ?_, ?_, h⟩
  · rintro _ hflag _ hvalue rfl
    rcases List.mem_map.1 hflag with ⟨flag, -, rfl⟩
    rcases List.mem_map.1 hvalue with ⟨value, -, heq⟩
    contradiction
  · have hhas : flag ∈ flags ↔ a.has flag = true := by
      rw [List.mem_filter, and_iff_right_iff_imp]
      cases flag <;> simp [has]
    simp [hhas]
  · have hnone : (flags.map Choice.flag).filterMap Choice.limit? = [] := by
      rw [List.filterMap_map]
      exact List.filterMap_eq_nil_iff.2 fun _ _ => rfl
    have hsome : (values.map Choice.limit).filterMap Choice.limit? = values := by
      rw [List.filterMap_map]
      exact List.filterMap_some
    rw [List.filterMap_append, hnone, hsome]
    exact hvalues.2

end Arguments

end EcmaPattern.CommandLine
