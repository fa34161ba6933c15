import EcmaPattern.Grammar.CharacterEscape

namespace EcmaPattern.Reader

open CodeUnit

/-! # Runs of readers

A reader is a function, which does not show where it goes before it is done. `Parts mode r` says how
`r` is put together, and `Parts.trace` which places its run passes through, those included that it
only looks at. A relation between places that one step keeps holds along a whole run.
-/

variable {mode : Mode} {α β : Type}

/-! ## Places -/

/-- The places before and after what `r` takes. -/
def places (r : Reader α) (text : List CodeUnit) : List (List CodeUnit) :=
  text :: ((r.run text).map Prod.snd).toList

/-- The places in a word, up to a character that differs. -/
def wordPlaces : List Char → List CodeUnit → List (List CodeUnit)
  | [], text => [text]
  | c :: w, text =>
    text :: match (word [c]).run text with
      | some (_, rest) => wordPlaces w rest
      | none => []

/-- The places in a run of ASCII characters. -/
def asciiPlaces (p : Char → Bool) : List CodeUnit → List (List CodeUnit)
  | [] => [[]]
  | u :: rest =>
    (u :: rest) :: match u.ascii? with
      | some c => if p c then asciiPlaces p rest else []
      | none => []

/-- The places in digits after a brace. -/
def bracedPlaces (text : List CodeUnit) : List (List CodeUnit) :=
  wordPlaces ['u', '{'] text ++ match (word ['u', '{']).run text with
    | some (_, rest) => asciiPlaces Numeral.isHexDigit rest
    | none => []

/-- The places in repetitions of `r`, where each passes through the places of `trace`. -/
def manyPlaces (r : Reader α) (trace : List CodeUnit → List (List CodeUnit)) (bound : List CodeUnit)
    (text : List CodeUnit) : List (List CodeUnit) :=
  match bound with
  | [] => [text]
  | _ :: bound =>
    text :: trace text ++ match r.run text with
      | some (_, rest) => manyPlaces r trace bound rest
      | none => []

/-! ## Parts -/

/-- How a reader is put together. Characters are read in the mode `mode` only. -/
inductive Parts (mode : Mode) : {α : Type} → Reader α → Type 1
  | pure {α : Type} (a : α) : Parts mode (pure a : Reader α)
  | failure {α : Type} : Parts mode (failure : Reader α)
  | bind {α β : Type} {r : Reader α} {f : α → Reader β} (first : Parts mode r)
      (next : ∀ a, Parts mode (f a)) : Parts mode (r >>= f)
  | orElse {α : Type} {r s : Reader α} (first : Parts mode r) (second : Parts mode s) :
      Parts mode (r <|> s)
  | ite {α : Type} {r s : Reader α} (c : Prop) [Decidable c] (first : Parts mode r)
      (second : Parts mode s) : Parts mode (if c then r else s)
  | isAt (w : List Char) : Parts mode (isAt w)
  | ahead {α : Type} {r : Reader α} (parts : Parts mode r) : Parts mode (ahead r)
  | notAhead {α : Type} {r : Reader α} (parts : Parts mode r) : Parts mode (notAhead r)
  | word (w : List Char) : Parts mode (word w)
  | ascii (p : Char → Bool) : Parts mode (ascii p)
  | codePoint : Parts mode (codePoint mode)
  | asciiRun (p : Char → Bool) : Parts mode (asciiRun p)
  /-- Digits that are counted. They are one part with the brace before them, since no other digits
  are, and only Unicode mode reads them. -/
  | bracedDigits (h : mode = .unicode) : Parts mode Grammar.bracedDigits
  | many {α : Type} {r : Reader α} (parts : Parts mode r) : Parts mode (many r)

namespace Parts

variable {r : Reader α} {s : Reader β}

/-- The places that a run of the reader passes through. -/
def trace : {α : Type} → {r : Reader α} → Parts mode r → List CodeUnit → List (List CodeUnit)
  | _, _, .pure _, text | _, _, .failure, text | _, _, .isAt _, text => [text]
  | _, _, .bind (r := r) first next, text =>
    first.trace text ++ match r.run text with
      | some (a, rest) => (next a).trace rest
      | none => []
  | _, _, .orElse (r := r) first second, text =>
    first.trace text ++ if (r.run text).isSome then [] else second.trace text
  | _, _, @ite _ _ _ _ c _ first second, text =>
    if c then first.trace text else second.trace text
  | _, _, .ahead parts, text | _, _, .notAhead parts, text => parts.trace text ++ [text]
  | _, _, .word w, text => wordPlaces w text
  | _, _, .ascii p, text => places (Reader.ascii p) text
  | _, _, .codePoint, text => places (Reader.codePoint mode) text
  | _, _, .asciiRun p, text => asciiPlaces p text
  | _, _, .bracedDigits _, text => bracedPlaces text
  | _, _, .many (r := r) parts, text => manyPlaces r parts.trace text text

/-! ### Derived readers -/

def map (parts : Parts mode r) (f : α → β) : Parts mode (f <$> r) :=
  .bind parts fun a => .pure (f a)

def seqRight (first : Parts mode r) (second : Parts mode s) : Parts mode (r *> s) :=
  .bind first fun _ => second

def optional (parts : Parts mode r) : Parts mode (optional r) :=
  .orElse (parts.map some) (.pure none)

def guard (c : Prop) [Decidable c] : Parts mode (guard c : Reader Unit) :=
  .ite c (.pure ()) .failure

def lift : (o : Option α) → Parts mode (liftM o : Reader α)
  | none => .failure
  | some a => .pure a

def wordAs (w : List Char) (a : α) : Parts mode (wordAs w a) := .seqRight (.word w) (.pure a)

def anyWord : (ws : List (List Char)) → Parts mode (anyWord ws)
  | [] => .failure
  | w :: ws => .orElse (.wordAs w w) (anyWord ws)

def codePointIf (p : Nat → Bool) : Parts mode (codePointIf mode p) :=
  .bind .codePoint fun n => .bind (.guard _) fun _ => .pure n

def exactly (parts : Parts mode r) : (n : Nat) → Parts mode (exactly n r)
  | 0 => .pure []
  | n + 1 => .bind parts fun a => .bind (exactly parts n) fun as => .pure (a :: as)

def upTo (parts : Parts mode r) : (n : Nat) → Parts mode (upTo n r)
  | 0 => .pure []
  | n + 1 =>
    .orElse (.bind parts fun a => .bind (upTo parts n) fun as => .pure (a :: as)) (.pure [])

def firstOfNil : Parts mode (firstOf ([] : List (Reader α))) := .failure

def firstOfCons {readers : List (Reader α)} (first : Parts mode r)
    (rest : Parts mode (firstOf readers)) : Parts mode (firstOf (r :: readers)) :=
  .orElse first rest

end Parts

/-! ## What is left -/

section

variable {r : Reader α} {a : α} {text rest : List CodeUnit}

theorem mem_places_of_run (h : r.run text = some (a, rest)) : rest ∈ places r text := by
  simp [places, h]

theorem mem_wordPlaces_of_run {w : List Char} (h : (word w).run text = some ((), rest)) :
    rest ∈ wordPlaces w text := by
  rw [run_word_eq_some_iff] at h
  subst h
  induction w with
  | nil => exact List.mem_singleton.2 rfl
  | cons c w ih =>
    have hrun : (word [c]).run (encode (c :: w) ++ rest) = some ((), encode w ++ rest) := by
      rw [run_word_eq_some_iff, encode_cons, encode_cons, encode_nil, List.append_nil,
        List.append_assoc]
    rw [wordPlaces, hrun]
    exact List.mem_cons_of_mem _ ih

theorem mem_asciiPlaces (p : Char → Bool) (text : List CodeUnit) :
    (asciiSpan p text).2 ∈ asciiPlaces p text := by
  fun_induction asciiSpan p text with
  | case1 => exact List.mem_singleton.2 rfl
  | case2 u rest c hc hp cs after hspan ih =>
    rw [hspan] at ih
    rw [asciiPlaces, hc]
    simp only [hp, if_true]
    exact List.mem_cons_of_mem _ ih
  | case3 => exact List.mem_cons_self
  | case4 => exact List.mem_cons_self

/-- What is found after a brace, if there is one. -/
theorem run_bracedDigits (text : List CodeUnit) :
    Grammar.bracedDigits.run text = ((word ['u', '{']).run text).map fun (_, inside) =>
      let digits := asciiSpan Numeral.isHexDigit inside
      ((digits.1, Numeral.count digits.1), digits.2) := by
  rw [Grammar.bracedDigits, seqRight_eq_bind, StateT.run_bind]
  cases (word ['u', '{']).run text <;> rfl

theorem mem_bracedPlaces_of_run {found : List Char × Int32}
    (h : Grammar.bracedDigits.run text = some (found, rest)) : rest ∈ bracedPlaces text := by
  rw [run_bracedDigits] at h
  rcases Option.map_eq_some_iff.1 h with ⟨⟨_, inside⟩, hopen, heq⟩
  obtain rfl : (asciiSpan Numeral.isHexDigit inside).2 = rest := (Prod.mk.inj heq).2
  rw [bracedPlaces, hopen]
  exact List.mem_append_right _ (mem_asciiPlaces _ inside)

theorem mem_manyPlaces {trace : List CodeUnit → List (List CodeUnit)} (bound text : List CodeUnit) :
    (manyWithin r bound text).2 ∈ manyPlaces r trace bound text := by
  induction bound generalizing text with
  | nil => exact List.mem_singleton.2 rfl
  | cons u bound ih =>
    rw [manyWithin, manyPlaces]
    cases hrun : r.run text with
    | none => exact List.mem_append_left _ List.mem_cons_self
    | some found => exact List.mem_append_right _ (ih found.2)

end

/-- The run of a reader that succeeds ends at the last place. -/
theorem Parts.mem_trace_of_run {r : Reader α} (parts : Parts mode r) {a : α}
    {text rest : List CodeUnit} (h : r.run text = some (a, rest)) : rest ∈ parts.trace text := by
  induction parts generalizing text rest with
  | pure b =>
    obtain ⟨-, rfl⟩ : b = a ∧ text = rest := by simpa using h
    exact List.mem_singleton.2 rfl
  | failure => contradiction
  | bind first next ih ih' =>
    simp only [StateT.run_bind, Option.bind_eq_bind, Option.bind_eq_some_iff, Prod.exists] at h
    rcases h with ⟨b, rest', hrun, hrun'⟩
    rw [trace, hrun]
    exact List.mem_append_right _ (ih' b hrun')
  | @orElse _ r s first second ih ih' =>
    replace h : (r.run text <|> s.run text) = some (a, rest) := h
    rw [trace]
    cases hrun : r.run text with
    | none =>
      rw [hrun] at h
      exact List.mem_append_right _ (ih' h)
    | some found =>
      rw [hrun] at h
      obtain rfl := Option.some.inj h
      exact List.mem_append_left _ (ih hrun)
  | ite c first second ih ih' =>
    rw [trace]
    split at h
    next hc =>
      rw [if_pos hc]
      exact ih h
    next hc =>
      rw [if_neg hc]
      exact ih' h
  | isAt w =>
    obtain rfl : text = rest := (Prod.mk.inj (Option.some.inj h)).2
    exact List.mem_singleton.2 rfl
  | @ahead _ r parts ih =>
    replace h : (r.run text).map (fun _ => ((), text)) = some (a, rest) := h
    rcases Option.map_eq_some_iff.1 h with ⟨_, -, heq⟩
    obtain rfl : text = rest := (Prod.mk.inj heq).2
    exact List.mem_append_right _ (List.mem_singleton.2 rfl)
  | notAhead parts ih =>
    simp only [Reader.notAhead, StateT.run] at h
    split at h
    · obtain rfl : text = rest := (Prod.mk.inj (Option.some.inj h)).2
      exact List.mem_append_right _ (List.mem_singleton.2 rfl)
    · contradiction
  | word w => exact mem_wordPlaces_of_run h
  | ascii p => exact mem_places_of_run h
  | codePoint => exact mem_places_of_run h
  | asciiRun p =>
    have hspan := mem_asciiPlaces p text
    simp only [Reader.asciiRun, StateT.run] at h
    split at h
    next => contradiction
    next c cs after heq =>
      obtain rfl : after = rest := (Prod.mk.inj (Option.some.inj h)).2
      rwa [heq] at hspan
  | bracedDigits _ => exact mem_bracedPlaces_of_run h
  | @many _ r parts ih =>
    have hafter : (manyWithin r text text).2 = rest := congrArg Prod.snd (Option.some.inj h)
    rw [← hafter]
    exact mem_manyPlaces text text

/-! ## Relations along a run -/

/-- A relation between places that holds from each place of a run to those after it, because a
single character keeps it. -/
structure HoldsAlong (mode : Mode) (S : List CodeUnit → List CodeUnit → Prop) : Prop where
  refl (text : List CodeUnit) : S text text
  trans {first second third : List CodeUnit} : S first second → S second third → S first third
  /-- A character of the text as it was written. -/
  character (c : Char) (rest : List CodeUnit) : S (ofChar c ++ rest) rest
  /-- A character as the mode reads it. -/
  codePoint {n : Nat} {text rest : List CodeUnit} :
    (codePoint mode).run text = some (n, rest) → S text rest

namespace HoldsAlong

variable {S : List CodeUnit → List CodeUnit → Prop} {text rest place : List CodeUnit}

theorem of_mem_wordPlaces (h : HoldsAlong mode S) {w : List Char}
    (hplace : place ∈ wordPlaces w text) : S text place := by
  induction w generalizing text with
  | nil =>
    obtain rfl := List.mem_singleton.1 hplace
    exact h.refl place
  | cons c w ih =>
    rw [wordPlaces] at hplace
    cases hrun : (word [c]).run text with
    | none =>
      rw [hrun] at hplace
      obtain rfl := List.mem_singleton.1 hplace
      exact h.refl place
    | some found =>
      rw [hrun] at hplace
      rcases List.mem_cons.1 hplace with rfl | hmem
      · exact h.refl place
      · obtain rfl : text = ofChar c ++ found.2 := by
          rw [run_word_eq_some_iff.1 hrun, encode_cons, encode_nil, List.append_nil]
        exact h.trans (h.character c found.2) (ih hmem)

theorem of_mem_asciiPlaces (h : HoldsAlong mode S) {p : Char → Bool}
    (hplace : place ∈ asciiPlaces p text) : S text place := by
  induction text with
  | nil =>
    obtain rfl := List.mem_singleton.1 hplace
    exact h.refl []
  | cons u text ih =>
    rw [asciiPlaces] at hplace
    rcases List.mem_cons.1 hplace with rfl | hmem
    · exact h.refl _
    · split at hmem
      next c hc =>
        split at hmem
        · have hstep := h.character c text
          rw [ofChar_of_ascii? hc] at hstep
          exact h.trans hstep (ih hmem)
        · contradiction
      next => contradiction

theorem of_mem_bracedPlaces (h : HoldsAlong mode S) (hplace : place ∈ bracedPlaces text) :
    S text place := by
  rcases List.mem_append.1 hplace with hmem | hmem
  · exact h.of_mem_wordPlaces hmem
  · split at hmem
    next rest hopen =>
      exact h.trans (h.of_mem_wordPlaces (mem_wordPlaces_of_run hopen)) (h.of_mem_asciiPlaces hmem)
    next => contradiction

theorem of_mem_places (h : HoldsAlong mode S) {r : Reader α}
    (hr : ∀ a rest, r.run text = some (a, rest) → S text rest)
    (hplace : place ∈ places r text) : S text place := by
  rcases List.mem_cons.1 hplace with rfl | hmem
  · exact h.refl place
  · rcases Option.map_eq_some_iff.1 (Option.mem_toList.1 hmem) with ⟨⟨a, rest⟩, hrun, rfl⟩
    exact hr a rest hrun

theorem of_mem_manyPlaces (h : HoldsAlong mode S) {r : Reader α}
    {trace : List CodeUnit → List (List CodeUnit)}
    (htrace : ∀ text, ∀ place ∈ trace text, S text place)
    (hr : ∀ text a rest, r.run text = some (a, rest) → S text rest) {bound : List CodeUnit}
    (hplace : place ∈ manyPlaces r trace bound text) : S text place := by
  induction bound generalizing text with
  | nil =>
    obtain rfl := List.mem_singleton.1 hplace
    exact h.refl place
  | cons u bound ih =>
    rw [manyPlaces, List.cons_append] at hplace
    rcases List.mem_cons.1 hplace with rfl | hmem
    · exact h.refl place
    · rcases List.mem_append.1 hmem with hmem | hmem
      · exact htrace text place hmem
      · split at hmem
        next a rest hrun => exact h.trans (hr _ _ _ hrun) (ih hmem)
        next => contradiction

theorem ascii (h : HoldsAlong mode S) {p : Char → Bool} {c : Char}
    (hrun : (ascii p).run text = some (c, rest)) : S text rest := by
  cases text with
  | nil => contradiction
  | cons u text =>
    simp only [Reader.ascii, StateT.run] at hrun
    split at hrun
    next d hd =>
      split at hrun
      · obtain rfl : text = rest := (Prod.mk.inj (Option.some.inj hrun)).2
        have hstep := h.character d text
        rwa [ofChar_of_ascii? hd] at hstep
      · contradiction
    next => contradiction

/-- From where a reader begins the relation holds to every place that it passes through. -/
theorem of_mem_trace (h : HoldsAlong mode S) {r : Reader α} (parts : Parts mode r)
    (hplace : place ∈ parts.trace text) : S text place := by
  have hself {text place : List CodeUnit} (hplace : place ∈ [text]) : S text place := by
    obtain rfl := List.mem_singleton.1 hplace
    exact h.refl place
  induction parts generalizing text place with
  | pure a => exact hself hplace
  | failure => exact hself hplace
  | bind first next ih ih' =>
    rw [Parts.trace] at hplace
    rcases List.mem_append.1 hplace with hmem | hmem
    · exact ih hmem
    · split at hmem
      next a rest hrun => exact h.trans (ih (first.mem_trace_of_run hrun)) (ih' a hmem)
      next => contradiction
  | orElse first second ih ih' =>
    rcases List.mem_append.1 hplace with hmem | hmem
    · exact ih hmem
    · split at hmem
      · contradiction
      · exact ih' hmem
  | ite c first second ih ih' =>
    rw [Parts.trace] at hplace
    split at hplace
    · exact ih hplace
    · exact ih' hplace
  | isAt w => exact hself hplace
  | ahead parts ih =>
    rcases List.mem_append.1 hplace with hmem | hmem
    · exact ih hmem
    · exact hself hmem
  | notAhead parts ih =>
    rcases List.mem_append.1 hplace with hmem | hmem
    · exact ih hmem
    · exact hself hmem
  | word w => exact h.of_mem_wordPlaces hplace
  | ascii p => exact h.of_mem_places (fun _ _ => h.ascii) hplace
  | codePoint => exact h.of_mem_places (fun _ _ => h.codePoint) hplace
  | asciiRun p => exact h.of_mem_asciiPlaces hplace
  | bracedDigits _ => exact h.of_mem_bracedPlaces hplace
  | many parts ih =>
    exact h.of_mem_manyPlaces (fun _ _ => ih) (fun _ _ _ hrun => ih (parts.mem_trace_of_run hrun))
      hplace

end HoldsAlong

end EcmaPattern.Reader
