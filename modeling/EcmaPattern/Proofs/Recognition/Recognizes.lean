import EcmaPattern.Proofs.Evidence
import EcmaPattern.Proofs.Text.Reading

namespace EcmaPattern.Recognizer

open CodeUnit Form Reader

/-! # What recognizers recognize

A recognizer differs from a reader in two ways: what it finds joins the evidence of the state, and
where it fails it may leave a trace. `Recognizes` says what a match means, whatever the state
before it was, and when there is one; `ConfinedTo` says where a failure can leave a trace at all. An
alternative that may leave a trace is confined to texts on which no later alternative matches, so
no trace outlives a match.
-/

variable {mode : Mode} {α β γ : Type}

/-! ## What readers leave -/

theorem ofReader_map_of_some {r : Reader α} {f : α → Outcome} {s : State} {a : α}
    {rest : List CodeUnit} (h : r.run s.rest = some (a, rest)) :
    ofReader (f <$> r) s = (f a, { s with rest }) := by
  simp only [Recognizer.ofReader, Recognizer.reading, StateT.run_map, h]
  rfl

theorem ofReader_map_of_none {r : Reader α} {f : α → Outcome} {s : State}
    (h : r.run s.rest = none) : ofReader (f <$> r) s = (.noMatch, s) := by
  simp only [Recognizer.ofReader, Recognizer.reading, StateT.run_map, h]
  rfl

theorem plain_eq_ofReader_map (r : Reader α) : plain r = ofReader ((fun _ => .matched) <$> r) := by
  rw [plain, seqRight_eq_bind, map_eq_pure_bind]

theorem plain_of_some {r : Reader α} {s : State} {a : α} {rest : List CodeUnit}
    (h : r.run s.rest = some (a, rest)) : plain r s = (.matched, { s with rest }) := by
  rw [plain_eq_ofReader_map]
  exact ofReader_map_of_some h

theorem plain_of_none {r : Reader α} {s : State} (h : r.run s.rest = none) :
    plain r s = (.noMatch, s) := by
  rw [plain_eq_ofReader_map]
  exact ofReader_map_of_none h

theorem isMatch_plain_iff {r : Reader α} {s : State} :
    (plain r s).1.isMatch = true ↔ ∃ a rest, r.run s.rest = some (a, rest) := by
  constructor
  · intro h
    cases hrun : r.run s.rest with
    | some found => exact ⟨found.1, found.2, rfl⟩
    | none =>
      rw [plain_of_none hrun] at h
      contradiction
  · intro h
    rcases h with ⟨a, rest, hrun⟩
    rw [plain_of_some hrun]
    rfl

/-! ## One after the other -/

theorem followedBy_of_match {p q : Recognizer} {s : State} (h : (p s).1.isMatch = true) :
    p.followedBy q s = q (p s).2 := by
  simp [followedBy, h]

theorem followedBy_of_noMatch {p q : Recognizer} {s : State} (h : (p s).1.isMatch = false) :
    p.followedBy q s = p s := by
  simp [followedBy, h]

theorem isMatch_of_followedBy {p q : Recognizer} {s : State}
    (h : (p.followedBy q s).1.isMatch = true) : (p s).1.isMatch = true := by
  cases hp : (p s).1.isMatch with
  | true => rfl
  | false => rwa [followedBy_of_noMatch hp, hp] at h

theorem anyOf_cons_followedBy (p q : Recognizer) (ps : List Recognizer) (s : State) :
    (anyOf (p :: ps)).followedBy q s =
      if (p s).1.isMatch then p.followedBy q s else (anyOf ps).followedBy q (p s).2 := by
  cases hp : (p s).1.isMatch with
  | true => simp [followedBy, anyOf_cons_of_match hp]
  | false => simp [followedBy, anyOf_cons_of_noMatch hp]

/-- How the values of `α` stand for what a recognizer finds. -/
structure Meaning (α : Type) where
  /-- What the value says about groups and references. -/
  brings : α → Evidence
  /-- Whether the value is what the outcome shows. -/
  shows : Outcome → α → Prop

/-- The value is the character found, if it is a single one. Nothing is said. -/
def Meaning.character : Meaning (Option Nat) where
  brings _ := {}
  shows o v := o.codePoint? = v

/-- The value is what is said, whatever is found. -/
def Meaning.evidence : Meaning Evidence where
  brings e := e
  shows _ _ := True

variable {m : Meaning α}

/-- In the state `s` the result `r` is a match exactly where `Q` holds of a value and the text after
it, and the value brings no name that is taken. -/
structure Found (mode : Mode) (m : Meaning α) (s : State) (r : Outcome × State)
    (Q : α → Text → Prop) : Prop where
  /-- A match adds what it says to the state and does nothing else. -/
  sound : r.1.isMatch = true → ∃ a rest, m.shows r.1 a ∧ r.2 = s.read rest (m.brings a) ∧
    Q a (decode mode rest) ∧ Fresh s.names (m.brings a).names
  /-- All that the relation describes is matched. -/
  complete : ∀ a q, Q a q → Fresh s.names (m.brings a).names → r.1.isMatch = true ∧
    m.shows r.1 a ∧ ∃ rest, r.2 = s.read rest (m.brings a) ∧ decode mode rest = q

/-- The recognizer `p` matches in each state exactly what `R` says about the text. -/
def Recognizes (mode : Mode) (m : Meaning α) (p : Recognizer) (R : Form α) : Prop :=
  ∀ s, Found mode m s (p s) fun a q => R a (decode mode s.rest) q

/-- The recognizer `p` does nothing to a text outside `H`, and goes back where it fails. -/
structure ConfinedTo (mode : Mode) (H : Text → Prop) (p : Recognizer) : Prop where
  outside : ∀ s, ¬ H (decode mode s.rest) → p s = (.noMatch, s)
  goesBack : ∀ s, (p s).1.isMatch = false → (p s).2.rest = s.rest

/-! ## Results -/

namespace Found

variable {s : State} {r r' : Outcome × State} {Q Q' : α → Text → Prop}

theorem congr (h : Found mode m s r Q) (hQ : ∀ a q, Q' a q ↔ Q a q) : Found mode m s r Q' := by
  obtain rfl : Q' = Q := by
    funext a q
    exact propext (hQ a q)
  exact h

theorem matched {o : Outcome} {a : α} (rest : List CodeUnit) (ho : o.isMatch = true)
    (hshows : m.shows o a) (hfresh : Fresh s.names (m.brings a).names) :
    Found mode m s (o, s.read rest (m.brings a)) fun b q => b = a ∧ q = decode mode rest where
  sound _ := ⟨a, rest, hshows, rfl, ⟨rfl, rfl⟩, hfresh⟩
  complete b q := by
    intro h _
    rcases h with ⟨rfl, rfl⟩
    exact ⟨ho, hshows, rest, rfl, rfl⟩

theorem here {o : Outcome} {a : α} (ho : o.isMatch = true) (hshows : m.shows o a)
    (hbrings : m.brings a = {}) :
    Found mode m s (o, s) fun b q => b = a ∧ q = decode mode s.rest := by
  have h : Found mode m s (o, s.read s.rest (m.brings a)) _ :=
    matched s.rest ho hshows (by simp [hbrings])
  rwa [hbrings, State.read_rest_empty] at h

theorem refused (hr : r.1.isMatch = false)
    (hQ : ∀ a q, Q a q → ¬ Fresh s.names (m.brings a).names) : Found mode m s r Q where
  sound hs := by
    rw [hr] at hs
    contradiction
  complete a q h hfresh := absurd hfresh (hQ a q h)

theorem noMatch (hr : r.1.isMatch = false) (hQ : ∀ a q, ¬ Q a q) : Found mode m s r Q :=
  refused hr fun a q h => absurd h (hQ a q)

/-- Only where a result is a match does it matter. -/
theorem of_match (h : Found mode m s r Q) (hmatch : r.1.isMatch = true → r' = r)
    (hnone : r.1.isMatch = false → r'.1.isMatch = false) : Found mode m s r' Q where
  sound hs := by
    cases hr : r.1.isMatch with
    | true =>
      rw [hmatch hr]
      exact h.sound hr
    | false =>
      rw [hnone hr] at hs
      contradiction
  complete a q hQ hfresh := by
    have hcomplete := h.complete a q hQ hfresh
    rwa [hmatch hcomplete.1]

/-- Moving on says nothing. -/
theorem moved {rest : List CodeUnit} (h : Found mode m { s with rest } r Q) :
    Found mode m s r Q where
  sound hs := by
    rcases h.sound hs with ⟨a, rest', hshows, hstate, hQ, hfresh⟩
    refine ⟨a, rest', hshows, ?_, hQ, hfresh⟩
    rw [hstate, State.moved_eq_read, State.read_read, Evidence.empty_append]
  complete a q hQ hfresh := by
    rcases h.complete a q hQ hfresh with ⟨hmatch, hshows, rest', hstate, hrest'⟩
    refine ⟨hmatch, hshows, rest', ?_, hrest'⟩
    rw [hstate, State.moved_eq_read, State.read_read, Evidence.empty_append]

/-- The result `r'` goes on where `r` is a match. Together they mean what `f` makes of both. -/
theorem bind {m₁ : Meaning β} {m₂ : Meaning γ} {Q₁ : β → Text → Prop}
    {Q₂ : β → Text → γ → Text → Prop} {f : β → γ → α} (h₁ : Found mode m₁ s r Q₁)
    (h₂ : ∀ b rest, r.1.isMatch = true → m₁.shows r.1 b → r.2 = s.read rest (m₁.brings b) →
      Q₁ b (decode mode rest) → Found mode m₂ r.2 r' (Q₂ b (decode mode rest)))
    (hnone : r.1.isMatch = false → r'.1.isMatch = false)
    (hbrings : ∀ b c, m.brings (f b c) = m₁.brings b ++ m₂.brings c)
    (hshows : ∀ o b c, m₂.shows o c → m.shows o (f b c)) :
    Found mode m s r' fun a q => ∃ b c t, a = f b c ∧ Q₁ b t ∧ Q₂ b t c q where
  sound hs := by
    cases hmatch : r.1.isMatch with
    | true =>
      rcases h₁.sound hmatch with ⟨b, rest, hshow, hstate, hQ₁, hfresh⟩
      rcases (h₂ b rest hmatch hshow hstate hQ₁).sound hs with
        ⟨c, rest', hshow', hstate', hQ₂, hfresh'⟩
      rw [hstate] at hstate' hfresh'
      refine ⟨f b c, rest', hshows _ b c hshow', ?_, ⟨b, c, _, rfl, hQ₁, hQ₂⟩, ?_⟩
      · rw [hstate', State.read_read, hbrings]
      · rw [hbrings]
        exact fresh_append.2 ⟨hfresh, hfresh'⟩
    | false =>
      rw [hnone hmatch] at hs
      contradiction
  complete a q := by
    intro h hfresh
    rcases h with ⟨b, c, t, rfl, hQ₁, hQ₂⟩
    rw [hbrings] at hfresh
    -- names that may join together may join one after the other
    rcases fresh_append.1 hfresh with ⟨hfresh₁, hfresh₂⟩
    rcases h₁.complete b t hQ₁ hfresh₁ with ⟨hmatch, hshow, rest, hstate, rfl⟩
    rcases (h₂ b rest hmatch hshow hstate hQ₁).complete c q hQ₂ (by rw [hstate]; exact hfresh₂) with
      ⟨hmatch', hshow', rest', hstate', hrest'⟩
    refine ⟨hmatch', hshows _ b c hshow', rest', ?_, hrest'⟩
    rw [hstate', hstate, State.read_read, hbrings]

/-- After a character only what the rest says counts. -/
theorem bind_character {Q : Option Nat → Text → Prop}
    {T : Option Nat → Text → Evidence → Text → Prop} (h₁ : Found mode .character s r Q)
    (h₂ : ∀ v rest, r.1.isMatch = true → r.1.codePoint? = v → r.2 = s.read rest {} →
      Q v (decode mode rest) → Found mode .evidence r.2 r' (T v (decode mode rest)))
    (hnone : r.1.isMatch = false → r'.1.isMatch = false) :
    Found mode .evidence s r' fun e q => ∃ v t, Q v t ∧ T v t e q := by
  refine (h₁.bind (f := fun _ e => e) h₂ hnone (fun _ e => (Evidence.empty_append e).symm)
    fun _ _ _ h => h).congr fun e q => ?_
  constructor
  · intro h
    rcases h with ⟨v, t, h, h'⟩
    exact ⟨v, e, t, rfl, h, h'⟩
  · intro h
    rcases h with ⟨v, _, t, rfl, h, h'⟩
    exact ⟨v, t, h, h'⟩

/-- After a text the rest is read as it stands, and what both say joins. -/
theorem bind_evidence {Q : Evidence → Text → Prop} {T : Evidence → Text → Evidence → Text → Prop}
    (h₁ : Found mode .evidence s r Q)
    (h₂ : ∀ e, r.1.isMatch = true → Q e (decode mode r.2.rest) →
      Found mode .evidence r.2 r' (T e (decode mode r.2.rest)))
    (hnone : r.1.isMatch = false → r'.1.isMatch = false) :
    Found mode .evidence s r' fun e q => ∃ e₁ e₂ t, e = e₁ ++ e₂ ∧ Q e₁ t ∧ T e₁ t e₂ q := by
  have hrest {e : Evidence} {rest : List CodeUnit} (hmatch : r.1.isMatch = true)
      (hstate : r.2 = s.read rest e) (hQ : Q e (decode mode rest)) :
      Found mode .evidence r.2 r' (T e (decode mode rest)) := by
    obtain rfl : r.2.rest = rest := by
      rw [hstate]
      rfl
    exact h₂ e hmatch hQ
  exact h₁.bind (fun e rest hmatch _ hstate hQ => hrest hmatch hstate hQ) hnone (fun _ _ => rfl)
    fun _ _ _ _ => trivial

end Found

/-- A match lies where the recognizer is confined to. -/
theorem ConfinedTo.of_match {H : Text → Prop} {p : Recognizer} {s : State}
    (h : ConfinedTo mode H p) (hs : (p s).1.isMatch = true) : H (decode mode s.rest) :=
  Classical.byContradiction fun hout => by
    rw [h.outside s hout] at hs
    contradiction

namespace Recognizes

variable {p q : Recognizer} {R S : Form α}

theorem congr (h : Recognizes mode m p R) (hRS : ∀ a x y, S a x y ↔ R a x y) :
    Recognizes mode m p S :=
  fun s => (h s).congr fun a q => hRS a _ q

/-- A recognizer finds one character in a text, and so does its relation. -/
theorem unique_character {R : Form (Option Nat)} (h : Recognizes mode .character p R)
    {units : List CodeUnit} {u v : Option Nat} {x y : Text} (hu : R u (decode mode units) x)
    (hv : R v (decode mode units) y) : u = v ∧ x = y := by
  have hfresh (s : State) : Fresh s.names ({} : Evidence).names := by simp
  rcases (h (.start units)).complete u x hu (hfresh _) with ⟨-, rfl, rest, hstate, rfl⟩
  rcases (h (.start units)).complete v y hv (hfresh _) with ⟨-, rfl, rest', hstate', rfl⟩
  obtain rfl : rest = rest' := congrArg (fun s => s.rest) (hstate.symm.trans hstate')
  exact ⟨rfl, rfl⟩

theorem isMatch_eq_false {s : State} (h : Recognizes mode m p R)
    (hs : ¬ R.Applies (decode mode s.rest)) : (p s).1.isMatch = false := by
  cases hp : (p s).1.isMatch with
  | false => rfl
  | true =>
    rcases (h s).sound hp with ⟨a, rest, -, -, hR, -⟩
    exact absurd ⟨a, _, hR⟩ hs

/-- Recognizers of the same language match in the same states and leave the same state behind. -/
theorem eq_of_same (hp : Recognizes mode m p R) (hq : Recognizes mode m q R) (s : State) :
    (p s).1.isMatch = (q s).1.isMatch ∧ ((p s).1.isMatch = true → (p s).2 = (q s).2) := by
  have hsame {p q : Recognizer} (hp : Recognizes mode m p R) (hq : Recognizes mode m q R)
      (hmatch : (p s).1.isMatch = true) : (q s).1.isMatch = true ∧ (p s).2 = (q s).2 := by
    rcases (hp s).sound hmatch with ⟨a, rest, -, hstate, hR, hfresh⟩
    rcases (hq s).complete a _ hR hfresh with ⟨hmatch', -, rest', hstate', hrest⟩
    obtain rfl := decode_injective mode hrest
    exact ⟨hmatch', hstate.trans hstate'.symm⟩
  refine ⟨?_, fun hmatch => (hsame hp hq hmatch).2⟩
  rw [Bool.eq_iff_iff]
  exact ⟨fun h => (hsame hp hq h).1, fun h => (hsame hq hp h).1⟩

/-- A character says nothing. -/
theorem toEvidence {R : Form (Option Nat)} (h : Recognizes mode .character p R) :
    Recognizes mode .evidence p (R.as {}) := by
  intro s
  constructor
  · intro hs
    rcases (h s).sound hs with ⟨v, rest, -, hstate, hR, hfresh⟩
    exact ⟨{}, rest, trivial, hstate, ⟨v, rfl, hR⟩, hfresh⟩
  · intro e y h hfresh
    rcases h with ⟨v, rfl, hR⟩
    rcases (h s).complete v y hR hfresh with ⟨hmatch, -, hrest⟩
    exact ⟨hmatch, trivial, hrest⟩

/-! ## From readers -/

theorem reading {r : Reader β} {Q : Form β} {p : β → Recognizer} {R : β → Form α}
    (hr : Reads mode r Q) (hp : ∀ b, Recognizes mode m (p b) (R b)) :
    Recognizes mode m (reading r p) fun a x z => ∃ b y, Q b x y ∧ R b a y z := by
  intro s
  simp only [Recognizer.reading]
  cases hrun : r.run s.rest with
  | none =>
    apply Found.noMatch rfl
    intro a z h
    rcases h with ⟨b, y, hQ, -⟩
    exact hr.run_eq_none_iff.1 hrun ⟨b, y, hQ⟩
  | some found =>
    rcases found with ⟨b, rest⟩
    refine (hp b { s with rest }).moved.congr fun a z => ?_
    constructor
    · intro h
      rcases h with ⟨b', y, hQ, hR⟩
      rcases hr.unique hQ (hr.sound hrun) with ⟨rfl, rfl⟩
      exact hR
    · exact fun hR => ⟨b, _, hr.sound hrun, hR⟩

/-- What is read decides the outcome and the state. -/
theorem keeping {r : Reader β} {Q : Form β} (hr : Reads mode r Q) {o : β → Outcome}
    {f : β → State → State} {g : β → α} (ho : ∀ b x y, Q b x y → (o b).isMatch = true)
    (hshows : ∀ b, m.shows (o b) (g b)) (hnames : ∀ b, (m.brings (g b)).names = [])
    (hf : ∀ b (s : State) rest, f b { s with rest } = s.read rest (m.brings (g b))) :
    Recognizes mode m (Recognizer.reading r fun b s => (o b, f b s)) (Q.map g) := by
  intro s
  simp only [Recognizer.reading]
  cases hrun : r.run s.rest with
  | none =>
    apply Found.noMatch rfl
    intro e z h
    rcases h with ⟨b, -, hQ⟩
    exact hr.run_eq_none_iff.1 hrun ⟨b, z, hQ⟩
  | some found =>
    rcases found with ⟨b, rest⟩
    change Found mode m s (o b, f b { s with rest }) _
    rw [hf]
    refine (Found.matched rest (ho _ _ _ (hr.sound hrun)) (hshows b) (by simp [hnames])).congr
      fun a q => ?_
    constructor
    · intro h
      rcases h with ⟨b', rfl, h⟩
      rcases hr.unique h (hr.sound hrun) with ⟨rfl, rfl⟩
      exact ⟨rfl, rfl⟩
    · intro h
      rcases h with ⟨rfl, rfl⟩
      exact ⟨b, rfl, hr.sound hrun⟩

theorem ofReader {r : Reader Outcome} {Q : Form Outcome} (hr : Reads mode r Q)
    (hQ : ∀ o x y, Q o x y → o.isMatch = true) :
    Recognizes mode .character (ofReader r) (Q.map Outcome.codePoint?) :=
  keeping hr hQ (fun _ => rfl) (fun _ => rfl) fun _ _ _ => State.moved_eq_read

theorem character {r : Reader Nat} {Q : Form Nat} (hr : Reads mode r Q) :
    Recognizes mode .character (character r) (Q.map some) := by
  refine (ofReader hr.map ?_).congr fun v x y => ?_
  · intro _ x y h
    rcases h with ⟨n, -, rfl⟩
    rfl
  · constructor
    · intro h
      rcases h with ⟨n, rfl, h⟩
      exact ⟨.codePoint n, rfl, n, h, rfl⟩
    · intro h
      rcases h with ⟨_, rfl, n, h, rfl⟩
      exact ⟨n, rfl, h⟩

theorem plain {r : Reader β} {Q : Form β} (hr : Reads mode r Q) :
    Recognizes mode .character (plain r) (Q.as none) := by
  refine (ofReader (hr.seqRight (.of_pure .matched)) ?_).congr fun v x y => ?_
  · intro _ x y h
    rcases h with ⟨_, _, _, rfl, _⟩
    rfl
  · constructor
    · intro h
      rcases h with ⟨b, rfl, h⟩
      exact ⟨.matched, rfl, b, y, h, rfl, rfl⟩
    · intro h
      rcases h with ⟨_, rfl, b, _, h, rfl, rfl⟩
      exact ⟨b, rfl, h⟩

/-! ## Combinations -/

theorem attempt (h : Recognizes mode m p R) (rollback : Rollback) :
    Recognizes mode m (attempt rollback p) R := by
  intro s
  refine (h s).of_match (fun hs => attempt_of_match hs) fun hs => ?_
  rw [attempt_of_noMatch hs]
  rfl

/-- A match of one after the other means what `f` makes of both. -/
theorem followedBy {m₁ : Meaning β} {m₂ : Meaning γ} {R : Form β} {S : Form γ} {f : β → γ → α}
    (hp : Recognizes mode m₁ p R) (hq : Recognizes mode m₂ q S)
    (hbrings : ∀ b c, m.brings (f b c) = m₁.brings b ++ m₂.brings c)
    (hshows : ∀ o b c, m₂.shows o c → m.shows o (f b c)) :
    Recognizes mode m (p.followedBy q) fun a x z => ∃ b c y, a = f b c ∧ R b x y ∧ S c y z := by
  intro s
  refine (hp s).bind (fun b rest hmatch _ hstate _ => ?_) (fun hnone => ?_) hbrings hshows
  · rw [followedBy_of_match hmatch]
    refine (hq (p s).2).congr fun c z => ?_
    rw [hstate]
    rfl
  · rw [followedBy_of_noMatch hnone, hnone]

/-- What is said by one text after another is what both say. -/
theorem followedBy_evidence {R S : Form Evidence} (hp : Recognizes mode .evidence p R)
    (hq : Recognizes mode .evidence q S) :
    Recognizes mode .evidence (p.followedBy q) fun e x z =>
      ∃ e₁ e₂ y, e = e₁ ++ e₂ ∧ R e₁ x y ∧ S e₂ y z :=
  followedBy hp hq (fun _ _ => rfl) fun _ _ _ _ => trivial

/-- Only the last character is seen. -/
theorem followedBy_character {R S : Form (Option Nat)} (hp : Recognizes mode .character p R)
    (hq : Recognizes mode .character q S) :
    Recognizes mode .character (p.followedBy q) fun w x z => ∃ v y, R v x y ∧ S w y z := by
  refine (followedBy (m := .character) (f := fun _ w => w) hp hq (fun _ _ => rfl)
    fun _ _ _ h => h).congr fun w x z => ?_
  constructor
  · intro h
    rcases h with ⟨v, y, hR, hS⟩
    exact ⟨v, w, y, rfl, hR, hS⟩
  · intro h
    rcases h with ⟨v, _, y, rfl, hR, hS⟩
    exact ⟨v, y, hR, hS⟩

/-- Tries `p`: where it matches `u` goes on as `f`, otherwise as `t` with what `p` left. A later
match counts only outside `H`, where it finds the state as it was; on the texts of `H` either `p`
matches or all fails. -/
theorem choice {H : Text → Prop} {u f t : Recognizer}
    (hu : ∀ s, u s = if (p s).1.isMatch then f s else t (p s).2)
    (hf : Recognizes mode m f R) (hfp : ∀ s, (f s).1.isMatch = true → (p s).1.isMatch = true)
    (hH : ConfinedTo mode H p) (ht : Recognizes mode m t S)
    (hblock : ∀ s, H (decode mode s.rest) → (p s).1.isMatch = false →
      ¬ S.Applies (decode mode s.rest)) :
    Recognizes mode m u fun a x y => R a x y ∨ ¬ H x ∧ S a x y := by
  intro s
  cases hmatch : (p s).1.isMatch with
  | true =>
    -- a match lies in `H`, where no later alternative counts
    have hin := hH.of_match hmatch
    rw [hu, if_pos hmatch]
    exact (hf s).congr fun a q => or_iff_left fun hS => hS.1 hin
  | false =>
    -- what `R` says is matched unless a name is taken, so here one is
    have hf' {a : α} {q : Text} (hR : R a (decode mode s.rest) q) :
        ¬ Fresh s.names (m.brings a).names := by
      intro hfresh
      rw [hfp s ((hf s).complete a q hR hfresh).1] at hmatch
      contradiction
    rw [hu, if_neg (by simp [hmatch])]
    constructor
    · intro hs
      rcases (ht _).sound hs with ⟨a, rest, hshows, hstate, hS, hfresh⟩
      -- the later match starts at the same place, hence outside `H`; there `p` left no trace
      rw [hH.goesBack s hmatch] at hS
      have hout : ¬ H (decode mode s.rest) := fun hin => hblock s hin hmatch ⟨a, _, hS⟩
      rw [hH.outside s hout] at hshows hstate hfresh ⊢
      exact ⟨a, rest, hshows, hstate, Or.inr ⟨hout, hS⟩, hfresh⟩
    · intro a q h hfresh
      rcases h with hR | ⟨hout, hS⟩
      · exact absurd hfresh (hf' hR)
      · rw [hH.outside s hout]
        exact (ht s).complete a q hS hfresh

theorem anyOf_nil : Recognizes mode m (anyOf []) (First []) :=
  fun _ => .noMatch rfl fun _ _ => not_first_nil

theorem anyOf_cons {H : Text → Prop} {ps : List Recognizer} (hp : Recognizes mode m p R)
    (hH : ConfinedTo mode H p) (hps : Recognizes mode m (anyOf ps) S)
    (hblock : ∀ s, H (decode mode s.rest) → (p s).1.isMatch = false →
      ¬ S.Applies (decode mode s.rest)) :
    Recognizes mode m (anyOf (p :: ps)) fun a x y => R a x y ∨ ¬ H x ∧ S a x y :=
  choice (fun _ => rfl) hp (fun _ h => h) hH hps hblock

/-- Alternatives that bring no names are tried as the forms of a choice are. -/
theorem anyOf_first {H : Text → Prop} {ps : List Recognizer} {forms : List (Form α)}
    (hp : Recognizes mode m p R) (hnames : ∀ a x y, R a x y → (m.brings a).names = [])
    (hH : ConfinedTo mode H p) (hRH : ∀ x, R.Applies x → H x)
    (hps : Recognizes mode m (anyOf ps) (First forms))
    (hblock : ∀ x, H x → R.Applies x ∨ ¬ (First forms).Applies x) :
    Recognizes mode m (anyOf (p :: ps)) (First (R :: forms)) := by
  have hmatch {s : State} (hR : R.Applies (decode mode s.rest)) : (p s).1.isMatch = true := by
    rcases hR with ⟨a, y, hR⟩
    exact ((hp s).complete a y hR (by simp [hnames a _ y hR])).1
  refine (hp.anyOf_cons hH hps ?_).congr fun a x y => ?_
  · intro s hs hnone
    rcases hblock _ hs with hR | hS
    · rw [hmatch hR] at hnone
      contradiction
    · exact hS
  · rw [first_cons]
    refine or_congr_right (and_congr_left fun hS => not_congr ⟨hRH x, fun hx => ?_⟩)
    rcases hblock x hx with hR | hS'
    · exact hR
    · exact absurd ⟨a, y, hS⟩ hS'

/-- Alternatives that never meet are tried in any order. -/
theorem anyOf_disjoint {H : Text → Prop} {ps : List Recognizer} (hp : Recognizes mode m p R)
    (hH : ConfinedTo mode H p) (hps : Recognizes mode m (anyOf ps) S)
    (hblock : ∀ x, H x → ¬ S.Applies x) :
    Recognizes mode m (anyOf (p :: ps)) fun a x y => R a x y ∨ S a x y := by
  refine (hp.anyOf_cons hH hps fun s hs _ => hblock _ hs).congr fun a x y => ?_
  refine or_congr_right ⟨fun hS => ⟨fun hx => hblock x hx ⟨a, y, hS⟩, hS⟩, And.right⟩

theorem anyOf_last (hp : Recognizes mode m p R) : Recognizes mode m (anyOf [p]) R := by
  intro s
  refine (hp s).of_match (fun hs => anyOf_cons_of_match hs) fun hs => ?_
  rw [anyOf_cons_of_noMatch hs]
  rfl

end Recognizes

namespace ConfinedTo

variable {H K : Text → Prop} {p : Recognizer}

theorem mono (h : ConfinedTo mode H p) (hHK : ∀ x, H x → K x) : ConfinedTo mode K p where
  outside s hs := h.outside s fun hs' => hs (hHK _ hs')
  goesBack := h.goesBack

/-- A reader whose results are only kept leaves no trace where it fails. -/
theorem reading {r : Reader β} {Q : Form β} (hr : Reads mode r Q) {f : β → Recognizer}
    (hf : ∀ b x y, Q b x y → ∀ s, (f b s).1.isMatch = true) :
    ConfinedTo mode Q.Applies (reading r f) where
  outside s hs := by simp only [Recognizer.reading, hr.run_eq_none_iff.2 hs]
  goesBack s hs := by
    simp only [Recognizer.reading] at hs ⊢
    split at hs
    next b rest hrun =>
      rw [hf b _ _ (hr.sound hrun)] at hs
      contradiction
    next => rfl

theorem character {r : Reader Nat} {Q : Form Nat} (hr : Reads mode r Q) :
    ConfinedTo mode Q.Applies (character r) := by
  refine (reading hr.map ?_).mono ?_
  · intro _ x y h s
    rcases h with ⟨n, -, rfl⟩
    rfl
  · intro x h
    rcases h with ⟨_, y, n, h, -⟩
    exact ⟨n, y, h⟩

theorem plain {r : Reader β} {Q : Form β} (hr : Reads mode r Q) :
    ConfinedTo mode Q.Applies (plain r) := by
  refine (reading (hr.seqRight (.of_pure Outcome.matched)) ?_).mono ?_
  · intro _ x y h s
    rcases h with ⟨_, _, _, rfl, _⟩
    rfl
  · intro x h
    rcases h with ⟨_, _, b, y, h, -⟩
    exact ⟨b, y, h⟩

/-- An attempt goes back. -/
theorem attempt (hp : ∀ s, ¬ H (decode mode s.rest) → p s = (.noMatch, s)) (rollback : Rollback) :
    ConfinedTo mode H (attempt rollback p) where
  outside s hs := by
    rw [attempt_of_noMatch (by rw [hp s hs]; rfl), hp s hs]
    cases rollback <;> rfl
  goesBack s hs := by
    cases hmatch : (p s).1.isMatch with
    | true =>
      rw [attempt_of_match hmatch, hmatch] at hs
      contradiction
    | false => exact rest_attempt_of_noMatch hmatch

theorem attempt_reading {r : Reader β} {Q : Form β} (hr : Reads mode r Q) (f : β → Recognizer)
    (rollback : Rollback) :
    ConfinedTo mode Q.Applies (Recognizer.attempt rollback (Recognizer.reading r f)) :=
  attempt (fun s hs => by simp only [Recognizer.reading, hr.run_eq_none_iff.2 hs]) rollback

theorem anyOf_nil : ConfinedTo mode (fun _ => False) (anyOf []) where
  outside _ _ := rfl
  goesBack _ _ := rfl

theorem anyOf_cons {ps : List Recognizer} (hp : ConfinedTo mode H p)
    (hps : ConfinedTo mode K (anyOf ps)) :
    ConfinedTo mode (fun x => H x ∨ K x) (anyOf (p :: ps)) where
  outside s hs := by
    have hnone := hp.outside s fun h => hs (Or.inl h)
    rw [anyOf_cons_of_noMatch (by rw [hnone]; rfl), hnone]
    exact hps.outside s fun h => hs (Or.inr h)
  goesBack s hs := by
    cases hmatch : (p s).1.isMatch with
    | true =>
      rw [anyOf_cons_of_match hmatch, hmatch] at hs
      contradiction
    | false =>
      rw [anyOf_cons_of_noMatch hmatch] at hs ⊢
      rw [hps.goesBack _ hs, hp.goesBack s hmatch]

end ConfinedTo

/-! ## Recognizers that leave no trace -/

/-- The recognizer `p` does nothing where `R` does not apply, and `R` brings no names. -/
structure Traceless (mode : Mode) (m : Meaning α) (p : Recognizer) (R : Form α) : Prop where
  recognizes : Recognizes mode m p R
  confined : ConfinedTo mode R.Applies p
  nameless : ∀ a x y, R a x y → (m.brings a).names = []

namespace Traceless

variable {p : Recognizer} {R : Form α} {ps : List Recognizer} {forms : List (Form α)}

theorem congr {S : Form α} (h : Traceless mode m p R) (hRS : ∀ a x y, S a x y ↔ R a x y) :
    Traceless mode m p S := by
  obtain rfl : S = R := by
    funext a x y
    exact propext (hRS a x y)
  exact h

theorem character {r : Reader Nat} {Q : Form Nat} (hr : Reads mode r Q) :
    Traceless mode .character (character r) (Q.map some) where
  recognizes := .character hr
  confined := (ConfinedTo.character hr).mono fun _ => applies_map.2
  nameless _ _ _ _ := rfl

theorem plain {r : Reader β} {Q : Form β} (hr : Reads mode r Q) :
    Traceless mode .character (plain r) (Q.as none) where
  recognizes := .plain hr
  confined := (ConfinedTo.plain hr).mono fun _ => applies_map.2
  nameless _ _ _ _ := rfl

/-- What is read is kept in the state. -/
theorem recording {r : Reader β} {Q : Form β} (hr : Reads mode r Q) {f : β → State → State}
    {g : β → Evidence}
    (hf : ∀ b (s : State) rest, f b { s with rest } = s.read rest (g b))
    (hnames : ∀ b, (g b).names = []) :
    Traceless mode .evidence (reading r fun b s => (.matched, f b s)) (Q.map g) where
  recognizes := .keeping hr (fun _ _ _ _ => rfl) (fun _ => trivial) hnames hf
  confined := (ConfinedTo.reading hr fun _ _ _ _ _ => rfl).mono fun _ => applies_map.2
  nameless := by
    intro _ x y h
    rcases h with ⟨b, rfl, -⟩
    exact hnames b

theorem toEvidence {R : Form (Option Nat)} (h : Traceless mode .character p R) :
    Traceless mode .evidence p (R.as {}) where
  recognizes := h.recognizes.toEvidence
  confined := h.confined.mono fun _ => applies_map.2
  nameless := by
    intro _ x y h
    rcases h with ⟨v, rfl, -⟩
    rfl

/-- A character whose value is not looked at. -/
theorem character_evidence {r : Reader Nat} {Q : Form Nat} (hr : Reads mode r Q) :
    Traceless mode .evidence (Recognizer.character r) (Q.as {}) := by
  have h := (character hr).toEvidence
  rwa [map_as] at h

theorem plain_evidence {r : Reader β} {Q : Form β} (hr : Reads mode r Q) :
    Traceless mode .evidence (Recognizer.plain r) (Q.as {}) := by
  have h := (plain hr).toEvidence
  rwa [as_as] at h

theorem attempt_reading {r : Reader β} {Q : Form β} (hr : Reads mode r Q) {f : β → Recognizer}
    {R : β → Form α} (hf : ∀ b, Traceless mode m (f b) (R b)) (rollback : Rollback) :
    Traceless mode m (attempt rollback (reading r f)) fun a x z => ∃ b y, Q b x y ∧ R b a y z where
  recognizes := (Recognizes.reading hr fun b => (hf b).recognizes).attempt rollback
  confined :=
    { outside := by
        intro s hs
        cases hrun : r.run s.rest with
        | none =>
          exact (ConfinedTo.attempt_reading hr f rollback).outside s (hr.run_eq_none_iff.1 hrun)
        | some found =>
          rcases found with ⟨b, rest⟩
          -- the second part leaves no trace either, so only the place is to be taken back
          have hnone : f b { s with rest } = (.noMatch, { s with rest }) := by
            apply (hf b).confined.outside _
            intro h
            rcases h with ⟨a, z, hR⟩
            exact hs ⟨a, z, b, _, hr.sound hrun, hR⟩
          have hreading : reading r f s = (.noMatch, { s with rest }) := by
            simp only [reading, hrun, hnone]
          rw [attempt_of_noMatch (by rw [hreading]; rfl), hreading]
          cases rollback <;> rfl
      goesBack := (ConfinedTo.attempt_reading hr f rollback).goesBack }
  nameless := by
    intro a x z h
    rcases h with ⟨b, y, -, hR⟩
    exact (hf b).nameless a y z hR

theorem isMatch (hp : Traceless mode m p R) {s : State} (h : R.Applies (decode mode s.rest)) :
    (p s).1.isMatch = true := by
  rcases h with ⟨a, q, hR⟩
  exact ((hp.recognizes s).complete a q hR (by simp [hp.nameless a _ q hR])).1

/-- In front of any alternatives a recognizer that leaves no trace is tried as a form is. -/
theorem anyOf_first (hp : Traceless mode m p R)
    (hps : Recognizes mode m (anyOf ps) (First forms)) :
    Recognizes mode m (anyOf (p :: ps)) (First (R :: forms)) :=
  hp.recognizes.anyOf_first hp.nameless hp.confined (fun _ h => h) hps fun _ h => Or.inl h

theorem anyOf_nil : Traceless mode m (anyOf []) (First []) where
  recognizes := .anyOf_nil
  confined := ConfinedTo.anyOf_nil.mono fun _ => False.elim
  nameless _ _ _ h := nomatch h

theorem anyOf_cons (hp : Traceless mode m p R) (hps : Traceless mode m (anyOf ps) (First forms)) :
    Traceless mode m (anyOf (p :: ps)) (First (R :: forms)) where
  recognizes := hp.anyOf_first hps.recognizes
  confined := (hp.confined.anyOf_cons hps.confined).mono fun x h => by
    simpa only [applies_first, List.mem_cons, exists_eq_or_imp] using h
  nameless a x y h := by
    rcases first_cons.1 h with h | ⟨-, h⟩
    · exact hp.nameless a x y h
    · exact hps.nameless a x y h

end Traceless

end EcmaPattern.Recognizer
