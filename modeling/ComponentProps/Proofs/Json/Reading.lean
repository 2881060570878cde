import ComponentProps.Proofs.Json.Grammar
import Mathlib.Data.List.Basic
import Mathlib.Data.List.TakeWhile

/-!
# What a reader takes off a text

A small program logic for readers.  `Reader.Takes ending next reader post` speaks
about the runs of `reader` to an end, on texts whose first character is `next`:

* the run takes a part off the front of the text, and `post` holds of that
  part, of the value, and of the first character it leaves;
* on other texts that begin with the same part, the reader takes the same part
  and gives the same value.

Which other texts these are depends on the ending.  A run depends on one
character behind what it takes at most, so the texts may be those that go on
with the same character (`Ending.ahead`).  A run whose last character is one
that it has asked for depends on nothing behind it (`Ending.closed`).

There is one rule for each way of putting readers together.  `Takes.of_loop` is the
rule for loops, whose budget is the text that they start at: another text behind
the part that is taken means another budget, and the same run.
-/

namespace ComponentProps

namespace Json

namespace Reader

variable {α β : Type}

/-! ## Runs -/

theorem bind_eq_ok_iff {reader : Reader α} {next : α → Reader β} {text rest : List Char}
    {result : β} :
    (reader >>= next) text = .ok result rest ↔
      ∃ value middle, reader text = .ok value middle ∧ next value middle = .ok result rest := by
  show EStateM.bind reader next text = .ok result rest ↔ _
  unfold EStateM.bind
  cases reader text with
  | ok value middle =>
    constructor
    · intro h
      exact ⟨value, middle, rfl, h⟩
    · intro h
      obtain ⟨_, _, heq, h⟩ := h
      cases heq
      exact h
  | error fault middle => simp

theorem map_eq_ok_iff {f : α → β} {reader : Reader α} {text rest : List Char} {result : β} :
    (f <$> reader) text = .ok result rest ↔
      ∃ value, reader text = .ok value rest ∧ f value = result := by
  show EStateM.map f reader text = .ok result rest ↔ _
  unfold EStateM.map
  cases reader text with
  | ok value middle =>
    constructor
    · intro h
      cases h
      exact ⟨value, rfl, rfl⟩
    · intro h
      obtain ⟨_, heq, rfl⟩ := h
      cases heq
      rfl
  | error fault middle => simp

theorem within_eq_ok_iff {segment : Segment} {reader : Reader α} {text rest : List Char}
    {value : α} :
    within segment reader text = .ok value rest ↔ reader text = .ok value rest := by
  unfold within
  cases reader text <;> simp

/-- Brackets are closed by a run of what stands between them and then of the
closing. -/
theorem enclosed_eq_ok_iff {body : Reader α} {close : Reader Unit} {text rest : List Char}
    {value : α} :
    enclosed body close text = .ok value rest ↔
      ∃ middle, body text = .ok value middle ∧ close middle = .ok () rest := by
  unfold enclosed
  cases body text with
  | ok value' middle =>
    constructor
    · intro h
      cases hclose : close middle with
      | ok closed rest' =>
        simp only [hclose, EStateM.Result.ok.injEq] at h
        obtain ⟨rfl, rfl⟩ := h
        exact ⟨middle, rfl, hclose⟩
      | error fault rest' => simp [hclose] at h
    · intro h
      obtain ⟨_, heq, hclose⟩ := h
      cases heq
      simp [hclose]
  | error fault middle => cases hclose : close middle <;> simp [hclose]

/-! ## Judgments -/

/-- Where a run ends: in front of a character that it may have looked at, or
behind a character that it has asked for. -/
inductive Ending where
  | ahead
  | closed

/-- The texts that may stand behind a run instead of `rest`. -/
def Ending.Allows (ending : Ending) (rest tail : List Char) : Prop :=
  match ending with
  | .ahead => tail.head? = rest.head?
  | .closed => True

/-- On texts that begin with `next`, a run to the end takes a part off the front
of which `post` holds, and is the same in front of every text that its ending
allows. -/
def Takes (ending : Ending) (next : Option Char) (reader : Reader α)
    (post : List Char → α → Option Char → Prop) : Prop :=
  ∀ text value rest, text.head? = next → reader text = .ok value rest →
    ∃ taken, text = taken ++ rest ∧ (ending = .closed → taken ≠ []) ∧
      post taken value rest.head? ∧
      ∀ tail, ending.Allows rest tail → reader (taken ++ tail) = .ok value tail

theorem Ending.allows_of_head?_eq {ending : Ending} {rest tail : List Char}
    (h : tail.head? = rest.head?) : ending.Allows rest tail := by
  cases ending with
  | ahead => exact h
  | closed => trivial

/-- A run does not see the difference between two texts that its ending allows. -/
theorem Ending.Allows.head?_append {ending : Ending} {more rest tail : List Char}
    (h : ending.Allows rest tail) (hmore : ending = .closed → more ≠ []) :
    (more ++ tail).head? = (more ++ rest).head? := by
  cases more with
  | cons c more => rfl
  | nil =>
    cases ending with
    | ahead => exact h
    | closed => exact absurd rfl (hmore rfl)

section Rules

variable {ending : Ending} {next : Option Char} {reader : Reader α}
  {post post' : List Char → α → Option Char → Prop}

theorem Takes.mono (h : Takes ending next reader post)
    (himp : ∀ taken value after, post taken value after → post' taken value after) :
    Takes ending next reader post' := by
  intro text value rest hnext hrun
  obtain ⟨taken, htext, hne, hpost, hagain⟩ := h text value rest hnext hrun
  exact ⟨taken, htext, hne, himp _ _ _ hpost, hagain⟩

/-- Readers that come to an end alike take the same. -/
theorem Takes.congr {other : Reader α} (h : Takes ending next other post)
    (heq : ∀ text value rest, reader text = .ok value rest ↔ other text = .ok value rest) :
    Takes ending next reader post := by
  intro text value rest hnext hrun
  obtain ⟨taken, htext, hne, hpost, hagain⟩ := h text value rest hnext ((heq _ _ _).mp hrun)
  exact ⟨taken, htext, hne, hpost, fun tail htail => (heq _ _ _).mpr (hagain tail htail)⟩

/-- A run that sees nothing of what follows does not look at its first character. -/
theorem Takes.ahead (h : Takes ending next reader post) : Takes .ahead next reader post := by
  intro text value rest hnext hrun
  obtain ⟨taken, htext, -, hpost, hagain⟩ := h text value rest hnext hrun
  refine ⟨taken, htext, nofun, hpost, ?_⟩
  intro tail htail
  exact hagain tail (Ending.allows_of_head?_eq htail)

theorem Takes.pure {value : α} (h : post [] value next) :
    Takes .ahead next (Pure.pure value : Reader α) post := by
  intro text value' rest hnext hrun
  obtain ⟨rfl, rfl⟩ : value = value' ∧ text = rest := by
    have hrun' : EStateM.Result.ok value text = .ok value' rest := hrun
    simpa using hrun'
  refine ⟨[], rfl, nofun, by rw [hnext]; exact h, ?_⟩
  intro tail _
  rfl

/-- A run ends where its last part does. -/
theorem Takes.bind {first : Ending} {continuation : α → Reader β}
    {last : List Char → β → Option Char → Prop} (h : Takes first next reader post)
    (hnext : ∀ taken value after, post taken value after →
      Takes ending after (continuation value) fun more result => last (taken ++ more) result) :
    Takes ending next (reader >>= continuation) last := by
  intro text result rest hhead hrun
  obtain ⟨value, middle, hfirst, hsecond⟩ := bind_eq_ok_iff.mp hrun
  obtain ⟨taken, rfl, -, hpost, hagain⟩ := h text value middle hhead hfirst
  obtain ⟨more, rfl, hne, hlast, hagain'⟩ := hnext _ _ _ hpost middle result rest rfl hsecond
  refine ⟨taken ++ more, (List.append_assoc ..).symm, ?_, hlast, ?_⟩
  · intro hclosed
    simp [hne hclosed]
  · intro tail htail
    have hfirst' := hagain (more ++ tail) (Ending.allows_of_head?_eq (htail.head?_append hne))
    rw [List.append_assoc, bind_eq_ok_iff]
    exact ⟨value, more ++ tail, hfirst', hagain' tail htail⟩

theorem Takes.map {f : α → β} {last : List Char → β → Option Char → Prop}
    (h : Takes ending next reader fun taken value => last taken (f value)) :
    Takes ending next (f <$> reader) last := by
  intro text result rest hhead hrun
  obtain ⟨value, hvalue, rfl⟩ := map_eq_ok_iff.mp hrun
  obtain ⟨taken, htext, hne, hlast, hagain⟩ := h text value rest hhead hvalue
  refine ⟨taken, htext, hne, hlast, ?_⟩
  intro tail htail
  exact map_eq_ok_iff.mpr ⟨value, hagain tail htail, rfl⟩

theorem Takes.within {segment : Segment} (h : Takes ending next reader post) :
    Takes ending next (Reader.within segment reader) post :=
  h.congr fun _ _ _ => within_eq_ok_iff

/-- A reader that only stops never comes to an end. -/
theorem Takes.stop {flaw : Flaw} {bytes : Nat} :
    Takes ending next (Reader.stop flaw bytes : Reader α) post := by
  intro text value rest _ hrun
  cases hrun

theorem Takes.throw {fault : Fault} :
    Takes ending next (MonadExcept.throw fault : Reader α) post := by
  intro text value rest _ hrun
  cases hrun

/-- A look at the next character. -/
theorem Takes.peek {continuation : Option Char → Reader α}
    (h : Takes ending next (continuation next) post) :
    Takes ending next (peek? >>= continuation) post := by
  intro text value rest hhead hrun
  subst hhead
  obtain ⟨taken, rfl, hne, hpost, hagain⟩ := h text value rest rfl hrun
  refine ⟨taken, rfl, hne, hpost, ?_⟩
  intro tail htail
  show continuation (taken ++ tail).head? (taken ++ tail) = .ok value tail
  rw [htail.head?_append hne]
  exact hagain tail htail

/-- A look at the whole text, where runs to the end do not depend on it. -/
theorem Takes.look {continuation : List Char → Reader α}
    (h : ∀ text, Takes ending next (continuation text) post)
    (hsame : ∀ text text' input value rest,
      continuation text input = .ok value rest → continuation text' input = .ok value rest) :
    Takes ending next (get >>= continuation) post := by
  intro text value rest hhead hrun
  obtain ⟨taken, htext, hne, hpost, hagain⟩ := h text text value rest hhead hrun
  refine ⟨taken, htext, hne, hpost, ?_⟩
  intro tail htail
  exact hsame text (taken ++ tail) (taken ++ tail) value tail (hagain tail htail)

theorem takes_eat {c : Char} : Takes .closed (some c) eat fun taken _ _ => taken = [c] := by
  intro text value rest hhead hrun
  obtain ⟨more, rfl⟩ := List.head?_eq_some_iff.mp hhead
  have hrest : EStateM.Result.ok () more = .ok value rest := hrun
  obtain ⟨rfl, rfl⟩ : () = value ∧ more = rest := by simpa using hrest
  refine ⟨[c], rfl, by simp, rfl, ?_⟩
  intro tail _
  rfl

/-- A reader that takes a known character and goes on. -/
theorem Takes.eat {c : Char} {continuation : Unit → Reader α}
    (h : ∀ after, Takes ending after (continuation ()) fun more => post (c :: more)) :
    Takes ending (some c) (Reader.eat >>= continuation) post := by
  refine takes_eat.bind ?_
  intro taken value after htaken
  subst htaken
  exact h after

/-- Brackets end where their closing does. -/
theorem Takes.enclosed {first : Ending} {close : Reader Unit}
    {last : List Char → α → Option Char → Prop} (h : Takes first next reader post)
    (hclose : ∀ taken value after, post taken value after →
      Takes ending after close fun more _ => last (taken ++ more) value) :
    Takes ending next (Reader.enclosed reader close) last := by
  have hbind : Takes ending next (reader >>= fun value => (fun _ => value) <$> close) last := by
    refine h.bind ?_
    intro taken value after hpost
    exact (hclose taken value after hpost).map
  refine hbind.congr ?_
  intro text value rest
  rw [enclosed_eq_ok_iff, bind_eq_ok_iff]
  constructor
  · intro h
    obtain ⟨middle, hbody, hclose⟩ := h
    exact ⟨value, middle, hbody, map_eq_ok_iff.mpr ⟨(), hclose, rfl⟩⟩
  · intro h
    obtain ⟨value', middle, hbody, hmap⟩ := h
    obtain ⟨_, hclose, rfl⟩ := map_eq_ok_iff.mp hmap
    exact ⟨middle, hbody, hclose⟩

end Rules

/-! ## Runs of characters of one class -/

/-- A text falls into its longest run of one class and the rest. -/
theorem cut_at_run (p : Char → Bool) (text : List Char) :
    text = text.takeWhile p ++ text.dropWhile p ∧ (∀ c ∈ text.takeWhile p, p c = true) ∧
      (text.dropWhile p).head?.any p = false := by
  refine ⟨List.takeWhile_append_dropWhile.symm, fun c hc => List.mem_takeWhile_imp hc, ?_⟩
  have hhead := List.head?_dropWhile_not p text
  cases hrest : (text.dropWhile p).head? with
  | none => rfl
  | some c =>
    rw [hrest] at hhead
    simpa using hhead

theorem takes_skipBlanks {next : Option Char} :
    Takes .ahead next skipBlanks fun taken _ after =>
      Grammar.Blank taken ∧ after.any isBlank = false := by
  intro text value rest _ hrun
  have hrest : EStateM.Result.ok () (text.dropWhile isBlank) = .ok value rest := hrun
  obtain rfl : text.dropWhile isBlank = rest := by simpa using hrest
  obtain ⟨hcut, hblank, hstop⟩ := cut_at_run isBlank text
  refine ⟨text.takeWhile isBlank, hcut, nofun, ⟨hblank, hstop⟩, ?_⟩
  intro tail htail
  have htail' : tail.head?.any isBlank = false := by
    rw [show tail.head? = _ from htail]
    exact hstop
  show EStateM.Result.ok () ((text.takeWhile isBlank ++ tail).dropWhile isBlank) = .ok () tail
  rw [Grammar.dropWhile_run hblank htail']

/-- The digits at the front of a text, one value for each. -/
theorem takes_digitRun {next : Option Char} :
    Takes .ahead next digitRun fun taken digits after =>
      (∀ c ∈ taken, c.isDigit = true) ∧ after.any Char.isDigit = false ∧
        taken.head? = next.filter Char.isDigit ∧ digits.length = taken.length := by
  intro text value rest hhead hrun
  have hrest : EStateM.Result.ok ((text.takeWhile Char.isDigit).map fun c => c.toNat - '0'.toNat)
      (text.dropWhile Char.isDigit) = .ok value rest := hrun
  obtain ⟨rfl, rfl⟩ : (text.takeWhile Char.isDigit).map (fun c => c.toNat - '0'.toNat) = value ∧
      text.dropWhile Char.isDigit = rest := by simpa using hrest
  obtain ⟨hcut, hdigits, hstop⟩ := cut_at_run Char.isDigit text
  have hfirst : (text.takeWhile Char.isDigit).head? = next.filter Char.isDigit := by
    rw [← hhead, List.head?_takeWhile]
  refine ⟨text.takeWhile Char.isDigit, hcut, nofun, ⟨hdigits, hstop, hfirst, List.length_map _⟩, ?_⟩
  intro tail htail
  have htail' : tail.head?.any Char.isDigit = false := by
    rw [show tail.head? = _ from htail]
    exact hstop
  show EStateM.Result.ok _ ((text.takeWhile Char.isDigit ++ tail).dropWhile Char.isDigit) = _
  rw [Grammar.dropWhile_run hdigits htail', Grammar.takeWhile_run hdigits htail']

/-- A reader that passes over blanks and goes on at the first other character. -/
theorem Takes.blanks {ending : Ending} {next : Option Char} {continuation : Unit → Reader α}
    {post : List Char → α → Option Char → Prop}
    (h : ∀ gap after, Grammar.Blank gap → after.any isBlank = false →
      Takes ending after (continuation ()) fun more => post (gap ++ more)) :
    Takes ending next (skipBlanks >>= continuation) post := by
  refine takes_skipBlanks.bind ?_
  intro taken value after htaken
  exact h taken after htaken.1 htaken.2

/-! ## Loops -/

section Loops

variable {σ τ : Type} {loop : List Char → σ → Reader α} {step : σ → Reader (Sum α τ)}
  {resume : τ → σ} {finish : τ → α → α} {last : τ → α} {post : σ → List Char → α → Prop}

/-- A loop takes a step, and as long as that says so and its budget lasts it goes
on with one character less. -/
def IsLoop (loop : List Char → σ → Reader α) (step : σ → Reader (Sum α τ)) (resume : τ → σ)
    (finish : τ → α → α) (last : τ → α) : Prop :=
  ∀ budget state, loop budget state = step state >>= fun
    | .inl value => pure value
    | .inr more =>
      match budget with
      | [] => pure (last more)
      | _ :: budget => finish more <$> loop budget (resume more)

/-- A step of a loop either ends it, or takes a character at least and leaves
the rest to the loop. -/
def StepTakes (step : σ → Reader (Sum α τ)) (resume : τ → σ) (finish : τ → α → α)
    (post : σ → List Char → α → Prop) : Prop :=
  ∀ state next, Takes .ahead next (step state) fun taken result _ =>
    match result with
    | .inl value => post state taken value
    | .inr more => taken ≠ [] ∧ ∀ taken' value, post (resume more) taken' value →
        post state (taken ++ taken') (finish more value)

/-- Every run of a loop whose budget is as long as the text can be repeated with
every other such budget.  The induction is on the budget: a step that goes on
has taken a character, so what it leaves is no longer than the budget left. -/
private theorem loop_aux (hloop : IsLoop loop step resume finish last)
    (hstep : StepTakes step resume finish post) (budget : List Char) (state : σ)
    (text rest : List Char) (value : α) (hlength : text.length ≤ budget.length)
    (hrun : loop budget state text = .ok value rest) :
    ∃ taken, text = taken ++ rest ∧ post state taken value ∧
      ∀ tail budget', tail.head? = rest.head? → (taken ++ tail).length ≤ budget'.length →
        loop budget' state (taken ++ tail) = .ok value tail := by
  rw [hloop, bind_eq_ok_iff] at hrun
  obtain ⟨result, middle, hfirst, hsecond⟩ := hrun
  obtain ⟨taken, rfl, -, hpost, hagain⟩ := hstep state _ text result middle rfl hfirst
  cases result with
  | inl value' =>
    cases hsecond
    refine ⟨taken, rfl, hpost, ?_⟩
    intro tail budget' htail _
    rw [hloop, bind_eq_ok_iff]
    exact ⟨_, tail, hagain tail htail, rfl⟩
  | inr more =>
    obtain ⟨hne, hcompose⟩ := hpost
    have hpos : 0 < taken.length := List.length_pos_iff.mpr hne
    cases budget with
    | nil =>
      simp only [List.length_append, List.length_nil] at hlength
      omega
    | cons c budget =>
      simp only [List.length_append, List.length_cons] at hlength
      obtain ⟨value', hvalue, rfl⟩ := map_eq_ok_iff.mp hsecond
      obtain ⟨taken', rfl, hpost', hagain'⟩ :=
        loop_aux hloop hstep budget _ middle rest value' (by omega) hvalue
      refine ⟨taken ++ taken', (List.append_assoc ..).symm, hcompose _ _ hpost', ?_⟩
      intro tail budget' htail hbudget
      simp only [List.append_assoc, List.length_append] at hbudget
      cases budget' with
      | nil =>
        rw [List.length_nil] at hbudget
        omega
      | cons c' budget' =>
        rw [List.length_cons] at hbudget
        rw [hloop, List.append_assoc, bind_eq_ok_iff]
        have hallows : Ending.ahead.Allows rest tail := htail
        refine ⟨_, taken' ++ tail, hagain _ (hallows.head?_append nofun), ?_⟩
        refine map_eq_ok_iff.mpr ⟨value', hagain' tail budget' htail ?_, rfl⟩
        rw [List.length_append]
        omega

/-- A loop whose budget is the text it starts at. -/
theorem Takes.of_loop (hloop : IsLoop loop step resume finish last)
    (hstep : StepTakes step resume finish post) (state : σ) (next : Option Char) :
    Takes .ahead next (get >>= fun text => loop text state) fun taken value _ =>
      post state taken value := by
  intro text value rest _ hrun
  have hstart : loop text state text = .ok value rest := hrun
  obtain ⟨taken, htext, hpost, hagain⟩ :=
    loop_aux hloop hstep text state text rest value (Nat.le_refl _) hstart
  refine ⟨taken, htext, nofun, hpost, ?_⟩
  intro tail htail
  show loop (taken ++ tail) state (taken ++ tail) = .ok value tail
  exact hagain tail _ htail (Nat.le_refl _)

end Loops

end Reader

end Json

end ComponentProps
