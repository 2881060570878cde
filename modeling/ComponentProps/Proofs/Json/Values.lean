import ComponentProps.Proofs.Json.Scalars

/-!
# What the readers of values take

Lists and objects are read by loops over their parts, and values by recursion on
the levels that are left.

* `Reader.takes_list`, `Reader.takes_object`: lists and objects, whatever reads
  what they hold; they depend on nothing behind their closing bracket.
* `Reader.takesValues_value`: values, at every depth.
* `Reader.value_enclosed`: a list or an object that has been read stands at the
  front of the text, and is read in front of any other text in the same way.
-/

namespace ComponentProps

namespace Json

namespace Reader

open Grammar

variable {β : Type}

/-! ## Items of lists -/

theorem takes_valueStart (next : Option Char) :
    Takes .ahead next valueStart fun taken c after => Blank taken ∧ after = some c := by
  apply Takes.blanks
  intro gap after hgap _
  apply Takes.peek
  cases after with
  | none => exact Takes.stop
  | some c =>
    apply Takes.pure
    rw [List.append_nil]
    exact ⟨hgap, rfl⟩

/-- What is taken in front of an item, or where there is none. -/
theorem takes_nextItem? (first : Bool) (next : Option Char) :
    Takes .ahead next (nextItem? first) fun taken more _ =>
      if more then Lead first taken else Blank taken := by
  apply Takes.blanks
  intro gap after hgap _
  apply Takes.peek
  split
  · exact Takes.stop
  · apply Takes.pure
    simpa using hgap
  · next c _ =>
    cases first with
    | true =>
      apply Takes.pure
      simpa using Lead.first hgap
    | false =>
      simp only [Bool.false_eq_true, if_false]
      split
      · next hcomma =>
        subst hcomma
        apply Takes.eat
        intro after
        apply Takes.blanks
        intro before after' hbefore _
        apply Takes.peek
        split
        · exact Takes.stop
        · exact Takes.stop
        · apply Takes.pure
          simpa using Lead.next hgap hbefore
      · exact Takes.stop

/-- One round of `items`. -/
def itemRound (item : Nat → β → Reader β) (state : Nat × β) : Reader (Sum β (Nat × β)) := do
  if ← nextItem? (state.1 == 0) then
    let result ← within (.index state.1) (item state.1 state.2)
    pure (.inr (state.1 + 1, result))
  else pure (.inl state.2)

theorem isLoop_items (item : Nat → β → Reader β) :
    IsLoop (fun budget (state : Nat × β) => items item budget state.1 state.2)
      (itemRound item) (fun state => state) (fun _ result => result) Prod.snd := by
  intro budget state
  conv_lhs => unfold items
  unfold itemRound
  rw [bind_assoc]
  refine bind_congr ?_
  intro more
  cases more with
  | false => rfl
  | true =>
    simp only [if_true]
    rw [bind_assoc]
    refine bind_congr ?_
    intro result
    cases budget with
    | nil => rfl
    | cons c budget => exact (id_map' _).symm

/-- The readers of items that take a value each. -/
def TakesItems (item : Nat → β → Reader β) : Prop :=
  ∀ position result next,
    Takes .ahead next (item position result) fun taken _ _ => SpacedValue taken

theorem stepTakes_itemRound {item : Nat → β → Reader β} (hitem : TakesItems item) :
    StepTakes (itemRound item) (fun state => state) (fun _ result => result)
      fun state taken _ => ∀ gap, Blank gap →
        Body .list (state.1 == 0) (taken ++ (gap ++ [closing .list])) := by
  intro state next
  refine (takes_nextItem? (state.1 == 0) next).bind ?_
  intro lead more after hlead
  cases more with
  | false =>
    apply Takes.pure
    rw [List.append_nil]
    intro gap hgap
    rw [← List.append_assoc]
    exact .close (Blank.append hlead hgap)
  | true =>
    refine (hitem state.1 state.2 after).within.bind ?_
    intro value result after' hvalue
    apply Takes.pure
    rw [List.append_nil]
    refine ⟨by simp [hvalue.ne_nil], ?_⟩
    intro rest _ hrest gap hgap
    simp only [List.append_assoc]
    exact hvalue.body_list hlead (hrest gap hgap)

theorem takes_closeList (next : Option Char) :
    Takes .closed next closeList fun taken _ _ =>
      ∃ gap, taken = gap ++ [closing .list] ∧ Blank gap := by
  apply Takes.blanks
  intro gap after hgap _
  apply Takes.peek
  split
  · exact Takes.stop
  · refine takes_eat.mono ?_
    intro taken _ _ htaken
    exact ⟨gap, by rw [htaken]; rfl, hgap⟩
  · apply Takes.eat
    intro after'
    apply Takes.blanks
    intro _ after'' _ _
    apply Takes.peek
    split
    · exact Takes.stop
    · exact Takes.stop
  · exact Takes.stop

theorem list_some_eq (item : Nat → β → Reader β) (start : β) :
    list (some item) start = (do
      eat
      enclosed (get >>= fun text => items item text 0 start) closeList) := rfl

/-- A list, whatever reads its items. -/
theorem takes_list {item : Option (Nat → β → Reader β)}
    (hitem : ∀ read ∈ item, TakesItems read) (start : β) :
    Takes .closed (some (opening .list)) (list item start) fun taken _ _ =>
      ∃ body, taken = opening .list :: body ∧ Body .list true body := by
  cases item with
  | none => exact Takes.stop
  | some item =>
    rw [list_some_eq]
    apply Takes.eat
    intro after
    have hitems := Takes.of_loop (isLoop_items item) (stepTakes_itemRound (hitem item rfl))
      (0, start) after
    refine hitems.enclosed ?_
    intro taken value after' hbody
    refine (takes_closeList after').mono ?_
    intro more _ _ hmore
    obtain ⟨gap, rfl, hgap⟩ := hmore
    exact ⟨_, rfl, hbody gap hgap⟩

/-! ## Members of objects -/

/-- What is taken in front of the quote of a key, or where there is none. -/
theorem takes_nextMember? (first : Bool) (next : Option Char) :
    Takes .ahead next (nextMember? first) fun taken more after =>
      if more then Lead first taken ∧ after = some '"' else Blank taken := by
  apply Takes.blanks
  intro gap after hgap _
  apply Takes.peek
  split
  · exact Takes.stop
  · apply Takes.pure
    simpa using hgap
  · next c _ =>
    cases first with
    | true =>
      simp only [if_true]
      split
      · next hquote =>
        apply Takes.pure
        simpa [hquote] using Lead.first hgap
      · exact Takes.stop
    | false =>
      simp only [Bool.false_eq_true, if_false]
      split
      · next hcomma =>
        subst hcomma
        apply Takes.eat
        intro after
        apply Takes.blanks
        intro before after' hbefore _
        apply Takes.peek
        split
        · exact Takes.stop
        · apply Takes.pure
          simpa using Lead.next hgap hbefore
        · exact Takes.stop
        · exact Takes.stop
      · exact Takes.stop

theorem takes_colon (next : Option Char) :
    Takes .ahead next colon fun taken _ _ => ∃ gap, taken = gap ++ [':'] ∧ Blank gap := by
  apply Takes.blanks
  intro gap after hgap _
  apply Takes.peek
  split
  · exact Takes.stop
  · refine takes_eat.ahead.mono ?_
    intro taken _ _ htaken
    exact ⟨gap, by rw [htaken], hgap⟩
  · exact Takes.stop

/-- A key, from its opening quote on. -/
theorem takes_key :
    Takes .ahead (some '"') (do eat; textBody) fun taken _ _ =>
      ∃ key, taken = '"' :: key ∧ TextBody key := by
  apply Takes.eat
  intro after
  refine (takes_textBody after).mono ?_
  intro key _ _ hkey
  exact ⟨key, rfl, hkey⟩

/-- One round of `members`. -/
def memberRound (refuse : β → String → Option Problem) (member : String → β → Reader β)
    (state : Bool × β) : Reader (Sum β (Bool × β)) := do
  if ← within .unknown (nextMember? state.1) then
    let key ← within .unknown (do eat; textBody)
    match refuse state.2 key with
    | some problem => throw (Fault.here problem)
    | none =>
      colon
      let result ← within (.key key) (member key state.2)
      pure (.inr (false, result))
  else pure (.inl state.2)

theorem isLoop_members (refuse : β → String → Option Problem) (member : String → β → Reader β) :
    IsLoop (fun budget (state : Bool × β) => members refuse member budget state.1 state.2)
      (memberRound refuse member) (fun state => state) (fun _ result => result) Prod.snd := by
  intro budget state
  conv_lhs => unfold members
  unfold memberRound
  rw [bind_assoc]
  refine bind_congr ?_
  intro more
  cases more with
  | false => rfl
  | true =>
    simp only [if_true]
    rw [bind_assoc]
    refine bind_congr ?_
    intro key
    cases refuse state.2 key with
    | some problem => rfl
    | none =>
      simp only [bind_assoc]
      refine bind_congr ?_
      intro _
      refine bind_congr ?_
      intro result
      cases budget with
      | nil => rfl
      | cons c budget => exact (id_map' _).symm

/-- The readers of members that take a value each. -/
def TakesMembers (member : String → β → Reader β) : Prop :=
  ∀ key result next, Takes .ahead next (member key result) fun taken _ _ => SpacedValue taken

theorem stepTakes_memberRound {refuse : β → String → Option Problem}
    {member : String → β → Reader β} (hmember : TakesMembers member) :
    StepTakes (memberRound refuse member) (fun state => state) (fun _ result => result)
      fun state taken _ => ∀ gap, Blank gap →
        Body .object state.1 (taken ++ (gap ++ [closing .object])) := by
  intro state next
  refine (takes_nextMember? state.1 next).within.bind ?_
  intro lead more after hlead
  cases more with
  | false =>
    apply Takes.pure
    rw [List.append_nil]
    intro gap hgap
    rw [← List.append_assoc]
    exact .close (Blank.append hlead hgap)
  | true =>
    obtain ⟨hlead, rfl⟩ := hlead
    refine takes_key.within.bind ?_
    intro quoted key after hquoted
    obtain ⟨key', rfl, hkey⟩ := hquoted
    split
    · exact Takes.throw
    refine (takes_colon after).bind ?_
    intro colon _ after' hcolon
    obtain ⟨behind, rfl, hbehind⟩ := hcolon
    refine (hmember key state.2 after').within.bind ?_
    intro value result after'' hvalue
    apply Takes.pure
    refine ⟨by simp, ?_⟩
    intro rest _ hrest gap hgap
    have hbody := hvalue.body_object hlead hkey hbehind (hrest gap hgap)
    simpa only [List.append_assoc, List.cons_append, List.nil_append] using hbody

theorem takes_closeObject (next : Option Char) :
    Takes .closed next closeObject fun taken _ _ =>
      ∃ gap, taken = gap ++ [closing .object] ∧ Blank gap := by
  apply Takes.blanks
  intro gap after hgap _
  apply Takes.peek
  split
  · exact Takes.stop
  · refine takes_eat.mono ?_
    intro taken _ _ htaken
    exact ⟨gap, by rw [htaken]; rfl, hgap⟩
  · exact Takes.stop
  · exact Takes.stop

theorem object_some_eq (refuse : β → String → Option Problem) (member : String → β → Reader β)
    (start : β) :
    object refuse (some member) start = (do
      eat
      enclosed (get >>= fun text => members refuse member text true start) closeObject) := rfl

/-- An object, whatever reads its members and whichever keys are refused. -/
theorem takes_object {refuse : β → String → Option Problem}
    {member : Option (String → β → Reader β)} (hmember : ∀ read ∈ member, TakesMembers read)
    (start : β) :
    Takes .closed (some (opening .object)) (object refuse member start) fun taken _ _ =>
      ∃ body, taken = opening .object :: body ∧ Body .object true body := by
  cases member with
  | none => exact Takes.stop
  | some member =>
    rw [object_some_eq]
    apply Takes.eat
    intro after
    have hmembers := Takes.of_loop (isLoop_members refuse member)
      (stepTakes_memberRound (hmember member rfl)) (true, start) after
    refine hmembers.enclosed ?_
    intro taken value after' hbody
    refine (takes_closeObject after').mono ?_
    intro more _ _ hmore
    obtain ⟨gap, rfl, hgap⟩ := hmore
    exact ⟨_, rfl, hbody gap hgap⟩

/-! ## Values -/

/-- A value from its first character on. -/
def valueFrom (inner : Option (Reader Json)) (c : Char) : Reader Json := do
  match c with
  | 'n' =>
    eat
    word ['u', 'l', 'l']
    pure .null
  | 't' =>
    eat
    word ['r', 'u', 'e']
    pure (.bool true)
  | 'f' =>
    eat
    word ['a', 'l', 's', 'e']
    pure (.bool false)
  | '"' =>
    eat
    .text <$> textBody
  | '[' =>
    let read := inner.map fun reader _ items => (· :: items) <$> reader
    (fun items => .list items.reverse) <$> list read []
  | '{' =>
    let read := inner.map fun reader key members =>
      (fun value => (key, value) :: members) <$> reader
    (fun members => .object members.reverse) <$> object (fun _ _ => none) read []
  | c =>
    if c = '-' ∨ c.isDigit then .number <$> number else stop .expectedValue 1

theorem valueWith_eq (inner : Option (Reader Json)) :
    valueWith inner = valueStart >>= valueFrom inner := rfl

/-- The readers that take a value, with blanks before it. -/
def TakesValues (reader : Reader Json) : Prop :=
  ∀ next, Takes .ahead next reader fun taken _ _ => SpacedValue taken

/-- Lists and objects are the values that begin with a bracket. -/
theorem takes_valueFrom_opening {inner : Option (Reader Json)}
    (hinner : ∀ reader ∈ inner, TakesValues reader) (bracket : Bracket) :
    Takes .closed (some (opening bracket)) (valueFrom inner (opening bracket)) fun taken _ _ =>
      ∃ body, taken = opening bracket :: body ∧ Body bracket true body := by
  cases bracket with
  | list =>
    refine Takes.map (takes_list ?_ [])
    intro read hread position result next
    obtain ⟨reader, hreader, rfl⟩ := Option.map_eq_some_iff.mp hread
    exact (hinner reader hreader next).map
  | object =>
    refine Takes.map (takes_object ?_ [])
    intro read hread key result next
    obtain ⟨reader, hreader, rfl⟩ := Option.map_eq_some_iff.mp hread
    exact (hinner reader hreader next).map

/-- The rest of a word that is a value. -/
theorem takes_rest_of_word {c : Char} {rest : List Char} (hword : c :: rest ∈ words)
    (value : Json) :
    Takes .ahead (some c) (do eat; word rest; pure value) fun taken _ _ => Value taken := by
  apply Takes.eat
  intro after
  refine (takes_word rest after).bind ?_
  intro taken _ after' htaken
  apply Takes.pure
  rw [htaken, List.append_nil]
  exact .word hword

theorem takes_valueFrom {inner : Option (Reader Json)}
    (hinner : ∀ reader ∈ inner, TakesValues reader) (c : Char) :
    Takes .ahead (some c) (valueFrom inner c) fun taken _ _ => Value taken := by
  have henclosed : ∀ bracket, Takes .ahead (some (opening bracket))
      (valueFrom inner (opening bracket)) fun taken _ _ => Value taken := by
    intro bracket
    refine (takes_valueFrom_opening hinner bracket).ahead.mono ?_
    intro taken _ _ htaken
    obtain ⟨body, rfl, hbody⟩ := htaken
    exact .enclosed hbody
  unfold valueFrom
  split
  · exact takes_rest_of_word (by decide) _
  · exact takes_rest_of_word (by decide) _
  · exact takes_rest_of_word (by decide) _
  · apply Takes.eat
    intro after
    apply Takes.map
    refine (takes_textBody after).mono ?_
    intro taken _ _ htaken
    exact .text htaken
  · exact henclosed .list
  · exact henclosed .object
  · split
    · apply Takes.map
      refine (takes_number _).mono ?_
      intro taken _ _ htaken
      exact .number htaken
    · exact Takes.stop

theorem takesValues_valueWith {inner : Option (Reader Json)}
    (hinner : ∀ reader ∈ inner, TakesValues reader) : TakesValues (valueWith inner) := by
  intro next
  rw [valueWith_eq]
  refine (takes_valueStart next).bind ?_
  intro gap c after hgap
  obtain ⟨hgap, rfl⟩ := hgap
  refine (takes_valueFrom hinner c).mono ?_
  intro taken _ _ htaken
  exact ⟨gap, taken, rfl, hgap, htaken⟩

/-- The induction is on the levels that are left. -/
theorem takesValues_value (depth : Nat) : TakesValues (value depth) := by
  induction depth with
  | zero =>
    apply takesValues_valueWith
    intro reader hreader
    cases hreader
  | succ depth ih =>
    apply takesValues_valueWith
    intro reader hreader
    cases hreader
    exact ih

/-! ## Lists and objects -/

/-- The values that hold others. -/
def IsEnclosed : Json → Prop
  | .list _ | .object _ => True
  | _ => False

/-- Nothing but a bracket begins a value that holds others. -/
theorem opening_of_isEnclosed {inner : Option (Reader Json)} {c : Char} {value : Json}
    {text rest : List Char} (hrun : valueFrom inner c text = .ok value rest)
    (henclosed : IsEnclosed value) : ∃ bracket, c = opening bracket := by
  have hword : ∀ (expected : List Char) (result : Json),
      (do eat; word expected; pure result : Reader Json) text = .ok value rest →
      value = result := by
    intro expected result h
    obtain ⟨_, middle, -, h⟩ := bind_eq_ok_iff.mp h
    obtain ⟨_, middle', -, h⟩ := bind_eq_ok_iff.mp h
    cases h
    rfl
  unfold valueFrom at hrun
  split at hrun
  · rw [hword _ _ hrun] at henclosed
    exact henclosed.elim
  · rw [hword _ _ hrun] at henclosed
    exact henclosed.elim
  · rw [hword _ _ hrun] at henclosed
    exact henclosed.elim
  · obtain ⟨_, middle, -, h⟩ := bind_eq_ok_iff.mp hrun
    obtain ⟨_, -, rfl⟩ := map_eq_ok_iff.mp h
    exact henclosed.elim
  · exact ⟨.list, rfl⟩
  · exact ⟨.object, rfl⟩
  · split at hrun
    · obtain ⟨_, -, rfl⟩ := map_eq_ok_iff.mp hrun
      exact henclosed.elim
    · cases hrun

theorem valueWith_enclosed {inner : Option (Reader Json)}
    (hinner : ∀ reader ∈ inner, TakesValues reader) {text rest : List Char} {value : Json}
    (hrun : valueWith inner text = .ok value rest) (henclosed : IsEnclosed value) :
    ∃ bracket before body, text = before ++ (opening bracket :: body) ++ rest ∧ Blank before ∧
      Body bracket true body ∧
      ∀ tail, valueWith inner (before ++ (opening bracket :: body) ++ tail) = .ok value tail := by
  rw [valueWith_eq] at hrun ⊢
  obtain ⟨c, middle, hstart, hvalue⟩ := bind_eq_ok_iff.mp hrun
  obtain ⟨bracket, rfl⟩ := opening_of_isEnclosed hvalue henclosed
  obtain ⟨before, rfl, -, ⟨hbefore, hhead⟩, hagain⟩ := takes_valueStart _ text _ middle rfl hstart
  obtain ⟨taken, rfl, -, ⟨body, rfl, hbody⟩, hagain'⟩ :=
    takes_valueFrom_opening hinner bracket middle value rest hhead hvalue
  refine ⟨bracket, before, body, (List.append_assoc ..).symm, hbefore, hbody, ?_⟩
  intro tail
  rw [List.append_assoc, bind_eq_ok_iff]
  exact ⟨_, opening bracket :: body ++ tail, hagain _ rfl, hagain' tail trivial⟩

/-- A list or an object that has been read stands at the front of the text, and
is read in front of any other text in the same way. -/
theorem value_enclosed {depth : Nat} {text rest : List Char} {value : Json}
    (hrun : Reader.value depth text = .ok value rest) (henclosed : IsEnclosed value) :
    ∃ bracket before body, text = before ++ (opening bracket :: body) ++ rest ∧ Blank before ∧
      Body bracket true body ∧
      ∀ tail, Reader.value depth (before ++ (opening bracket :: body) ++ tail) =
        .ok value tail := by
  cases depth with
  | zero =>
    refine valueWith_enclosed ?_ hrun henclosed
    intro reader hreader
    cases hreader
  | succ depth =>
    refine valueWith_enclosed ?_ hrun henclosed
    intro reader hreader
    cases hreader
    exact takesValues_value depth

end Reader

end Json

end ComponentProps
