import ComponentProps.Json.Printer
import ComponentProps.Proofs.Json.Quoted
import ComponentProps.Proofs.Json.Values
import Mathlib

/-!
# What is written is read back

The reader takes what the pretty layout writes and gives the value that was
written, whatever follows, if the value is not nested deeper than the reader
goes.  Otherwise it stops with just this complaint.  Values with numbers are left
out: doubles are read with less care than they are written.

* `Json.nesting`: how many lists and objects of a value are open at once.
* `Reader.ReadsIf`: a reader reads what fits and refuses what is nested too deep,
  with one rule for each way of putting readers together.
* `Reader.readsIf_items`, `Reader.readsIf_members`: the loops, by induction on
  what is left of the list or the object.
* `Reader.readsIf_value`: every value, by induction on it.
* `parse_pretty`: whole texts.
-/

namespace ComponentProps

namespace Json

/-! ## Values and their texts -/

mutual

/-- The largest number of lists and objects of a value that are open at the same
time. -/
def nesting : Json → Nat
  | .list items => nestingItems items + 1
  | .object members => nestingMembers members + 1
  | _ => 0

/-- The deepest nesting among items. -/
def nestingItems : List Json → Nat
  | [] => 0
  | item :: rest => max item.nesting (nestingItems rest)

/-- The deepest nesting among the values of members. -/
def nestingMembers : List (String × Json) → Nat
  | [] => 0
  | (_, value) :: rest => max value.nesting (nestingMembers rest)

end

theorem nesting_list_le_iff {items : List Json} {depth : Nat} :
    (Json.list items).nesting ≤ depth + 1 ↔ ∀ item ∈ items, item.nesting ≤ depth := by
  rw [nesting, Nat.add_le_add_iff_right]
  induction items with
  | nil => simp [nestingItems]
  | cons item rest ih => rw [nestingItems, Nat.max_le, List.forall_mem_cons, ih]

theorem nesting_object_le_iff {members : List (String × Json)} {depth : Nat} :
    (Json.object members).nesting ≤ depth + 1 ↔
      ∀ member ∈ members, member.2.nesting ≤ depth := by
  rw [nesting, Nat.add_le_add_iff_right]
  induction members with
  | nil => simp [nestingMembers]
  | cons member rest ih => rw [nestingMembers, Nat.max_le, List.forall_mem_cons, ih]

/-- The values in which no number occurs. -/
inductive NumberFree : Json → Prop
  | null : NumberFree .null
  | bool (value : Bool) : NumberFree (.bool value)
  | text (value : String) : NumberFree (.text value)
  | list {items : List Json} (h : ∀ item ∈ items, NumberFree item) : NumberFree (.list items)
  | object {members : List (String × Json)} (h : ∀ member ∈ members, NumberFree member.2) :
      NumberFree (.object members)

mutual

/-- What follows a value has no part in how the value is written. -/
theorem prettyChars_append (level : Nat) :
    (value : Json) → (rest more : List Char) →
      prettyChars level value (rest ++ more) = prettyChars level value rest ++ more
  | .list [], rest, more | .object [], rest, more => by rw [prettyChars, prettyChars]; rfl
  | .list (item :: others), rest, more => by
    rw [prettyChars, prettyChars, ← List.cons_append, ← List.append_assoc,
      prettyItems_append level (item :: others), List.cons_append]
  | .object (member :: others), rest, more => by
    rw [prettyChars, prettyChars, ← List.cons_append, ← List.append_assoc,
      prettyMembers_append level (member :: others), List.cons_append]
  | .null, rest, more | .bool value, rest, more | .number value, rest, more
  | .text value, rest, more => by rw [prettyChars, prettyChars, List.append_assoc]

theorem prettyItems_append (level : Nat) :
    (items : List Json) → (rest more : List Char) →
      prettyItems level items (rest ++ more) = prettyItems level items rest ++ more
  | [], rest, more => by rw [prettyItems, prettyItems]
  | [item], rest, more => by
    rw [prettyItems, prettyItems, prettyChars_append (level + 1) item, List.append_assoc]
  | item :: next :: others, rest, more => by
    rw [prettyItems, prettyItems, prettyItems_append level (next :: others),
      ← List.cons_append, prettyChars_append (level + 1) item, List.append_assoc]

theorem prettyMembers_append (level : Nat) :
    (members : List (String × Json)) → (rest more : List Char) →
      prettyMembers level members (rest ++ more) = prettyMembers level members rest ++ more
  | [], rest, more => by rw [prettyMembers, prettyMembers]
  | [(key, value)], rest, more => by
    rw [prettyMembers, prettyMembers, prettyChars_append (level + 1) value]
    simp only [List.append_assoc, List.cons_append]
  | (key, value) :: next :: others, rest, more => by
    rw [prettyMembers, prettyMembers, prettyMembers_append level (next :: others),
      ← List.cons_append, prettyChars_append (level + 1) value]
    simp only [List.append_assoc, List.cons_append]

end

/-- A value begins with a character that is neither a blank nor closes anything. -/
theorem NumberFree.prettyChars_cons {value : Json} (h : value.NumberFree) (level : Nat)
    (rest : List Char) :
    ∃ c more, prettyChars level value rest = c :: more ∧ Reader.isBlank c = false ∧ c ≠ ']' := by
  cases h with
  | null => exact ⟨'n', 'u' :: 'l' :: 'l' :: rest, rfl, by decide, by decide⟩
  | bool value =>
    cases value with
    | true => exact ⟨'t', 'r' :: 'u' :: 'e' :: rest, rfl, by decide, by decide⟩
    | false => exact ⟨'f', 'a' :: 'l' :: 's' :: 'e' :: rest, rfl, by decide, by decide⟩
  | text value =>
    refine ⟨'"', value.toList.flatMap Text.escape ++ '"' :: rest, ?_, by decide, by decide⟩
    rw [prettyChars, Text.toList_quote, List.cons_append, List.append_assoc]
    rfl
  | @list items _ => cases items <;> exact ⟨'[', _, rfl, by decide, by decide⟩
  | @object members _ => cases members <;> exact ⟨'\x7b', _, rfl, by decide, by decide⟩

theorem blank_newline (level : Nat) : Grammar.Blank (newline level) := by
  intro c hc
  rcases List.mem_cons.1 hc with rfl | hc
  · decide
  · rw [List.eq_of_mem_replicate hc]
    decide

/-- The items of a list from the first or from a later one on, in front of `rest`. -/
def itemsFrom (first : Bool) (level : Nat) (items : List Json) (rest : List Char) : List Char :=
  match items with
  | [] => rest
  | item :: others =>
    (if first then [] else [',']) ++ prettyItems level (item :: others) rest

/-- The members of an object from the first or from a later one on, in front of
`rest`. -/
def membersFrom (first : Bool) (level : Nat) (members : List (String × Json))
    (rest : List Char) : List Char :=
  match members with
  | [] => rest
  | member :: others =>
    (if first then [] else [',']) ++ prettyMembers level (member :: others) rest

/-- One item, and those behind it. -/
theorem itemsFrom_cons (first : Bool) (level : Nat) (item : Json) (others : List Json)
    (rest : List Char) :
    itemsFrom first level (item :: others) rest =
      (if first then [] else [',']) ++
        (newline (level + 1) ++
          prettyChars (level + 1) item (itemsFrom false level others rest)) := by
  cases others <;> rfl

/-- One member, and those behind it. -/
theorem membersFrom_cons (first : Bool) (level : Nat) (key : String) (value : Json)
    (others : List (String × Json)) (rest : List Char) :
    membersFrom first level ((key, value) :: others) rest =
      (if first then [] else [',']) ++
        (newline (level + 1) ++ '"' :: (key.toList.flatMap Text.escape ++ '"' :: ':' :: ' ' ::
          prettyChars (level + 1) value (membersFrom false level others rest))) := by
  cases others <;>
    simp [membersFrom, prettyMembers, Text.toList_quote, List.append_assoc]

/-- Every item takes a line. -/
theorem length_le_itemsFrom (first : Bool) (level : Nat) (items : List Json)
    (rest : List Char) : items.length ≤ (itemsFrom first level items rest).length := by
  induction items generalizing first with
  | nil => exact Nat.zero_le _
  | cons item others ih =>
    have hothers := ih false
    have happend := prettyChars_append (level + 1) item [] (itemsFrom false level others rest)
    rw [List.nil_append] at happend
    rw [itemsFrom_cons, happend]
    simp only [newline, List.length_append, List.length_cons]
    omega

/-- Every member takes a line. -/
theorem length_le_membersFrom (first : Bool) (level : Nat) (members : List (String × Json))
    (rest : List Char) : members.length ≤ (membersFrom first level members rest).length := by
  induction members generalizing first with
  | nil => exact Nat.zero_le _
  | cons member others ih =>
    have hothers := ih false
    have happend :=
      prettyChars_append (level + 1) member.2 [] (membersFrom false level others rest)
    rw [List.nil_append] at happend
    rw [membersFrom_cons, happend]
    simp only [newline, List.length_append, List.length_cons]
    omega

namespace Reader

open Grammar

variable {α β : Type}

/-! ## Reading what fits -/

/-- On a text, a reader gives a value and leaves the rest if the value fits into
the levels that it has.  Otherwise it stops because the text is nested too
deep. -/
structure ReadsIf (fits : Prop) (reader : Reader α) (text : List Char) (value : α)
    (rest : List Char) : Prop where
  reads : fits → reader text = .ok value rest
  stops : ¬ fits → ∃ fault left,
    reader text = .error fault left ∧ fault.problem = .flaw .tooDeep

section Rules

variable {fits fits' : Prop} {reader : Reader α} {next : α → Reader β}
  {text middle rest : List Char} {value : α} {result : β}

theorem ReadsIf.of_iff (h : ReadsIf fits reader text value rest) (hiff : fits' ↔ fits) :
    ReadsIf fits' reader text value rest :=
  ⟨fun hfits => h.reads (hiff.1 hfits), fun hnot => h.stops fun hfits => hnot (hiff.2 hfits)⟩

theorem readsIf_of_eq_ok (h : reader text = .ok value rest) (hfits : fits) :
    ReadsIf fits reader text value rest := ⟨fun _ => h, fun hnot => absurd hfits hnot⟩

theorem bind_eq_error {fault : Fault} (h : reader text = .error fault rest) :
    (reader >>= next) text = .error fault rest := by
  show EStateM.bind reader next text = _
  rw [EStateM.bind, h]

theorem ReadsIf.of_eq {other : Reader α} {before : List Char}
    (h : ReadsIf fits reader text value rest) (heq : other before = reader text) :
    ReadsIf fits other before value rest :=
  ⟨fun hfits => heq.trans (h.reads hfits), by rw [heq]; exact h.stops⟩

/-- A run that cannot fail, and then another. -/
theorem ReadsIf.after (h : reader text = .ok value middle)
    (hnext : ReadsIf fits (next value) middle result rest) :
    ReadsIf fits (reader >>= next) text result rest := by
  refine hnext.of_eq ?_
  show EStateM.bind reader next text = _
  rw [EStateM.bind, h]

/-- Of two runs, each refuses what does not fit for it. -/
theorem ReadsIf.bind (h : ReadsIf fits reader text value middle)
    (hnext : ReadsIf fits' (next value) middle result rest) :
    ReadsIf (fits ∧ fits') (reader >>= next) text result rest := by
  by_cases hfits : fits
  · exact (ReadsIf.after (h.reads hfits) hnext).of_iff (and_iff_right hfits)
  · refine ⟨fun hboth => absurd hboth.1 hfits, ?_⟩
    intro _
    obtain ⟨fault, left, hstop, hdeep⟩ := h.stops hfits
    exact ⟨fault, left, bind_eq_error hstop, hdeep⟩

theorem ReadsIf.map (h : ReadsIf fits reader text value rest) (f : α → β) :
    ReadsIf fits (f <$> reader) text (f value) rest := by
  have hpure : ReadsIf True (pure (f value) : Reader β) rest (f value) rest :=
    readsIf_of_eq_ok rfl trivial
  rw [map_eq_pure_bind]
  exact (h.bind hpure).of_iff (and_true fits).symm.to_iff

theorem ReadsIf.within (h : ReadsIf fits reader text value rest) (segment : Segment) :
    ReadsIf fits (Reader.within segment reader) text value rest := by
  refine ⟨fun hfits => within_eq_ok_iff.2 (h.reads hfits), ?_⟩
  intro hnot
  obtain ⟨fault, left, hstop, hdeep⟩ := h.stops hnot
  refine ⟨fault.inside segment, left, ?_, hdeep⟩
  rw [Reader.within, hstop]

/-- Brackets are closed also behind a part that was refused, which stays refused. -/
theorem ReadsIf.enclosed {close : Reader Unit} (h : ReadsIf fits reader text value middle)
    (hclose : close middle = .ok () rest) :
    ReadsIf fits (Reader.enclosed reader close) text value rest := by
  refine ⟨fun hfits => enclosed_eq_ok_iff.2 ⟨middle, h.reads hfits, hclose⟩, ?_⟩
  intro hnot
  obtain ⟨fault, left, hstop, hdeep⟩ := h.stops hnot
  rw [Reader.enclosed, hstop]
  cases hclosed : close left with
  | ok _ end' => exact ⟨fault.settle end', end', by simp [hclosed], hdeep⟩
  | error _ end' => exact ⟨fault.settle end', end', by simp [hclosed], hdeep⟩

end Rules

/-! ## Between the parts -/

theorem skipBlanks_run {gap rest : List Char} (hgap : Blank gap)
    (hrest : rest.head?.any isBlank = false) : skipBlanks (gap ++ rest) = .ok () rest := by
  show EStateM.Result.ok () ((gap ++ rest).dropWhile isBlank) = .ok () rest
  rw [dropWhile_run hgap hrest]

theorem valueStart_cons {c : Char} {more : List Char} (hc : isBlank c = false) :
    valueStart (c :: more) = .ok c (c :: more) :=
  bind_eq_ok_iff.2 ⟨(), c :: more, skipBlanks_run blank_nil (by simpa using hc), rfl⟩

/-- The next item of a list, behind what stands between items. -/
theorem nextItem?_item (first : Bool) {gap more : List Char} {c : Char} (hgap : Blank gap)
    (hc : isBlank c = false) (hclose : c ≠ ']') :
    nextItem? first ((if first then [] else [',']) ++ (gap ++ c :: more)) =
      .ok true (c :: more) := by
  have hskip : skipBlanks (gap ++ c :: more) = .ok () (c :: more) :=
    skipBlanks_run hgap (by simpa using hc)
  cases first with
  | true =>
    refine bind_eq_ok_iff.2 ⟨(), c :: more, hskip, ?_⟩
    refine bind_eq_ok_iff.2 ⟨some c, c :: more, rfl, ?_⟩
    generalize hfound : some c = found
    split
    · cases hfound
    · exact absurd (Option.some.inj hfound) hclose
    · rfl
  | false =>
    refine bind_eq_ok_iff.2 ⟨(), ',' :: (gap ++ c :: more), skipBlanks_run blank_nil rfl, ?_⟩
    refine bind_eq_ok_iff.2 ⟨some ',', ',' :: (gap ++ c :: more), rfl, ?_⟩
    refine bind_eq_ok_iff.2 ⟨(), gap ++ c :: more, rfl, ?_⟩
    refine bind_eq_ok_iff.2 ⟨(), c :: more, hskip, ?_⟩
    refine bind_eq_ok_iff.2 ⟨some c, c :: more, rfl, ?_⟩
    generalize hfound : some c = found
    split
    · cases hfound
    · exact absurd (Option.some.inj hfound) hclose
    · rfl

/-- Behind the last item of a list its bracket follows. -/
theorem nextItem?_close (first : Bool) {gap rest : List Char} (hgap : Blank gap) :
    nextItem? first (gap ++ ']' :: rest) = .ok false (']' :: rest) :=
  bind_eq_ok_iff.2 ⟨(), ']' :: rest, skipBlanks_run hgap rfl, rfl⟩

theorem nextMember?_member (first : Bool) {gap more : List Char} (hgap : Blank gap) :
    nextMember? first ((if first then [] else [',']) ++ (gap ++ '"' :: more)) =
      .ok true ('"' :: more) := by
  have hskip : skipBlanks (gap ++ '"' :: more) = .ok () ('"' :: more) :=
    skipBlanks_run hgap rfl
  cases first with
  | true => exact bind_eq_ok_iff.2 ⟨(), '"' :: more, hskip, rfl⟩
  | false =>
    refine bind_eq_ok_iff.2 ⟨(), ',' :: (gap ++ '"' :: more), skipBlanks_run blank_nil rfl, ?_⟩
    refine bind_eq_ok_iff.2 ⟨some ',', ',' :: (gap ++ '"' :: more), rfl, ?_⟩
    refine bind_eq_ok_iff.2 ⟨(), gap ++ '"' :: more, rfl, ?_⟩
    exact bind_eq_ok_iff.2 ⟨(), '"' :: more, hskip, rfl⟩

/-- Behind the last member of an object its brace follows. -/
theorem nextMember?_close (first : Bool) {gap rest : List Char} (hgap : Blank gap) :
    nextMember? first (gap ++ '\x7d' :: rest) = .ok false ('\x7d' :: rest) :=
  bind_eq_ok_iff.2 ⟨(), '\x7d' :: rest, skipBlanks_run hgap rfl, rfl⟩

/-! ## Loops -/

/-- A value is read from what is written for it, in front of any rest. -/
def ReadsBack (reader : Reader Json) (depth level : Nat) (value : Json) : Prop :=
  ∀ rest, ReadsIf (value.nesting ≤ depth) reader (prettyChars level value rest) value rest

theorem readsIf_items {reader : Reader Json} {depth level : Nat} {items : List Json}
    (hfree : ∀ item ∈ items, item.NumberFree)
    (hread : ∀ item ∈ items, ReadsBack reader depth (level + 1) item)
    {budget gap : List Char} (hbudget : items.length ≤ budget.length) (hgap : Blank gap)
    (position : Nat) (result : List Json) (rest : List Char) :
    ReadsIf (∀ item ∈ items, item.nesting ≤ depth)
      (Reader.items (fun _ values => (· :: values) <$> reader) budget position result)
      (itemsFrom (position == 0) level items (gap ++ ']' :: rest))
      (items.reverse ++ result) (']' :: rest) := by
  induction items generalizing position result budget with
  | nil =>
    refine readsIf_of_eq_ok ?_ (by simp)
    unfold Reader.items
    exact bind_eq_ok_iff.2 ⟨false, ']' :: rest, nextItem?_close _ hgap, rfl⟩
  | cons item others ih =>
    rw [List.forall_mem_cons] at hfree hread
    obtain ⟨c, more, hcons, hblank, hclose⟩ := hfree.1.prettyChars_cons (level + 1)
      (itemsFrom false level others (gap ++ ']' :: rest))
    have hnext : nextItem? (position == 0)
        (itemsFrom (position == 0) level (item :: others) (gap ++ ']' :: rest)) =
        .ok true (c :: more) := by
      rw [itemsFrom_cons, hcons]
      exact nextItem?_item _ (blank_newline (level + 1)) hblank hclose
    rw [← hcons] at hnext
    have hitem := (hread.1 (itemsFrom false level others (gap ++ ']' :: rest))).map (· :: result)
    cases budget with
    | nil => simp at hbudget
    | cons _ budget =>
      have hlength : others.length ≤ budget.length := by simpa using hbudget
      have hothers := ih hfree.2 hread.2 hlength (position + 1) (item :: result)
      rw [List.forall_mem_cons, List.reverse_cons, List.append_assoc]
      unfold Reader.items
      exact .after hnext ((hitem.within (.index position)).bind hothers)

theorem readsIf_members {reader : Reader Json}
    (hspace : ∀ text, reader (' ' :: text) = reader text) {depth level : Nat}
    {members : List (String × Json)}
    (hread : ∀ member ∈ members, ReadsBack reader depth (level + 1) member.2)
    {budget gap : List Char} (hbudget : members.length ≤ budget.length) (hgap : Blank gap)
    (first : Bool) (result : List (String × Json)) (rest : List Char) :
    ReadsIf (∀ member ∈ members, member.2.nesting ≤ depth)
      (Reader.members (fun _ _ => none)
        (fun key members => (fun value => (key, value) :: members) <$> reader)
        budget first result)
      (membersFrom first level members (gap ++ '\x7d' :: rest))
      (members.reverse ++ result) ('\x7d' :: rest) := by
  induction members generalizing first result budget with
  | nil =>
    refine readsIf_of_eq_ok ?_ (by simp)
    unfold Reader.members
    exact bind_eq_ok_iff.2 ⟨false, _, within_eq_ok_iff.2 (nextMember?_close first hgap), rfl⟩
  | cons member others ih =>
    obtain ⟨key, value⟩ := member
    rw [List.forall_mem_cons] at hread
    generalize htail : membersFrom false level others (gap ++ '\x7d' :: rest) = tail
    have hnext : nextMember? first
        (membersFrom first level ((key, value) :: others) (gap ++ '\x7d' :: rest)) =
        .ok true ('"' :: (key.toList.flatMap Text.escape ++ '"' :: ':' :: ' ' ::
          prettyChars (level + 1) value tail)) := by
      rw [membersFrom_cons, htail]
      exact nextMember?_member first (blank_newline (level + 1))
    have hkey : (do eat; textBody : Reader String)
        ('"' :: (key.toList.flatMap Text.escape ++ '"' :: ':' :: ' ' ::
          prettyChars (level + 1) value tail)) =
        .ok key (':' :: ' ' :: prettyChars (level + 1) value tail) :=
      bind_eq_ok_iff.2 ⟨(), _, rfl, textBody_quote key _⟩
    have hcolon : colon (':' :: ' ' :: prettyChars (level + 1) value tail) =
        .ok () (' ' :: prettyChars (level + 1) value tail) := rfl
    have hmember := ((hread.1 tail).of_eq (hspace _)).map fun value => (key, value) :: result
    cases budget with
    | nil => simp at hbudget
    | cons _ budget =>
      have hlength : others.length ≤ budget.length := by simpa using hbudget
      have hothers := ih hread.2 hlength false ((key, value) :: result)
      rw [htail] at hothers
      rw [List.forall_mem_cons, List.reverse_cons, List.append_assoc]
      unfold Reader.members
      refine .after (within_eq_ok_iff.2 hnext) ?_
      refine .after (within_eq_ok_iff.2 hkey) ?_
      exact .after hcolon ((hmember.within (.key key)).bind hothers)

/-! ## Values -/

theorem value_space (depth : Nat) (text : List Char) :
    Reader.value depth (' ' :: text) = Reader.value depth text := by
  cases depth <;> rfl

/-- A list is read item by item if there is a level left for it. -/
theorem readsBack_list {items : List Json} (hfree : ∀ item ∈ items, item.NumberFree)
    (hread : ∀ item ∈ items, ∀ depth level, ReadsBack (Reader.value depth) depth level item)
    (depth level : Nat) : ReadsBack (Reader.value depth) depth level (.list items) := by
  intro rest
  obtain ⟨gap, hgap, htext⟩ : ∃ gap, Blank gap ∧ prettyChars level (.list items) rest =
      '[' :: itemsFrom true level items (gap ++ ']' :: rest) := by
    cases items with
    | nil => exact ⟨[], blank_nil, rfl⟩
    | cons item others => exact ⟨newline level, blank_newline level, rfl⟩
  rw [htext]
  cases depth with
  | zero => exact ⟨fun hfits => absurd hfits (by simp [nesting]), fun _ => ⟨_, _, rfl, rfl⟩⟩
  | succ depth =>
    have hlength := length_le_itemsFrom true level items (gap ++ ']' :: rest)
    have hitems := readsIf_items hfree (fun item hitem => hread item hitem depth (level + 1))
      hlength hgap 0 [] rest
    simp only [beq_self_eq_true, List.append_nil] at hitems
    generalize itemsFrom true level items (gap ++ ']' :: rest) = text at hitems ⊢
    have hlist : ReadsIf (∀ item ∈ items, item.nesting ≤ depth)
        (list (some fun _ values => (· :: values) <$> value depth) []) ('[' :: text)
        items.reverse rest := by
      rw [list_some_eq]
      exact .after rfl (.enclosed (.after rfl hitems) rfl)
    have hvalue := hlist.map fun values => Json.list values.reverse
    rw [List.reverse_reverse] at hvalue
    exact (ReadsIf.after (valueStart_cons (by decide)) hvalue).of_iff nesting_list_le_iff

/-- An object is read member by member if there is a level left for it. -/
theorem readsBack_object {members : List (String × Json)}
    (hread : ∀ member ∈ members, ∀ depth level,
      ReadsBack (Reader.value depth) depth level member.2)
    (depth level : Nat) : ReadsBack (Reader.value depth) depth level (.object members) := by
  intro rest
  obtain ⟨gap, hgap, htext⟩ : ∃ gap, Blank gap ∧ prettyChars level (.object members) rest =
      '\x7b' :: membersFrom true level members (gap ++ '\x7d' :: rest) := by
    cases members with
    | nil => exact ⟨[], blank_nil, rfl⟩
    | cons member others => exact ⟨newline level, blank_newline level, rfl⟩
  rw [htext]
  cases depth with
  | zero => exact ⟨fun hfits => absurd hfits (by simp [nesting]), fun _ => ⟨_, _, rfl, rfl⟩⟩
  | succ depth =>
    have hlength := length_le_membersFrom true level members (gap ++ '\x7d' :: rest)
    have hmembers := readsIf_members (value_space depth)
      (fun member hmember => hread member hmember depth (level + 1)) hlength hgap true [] rest
    rw [List.append_nil] at hmembers
    generalize membersFrom true level members (gap ++ '\x7d' :: rest) = text at hmembers ⊢
    have hobject : ReadsIf (∀ member ∈ members, member.2.nesting ≤ depth)
        (object (fun _ _ => none)
          (some fun key members => (fun value => (key, value) :: members) <$> value depth) [])
        ('\x7b' :: text) members.reverse rest := by
      rw [object_some_eq]
      exact .after rfl (.enclosed (.after rfl hmembers) rfl)
    have hvalue := hobject.map fun members => Json.object members.reverse
    rw [List.reverse_reverse] at hvalue
    exact (ReadsIf.after (valueStart_cons (by decide)) hvalue).of_iff nesting_object_le_iff

/-- A word or a string is read on every level. -/
theorem readsBack_of_valueWith {value : Json} {c : Char} {more : List Char → List Char}
    {level : Nat} (htext : ∀ rest, prettyChars level value rest = c :: more rest)
    (hc : isBlank c = false)
    (hread : ∀ inner rest, valueFrom inner c (c :: more rest) = .ok value rest)
    (hnesting : value.nesting = 0) (depth : Nat) :
    ReadsBack (Reader.value depth) depth level value := by
  intro rest
  refine readsIf_of_eq_ok ?_ (by omega)
  rw [htext]
  cases depth <;> exact bind_eq_ok_iff.2 ⟨c, _, valueStart_cons hc, hread _ rest⟩

/-- Every value is read back on every level that it fits into.  The induction is on
the value. -/
theorem readsBack_value {value : Json} (h : value.NumberFree) (depth level : Nat) :
    ReadsBack (Reader.value depth) depth level value := by
  induction h generalizing depth level with
  | null =>
    exact readsBack_of_valueWith (fun rest => rfl) (by decide) (fun _ _ => rfl) rfl depth
  | bool value =>
    cases value with
    | true =>
      exact readsBack_of_valueWith (fun rest => rfl) (by decide) (fun _ _ => rfl) rfl depth
    | false =>
      exact readsBack_of_valueWith (fun rest => rfl) (by decide) (fun _ _ => rfl) rfl depth
  | text text =>
    have htext (rest : List Char) : prettyChars level (.text text) rest =
        '"' :: (text.toList.flatMap Text.escape ++ '"' :: rest) := by
      rw [prettyChars, Text.toList_quote, List.cons_append, List.append_assoc]
      rfl
    refine readsBack_of_valueWith htext (by decide) ?_ rfl depth
    intro inner rest
    refine bind_eq_ok_iff.2 ⟨(), _, rfl, ?_⟩
    exact map_eq_ok_iff.2 ⟨text, textBody_quote text rest, rfl⟩
  | list hfree ih => exact readsBack_list hfree ih depth level
  | object _ ih => exact readsBack_object ih depth level

end Reader

/-! ## Texts -/

/-- The text of a value is read back, whatever follows it, if not more lists and
objects are open in it at once than the reader allows for, and refused for this
reason otherwise. -/
theorem parse_pretty {value : Json} (h : value.NumberFree) (more : String) :
    (value.nesting ≤ maxDepth → parse (value.pretty ++ more) = .ok value.distinct) ∧
      (maxDepth < value.nesting → ∃ path position,
        parse (value.pretty ++ more) = .error (.decode path (.flaw .tooDeep) position)) := by
  have htext : (value.pretty ++ more).toList = prettyChars 0 value more.toList := by
    rw [String.toList_append, pretty, String.toList_ofList, ← prettyChars_append,
      List.nil_append]
  have hread := Reader.readsBack_value h maxDepth 0 more.toList
  rw [← htext] at hread
  unfold parse
  constructor
  · intro hfits
    rw [hread.reads hfits]
  · intro hdeep
    obtain ⟨fault, left, hstop, hproblem⟩ := hread.stops (Nat.not_le.2 hdeep)
    rw [hstop, ← hproblem]
    exact ⟨_, _, rfl⟩

end Json

end ComponentProps
