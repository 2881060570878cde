import ComponentProps.Proofs.Binding.Step
import Mathlib.Data.List.Nodup

/-!
# Sessions of one mint

A mint may serve any number of calls: requests for single placeholders, and whole
bindings, which may stop half way.  All the names that it has handed out in a
session are different, and they are the names that it remembers.

* `Mint.HandsOut`: a mint hands out placeholders one after the other.
* `issuedSlots`: the placeholders that a binding gets from its mint, whether or
  not it stops; `handsOut_bindSlots` says that this is all it does to the mint,
  and `map_name_issuedSlots` that their names are the ones it returns.
* `Session.call`, `Session.run`: the calls of a session, and what has been handed
  out until then.
* `Session.Fresh`: what holds after every call.  `Session.Fresh.call` is the step
  and `Session.Fresh.run` the induction over the calls.  Nothing is taken off the
  list of what has been handed out (`Session.handedOut_run`).
* `Session.run_fresh`: what holds of every session.
-/

namespace ComponentProps

open Properties

/-! ## Handing out -/

namespace Mint

/-- A mint hands out placeholders, in their order, and is another one afterwards. -/
inductive HandsOut : Mint → List Placeholder → Mint → Prop
  | nothing (mint : Mint) : HandsOut mint [] mint
  | issued {mint next last : Mint} {kind : PlaceholderKind} {name : String}
      {placeholder : Placeholder} {rest : List Placeholder}
      (h : mint.issue kind name = some (placeholder, next)) (hrest : HandsOut next rest last) :
      HandsOut mint (placeholder :: rest) last

theorem HandsOut.append {mint next last : Mint} {placeholders others : List Placeholder}
    (h : HandsOut mint placeholders next) (hothers : HandsOut next others last) :
    HandsOut mint (placeholders ++ others) last := by
  induction h with
  | nothing mint => exact hothers
  | issued h _ ih => exact .issued h (ih hothers)

/-- What a mint issues has the name that it was asked for, which was new. -/
theorem issue_eq_some_iff {mint next : Mint} {kind : PlaceholderKind} {name : String}
    {placeholder : Placeholder} :
    mint.issue kind name = some (placeholder, next) ↔
      name ∉ mint.names ∧ placeholder = ⟨kind, name⟩ ∧ next = ⟨name :: mint.names⟩ := by
  unfold issue
  split <;> simp_all [eq_comm]

/-- The names that are handed out are remembered, the latest first. -/
theorem HandsOut.names_eq {mint last : Mint} {placeholders : List Placeholder}
    (h : HandsOut mint placeholders last) :
    last.names = (placeholders.map Placeholder.name).reverse ++ mint.names := by
  induction h with
  | nothing mint => rfl
  | issued h _ ih =>
    obtain ⟨-, rfl, rfl⟩ := issue_eq_some_iff.1 h
    rw [ih, List.map_cons, List.reverse_cons, List.append_assoc]
    rfl

/-- No name is handed out twice. -/
theorem HandsOut.nodup {mint last : Mint} {placeholders : List Placeholder}
    (h : HandsOut mint placeholders last) (hmint : mint.names.Nodup) : last.names.Nodup := by
  induction h with
  | nothing mint => exact hmint
  | issued h _ ih =>
    obtain ⟨hnew, -, rfl⟩ := issue_eq_some_iff.1 h
    exact ih (List.nodup_cons.2 ⟨hnew, hmint⟩)

end Mint

namespace Binding

mutual

/-- The placeholders that the mint hands out while a slot is bound. -/
def issuedSlot (path : String) : Slot → Literal → Mint → List Placeholder
  | .leaf tag, _, mint => ((mint.issue (PlaceholderKind.ofTag tag) path).map Prod.fst).toList
  | .nested slots, .object properties, mint => issuedSlots path slots properties mint
  | .nested _, _, _ => []

/-- The placeholders that the mint hands out while the slots of a shape are bound,
up to the obstacle if there is one. -/
def issuedSlots (path : String) :
    List (String × Slot) → Properties → Mint → List Placeholder
  | [], _, _ => []
  | (key, slot) :: rest, properties, mint =>
    let bound := bindKey path key slot properties mint
    issuedSlot (child path key) slot ((get? properties key).getD (fresh slot)) mint ++
      match bound.obstacle with
      | some _ => []
      | none => issuedSlots path rest (put properties key bound.target) bound.mint

end

mutual

theorem handsOut_bindSlot (path : String) :
    (slot : Slot) → (value : Literal) → (mint : Mint) →
      mint.HandsOut (issuedSlot path slot value mint) (bindSlot path slot value mint).mint
  | .leaf tag, value, mint => by
    rw [issuedSlot, bindSlot]
    cases hissue : mint.issue (PlaceholderKind.ofTag tag) path with
    | none => exact .nothing mint
    | some issued => exact .issued hissue (.nothing _)
  | .nested slots, value, mint => by
    by_cases h : ∃ properties, value = .object properties
    · obtain ⟨properties, rfl⟩ := h
      rw [issuedSlot, bindSlot_nested_object]
      exact handsOut_bindSlots path slots properties mint
    · rw [issuedSlot, bindSlot_nested_of_ne (not_exists.1 h)]
      · exact .nothing mint
      · exact not_exists.1 h

/-- Binding does nothing to the mint but to have placeholders issued. -/
theorem handsOut_bindSlots (path : String) :
    (slots : List (String × Slot)) → (properties : Properties) → (mint : Mint) →
      mint.HandsOut (issuedSlots path slots properties mint)
        (bindSlots path slots properties mint).mint
  | [], properties, mint => by
    rw [issuedSlots, bindSlots]
    exact .nothing mint
  | (key, slot) :: rest, properties, mint => by
    have hkey := handsOut_bindSlot (child path key) slot
      ((get? properties key).getD (fresh slot)) mint
    rw [← bindKey] at hkey
    rw [issuedSlots]
    cases h : (bindKey path key slot properties mint).obstacle with
    | some obstacle =>
      rw [bindSlots_cons_of_some h, List.append_nil]
      exact hkey
    | none =>
      rw [bindSlots_cons_of_none h]
      exact hkey.append (handsOut_bindSlots path rest _ _)

end

/-- The names that binding returns are those of the placeholders it was given. -/
theorem map_name_issuedSlots (path : String) (slots : List (String × Slot))
    (properties : Properties) (mint : Mint) :
    (issuedSlots path slots properties mint).map Placeholder.name =
      (bindSlots path slots properties mint).names := by
  have hissued := (handsOut_bindSlots path slots properties mint).names_eq
  rw [bindSlots_mint, List.append_cancel_right_eq] at hissued
  exact (List.reverse_injective hissued).symm

end Binding

/-! ## Sessions -/

/-- A call that a mint serves. -/
inductive MintCall where
  /-- A request for one placeholder. -/
  | issue (kind : PlaceholderKind) (name : String)
  /-- A binding of a shape into the properties of an object. -/
  | bind (shape : Shape) (root : String) (target : Properties)

/-- A mint, and the placeholders that it has handed out so far, in their order. -/
structure Session where
  mint : Mint
  handedOut : List Placeholder

namespace Session

/-- A session of a new mint. -/
def start : Session := ⟨Mint.empty, []⟩

/-- One call.  A request that is refused hands nothing out. -/
def call (session : Session) : MintCall → Session
  | .issue kind name =>
    match session.mint.issue kind name with
    | some (placeholder, mint) => ⟨mint, session.handedOut ++ [placeholder]⟩
    | none => session
  | .bind shape root target =>
    ⟨(shape.bind root target session.mint).mint,
      session.handedOut ++ Binding.issuedSlots root shape target session.mint⟩

/-- One call after the other. -/
def run (session : Session) (calls : List MintCall) : Session := calls.foldl call session

/-- What has been handed out has different names, and these are the names that the
mint remembers. -/
structure Fresh (session : Session) : Prop where
  names : session.mint.names = (session.handedOut.map Placeholder.name).reverse
  distinct : (session.handedOut.map Placeholder.name).Nodup

theorem fresh_start : start.Fresh := ⟨rfl, List.nodup_nil⟩

theorem Fresh.nodup_names {session : Session} (h : session.Fresh) :
    session.mint.names.Nodup := by
  rw [h.names, List.nodup_reverse]
  exact h.distinct

/-- Handing out keeps a session fresh. -/
theorem Fresh.handsOut {session : Session} (h : session.Fresh) {placeholders : List Placeholder}
    {mint : Mint} (hout : session.mint.HandsOut placeholders mint) :
    Fresh ⟨mint, session.handedOut ++ placeholders⟩ := by
  have hnames : mint.names =
      ((session.handedOut ++ placeholders).map Placeholder.name).reverse := by
    rw [hout.names_eq, h.names, List.map_append, List.reverse_append]
  have hdistinct := hout.nodup h.nodup_names
  rw [hnames, List.nodup_reverse] at hdistinct
  exact ⟨hnames, hdistinct⟩

/-- Every call hands something out, or nothing. -/
theorem exists_handsOut_call (session : Session) (call : MintCall) :
    ∃ placeholders, session.mint.HandsOut placeholders (session.call call).mint ∧
      (session.call call).handedOut = session.handedOut ++ placeholders := by
  cases call with
  | issue kind name =>
    rw [Session.call]
    cases hissue : session.mint.issue kind name with
    | none => exact ⟨[], .nothing _, (List.append_nil _).symm⟩
    | some issued => exact ⟨[issued.1], .issued hissue (.nothing _), rfl⟩
  | bind shape root target => exact ⟨_, Binding.handsOut_bindSlots root shape target _, rfl⟩

/-- One call keeps a session fresh. -/
theorem Fresh.call {session : Session} (h : session.Fresh) (call : MintCall) :
    (session.call call).Fresh := by
  obtain ⟨placeholders, hout, hhanded⟩ := session.exists_handsOut_call call
  have hfresh := h.handsOut hout
  rw [← hhanded] at hfresh
  exact hfresh

/-- A run of any length keeps a session fresh. -/
theorem Fresh.run {session : Session} (h : session.Fresh) (calls : List MintCall) :
    (session.run calls).Fresh := by
  induction calls generalizing session with
  | nil => exact h
  | cons call rest ih => exact ih (h.call call)

/-- What has been handed out stays on the list. -/
theorem handedOut_run (session : Session) (calls : List MintCall) :
    session.handedOut <+: (session.run calls).handedOut := by
  induction calls generalizing session with
  | nil => exact List.prefix_rfl
  | cons call rest ih =>
    obtain ⟨placeholders, -, hhanded⟩ := session.exists_handsOut_call call
    have hcall : session.handedOut <+: (session.call call).handedOut :=
      ⟨placeholders, hhanded.symm⟩
    exact hcall.trans (ih (session.call call))

/-- A name that the mint remembers is refused to requests and to bindings. -/
theorem refused_of_mem {mint : Mint} (hmint : mint.names.Nodup) {name : String}
    (h : name ∈ mint.names) :
    (∀ kind, mint.issue kind name = none) ∧
      ∀ (shape : Shape) (root : String) (target : Properties),
        name ∈ leafPaths root (Shape.sites shape) →
          (shape.bind root target mint).obstacle ≠ none := by
  refine ⟨fun kind => Mint.issue_eq_none_iff.2 h, ?_⟩
  intro shape root target hleaf hfree
  have hissued := Binding.bindSlots_mint root shape target mint
  rw [Binding.bindSlots_names root shape target mint hfree] at hissued
  have hnodup := (Binding.handsOut_bindSlots root shape target mint).nodup hmint
  rw [hissued, List.nodup_append] at hnodup
  exact hnodup.2.2 name (List.mem_reverse.2 hleaf) name h rfl

/-- In every session of calls to one mint, no name is handed out twice, and the mint
remembers the names that it has handed out and no others.  Just these are refused to
later requests, and a request that is refused changes nothing.  What a binding was
given before it stopped stays taken, whatever calls follow: no request and no binding
gets the name again. -/
theorem run_fresh (calls : List MintCall) :
    let session := start.run calls
    let taken := session.handedOut.map Placeholder.name
    taken.Nodup ∧ session.mint.names = taken.reverse ∧
    (∀ kind name, (session.mint.issue kind name = none ↔ name ∈ taken) ∧
      (session.mint.issue kind name = none → session.call (.issue kind name) = session)) ∧
    ∀ (shape : Shape) (root : String) (target : Properties) (later : List MintCall),
      (shape.bind root target session.mint).obstacle ≠ none →
        ∀ name ∈ (shape.bind root target session.mint).names,
          let afterwards := start.run (calls ++ .bind shape root target :: later)
          (∀ kind, afterwards.mint.issue kind name = none) ∧
            ∀ (other : Shape) (otherRoot : String) (otherTarget : Properties),
              name ∈ leafPaths otherRoot (Shape.sites other) →
                (other.bind otherRoot otherTarget afterwards.mint).obstacle ≠ none := by
  intro session taken
  have hfresh : session.Fresh := fresh_start.run calls
  refine ⟨hfresh.distinct, hfresh.names, ?_, ?_⟩
  · intro kind name
    refine ⟨?_, ?_⟩
    · rw [Mint.issue_eq_none_iff, hfresh.names, List.mem_reverse]
    · intro hrefused
      rw [call, hrefused]
  · intro shape root target later _ name hname afterwards
    have hafterwards : afterwards.Fresh := fresh_start.run _
    refine refused_of_mem hafterwards.nodup_names ?_
    have hsplit : afterwards = (session.call (.bind shape root target)).run later := by
      unfold afterwards session run
      rw [List.foldl_append, List.foldl_cons]
    have hkept := ((session.call (.bind shape root target)).handedOut_run later).subset
    rw [hafterwards.names, List.mem_reverse, hsplit]
    refine List.map_subset Placeholder.name hkept ?_
    rw [call, List.map_append, List.mem_append, Binding.map_name_issuedSlots]
    exact Or.inr hname

/-- A binding that stops at its second leaf keeps the name of the first one. -/
theorem run_fresh_stopped_binding :
    let calls : List MintCall := [.issue .number "p.x"]
    let shape : Shape := [("a", .leaf .any), ("x", .leaf .any)]
    let session := start.run (calls ++ [.bind shape "p" []])
    (shape.bind "p" [] (start.run calls).mint).obstacle = some (.duplicateName "p.x") ∧
      session.handedOut = [⟨.number, "p.x"⟩, ⟨.unknown, "p.a"⟩] ∧
      ∀ kind, session.mint.issue kind "p.a" = none := by
  intro calls shape session
  have hstop : (shape.bind "p" [] (start.run calls).mint).obstacle =
      some (.duplicateName "p.x") := by decide
  have htaken := (run_fresh calls).2.2.2 shape "p" [] [] (hstop ▸ Option.some_ne_none _)
    "p.a" (by decide)
  exact ⟨hstop, rfl, htaken.1⟩

end Session

end ComponentProps
