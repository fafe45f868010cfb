import FpgaPacking.Proofs.Arena.Contents
import Mathlib.Logic.Function.Basic

/-!
# The history of an arena

What an arena answers can be told without its slots and its counter.  A register has
the handles that were given out, in the order in which they were, and for each handle an
object or none.  It gives out any handle that is new to it, and what it lists and counts
is read off the map each time.  An arena answers every call like the register that it
stands for, and so it does in every history of calls.

That a removed object never comes back is a fact about registers: only an allocation
could bring it back, and an allocation goes to a new handle.
-/

namespace FpgaPacking
namespace Arena

/-! ## Calls and answers

A call that only looks leaves the arena as it is.  A call that changes an object answers with the
object as it was before. -/

inductive Call (k : Kind) (α : Type) where
  | alloc (item : α)
  | get (id : Id k)
  /-- Looks at the object of a handle and changes it. -/
  | modify (id : Id k) (f : α → α)
  | remove (id : Id k)
  | contains (id : Id k)
  | len
  | iter
  | ids

inductive Answer (k : Kind) (α : Type) where
  | handle (id : Id k)
  | object (item : Option α)
  | known (live : Bool)
  | count (n : Nat)
  | entries (entries : List (Id k × α))
  | handles (ids : List (Id k))
deriving DecidableEq

def Call.allocates {k : Kind} {α : Type} : Call k α → Bool
  | .alloc _ => true
  | .get _ | .modify _ _ | .remove _ | .contains _ | .len | .iter | .ids => false

/-- The handle that was given out, if one was. -/
def Answer.handle? {k : Kind} {α : Type} : Answer k α → Option (Id k)
  | .handle id => some id
  | .object _ | .known _ | .count _ | .entries _ | .handles _ => none

section Calls

variable {k : Kind} {α : Type} (arena : Arena k α)

def act : Call k α → Arena k α
  | .alloc item => (arena.alloc item).2
  | .modify id f => arena.modify id f
  | .remove id => (arena.remove id).2
  | .get _ | .contains _ | .len | .iter | .ids => arena

def answer : Call k α → Answer k α
  | .alloc item => .handle (arena.alloc item).1
  | .get id | .modify id _ => .object (arena.get? id)
  | .remove id => .object (arena.remove id).1
  | .contains id => .known (arena.contains id)
  | .len => .count arena.live
  | .iter => .entries arena.entries
  | .ids => .handles arena.ids

/-- The arena after calls, one after the other. -/
def after (calls : List (Call k α)) : Arena k α := calls.foldl act arena

/-- The answers to calls, one after the other. -/
def answers (arena : Arena k α) : List (Call k α) → List (Answer k α)
  | [] => []
  | call :: rest => arena.answer call :: (arena.act call).answers rest

/-- How many handles the calls ask for. -/
def allocations (calls : List (Call k α)) : Nat := calls.countP Call.allocates

/-- The handles that the answers give out, in this order. -/
def returned (answers : List (Answer k α)) : List (Id k) := answers.filterMap Answer.handle?

theorem after_append (calls later : List (Call k α)) :
    arena.after (calls ++ later) = (arena.after calls).after later :=
  List.foldl_append

theorem allocations_cons (call : Call k α) (rest : List (Call k α)) :
    allocations (call :: rest) = allocations [call] + allocations rest := by
  unfold allocations
  rw [← List.countP_append, List.singleton_append]

theorem returned_cons (answer : Answer k α) (rest : List (Answer k α)) :
    returned (answer :: rest) = returned [answer] ++ returned rest := by
  unfold returned
  rw [← List.filterMap_append, List.singleton_append]

end Calls

/-! ## Registers -/

/-- A map from handles to objects that remembers in which order the handles came. -/
structure Register (k : Kind) (α : Type) where
  /-- The handles that were given out, in this order. -/
  given : List (Id k)
  item? : Id k → Option α

namespace Register

section Definitions

variable {k : Kind} {α : Type} (r : Register k α)

def empty : Register k α := ⟨[], fun _ => none⟩

/-- Enters an object under a new handle. -/
def enter (id : Id k) (item : α) : Register k α :=
  ⟨r.given ++ [id], Function.update r.item? id (some item)⟩

/-- Writes what there is under a handle. -/
def write (id : Id k) (item : Option α) : Register k α :=
  { r with item? := Function.update r.item? id item }

/-- The objects with their handles, in the order in which the handles were given out. -/
def entries : List (Id k × α) :=
  r.given.filterMap fun id => (r.item? id).map fun item => (id, item)

/-- The handles that have objects, in the order in which they were given out. -/
def ids : List (Id k) := r.given.filter fun id => (r.item? id).isSome

end Definitions

/-- The register answers the call and turns into another. -/
inductive Answers {k : Kind} {α : Type} :
    Register k α → Call k α → Answer k α → Register k α → Prop
  | alloc {r : Register k α} {item : α} {id : Id k} (hnew : id ∉ r.given) :
      Answers r (.alloc item) (.handle id) (r.enter id item)
  | get {r : Register k α} {id : Id k} : Answers r (.get id) (.object (r.item? id)) r
  | modify {r : Register k α} {id : Id k} {f : α → α} :
      Answers r (.modify id f) (.object (r.item? id)) (r.write id ((r.item? id).map f))
  | remove {r : Register k α} {id : Id k} :
      Answers r (.remove id) (.object (r.item? id)) (r.write id none)
  | contains {r : Register k α} {id : Id k} :
      Answers r (.contains id) (.known (r.item? id).isSome) r
  | len {r : Register k α} : Answers r .len (.count r.ids.length) r
  | iter {r : Register k α} : Answers r .iter (.entries r.entries) r
  | ids {r : Register k α} : Answers r .ids (.handles r.ids) r

/-- The register answers the calls, one after the other. -/
inductive Follows {k : Kind} {α : Type} :
    Register k α → List (Call k α) → List (Answer k α) → Register k α → Prop
  | nil (r : Register k α) : Follows r [] [] r
  | cons {r r' r'' : Register k α} {call : Call k α} {answer : Answer k α}
      {calls : List (Call k α)} {answers : List (Answer k α)} (hfirst : Answers r call answer r')
      (hrest : Follows r' calls answers r'') : Follows r (call :: calls) (answer :: answers) r''

section Histories

variable {k : Kind} {α : Type} {r r' : Register k α} {call : Call k α} {answer : Answer k α}
  {calls : List (Call k α)} {answers : List (Answer k α)} {id : Id k}

theorem item?_enter {new : Id k} {item : α} :
    (r.enter new item).item? id = if id = new then some item else r.item? id :=
  Function.update_apply _ _ _ _

theorem item?_write {other : Id k} {item : Option α} :
    (r.write other item).item? id = if id = other then item else r.item? id :=
  Function.update_apply _ _ _ _

theorem Answers.given (h : Answers r call answer r') :
    r'.given = r.given ++ returned [answer] := by
  cases h with
  | alloc => rfl
  | get | modify | remove | contains | len | iter | ids => exact (List.append_nil _).symm

/-- A register remembers the handles that its answers give out. -/
theorem Follows.given (h : Follows r calls answers r') :
    r'.given = r.given ++ returned answers := by
  induction h with
  | nil r => exact (List.append_nil _).symm
  | @cons _ _ _ _ answer _ answers hfirst _ ih =>
    rw [ih, hfirst.given, returned_cons answer answers, List.append_assoc]

theorem Answers.length_returned (h : Answers r call answer r') :
    (returned [answer]).length = allocations [call] := by
  cases h <;> rfl

/-- A handle is given out for each allocation and for nothing else. -/
theorem Follows.length_returned (h : Follows r calls answers r') :
    (returned answers).length = allocations calls := by
  induction h with
  | nil r => rfl
  | @cons _ _ _ call answer calls answers hfirst _ ih =>
    rw [returned_cons answer answers, List.length_append, hfirst.length_returned, ih,
      allocations_cons call calls]

theorem Answers.absent (h : Answers r call answer r') (hgiven : id ∈ r.given)
    (hnone : r.item? id = none) : r'.item? id = none := by
  cases h with
  | @alloc item new hnew =>
    -- The only call that puts an object where there was none, but it does so under a new handle.
    have hne : id ≠ new := fun heq => hnew (heq ▸ hgiven)
    rw [item?_enter, if_neg hne, hnone]
  | @modify other f =>
    rw [item?_write]
    split
    · next ho => rw [← ho, hnone, Option.map_none]
    · exact hnone
  | @remove other =>
    rw [item?_write]
    split
    · rfl
    · exact hnone
  | get | contains | len | iter | ids => exact hnone

/-- A handle that was given out and has no object never has one again. -/
theorem Follows.absent (h : Follows r calls answers r') (hgiven : id ∈ r.given)
    (hnone : r.item? id = none) : r'.item? id = none := by
  induction h with
  | nil r => exact hnone
  | cons hfirst _ ih =>
    refine ih ?_ (hfirst.absent hgiven hnone)
    rw [hfirst.given]
    exact List.mem_append_left _ hgiven

end Histories
end Register

/-! ## The count of the live objects -/

section Count

variable {k : Kind} {α : Type} (arena : Arena k α)

/-- The counter of the arena is the number of the handles that it lists. -/
def Counted : Prop := arena.live = arena.ids.length

theorem counted_empty : (empty : Arena k α).Counted := rfl

theorem ids_alloc (item : α) : (arena.alloc item).2.ids = arena.ids ++ [arena.next] := by
  have hfound (id : Id k) : (arena.alloc item).2.get? id =
    if id = arena.next then some item else arena.get? id := get?_alloc arena item id
  have hold : ∀ id ∈ arena.given,
      ((arena.alloc item).2.get? id).isSome = (arena.get? id).isSome := by
    intro id hid
    rw [hfound, if_neg (ne_of_mem_of_not_mem hid arena.next_notMem_given)]
  have hnew : ((arena.alloc item).2.get? arena.next).isSome := by
    rw [hfound, if_pos rfl]
    rfl
  rw [ids_eq_filter, ids_eq_filter, given_alloc, List.filter_append, List.filter_congr hold,
    List.filter_singleton, hnew, cond_true]

theorem ids_modify (id : Id k) (f : α → α) : (arena.modify id f).ids = arena.ids := by
  refine ids_eq fun other => ?_
  rw [mem_ids, mem_ids, get?_modify]
  split
  · next ho => rw [ho, Option.isSome_map]
  · rfl

theorem ids_remove (id : Id k) : (arena.remove id).2.ids = arena.ids.erase id := by
  rw [arena.nodup_ids.erase_eq_filter, ids_eq_filter, ids_eq_filter, given_remove,
    List.filter_filter]
  refine List.filter_congr fun other _ => ?_
  rw [get?_remove]
  by_cases ho : other = id
  · simp [ho]
  · simp [ho]

theorem live_remove (id : Id k) :
    (arena.remove id).2.live = if (arena.get? id).isSome then arena.live - 1 else arena.live := by
  unfold remove
  cases arena.get? id <;> rfl

variable {arena}

theorem Counted.act (h : arena.Counted) (call : Call k α) : (arena.act call).Counted := by
  cases call with
  | alloc item =>
    show arena.live + 1 = (arena.alloc item).2.ids.length
    rw [ids_alloc, List.length_append, h]
    rfl
  | modify id f =>
    show arena.live = (arena.modify id f).ids.length
    rw [ids_modify, h]
  | remove id =>
    show (arena.remove id).2.live = (arena.remove id).2.ids.length
    -- The counter goes down exactly if the handle is listed.
    rw [ids_remove, live_remove, List.length_erase, h]
    by_cases hlive : (arena.get? id).isSome
    · rw [if_pos hlive, if_pos (arena.mem_ids.mpr hlive)]
    · rw [if_neg hlive, if_neg (mt arena.mem_ids.mp hlive)]
  | get | contains | len | iter | ids => exact h

theorem Counted.after (h : arena.Counted) (calls : List (Call k α)) :
    (arena.after calls).Counted := by
  induction calls generalizing arena with
  | nil => exact h
  | cons call rest ih => exact ih (h.act call)

end Count

/-! ## The register of an arena -/

section Refinement

variable {k : Kind} {α : Type} (arena : Arena k α)

/-- The register that an arena stands for. -/
def register : Register k α := ⟨arena.given, arena.get?⟩

theorem register_alloc (item : α) :
    (arena.alloc item).2.register = arena.register.enter arena.next item := by
  have hitem : (arena.alloc item).2.get? = Function.update arena.get? arena.next (some item) := by
    funext id
    rw [get?_alloc, Function.update_apply]
    rfl
  unfold register Register.enter
  rw [given_alloc, hitem]

theorem register_modify (id : Id k) (f : α → α) :
    (arena.modify id f).register = arena.register.write id ((arena.get? id).map f) := by
  have hitem : (arena.modify id f).get? =
      Function.update arena.get? id ((arena.get? id).map f) := by
    funext other
    rw [get?_modify, Function.update_apply]
  unfold register Register.write
  rw [given_modify, hitem]

theorem register_remove (id : Id k) :
    (arena.remove id).2.register = arena.register.write id none := by
  have hitem : (arena.remove id).2.get? = Function.update arena.get? id none := by
    funext other
    rw [get?_remove, Function.update_apply]
  unfold register Register.write
  rw [given_remove, hitem]

theorem remove_fst (id : Id k) : (arena.remove id).1 = arena.get? id := by
  unfold remove
  cases arena.get? id <;> rfl

variable {arena}

/-- Removing what is not there changes nothing. -/
theorem remove_of_absent {id : Id k} (h : arena.get? id = none) :
    arena.remove id = (none, arena) := by
  unfold remove
  rw [h]

/-- An arena answers like the register that it stands for. -/
theorem Counted.answers_act (h : arena.Counted) (call : Call k α) :
    Register.Answers arena.register call (arena.answer call) (arena.act call).register := by
  cases call with
  | alloc item =>
    show Register.Answers _ _ _ (arena.alloc item).2.register
    rw [register_alloc]
    exact .alloc arena.next_notMem_given
  | get id => exact .get
  | modify id f =>
    show Register.Answers _ _ _ (arena.modify id f).register
    rw [register_modify]
    exact .modify
  | remove id =>
    show Register.Answers _ _ (.object (arena.remove id).1) (arena.remove id).2.register
    rw [register_remove, remove_fst]
    exact .remove
  | contains id => exact .contains
  | len =>
    -- The one answer that is not read off the slots.
    have hlen : arena.live = arena.register.ids.length := by
      rw [h, ids_eq_filter]
      rfl
    show Register.Answers _ _ (.count arena.live) _
    rw [hlen]
    exact .len
  | iter =>
    show Register.Answers _ _ (.entries arena.entries) _
    rw [entries_eq_filterMap]
    exact .iter
  | ids =>
    show Register.Answers _ _ (.handles arena.ids) _
    rw [ids_eq_filter]
    exact .ids

theorem Counted.follows (h : arena.Counted) (calls : List (Call k α)) :
    Register.Follows arena.register calls (arena.answers calls) (arena.after calls).register := by
  induction calls generalizing arena with
  | nil => exact .nil _
  | cons call rest ih => exact .cons (h.answers_act call) (ih (h.act call))

/-- A handle that was given out has no object once it was asked to be removed. -/
theorem Counted.get?_after_remove (h : arena.Counted) {id : Id k} (hid : id ∈ arena.given)
    (later : List (Call k α)) : (arena.after (.remove id :: later)).get? id = none := by
  have hgone : (arena.remove id).2.get? id = none := by rw [get?_remove, if_pos rfl]
  have hgiven : id ∈ (arena.remove id).2.given := by rwa [given_remove]
  exact ((h.act (.remove id)).follows later).absent hgiven hgone

/-- Whatever is asked of an arena from its creation on, the answers are those of a register: each
allocation gives out a handle that was not given out before.  The handles are numbered in this
order, so 32 bits hold them as long as there are fewer than `2 ^ 32` allocations.  A handle that
was given out and then removed has no object ever after, and removing a handle without an object
changes nothing.  Both listings have exactly the handles with objects, in the order in which they
were given out, and the counter says how many these are. -/
theorem history_refines_register (calls : List (Call k α)) :
    ∃ r : Register k α,
      Register.Follows .empty calls (empty.answers calls) r ∧
      r.given = returned (empty.answers calls) ∧
      r.given.map (·.index) = List.range (allocations calls) ∧
      (∀ id ∈ r.given, ∀ later, (empty.after (calls ++ .remove id :: later)).get? id = none) ∧
      (∀ id, r.item? id = none → (empty.after calls).remove id = (none, empty.after calls)) ∧
      (∀ id item, (id, item) ∈ (empty.after calls).entries ↔ r.item? id = some item) ∧
      (∀ id, id ∈ (empty.after calls).ids ↔ (r.item? id).isSome) ∧
      (empty.after calls).entries.map (·.1) = (empty.after calls).ids ∧
      (empty.after calls).ids.Sublist r.given ∧
      (empty.after calls).live = (empty.after calls).ids.length := by
  have hcounted := counted_empty.after calls
  have hfollows : Register.Follows .empty calls (empty.answers calls) _ :=
    counted_empty.follows calls
  have hgiven : (empty.after calls).given = returned (empty.answers calls) := hfollows.given
  refine ⟨(empty.after calls).register, hfollows, hgiven, ?_, fun id hid later => ?_,
    fun id hid => remove_of_absent hid, fun id item => mem_entries _ id item,
    fun id => mem_ids _, rfl, ?_, hcounted⟩
  · show (empty.after calls).given.map _ = _
    rw [index_given, hgiven, hfollows.length_returned]
  · rw [after_append]
    exact hcounted.get?_after_remove hid later
  · rw [ids_eq_filter]
    exact List.filter_sublist

end Refinement

/-! ## Handles that were removed and handles that never were -/

namespace Vacated

/-- The first handle is removed twice and asked for again; the eighth is never given out. -/
def calls : List (Call .cell String) :=
  [.alloc "a", .alloc "b", .remove ⟨0⟩, .remove ⟨0⟩, .remove ⟨7⟩, .alloc "c",
    .modify ⟨0⟩ fun _ => "d", .modify ⟨1⟩ fun _ => "e", .contains ⟨0⟩, .get ⟨7⟩, .len, .iter, .ids]

theorem vacated_register :
    empty.answers calls =
      [.handle ⟨0⟩, .handle ⟨1⟩, .object (some "a"), .object none, .object none, .handle ⟨2⟩,
        .object none, .object (some "b"), .known false, .object none, .count 2,
        .entries [(⟨1⟩, "e"), (⟨2⟩, "c")], .handles [⟨1⟩, ⟨2⟩]] ∧
    ∃ r : Register .cell String, Register.Follows .empty calls (empty.answers calls) r ∧
      r.given = [⟨0⟩, ⟨1⟩, ⟨2⟩] ∧ r.item? ⟨1⟩ = some "e" ∧
      ∀ later, (empty.after (calls ++ .remove ⟨0⟩ :: later)).get? ⟨0⟩ = none := by
  refine ⟨by decide, ?_⟩
  obtain ⟨r, hfollows, hgiven, -, hgone, -, hentries, -⟩ := history_refines_register calls
  have hthree : r.given = [⟨0⟩, ⟨1⟩, ⟨2⟩] := hgiven.trans (by decide)
  exact ⟨r, hfollows, hthree, (hentries _ _).mp (by decide), hgone _ (by simp [hthree])⟩

end Vacated
end Arena
end FpgaPacking
