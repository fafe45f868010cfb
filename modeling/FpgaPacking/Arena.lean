/-
Arenas: objects by handle, with removal.

An arena gives each object the next handle and never uses a handle twice.  The
slot of a removed object stays behind empty, so a handle refers to the object it
was given to or to nothing, and going through the slots is going through the
objects in the order of their creation.  The number of live objects is counted
beside the slots.
-/
import FpgaPacking.Identity

namespace FpgaPacking

/-- Objects of type `α` under handles of kind `k`. -/
structure Arena (k : Kind) (α : Type) where
  /-- One slot for every handle given out, empty once its object is removed. -/
  slots : Array (Option α)
  /-- The number of live objects. -/
  live : Nat
deriving DecidableEq

namespace Arena

variable {k : Kind} {α : Type}

/-- The arena that has not given out a handle. -/
def empty : Arena k α := ⟨#[], 0⟩

instance : Inhabited (Arena k α) := ⟨empty⟩

/-- The object of a handle. -/
def get? (arena : Arena k α) (id : Id k) : Option α := arena.slots[id.index]?.join

/-- Whether the handle has an object. -/
def contains (arena : Arena k α) (id : Id k) : Bool := (arena.get? id).isSome

/-- Stores an object under the next handle. -/
def alloc (arena : Arena k α) (item : α) : Id k × Arena k α :=
  (⟨arena.slots.size⟩, ⟨arena.slots.push (some item), arena.live + 1⟩)

/-- Changes the object of a handle.  A handle without an object changes nothing. -/
def modify (arena : Arena k α) (id : Id k) (f : α → α) : Arena k α :=
  { arena with slots := arena.slots.modify id.index (Option.map f) }

/-- Removes the object of a handle. -/
def remove (arena : Arena k α) (id : Id k) : Option α × Arena k α :=
  match arena.get? id with
  | some item => (some item, ⟨arena.slots.modify id.index fun _ => none, arena.live - 1⟩)
  | none => (none, arena)

/-- The live objects with their handles, in order of creation. -/
def entries (arena : Arena k α) : List (Id k × α) :=
  arena.slots.toList.zipIdx.filterMap fun slot => slot.1.map fun item => (⟨slot.2⟩, item)

/-- The handles of the live objects, in order of creation. -/
def ids (arena : Arena k α) : List (Id k) := arena.entries.map (·.1)

/-- The first live object that satisfies `p`. -/
def find? (arena : Arena k α) (p : α → Bool) : Option (Id k) :=
  (arena.entries.find? fun entry => p entry.2).map (·.1)

/-! ## Lookups -/

@[simp] theorem get?_empty (id : Id k) : (empty : Arena k α).get? id = none := rfl

/-- The new object is found under the next handle, and nothing else changes. -/
theorem get?_alloc (arena : Arena k α) (item : α) (id : Id k) :
    (arena.alloc item).2.get? id =
      if id = (arena.alloc item).1 then some item else arena.get? id := by
  obtain ⟨i⟩ := id
  have h : ((⟨i⟩ : Id k) = ⟨arena.slots.size⟩) ↔ i = arena.slots.size := by simp
  simp only [alloc, get?, Array.getElem?_push, h]
  split <;> rfl

/-- A change shows at its own handle only. -/
theorem get?_modify (arena : Arena k α) (id : Id k) (f : α → α) (other : Id k) :
    (arena.modify id f).get? other =
      if other = id then (arena.get? id).map f else arena.get? other := by
  obtain ⟨i⟩ := id
  obtain ⟨j⟩ := other
  simp only [modify, get?, Array.getElem?_modify, Id.mk.injEq]
  by_cases h : j = i
  · subst h
    cases arena.slots[j]? with
    | none => simp
    | some slot => cases slot <;> simp
  · simp [h, Ne.symm h]

/-- A removed object is gone, and nothing else changes. -/
theorem get?_remove (arena : Arena k α) (id other : Id k) :
    (arena.remove id).2.get? other = if other = id then none else arena.get? other := by
  unfold remove
  cases h : arena.get? id with
  | none =>
    by_cases ho : other = id
    · simp [ho, h]
    · simp [ho]
  | some item =>
    obtain ⟨i⟩ := id
    obtain ⟨j⟩ := other
    simp only [get?, Array.getElem?_modify, Id.mk.injEq]
    by_cases hj : j = i
    · subst hj
      cases arena.slots[j]? <;> simp
    · simp [hj, Ne.symm hj]

/-- The listing has exactly the live objects. -/
theorem mem_entries (arena : Arena k α) (id : Id k) (item : α) :
    (id, item) ∈ arena.entries ↔ arena.get? id = some item := by
  obtain ⟨i⟩ := id
  simp only [entries, get?, List.mem_filterMap, Prod.exists, List.mem_zipIdx_iff_getElem?,
    Array.getElem?_toList, Option.map_eq_some_iff, Prod.mk.injEq, Id.mk.injEq]
  constructor
  · rintro ⟨slot, j, hslot, object, hobject, hj, hitem⟩
    subst hj hitem hobject
    rw [hslot]
    rfl
  · intro h
    cases hslot : arena.slots[i]? with
    | none => rw [hslot] at h; cases h
    | some slot =>
      rw [hslot] at h
      exact ⟨slot, i, hslot, item, h, rfl, rfl⟩

end Arena

end FpgaPacking
