import FpgaPacking.Arena
import Mathlib.Data.List.Nodup

/-!
# The contents of an arena

Handles are numbered as they are given out, so an arena knows which ones it has given
out from how many there are, and its listings are what is left of them.  An arena is
determined by the objects under its handles, the number of its slots and its count.
-/

namespace FpgaPacking
namespace Arena

/-! ## The handles that were given out -/

section Given

variable {k : Kind} {α : Type} {id : Id k} {f : α → α} (arena : Arena k α)

/-- The handle that the next object gets. -/
def next : Id k := ⟨arena.slots.size⟩

/-- The handles that were given out, in this order. -/
def given : List (Id k) := (List.range arena.next.index).map Id.mk

theorem get?_next : arena.get? arena.next = none := by
  show arena.slots[arena.slots.size]?.join = none
  rw [Array.getElem?_eq_none (Nat.le_refl _)]
  rfl

theorem index_next_alloc (item : α) :
    (arena.alloc item).2.next.index = arena.next.index + 1 := by
  simp [next, alloc]

theorem next_modify : (arena.modify id f).next = arena.next := by
  simp [next, modify]

theorem next_remove : (arena.remove id).2.next = arena.next := by
  unfold remove
  cases arena.get? id <;> simp [next]

/-- Only handles that were given out have objects. -/
theorem index_lt_next (h : (arena.get? id).isSome) : id.index < arena.next.index := by
  refine Nat.lt_of_not_le fun hle => ?_
  have hnone : arena.slots[id.index]? = none := Array.getElem?_eq_none hle
  rw [get?, hnone] at h
  cases h

theorem mem_given : id ∈ arena.given ↔ id.index < arena.next.index := by
  obtain ⟨i⟩ := id
  simp [given]

theorem next_notMem_given : arena.next ∉ arena.given := fun h =>
  Nat.lt_irrefl _ (arena.mem_given.mp h)

/-- Handles are numbered from zero as they are given out. -/
theorem index_given : arena.given.map (·.index) = List.range arena.given.length := by
  unfold given
  rw [List.length_map, List.length_range, List.map_map]
  exact List.map_id _

theorem pairwise_given : arena.given.Pairwise fun a b => a.index < b.index :=
  List.pairwise_map.mpr List.pairwise_lt_range

theorem given_alloc (item : α) : (arena.alloc item).2.given = arena.given ++ [arena.next] := by
  unfold given
  rw [index_next_alloc, List.range_succ, List.map_append]
  rfl

theorem given_modify : (arena.modify id f).given = arena.given := by
  unfold given
  rw [next_modify]

theorem given_remove : (arena.remove id).2.given = arena.given := by
  unfold given
  rw [next_remove]

end Given

/-! ## Listings -/

section Listings

variable {k : Kind} {α β : Type} {id : Id k} (arena : Arena k α)

/-- The listing goes through the handles that were given out. -/
theorem entries_eq_filterMap :
    arena.entries = arena.given.filterMap fun id => (arena.get? id).map fun item => (id, item) := by
  have hslots : arena.slots.toList.zipIdx =
      (List.range arena.slots.size).map fun i => (arena.get? (⟨i⟩ : Id k), i) := by
    refine List.ext_getElem (by simp) fun i hi _ => ?_
    have hslot : i < arena.slots.size := by simpa using hi
    simp [get?, Array.getElem?_eq_getElem hslot]
  unfold entries given
  rw [hslots, List.filterMap_map, List.filterMap_map]
  rfl

theorem ids_eq_filter : arena.ids = arena.given.filter fun id => (arena.get? id).isSome := by
  unfold ids
  rw [entries_eq_filterMap]
  induction arena.given with
  | nil => rfl
  | cons id rest ih =>
    cases h : arena.get? id with
    | none => simpa [h] using ih
    | some item => simpa [h] using ih

theorem mem_ids : id ∈ arena.ids ↔ (arena.get? id).isSome := by
  rw [ids_eq_filter, List.mem_filter, mem_given]
  exact and_iff_right_of_imp arena.index_lt_next

/-- The listed handles are in the order in which they were given out. -/
theorem pairwise_ids : arena.ids.Pairwise fun a b => a.index < b.index := by
  rw [ids_eq_filter]
  exact arena.pairwise_given.filter _

theorem nodup_ids : arena.ids.Nodup := by
  refine arena.pairwise_ids.imp fun hlt => ?_
  rintro rfl
  exact Nat.lt_irrefl _ hlt

/-- Arenas with the same live handles list them alike. -/
theorem ids_eq {a : Arena k α} {b : Arena k β} (h : ∀ id, id ∈ a.ids ↔ id ∈ b.ids) :
    a.ids = b.ids := by
  refine List.Perm.eq_of_pairwise ?_ a.pairwise_ids b.pairwise_ids
    ((List.perm_ext_iff_of_nodup a.nodup_ids b.nodup_ids).mpr h)
  intro _ _ _ _ hlt hgt
  exact absurd hgt (Nat.lt_asymm hlt)

end Listings

/-! ## Equal arenas -/

section Equal

variable {k : Kind} {α : Type} {arena : Arena k α} {id : Id k} {f g : α → α}

/-- Arenas with the same objects that have given out the same handles are equal. -/
theorem ext_get? {first second : Arena k α} (hsize : first.slots.size = second.slots.size)
    (hlive : first.live = second.live) (h : ∀ id, first.get? id = second.get? id) :
    first = second := by
  have hslots : first.slots = second.slots := by
    refine Array.ext hsize fun i hi hi' => ?_
    have hslot := h ⟨i⟩
    unfold get? at hslot
    rwa [Array.getElem?_eq_getElem hi, Array.getElem?_eq_getElem hi'] at hslot
  cases first
  cases second
  cases hslots
  cases hlive
  rfl

theorem modify_modify : (arena.modify id f).modify id g = arena.modify id (g ∘ f) := by
  refine ext_get? (by simp [modify]) rfl fun other => ?_
  by_cases ho : other = id
  · simp [get?_modify, ho]
  · simp [get?_modify, ho]

theorem modify_congr (h : ∀ a, arena.get? id = some a → f a = g a) :
    arena.modify id f = arena.modify id g := by
  refine ext_get? (by simp [modify]) rfl fun other => ?_
  rw [get?_modify, get?_modify]
  split
  · exact Option.map_congr h
  · rfl

theorem modify_eq_self (h : ∀ a, arena.get? id = some a → f a = a) : arena.modify id f = arena := by
  refine ext_get? (by simp [modify]) rfl fun other => ?_
  rw [get?_modify]
  split
  · next ho =>
    rw [ho, Option.map_congr h, Option.map_id']
  · rfl

end Equal

end Arena
end FpgaPacking
