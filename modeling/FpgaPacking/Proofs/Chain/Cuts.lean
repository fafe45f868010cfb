import FpgaPacking.Chain.Plan
import Mathlib.Data.List.Induction
import Mathlib.Order.Bounds.Defs
import Mathlib.Order.Bounds.Basic

/-!
# Cutting a list into blocks

A block that satisfies a predicate still does so without some of its elements at
either end.  For such a predicate it never pays to end a block early.  If `a`
does not fit after `l`, every cut of `l ++ a :: rest` has a block that ends before
`a`, and the blocks from there on, or what is left of them, cut `a :: rest`.
-/

namespace FpgaPacking

variable {α : Type} {P : List α → Prop} {l l' rest : List α} {blocks : List (List α)} {a : α}

/-- The blocks are consecutive parts of the list, each of which satisfies `P`. -/
structure IsCut (P : List α → Prop) (l : List α) (blocks : List (List α)) : Prop where
  joined : blocks.flatten = l
  block : ∀ b ∈ blocks, b ≠ [] ∧ P b

/-- The numbers of blocks into which the list can be cut. -/
def cutSizes (P : List α → Prop) (l : List α) : Set Nat :=
  {n | ∃ blocks, IsCut P l blocks ∧ blocks.length = n}

/-- What satisfies `P` does so without some elements at either end. -/
structure Shortenable (P : List α → Prop) : Prop where
  dropLast : ∀ l a, l ≠ [] → P (l ++ [a]) → P l
  tail : ∀ a l, l ≠ [] → P (a :: l) → P l

namespace IsCut

theorem nil : IsCut P [] [] := ⟨rfl, nofun⟩

theorem cons {b : List α} (hne : b ≠ []) (hb : P b) (h : IsCut P l blocks) :
    IsCut P (b ++ l) (b :: blocks) where
  joined := congrArg (b ++ ·) h.joined
  block := List.forall_mem_cons.mpr ⟨⟨hne, hb⟩, h.block⟩

theorem exists_cons (h : IsCut P (a :: l) blocks) :
    ∃ b later, P (a :: b) ∧ IsCut P later.flatten later ∧ blocks = (a :: b) :: later ∧
      l = b ++ later.flatten := by
  obtain ⟨hjoined, hblock⟩ := h
  cases blocks with
  | nil => cases hjoined
  | cons first later =>
    obtain ⟨⟨hne, hfirst⟩, hlater⟩ := List.forall_mem_cons.mp hblock
    cases first with
    | nil => exact absurd rfl hne
    | cons a' b =>
      obtain ⟨rfl, rfl⟩ := List.cons.inj hjoined
      exact ⟨b, later, hfirst, ⟨rfl, hlater⟩, rfl, rfl⟩

theorem of_cons (hP : Shortenable P) (h : IsCut P (a :: l) blocks) :
    ∃ blocks', IsCut P l blocks' ∧ blocks'.length ≤ blocks.length := by
  obtain ⟨b, later, hb, hlater, rfl, rfl⟩ := h.exists_cons
  cases b with
  | nil => exact ⟨later, hlater, Nat.le_succ _⟩
  | cons c b => exact ⟨_, hlater.cons nofun (hP.tail a (c :: b) nofun hb), Nat.le_refl _⟩

theorem of_append (hP : Shortenable P) (h : IsCut P (l ++ l') blocks) :
    ∃ blocks', IsCut P l' blocks' ∧ blocks'.length ≤ blocks.length := by
  induction l generalizing blocks with
  | nil => exact ⟨blocks, h, Nat.le_refl _⟩
  | cons a l ih =>
    obtain ⟨blocks₁, h₁, hle₁⟩ := h.of_cons hP
    obtain ⟨blocks₂, h₂, hle₂⟩ := ih h₁
    exact ⟨blocks₂, h₂, Nat.le_trans hle₂ hle₁⟩

end IsCut

theorem Shortenable.append (hP : Shortenable P) (hne : l ≠ []) (h : P (l ++ l')) : P l := by
  induction l' using List.reverseRecOn with
  | nil => rwa [List.append_nil] at h
  | append_singleton l' a ih =>
    rw [← List.append_assoc] at h
    exact ih (hP.dropLast _ a (by simp [hne]) h)

/-- A cut of a list that starts with a full block is, after its first block, at
least a cut of what follows the full block. -/
theorem IsCut.after_full (hP : Shortenable P) (hne : l ≠ []) (hfull : ¬P (l ++ [a]))
    (h : IsCut P (l ++ a :: rest) blocks) :
    ∃ blocks', IsCut P (a :: rest) blocks' ∧ blocks'.length + 1 ≤ blocks.length := by
  obtain ⟨c, l, rfl⟩ := List.exists_cons_of_ne_nil hne
  obtain ⟨b, later, hb, hlater, rfl, hsplit⟩ := h.exists_cons
  rcases List.append_eq_append_iff.mp hsplit with ⟨more, rfl, hmore⟩ | ⟨left, rfl, hleft⟩
  · -- The first block reaches at least to the end of the full one, so it ends there.
    cases more with
    | nil =>
      rw [List.nil_append] at hmore
      exact ⟨later, hmore ▸ hlater, Nat.le_refl _⟩
    | cons a' more =>
      obtain ⟨rfl, -⟩ := List.cons.inj hmore
      have hlonger : P (c :: l ++ [a] ++ more) := by simpa using hb
      exact absurd (hP.append (by simp) hlonger) hfull
  · obtain ⟨blocks', h', hle⟩ := (hleft ▸ hlater).of_append hP
    exact ⟨blocks', h', Nat.succ_le_succ hle⟩

/-! ## The least number of blocks -/

theorem isLeast_cutSizes_nil : IsLeast (cutSizes P []) 0 :=
  ⟨⟨[], .nil, rfl⟩, fun _ _ => Nat.zero_le _⟩

theorem isLeast_cutSizes_block (hne : l ≠ []) (h : P l) : IsLeast (cutSizes P l) 1 := by
  constructor
  · have hcut := IsCut.nil.cons hne h
    rw [List.append_nil] at hcut
    exact ⟨_, hcut, rfl⟩
  · rintro n ⟨blocks, hcut, rfl⟩
    cases blocks with
    | nil => exact absurd hcut.joined.symm hne
    | cons b later => exact Nat.succ_le_succ (Nat.zero_le _)

/-- Ending a block only when it is full wastes none. -/
theorem isLeast_cutSizes_full (hP : Shortenable P) (hne : l ≠ []) (h : P l)
    (hfull : ¬P (l ++ [a])) {n : Nat} (hrest : IsLeast (cutSizes P (a :: rest)) n) :
    IsLeast (cutSizes P (l ++ a :: rest)) (n + 1) := by
  obtain ⟨⟨blocks, hcut, rfl⟩, hleast⟩ := hrest
  refine ⟨⟨l :: blocks, hcut.cons hne h, rfl⟩, ?_⟩
  rintro m ⟨blocks', hcut', rfl⟩
  obtain ⟨later, hlater, hle⟩ := hcut'.after_full hP hne hfull
  have hmin := hleast ⟨later, hlater, rfl⟩
  omega

/-- Nor does it fail where another way of cutting does not. -/
theorem cutSizes_full_eq_empty (hP : Shortenable P) (hne : l ≠ []) (hfull : ¬P (l ++ [a]))
    (hrest : cutSizes P (a :: rest) = ∅) : cutSizes P (l ++ a :: rest) = ∅ := by
  refine Set.eq_empty_iff_forall_notMem.mpr ?_
  rintro _ ⟨blocks, hcut, -⟩
  obtain ⟨later, hlater, -⟩ := hcut.after_full hP hne hfull
  exact Set.eq_empty_iff_forall_notMem.mp hrest _ ⟨later, hlater, rfl⟩

theorem cutSizes_cons_eq_empty (hP : Shortenable P) (h : ¬P [a]) :
    cutSizes P (a :: rest) = ∅ := by
  refine Set.eq_empty_iff_forall_notMem.mpr ?_
  rintro _ ⟨blocks, hcut, -⟩
  obtain ⟨b, later, hb, -⟩ := hcut.exists_cons
  have hlonger : P ([a] ++ b) := hb
  exact h (hP.append nofun hlonger)

end FpgaPacking
