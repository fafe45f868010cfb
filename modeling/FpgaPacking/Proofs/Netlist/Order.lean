import FpgaPacking.Proofs.Netlist.Regular

/-!
# The order of the readers of a net

Which ports read a net is a matter of the wires, but in what order they do is not:
discovery goes to the first reader of a net.  New readers come last, and taking a
port off a net leaves the others where they were.  So the readers that are never
moved keep their order.
-/

namespace FpgaPacking
namespace Netlist

variable {nl nl' nl'' : Netlist} {moved moved' : List PortRef}

/-- The readers of a net that are not among `moved` still read it, in the same order. -/
def KeepsOrder (moved : List PortRef) (nl nl' : Netlist) : Prop :=
  ∀ k n, nl.net? k = some n →
    ∃ n', nl'.net? k = some n' ∧ (n.sinks.filter fun r => r ∉ moved).Sublist n'.sinks

namespace KeepsOrder

theorem refl : KeepsOrder moved nl nl := fun _ n hn => ⟨n, hn, List.filter_sublist⟩

theorem trans (h : KeepsOrder moved nl nl') (h' : KeepsOrder moved' nl' nl'') :
    KeepsOrder (moved ++ moved') nl nl'' := by
  intro k n hn
  obtain ⟨n', hn', hsub⟩ := h k n hn
  obtain ⟨n'', hn'', hsub'⟩ := h' k n' hn'
  refine ⟨n'', hn'', List.Sublist.trans ?_ hsub'⟩
  have hboth : (n.sinks.filter fun r => r ∉ moved ++ moved') =
      (n.sinks.filter fun r => r ∉ moved).filter fun r => r ∉ moved' := by
    rw [List.filter_filter]
    refine List.filter_congr fun r _ => ?_
    simp [Bool.and_comm]
  rw [hboth]
  exact hsub.filter _

theorem trans_nil (h : KeepsOrder moved nl nl') (h' : KeepsOrder [] nl' nl'') :
    KeepsOrder moved nl nl'' := by
  simpa using h.trans h'

/-- Of two readers that stay on a net, the first stays before the second. -/
theorem before (h : KeepsOrder moved nl nl') {k : NetId} {n n' : Net} {r s : PortRef}
    {first second third : List PortRef} (hn : nl.net? k = some n) (hn' : nl'.net? k = some n')
    (hnodup : n'.sinks.Nodup) (hsinks : n.sinks = first ++ r :: (second ++ s :: third))
    (hr : r ∉ moved) (hs : s ∉ moved) {before after : List PortRef}
    (hsplit : n'.sinks = before ++ s :: after) : r ∈ before := by
  obtain ⟨m, hm, hsub⟩ := h k n hn
  obtain rfl := Option.some.inj (hn'.symm.trans hm)
  have hpair : [r, s].Sublist n'.sinks := by
    refine List.Sublist.trans ?_ hsub
    have hold : [r, s].Sublist n.sinks := by
      rw [hsinks]
      refine List.Sublist.trans ?_ (List.sublist_append_right first _)
      exact (List.singleton_sublist.mpr (by simp)).cons_cons r
    have hfilter := hold.filter fun r => decide (r ∉ moved)
    simpa [hr, hs] using hfilter
  rw [hsplit] at hpair hnodup
  obtain ⟨l₁, l₂, hl, h₁, h₂⟩ := List.sublist_append_iff.mp hpair
  cases l₁ with
  | nil =>
    -- The first of the two comes after the second, which is listed once.
    obtain rfl : l₂ = [r, s] := hl.symm
    have hlast := (List.nodup_cons.mp hnodup.of_append_right).1
    rcases List.sublist_cons_iff.mp h₂ with h₂ | ⟨l, hl, h₂⟩
    · exact absurd (h₂.subset (by simp)) hlast
    · obtain ⟨-, rfl⟩ := List.cons.inj hl
      exact absurd (h₂.subset (by simp)) hlast
  | cons x l₁ =>
    obtain ⟨rfl, -⟩ := List.cons.inj hl
    exact h₁.subset List.mem_cons_self

end KeepsOrder
end Netlist

namespace Edit

open Netlist

variable {names : Names} {nl nl' : Netlist} {moved : List PortRef} {id : CellId} {port : Ident}
  {k : NetId}

theorem keeps_order_createCell (cellType : Ident) (name : String) :
    Keeps (KeepsOrder moved nl) (createCell cellType name) := fun _ _ h => h

theorem keeps_order_uniqueName (base : String) : Keeps (KeepsOrder moved nl) (uniqueName base) :=
  fun _ _ h => h

theorem keeps_order_createNet (name : String) : Keeps (KeepsOrder moved nl) (createNet name) := by
  intro _ nl₁ h
  refine h.trans_nil fun k n hn => ⟨n, ?_, List.filter_sublist⟩
  show (nl₁.addNet (.create name)).net? k = some n
  rw [net?_addNet, if_neg]
  · exact hn
  · rintro rfl
    rw [net?_nextNet] at hn
    cases hn

theorem keeps_order_connect : Keeps (KeepsOrder moved nl) (connect id port k) := by
  intro names nl₁ h
  rcases connect_cases names with ⟨e, hrun⟩ | ⟨p, -, ⟨-, hrun⟩ | ⟨-, n, -, -, hrun⟩⟩
  · rw [hrun]
    exact h
  · rw [hrun]
    exact h
  · rw [hrun]
    refine h.trans_nil fun k' n' hn' => ?_
    by_cases hk : k' = k
    · subst hk
      refine ⟨n'.hold ⟨id, port⟩ p.direction, ?_, ?_⟩
      · show (nl₁.attach _ _ _).net? k' = _
        rw [net?_attach, if_pos rfl, hn']
        rfl
      · refine List.filter_sublist.trans ?_
        cases p.direction with
        | output => exact List.Sublist.refl _
        | input => exact List.sublist_append_left _ _
        | inout => exact List.sublist_append_left _ _
    · refine ⟨n', ?_, List.filter_sublist⟩
      show (nl₁.attach _ _ _).net? k' = _
      rw [net?_attach, if_neg hk]
      exact hn'

theorem keeps_order_addPort (direction : Direction) :
    Keeps (KeepsOrder moved nl) (addPort id port direction) := by
  intro names nl₁ h
  rcases addPort_cases names with ⟨e, hrun⟩ | ⟨c, -, ⟨-, hrun⟩ | ⟨-, hrun⟩⟩
  · rw [hrun]
    exact h
  · rw [hrun]
    exact h
  · rw [hrun]
    exact h

theorem keeps_order_updateCell (f : Cell → Cell) :
    Keeps (KeepsOrder moved nl) (updateCell id f) := by
  intro names nl₁ h
  rcases updateCell_cases names with ⟨e, hrun⟩ | ⟨c, -, hrun⟩
  · rw [hrun]
    exact h
  · rw [hrun]
    exact h

theorem keeps_order_instantiate (t : CellTemplate) (name : String) :
    Keeps (KeepsOrder moved nl) (t.instantiate name) := by
  refine Keeps.bind (keeps_order_createCell _ _) fun id => ?_
  have hports : ∀ p : Ident × Direction, Keeps (KeepsOrder moved nl) (addPort id p.1 p.2) :=
    fun p => keeps_order_addPort p.2
  refine Keeps.bind (Keeps.forM hports t.ports) fun _ => ?_
  exact Keeps.bind (keeps_order_updateCell _) fun _ => Keeps.pure id

/-- A port that is taken off its net is one more that is moved. -/
theorem order_disconnect {nl₀ : Netlist} {onNet : Option NetId} (h : KeepsOrder moved nl₀ nl)
    (hrun : disconnect id port names nl = .ok onNet nl') :
    KeepsOrder (moved ++ [⟨id, port⟩]) nl₀ nl' := by
  refine h.trans fun k' n' hn' => ?_
  rcases disconnect_cases names with ⟨e, hcase⟩ | ⟨p, -, ⟨-, hcase⟩ | ⟨k, n, -, -, hcase⟩⟩
  · rw [hcase] at hrun
    cases hrun
  · rw [hcase] at hrun
    cases hrun
    exact ⟨n', hn', List.filter_sublist⟩
  · rw [hcase] at hrun
    cases hrun
    by_cases hk : k' = k
    · subst hk
      refine ⟨n'.detach ⟨id, port⟩, ?_, ?_⟩
      · show (nl.detach _ _).net? k' = _
        rw [net?_detach, if_pos rfl, hn']
        rfl
      · simp [Net.detach]
    · refine ⟨n', ?_, List.filter_sublist⟩
      show (nl.detach _ _).net? k' = _
      rw [net?_detach, if_neg hk]
      exact hn'

end Edit

end FpgaPacking
