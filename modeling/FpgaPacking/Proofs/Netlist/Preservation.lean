import FpgaPacking.Proofs.Netlist.Changes
import FpgaPacking.Proofs.Netlist.Operations

/-!
# Operations keep a netlist well-formed

An elementary operation fails without a change or makes one of the changes that
keep a netlist well-formed.
-/

namespace FpgaPacking
namespace Edit

variable {names : Names} {id : CellId} {port : Ident} {k : NetId}

open Netlist

/-! ## Elementary operations -/

theorem keeps_createCell (cellType : Ident) (name : String) :
    Keeps WellFormed (createCell cellType name) :=
  fun _ _ h => (h.wired.addCell rfl).wellFormed

theorem keeps_createNet (name : String) : Keeps WellFormed (createNet name) :=
  fun _ _ h => (h.wired.addNet name).wellFormed

theorem keeps_uniqueName (base : String) : Keeps WellFormed (uniqueName base) := by
  intro _ nl h
  have hcounted : Wired { nl with nameCounter := nl.nameCounter + 1 } :=
    h.wired.of_same_wires rfl rfl (fun _ _ _ => rfl) (fun _ _ hn => Or.inl hn) h.constant_recorded
  exact hcounted.wellFormed

theorem keeps_constantNet (v : ConstValue) : Keeps WellFormed (constantNet v) := by
  intro names nl h
  rcases constantNet_cases names (v := v) with ⟨k, -, hrun⟩ | ⟨hnone, hrun⟩
  · rw [hrun]
    exact h
  · rw [hrun]
    exact (h.wired.addConstant hnone).wellFormed

theorem keeps_addPort (direction : Direction) : Keeps WellFormed (addPort id port direction) := by
  intro names nl h
  rcases addPort_cases names with ⟨e, hrun⟩ | ⟨c, hc, ⟨-, hrun⟩ | ⟨hnew, hrun⟩⟩
  · rw [hrun]
    exact h
  · rw [hrun]
    exact h
  · rw [hrun]
    refine (h.wired.mapCell hc ?_ ?_ ?_).wellFormed
    · have hfree : port ∉ c.ports.map (·.name) := by
        intro hmem
        obtain ⟨p, hp, hname⟩ := List.mem_map.mp hmem
        have := List.find?_eq_none.mp hnew p hp
        simp [hname] at this
      show ((c.ports ++ [_]).map _).Nodup
      rw [List.map_append, List.map_singleton, ← List.concat_eq_append]
      exact (h.port_names id c hc).concat hfree
    · intro name
      unfold Cell.netOf
      rw [Cell.port?_addPort hnew]
      split
      · next he => rw [he, hnew]; rfl
      · rfl
    · intro name p hp _
      have hne : name ≠ port := fun e => by simp [e, hnew] at hp
      rw [Cell.port?_addPort hnew, if_neg hne, hp]
      rfl

theorem keeps_removePort : Keeps WellFormed (removePort id port) := by
  intro names nl h
  rcases removePort_cases names with ⟨e, hrun⟩ | ⟨p, hp, hnet, hrun⟩
  · rw [hrun]
    exact h
  · rw [hrun]
    obtain ⟨c, hc, hpc⟩ := Option.bind_eq_some_iff.mp hp
    refine (h.wired.mapCell hc ?_ ?_ ?_).wellFormed
    · exact (h.port_names id c hc).sublist (List.Sublist.map _ List.filter_sublist)
    · intro name
      unfold Cell.netOf
      rw [Cell.port?_dropPort]
      split
      · next he =>
        have hpn : c.port? name = some p := he ▸ hpc
        rw [hpn]
        exact hnet.symm
      · rfl
    · intro name q hq hconnected
      have hne : name ≠ port := by
        rintro rfl
        obtain rfl : p = q := Option.some.inj (hpc.symm.trans hq)
        simp [hnet] at hconnected
      rw [Cell.port?_dropPort, if_neg hne, hq]
      rfl

theorem keeps_renamePort (old new : Ident) : Keeps WellFormed (renamePort id old new) := by
  intro names nl h
  rcases renamePort_cases names with ⟨e, hrun⟩ |
    ⟨c, p, hc, hp, ⟨-, hrun⟩ | ⟨hnew, hne, ⟨hnet, hrun⟩ | ⟨k, hnet, hmissing⟩⟩⟩
  · rw [hrun]
    exact h
  · rw [hrun]
    exact h
  · rw [hrun]
    exact (h.wired.renamePort hc hp hnew hnet).wellFormed
  · -- The net of a port is live, so this renaming does not fail halfway.
    have hwire : nl.wire ⟨id, old⟩ = some k := by simp [wire_eq, port?, hc, hp, hnet]
    obtain ⟨n, hn⟩ := Option.isSome_iff_exists.mp (h.wired.wire_live _ _ hwire)
    rcases hmissing with hnone | hrun
    · simp [hn] at hnone
    · rw [hrun]
      exact (h.wired.renameConnectedPort hc hp hnew hne hnet hn).wellFormed

theorem keeps_connect : Keeps WellFormed (connect id port k) := by
  intro names nl h
  rcases connect_cases names with ⟨e, hrun⟩ |
    ⟨p, hp, ⟨-, hrun⟩ | ⟨hnet, n, hn, hout, hrun⟩⟩
  · rw [hrun]
    exact h
  · rw [hrun]
    exact h
  · rw [hrun]
    have hfree : nl.wire ⟨id, port⟩ = none := by simp [wire_eq, hp, hnet]
    exact (h.wired.attach hp hfree hn hout).wellFormed

theorem keeps_disconnect : Keeps WellFormed (disconnect id port) := by
  intro names nl h
  rcases disconnect_cases names with ⟨e, hrun⟩ |
    ⟨p, hp, ⟨-, hrun⟩ | ⟨k, n, hnet, hn, hrun⟩⟩
  · rw [hrun]
    exact h
  · rw [hrun]
    exact h
  · rw [hrun]
    have hwire : nl.wire ⟨id, port⟩ = some k := wire_eq_some.mpr ⟨p, hp, hnet⟩
    exact (h.wired.detach hwire hn).wellFormed

theorem keeps_removeCell : Keeps WellFormed (removeCell id) := by
  intro names nl h
  rcases removeCell_cases names with ⟨e, hrun⟩ | ⟨c, hc, hfree, -, hrun⟩
  · rw [hrun]
    exact h
  · rw [hrun]
    exact (h.wired.dropCell hc hfree).wellFormed

theorem keeps_removeNet : Keeps WellFormed (removeNet k) := by
  intro names nl h
  rcases removeNet_cases names with ⟨e, hrun⟩ | ⟨n, hn, hdriver, hsinks, hrun⟩
  · rw [hrun]
    exact h
  · rw [hrun]
    exact (h.wired.dropNet hn hdriver hsinks).wellFormed

theorem keeps_markForRemoval : Keeps WellFormed (markForRemoval id) := by
  intro names nl h
  show WellFormed (if nl.cells.contains id then { nl with queue := nl.queue.add id } else nl)
  split
  · next hlive =>
    refine (h.wired.withQueue fun other hother => ?_).wellFormed
    unfold Keys.add Table.contains at hother
    rw [Table.find?_insert] at hother
    by_cases he : other = id
    · exact Or.inr (he ▸ hlive)
    · have hqueued : (nl.queue.find? other).isSome := by simpa [he] using hother
      exact Or.inl hqueued
  · exact h

/-- Changes of a cell that leave its ports alone. -/
theorem keeps_updateCell {f : Cell → Cell} (hf : ∀ c, (f c).ports = c.ports) :
    Keeps WellFormed (updateCell id f) := by
  intro names nl h
  rcases updateCell_cases names (f := f) with ⟨e, hrun⟩ | ⟨c, hc, hrun⟩
  · rw [hrun]
    exact h
  · rw [hrun]
    have hport : ∀ name, (f c).port? name = c.port? name := fun name => by
      unfold Cell.port?
      rw [hf]
    refine (h.wired.mapCell hc ?_ ?_ ?_).wellFormed
    · rw [hf]
      exact h.port_names id c hc
    · intro name
      unfold Cell.netOf
      rw [hport]
    · intro name p hp _
      rw [hport, hp]
      rfl

/-- Emptying the queue, with which a flush begins. -/
theorem keeps_unqueue : Keeps WellFormed
    (modifyGet fun nl => (nl.queue.keys, { nl with queue := .empty }) : Edit (List CellId)) := by
  intro names nl h
  have hwired : Wired { nl with queue := .empty } :=
    h.wired.withQueue fun _ hid => absurd hid Bool.false_ne_true
  exact hwired.wellFormed

end Edit
end FpgaPacking
