import FpgaPacking.Proofs.Netlist.WellFormed
import FpgaPacking.Proofs.Runs

/-!
# What the operations of a netlist do

For each operation there is one statement that lists all of its outcomes: how it
fails, which leaves the netlist alone, and what netlist it leads to otherwise.
That an operation keeps a netlist well-formed follows from its outcomes and from
the changes of `WellFormed`.
-/

namespace FpgaPacking
namespace Edit

variable {α β : Type} {names : Names} {nl nl' : Netlist} {id : CellId} {port : Ident} {k : NetId}

theorem run_bind_of_ok {x : Edit α} {f : α → Edit β} {a : α} (h : x names nl = .ok a nl') :
    (x >>= f) names nl = f a names nl' :=
  bind_of_ok (f := fun a => f a names) h

theorem run_bind_of_error {x : Edit α} {f : α → Edit β} {e : Failure}
    (h : x names nl = .error e nl') : (x >>= f) names nl = .error e nl' :=
  bind_of_error (f := fun a => f a names) h

variable (names)

/-! ## Checked lookups -/

theorem cellChecked_cases :
    (∃ e, nl.cell? id = none ∧ cellChecked id names nl = .error e nl) ∨
      ∃ c, nl.cell? id = some c ∧ cellChecked id names nl = .ok c nl := by
  unfold cellChecked
  rw [run_bind_of_ok (get_ok.mpr ⟨rfl, rfl⟩)]
  cases nl.cell? id with
  | none => exact Or.inl ⟨_, rfl, rfl⟩
  | some c => exact Or.inr ⟨c, rfl, rfl⟩

theorem netChecked_cases :
    (∃ e, nl.net? k = none ∧ netChecked k names nl = .error e nl) ∨
      ∃ n, nl.net? k = some n ∧ netChecked k names nl = .ok n nl := by
  unfold netChecked
  rw [run_bind_of_ok (get_ok.mpr ⟨rfl, rfl⟩)]
  cases nl.net? k with
  | none => exact Or.inl ⟨_, rfl, rfl⟩
  | some n => exact Or.inr ⟨n, rfl, rfl⟩

theorem netChecked_of_some {n : Net} (h : nl.net? k = some n) :
    netChecked k names nl = .ok n nl := by
  rcases netChecked_cases names with ⟨e, hnone, -⟩ | ⟨m, hm, hrun⟩
  · exact absurd (h.symm.trans hnone) nofun
  · obtain rfl : n = m := Option.some.inj (h.symm.trans hm)
    exact hrun

theorem cell_cases :
    (∃ e, nl.cell? id = none ∧ cell id names nl = .error e nl) ∨
      ∃ c, nl.cell? id = some c ∧ cell id names nl = .ok c nl := by
  have hrun : cell id names nl = (liftM (nl.cell id) : Edit Cell) names nl := rfl
  rw [hrun]
  unfold Netlist.cell
  cases nl.cell? id with
  | none => exact Or.inl ⟨_, rfl, rfl⟩
  | some c => exact Or.inr ⟨c, rfl, rfl⟩

theorem net_cases :
    (∃ e, nl.net? k = none ∧ net k names nl = .error e nl) ∨
      ∃ n, nl.net? k = some n ∧ net k names nl = .ok n nl := by
  have hrun : net k names nl = (liftM (nl.net k) : Edit Net) names nl := rfl
  rw [hrun]
  unfold Netlist.net
  cases nl.net? k with
  | none => exact Or.inl ⟨_, rfl, rfl⟩
  | some n => exact Or.inr ⟨n, rfl, rfl⟩

theorem cell_of_some {c : Cell} (h : nl.cell? id = some c) : cell id names nl = .ok c nl := by
  rcases cell_cases names with ⟨e, hnone, -⟩ | ⟨d, hd, hrun⟩
  · rw [h] at hnone
    cases hnone
  · obtain rfl := Option.some.inj (h.symm.trans hd)
    exact hrun

theorem net_of_some {n : Net} (h : nl.net? k = some n) : net k names nl = .ok n nl := by
  rcases net_cases names with ⟨e, hnone, -⟩ | ⟨m, hm, hrun⟩
  · rw [h] at hnone
    cases hnone
  · obtain rfl := Option.some.inj (h.symm.trans hm)
    exact hrun

theorem portChecked_cases :
    (∃ e, portChecked id port names nl = .error e nl) ∨
      ∃ c p, nl.cell? id = some c ∧ c.port? port = some p ∧
        portChecked id port names nl = .ok (c, p) nl := by
  unfold portChecked
  rcases cellChecked_cases names with ⟨e, -, hc⟩ | ⟨c, hc, hrun⟩
  · exact Or.inl ⟨e, run_bind_of_error hc⟩
  · rw [run_bind_of_ok hrun]
    cases hp : c.port? port with
    | none => exact Or.inl ⟨_, rfl⟩
    | some p => exact Or.inr ⟨c, p, hc, hp, rfl⟩

/-! ## Connections -/

theorem connect_cases :
    (∃ e, connect id port k names nl = .error e nl) ∨
      ∃ p, nl.port? ⟨id, port⟩ = some p ∧
        (p.net = some k ∧ connect id port k names nl = .ok () nl ∨
          p.net = none ∧ ∃ n, nl.net? k = some n ∧
            (p.direction = .output → n.constant = none ∧ n.driver = none) ∧
            connect id port k names nl = .ok () (nl.attach ⟨id, port⟩ p.direction k)) := by
  unfold connect
  rcases portChecked_cases names with ⟨e, hrun⟩ | ⟨c, p, hc, hp, hrun⟩
  · exact Or.inl ⟨e, run_bind_of_error hrun⟩
  have hport : nl.port? ⟨id, port⟩ = some p := by simp [Netlist.port?, hc, hp]
  rw [run_bind_of_ok hrun]
  cases hnet : p.net with
  | some existing =>
    by_cases he : existing = k
    · subst he
      simp only [hnet, if_true]
      exact Or.inr ⟨p, hport, Or.inl ⟨hnet, rfl⟩⟩
    · refine Or.inl ?_
      simp only [hnet, he, if_false]
      rw [run_bind_of_ok (show resolve port names nl = .ok (names.resolve port) nl from rfl)]
      rcases net_cases names with ⟨e, -, hrun⟩ | ⟨n, -, hrun⟩
      · exact ⟨e, run_bind_of_error hrun⟩
      · rw [run_bind_of_ok hrun]
        exact ⟨_, rfl⟩
  | none =>
    simp only [hnet]
    rcases netChecked_cases names with ⟨e, -, hrun⟩ | ⟨n, hn, hrun⟩
    · exact Or.inl ⟨e, run_bind_of_error hrun⟩
    rw [run_bind_of_ok hrun]
    cases hd : p.direction with
    | output =>
      by_cases hconstant : n.constant.isSome
      · simp only [hconstant, if_true]
        exact Or.inl ⟨_, rfl⟩
      · by_cases hdriver : n.driver.isSome
        · simp only [hconstant, hdriver, if_true]
          exact Or.inl ⟨_, rfl⟩
        · simp only [hconstant, hdriver]
          exact Or.inr ⟨p, hport, Or.inr ⟨hnet, n, hn, fun _ => by simp_all, by rw [hd]; rfl⟩⟩
    | input => exact Or.inr ⟨p, hport, Or.inr ⟨hnet, n, hn, by simp [hd], by rw [hd]; rfl⟩⟩
    | inout => exact Or.inr ⟨p, hport, Or.inr ⟨hnet, n, hn, by simp [hd], by rw [hd]; rfl⟩⟩

theorem disconnect_cases :
    (∃ e, disconnect id port names nl = .error e nl) ∨
      ∃ p, nl.port? ⟨id, port⟩ = some p ∧
        (p.net = none ∧ disconnect id port names nl = .ok none nl ∨
          ∃ k n, p.net = some k ∧ nl.net? k = some n ∧
            disconnect id port names nl = .ok (some k) (nl.detach ⟨id, port⟩ k)) := by
  unfold disconnect
  rcases portChecked_cases names with ⟨e, hrun⟩ | ⟨c, p, hc, hp, hrun⟩
  · exact Or.inl ⟨e, run_bind_of_error hrun⟩
  have hport : nl.port? ⟨id, port⟩ = some p := by simp [Netlist.port?, hc, hp]
  rw [run_bind_of_ok hrun]
  cases hnet : p.net with
  | none =>
    simp only [hnet]
    exact Or.inr ⟨p, hport, Or.inl ⟨hnet, rfl⟩⟩
  | some k =>
    simp only [hnet]
    rcases netChecked_cases names with ⟨e, -, hrun⟩ | ⟨n, hn, hrun⟩
    · exact Or.inl ⟨e, run_bind_of_error hrun⟩
    rw [run_bind_of_ok hrun]
    exact Or.inr ⟨p, hport, Or.inr ⟨k, n, hnet, hn, rfl⟩⟩

/-! ## Ports -/

theorem addPort_cases {direction : Direction} :
    (∃ e, addPort id port direction names nl = .error e nl) ∨
      ∃ c, nl.cell? id = some c ∧
        ((∃ p, c.port? port = some p ∧ p.direction = direction) ∧
            addPort id port direction names nl = .ok () nl ∨
          c.port? port = none ∧ addPort id port direction names nl =
            .ok () (nl.mapCell id fun c => c.addPort ⟨port, direction, none⟩)) := by
  unfold addPort
  rcases cellChecked_cases names with ⟨e, -, hrun⟩ | ⟨c, hc, hrun⟩
  · exact Or.inl ⟨e, run_bind_of_error hrun⟩
  rw [run_bind_of_ok hrun]
  cases hp : c.port? port with
  | none => exact Or.inr ⟨c, hc, Or.inr ⟨hp, rfl⟩⟩
  | some p =>
    by_cases hd : p.direction = direction
    · simp only [hd, if_true]
      exact Or.inr ⟨c, hc, Or.inl ⟨⟨p, hp, hd⟩, rfl⟩⟩
    · simp only [hd, if_false]
      exact Or.inl ⟨_, rfl⟩

theorem removePort_cases :
    (∃ e, removePort id port names nl = .error e nl) ∨
      ∃ p, nl.port? ⟨id, port⟩ = some p ∧ p.net = none ∧ removePort id port names nl =
        .ok () (nl.mapCell id fun c => c.dropPort port) := by
  unfold removePort
  rcases portChecked_cases names with ⟨e, hrun⟩ | ⟨c, p, hc, hp, hrun⟩
  · exact Or.inl ⟨e, run_bind_of_error hrun⟩
  have hport : nl.port? ⟨id, port⟩ = some p := by simp [Netlist.port?, hc, hp]
  rw [run_bind_of_ok hrun]
  cases hnet : p.net with
  | none =>
    simp only [hnet]
    exact Or.inr ⟨p, hport, hnet, rfl⟩
  | some k =>
    simp only [hnet]
    exact Or.inl ⟨_, rfl⟩

/-- Renaming a connected port fails halfway if its net is missing. -/
theorem renamePort_cases {old new : Ident} :
    (∃ e, renamePort id old new names nl = .error e nl) ∨
      ∃ c p, nl.cell? id = some c ∧ c.port? old = some p ∧
        (old = new ∧ renamePort id old new names nl = .ok () nl ∨
          c.port? new = none ∧ old ≠ new ∧
            (p.net = none ∧ renamePort id old new names nl =
                .ok () (nl.mapCell id fun c => c.renamePort old new) ∨
              ∃ k, p.net = some k ∧ (nl.net? k = none ∨ renamePort id old new names nl =
                .ok () ((nl.mapCell id fun c => c.renamePort old new).mapNet k
                  fun n => n.replace ⟨id, old⟩ ⟨id, new⟩)))) := by
  unfold renamePort
  rcases portChecked_cases names with ⟨e, hrun⟩ | ⟨c, p, hc, hp, hrun⟩
  · exact Or.inl ⟨e, run_bind_of_error hrun⟩
  rw [run_bind_of_ok hrun]
  by_cases hsame : old = new
  · simp only [hsame, if_true]
    exact Or.inr ⟨c, p, hc, hsame ▸ hp, Or.inl ⟨trivial, rfl⟩⟩
  cases hnew : c.port? new with
  | some q =>
    simp only [hsame, hnew, if_false]
    exact Or.inl ⟨_, rfl⟩
  | none =>
    refine Or.inr ⟨c, p, hc, hp, Or.inr ⟨hnew, hsame, ?_⟩⟩
    simp only [hsame, hnew, if_false]
    cases hnet : p.net with
    | none => exact Or.inl ⟨rfl, rfl⟩
    | some k =>
      refine Or.inr ⟨k, rfl, ?_⟩
      cases hn : nl.net? k with
      | none => exact Or.inl rfl
      | some n =>
        refine Or.inr ?_
        have hchecked : netChecked k names (nl.mapCell id fun c => c.renamePort old new) =
            .ok n (nl.mapCell id fun c => c.renamePort old new) :=
          netChecked_of_some names hn
        simp only [Bool.false_eq_true, Option.isSome_none, if_false]
        show (netChecked k >>= fun _ =>
          modifyNet k fun n => n.replace ⟨id, old⟩ ⟨id, new⟩ : Edit Unit) names
          (nl.mapCell id fun c => c.renamePort old new) = _
        rw [run_bind_of_ok hchecked]
        rfl

/-! ## Cells and nets -/

theorem updateCell_cases {f : Cell → Cell} :
    (∃ e, updateCell id f names nl = .error e nl) ∨
      ∃ c, nl.cell? id = some c ∧ updateCell id f names nl = .ok () (nl.mapCell id f) := by
  unfold updateCell
  rcases cell_cases names with ⟨e, -, hrun⟩ | ⟨c, hc, hrun⟩
  · exact Or.inl ⟨e, run_bind_of_error hrun⟩
  · rw [run_bind_of_ok hrun]
    exact Or.inr ⟨c, hc, rfl⟩

theorem constantNet_cases {v : ConstValue} :
    (∃ k, nl.constantNet? v = some k ∧ constantNet v names nl = .ok k nl) ∨
      nl.constantNet? v = none ∧ constantNet v names nl = .ok nl.nextNet
        ((nl.addNet (.createConstant v)).recordConstant v nl.nextNet) := by
  unfold constantNet
  cases hv : nl.constantNet? v with
  | some k =>
    refine Or.inl ⟨k, rfl, ?_⟩
    rw [modifyGet_ok, hv]
  | none =>
    refine Or.inr ⟨rfl, ?_⟩
    rw [modifyGet_ok, hv]
    cases v <;> rfl

theorem removeCell_cases :
    (∃ e, removeCell id names nl = .error e nl) ∨
      ∃ c, nl.cell? id = some c ∧ (∀ p ∈ c.ports, p.net = none) ∧ c.cluster.root = none ∧
        removeCell id names nl = .ok c (nl.dropCell id) := by
  unfold removeCell
  rcases cellChecked_cases names with ⟨e, -, hrun⟩ | ⟨c, hc, hrun⟩
  · exact Or.inl ⟨e, run_bind_of_error hrun⟩
  rw [run_bind_of_ok hrun]
  cases hfind : c.ports.find? fun p => p.net.isSome with
  | some p =>
    simp only
    exact Or.inl ⟨_, rfl⟩
  | none =>
    have hfree : ∀ p ∈ c.ports, p.net = none := by
      intro p hp
      simpa using List.find?_eq_none.mp hfind p hp
    simp only
    by_cases hclustered : c.isClustered
    · simp only [hclustered, if_true]
      exact Or.inl ⟨_, rfl⟩
    · simp only [hclustered]
      exact Or.inr ⟨c, hc, hfree, by simpa [Cell.isClustered] using hclustered, rfl⟩

theorem removeNet_cases :
    (∃ e, removeNet k names nl = .error e nl) ∨
      ∃ n, nl.net? k = some n ∧ n.driver = none ∧ n.sinks = [] ∧
        removeNet k names nl = .ok n (nl.dropNet k) := by
  unfold removeNet
  rcases netChecked_cases names with ⟨e, -, hrun⟩ | ⟨n, hn, hrun⟩
  · exact Or.inl ⟨e, run_bind_of_error hrun⟩
  rw [run_bind_of_ok hrun]
  by_cases hfloating : n.isFloating
  · simp only [hfloating, if_true]
    simp only [Net.isFloating, Bool.and_eq_true, Option.isNone_iff_eq_none,
      List.isEmpty_iff] at hfloating
    exact Or.inr ⟨n, hn, hfloating.1, hfloating.2, rfl⟩
  · simp only [hfloating]
    exact Or.inl ⟨_, rfl⟩

end Edit
end FpgaPacking
