import FpgaPacking.Proofs.Netlist.Wiring
import Mathlib.Data.List.Nodup

/-!
# Well-formed netlists

A netlist records every connection twice, at the port and at the net.
`WellFormed` says that the two records agree, that names of ports are distinct
in each cell, that the constant nets are the recorded ones, and that only live
cells are queued for removal.

The definition speaks of drivers, sinks and occurrences.  In proofs the views of
a netlist are more convenient, and `Wired` says the same with
them: the driver of a net is the output whose wire it is, and its sinks are the
other ports whose wire it is.  Everything below goes through that form.
-/

namespace FpgaPacking

/-- The ports on the net. -/
def Net.ports (n : Net) : List PortRef := n.driver.toList ++ n.sinks

theorem Net.mem_ports {n : Net} {r : PortRef} : r ∈ n.ports ↔ n.driver = some r ∨ r ∈ n.sinks := by
  simp [ports]

/-- The net has the port where a port of the given direction belongs: an output
as its driver, any other port exactly once among its sinks. -/
def Net.Holds (n : Net) (r : PortRef) : Direction → Prop
  | .output => n.driver = some r
  | .input | .inout => n.sinks.count r = 1

namespace Netlist

/-- Both records of every connection agree, and so does the bookkeeping. -/
structure WellFormed (nl : Netlist) : Prop where
  /-- Port names are unique in each cell. -/
  port_names : ∀ id c, nl.cell? id = some c → (c.ports.map (·.name)).Nodup
  /-- A port is on a net exactly if the net is live and has the port in its place. -/
  on_net : ∀ r p k, nl.port? r = some p →
    (p.net = some k ↔ ∃ n, nl.net? k = some n ∧ n.Holds r p.direction)
  /-- A driver is an existing output. -/
  driver_port : ∀ k n r, nl.net? k = some n → n.driver = some r →
    ∃ p, nl.port? r = some p ∧ p.direction = .output
  /-- A sink is an existing port that is not an output. -/
  sink_port : ∀ k n r, nl.net? k = some n → r ∈ n.sinks →
    ∃ p, nl.port? r = some p ∧ p.direction ≠ .output
  /-- No port is a sink twice. -/
  sinks_nodup : ∀ k n, nl.net? k = some n → n.sinks.Nodup
  /-- A constant net has no driver. -/
  constant_undriven : ∀ k n, nl.net? k = some n → n.constant.isSome → n.driver = none
  /-- The only live net with a constant tag is the recorded one. -/
  constant_recorded : ∀ v k, nl.constValue k = some v ↔ nl.constantNet? v = some k
  /-- Queued cells are live. -/
  queue_live : ∀ id, nl.isMarked id = true → (nl.cell? id).isSome

/-- Well-formedness in terms of the views of a netlist. -/
structure Wired (nl : Netlist) : Prop where
  port_names : ∀ id c, nl.bare id = some c → (c.ports.map (·.name)).Nodup
  wire_live : ∀ r k, nl.wire r = some k → (nl.net? k).isSome
  driver_iff : ∀ k n r, nl.net? k = some n →
    (n.driver = some r ↔ nl.wire r = some k ∧ nl.dir r = some .output)
  sink_iff : ∀ k n r, nl.net? k = some n →
    (r ∈ n.sinks ↔ nl.wire r = some k ∧ nl.dir r ≠ some .output)
  sinks_nodup : ∀ k n, nl.net? k = some n → n.sinks.Nodup
  constant_undriven : ∀ k n, nl.net? k = some n → n.constant.isSome → n.driver = none
  constant_recorded : ∀ v k, nl.constValue k = some v ↔ nl.constantNet? v = some k
  queue_live : ∀ id, nl.isMarked id = true → (nl.bare id).isSome

variable {nl : Netlist}

theorem wire_eq_some {r : PortRef} {k : NetId} :
    nl.wire r = some k ↔ ∃ p, nl.port? r = some p ∧ p.net = some k := by
  rw [wire_eq, Option.bind_eq_some_iff]

/-- What is connected under a name is a declared port with that name. -/
theorem exists_port_of_wire {id : CellId} {c : Cell} {name : Ident} {k : NetId}
    (hc : nl.cell? id = some c) (h : nl.wire ⟨id, name⟩ = some k) :
    ∃ p ∈ c.ports, p.name = name ∧ p.net = some k ∧ nl.dir ⟨id, name⟩ = some p.direction := by
  obtain ⟨p, hp, hk⟩ := wire_eq_some.mp h
  have hfound : c.port? name = some p := by simpa [port?, hc] using hp
  have hdir : nl.dir ⟨id, name⟩ = some p.direction := by simp [dir, hp]
  exact ⟨p, Cell.mem_ports_of_port? hfound, Cell.name_of_port? hfound, hk, hdir⟩

theorem port_names_iff_bare {id : CellId} :
    (∀ c, nl.cell? id = some c → (c.ports.map (·.name)).Nodup) ↔
      ∀ c, nl.bare id = some c → (c.ports.map (·.name)).Nodup := by
  unfold bare
  cases nl.cell? id with
  | none => simp
  | some c => simp [Cell.unwired, Function.comp_def]

theorem holds_of_mem_sinks {n : Net} {r : PortRef} {d : Direction} (hnodup : n.sinks.Nodup)
    (hd : d ≠ .output) : n.Holds r d ↔ r ∈ n.sinks := by
  have hcount : n.sinks.count r = 1 ↔ r ∈ n.sinks := by
    rw [hnodup.count]
    split <;> simp_all
  cases d with
  | output => exact absurd rfl hd
  | input => exact hcount
  | inout => exact hcount

theorem Wired.wellFormed (h : nl.Wired) : nl.WellFormed where
  port_names id := port_names_iff_bare.mpr (h.port_names id)
  on_net r p k hp := by
    have hwire : nl.wire r = some k ↔ p.net = some k := by simp [wire_eq, hp]
    have hdir : nl.dir r = some p.direction := by simp [dir, hp]
    rw [← hwire]
    constructor
    · intro hk
      obtain ⟨n, hn⟩ := Option.isSome_iff_exists.mp (h.wire_live r k hk)
      refine ⟨n, hn, ?_⟩
      by_cases hd : p.direction = .output
      · rw [hd]
        exact (h.driver_iff k n r hn).mpr ⟨hk, hd ▸ hdir⟩
      · rw [holds_of_mem_sinks (h.sinks_nodup k n hn) hd]
        exact (h.sink_iff k n r hn).mpr ⟨hk, by simp [hdir, hd]⟩
    · rintro ⟨n, hn, hold⟩
      by_cases hd : p.direction = .output
      · rw [hd] at hold
        exact ((h.driver_iff k n r hn).mp hold).1
      · rw [holds_of_mem_sinks (h.sinks_nodup k n hn) hd] at hold
        exact ((h.sink_iff k n r hn).mp hold).1
  driver_port k n r hn hr := by
    obtain ⟨-, hd⟩ := (h.driver_iff k n r hn).mp hr
    simpa [dir] using hd
  sink_port k n r hn hr := by
    obtain ⟨hw, hd⟩ := (h.sink_iff k n r hn).mp hr
    obtain ⟨p, hp, -⟩ := wire_eq_some.mp hw
    exact ⟨p, hp, by simpa [dir, hp] using hd⟩
  sinks_nodup := h.sinks_nodup
  constant_undriven := h.constant_undriven
  constant_recorded := h.constant_recorded
  queue_live id hid := bare_isSome ▸ h.queue_live id hid

/-- A declared port is the one that is found under its name. -/
theorem WellFormed.port_of_mem (h : nl.WellFormed) {id : CellId} {c : Cell} {p : Port}
    (hc : nl.cell? id = some c) (hp : p ∈ c.ports) :
    nl.wire ⟨id, p.name⟩ = p.net ∧ nl.dir ⟨id, p.name⟩ = some p.direction := by
  have hfound : c.port? p.name = some p := Cell.port?_of_mem (h.port_names id c hc) hp
  have hport : nl.port? ⟨id, p.name⟩ = some p := by simp [port?, hc, hfound]
  exact ⟨by simp [wire_eq, hport], by simp [dir, hport]⟩

theorem WellFormed.wired (h : nl.WellFormed) : nl.Wired where
  port_names id := port_names_iff_bare.mp (h.port_names id)
  wire_live r k hr := by
    obtain ⟨p, hp, hk⟩ := wire_eq_some.mp hr
    obtain ⟨n, hn, -⟩ := (h.on_net r p k hp).mp hk
    simp [hn]
  driver_iff k n r hn := by
    constructor
    · intro hr
      obtain ⟨p, hp, hd⟩ := h.driver_port k n r hn hr
      have hk : p.net = some k := (h.on_net r p k hp).mpr ⟨n, hn, by rw [hd]; exact hr⟩
      exact ⟨wire_eq_some.mpr ⟨p, hp, hk⟩, by simp [dir, hp, hd]⟩
    · rintro ⟨hw, hd⟩
      obtain ⟨p, hp, hk⟩ := wire_eq_some.mp hw
      obtain ⟨n', hn', hold⟩ := (h.on_net r p k hp).mp hk
      obtain rfl : n = n' := Option.some.inj (hn.symm.trans hn')
      have hout : p.direction = .output := by simpa [dir, hp] using hd
      rwa [hout] at hold
  sink_iff k n r hn := by
    constructor
    · intro hr
      obtain ⟨p, hp, hd⟩ := h.sink_port k n r hn hr
      have hold : n.Holds r p.direction := (holds_of_mem_sinks (h.sinks_nodup k n hn) hd).mpr hr
      have hk : p.net = some k := (h.on_net r p k hp).mpr ⟨n, hn, hold⟩
      exact ⟨wire_eq_some.mpr ⟨p, hp, hk⟩, by simp [dir, hp, hd]⟩
    · rintro ⟨hw, hd⟩
      obtain ⟨p, hp, hk⟩ := wire_eq_some.mp hw
      obtain ⟨n', hn', hold⟩ := (h.on_net r p k hp).mp hk
      obtain rfl : n = n' := Option.some.inj (hn.symm.trans hn')
      have hout : p.direction ≠ .output := by simpa [dir, hp] using hd
      exact (holds_of_mem_sinks (h.sinks_nodup k n hn) hout).mp hold
  sinks_nodup := h.sinks_nodup
  constant_undriven := h.constant_undriven
  constant_recorded := h.constant_recorded
  queue_live id hid := bare_isSome ▸ h.queue_live id hid

/-- The ports on a net are those whose wire it is. -/
theorem WellFormed.mem_ports (h : nl.WellFormed) {k : NetId} {n : Net} {r : PortRef}
    (hn : nl.net? k = some n) : r ∈ n.ports ↔ nl.wire r = some k := by
  rw [Net.mem_ports, h.wired.driver_iff k n r hn, h.wired.sink_iff k n r hn]
  by_cases hd : nl.dir r = some .output <;> simp [hd]

theorem Wired.empty : empty.Wired where
  port_names _ _ h := nomatch h
  wire_live _ _ h := nomatch h
  driver_iff _ _ _ h := nomatch h
  sink_iff _ _ _ h := nomatch h
  sinks_nodup _ _ h := nomatch h
  constant_undriven _ _ h := nomatch h
  constant_recorded v _ := by
    cases v <;> simp [constValue, constantNet?, net?, Netlist.empty]
  queue_live _ h := nomatch h

end Netlist
end FpgaPacking
