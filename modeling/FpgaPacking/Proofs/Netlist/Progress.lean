import FpgaPacking.Proofs.Netlist.Regular

/-!
# Operations that cannot fail

What a regular run does is one question, whether a run is regular another.  Here
are the conditions, in terms of the views of a netlist, under which the operations
that insert cells do not fail: a port is connected if it exists and is free and
the net is there, and an output only to a net that nothing drives.
-/

namespace FpgaPacking

variable {ε σ α β : Type}

/-! ## Runs that do not fail -/

/-- The run from `s` does not fail. -/
def Returns (x : EStateM ε σ α) (s : σ) : Prop := ∃ a s', x s = .ok a s'

theorem Returns.of_ok {x : EStateM ε σ α} {s s' : σ} {a : α} (h : x s = .ok a s') : Returns x s :=
  ⟨a, s', h⟩

theorem Returns.bind {x : EStateM ε σ α} {f : α → EStateM ε σ β} {s : σ} (hx : Returns x s)
    (hf : ∀ a s', x s = .ok a s' → Returns (f a) s') : Returns (x >>= f) s := by
  obtain ⟨a, s', hrun⟩ := hx
  obtain ⟨b, s'', hrest⟩ := hf a s' hrun
  exact ⟨b, s'', bind_ok.mpr ⟨a, s', hrun, hrest⟩⟩

theorem Returns.pure (a : α) (s : σ) : Returns (Pure.pure a : EStateM ε σ α) s := ⟨a, s, rfl⟩

/-- A loop returns if each of its rounds does.  The list in `P` is what is left to be gone through. -/
theorem Returns.foldlM (P : List α → β → σ → Prop) {f : β → α → EStateM ε σ β}
    (hf : ∀ a l b s, P (a :: l) b s → Returns (f b a) s)
    (step : ∀ a l b s b' s', P (a :: l) b s → f b a s = .ok b' s' → P l b' s') :
    ∀ {l : List α} {b : β} {s : σ}, P l b s → Returns (l.foldlM f b) s
  | [], b, s, _ => .pure b s
  | a :: l, b, s, hP => by
    rw [List.foldlM_cons]
    exact .bind (hf a l b s hP) fun b' s' hhead =>
      Returns.foldlM P hf step (step a l b s b' s' hP hhead)

theorem Returns.forM (P : List α → σ → Prop) {f : α → EStateM ε σ PUnit}
    (hf : ∀ a l s, P (a :: l) s → Returns (f a) s)
    (step : ∀ a l s u s', P (a :: l) s → f a s = .ok u s' → P l s') :
    ∀ {l : List α} {s : σ}, P l s → Returns (l.forM f) s
  | [], s, _ => .pure PUnit.unit s
  | a :: l, s, hP =>
    .bind (hf a l s hP) fun u s' hhead => Returns.forM P hf step (step a l s u s' hP hhead)

theorem Packing.returns_edit {x : Edit α} {s : Session} (h : Returns (x s.names) s.netlist) :
    Returns (liftM x : Packing α) s := by
  obtain ⟨a, nl, hrun⟩ := h
  exact ⟨a, _, Packing.edit_ok.mpr ⟨nl, hrun, rfl⟩⟩

theorem Packing.returns_check {x : Except Failure α} {a : α} (s : Session) (h : x = .ok a) :
    Returns (liftM x : Packing α) s :=
  ⟨a, s, Packing.check_ok.mpr ⟨h, rfl⟩⟩

/-! ## Operations -/

namespace Netlist

/-- The net is there, is not constant and has no driver. -/
def Undriven (nl : Netlist) (k : NetId) : Prop :=
  ∃ name, nl.tag k = some (name, none) ∧ ∀ r, nl.wire r = some k → nl.dir r ≠ some .output

theorem Undriven.net {nl : Netlist} {k : NetId} (hw : nl.WellFormed) (h : nl.Undriven k) :
    ∃ n, nl.net? k = some n ∧ n.constant = none ∧ n.driver = none := by
  obtain ⟨name, htag, hdriver⟩ := h
  obtain ⟨n, hn, hpair⟩ := Option.map_eq_some_iff.mp htag
  refine ⟨n, hn, congrArg Prod.snd hpair, ?_⟩
  cases hd : n.driver with
  | none => rfl
  | some r =>
    obtain ⟨hr, hdir⟩ := (hw.wired.driver_iff k n r hn).mp hd
    exact absurd hdir (hdriver r hr)

end Netlist

namespace Edit

open Netlist

variable {nl : Netlist} {id : CellId} {port : Ident} {k : NetId} (names : Names)

theorem returns_bind {x : Edit α} {f : α → Edit β} (hx : Returns (x names) nl)
    (hf : ∀ a nl', x names nl = .ok a nl' → Returns (f a names) nl') :
    Returns ((x >>= f) names) nl :=
  Returns.bind hx hf

theorem returns_cell (h : (nl.bare id).isSome) : Returns (cell id names) nl := by
  rcases @cell_cases names nl id with ⟨e, hnone, -⟩ | ⟨c, -, hrun⟩
  · simp [bare, hnone] at h
  · exact .of_ok hrun

theorem portChecked_of_some {c : Cell} {p : Port} (hc : nl.cell? id = some c)
    (hp : c.port? port = some p) : portChecked id port names nl = .ok (c, p) nl := by
  unfold portChecked
  rcases cellChecked_cases names with ⟨e, hnone, -⟩ | ⟨d, hd, hrun⟩
  · rw [hc] at hnone
    cases hnone
  · obtain rfl := Option.some.inj (hc.symm.trans hd)
    rw [run_bind_of_ok hrun, hp]
    rfl

/-- A free port can be connected to a net; an output needs a net without a driver. -/
theorem returns_connect {d : Direction} (hw : nl.WellFormed) (hdir : nl.dir ⟨id, port⟩ = some d)
    (hfree : nl.wire ⟨id, port⟩ = none) (hnet : (nl.tag k).isSome)
    (hdrive : d = .output → nl.Undriven k) : Returns (connect id port k names) nl := by
  obtain ⟨p, hp, rfl⟩ := Option.map_eq_some_iff.mp hdir
  obtain ⟨c, hc, hport⟩ := Option.bind_eq_some_iff.mp hp
  have hunwired : p.net = none := by simpa [wire_eq, hp] using hfree
  obtain ⟨n, hn⟩ := Option.isSome_iff_exists.mp (tag_isSome ▸ hnet)
  unfold connect
  unfold Returns
  rw [run_bind_of_ok (portChecked_of_some names hc hport)]
  simp only [hunwired]
  rw [run_bind_of_ok (netChecked_of_some names hn)]
  cases hd : p.direction with
  | output =>
    obtain ⟨m, hm, hconstant, hdriver⟩ := (hdrive hd).net hw
    obtain rfl := Option.some.inj (hn.symm.trans hm)
    simp only [hconstant, hdriver]
    exact ⟨_, _, rfl⟩
  | input => exact ⟨_, _, rfl⟩
  | inout => exact ⟨_, _, rfl⟩

/-- Any existing port can be disconnected. -/
theorem returns_disconnect (hw : nl.WellFormed) (hdir : (nl.dir ⟨id, port⟩).isSome) :
    Returns (disconnect id port names) nl := by
  obtain ⟨d, hdir⟩ := Option.isSome_iff_exists.mp hdir
  obtain ⟨p, hp, -⟩ := Option.map_eq_some_iff.mp hdir
  obtain ⟨c, hc, hport⟩ := Option.bind_eq_some_iff.mp hp
  unfold disconnect
  unfold Returns
  rw [run_bind_of_ok (portChecked_of_some names hc hport)]
  cases hnet : p.net with
  | none =>
    simp only [hnet]
    exact ⟨_, _, rfl⟩
  | some k =>
    simp only [hnet]
    obtain ⟨n, hn⟩ := Option.isSome_iff_exists.mp
      (hw.wired.wire_live ⟨id, port⟩ k (wire_eq_some.mpr ⟨p, hp, hnet⟩))
    rw [run_bind_of_ok (netChecked_of_some names hn)]
    exact ⟨_, _, rfl⟩

/-- A free port can be removed. -/
theorem removePort_of_free {c : Cell} {p : Port} (hc : nl.cell? id = some c)
    (hp : c.port? port = some p) (hfree : p.net = none) :
    removePort id port names nl = .ok () (nl.mapCell id fun c => c.dropPort port) := by
  unfold removePort
  rw [run_bind_of_ok (portChecked_of_some names hc hp)]
  simp only [hfree]
  rfl

theorem returns_updateCell {f : Cell → Cell} (h : (nl.bare id).isSome) :
    Returns (updateCell id f names) nl :=
  returns_bind names (returns_cell names h) fun _ _ _ => ⟨_, _, rfl⟩

/-! ## Instances of templates -/

theorem addPort_of_none {c : Cell} {d : Direction} (hc : nl.cell? id = some c)
    (hp : c.port? port = none) :
    addPort id port d names nl = .ok () (nl.mapCell id fun c => c.addPort ⟨port, d, none⟩) := by
  unfold addPort
  rcases cellChecked_cases names with ⟨e, hnone, -⟩ | ⟨b, hb, hrun⟩
  · rw [hc] at hnone
    cases hnone
  · obtain rfl := Option.some.inj (hc.symm.trans hb)
    rw [run_bind_of_ok hrun, hp]
    rfl

/-- Ports that a cell does not have and that differ from each other can be added. -/
theorem exists_addPorts {c : Cell} {ports : List (Ident × Direction)}
    (hc : nl.cell? id = some c) (hnew : ∀ p ∈ ports, c.port? p.1 = none)
    (hnodup : (ports.map (·.1)).Nodup) :
    ∃ nl', (ports.forM fun p => addPort id p.1 p.2 : Edit PUnit) names nl = .ok ⟨⟩ nl' ∧
      (nl'.bare id).isSome := by
  induction ports generalizing nl c with
  | nil => exact ⟨nl, rfl, by simp [bare, hc]⟩
  | cons p ports ih =>
    obtain ⟨hpnew, hnew⟩ := List.forall_mem_cons.mp hnew
    obtain ⟨hpfirst, hnodup⟩ := List.nodup_cons.mp hnodup
    have hfirst := addPort_of_none names (d := p.2) hc hpnew
    have hcell : (nl.mapCell id fun c => c.addPort ⟨p.1, p.2, none⟩).cell? id =
        some (c.addPort ⟨p.1, p.2, none⟩) := by simp [cell?_mapCell, hc]
    have hother : ∀ q ∈ ports, (c.addPort ⟨p.1, p.2, none⟩).port? q.1 = none := by
      intro q hq
      have hne : q.1 ≠ p.1 := fun e => hpfirst (List.mem_map.mpr ⟨q, hq, e⟩)
      rw [Cell.port?_addPort hpnew, if_neg hne]
      exact hnew q hq
    obtain ⟨nl', hrest, hlive⟩ := ih hcell hother hnodup
    exact ⟨nl', bind_ok.mpr ⟨_, _, hfirst, hrest⟩, hlive⟩

theorem returns_instantiate {t : CellTemplate} {name : String}
    (hnodup : (t.ports.map (·.1)).Nodup) : Returns (t.instantiate name names) nl := by
  have hcell : (nl.addCell (.create t.cellType name)).cell? nl.nextCell =
      some (.create t.cellType name) := by simp [cell?_addCell]
  obtain ⟨nl', hports, hlive⟩ := exists_addPorts names hcell (fun _ _ => rfl) hnodup
  unfold CellTemplate.instantiate
  refine returns_bind names ⟨_, _, rfl⟩ fun id nl₁ hcreate => ?_
  obtain ⟨rfl, rfl⟩ := createCell_ok hcreate
  refine returns_bind names (.of_ok hports) fun u nl₂ hrun => ?_
  obtain rfl : nl' = nl₂ := by
    have hsame := hports.symm.trans hrun
    cases hsame
    rfl
  exact returns_bind names (returns_updateCell names hlive) fun _ _ _ => .pure _ _

end Edit
end FpgaPacking
