import FpgaPacking.Proofs.Netlist.WellFormed

/-!
# Changes that keep a netlist well-formed

Each of the changes that elementary edits are made of keeps a netlist
well-formed, under the conditions that the edits check.  Three statements cover
them all: changes of cells that leave the nets alone, changes of one net
together with the ports on it, and changes of the set of nets.
-/

namespace FpgaPacking
namespace Netlist

variable {nl nl' : Netlist}

namespace Wired

/-- A change of the cells that keeps all connections and the directions of the
ports that are connected. -/
theorem of_same_nets (h : nl.Wired) (hnet : nl'.net? = nl.net?) (hwire : nl'.wire = nl.wire)
    (hdir : ∀ r k, nl.wire r = some k → nl'.dir r = nl.dir r)
    (hnames : ∀ id c, nl'.bare id = some c → (c.ports.map (·.name)).Nodup)
    (hconstant : nl'.constantNet? = nl.constantNet?)
    (hqueue : ∀ id, nl'.isMarked id = true → (nl'.bare id).isSome) : nl'.Wired where
  port_names := hnames
  wire_live r k hr := by
    rw [hnet]
    exact h.wire_live r k (hwire ▸ hr)
  driver_iff k n r hn := by
    rw [h.driver_iff k n r (hnet ▸ hn), hwire]
    exact and_congr_right fun hr => by rw [hdir r k hr]
  sink_iff k n r hn := by
    rw [h.sink_iff k n r (hnet ▸ hn), hwire]
    exact and_congr_right fun hr => by rw [hdir r k hr]
  sinks_nodup k n hn := h.sinks_nodup k n (hnet ▸ hn)
  constant_undriven k n hn := h.constant_undriven k n (hnet ▸ hn)
  constant_recorded v k := by
    have hvalue : nl'.constValue = nl.constValue := by
      funext k
      unfold constValue
      rw [hnet]
    rw [hconstant, hvalue]
    exact h.constant_recorded v k
  queue_live := hqueue

variable {r : PortRef} {p : Port} {k : NetId} {n m : Net}

/-- A change of one net and of the ports on it. -/
theorem of_changed_net (h : nl.Wired) (hn : nl.net? k = some n) (hm : nl'.net? k = some m)
    (hnet : ∀ k', k' ≠ k → nl'.net? k' = nl.net? k')
    (hwire : ∀ q k', k' ≠ k → (nl'.wire q = some k' ↔ nl.wire q = some k'))
    (hdir : ∀ q k', k' ≠ k → nl.wire q = some k' → nl'.dir q = nl.dir q)
    (hdriver : ∀ q, m.driver = some q ↔ nl'.wire q = some k ∧ nl'.dir q = some .output)
    (hsink : ∀ q, q ∈ m.sinks ↔ nl'.wire q = some k ∧ nl'.dir q ≠ some .output)
    (hnodup : m.sinks.Nodup) (hvalue : m.constant = n.constant)
    (hundriven : n.constant.isSome → m.driver = none)
    (hnames : ∀ id c, nl'.bare id = some c → (c.ports.map (·.name)).Nodup)
    (hconstant : nl'.constantNet? = nl.constantNet?)
    (hqueue : ∀ id, nl'.isMarked id = true → (nl'.bare id).isSome) : nl'.Wired := by
  have hcases : ∀ k' x, nl'.net? k' = some x →
      k' = k ∧ x = m ∨ k' ≠ k ∧ nl.net? k' = some x := by
    intro k' x hx
    by_cases hk : k' = k
    · subst hk
      exact Or.inl ⟨rfl, Option.some.inj (hx.symm.trans hm)⟩
    · exact Or.inr ⟨hk, hnet k' hk ▸ hx⟩
  constructor
  case port_names => exact hnames
  case wire_live =>
    intro q k' hq
    by_cases hk : k' = k
    · subst hk
      simp [hm]
    · rw [hnet k' hk]
      exact h.wire_live q k' ((hwire q k' hk).mp hq)
  case driver_iff =>
    intro k' x q hx
    rcases hcases k' x hx with ⟨rfl, rfl⟩ | ⟨hk, hx⟩
    · exact hdriver q
    · rw [h.driver_iff k' x q hx, hwire q k' hk]
      exact and_congr_right fun hq => by rw [hdir q k' hk hq]
  case sink_iff =>
    intro k' x q hx
    rcases hcases k' x hx with ⟨rfl, rfl⟩ | ⟨hk, hx⟩
    · exact hsink q
    · rw [h.sink_iff k' x q hx, hwire q k' hk]
      exact and_congr_right fun hq => by rw [hdir q k' hk hq]
  case sinks_nodup =>
    intro k' x hx
    rcases hcases k' x hx with ⟨-, rfl⟩ | ⟨-, hx⟩
    · exact hnodup
    · exact h.sinks_nodup k' x hx
  case constant_undriven =>
    intro k' x hx hc
    rcases hcases k' x hx with ⟨-, rfl⟩ | ⟨-, hx⟩
    · exact hundriven (hvalue ▸ hc)
    · exact h.constant_undriven k' x hx hc
  case constant_recorded =>
    intro v k'
    rw [hconstant, ← h.constant_recorded v k']
    unfold constValue
    by_cases hk : k' = k
    · subst hk
      rw [hn, hm]
      show m.constant = some v ↔ n.constant = some v
      rw [hvalue]
    · rw [hnet k' hk]
  case queue_live => exact hqueue

theorem not_driver_of_wire (h : nl.Wired) (hn : nl.net? k = some n) (hr : nl.wire r ≠ some k) :
    n.driver ≠ some r :=
  fun e => hr ((h.driver_iff k n r hn).mp e).1

theorem not_sink_of_wire (h : nl.Wired) (hn : nl.net? k = some n) (hr : nl.wire r ≠ some k) :
    r ∉ n.sinks :=
  fun e => hr ((h.sink_iff k n r hn).mp e).1

/-- A port that is on no net can be put on one, as its driver only if the net
has none and is not constant. -/
theorem attach (h : nl.Wired) (hp : nl.port? r = some p) (hfree : nl.wire r = none)
    (hn : nl.net? k = some n)
    (hout : p.direction = .output → n.constant = none ∧ n.driver = none) :
    (nl.attach r p.direction k).Wired := by
  have hdirr : nl.dir r = some p.direction := by simp [dir, hp]
  have hwire : (nl.attach r p.direction k).wire = Function.update nl.wire r (some k) :=
    wire_attach (by simp [hp])
  have hdir : ∀ q, (nl.attach r p.direction k).dir q = nl.dir q := fun q =>
    dir_congr (congrFun bare_attach q.cell)
  have hnodriver : n.driver ≠ some r := h.not_driver_of_wire hn (by simp [hfree])
  have hnosink : r ∉ n.sinks := h.not_sink_of_wire hn (by simp [hfree])
  refine h.of_changed_net (k := k) hn (m := n.hold r p.direction) ?_ ?_ ?_ ?_ ?_ ?_ ?_ ?_ ?_ ?_ rfl ?_
  · simp [net?_attach, hn]
  · intro k' hk
    rw [net?_attach, if_neg hk]
  · intro q k' hk
    rw [hwire]
    by_cases hq : q = r
    · subst hq
      simp [hfree, Ne.symm hk]
    · rw [Function.update_of_ne hq]
  · exact fun q _ _ _ => hdir q
  · intro q
    rw [hwire, hdir]
    by_cases hq : q = r
    · subst hq
      rw [Function.update_self, hdirr]
      cases p.direction <;> simp [Net.hold, Net.drive, Net.addSink, hnodriver]
    · rw [Function.update_of_ne hq, ← h.driver_iff k n q hn]
      cases hd : p.direction with
      | output => simp [Net.hold, Net.drive, Ne.symm hq, (hout hd).2]
      | input => exact Iff.rfl
      | inout => exact Iff.rfl
  · intro q
    rw [hwire, hdir]
    by_cases hq : q = r
    · subst hq
      rw [Function.update_self, hdirr]
      cases p.direction <;> simp [Net.hold, Net.drive, Net.addSink, hnosink]
    · rw [Function.update_of_ne hq, ← h.sink_iff k n q hn]
      cases p.direction <;> simp [Net.hold, Net.drive, Net.addSink, hq]
  · have hold := h.sinks_nodup k n hn
    have hlonger : (n.sinks ++ [r]).Nodup := by
      rw [← List.concat_eq_append]
      exact hold.concat hnosink
    cases p.direction with
    | output => exact hold
    | input => exact hlonger
    | inout => exact hlonger
  · exact n.constant_hold r p.direction
  · intro hc
    have hold := h.constant_undriven k n hn hc
    cases hd : p.direction with
    | output => simp [(hout hd).1] at hc
    | input => exact hold
    | inout => exact hold
  · intro id c hc
    rw [bare_attach] at hc
    exact h.port_names id c hc
  · intro id hid
    rw [bare_attach]
    exact h.queue_live id hid

/-- A port can be taken off its net. -/
theorem detach (h : nl.Wired) (hr : nl.wire r = some k) (hn : nl.net? k = some n) :
    (nl.detach r k).Wired := by
  obtain ⟨p, hp, -⟩ := wire_eq_some.mp hr
  have hwire : (nl.detach r k).wire = Function.update nl.wire r none := wire_detach (by simp [hp])
  have hdir : ∀ q, (nl.detach r k).dir q = nl.dir q := fun q =>
    dir_congr (congrFun bare_detach q.cell)
  refine h.of_changed_net (k := k) hn (m := n.detach r) ?_ ?_ ?_ ?_ ?_ ?_ ?_ rfl ?_ ?_ rfl ?_
  · simp [net?_detach, hn]
  · intro k' hk
    rw [net?_detach, if_neg hk]
  · intro q k' hk
    rw [hwire]
    by_cases hq : q = r
    · subst hq
      simp [hr, Ne.symm hk]
    · rw [Function.update_of_ne hq]
  · exact fun q _ _ _ => hdir q
  · intro q
    rw [hwire, hdir]
    by_cases hq : q = r
    · subst hq
      by_cases hd : n.driver = some q <;> simp [Net.detach, hd]
    · rw [Function.update_of_ne hq, ← h.driver_iff k n q hn]
      by_cases hd : n.driver = some r
      · simp [Net.detach, hd, Ne.symm hq]
      · simp [Net.detach, hd]
  · intro q
    rw [hwire, hdir]
    by_cases hq : q = r
    · subst hq
      simp [Net.detach]
    · rw [Function.update_of_ne hq, ← h.sink_iff k n q hn]
      simp [Net.detach, hq]
  · exact (h.sinks_nodup k n hn).filter _
  · intro hc
    have hold := h.constant_undriven k n hn hc
    simp [Net.detach, hold]
  · intro id c hc
    rw [bare_detach] at hc
    exact h.port_names id c hc
  · intro id hid
    rw [bare_detach]
    exact h.queue_live id hid

/-- A change of the nets that only creates or removes nets without connections. -/
theorem of_same_wires (h : nl.Wired) (hcell : nl'.cells = nl.cells) (hqueue : nl'.queue = nl.queue)
    (hlive : ∀ r k, nl.wire r = some k → nl'.net? k = nl.net? k)
    (hnet : ∀ k n, nl'.net? k = some n →
      nl.net? k = some n ∨ n.driver = none ∧ n.sinks = [] ∧ ∀ r, nl.wire r ≠ some k)
    (hconstant : ∀ v k, nl'.constValue k = some v ↔ nl'.constantNet? v = some k) : nl'.Wired := by
  have hport : nl'.port? = nl.port? := by
    funext r
    unfold port? cell?
    rw [hcell]
  have hwire : nl'.wire = nl.wire := by
    funext r
    rw [wire_eq, wire_eq, hport]
  have hdir : nl'.dir = nl.dir := by
    funext r
    unfold dir
    rw [hport]
  have hbare : nl'.bare = nl.bare := by
    funext id
    unfold bare cell?
    rw [hcell]
  constructor
  case port_names =>
    intro id c hc
    exact h.port_names id c (hbare ▸ hc)
  case wire_live =>
    intro r k hr
    rw [hwire] at hr
    rw [hlive r k hr]
    exact h.wire_live r k hr
  case driver_iff =>
    intro k n r hn
    rw [hwire, hdir]
    rcases hnet k n hn with hn | ⟨hdriver, -, hfree⟩
    · exact h.driver_iff k n r hn
    · simp [hdriver, hfree r]
  case sink_iff =>
    intro k n r hn
    rw [hwire, hdir]
    rcases hnet k n hn with hn | ⟨-, hsinks, hfree⟩
    · exact h.sink_iff k n r hn
    · simp [hsinks, hfree r]
  case sinks_nodup =>
    intro k n hn
    rcases hnet k n hn with hn | ⟨-, hsinks, -⟩
    · exact h.sinks_nodup k n hn
    · simp [hsinks]
  case constant_undriven =>
    intro k n hn hc
    rcases hnet k n hn with hn | ⟨hdriver, -, -⟩
    · exact h.constant_undriven k n hn hc
    · exact hdriver
  case constant_recorded => exact hconstant
  case queue_live =>
    intro id hid
    rw [hbare]
    unfold isMarked at hid
    rw [hqueue] at hid
    exact h.queue_live id hid

/-! ## Cells -/

/-- A change of one cell that keeps all connections and the directions of its
connected ports. -/
theorem mapCell (h : nl.Wired) {id : CellId} {f : Cell → Cell} {c : Cell}
    (hc : nl.cell? id = some c) (hnames : ((f c).ports.map (·.name)).Nodup)
    (hnet : ∀ name, (f c).netOf name = c.netOf name)
    (hdir : ∀ name p, c.port? name = some p → p.net.isSome →
      ((f c).port? name).map (·.direction) = some p.direction) :
    (nl.mapCell id f).Wired := by
  have hport : ∀ r, r.cell ≠ id → (nl.mapCell id f).port? r = nl.port? r := fun r hr => by
    rw [port?_mapCell, if_neg hr]
  have hself : ∀ r, r.cell = id → (nl.mapCell id f).port? r = (f c).port? r.port := fun r hr => by
    rw [port?_mapCell, if_pos hr, hc]
    rfl
  have hwire : (nl.mapCell id f).wire = nl.wire := by
    funext r
    by_cases hr : r.cell = id
    · rw [wire_eq, hself r hr]
      show (f c).netOf r.port = (nl.cell? r.cell).bind _
      rw [hnet, hr, hc]
      rfl
    · rw [wire_eq, wire_eq, hport r hr]
  refine h.of_same_nets rfl hwire ?_ ?_ rfl ?_
  · intro r k hrk
    obtain ⟨p, hp, hk⟩ := wire_eq_some.mp hrk
    unfold dir
    by_cases hr : r.cell = id
    · have hp' : c.port? r.port = some p := by simpa [port?, hr, hc] using hp
      rw [hself r hr, hdir r.port p hp' (by simp [hk]), hp]
      rfl
    · rw [hport r hr]
  · intro other c' hc'
    refine port_names_iff_bare.mp (fun c'' hc'' => ?_) c' hc'
    rw [cell?_mapCell] at hc''
    split at hc''
    · rw [hc] at hc''
      obtain rfl : f c = c'' := Option.some.inj hc''
      exact hnames
    · exact port_names_iff_bare.mpr (h.port_names other) c'' hc''
  · intro other hother
    have hlive := h.queue_live other hother
    rw [bare_isSome] at hlive ⊢
    rw [cell?_mapCell]
    split
    · simp [hc]
    · exact hlive

theorem addCell (h : nl.Wired) {c : Cell} (hc : c.ports = []) : (nl.addCell c).Wired := by
  have hport : (nl.addCell c).port? = nl.port? := by
    funext r
    unfold port?
    rw [cell?_addCell]
    split
    · next hr =>
      rw [hr, cell?_nextCell]
      simp [Cell.port?, hc]
    · rfl
  refine h.of_same_nets rfl ?_ ?_ ?_ rfl ?_
  · funext r
    rw [wire_eq, wire_eq, hport]
  · intro r k _
    unfold dir
    rw [hport]
  · intro id c' hc'
    refine port_names_iff_bare.mp (fun c'' hc'' => ?_) c' hc'
    rw [cell?_addCell] at hc''
    split at hc''
    · obtain rfl : c = c'' := Option.some.inj hc''
      simp [hc]
    · exact port_names_iff_bare.mpr (h.port_names id) c'' hc''
  · intro id hid
    have hlive := h.queue_live id hid
    rw [bare_isSome] at hlive ⊢
    rw [cell?_addCell]
    split
    · rfl
    · exact hlive

theorem dropCell (h : nl.Wired) {id : CellId} {c : Cell} (hc : nl.cell? id = some c)
    (hfree : ∀ p ∈ c.ports, p.net = none) : (nl.dropCell id).Wired := by
  have hunconnected : ∀ r, r.cell = id → nl.wire r = none := by
    intro r hr
    rw [wire_eq, port?, hr, hc]
    cases hp : c.port? r.port with
    | none => simp [hp]
    | some p => simp [hp, hfree p (Cell.mem_ports_of_port? hp)]
  have hport : ∀ r, (nl.dropCell id).port? r = if r.cell = id then none else nl.port? r := by
    intro r
    unfold port?
    rw [cell?_dropCell]
    split <;> rfl
  refine h.of_same_nets rfl ?_ ?_ ?_ rfl ?_
  · funext r
    rw [wire_eq, hport]
    split
    · next hr => exact (hunconnected r hr).symm
    · exact wire_eq.symm
  · intro r k hr
    have hne : r.cell ≠ id := fun e => by
      rw [hunconnected r e] at hr
      cases hr
    unfold dir
    rw [hport, if_neg hne]
  · intro other c' hc'
    refine port_names_iff_bare.mp (fun c'' hc'' => ?_) c' hc'
    rw [cell?_dropCell] at hc''
    split at hc''
    · cases hc''
    · exact port_names_iff_bare.mpr (h.port_names other) c'' hc''
  · intro other hother
    have hmarked : (nl.queue.erase id).contains other = true := hother
    unfold Table.contains at hmarked
    rw [Table.find?_erase] at hmarked
    rw [bare_isSome, cell?_dropCell]
    by_cases he : other = id
    · simp [he] at hmarked
    · rw [if_neg he] at hmarked ⊢
      rw [← bare_isSome]
      exact h.queue_live other hmarked

/-- The queue may be changed as long as only live cells are in it. -/
theorem withQueue (h : nl.Wired) {queue : Keys CellId}
    (hlive : ∀ id, queue.contains id = true → nl.isMarked id = true ∨ (nl.cell? id).isSome) :
    ({ nl with queue } : Netlist).Wired := by
  refine h.of_same_nets rfl rfl (fun _ _ _ => rfl) h.port_names rfl ?_
  intro id hid
  rcases hlive id hid with hmarked | hsome
  · exact h.queue_live id hmarked
  · rw [bare_isSome]
    exact hsome

/-! ## Nets -/

theorem wire_ne_nextNet (h : nl.Wired) (r : PortRef) : nl.wire r ≠ some nl.nextNet := by
  intro hr
  have := h.wire_live r _ hr
  rw [net?_nextNet] at this
  cases this

theorem addNet (h : nl.Wired) (name : String) : (nl.addNet (.create name)).Wired := by
  refine h.of_same_wires rfl rfl ?_ ?_ ?_
  · intro r k hr
    rw [net?_addNet, if_neg]
    rintro rfl
    exact h.wire_ne_nextNet r hr
  · intro k n hn
    rw [net?_addNet] at hn
    split at hn
    · next hk =>
      obtain rfl : Net.create name = n := Option.some.inj hn
      exact Or.inr ⟨rfl, rfl, hk ▸ h.wire_ne_nextNet⟩
    · exact Or.inl hn
  · intro v k
    have hvalue : (nl.addNet (.create name)).constValue k = nl.constValue k := by
      unfold constValue
      rw [net?_addNet]
      split
      · next hk =>
        rw [hk, net?_nextNet]
        rfl
      · rfl
    rw [hvalue]
    exact h.constant_recorded v k

theorem addConstant (h : nl.Wired) {v : ConstValue} (hv : nl.constantNet? v = none) :
    ((nl.addNet (.createConstant v)).recordConstant v nl.nextNet).Wired := by
  have hnet : ∀ k, ((nl.addNet (.createConstant v)).recordConstant v nl.nextNet).net? k =
      if k = nl.nextNet then some (.createConstant v) else nl.net? k := by
    intro k
    rw [← net?_addNet]
    cases v <;> rfl
  refine h.of_same_wires (by cases v <;> rfl) (by cases v <;> rfl) ?_ ?_ ?_
  · intro r k hr
    rw [hnet, if_neg]
    rintro rfl
    exact h.wire_ne_nextNet r hr
  · intro k n hn
    rw [hnet] at hn
    split at hn
    · next hk =>
      obtain rfl : Net.createConstant v = n := Option.some.inj hn
      exact Or.inr ⟨rfl, rfl, hk ▸ h.wire_ne_nextNet⟩
    · exact Or.inl hn
  · intro w k
    rw [constantNet?_recordConstant]
    unfold constValue
    rw [hnet]
    have hold := h.constant_recorded w k
    unfold constValue at hold
    by_cases hk : k = nl.nextNet
    · rw [hk, net?_nextNet] at hold
      rw [if_pos hk]
      by_cases hw : w = v
      · simp [hw, hk, Net.createConstant]
      · have hother : nl.constantNet? w ≠ some k := by
          intro e
          cases hold.mpr (hk ▸ e)
        rw [if_neg hw]
        show some v = some w ↔ nl.constantNet? w = some k
        simp [hother, Ne.symm hw]
    · rw [if_neg hk, hold]
      by_cases hw : w = v
      · simp [hw, hv, Ne.symm hk]
      · simp [hw]
        exact Iff.rfl

theorem dropNet (h : nl.Wired) {k : NetId} {n : Net} (hn : nl.net? k = some n)
    (hdriver : n.driver = none) (hsinks : n.sinks = []) : (nl.dropNet k).Wired := by
  have hfree : ∀ r, nl.wire r ≠ some k := by
    intro r hr
    by_cases hd : nl.dir r = some .output
    · have := (h.driver_iff k n r hn).mpr ⟨hr, hd⟩
      rw [hdriver] at this
      cases this
    · have := (h.sink_iff k n r hn).mpr ⟨hr, hd⟩
      rw [hsinks] at this
      cases this
  refine h.of_same_wires rfl rfl ?_ ?_ ?_
  · intro r k' hr
    rw [net?_dropNet, if_neg]
    rintro rfl
    exact hfree r hr
  · intro k' n' hn'
    rw [net?_dropNet] at hn'
    split at hn'
    · cases hn'
    · exact Or.inl hn'
  · intro v k'
    rw [constantNet?_dropNet]
    unfold constValue
    rw [net?_dropNet]
    have hold := h.constant_recorded v k'
    unfold constValue at hold
    by_cases hk : k' = k
    · subst hk
      by_cases hv : nl.constantNet? v = some k' <;> simp [hv]
    · rw [if_neg hk, hold]
      by_cases hv : nl.constantNet? v = some k
      · simp [hv, Ne.symm hk]
      · simp [hv]

/-! ## Names of ports -/

theorem renamePort (h : nl.Wired) {id : CellId} {old new : Ident} {c : Cell} {p : Port}
    (hc : nl.cell? id = some c) (hp : c.port? old = some p) (hnew : c.port? new = none)
    (hnet : p.net = none) : (nl.mapCell id fun c => c.renamePort old new).Wired := by
  have hnodup := port_names_iff_bare.mpr (h.port_names id) c hc
  refine h.mapCell hc (c.names_renamePort hnodup hnew) ?_ ?_
  · intro name
    unfold Cell.netOf
    rw [Cell.port?_renamePort hnodup hnew]
    by_cases hname : name = new
    · simp [hname, hp, hnew, hnet]
    · by_cases hold : name = old
      · simp [hold, hp, hnet]
      · rw [if_neg hname, if_neg hold]
  · intro name q hq hqnet
    have hname : name ≠ new := fun e => by simp [e, hnew] at hq
    have hold : name ≠ old := fun e => by
      rw [e, hp] at hq
      obtain rfl : p = q := Option.some.inj hq
      simp [hnet] at hqnet
    rw [Cell.port?_renamePort hnodup hnew, if_neg hname, if_neg hold, hq]
    rfl

/-- The new name has the port of the old one, which has none any more. -/
theorem port?_renameConnectedPort {id : CellId} {old new : Ident} {c : Cell} {p : Port}
    (hc : nl.cell? id = some c) (hp : c.port? old = some p) (hnew : c.port? new = none)
    (hnodup : (c.ports.map (·.name)).Nodup) (r : PortRef) :
    ((nl.mapCell id fun c => c.renamePort old new).mapNet k
      fun n => n.replace ⟨id, old⟩ ⟨id, new⟩).port? r =
      if r = ⟨id, new⟩ then some { p with name := new }
      else if r = ⟨id, old⟩ then none else nl.port? r := by
  obtain ⟨other, name⟩ := r
  show (nl.mapCell id _).port? _ = _
  rw [port?_mapCell]
  by_cases ho : other = id
  · subst ho
    rw [if_pos rfl, hc]
    show (c.renamePort old new).port? name = _
    rw [Cell.port?_renamePort hnodup hnew, hp]
    simp [port?, hc]
  · simp [ho]

theorem wire_renameConnectedPort {id : CellId} {old new : Ident} {c : Cell} {p : Port}
    (hc : nl.cell? id = some c) (hp : c.port? old = some p) (hnew : c.port? new = none)
    (hnodup : (c.ports.map (·.name)).Nodup) (r : PortRef) :
    ((nl.mapCell id fun c => c.renamePort old new).mapNet k
      fun n => n.replace ⟨id, old⟩ ⟨id, new⟩).wire r =
      if r = ⟨id, new⟩ then p.net else if r = ⟨id, old⟩ then none else nl.wire r := by
  rw [wire_eq, port?_renameConnectedPort hc hp hnew hnodup]
  split
  · rfl
  · split
    · rfl
    · exact wire_eq.symm

theorem dir_renameConnectedPort {id : CellId} {old new : Ident} {c : Cell} {p : Port}
    (hc : nl.cell? id = some c) (hp : c.port? old = some p) (hnew : c.port? new = none)
    (hnodup : (c.ports.map (·.name)).Nodup) (r : PortRef) :
    ((nl.mapCell id fun c => c.renamePort old new).mapNet k
      fun n => n.replace ⟨id, old⟩ ⟨id, new⟩).dir r =
      if r = ⟨id, new⟩ then some p.direction else if r = ⟨id, old⟩ then none else nl.dir r := by
  unfold dir
  rw [port?_renameConnectedPort hc hp hnew hnodup]
  split
  · rfl
  · split
    · rfl
    · rfl

theorem renameConnectedPort (h : nl.Wired) {id : CellId} {old new : Ident} {c : Cell} {p : Port}
    (hc : nl.cell? id = some c) (hp : c.port? old = some p) (hnew : c.port? new = none)
    (hne : old ≠ new) (hnet : p.net = some k) (hn : nl.net? k = some n) :
    ((nl.mapCell id fun c => c.renamePort old new).mapNet k
      fun n => n.replace ⟨id, old⟩ ⟨id, new⟩).Wired := by
  have hnodup := port_names_iff_bare.mpr (h.port_names id) c hc
  have hold : nl.wire ⟨id, old⟩ = some k := by simp [wire_eq, port?, hc, hp, hnet]
  have hnone : nl.wire ⟨id, new⟩ = none := by simp [wire_eq, port?, hc, hnew]
  have hdold : nl.dir ⟨id, old⟩ = some p.direction := by simp [dir, port?, hc, hp]
  have hwire := wire_renameConnectedPort (k := k) hc hp hnew hnodup
  have hdir := dir_renameConnectedPort (k := k) hc hp hnew hnodup
  have hnodriver : n.driver ≠ some ⟨id, new⟩ := h.not_driver_of_wire hn (by simp [hnone])
  have hnosink : (⟨id, new⟩ : PortRef) ∉ n.sinks := h.not_sink_of_wire hn (by simp [hnone])
  have hdriver : n.driver = some ⟨id, old⟩ ↔ some p.direction = some .output := by
    rw [h.driver_iff k n _ hn, hdold, hold, eq_self, true_and]
  have hsink : ⟨id, old⟩ ∈ n.sinks ↔ some p.direction ≠ some .output := by
    rw [h.sink_iff k n _ hn, hdold, hold, eq_self, true_and]
  refine h.of_changed_net (k := k) hn (m := n.replace ⟨id, old⟩ ⟨id, new⟩)
    ?_ ?_ ?_ ?_ ?_ ?_ ?_ rfl ?_ ?_ rfl ?_
  · rw [net?_mapNet, if_pos rfl]
    exact congrArg (Option.map _) hn
  · intro k' hk
    rw [net?_mapNet, if_neg hk]
    rfl
  · intro q k' hk
    rw [hwire]
    by_cases hqn : q = ⟨id, new⟩
    · simp [hqn, hnone, hnet, Ne.symm hk]
    · by_cases hqo : q = ⟨id, old⟩
      · simp [hqo, hne, hold, Ne.symm hk]
      · rw [if_neg hqn, if_neg hqo]
  · intro q k' hk hq
    have hqo : q ≠ ⟨id, old⟩ := fun e => by
      rw [e, hold] at hq
      exact hk (Option.some.inj hq).symm
    have hqn : q ≠ ⟨id, new⟩ := fun e => by
      rw [e, hnone] at hq
      cases hq
    rw [hdir, if_neg hqn, if_neg hqo]
  · intro q
    rw [Net.driver_replace hnodriver, hwire]
    by_cases hqn : q = ⟨id, new⟩
    · rw [if_pos hqn, if_pos hqn, hqn, hdir, if_pos rfl, hnet, eq_self, true_and]
      exact hdriver
    · by_cases hqo : q = ⟨id, old⟩
      · simp [hqo, hne]
      · rw [if_neg hqn, if_neg hqn, if_neg hqo, hdir, if_neg hqn, if_neg hqo, ← h.driver_iff k n q hn]
        simp [hqo]
  · intro q
    rw [Net.mem_sinks_replace hnosink, hwire]
    by_cases hqn : q = ⟨id, new⟩
    · rw [if_pos hqn, if_pos hqn, hqn, hdir, if_pos rfl, hnet, eq_self, true_and]
      exact hsink
    · by_cases hqo : q = ⟨id, old⟩
      · simp [hqo, hne]
      · rw [if_neg hqn, if_neg hqn, if_neg hqo, hdir, if_neg hqn, if_neg hqo, ← h.sink_iff k n q hn]
        simp [hqo]
  · exact Net.nodup_sinks_replace hnosink (h.sinks_nodup k n hn)
  · intro hconst
    have hundriven := h.constant_undriven k n hn hconst
    simp [Net.replace, hundriven]
  · intro other c' hc'
    refine port_names_iff_bare.mp (fun c'' hc'' => ?_) c' hc'
    have hcell : ((nl.mapCell id fun c => c.renamePort old new).mapNet k
        fun n => n.replace ⟨id, old⟩ ⟨id, new⟩).cell? other = _ :=
      cell?_mapCell
    rw [hcell] at hc''
    split at hc''
    · rw [hc] at hc''
      obtain rfl : c.renamePort old new = c'' := Option.some.inj hc''
      exact c.names_renamePort hnodup hnew
    · exact port_names_iff_bare.mpr (h.port_names other) c'' hc''
  · intro other hother
    have hlive := h.queue_live other hother
    rw [bare_isSome] at hlive ⊢
    show ((nl.mapCell id _).cell? other).isSome
    rw [cell?_mapCell]
    split
    · simp [hc]
    · exact hlive

end Wired
end Netlist
end FpgaPacking
