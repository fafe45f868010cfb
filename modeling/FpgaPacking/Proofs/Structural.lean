import FpgaPacking.Fabric.Template
import FpgaPacking.Pass
import FpgaPacking.Proofs.Netlist.Operations

/-!
# Properties that passes keep

The passes are put together from the operations of a netlist, from writes to
what is neither wiring nor a cluster, and from the building of clusters.
`Structural I` says that these keep a property of netlists, also when they fail.
Then every pass keeps it, wherever in the middle it may fail.
-/

namespace FpgaPacking

variable {I : Netlist → Prop}

/-! ## Steps that change nothing -/

namespace Edit

theorem keeps_cellChecked (id : CellId) : Keeps I (cellChecked id) := by
  intro names nl h
  rcases cellChecked_cases names with ⟨e, -, hrun⟩ | ⟨c, -, hrun⟩
  · rw [hrun]
    exact h
  · rw [hrun]
    exact h

theorem keeps_netChecked (k : NetId) : Keeps I (netChecked k) := by
  intro names nl h
  rcases netChecked_cases names with ⟨e, -, hrun⟩ | ⟨n, -, hrun⟩
  · rw [hrun]
    exact h
  · rw [hrun]
    exact h

theorem keeps_portChecked (id : CellId) (port : Ident) : Keeps I (portChecked id port) := by
  intro names nl h
  rcases portChecked_cases names with ⟨e, hrun⟩ | ⟨c, p, -, -, hrun⟩
  · rw [hrun]
    exact h
  · rw [hrun]
    exact h

end Edit

namespace Chain

theorem keeps_prepare (f : Fabric) (chain : List CellId) :
    Packing.Keeps I (prepare f chain) := by
  refine Packing.Keeps.bind .netlist fun nl => ?_
  refine Packing.Keeps.bind (.check _) fun _ => ?_
  refine Packing.Keeps.bind (.forM (fun d => .emit d) _) fun _ => ?_
  refine Packing.Keeps.bind (.check _) fun steps => ?_
  exact Packing.Keeps.bind (.forM (fun step => .check _) steps) fun _ => .pure _

/-- Taking a port off its net keeps what disconnecting it keeps. -/
theorem keeps_detach_of {id : CellId} {port : Ident} (hI : Edit.Keeps I (Edit.disconnect id port)) :
    Edit.Keeps I (detach id port) := by
  refine Edit.Keeps.bind hI fun onNet => ?_
  cases onNet with
  | some k => exact Edit.Keeps.pure k
  | none =>
    refine Edit.Keeps.bind (Edit.Keeps.cell id) fun c => ?_
    exact Edit.Keeps.bind (Edit.Keeps.resolve port) fun _ => Edit.Keeps.violate _

theorem keeps_discover (p : Cell → Bool) (nav : Netlist → Navigation) (minLength : Nat) :
    Packing.Keeps I (discover p nav minLength) := by
  refine Packing.Keeps.bind .netlist fun nl => ?_
  refine Packing.Keeps.bind (.forM (fun chain => ?_) _) fun _ => .pure _
  exact Packing.Keeps.bind (.lookup _) fun d => .emit d

end Chain

/-! ## Building clusters -/

namespace Cluster

open Edit

/-- Building a cluster keeps what writing cluster descriptors keeps. -/
theorem keeps_build_of (hI : ∀ id m, Keeps I (updateCell id fun c => { c with cluster := m }))
    (root : CellId) (rootOffset : Offset) (members : List Placed) :
    Keeps I (build root rootOffset members) := by
  refine Keeps.bind Keeps.get fun nl => ?_
  cases checkBuild nl root rootOffset members with
  | error e => exact Keeps.throw e
  | ok _ =>
    refine Keeps.bind ?_ fun _ => Keeps.forM (fun member => ?_) members
    · have hroot := hI root ⟨some root, ⟨0, 0, 0, rootOffset.pinned⟩, members.map (·.1)⟩
      exact hroot
    · obtain ⟨id, offset⟩ := member
      have hmember := hI id ⟨some root, offset, []⟩
      exact hmember

theorem keeps_constrainSegment_of
    (hI : ∀ root rootOffset members, Keeps I (build root rootOffset members))
    (members : List CellId) (slotsPerTile : Nat) :
    Keeps I (constrainSegment members slotsPerTile) := by
  unfold constrainSegment
  split
  · exact Keeps.violate _
  · split
    · exact Keeps.pure _
    · split
      · exact Keeps.throw _
      · exact hI _ _ _

theorem keeps_constrainPair_of
    (hI : ∀ root rootOffset members, Keeps I (build root rootOffset members))
    (rule : PairRule) (built : Nat) (driver : CellId) :
    Keeps I (constrainPair rule built driver) := by
  refine Keeps.bind (Keeps.cell driver) fun c => Keeps.bind Keeps.get fun nl => ?_
  cases partner? nl rule driver c with
  | none => exact Keeps.pure _
  | some load => exact Keeps.bind (hI _ _ _) fun _ => Keeps.pure _

theorem keeps_constrainPairs_of
    (hI : ∀ root rootOffset members, Keeps I (build root rootOffset members)) (rule : PairRule) :
    Packing.Keeps I (constrainPairs rule) := by
  refine Packing.Keeps.bind .netlist fun nl => ?_
  refine Packing.Keeps.bind (.foldlM (fun built id => ?_) nl.cellIds 0) fun built => ?_
  · exact .edit (keeps_constrainPair_of hI rule built id)
  dsimp only
  split
  · exact Packing.Keeps.bind (.emit _) fun _ => .pure _
  · exact .pure _

end Cluster

/-! ## What the property has to survive -/

open Edit in
/-- None of the steps by which boundary cells are inserted destroys the property. -/
structure Routing (I : Netlist → Prop) : Prop where
  keeps_createCell : ∀ cellType name, Keeps I (createCell cellType name)
  keeps_createNet : ∀ name, Keeps I (createNet name)
  keeps_uniqueName : ∀ base, Keeps I (uniqueName base)
  keeps_addPort : ∀ {id port} direction, Keeps I (addPort id port direction)
  keeps_connect : ∀ {id port k}, Keeps I (connect id port k)
  keeps_disconnect : ∀ {id port}, Keeps I (disconnect id port)
  /-- Writes that leave the ports and the cluster of a cell alone. -/
  keeps_write : ∀ {id} {f : Cell → Cell},
    (∀ c, (f c).ports = c.ports ∧ (f c).cluster = c.cluster) → Keeps I (updateCell id f)

open Edit in
/-- None of the steps destroys the property that change ports, connections and nets only. -/
structure Rewiring (I : Netlist → Prop) : Prop where
  keeps_createNet : ∀ name, Keeps I (createNet name)
  keeps_uniqueName : ∀ base, Keeps I (uniqueName base)
  keeps_addPort : ∀ {id port} direction, Keeps I (addPort id port direction)
  keeps_connect : ∀ {id port k}, Keeps I (connect id port k)
  keeps_disconnect : ∀ {id port}, Keeps I (disconnect id port)
  keeps_constantNet : ∀ v, Keeps I (constantNet v)
  keeps_removePort : ∀ {id port}, Keeps I (removePort id port)
  keeps_renamePort : ∀ {id} old new, Keeps I (renamePort id old new)
  keeps_removeNet : ∀ {k}, Keeps I (removeNet k)
  keeps_markForRemoval : ∀ {id}, Keeps I (markForRemoval id)

open Edit in
/-- None of the steps that passes are made of destroys the property, apart from writes to cells. -/
structure Elementary (I : Netlist → Prop) : Prop extends Rewiring I where
  keeps_createCell : ∀ cellType name, Keeps I (createCell cellType name)
  keeps_removeCell : ∀ {id}, Keeps I (removeCell id)
  /-- What a flush begins with. -/
  keeps_unqueue : Keeps I
    (modifyGet fun nl => (nl.queue.keys, { nl with queue := .empty }) : Edit (List CellId))
  keeps_build : ∀ root rootOffset members, Keeps I (Cluster.build root rootOffset members)

/-- None of the steps that passes are made of destroys the property. -/
structure Structural (I : Netlist → Prop) : Prop extends Routing I, Elementary I

open Edit Chain in
/-- None of the parts of which the insertions of a fabric's boundary cells consist destroys the
property. -/
structure Splicing (f : Fabric) (I : Netlist → Prop) : Prop where
  keeps_boundaryCell : ∀ role anchor, role ≠ .normal → Packing.Keeps I (boundaryCell f role anchor)
  keeps_linkNet : ∀ id, Keeps I (linkNet id)
  keeps_connect : ∀ {id port k}, Keeps I (connect id port k)
  keeps_disconnect : ∀ {id port}, Keeps I (disconnect id port)

open Edit in
/-- None of the steps by which the ports of the cell are replaced destroys the property. -/
structure Replacing (id : CellId) (I : Netlist → Prop) : Prop where
  keeps_addPort : ∀ {port} direction, Keeps I (addPort id port direction)
  keeps_removePort : ∀ {port}, Keeps I (removePort id port)
  keeps_connect : ∀ {port k}, Keeps I (connect id port k)
  keeps_disconnect : ∀ {port}, Keeps I (disconnect id port)
  /-- A note of the former name of a port. -/
  keeps_note : ∀ {key} former, Keeps I (updateCell id fun c =>
    { c with attrs := c.attrs.insert key (.text former) })

open Edit Retarget in
/-- None of the steps by which a rule retargets the cell destroys the property. -/
structure RetargetingCell (rule : RetargetRule) (id : CellId) (I : Netlist → Prop) : Prop
    extends Replacing id I where
  /-- The new type, and a note of the former one. -/
  keeps_retype : ∀ {cellType key} former, Keeps I (updateCell id fun c =>
    { c with cellType := cellType, attrs := c.attrs.insert key (.text former) })
  /-- The values that the rule gives. -/
  keeps_values : Keeps I (updateCell id fun c =>
    { c with params := newParams rule c.params, attrs := newAttrs rule c.attrs })

open Edit Retarget in
/-- None of the steps by which a rule retargets cells destroys the property. -/
structure Retargeting (rule : RetargetRule) (I : Netlist → Prop) : Prop where
  keeps_addPort : ∀ {id port} direction, Keeps I (addPort id port direction)
  keeps_removePort : ∀ {id port}, Keeps I (removePort id port)
  keeps_connect : ∀ {id port k}, Keeps I (connect id port k)
  keeps_disconnect : ∀ {id port}, Keeps I (disconnect id port)
  /-- The new type, and a note of the former one. -/
  keeps_retype : ∀ {id cellType key} former, Keeps I (updateCell id fun c =>
    { c with cellType := cellType, attrs := c.attrs.insert key (.text former) })
  /-- A note of the former name of a port. -/
  keeps_note : ∀ {id key} former, Keeps I (updateCell id fun c =>
    { c with attrs := c.attrs.insert key (.text former) })
  /-- The values that the rule gives. -/
  keeps_values : ∀ {id}, Keeps I (updateCell id fun c =>
    { c with params := newParams rule c.params, attrs := newAttrs rule c.attrs })

namespace Routing

variable (hI : Routing I)
include hI

open Edit Chain Normalize

theorem keeps_instantiate (t : CellTemplate) (name : String) :
    Keeps I (t.instantiate name) := by
  refine Keeps.bind (hI.keeps_createCell t.cellType name) fun id => ?_
  refine Keeps.bind (Keeps.forM (fun p => hI.keeps_addPort p.2) t.ports) fun _ => ?_
  exact Keeps.bind (hI.keeps_write fun _ => ⟨rfl, rfl⟩) fun _ => Keeps.pure id

theorem keeps_boundaryCell (f : Fabric) (role : Role) (anchor : CellId) :
    Packing.Keeps I (boundaryCell f role anchor) := by
  refine Packing.Keeps.bind (.check _) fun t => ?_
  refine Packing.Keeps.bind (.edit (Keeps.cell anchor)) fun c => ?_
  refine Packing.Keeps.bind (.edit (hI.keeps_uniqueName _)) fun name => ?_
  refine Packing.Keeps.bind (.edit (hI.keeps_instantiate t.cell name)) fun id => ?_
  refine Packing.Keeps.bind (.name _) fun key => ?_
  exact Packing.Keeps.bind (.edit (hI.keeps_write fun _ => ⟨rfl, rfl⟩)) fun _ => .pure _

theorem keeps_linkNet (id : CellId) : Keeps I (linkNet id) :=
  Keeps.bind (Keeps.cell id) fun _ => Keeps.bind (hI.keeps_uniqueName _) fun name =>
    hI.keeps_createNet name

theorem keeps_foldInput {options : NormalizeOptions} (id : CellId) (port : Ident) :
    Keeps I (foldInput options id port) := by
  refine Keeps.bind Keeps.get fun nl => ?_
  cases (nl.netOf id port).bind nl.constValue with
  | none => exact Keeps.pure _
  | some v =>
    refine Keeps.bind (Keeps.cell id) fun c => ?_
    cases options.lutShapes.find? c.cellType with
    | none => exact Keeps.bind (Keeps.resolve _) fun _ => Keeps.throw _
    | some shape =>
      dsimp only
      cases shape.inputs.idxOf? port with
      | none => exact Keeps.pure _
      | some position =>
        refine Keeps.bind (Keeps.resolve _) fun name => ?_
        cases c.params.find? shape.param with
        | none => exact Keeps.throw _
        | some before =>
          refine Keeps.bind (Keeps.lookup _) fun rows => ?_
          cases before.toBits? rows with
          | none => exact Keeps.throw _
          | some table =>
            refine Keeps.bind (Keeps.lookup _) fun mask => ?_
            refine Keeps.bind (Keeps.lookup _) fun folded => ?_
            refine Keeps.bind (Keeps.lookup _) fun param => ?_
            refine Keeps.bind (hI.keeps_write fun _ => ⟨rfl, rfl⟩) fun _ => ?_
            exact Keeps.bind hI.keeps_disconnect fun _ => Keeps.pure _

/-- What the single steps keep is kept by the parts of an insertion. -/
theorem splicing (f : Fabric) : Splicing f I where
  keeps_boundaryCell role anchor _ := hI.keeps_boundaryCell f role anchor
  keeps_linkNet := hI.keeps_linkNet
  keeps_connect := hI.keeps_connect
  keeps_disconnect := hI.keeps_disconnect

end Routing

namespace Splicing

variable {f : Fabric} (hI : Splicing f I)
include hI

open Edit Chain

theorem keeps_detach (id : CellId) (port : Ident) : Keeps I (detach id port) :=
  keeps_detach_of hI.keeps_disconnect

theorem keeps_insertFeedIn (head : CellId) :
    Packing.Keeps I (insertFeedIn f head) := by
  refine Packing.Keeps.bind (hI.keeps_boundaryCell .feedIn head nofun) fun made => ?_
  refine Packing.Keeps.bind (.check _) fun output => ?_
  refine Packing.Keeps.bind (.edit (hI.keeps_detach head f.chainIn)) fun external => ?_
  refine Packing.Keeps.bind (.edit hI.keeps_connect) fun _ => ?_
  refine Packing.Keeps.bind (.edit (hI.keeps_linkNet _)) fun link => ?_
  refine Packing.Keeps.bind (.edit hI.keeps_connect) fun _ => ?_
  exact Packing.Keeps.bind (.edit hI.keeps_connect) fun _ => .pure _

theorem keeps_insertPassThrough (prev next : CellId) :
    Packing.Keeps I (insertPassThrough f prev next) := by
  refine Packing.Keeps.bind (hI.keeps_boundaryCell .passThrough prev nofun) fun made => ?_
  refine Packing.Keeps.bind (.check _) fun output => ?_
  refine Packing.Keeps.bind (.check _) fun routed => ?_
  refine Packing.Keeps.bind (.edit (hI.keeps_detach prev f.chainOut)) fun signal => ?_
  refine Packing.Keeps.bind (.edit (hI.keeps_linkNet _)) fun before => ?_
  refine Packing.Keeps.bind (.edit hI.keeps_connect) fun _ => ?_
  refine Packing.Keeps.bind (.edit hI.keeps_connect) fun _ => ?_
  refine Packing.Keeps.bind (.edit hI.keeps_connect) fun _ => ?_
  refine Packing.Keeps.bind (.edit hI.keeps_disconnect) fun _ => ?_
  refine Packing.Keeps.bind (.edit (hI.keeps_linkNet _)) fun after => ?_
  refine Packing.Keeps.bind (.edit hI.keeps_connect) fun _ => ?_
  exact Packing.Keeps.bind (.edit hI.keeps_connect) fun _ => .pure _

theorem keeps_insertPassOut (tail : CellId) :
    Packing.Keeps I (insertPassOut f tail) := by
  refine Packing.Keeps.bind (hI.keeps_boundaryCell .passOut tail nofun) fun made => ?_
  refine Packing.Keeps.bind (.check _) fun routed => ?_
  refine Packing.Keeps.bind (.edit (hI.keeps_detach tail f.chainOut)) fun signal => ?_
  refine Packing.Keeps.bind (.edit (hI.keeps_linkNet _)) fun link => ?_
  refine Packing.Keeps.bind (.edit hI.keeps_connect) fun _ => ?_
  refine Packing.Keeps.bind (.edit hI.keeps_connect) fun _ => ?_
  exact Packing.Keeps.bind (.edit hI.keeps_connect) fun _ => .pure _

theorem keeps_carryOut (steps : List Step) : ∀ segment : Segment,
    Packing.Keeps I (carryOut f segment steps) := by
  induction steps with
  | nil => exact fun _ => .pure _
  | cons step rest ih =>
    intro segment
    cases step with
    | feedIn head => exact Packing.Keeps.bind (hI.keeps_insertFeedIn head) fun _ => ih _
    | passThrough prev next =>
      exact Packing.Keeps.bind (hI.keeps_insertPassThrough prev next) fun _ => ih _
    | member id => exact ih _
    | passOut tail => exact Packing.Keeps.bind (hI.keeps_insertPassOut tail) fun _ => ih _
    | close => exact Packing.Keeps.bind (ih _) fun _ => .pure _

theorem keeps_legalize (chain : List CellId) :
    Packing.Keeps I (legalize f chain) := by
  refine Packing.Keeps.bind (keeps_prepare f chain) fun steps => ?_
  refine Packing.Keeps.bind (hI.keeps_carryOut steps .empty) fun segments => ?_
  cases chain.head? with
  | none => exact .pure _
  | some head =>
    refine Packing.Keeps.bind (.edit (Keeps.cell head)) fun c => ?_
    exact Packing.Keeps.bind (.emit _) fun _ => .pure _

/-- Packing a chain builds clusters besides. -/
theorem keeps_packChain
    (hbuild : ∀ root rootOffset members, Keeps I (Cluster.build root rootOffset members))
    (chain : List CellId) : Packing.Keeps I (Pack.packChain f chain) := by
  refine Packing.Keeps.bind (hI.keeps_legalize chain) fun segments => ?_
  refine Packing.Keeps.bind (.forM (fun s => ?_) segments) fun _ => .pure _
  exact .edit (Cluster.keeps_constrainSegment_of hbuild s.members f.slotsPerTile)

theorem keeps_packChains
    (hbuild : ∀ root rootOffset members, Keeps I (Cluster.build root rootOffset members))
    : Packing.Keeps I (packChains f) := by
  refine Packing.Keeps.bind (keeps_discover _ _ _) fun chains => ?_
  exact Packing.Keeps.bind (.mapM (hI.keeps_packChain hbuild) chains) fun _ => .pure _

end Splicing

open Edit Netlist in
/-- Wiring shows in the ports of cells only. -/
theorem rewiring_of_shown {γ : Type} {g : Cell → γ} (hg : ∀ c ports, g { c with ports } = g c)
    (P : (CellId → Option γ) → Prop) : Rewiring fun nl => P (nl.shown g) where
  keeps_createNet _ _ _ h := h
  keeps_uniqueName _ _ _ h := h
  keeps_addPort direction names nl h := by
    rcases addPort_cases names with ⟨e, hrun⟩ | ⟨c, -, ⟨-, hrun⟩ | ⟨-, hrun⟩⟩
    · rw [hrun]
      exact h
    · rw [hrun]
      exact h
    · rw [hrun]
      show P ((nl.mapCell _ _).shown g)
      rw [shown_mapPorts hg]
      · exact h
      · exact fun _ => rfl
  keeps_connect names nl h := by
    rcases connect_cases names with ⟨e, hrun⟩ | ⟨p, -, ⟨-, hrun⟩ | ⟨-, n, -, -, hrun⟩⟩
    · rw [hrun]
      exact h
    · rw [hrun]
      exact h
    · rw [hrun]
      show P ((nl.mapCell _ _).shown g)
      rw [shown_mapPorts hg]
      · exact h
      · exact fun _ => rfl
  keeps_disconnect names nl h := by
    rcases disconnect_cases names with ⟨e, hrun⟩ | ⟨p, -, ⟨-, hrun⟩ | ⟨k, n, -, -, hrun⟩⟩
    · rw [hrun]
      exact h
    · rw [hrun]
      exact h
    · rw [hrun]
      show P ((nl.mapCell _ _).shown g)
      rw [shown_mapPorts hg]
      · exact h
      · exact fun _ => rfl
  keeps_constantNet v names nl h := by
    rcases constantNet_cases names (v := v) with ⟨k, -, hrun⟩ | ⟨-, hrun⟩
    · rw [hrun]
      exact h
    · rw [hrun]
      cases v with
      | zero => exact h
      | one => exact h
  keeps_removePort names nl h := by
    rcases removePort_cases names with ⟨e, hrun⟩ | ⟨p, -, -, hrun⟩
    · rw [hrun]
      exact h
    · rw [hrun]
      show P ((nl.mapCell _ _).shown g)
      rw [shown_mapPorts hg]
      · exact h
      · exact fun _ => rfl
  keeps_renamePort old new := by
    refine Keeps.bind (keeps_portChecked _ _) fun found => ?_
    dsimp only
    split
    · exact .pure _
    · split
      · exact .bind (.resolve _) fun _ => .bind (.resolve _) fun _ => .violate _
      · refine Keeps.bind (fun names nl h => ?_) fun _ => ?_
        · show P ((nl.mapCell _ _).shown g)
          rw [shown_mapPorts hg]
          · exact h
          · exact fun _ => rfl
        split
        · exact .pure _
        · exact Keeps.bind (keeps_netChecked _) fun _ _ _ h => h
  keeps_removeNet names nl h := by
    rcases removeNet_cases names with ⟨e, hrun⟩ | ⟨n, -, -, -, hrun⟩
    · rw [hrun]
      exact h
    · rw [hrun]
      exact h
  keeps_markForRemoval names nl h := by
    show P ((if nl.cells.contains _ then _ else nl : Netlist).shown g)
    split
    · exact h
    · exact h

namespace Rewiring

variable {options : NormalizeOptions} {id : CellId} (hI : Rewiring I)
include hI

/-! ## Rounds of normalization -/

open Edit Normalize

theorem keeps_moveSink (k : NetId) (sink : PortRef) : Keeps I (moveSink k sink) :=
  Keeps.bind hI.keeps_disconnect fun _ => hI.keeps_connect

theorem keeps_mergeOutput (k : NetId) (output : Ident × NetId) :
    Keeps I (mergeOutput id k output) := by
  refine Keeps.bind (Keeps.net output.2) fun n => ?_
  refine Keeps.bind (Keeps.forM (hI.keeps_moveSink k) n.sinks) fun _ => ?_
  refine Keeps.bind hI.keeps_disconnect fun _ => ?_
  exact Keeps.bind hI.keeps_removeNet fun _ => Keeps.pure _

theorem keeps_mergeTieCell (merged : Nat) (id : CellId) :
    Keeps I (mergeTieCell options merged id) := by
  refine Keeps.bind (Keeps.cell id) fun c => ?_
  cases options.tieValue c.cellType with
  | none => exact Keeps.pure _
  | some v =>
    refine Keeps.bind (hI.keeps_constantNet v) fun k => ?_
    refine Keeps.bind (Keeps.forM (hI.keeps_mergeOutput k) c.outputs) fun _ => ?_
    exact Keeps.bind hI.keeps_markForRemoval fun _ => Keeps.pure _

theorem keeps_mergeConstantDrivers : Keeps I (mergeConstantDrivers options) :=
  Keeps.bind Keeps.get fun nl => Keeps.foldlM hI.keeps_mergeTieCell nl.cellIds 0

theorem keeps_pruneOutput (output : Ident × NetId) : Keeps I (pruneOutput id output) := by
  refine Keeps.bind hI.keeps_disconnect fun _ => Keeps.bind (Keeps.net output.2) fun n => ?_
  split
  · exact Keeps.bind hI.keeps_removeNet fun _ => Keeps.pure _
  · exact Keeps.pure _

theorem keeps_pruneCell (pruned : Nat) (id : CellId) :
    Keeps I (pruneCell options pruned id) := by
  refine Keeps.bind (Keeps.cell id) fun c => Keeps.bind Keeps.get fun nl => ?_
  split
  · exact Keeps.pure _
  · refine Keeps.bind (Keeps.filterM (fun output => ?_) c.outputs) fun dead => ?_
    · exact Keeps.bind (Keeps.net output.2) fun _ => Keeps.pure _
    refine Keeps.bind (Keeps.forM hI.keeps_pruneOutput dead) fun _ => ?_
    refine Keeps.bind (Keeps.cell id) fun c' => ?_
    dsimp only
    split
    · exact Keeps.bind hI.keeps_markForRemoval fun _ => Keeps.pure _
    · exact Keeps.pure _

theorem keeps_pruneDeadOutputs : Keeps I (pruneDeadOutputs options) :=
  Keeps.bind Keeps.get fun nl => Keeps.foldlM hI.keeps_pruneCell nl.cellIds 0

end Rewiring

namespace Normalize

variable {options : NormalizeOptions} {id : CellId}

open Edit

theorem keeps_foldInputs (hfold : ∀ id port, Keeps I (foldInput options id port)) :
    Keeps I (foldInputs options id) := by
  refine Keeps.bind (Keeps.cell id) fun c => Keeps.bind Keeps.get fun nl => ?_
  exact Keeps.foldlM (fun _ port => Keeps.bind (hfold id port) fun _ => Keeps.pure _) _ 0

theorem keeps_foldCell (hfold : ∀ id port, Keeps I (foldInput options id port)) (folded : Nat)
    (id : CellId) : Keeps I (foldCell options folded id) := by
  refine Keeps.bind (Keeps.cell id) fun c => Keeps.bind Keeps.get fun nl => ?_
  split
  · exact Keeps.bind (keeps_foldInputs hfold) fun _ => Keeps.pure _
  · exact Keeps.pure _

theorem keeps_foldAll (hfold : ∀ id port, Keeps I (foldInput options id port)) :
    Keeps I (foldAll options) :=
  Keeps.bind Keeps.get fun nl => Keeps.foldlM (keeps_foldCell hfold) nl.cellIds 0

end Normalize

namespace Elementary

variable (hI : Elementary I)
include hI

open Edit

section Netlist

variable {id : CellId} {k : NetId}

theorem keeps_detachAll (touched : Keys NetId) : Keeps I (detachAll id touched) :=
  Keeps.bind (keeps_cellChecked id) fun c =>
    Keeps.foldlM (fun _ _ => Keeps.bind hI.keeps_disconnect fun _ => Keeps.pure _) c.ports touched

theorem keeps_dismantle (touched : Keys NetId) : Keeps I (dismantle touched id) :=
  Keeps.bind (hI.keeps_detachAll touched) fun _ =>
    Keeps.bind hI.keeps_removeCell fun _ => Keeps.pure _

theorem keeps_removeFloating : Keeps I (removeFloating k) := by
  refine Keeps.bind Keeps.get fun nl => ?_
  cases nl.net? k with
  | none => exact Keeps.pure _
  | some n =>
    show Keeps I (if n.isFloating && n.constant.isNone then _ else _)
    split
    · exact Keeps.bind hI.keeps_removeNet fun _ => Keeps.pure _
    · exact Keeps.pure _

theorem keeps_flush : Keeps I flush := by
  refine Keeps.bind hI.keeps_unqueue fun queued => ?_
  refine Keeps.bind (Keeps.foldlM (fun touched _ => hI.keeps_dismantle touched) queued _)
    fun touched => ?_
  exact Keeps.bind (Keeps.forM (fun _ => hI.keeps_removeFloating) touched.keys) fun _ => Keeps.pure _

end Netlist

section Normalize

open Normalize

variable {options : NormalizeOptions} (hfold : ∀ id port, Keeps I (foldInput options id port))
include hfold

theorem keeps_round : Packing.Keeps I (round options) := by
  refine Packing.Keeps.bind (.edit hI.keeps_mergeConstantDrivers) fun merged => ?_
  have hrest : Packing.Keeps I (do
      let foldedInputs ← foldAll options
      let prunedPorts ← pruneDeadOutputs options
      let removedCells ← Edit.flush
      return (⟨merged, foldedInputs, prunedPorts, removedCells⟩ : Report) : Packing Report) := by
    refine Packing.Keeps.bind (.edit (keeps_foldAll hfold)) fun folded => ?_
    refine Packing.Keeps.bind (.edit hI.keeps_pruneDeadOutputs) fun pruned => ?_
    exact Packing.Keeps.bind (.edit hI.keeps_flush) fun removed => .pure _
  dsimp only
  split
  · exact Packing.Keeps.bind (.emit _) fun _ => hrest
  · exact hrest

theorem keeps_rounds : ∀ (bound : Nat) (report : Report),
    Packing.Keeps I (rounds options report bound)
  | 0, _ => .throw _
  | bound + 1, report => by
    refine Packing.Keeps.bind (hI.keeps_round hfold) fun r => ?_
    split
    · exact .pure _
    · exact keeps_rounds bound (report.add r)

theorem keeps_normalize : Packing.Keeps I (normalize options) := by
  refine Packing.Keeps.bind .netlist fun nl => ?_
  refine Packing.Keeps.bind (hI.keeps_rounds hfold _ _) fun report => ?_
  dsimp only
  split
  · exact Packing.Keeps.bind (.emit _) fun _ => .pure _
  · exact .pure _

end Normalize

end Elementary

/-! ## Retargeting -/

/-- The last part of `givePort`: a note of the former name, if the new one is another. -/
def Retarget.noteFormer (id : CellId) (old new : Ident) : Packing Unit :=
  if new ≠ old then do
    let key ← naming (formerPortKey (← Packing.resolve new))
    let value := ParamValue.text (← Packing.resolve old)
    Edit.updateCell id fun c => { c with attrs := c.attrs.insert key value }
  else pure ()

namespace Replacing

variable {id : CellId} (hI : Replacing id I)
include hI

open Edit Retarget

theorem keeps_takePort (p : Port) : Keeps I (takePort id p) :=
  Keeps.bind hI.keeps_disconnect fun _ => hI.keeps_removePort

theorem keeps_noteFormer (old new : Ident) : Packing.Keeps I (noteFormer id old new) := by
  unfold noteFormer
  split
  · refine Packing.Keeps.bind (.resolve new) fun name => ?_
    refine Packing.Keeps.bind (.name _) fun key => ?_
    refine Packing.Keeps.bind (.resolve old) fun value => ?_
    exact .edit (hI.keeps_note value)
  · exact .pure _

theorem keeps_givePort (old : Port) (new : Ident) : Packing.Keeps I (givePort id old new) := by
  refine Packing.Keeps.bind (.edit (hI.keeps_addPort old.direction)) fun _ => ?_
  have hrest := hI.keeps_noteFormer old.name new
  cases old.net with
  | none => exact hrest
  | some k => exact Packing.Keeps.bind (.edit hI.keeps_connect) fun _ => hrest

end Replacing

theorem RetargetingCell.keeps_retargetCell {rule : RetargetRule} {id : CellId}
    (hI : RetargetingCell rule id I) : Packing.Keeps I (Retarget.retargetCell rule id) := by
  refine Packing.Keeps.bind (.edit (Edit.Keeps.cell id)) fun c => ?_
  refine Packing.Keeps.bind (.mapM (fun p => ?_) c.ports) fun ports => ?_
  · exact Packing.Keeps.bind (.name _) fun _ => .pure _
  dsimp only
  split
  · refine Packing.Keeps.bind (.resolve _) fun first => ?_
    refine Packing.Keeps.bind (.resolve _) fun second => ?_
    exact Packing.Keeps.bind (.resolve _) fun new => .throw _
  · refine Packing.Keeps.bind (.name _) fun key => ?_
    refine Packing.Keeps.bind (.resolve _) fun formerType => ?_
    refine Packing.Keeps.bind (.edit (hI.keeps_retype formerType)) fun _ => ?_
    refine Packing.Keeps.bind (.forM (fun p => .edit (hI.keeps_takePort p)) c.ports) fun _ => ?_
    refine Packing.Keeps.bind (.forM (fun p => ?_) ports) fun _ => ?_
    · exact .forM (hI.keeps_givePort p.1) p.2
    · exact .edit hI.keeps_values

namespace Retargeting

variable {rule : RetargetRule} (hI : Retargeting rule I)
include hI

theorem cell (id : CellId) : RetargetingCell rule id I where
  keeps_addPort := hI.keeps_addPort
  keeps_removePort := hI.keeps_removePort
  keeps_connect := hI.keeps_connect
  keeps_disconnect := hI.keeps_disconnect
  keeps_note := hI.keeps_note
  keeps_retype := hI.keeps_retype
  keeps_values := hI.keeps_values

theorem keeps_retargetCell (id : CellId) : Packing.Keeps I (Retarget.retargetCell rule id) :=
  (hI.cell id).keeps_retargetCell

end Retargeting

namespace Retarget

variable {rules : RuleSet}
  (hI : ∀ cellType rule, rules.find? cellType = some rule → Retargeting rule I)
include hI

open Edit

theorem keeps_retargetIfRuled (summary : Summary) (id : CellId) :
    Packing.Keeps I (retargetIfRuled rules summary id) := by
  refine Packing.Keeps.bind (.edit (Keeps.cell id)) fun c => ?_
  cases hrule : rules.find? c.cellType with
  | none => exact .pure _
  | some rule =>
    refine Packing.Keeps.bind ((hI _ rule hrule).keeps_retargetCell id) fun _ => ?_
    refine Packing.Keeps.bind (.resolve _) fun new => ?_
    exact Packing.Keeps.bind (.resolve _) fun source => .pure _

theorem keeps_retarget : Packing.Keeps I (retarget rules) := by
  refine Packing.Keeps.bind .netlist fun nl => ?_
  refine Packing.Keeps.bind (.foldlM (keeps_retargetIfRuled hI) nl.cellIds _) fun summary => ?_
  exact Packing.Keeps.bind (.forM (fun _ => .emit _) summary.entries) fun _ => .pure _

end Retarget

/-- A rule writes neither ports nor clusters. -/
theorem Structural.retargeting (hI : Structural I) (rule : RetargetRule) : Retargeting rule I where
  keeps_addPort := hI.keeps_addPort
  keeps_removePort := hI.keeps_removePort
  keeps_connect := hI.keeps_connect
  keeps_disconnect := hI.keeps_disconnect
  keeps_retype _ := hI.keeps_write fun _ => ⟨rfl, rfl⟩
  keeps_note _ := hI.keeps_write fun _ => ⟨rfl, rfl⟩
  keeps_values := hI.keeps_write fun _ => ⟨rfl, rfl⟩

end FpgaPacking
