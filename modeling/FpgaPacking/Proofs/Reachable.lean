import FpgaPacking.Proofs.Netlist.Preservation
import FpgaPacking.Proofs.Structural

/-!
# Well-formedness of every reachable netlist

`Operation` lists everything a caller can do with a session.  Whatever is done in
whatever order, also after steps that have failed halfway, what the steps of
operations keep is not lost.  In particular the netlist is well-formed.
-/

namespace FpgaPacking

open Netlist

/-! ## Sequences of operations -/

/-- What a caller can do with a session: the operations of a netlist, the passes
and their parts, and direct writes to what is not wiring. -/
inductive Operation where
  | enterName (name : String)
  | createCell (cellType : Ident) (name : String)
  | createNet (name : String)
  | uniqueName (base : String)
  | constantNet (value : ConstValue)
  | addPort (id : CellId) (port : Ident) (direction : Direction)
  | removePort (id : CellId) (port : Ident)
  | renamePort (id : CellId) (old new : Ident)
  | connect (id : CellId) (port : Ident) (onNet : NetId)
  | disconnect (id : CellId) (port : Ident)
  | removeCell (id : CellId)
  | removeNet (id : NetId)
  | markForRemoval (id : CellId)
  | flush
  /-- Writes to a cell.  Its ports and its cluster stay as they are. -/
  | write (id : CellId) (f : Cell → Cell)
  | instantiate (t : CellTemplate) (name : String)
  | mergeConstantDrivers (options : NormalizeOptions)
  | foldInput (options : NormalizeOptions) (id : CellId) (port : Ident)
  | foldInputs (options : NormalizeOptions) (id : CellId)
  | pruneDeadOutputs (options : NormalizeOptions)
  | normalize (options : NormalizeOptions)
  | retargetCell (rule : RetargetRule) (id : CellId)
  | retarget (rules : RuleSet)
  | legalize (f : Fabric) (chain : List CellId)
  | packChains (f : Fabric)
  | buildCluster (root : CellId) (rootOffset : Offset) (members : List Cluster.Placed)
  | constrainSegment (members : List CellId) (slotsPerTile : Nat)
  | constrainPairs (rule : Cluster.PairRule)

namespace Operation

/-- Carries out an operation and forgets what it returns. -/
def run : Operation → Packing Unit
  | enterName name => do let _ ← naming name
  | createCell cellType name => do let _ ← Edit.createCell cellType name
  | createNet name => do let _ ← Edit.createNet name
  | uniqueName base => do let _ ← Edit.uniqueName base
  | constantNet value => do let _ ← Edit.constantNet value
  | addPort id port direction => Edit.addPort id port direction
  | removePort id port => Edit.removePort id port
  | renamePort id old new => Edit.renamePort id old new
  | connect id port onNet => Edit.connect id port onNet
  | disconnect id port => do let _ ← Edit.disconnect id port
  | removeCell id => do let _ ← Edit.removeCell id
  | removeNet id => do let _ ← Edit.removeNet id
  | markForRemoval id => Edit.markForRemoval id
  | flush => do let _ ← Edit.flush
  | write id f => Edit.updateCell id fun c => { f c with ports := c.ports, cluster := c.cluster }
  | instantiate t name => do let _ ← t.instantiate name
  | mergeConstantDrivers options => do let _ ← Normalize.mergeConstantDrivers options
  | foldInput options id port => do let _ ← Normalize.foldInput options id port
  | foldInputs options id => do let _ ← Normalize.foldInputs options id
  | pruneDeadOutputs options => do let _ ← Normalize.pruneDeadOutputs options
  | normalize options => do let _ ← FpgaPacking.normalize options
  | retargetCell rule id => Retarget.retargetCell rule id
  | retarget rules => do let _ ← FpgaPacking.retarget rules
  | legalize f chain => do let _ ← Chain.legalize f chain
  | packChains f => do let _ ← FpgaPacking.packChains f
  | buildCluster root rootOffset members => Cluster.build root rootOffset members
  | constrainSegment members slotsPerTile => Cluster.constrainSegment members slotsPerTile
  | constrainPairs rule => do let _ ← Cluster.constrainPairs rule

/-- What the operation writes to cells, apart from ports and clusters, does not destroy the
property. -/
def WritesKeep (I : Netlist → Prop) : Operation → Prop
  | write id f =>
    Edit.Keeps I (Edit.updateCell id fun c => { f c with ports := c.ports, cluster := c.cluster })
  | instantiate t name => Edit.Keeps I (t.instantiate name)
  | foldInput options _ _ | foldInputs options _ | normalize options =>
    ∀ id port, Edit.Keeps I (Normalize.foldInput options id port)
  | retargetCell rule _ => Retargeting rule I
  | retarget rules => ∀ cellType rule, rules.find? cellType = some rule → Retargeting rule I
  | legalize f _ | packChains f => Splicing f I
  | _ => True

/-- Operations keep what the steps keep that they are made of, whether or not they fail. -/
theorem keeps_run_of {I : Netlist → Prop} (hI : Elementary I) (op : Operation)
    (hop : op.WritesKeep I) : Packing.Keeps I op.run := by
  have discard : ∀ {α : Type} {x : Packing α}, Packing.Keeps I x →
      Packing.Keeps I (do let _ ← x) := fun hx => .bind hx fun _ => .pure _
  cases op with
  | enterName name => exact discard (.name _)
  | createCell cellType name => exact discard (.edit (hI.keeps_createCell cellType name))
  | createNet name => exact discard (.edit (hI.keeps_createNet name))
  | uniqueName base => exact discard (.edit (hI.keeps_uniqueName base))
  | constantNet value => exact discard (.edit (hI.keeps_constantNet value))
  | addPort id port direction => exact .edit (hI.keeps_addPort direction)
  | removePort id port => exact .edit hI.keeps_removePort
  | renamePort id old new => exact .edit (hI.keeps_renamePort old new)
  | connect id port onNet => exact .edit hI.keeps_connect
  | disconnect id port => exact discard (.edit hI.keeps_disconnect)
  | removeCell id => exact discard (.edit hI.keeps_removeCell)
  | removeNet id => exact discard (.edit hI.keeps_removeNet)
  | markForRemoval id => exact .edit hI.keeps_markForRemoval
  | flush => exact discard (.edit hI.keeps_flush)
  | write id f => exact .edit hop
  | instantiate t name => exact discard (.edit hop)
  | mergeConstantDrivers options => exact discard (.edit hI.keeps_mergeConstantDrivers)
  | foldInput options id port => exact discard (.edit (hop id port))
  | foldInputs options id => exact discard (.edit (Normalize.keeps_foldInputs hop))
  | pruneDeadOutputs options => exact discard (.edit hI.keeps_pruneDeadOutputs)
  | normalize options => exact discard (hI.keeps_normalize hop)
  | retargetCell rule id => exact hop.keeps_retargetCell id
  | retarget rules => exact discard (Retarget.keeps_retarget hop)
  | legalize f chain => exact discard (hop.keeps_legalize chain)
  | packChains f => exact discard (hop.keeps_packChains hI.keeps_build)
  | buildCluster root rootOffset members => exact .edit (hI.keeps_build root rootOffset members)
  | constrainSegment members slotsPerTile =>
    exact .edit (Cluster.keeps_constrainSegment_of hI.keeps_build members slotsPerTile)
  | constrainPairs rule => exact discard (Cluster.keeps_constrainPairs_of hI.keeps_build rule)

/-- A property that no step destroys survives whatever an operation writes. -/
theorem writesKeep_of_structural {I : Netlist → Prop} (hI : Structural I) (op : Operation) :
    op.WritesKeep I := by
  cases op with
  | write id f => exact hI.keeps_write fun _ => ⟨rfl, rfl⟩
  | instantiate t name => exact hI.keeps_instantiate t name
  | foldInput options id port => exact hI.keeps_foldInput
  | foldInputs options id => exact hI.keeps_foldInput
  | normalize options => exact hI.keeps_foldInput
  | retargetCell rule id => exact hI.retargeting rule
  | retarget rules => exact fun _ rule _ => hI.retargeting rule
  | legalize f chain => exact hI.splicing f
  | packChains f => exact hI.splicing f
  | _ => trivial

theorem keeps_run {I : Netlist → Prop} (hI : Structural I) (op : Operation) :
    Packing.Keeps I op.run :=
  op.keeps_run_of hI.toElementary (writesKeep_of_structural hI op)

end Operation

/-- The session after a sequence of operations.  An operation that fails leaves
behind what it has done, and the next one starts from there. -/
def Session.after (s : Session) (ops : List Operation) : Session :=
  ops.foldl (fun s op => finalState (op.run s)) s

/-- What every operation of a sequence keeps holds after all of them. -/
theorem Session.holds_after {I : Netlist → Prop} {s : Session} {ops : List Operation}
    (hops : ∀ op ∈ ops, Packing.Keeps I op.run) (h : I s.netlist) : I (s.after ops).netlist := by
  induction ops generalizing s with
  | nil => exact h
  | cons op rest ih =>
    obtain ⟨hop, hrest⟩ := List.forall_mem_cons.mp hops
    exact ih hrest (hop s h)

/-- What every step keeps holds after any sequence of operations. -/
theorem Structural.after {I : Netlist → Prop} (hI : Structural I) {s : Session} (h : I s.netlist)
    (ops : List Operation) : I (s.after ops).netlist :=
  Session.holds_after (fun op _ => op.keeps_run hI) h

open Edit in
theorem structural_wellFormed : Structural WellFormed where
  keeps_createCell := keeps_createCell
  keeps_createNet := keeps_createNet
  keeps_uniqueName := keeps_uniqueName
  keeps_constantNet := keeps_constantNet
  keeps_addPort := keeps_addPort
  keeps_removePort := keeps_removePort
  keeps_renamePort := keeps_renamePort
  keeps_connect := keeps_connect
  keeps_disconnect := keeps_disconnect
  keeps_removeCell := keeps_removeCell
  keeps_removeNet := keeps_removeNet
  keeps_markForRemoval := keeps_markForRemoval
  keeps_unqueue := keeps_unqueue
  keeps_write hf := keeps_updateCell fun c => (hf c).1
  keeps_build := Cluster.keeps_build_of fun _ _ => keeps_updateCell fun _ => rfl

theorem Session.wellFormed_after_of_wellFormed {s : Session} (h : s.netlist.WellFormed)
    (ops : List Operation) : (s.after ops).netlist.WellFormed :=
  structural_wellFormed.after h ops

/-- Every netlist that operations make from the empty one is well-formed. -/
theorem wellFormed_of_operations (names : Names) (ops : List Operation) :
    ((Session.start names).after ops).netlist.WellFormed :=
  Session.wellFormed_after_of_wellFormed Wired.empty.wellFormed ops

end FpgaPacking
