import FpgaPacking.Proofs.Chain.Packed
import FpgaPacking.Proofs.Numbering.Configured
import FpgaPacking.Proofs.Numbering.Fingerprint

/-!
# Packing does not depend on numbering

Two sessions number the names differently and agree in everything else.  Options
and a fabric are built from one configuration in each of them, the netlist is
normalized and its chains are packed.  Both runs report the same changes and the
same segments, or both fail in the same way.  They emit the same diagnostics and end
in netlists that differ in numbering only, with the same fingerprint.
-/

namespace FpgaPacking

variable {R : Renaming}

/-! ## Sessions built alike -/

/-- Operations by which a netlist is built, with identifiers that stand for each other. -/
inductive Operation.Alike (R : Renaming) : Operation → Operation → Prop where
  | enterName (name : String) : Alike R (.enterName name) (.enterName name)
  | createCell {t t' : Ident} (h : R t t') (name : String) :
    Alike R (.createCell t name) (.createCell t' name)
  | createNet (name : String) : Alike R (.createNet name) (.createNet name)
  | constantNet (v : ConstValue) : Alike R (.constantNet v) (.constantNet v)
  | addPort (id : CellId) {p p' : Ident} (h : R p p') (direction : Direction) :
    Alike R (.addPort id p direction) (.addPort id p' direction)
  | connect (id : CellId) {p p' : Ident} (h : R p p') (k : NetId) :
    Alike R (.connect id p k) (.connect id p' k)
  | disconnect (id : CellId) {p p' : Ident} (h : R p p') :
    Alike R (.disconnect id p) (.disconnect id p')

theorem Operation.Alike.run {op op' : Operation} (h : op.Alike R op') :
    Packing.Alike R Eq op.run op'.run := by
  cases h with
  | enterName name => exact .name_bind (Naming.alike_naming name) fun _ _ _ _ _ => .pure rfl
  | createCell h name =>
    exact (Packing.Alike.edit fun S hRS => Edit.alike_createCell (hRS _ _ h) name).bind_same
      fun _ => .pure rfl
  | createNet name =>
    exact (Packing.Alike.edit fun _ _ => Edit.alike_createNet name).bind_same fun _ => .pure rfl
  | constantNet v =>
    exact (Packing.Alike.edit fun _ _ => Edit.alike_constantNet v).bind_same fun _ => .pure rfl
  | addPort id h direction =>
    exact .edit fun S hRS => Edit.alike_addPort id (hRS _ _ h) direction
  | connect id h k => exact .edit fun S hRS => Edit.alike_connect id (hRS _ _ h) k
  | disconnect id h =>
    exact (Packing.Alike.edit fun S hRS => Edit.alike_disconnect id (hRS _ _ h)).bind_same
      fun _ => .pure rfl

theorem EndAlike.finalState {ε σ τ α β : Type} {S : σ → τ → Prop} {V : α → β → Prop}
    {r : EStateM.Result ε σ α} {r' : EStateM.Result ε τ β} (h : EndAlike S V r r') :
    S (finalState r) (finalState r') := by
  cases h with
  | ok _ hS => exact hS
  | error _ hS => exact hS

/-- Netlists that were built by the same operations over different tables are alike. -/
theorem Session.Alike.after {ops ops' : List Operation}
    (hops : List.Forall₂ (Operation.Alike R) ops ops') {s s' : Session} (h : s.Alike R s') :
    (s.after ops).Alike R (s'.after ops') := by
  unfold Session.after
  induction hops generalizing s s' with
  | nil => exact h
  | cons hop _ ih => exact ih (hop.run s s' h).finalState

/-! ## The whole run -/

/-- Normalizes a netlist and packs its chains, with the options and the fabric of a configuration. -/
def normalizeAndPack (config : Config) :
    Packing (Except Config.Error (Normalize.Report × List Chain.Segment)) := do
  let options ← NormalizeOptions.ofConfig config
  match ← Fabric.ofConfig config with
  | .error e => return .error e
  | .ok f => do
    let report ← normalize options
    let segments ← packChains f
    return .ok (report, segments)

theorem alike_normalizeAndPack (config : Config) :
    Packing.Alike R Eq (normalizeAndPack config) (normalizeAndPack config) := by
  refine .name_bind (NormalizeOptions.alike_ofConfig config) fun S _ o o' ho => ?_
  refine .name_bind (Fabric.alike_ofConfig config) fun T hST f f' hf => ?_
  cases hf with
  | error e => exact .pure rfl
  | ok hf =>
    refine (Normalize.alike_normalize (ho.mono hST)).bind_same fun report => ?_
    exact (Chain.alike_packChains hf).bind_same fun segments => .pure rfl

/-- What a run returns, or the failure it ends by. -/
def outcome {ε σ α : Type} : EStateM.Result ε σ α → Except ε α
  | .ok a _ => .ok a
  | .error e _ => .error e

theorem EndAlike.outcome {ε σ τ α : Type} {S : σ → τ → Prop} {r : EStateM.Result ε σ α}
    {r' : EStateM.Result ε τ α} (h : EndAlike S Eq r r') : outcome r' = outcome r := by
  cases h with
  | ok h _ => exact congrArg Except.ok h.symm
  | error _ _ => rfl

/-- The fingerprint of the netlist, unless it holds a value that cannot be displayed. -/
def Session.fingerprint? (s : Session) : Option Digest := (s.netlist.fingerprint s.names).toOption

/-- The result of a run does not depend on how the names are numbered.

The two tables may hold different names, but what the netlists mention is in both.
`Session.Alike` says that this is so again at the end, with the same pairs of
identifiers and maybe new ones, and that the netlists are equal up to these pairs
and the logs are equal. -/
theorem normalizeAndPack_independent_of_numbering (config : Config) {s s' : Session}
    (hnetlist : s.netlist.Alike (s.names.matching s'.names) s'.netlist) (hlog : s'.log = s.log) :
    outcome (normalizeAndPack config s') = outcome (normalizeAndPack config s) ∧
      (finalState (normalizeAndPack config s)).Alike (s.names.matching s'.names)
        (finalState (normalizeAndPack config s')) ∧
      (finalState (normalizeAndPack config s')).fingerprint? =
        (finalState (normalizeAndPack config s)).fingerprint? := by
  have hstart : s.Alike (s.names.matching s'.names) s' := ⟨le_refl _, hnetlist, hlog⟩
  have hend := alike_normalizeAndPack config s s' hstart
  exact ⟨hend.outcome, hend.finalState, Netlist.fingerprint_of_alike hend.finalState.netlist⟩

/-! ## An example -/

namespace Chain.Adder

/-- The names in another order, after two others. -/
def otherNames : Names where
  entered := #["Z", "Y", "OUT", "PASS", "F", "FEED", "O", "I", "CARRY", "CO", "CI"]
  nodup := by decide +kernel

/-- The session of the adder over the other table. -/
def otherSession : Session := (Session.start otherNames).after [
  .createCell ⟨10⟩ "source", .createCell ⟨8⟩ "low", .createCell ⟨8⟩ "high",
  .createCell ⟨10⟩ "reader", .createNet "x", .createNet "y", .createNet "z",
  .addPort ⟨0⟩ ⟨6⟩ .output,
  .addPort ⟨1⟩ ⟨10⟩ .input, .addPort ⟨1⟩ ⟨9⟩ .output,
  .addPort ⟨2⟩ ⟨10⟩ .input, .addPort ⟨2⟩ ⟨9⟩ .output,
  .addPort ⟨3⟩ ⟨7⟩ .input, .addPort ⟨3⟩ ⟨4⟩ .input,
  .connect ⟨0⟩ ⟨6⟩ ⟨0⟩, .connect ⟨1⟩ ⟨10⟩ ⟨0⟩,
  .connect ⟨1⟩ ⟨9⟩ ⟨1⟩, .connect ⟨2⟩ ⟨10⟩ ⟨1⟩, .connect ⟨3⟩ ⟨7⟩ ⟨1⟩,
  .connect ⟨2⟩ ⟨9⟩ ⟨2⟩, .connect ⟨3⟩ ⟨4⟩ ⟨2⟩]

/-- Both sessions are built by the same operations, and identifiers that stand at the same place in
them have the same name. -/
theorem otherSession_alike : session.Alike (names.matching otherNames) otherSession := by
  refine Session.Alike.after ?_ ⟨le_refl _, .empty, rfl⟩
  repeat' constructor

/-- What comes of the other session follows from what comes of the first. -/
theorem otherSession_packed :
    outcome (normalizeAndPack config otherSession) =
        .ok (.ok (.none, [⟨[⟨4⟩, ⟨1⟩, ⟨5⟩, ⟨2⟩, ⟨6⟩], 2⟩])) ∧
      (finalState (normalizeAndPack config otherSession)).fingerprint? =
        (finalState (normalizeAndPack config session)).fingerprint? := by
  have hpacked : outcome (normalizeAndPack config session) =
      .ok (.ok (.none, [⟨[⟨4⟩, ⟨1⟩, ⟨5⟩, ⟨2⟩, ⟨6⟩], 2⟩])) := eq_ok_of_toOption (by decide +kernel)
  obtain ⟨houtcome, -, hfingerprint⟩ := normalizeAndPack_independent_of_numbering config
    otherSession_alike.netlist otherSession_alike.log
  exact ⟨houtcome.trans hpacked, hfingerprint⟩

end Chain.Adder
end FpgaPacking
