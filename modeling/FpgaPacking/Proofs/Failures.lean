import FpgaPacking.Chain.Legalize
import FpgaPacking.Normalize.Run
import FpgaPacking.Proofs.Netlist.Preservation

/-!
# What edits fail with

Two failures are not those of an edit: that a chain is too long, which is found
while it is planned, and that the rounds of normalization have run out.
`Failure.OfEdit` leaves these two out, and `FailsOnly` says of a step that it has
no other failures than some.  As with invariants, the closure under the ways in
which steps are put together comes first and the operations follow one by one.
-/

namespace FpgaPacking

variable {ε σ α β : Type}

/-- The check or lookup has no other failures than those that satisfy `P`. -/
def Refuses (P : ε → Prop) (x : Except ε α) : Prop := ∀ e, x = .error e → P e

namespace Refuses

variable {P : ε → Prop}

theorem ok (a : α) : Refuses P (.ok a) := nofun

theorem error {e : ε} (h : P e) : Refuses P (.error e : Except ε α) := by
  rintro _ ⟨⟩
  exact h

theorem imp {Q : ε → Prop} {x : Except ε α} (hx : Refuses P x) (h : ∀ e, P e → Q e) :
    Refuses Q x :=
  fun e he => h e (hx e he)

/-- What follows matters for what the first part gives only. -/
theorem bind_checked {x : Except ε α} {f : α → Except ε β} (hx : Refuses P x)
    (hf : ∀ a, x = .ok a → Refuses P (f a)) : Refuses P (x >>= f) := by
  cases x with
  | ok a => exact hf a rfl
  | error e => exact error (hx e rfl)

theorem bind {x : Except ε α} {f : α → Except ε β} (hx : Refuses P x)
    (hf : ∀ a, Refuses P (f a)) : Refuses P (x >>= f) := bind_checked hx fun a _ => hf a

theorem bind_of_ok {x : Except ε α} {f : α → Except ε β} {a : α} (hx : x = .ok a)
    (hf : Refuses P (f a)) : Refuses P (x >>= f) := by
  rw [hx]
  exact hf

theorem map {x : Except ε α} (f : α → β) (hx : Refuses P x) : Refuses P (x.map f) := by
  cases x with
  | ok a => exact ok (f a)
  | error e => exact error (hx e rfl)

theorem foldlM {f : β → α → Except ε β} (hf : ∀ b a, Refuses P (f b a)) :
    ∀ (l : List α) (b : β), Refuses P (l.foldlM f b)
  | [], b => ok b
  | a :: l, b => bind (hf b a) fun b' => foldlM hf l b'

theorem mapM {f : α → Except ε β} (hf : ∀ a, Refuses P (f a)) (l : List α) :
    Refuses P (l.mapM f) := by
  induction l with
  | nil => exact ok []
  | cons a l ih =>
    rw [List.mapM_cons]
    exact bind (hf a) fun b => bind ih fun bs => ok (b :: bs)

end Refuses

/-- The step has no other failures than those that satisfy `P`. -/
def FailsOnly (P : ε → Prop) (x : EStateM ε σ α) : Prop := ∀ s e s', x s = .error e s' → P e

theorem bind_error {x : EStateM ε σ α} {f : α → EStateM ε σ β} {s s'' : σ} {e : ε} :
    (x >>= f) s = .error e s'' ↔
      x s = .error e s'' ∨ ∃ a s', x s = .ok a s' ∧ f a s' = .error e s'' := by
  show EStateM.bind x f s = _ ↔ _
  unfold EStateM.bind
  cases x s with
  | ok a s' =>
    constructor
    · exact fun h => Or.inr ⟨a, s', rfl, h⟩
    · rintro (⟨⟨⟩⟩ | ⟨_, _, ⟨⟩, h⟩)
      exact h
  | error e s' =>
    constructor
    · rintro ⟨⟩
      exact Or.inl rfl
    · rintro (⟨⟨⟩⟩ | ⟨_, _, ⟨⟩, _⟩)
      rfl

theorem except_bind_error {x : Except ε α} {f : α → Except ε β} {e : ε} :
    (x >>= f) = .error e ↔ x = .error e ∨ ∃ a, x = .ok a ∧ f a = .error e := by
  cases x with
  | ok a =>
    constructor
    · exact fun h => Or.inr ⟨a, rfl, h⟩
    · rintro (⟨⟨⟩⟩ | ⟨_, ⟨⟩, h⟩)
      exact h
  | error e' =>
    constructor
    · rintro ⟨⟩
      exact Or.inl rfl
    · rintro (⟨⟨⟩⟩ | ⟨_, ⟨⟩, _⟩)
      rfl

/-- What a run fails with, unless it ends regularly. -/
def failure? : EStateM.Result ε σ α → Option ε
  | .ok _ _ => none
  | .error e _ => some e

theorem exists_error_of_failure {x : EStateM.Result ε σ α} {e : ε} (h : failure? x = some e) :
    ∃ s, x = .error e s := by
  cases x with
  | ok a s => cases h
  | error e' s =>
    obtain rfl := Option.some.inj h
    exact ⟨s, rfl⟩

namespace FailsOnly

variable {P : ε → Prop}

theorem of_ok {x : EStateM ε σ α} (h : ∀ s, ∃ a s', x s = .ok a s') : FailsOnly P x := by
  intro s e s' he
  obtain ⟨a, s'', hok⟩ := h s
  rw [hok] at he
  cases he

theorem pure (a : α) : FailsOnly P (Pure.pure a : EStateM ε σ α) := of_ok fun s => ⟨a, s, rfl⟩

theorem throw {e : ε} (h : P e) : FailsOnly P (MonadExcept.throw e : EStateM ε σ α) := by
  rintro s _ _ ⟨⟩
  exact h

theorem bind {x : EStateM ε σ α} {f : α → EStateM ε σ β} (hx : FailsOnly P x)
    (hf : ∀ a, FailsOnly P (f a)) : FailsOnly P (x >>= f) := by
  intro s e s'' h
  rcases bind_error.mp h with h | ⟨a, s', -, h⟩
  · exact hx s e s'' h
  · exact hf a s' e s'' h

theorem forM {f : α → EStateM ε σ PUnit} (hf : ∀ a, FailsOnly P (f a)) :
    ∀ l : List α, FailsOnly P (l.forM f)
  | [] => pure PUnit.unit
  | a :: l => bind (hf a) fun _ => forM hf l

theorem foldlM {f : β → α → EStateM ε σ β} (hf : ∀ b a, FailsOnly P (f b a)) :
    ∀ (l : List α) (b : β), FailsOnly P (l.foldlM f b)
  | [], b => pure b
  | a :: l, b => bind (hf b a) fun b' => foldlM hf l b'

end FailsOnly

/-- A loop whose rounds cannot fail does not fail. -/
theorem exists_forM_ok {f : α → EStateM ε σ PUnit} {l : List α}
    (hf : ∀ a ∈ l, ∀ s, ∃ s', f a s = .ok ⟨⟩ s') (s : σ) : ∃ s', l.forM f s = .ok ⟨⟩ s' := by
  induction l generalizing s with
  | nil => exact ⟨s, rfl⟩
  | cons a l ih =>
    obtain ⟨s₁, hhead⟩ := hf a List.mem_cons_self s
    obtain ⟨s₂, hrest⟩ := ih (fun b hb => hf b (List.mem_cons_of_mem a hb)) s₁
    exact ⟨s₂, bind_ok.mpr ⟨_, s₁, hhead, hrest⟩⟩

/-! ## Lookups -/

/-- The failure may arise while a netlist is edited. -/
def Failure.OfEdit (e : Failure) : Prop :=
  (∀ cell capacity limit, e ≠ .rejected (.chainTooLong cell capacity limit)) ∧
    e ≠ .fault .roundsExhausted

theorem Failure.ofEdit_violation (v : Violation) : (violation v).OfEdit := ⟨nofun, nofun⟩

/-- A lookup that does not go in rounds. -/
abbrev LooksUp (x : Except Fault α) : Prop := Refuses (· ≠ .roundsExhausted) x

theorem looksUp_cell (nl : Netlist) (id : CellId) : LooksUp (nl.cell id) := by
  unfold Netlist.cell
  split
  · exact .ok _
  · exact .error nofun

theorem looksUp_net (nl : Netlist) (id : NetId) : LooksUp (nl.net id) := by
  unfold Netlist.net
  split
  · exact .ok _
  · exact .error nofun

theorem looksUp_bitMask (position : Nat) : LooksUp (LutShape.bitMask position) := by
  unfold LutShape.bitMask
  split
  · exact .ok _
  · exact .error nofun

theorem looksUp_get (v : LogicVec) (index : Nat) : LooksUp (v.get index) := by
  unfold LogicVec.get
  split
  · split
    · exact .ok _
    · exact .error nofun
  · exact .error nofun

theorem looksUp_set (v : LogicVec) (index : Nat) (value : Logic) :
    LooksUp (v.set index value) := by
  unfold LogicVec.set
  split
  · split
    · exact .ok _
    · exact .error nofun
  · exact .error nofun

theorem looksUp_foldTable (table : LogicVec) (mask : Nat) (value : Bool) :
    LooksUp (Normalize.foldTable table mask value) :=
  Refuses.foldlM (fun folded row => .bind (looksUp_get table _) fun v => looksUp_set folded row v)
    _ _

theorem looksUp_tableParam (before : ParamValue) (folded : LogicVec) :
    LooksUp (Normalize.tableParam before folded) := by
  have hinteger : LooksUp folded.toUInt64? := by
    unfold LogicVec.toUInt64?
    split
    · exact .ok _
    · exact Refuses.map _ (Refuses.mapM (fun index => looksUp_get folded index) _)
  refine Refuses.bind hinteger fun n => ?_
  split
  · exact .ok _
  · exact .ok _

/-! ## Edits -/

namespace Edit

variable {P : Failure → Prop} {id : CellId} {port : Ident} {k : NetId}

/-- The edit has no other failures than those that satisfy `P`. -/
def Fails (P : Failure → Prop) (x : Edit α) : Prop := ∀ names, FailsOnly P (x names)

namespace Fails

theorem pure (a : α) : Fails P (Pure.pure a : Edit α) := fun _ => .pure a

theorem throw {e : Failure} (h : P e) : Fails P (MonadExcept.throw e : Edit α) :=
  fun _ => .throw h

theorem get : Fails P (MonadState.get : Edit Netlist) := fun _ => .of_ok fun nl => ⟨nl, nl, rfl⟩

theorem modifyGet (f : Netlist → α × Netlist) : Fails P (MonadStateOf.modifyGet f : Edit α) :=
  fun _ => .of_ok fun nl => ⟨(f nl).1, (f nl).2, rfl⟩

theorem resolve (ident : Ident) : Fails P (Edit.resolve ident) :=
  fun names => .of_ok fun nl => ⟨names.resolve ident, nl, rfl⟩

theorem bind {x : Edit α} {f : α → Edit β} (hx : Fails P x) (hf : ∀ a, Fails P (f a)) :
    Fails P (x >>= f) :=
  fun names => FailsOnly.bind (hx names) fun a => hf a names

theorem forM {f : α → Edit PUnit} (hf : ∀ a, Fails P (f a)) (l : List α) : Fails P (l.forM f) := by
  intro names
  rw [forM_run]
  exact FailsOnly.forM (fun a => hf a names) l

theorem foldlM {f : β → α → Edit β} (hf : ∀ b a, Fails P (f b a)) (l : List α) (b : β) :
    Fails P (l.foldlM f b) := by
  intro names
  rw [foldlM_run]
  exact FailsOnly.foldlM (fun b a => hf b a names) l b

theorem filterM {f : α → Edit Bool} (hf : ∀ a, Fails P (f a)) (l : List α) :
    Fails P (l.filterM f) := by
  have haux : ∀ l acc : List α, Fails P (l.filterAuxM f acc) := by
    intro l
    induction l with
    | nil => exact fun acc => Fails.pure acc
    | cons a l ih => exact fun acc => Fails.bind (hf a) fun b => ih (cond b (a :: acc) acc)
  exact Fails.bind (haux l []) fun acc => Fails.pure acc.reverse

end Fails

theorem fails_modifyCell (f : Cell → Cell) : Fails P (modifyCell id f) := .modifyGet _

theorem fails_modifyNet (f : Net → Net) : Fails P (modifyNet k f) := .modifyGet _

/-! Edits that rely on checked lookups fail with violations only. -/

section Checked

variable (hP : ∀ v, P (.violation v))
include hP

theorem fails_cellChecked : Fails P (cellChecked id) := by
  refine Fails.bind Fails.get fun nl => ?_
  split
  · exact .pure _
  · exact .throw (hP _)

theorem fails_netChecked : Fails P (netChecked k) := by
  refine Fails.bind Fails.get fun nl => ?_
  split
  · exact .pure _
  · exact .throw (hP _)

theorem fails_portChecked : Fails P (portChecked id port) := by
  refine Fails.bind (fails_cellChecked hP) fun c => ?_
  split
  · exact .pure _
  · exact Fails.bind (.resolve _) fun _ => .throw (hP _)

theorem fails_addPort (direction : Direction) : Fails P (addPort id port direction) := by
  refine Fails.bind (fails_cellChecked hP) fun c => ?_
  split
  · split
    · exact .pure _
    · exact Fails.bind (.resolve _) fun _ => .throw (hP _)
  · exact fails_modifyCell _

theorem fails_disconnect : Fails P (disconnect id port) := by
  refine Fails.bind (fails_portChecked hP) fun found => ?_
  obtain ⟨c, p⟩ := found
  dsimp only
  split
  · exact .pure _
  · refine Fails.bind (fails_netChecked hP) fun _ => Fails.bind (fails_modifyNet _) fun _ => ?_
    exact Fails.bind (fails_modifyCell _) fun _ => .pure _

theorem fails_removeCell : Fails P (removeCell id) := by
  refine Fails.bind (fails_cellChecked hP) fun c => ?_
  split
  · exact Fails.bind (.resolve _) fun _ => .throw (hP _)
  · split
    · exact .throw (hP _)
    · exact Fails.bind (.modifyGet _) fun _ => .pure _

theorem fails_removeNet : Fails P (removeNet k) := by
  refine Fails.bind (fails_netChecked hP) fun n => ?_
  split
  · exact Fails.bind (.modifyGet _) fun _ => .pure _
  · exact .throw (hP _)

theorem fails_removeFloating : Fails P (removeFloating k) := by
  refine Fails.bind .get fun nl => ?_
  split
  · split
    · exact Fails.bind (fails_removeNet hP) fun _ => .pure _
    · exact .pure _
  · exact .pure _

theorem fails_dismantle (touched : Keys NetId) : Fails P (dismantle touched id) := by
  have hdetach : Fails P (detachAll id touched) :=
    Fails.bind (fails_cellChecked hP) fun c =>
      .foldlM (fun _ _ => Fails.bind (fails_disconnect hP) fun _ => .pure _) c.ports touched
  exact Fails.bind hdetach fun _ => Fails.bind (fails_removeCell hP) fun _ => .pure _

theorem fails_flush : Fails P flush := by
  refine Fails.bind (.modifyGet _) fun queued => ?_
  refine Fails.bind (.foldlM (fun touched _ => fails_dismantle hP touched) queued _)
    fun touched => ?_
  exact Fails.bind (.forM (fun _ => fails_removeFloating hP) touched.keys) fun _ => .pure _

end Checked

/-! With plain lookups a fault may come in. -/

theorem fails_lookup {x : Except Fault α} (h : LooksUp x) :
    Fails Failure.OfEdit (liftM x : Edit α) := by
  cases x with
  | ok a => exact Fails.pure a
  | error e =>
    refine Fails.throw ⟨nofun, fun he => ?_⟩
    exact h e rfl (Failure.fault.inj he)

theorem fails_cell : Fails Failure.OfEdit (cell id) :=
  Fails.bind Fails.get fun nl => fails_lookup (looksUp_cell nl id)

theorem fails_net : Fails Failure.OfEdit (net k) :=
  Fails.bind Fails.get fun nl => fails_lookup (looksUp_net nl k)

theorem fails_updateCell (f : Cell → Cell) : Fails Failure.OfEdit (updateCell id f) :=
  Fails.bind fails_cell fun _ => fails_modifyCell f

theorem fails_connect : Fails Failure.OfEdit (connect id port k) := by
  refine Fails.bind (fails_portChecked Failure.ofEdit_violation) fun found => ?_
  obtain ⟨c, p⟩ := found
  dsimp only
  split
  · split
    · exact .pure _
    · refine Fails.bind (.resolve _) fun _ => Fails.bind fails_net fun _ => ?_
      exact Fails.bind .get fun _ => .throw ⟨nofun, nofun⟩
  · refine Fails.bind (fails_netChecked Failure.ofEdit_violation) fun n => ?_
    split
    · split
      · exact Fails.bind (.resolve _) fun _ => .throw (Failure.ofEdit_violation _)
      · split
        · exact Fails.bind (.resolve _) fun _ => .throw (Failure.ofEdit_violation _)
        · exact Fails.bind (fails_modifyNet _) fun _ => fails_modifyCell _
    all_goals exact Fails.bind (fails_modifyNet _) fun _ => fails_modifyCell _

theorem fails_instantiate (t : CellTemplate) (name : String) :
    Fails Failure.OfEdit (t.instantiate name) := by
  refine Fails.bind (.modifyGet _) fun id => ?_
  refine Fails.bind (.forM (fun p => fails_addPort Failure.ofEdit_violation p.2) t.ports)
    fun _ => ?_
  exact Fails.bind (fails_updateCell _) fun _ => .pure id

end Edit

/-! ## Packing steps -/

namespace Packing

/-- The step has no failures but those of edits. -/
abbrev Fails (x : Packing α) : Prop := FailsOnly Failure.OfEdit x

theorem edit_error {x : Edit α} {e : Failure} {s s' : Session} :
    (liftM x : Packing α) s = .error e s' ↔
      ∃ nl, x s.names s.netlist = .error e nl ∧ s' = { s with netlist := nl } := by
  obtain ⟨names, netlist, log⟩ := s
  show Packing.edit x ⟨names, netlist, log⟩ = _ ↔ _
  unfold Packing.edit
  dsimp only
  cases x names netlist with
  | ok a nl =>
    constructor
    · intro h
      cases h
    · rintro ⟨_, ⟨⟩, _⟩
  | error e' nl =>
    constructor
    · rintro ⟨⟩
      exact ⟨nl, rfl, rfl⟩
    · rintro ⟨_, ⟨⟩, rfl⟩
      rfl

theorem fails_edit {P : Failure → Prop} {x : Edit α} (hx : Edit.Fails P x) :
    FailsOnly P (liftM x : Packing α) := by
  intro s e s' h
  obtain ⟨nl, hrun, -⟩ := edit_error.mp h
  exact hx s.names s.netlist e nl hrun

theorem fails_name (x : Naming α) : Fails (liftM x : Packing α) :=
  .of_ok fun s => ⟨(x s.names).1, ⟨(x s.names).2, s.netlist, s.log⟩, rfl⟩

theorem fails_emit (d : Diagnostic) : Fails (emit d) :=
  .of_ok fun s => ⟨(), { s with log := s.log.emit d }, rfl⟩

theorem fails_check {x : Except Failure α} (h : Refuses Failure.OfEdit x) :
    Fails (liftM x : Packing α) := by
  cases x with
  | ok a => exact .pure a
  | error e => exact .throw (h e rfl)

end Packing

/-! ## Legalization -/

namespace Chain

open Packing

theorem refuses_cell (nl : Netlist) (id : CellId) :
    Refuses Failure.OfEdit ((nl.cell id).mapError .fault) := by
  unfold Netlist.cell
  split
  · exact .ok _
  · exact .error ⟨nofun, nofun⟩

section Templates

variable {P : Failure → Prop} (hP : ∀ v, P (.violation v)) (f : Fabric)
include hP

theorem refuses_checkLinks {nl : Netlist} {chain : List CellId}
    (hcells : ∀ id ∈ chain, Refuses P ((nl.cell id).mapError .fault)) :
    Refuses P (checkLinks nl f chain) := by
  induction chain with
  | nil => exact .ok _
  | cons a rest ih =>
    cases rest with
    | nil => exact .ok _
    | cons b rest =>
      obtain ⟨ha, hrest⟩ := List.forall_mem_cons.mp hcells
      have hlink : Refuses P (checkLink nl f a b) := by
        unfold checkLink
        dsimp only
        split
        · exact .ok _
        · refine Refuses.bind ha fun _ => Refuses.bind (hrest b List.mem_cons_self) fun _ => ?_
          exact .error (hP _)
      exact Refuses.bind hlink fun _ => ih hrest

theorem refuses_boundaryTemplate (role : Role) : Refuses P (boundaryTemplate f role) := by
  unfold boundaryTemplate
  split
  · exact .ok _
  · exact .error (hP _)

theorem refuses_requiredPort (role : Role) (description : String) (port : Option Ident) :
    Refuses P (requiredPort f role description port) := by
  unfold requiredPort
  split
  · exact .ok _
  · exact .error (hP _)

theorem refuses_checkTemplate (step : Step) : Refuses P (checkTemplate f step) := by
  unfold checkTemplate
  split
  · exact .ok _
  · next role _ =>
    refine Refuses.bind (refuses_boundaryTemplate hP f role) fun t => ?_
    have hrouted : Refuses P (if role ≠ .feedIn then do
        let _ ← fabricOutput f role t
        pure PUnit.unit else pure PUnit.unit) := by
      split
      · exact Refuses.bind (refuses_requiredPort hP f role _ _) fun _ => .ok _
      · exact .ok _
    dsimp only
    split
    · exact Refuses.bind (refuses_requiredPort hP f role _ _) fun _ => hrouted
    · exact hrouted

end Templates

theorem fails_boundaryCell (f : Fabric) (role : Role) (anchor : CellId) :
    Fails (boundaryCell f role anchor) := by
  refine FailsOnly.bind (fails_check (refuses_boundaryTemplate Failure.ofEdit_violation f role))
    fun t => ?_
  refine FailsOnly.bind (fails_edit Edit.fails_cell) fun c => ?_
  refine FailsOnly.bind (fails_edit (.modifyGet _)) fun name => ?_
  refine FailsOnly.bind (fails_edit (Edit.fails_instantiate t.cell name)) fun id => ?_
  refine FailsOnly.bind (fails_name _) fun key => ?_
  exact FailsOnly.bind (fails_edit (Edit.fails_updateCell _)) fun _ => .pure _

theorem fails_linkNet (id : CellId) : Edit.Fails Failure.OfEdit (linkNet id) :=
  Edit.Fails.bind Edit.fails_cell fun _ => Edit.Fails.bind (.modifyGet _) fun _ => .modifyGet _

theorem fails_detach (id : CellId) (port : Ident) : Edit.Fails Failure.OfEdit (detach id port) := by
  refine Edit.Fails.bind (Edit.fails_disconnect Failure.ofEdit_violation) fun onNet => ?_
  cases onNet with
  | some k => exact .pure k
  | none =>
    refine Edit.Fails.bind Edit.fails_cell fun c => ?_
    exact Edit.Fails.bind (.resolve port) fun _ => .throw (Failure.ofEdit_violation _)

theorem fails_insertFeedIn (f : Fabric) (head : CellId) : Fails (insertFeedIn f head) := by
  refine FailsOnly.bind (fails_boundaryCell f .feedIn head) fun made => ?_
  refine FailsOnly.bind (fails_check (refuses_requiredPort Failure.ofEdit_violation f _ _ _))
    fun output => ?_
  refine FailsOnly.bind (fails_edit (fails_detach head f.chainIn)) fun external => ?_
  refine FailsOnly.bind (fails_edit Edit.fails_connect) fun _ => ?_
  refine FailsOnly.bind (fails_edit (fails_linkNet _)) fun link => ?_
  refine FailsOnly.bind (fails_edit Edit.fails_connect) fun _ => ?_
  exact FailsOnly.bind (fails_edit Edit.fails_connect) fun _ => .pure _

theorem fails_insertPassThrough (f : Fabric) (prev next : CellId) :
    Fails (insertPassThrough f prev next) := by
  refine FailsOnly.bind (fails_boundaryCell f .passThrough prev) fun made => ?_
  refine FailsOnly.bind (fails_check (refuses_requiredPort Failure.ofEdit_violation f _ _ _))
    fun output => ?_
  refine FailsOnly.bind (fails_check (refuses_requiredPort Failure.ofEdit_violation f _ _ _))
    fun routed => ?_
  refine FailsOnly.bind (fails_edit (fails_detach prev f.chainOut)) fun signal => ?_
  refine FailsOnly.bind (fails_edit (fails_linkNet _)) fun before => ?_
  refine FailsOnly.bind (fails_edit Edit.fails_connect) fun _ => ?_
  refine FailsOnly.bind (fails_edit Edit.fails_connect) fun _ => ?_
  refine FailsOnly.bind (fails_edit Edit.fails_connect) fun _ => ?_
  refine FailsOnly.bind (fails_edit (Edit.fails_disconnect Failure.ofEdit_violation)) fun _ => ?_
  refine FailsOnly.bind (fails_edit (fails_linkNet _)) fun after => ?_
  refine FailsOnly.bind (fails_edit Edit.fails_connect) fun _ => ?_
  exact FailsOnly.bind (fails_edit Edit.fails_connect) fun _ => .pure _

theorem fails_insertPassOut (f : Fabric) (tail : CellId) : Fails (insertPassOut f tail) := by
  refine FailsOnly.bind (fails_boundaryCell f .passOut tail) fun made => ?_
  refine FailsOnly.bind (fails_check (refuses_requiredPort Failure.ofEdit_violation f _ _ _))
    fun routed => ?_
  refine FailsOnly.bind (fails_edit (fails_detach tail f.chainOut)) fun signal => ?_
  refine FailsOnly.bind (fails_edit (fails_linkNet _)) fun link => ?_
  refine FailsOnly.bind (fails_edit Edit.fails_connect) fun _ => ?_
  refine FailsOnly.bind (fails_edit Edit.fails_connect) fun _ => ?_
  exact FailsOnly.bind (fails_edit Edit.fails_connect) fun _ => .pure _

theorem fails_carryOut (f : Fabric) (steps : List Step) : ∀ segment : Segment,
    Fails (carryOut f segment steps) := by
  induction steps with
  | nil => exact fun _ => .pure _
  | cons step rest ih =>
    intro segment
    cases step with
    | feedIn head => exact FailsOnly.bind (fails_insertFeedIn f head) fun _ => ih _
    | passThrough prev next =>
      exact FailsOnly.bind (fails_insertPassThrough f prev next) fun _ => ih _
    | member id => exact ih _
    | passOut tail => exact FailsOnly.bind (fails_insertPassOut f tail) fun _ => ih _
    | close => exact FailsOnly.bind (ih _) fun _ => .pure _

end Chain

/-! ## Normalization -/

namespace Normalize

open Edit

variable {options : NormalizeOptions} {id : CellId}

theorem fails_moveSink (k : NetId) (sink : PortRef) : Fails Failure.OfEdit (moveSink k sink) :=
  Fails.bind (fails_disconnect Failure.ofEdit_violation) fun _ => fails_connect

theorem fails_mergeOutput (k : NetId) (output : Ident × NetId) :
    Fails Failure.OfEdit (mergeOutput id k output) := by
  refine Fails.bind fails_net fun n => Fails.bind (.forM (fails_moveSink k) n.sinks) fun _ => ?_
  refine Fails.bind (fails_disconnect Failure.ofEdit_violation) fun _ => ?_
  exact Fails.bind (fails_removeNet Failure.ofEdit_violation) fun _ => .pure _

theorem fails_mergeTieCell (merged : Nat) (id : CellId) :
    Fails Failure.OfEdit (mergeTieCell options merged id) := by
  refine Fails.bind fails_cell fun c => ?_
  cases options.tieValue c.cellType with
  | none => exact .pure _
  | some v =>
    refine Fails.bind (.modifyGet _) fun k => ?_
    refine Fails.bind (.forM (fails_mergeOutput k) c.outputs) fun _ => ?_
    exact Fails.bind (.modifyGet _) fun _ => .pure _

theorem fails_foldInput (port : Ident) : Fails Failure.OfEdit (foldInput options id port) := by
  have hmissing : ∀ cell param, Failure.OfEdit (.rejected (.missingParameter cell param)) :=
    fun _ _ => ⟨nofun, nofun⟩
  refine Fails.bind .get fun nl => ?_
  cases (nl.netOf id port).bind nl.constValue with
  | none => exact .pure _
  | some v =>
    refine Fails.bind fails_cell fun c => ?_
    cases options.lutShapes.find? c.cellType with
    | none => exact Fails.bind (.resolve _) fun _ => .throw (hmissing _ _)
    | some shape =>
      dsimp only
      cases shape.inputs.idxOf? port with
      | none => exact .pure _
      | some position =>
        refine Fails.bind (.resolve _) fun name => ?_
        cases c.params.find? shape.param with
        | none => exact .throw (hmissing _ _)
        | some before =>
          refine Fails.bind (fails_lookup (looksUp_bitMask _)) fun rows => ?_
          cases before.toBits? rows with
          | none => exact .throw (hmissing _ _)
          | some table =>
            refine Fails.bind (fails_lookup (looksUp_bitMask _)) fun mask => ?_
            refine Fails.bind (fails_lookup (looksUp_foldTable table mask _)) fun folded => ?_
            refine Fails.bind (fails_lookup (looksUp_tableParam before folded)) fun param => ?_
            refine Fails.bind (fails_updateCell _) fun _ => ?_
            exact Fails.bind (fails_disconnect Failure.ofEdit_violation) fun _ => .pure _

theorem fails_foldCell (folded : Nat) (id : CellId) :
    Fails Failure.OfEdit (foldCell options folded id) := by
  have hinputs : Fails Failure.OfEdit (foldInputs options id) :=
    Fails.bind fails_cell fun c => Fails.bind .get fun nl =>
      .foldlM (fun _ port => Fails.bind (fails_foldInput port) fun _ => .pure _) _ 0
  refine Fails.bind fails_cell fun c => Fails.bind .get fun nl => ?_
  split
  · exact Fails.bind hinputs fun _ => .pure _
  · exact .pure _

theorem fails_pruneOutput (output : Ident × NetId) :
    Fails Failure.OfEdit (pruneOutput id output) := by
  refine Fails.bind (fails_disconnect Failure.ofEdit_violation) fun _ => ?_
  refine Fails.bind fails_net fun n => ?_
  split
  · exact Fails.bind (fails_removeNet Failure.ofEdit_violation) fun _ => .pure _
  · exact .pure _

theorem fails_pruneCell (pruned : Nat) (id : CellId) :
    Fails Failure.OfEdit (pruneCell options pruned id) := by
  refine Fails.bind fails_cell fun c => Fails.bind .get fun nl => ?_
  split
  · exact .pure _
  · refine Fails.bind (.filterM (fun output => ?_) c.outputs) fun dead => ?_
    · exact Fails.bind fails_net fun _ => .pure _
    refine Fails.bind (.forM fails_pruneOutput dead) fun _ => Fails.bind fails_cell fun c' => ?_
    dsimp only
    split
    · exact Fails.bind (.modifyGet _) fun _ => .pure _
    · exact .pure _

/-- A round does not run out of rounds. -/
theorem fails_round : Packing.Fails (round options) := by
  have hmerge : Fails Failure.OfEdit (mergeConstantDrivers options) :=
    Fails.bind .get fun nl => .foldlM fails_mergeTieCell nl.cellIds 0
  have hfold : Fails Failure.OfEdit (foldAll options) :=
    Fails.bind .get fun nl => .foldlM fails_foldCell nl.cellIds 0
  have hprune : Fails Failure.OfEdit (pruneDeadOutputs options) :=
    Fails.bind .get fun nl => .foldlM fails_pruneCell nl.cellIds 0
  refine FailsOnly.bind (Packing.fails_edit hmerge) fun merged => ?_
  have hrest : Packing.Fails (do
      let foldedInputs ← foldAll options
      let prunedPorts ← pruneDeadOutputs options
      let removedCells ← Edit.flush
      return (⟨merged, foldedInputs, prunedPorts, removedCells⟩ : Report) : Packing Report) := by
    refine FailsOnly.bind (Packing.fails_edit hfold) fun folded => ?_
    refine FailsOnly.bind (Packing.fails_edit hprune) fun pruned => ?_
    refine FailsOnly.bind (Packing.fails_edit (fails_flush Failure.ofEdit_violation))
      fun removed => ?_
    exact .pure _
  dsimp only
  split
  · exact FailsOnly.bind (Packing.fails_emit _) fun _ => hrest
  · exact hrest

end Normalize

end FpgaPacking
