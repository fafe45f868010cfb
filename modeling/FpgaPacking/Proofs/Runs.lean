import FpgaPacking.Session
import Mathlib.Data.List.Forall2

/-!
# Runs of edits and packing steps

An edit and a packing step are functions from a state to a result that carries
the state in which the run ended, be it regular or by a failure.  Two kinds of
reasoning about runs are set up here.

`Invariant I x` says that `x` leads from every state satisfying `I` to a state
satisfying `I`, also when it fails.  It is closed under the ways in which steps
are put together, so that for a composed step only the elementary ones need a
proof of their own.

The lemmas named `…_ok` take a regular run apart into the runs of its parts.
-/

namespace FpgaPacking

variable {ε σ α β : Type}

/-! ## Checks and lookups -/

theorem except_bind_ok {ε α β : Type} {x : Except ε α} {g : α → Except ε β} {b : β} :
    (x >>= g) = .ok b ↔ ∃ a, x = .ok a ∧ g a = .ok b := by
  cases x with
  | ok a =>
    constructor
    · exact fun h => ⟨a, rfl, h⟩
    · rintro ⟨_, ⟨⟩, h⟩
      exact h
  | error e =>
    constructor
    · intro h
      cases h
    · rintro ⟨_, ⟨⟩, _⟩

theorem except_mapM_ok {f : α → Except ε β} {l : List α} {l' : List β} :
    l.mapM f = .ok l' ↔ List.Forall₂ (fun a b => f a = .ok b) l l' := by
  induction l generalizing l' with
  | nil =>
    rw [List.mapM_nil, List.forall₂_nil_left_iff]
    exact ⟨fun h => (Except.ok.inj h).symm, fun h => h ▸ rfl⟩
  | cons a l ih =>
    rw [List.mapM_cons, except_bind_ok, List.forall₂_cons_left_iff]
    constructor
    · rintro ⟨b, hb, h⟩
      obtain ⟨bs, hbs, h⟩ := except_bind_ok.mp h
      exact ⟨b, bs, hb, ih.mp hbs, (Except.ok.inj h).symm⟩
    · rintro ⟨b, bs, hb, hbs, rfl⟩
      exact ⟨b, hb, except_bind_ok.mpr ⟨bs, ih.mpr hbs, rfl⟩⟩

theorem eq_ok_of_toOption {x : Except ε α} {a : α} (h : x.toOption = some a) : x = .ok a := by
  cases x with
  | ok b => exact congrArg Except.ok (Option.some.inj h)
  | error e => cases h

/-! ## Runs -/

/-- The state in which a run ends, be it regular or by a failure. -/
def finalState : EStateM.Result ε σ α → σ
  | .ok _ s => s
  | .error _ s => s

/-- What a run returns, unless it fails. -/
def returned? : EStateM.Result ε σ α → Option α
  | .ok a _ => some a
  | .error _ _ => none

theorem exists_ok_of_returned {x : EStateM.Result ε σ α} {a : α} (h : returned? x = some a) :
    ∃ s, x = .ok a s := by
  cases x with
  | ok b s =>
    obtain rfl := Option.some.inj h
    exact ⟨s, rfl⟩
  | error e s => cases h

/-- Every run from a state that satisfies `I` ends in such a state, whether or
not it fails. -/
def Invariant (I : σ → Prop) (x : EStateM ε σ α) : Prop := ∀ s, I s → I (finalState (x s))

theorem bind_ok {x : EStateM ε σ α} {f : α → EStateM ε σ β} {s s'' : σ} {b : β} :
    (x >>= f) s = .ok b s'' ↔ ∃ a s', x s = .ok a s' ∧ f a s' = .ok b s'' := by
  show EStateM.bind x f s = _ ↔ _
  unfold EStateM.bind
  cases x s with
  | ok a s' =>
    constructor
    · exact fun h => ⟨a, s', rfl, h⟩
    · rintro ⟨_, _, ⟨⟩, h⟩
      exact h
  | error e s' =>
    constructor
    · intro h
      cases h
    · rintro ⟨_, _, ⟨⟩, _⟩

theorem bind_of_ok {x : EStateM ε σ α} {f : α → EStateM ε σ β} {s s' : σ} {a : α}
    (h : x s = .ok a s') : (x >>= f) s = f a s' := by
  show EStateM.bind x f s = _
  unfold EStateM.bind
  rw [h]

theorem bind_of_error {x : EStateM ε σ α} {f : α → EStateM ε σ β} {s s' : σ} {e : ε}
    (h : x s = .error e s') : (x >>= f) s = .error e s' := by
  show EStateM.bind x f s = _
  unfold EStateM.bind
  rw [h]

theorem finalState_bind_of_ok {x : EStateM ε σ α} {f : α → EStateM ε σ β} {s s' : σ} {a : α}
    (h : x s = .ok a s') : finalState ((x >>= f) s) = finalState (f a s') := by
  rw [bind_of_ok h]

theorem pure_ok {a b : α} {s s' : σ} :
    (pure a : EStateM ε σ α) s = .ok b s' ↔ a = b ∧ s = s' := by
  show EStateM.Result.ok a s = _ ↔ _
  simp

/-- What holds of the start of a loop and is handed on by each of its rounds
holds of the end.  The list in `P` is what is left to be gone through. -/
theorem foldlM_ok (P : List α → β → σ → Prop) {f : β → α → EStateM ε σ β}
    (step : ∀ a l b s b' s', P (a :: l) b s → f b a s = .ok b' s' → P l b' s') :
    ∀ {l : List α} {b : β} {s : σ} {b' : β} {s' : σ}, P l b s → l.foldlM f b s = .ok b' s' →
      P [] b' s'
  | [], b, s, b', s', hP, h => by
    obtain ⟨rfl, rfl⟩ := pure_ok.mp h
    exact hP
  | a :: l, b, s, b', s', hP, h => by
    rw [List.foldlM_cons, bind_ok] at h
    obtain ⟨b₁, s₁, hhead, hrest⟩ := h
    exact foldlM_ok P step (step a l b s b₁ s₁ hP hhead) hrest

/-- As `foldlM_ok`, but the list in `P` is what has been gone through. -/
theorem foldlM_ok_of_done (P : List α → β → σ → Prop) {f : β → α → EStateM ε σ β} {l : List α}
    (step : ∀ done a rest b s b' s', l = done ++ a :: rest → P done b s → f b a s = .ok b' s' →
      P (done ++ [a]) b' s')
    {b b' : β} {s s' : σ} (hP : P [] b s) (h : l.foldlM f b s = .ok b' s') : P l b' s' := by
  obtain ⟨done, hsplit, hdone⟩ := foldlM_ok (fun rest b s => ∃ done, l = done ++ rest ∧ P done b s)
    (fun a rest b s b' s' ⟨done, hsplit, hdone⟩ hround => ⟨done ++ [a],
      by rw [hsplit, List.append_assoc, List.singleton_append],
      step done a rest b s b' s' hsplit hdone hround⟩)
    ⟨[], rfl, hP⟩ h
  rw [hsplit, List.append_nil]
  exact hdone

theorem forM_ok (P : List α → σ → Prop) {f : α → EStateM ε σ PUnit}
    (step : ∀ a l s u s', P (a :: l) s → f a s = .ok u s' → P l s') :
    ∀ {l : List α} {s : σ} {u : PUnit} {s' : σ}, P l s → l.forM f s = .ok u s' → P [] s'
  | [], s, u, s', hP, h => by
    obtain ⟨-, rfl⟩ := pure_ok.mp h
    exact hP
  | a :: l, s, u, s', hP, h => by
    obtain ⟨u₁, s₁, hhead, hrest⟩ := bind_ok.mp h
    exact forM_ok P step (step a l s u₁ s₁ hP hhead) hrest

/-! ## What steps keep -/

namespace Invariant

variable {I : σ → Prop}

theorem pure (a : α) : Invariant I (Pure.pure a : EStateM ε σ α) := fun _ h => h

theorem throw (e : ε) : Invariant I (MonadExcept.throw e : EStateM ε σ α) := fun _ h => h

theorem get : Invariant I (MonadState.get : EStateM ε σ σ) := fun _ h => h

/-- What holds where the first part of a run ends holds where the whole run ends. -/
theorem finalState_bind {x : EStateM ε σ α} {f : α → EStateM ε σ β} (hf : ∀ a, Invariant I (f a))
    {s : σ} (h : I (finalState (x s))) : I (finalState ((x >>= f) s)) := by
  cases hx : x s with
  | ok a s' =>
    rw [hx] at h
    rw [bind_of_ok hx]
    exact hf a s' h
  | error e s' =>
    rw [hx] at h
    rw [bind_of_error hx]
    exact h

theorem bind {x : EStateM ε σ α} {f : α → EStateM ε σ β} (hx : Invariant I x)
    (hf : ∀ a, Invariant I (f a)) : Invariant I (x >>= f) :=
  fun s hs => finalState_bind hf (hx s hs)

/-- What is kept holds where a regular run ends in particular. -/
theorem of_ok {x : EStateM ε σ α} {a : α} {s s' : σ} (hx : Invariant I x) (h : x s = .ok a s')
    (hs : I s) : I s' := by
  have hend := hx s hs
  rw [h] at hend
  exact hend

theorem forM {f : α → EStateM ε σ PUnit} (hf : ∀ a, Invariant I (f a)) :
    ∀ l : List α, Invariant I (l.forM f)
  | [] => Invariant.pure PUnit.unit
  | a :: l => Invariant.bind (hf a) fun _ => forM hf l

theorem foldlM {f : β → α → EStateM ε σ β} (hf : ∀ b a, Invariant I (f b a)) :
    ∀ (l : List α) (b : β), Invariant I (l.foldlM f b)
  | [], b => Invariant.pure b
  | a :: l, b => Invariant.bind (hf b a) fun b' => foldlM hf l b'

theorem mapM {f : α → EStateM ε σ β} (hf : ∀ a, Invariant I (f a)) (l : List α) :
    Invariant I (l.mapM f) := by
  induction l with
  | nil => exact Invariant.pure []
  | cons a l ih =>
    rw [List.mapM_cons]
    exact Invariant.bind (hf a) fun b => Invariant.bind ih fun bs => Invariant.pure (b :: bs)

end Invariant

/-! ## Edits -/

namespace Edit

variable {I : Netlist → Prop} {names : Names} {nl nl' nl'' : Netlist}

theorem bind_ok {x : Edit α} {f : α → Edit β} {b : β} :
    (x >>= f) names nl = .ok b nl'' ↔
      ∃ a nl', x names nl = .ok a nl' ∧ f a names nl' = .ok b nl'' :=
  FpgaPacking.bind_ok (x := x names) (f := fun a => f a names)

theorem pure_ok {a b : α} :
    (pure a : Edit α) names nl = .ok b nl' ↔ a = b ∧ nl = nl' :=
  FpgaPacking.pure_ok

theorem get_ok {a : Netlist} :
    (MonadState.get : Edit Netlist) names nl = .ok a nl' ↔ nl = a ∧ nl = nl' := by
  show EStateM.Result.ok nl nl = _ ↔ _
  simp

theorem modifyGet_ok {g : Netlist → α × Netlist} {a : α} :
    (modifyGet g : Edit α) names nl = .ok a nl' ↔ g nl = (a, nl') := by
  show EStateM.Result.ok (g nl).1 (g nl).2 = _ ↔ _
  simp [Prod.ext_iff]

theorem lookup_ok {x : Except Fault α} {a : α} :
    (liftM x : Edit α) names nl = .ok a nl' ↔ x = .ok a ∧ nl = nl' := by
  cases x with
  | ok b => exact pure_ok.trans (by simp)
  | error e =>
    constructor
    · intro h
      cases h
    · rintro ⟨⟨⟩, _⟩

theorem throw_ok {e : Failure} {a : α} :
    (throw e : Edit α) names nl = .ok a nl' ↔ False := by
  show EStateM.Result.error e nl = _ ↔ _
  simp

/-- Every run of the edit from a netlist that satisfies `I` ends in such a
netlist, whether or not it fails. -/
def Keeps (I : Netlist → Prop) (x : Edit α) : Prop := ∀ names, FpgaPacking.Invariant I (x names)

theorem foldlM_run (f : β → α → Edit β) (l : List α) (b : β) :
    (l.foldlM f b) names = l.foldlM (fun b a => f b a names) b := by
  induction l generalizing b with
  | nil => rfl
  | cons a l ih =>
    rw [List.foldlM_cons, List.foldlM_cons, ← funext fun b' => ih b']
    rfl

theorem forM_run (f : α → Edit PUnit) (l : List α) :
    (l.forM f) names = l.forM (fun a => f a names) := by
  induction l with
  | nil => rfl
  | cons a l ih =>
    show (f a names >>= fun _ => l.forM f names) = (f a names >>= fun _ => l.forM fun a => f a names)
    rw [ih]

namespace Keeps

theorem pure (a : α) : Keeps I (Pure.pure a : Edit α) := fun _ => FpgaPacking.Invariant.pure a

theorem throw (e : Failure) : Keeps I (MonadExcept.throw e : Edit α) :=
  fun _ => FpgaPacking.Invariant.throw e

theorem get : Keeps I (MonadState.get : Edit Netlist) := fun _ => FpgaPacking.Invariant.get

theorem violate (v : Violation) : Keeps I (Edit.violate v : Edit α) := Keeps.throw _

theorem resolve (ident : Ident) : Keeps I (Edit.resolve ident) := fun _ _ h => h

theorem bind {x : Edit α} {f : α → Edit β} (hx : Keeps I x) (hf : ∀ a, Keeps I (f a)) :
    Keeps I (x >>= f) :=
  fun names => FpgaPacking.Invariant.bind (hx names) fun a => hf a names

theorem lookup (x : Except Fault α) : Keeps I (liftM x : Edit α) := by
  cases x with
  | ok a => exact Keeps.pure a
  | error e => exact Keeps.throw _

/-- What follows a lookup has to keep the property for what is found only. -/
theorem bind_lookup {x : Except Fault α} {f : α → Edit β} (hf : ∀ a, x = .ok a → Keeps I (f a)) :
    Keeps I (liftM x >>= f) := by
  cases x with
  | ok a => exact hf a rfl
  | error e => exact fun _ _ h => h

theorem cell (id : CellId) : Keeps I (Edit.cell id) := Keeps.bind Keeps.get fun _ => Keeps.lookup _

theorem net (id : NetId) : Keeps I (Edit.net id) := Keeps.bind Keeps.get fun _ => Keeps.lookup _

theorem forM {f : α → Edit PUnit} (hf : ∀ a, Keeps I (f a)) (l : List α) :
    Keeps I (l.forM f) := by
  intro names
  rw [forM_run]
  exact FpgaPacking.Invariant.forM (fun a => hf a names) l

theorem foldlM {f : β → α → Edit β} (hf : ∀ b a, Keeps I (f b a)) (l : List α) (b : β) :
    Keeps I (l.foldlM f b) := by
  intro names
  rw [foldlM_run]
  exact FpgaPacking.Invariant.foldlM (fun b a => hf b a names) l b

theorem filterM {f : α → Edit Bool} (hf : ∀ a, Keeps I (f a)) (l : List α) :
    Keeps I (l.filterM f) := by
  have haux : ∀ (l acc : List α), Keeps I (l.filterAuxM f acc) := by
    intro l
    induction l with
    | nil => exact fun acc => Keeps.pure acc
    | cons a l ih => exact fun acc => Keeps.bind (hf a) fun b => ih (cond b (a :: acc) acc)
  exact Keeps.bind (haux l []) fun acc => Keeps.pure acc.reverse

end Keeps

theorem foldlM_ok (P : List α → β → Netlist → Prop) {f : β → α → Edit β}
    (step : ∀ a l b nl b' nl', P (a :: l) b nl → f b a names nl = .ok b' nl' → P l b' nl')
    {l : List α} {b b' : β} (hP : P l b nl) (h : l.foldlM f b names nl = .ok b' nl') :
    P [] b' nl' := by
  rw [foldlM_run] at h
  exact FpgaPacking.foldlM_ok P step hP h

theorem forM_ok (P : List α → Netlist → Prop) {f : α → Edit PUnit}
    (step : ∀ a l nl u nl', P (a :: l) nl → f a names nl = .ok u nl' → P l nl')
    {l : List α} {u : PUnit} (hP : P l nl) (h : l.forM f names nl = .ok u nl') : P [] nl' := by
  rw [forM_run] at h
  exact FpgaPacking.forM_ok P step hP h

/-- A test that changes nothing selects from a list what passes it, and it fails for nothing in it. -/
theorem filterM_ok {f : α → Edit Bool}
    (hf : ∀ a b nl nl', f a names nl = .ok b nl' → nl' = nl) {l kept : List α}
    (h : l.filterM f names nl = .ok kept nl') :
    nl' = nl ∧ kept = l.filter (fun a => returned? (f a names nl) = some true) ∧
      ∀ a ∈ l, ∃ b, f a names nl = .ok b nl := by
  have haux : ∀ (l acc kept : List α), l.filterAuxM f acc names nl = .ok kept nl' →
      nl' = nl ∧
        kept = (l.filter fun a => returned? (f a names nl) = some true).reverse ++ acc ∧
        ∀ a ∈ l, ∃ b, f a names nl = .ok b nl := by
    intro l
    induction l with
    | nil =>
      intro acc kept hrun
      obtain ⟨rfl, rfl⟩ := pure_ok.mp hrun
      exact ⟨rfl, rfl, nofun⟩
    | cons a l ih =>
      intro acc kept hrun
      obtain ⟨b, nl₁, ha, hrest⟩ := bind_ok.mp hrun
      obtain rfl := hf a b nl nl₁ ha
      obtain ⟨hsame, hkept, htested⟩ := ih _ kept hrest
      have hpass : returned? (f a names nl₁) = some b := by rw [ha]; rfl
      refine ⟨hsame, ?_, fun x hx => ?_⟩
      · cases b with
        | false => simpa [List.filter_cons, hpass] using hkept
        | true => simpa [List.filter_cons, hpass] using hkept
      · rcases List.mem_cons.mp hx with rfl | hx
        · exact ⟨b, ha⟩
        · exact htested x hx
  obtain ⟨reversed, nl₁, hrun, hend⟩ := bind_ok.mp h
  obtain ⟨rfl, rfl⟩ := pure_ok.mp hend
  obtain ⟨hsame, hkept, htested⟩ := haux l [] reversed hrun
  refine ⟨hsame, ?_, htested⟩
  rw [hkept, List.append_nil, List.reverse_reverse]

end Edit

/-! ## Packing steps -/

namespace Packing

variable {I : Netlist → Prop} {s s' : Session}

theorem edit_ok {x : Edit α} {a : α} :
    (liftM x : Packing α) s = .ok a s' ↔
      ∃ nl, x s.names s.netlist = .ok a nl ∧ s' = { s with netlist := nl } := by
  obtain ⟨names, netlist, log⟩ := s
  show edit x ⟨names, netlist, log⟩ = _ ↔ _
  unfold edit
  dsimp only
  cases x names netlist with
  | ok b nl =>
    constructor
    · rintro ⟨⟩
      exact ⟨nl, rfl, rfl⟩
    · rintro ⟨_, ⟨⟩, rfl⟩
      rfl
  | error e nl =>
    constructor
    · intro h
      cases h
    · rintro ⟨_, ⟨⟩, _⟩

theorem name_ok {x : Naming α} {a : α} :
    (liftM x : Packing α) s = .ok a s' ↔
      x s.names = (a, s'.names) ∧ s'.netlist = s.netlist ∧ s'.log = s.log := by
  obtain ⟨names', nl', log'⟩ := s'
  show EStateM.Result.ok (x s.names).1 (⟨(x s.names).2, s.netlist, s.log⟩ : Session) = _ ↔ _
  generalize x s.names = named
  constructor
  · rintro ⟨⟩
    exact ⟨rfl, rfl, rfl⟩
  · rintro ⟨rfl, rfl, rfl⟩
    rfl

theorem lookup_ok {x : Except Fault α} {a : α} :
    (liftM x : Packing α) s = .ok a s' ↔ x = .ok a ∧ s' = s := by
  cases x with
  | ok b => exact pure_ok.trans (by simp [eq_comm])
  | error e =>
    constructor
    · intro h
      cases h
    · rintro ⟨⟨⟩, _⟩

theorem check_ok {x : Except Failure α} {a : α} :
    (liftM x : Packing α) s = .ok a s' ↔ x = .ok a ∧ s' = s := by
  cases x with
  | ok b => exact pure_ok.trans (by simp [eq_comm])
  | error e =>
    constructor
    · intro h
      cases h
    · rintro ⟨⟨⟩, _⟩

theorem emit_ok {d : Diagnostic} {u : PUnit} :
    emit d s = .ok u s' ↔ s' = { s with log := s.log.emit d } := by
  show EStateM.Result.ok _ _ = _ ↔ _
  simp [eq_comm]

theorem netlist_ok {nl : Netlist} : netlist s = .ok nl s' ↔ s.netlist = nl ∧ s' = s := by
  show EStateM.Result.ok s.netlist s = _ ↔ _
  simp [eq_comm]

/-- The netlist where an edit ends, whether or not it fails. -/
theorem netlist_edit (x : Edit α) (s : Session) :
    (finalState ((liftM x : Packing α) s)).netlist = finalState (x s.names s.netlist) := by
  obtain ⟨names, netlist, log⟩ := s
  show (finalState (edit x ⟨names, netlist, log⟩)).netlist = _
  unfold edit
  dsimp only
  cases x names netlist <;> rfl

/-- Every run of the step from a session whose netlist satisfies `I` ends in
such a session, whether or not it fails. -/
def Keeps (I : Netlist → Prop) (x : Packing α) : Prop :=
  FpgaPacking.Invariant (fun s : Session => I s.netlist) x

namespace Keeps

theorem pure (a : α) : Keeps I (Pure.pure a : Packing α) := FpgaPacking.Invariant.pure a

theorem throw (e : Failure) : Keeps I (MonadExcept.throw e : Packing α) :=
  FpgaPacking.Invariant.throw e

theorem netlist : Keeps I Packing.netlist := fun _ h => h

theorem resolve (ident : Ident) : Keeps I (Packing.resolve ident) := fun _ h => h

theorem emit (d : Diagnostic) : Keeps I (Packing.emit d) := fun _ h => h

theorem bind {x : Packing α} {f : α → Packing β} (hx : Keeps I x) (hf : ∀ a, Keeps I (f a)) :
    Keeps I (x >>= f) :=
  FpgaPacking.Invariant.bind hx hf

theorem edit {x : Edit α} (hx : Edit.Keeps I x) : Keeps I (liftM x : Packing α) := by
  intro s hs
  rw [netlist_edit]
  exact hx s.names s.netlist hs

theorem name (x : Naming α) : Keeps I (liftM x : Packing α) := fun _ h => h

theorem lookup (x : Except Fault α) : Keeps I (liftM x : Packing α) := by
  cases x with
  | ok a => exact Keeps.pure a
  | error e => exact Keeps.throw _

theorem check (x : Except Failure α) : Keeps I (liftM x : Packing α) := by
  cases x with
  | ok a => exact Keeps.pure a
  | error e => exact Keeps.throw e

/-- What follows a check has to keep the property for what is found only. -/
theorem bind_check {x : Except Failure α} {f : α → Packing β}
    (hf : ∀ a, x = .ok a → Keeps I (f a)) : Keeps I (liftM x >>= f) := by
  cases x with
  | ok a => exact hf a rfl
  | error e => exact fun _ h => h

theorem forM {f : α → Packing PUnit} (hf : ∀ a, Keeps I (f a)) (l : List α) :
    Keeps I (l.forM f) :=
  FpgaPacking.Invariant.forM hf l

theorem foldlM {f : β → α → Packing β} (hf : ∀ b a, Keeps I (f b a)) (l : List α) (b : β) :
    Keeps I (l.foldlM f b) :=
  FpgaPacking.Invariant.foldlM hf l b

theorem mapM {f : α → Packing β} (hf : ∀ a, Keeps I (f a)) (l : List α) : Keeps I (l.mapM f) :=
  FpgaPacking.Invariant.mapM hf l

end Keeps
end Packing

end FpgaPacking
