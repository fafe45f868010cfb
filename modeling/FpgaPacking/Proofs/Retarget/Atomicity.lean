import FpgaPacking.Proofs.Failures
import FpgaPacking.Proofs.Reachable
import FpgaPacking.Proofs.Retarget.Ports

/-!
# Retargeting a cell or leaving it alone

Whether new names collide is found out before the first edit, so retargeting that
fails for this reason has changed nothing.  After that only one thing can go wrong:
an output cannot become several outputs on the net that it drives, because a net
has one driver.  If no rule asks for that, a cell is retargeted or left alone.  If
one does, retargeting fails halfway, with the old ports gone.
-/

namespace FpgaPacking
namespace Retarget

open Netlist

variable {nl : Netlist} {s s' : Session} {rule : RetargetRule} {id : CellId} {c : Cell}
  {named : List (Port × List Ident)}

/-! ## New names -/

/-- No new name is taken if there is no collision. -/
theorem nodup_of_collision? {taken pairs : List (Ident × Ident)} (h : collision? taken pairs = none) :
    (pairs.map (·.1)).Nodup ∧ ∀ pair ∈ pairs, taken.lookup pair.1 = none := by
  induction pairs generalizing taken with
  | nil => exact ⟨List.nodup_nil, nofun⟩
  | cons pair rest ih =>
    obtain ⟨new, old⟩ := pair
    unfold collision? at h
    cases hfirst : taken.lookup new with
    | some first => simp [hfirst] at h
    | none =>
      simp only [hfirst] at h
      obtain ⟨hnodup, hfree⟩ := ih h
      have hother : ∀ pair ∈ rest, pair.1 ≠ new ∧ taken.lookup pair.1 = none := by
        intro pair hpair
        have hlookup := hfree pair hpair
        rw [List.lookup_cons] at hlookup
        split at hlookup
        · cases hlookup
        · next hne => exact ⟨fun heq => by simp [heq] at hne, hlookup⟩
      refine ⟨List.nodup_cons.mpr ⟨fun hmem => ?_, hnodup⟩, List.forall_mem_cons.mpr ⟨hfirst,
        fun pair hpair => (hother pair hpair).2⟩⟩
      obtain ⟨pair, hpair, heq⟩ := List.mem_map.mp hmem
      exact (hother pair hpair).1 heq

/-- The new names of a port are those of its fan-out if it has one, and otherwise a single one. -/
def Renames (rule : RetargetRule) (old : Ident) (new : List Ident) : Prop :=
  rule.portFanoutRename.find? old = some new ∨
    rule.portFanoutRename.find? old = none ∧ new.length = 1

theorem renames_newPortNames (rule : RetargetRule) (old : Ident) (names : Names) :
    Renames rule old ((newPortNames rule old).run names).1 := by
  unfold Renames newPortNames
  cases rule.portFanoutRename.find? old with
  | some l => exact Or.inl rfl
  | none =>
    refine Or.inr ⟨rfl, ?_⟩
    cases rule.portRename.find? old <;> rfl

/-- Finding the new names enters names and cannot fail. -/
theorem exists_named (rule : RetargetRule) (ports : List Port) (s : Session) :
    ∃ named t, (ports.mapM fun p => return (p, ← newPortNames rule p.name) :
        Packing (List (Port × List Ident))) s = .ok named t ∧
      t.netlist = s.netlist ∧ named.map (·.1) = ports ∧
        ∀ entry ∈ named, Renames rule entry.1.name entry.2 := by
  induction ports generalizing s with
  | nil => exact ⟨[], s, rfl, rfl, rfl, nofun⟩
  | cons p ports ih =>
    obtain ⟨new, s₁, hfirst, hsame, hnew⟩ : ∃ new s₁,
        ((return (p, ← newPortNames rule p.name)) : Packing (Port × List Ident)) s =
          .ok (p, new) s₁ ∧ s₁.netlist = s.netlist ∧ Renames rule p.name new :=
      ⟨_, _, bind_ok.mpr ⟨_, _, rfl, rfl⟩, rfl, renames_newPortNames rule p.name s.names⟩
    obtain ⟨named, t, hrest, hkept, hports, hnamed⟩ := ih s₁
    refine ⟨(p, new) :: named, t, ?_, hkept.trans hsame, congrArg (p :: ·) hports,
      List.forall_mem_cons.mpr ⟨hnew, hnamed⟩⟩
    rw [List.mapM_cons]
    exact bind_ok.mpr ⟨(p, new), s₁, hfirst, bind_ok.mpr ⟨named, t, hrest, rfl⟩⟩

/-! ## New ports -/

/-- The new ports by their names, each with the old port that it takes the place of. -/
def gives (named : List (Port × List Ident)) : List (Port × Ident) :=
  named.flatMap fun entry => entry.2.map fun new => (entry.1, new)

theorem forM_gives (named : List (Port × List Ident)) :
    (named.forM fun (p, new) => new.forM (givePort id p) : Packing PUnit) =
      (gives named).forM fun give => givePort id give.1 give.2 := by
  induction named with
  | nil => rfl
  | cons entry named ih =>
    simp only [List.forM_eq_forM, gives] at ih ⊢
    rw [List.forM_cons, ih, List.flatMap_cons, List.forM_append, List.forM_map]

/-- An output that drives a net gets one name at most. -/
def OneDriver (rule : RetargetRule) (c : Cell) : Prop :=
  ∀ p ∈ c.ports, p.direction = .output → p.net.isSome →
    ∀ names, rule.portFanoutRename.find? p.name = some names → names.length ≤ 1

/-- Two ports of a cell do not both drive one net. -/
theorem pairwise_apart (hw : nl.WellFormed) (hc : nl.cell? id = some c) :
    c.ports.Pairwise Port.Apart := by
  have hnames : c.ports.Pairwise fun p q => p.name ≠ q.name :=
    List.pairwise_map.mp (hw.port_names id c hc)
  refine hnames.imp_of_mem fun {p q} hp hq hne k hpk hqk hpout hqout => ?_
  obtain ⟨hpwire, hpdir⟩ := hw.port_of_mem hc hp
  obtain ⟨hqwire, hqdir⟩ := hw.port_of_mem hc hq
  rw [hpk] at hpwire
  rw [hqk] at hqwire
  rw [hpout] at hpdir
  rw [hqout] at hqdir
  obtain ⟨n, hn⟩ := Option.isSome_iff_exists.mp (hw.wired.wire_live _ k hpwire)
  have hpdriver := (hw.wired.driver_iff k n _ hn).mpr ⟨hpwire, hpdir⟩
  have hqdriver := (hw.wired.driver_iff k n _ hn).mpr ⟨hqwire, hqdir⟩
  exact hne (congrArg PortRef.port (Option.some.inj (hpdriver.symm.trans hqdriver)))

theorem pairwise_gives (hw : nl.WellFormed) (hc : nl.cell? id = some c) (hone : OneDriver rule c)
    (hports : named.map (·.1) = c.ports) (hnamed : ∀ entry ∈ named, Renames rule entry.1.name entry.2) :
    ((gives named).map (·.1)).Pairwise Port.Apart := by
  have hapart := pairwise_apart hw hc
  rw [← hports, List.pairwise_map] at hapart
  rw [List.pairwise_map]
  refine List.pairwise_flatMap.mpr ⟨fun entry hentry => ?_, hapart.imp fun {a b} hab x hx y hy => ?_⟩
  · -- A port does not drive a net, or it has a single name.
    rw [List.pairwise_map]
    have hp : entry.1 ∈ c.ports := hports ▸ List.mem_map_of_mem hentry
    by_cases hdrives : entry.1.direction = .output ∧ entry.1.net.isSome
    · have hlength : entry.2.length ≤ 1 := by
        rcases hnamed entry hentry with hfanout | ⟨-, hsingle⟩
        · exact hone entry.1 hp hdrives.1 hdrives.2 entry.2 hfanout
        · exact Nat.le_of_eq hsingle
      match hnew : entry.2, hlength with
      | [], _ => exact List.Pairwise.nil
      | [new], _ => exact List.pairwise_singleton _ _
    · refine List.pairwise_of_forall fun _ _ k hk _ hout => ?_
      exact absurd ⟨hout, hk ▸ rfl⟩ hdrives
  · obtain ⟨_, -, rfl⟩ := List.mem_map.mp hx
    obtain ⟨_, -, rfl⟩ := List.mem_map.mp hy
    exact hab

/-! ## The whole cell -/

/-- A collision is found before the first edit. -/
theorem retargetCell_of_collision {s₁ : Session} {found : Ident × Ident × Ident}
    (hc : s.netlist.cell? id = some c)
    (hnaming : (c.ports.mapM fun p => return (p, ← newPortNames rule p.name) :
      Packing (List (Port × List Ident))) s = .ok named s₁)
    (h : collision? [] (named.flatMap fun (p, new) => new.map fun name => (name, p.name)) = some found) :
    ∃ cell first second new, retargetCell rule id s =
      .error (.violation (.joinsPorts cell first second new)) s₁ := by
  unfold retargetCell
  rw [bind_of_ok (Packing.edit_ok.mpr ⟨_, Edit.cell_of_some s.names hc, rfl⟩), bind_of_ok hnaming]
  simp only [h]
  exact ⟨_, _, _, _, rfl⟩

/-- Without a collision retargeting fails because an output would be the second driver of a net, or
not at all. -/
theorem retargetCell_of_apart {s₁ : Session} (hw : s.netlist.WellFormed)
    (hc : s.netlist.cell? id = some c)
    (hnaming : (c.ports.mapM fun p => return (p, ← newPortNames rule p.name) :
      Packing (List (Port × List Ident))) s = .ok named s₁)
    (hsame : s₁.netlist = s.netlist) (hports : named.map (·.1) = c.ports)
    (h : collision? [] (named.flatMap fun (p, new) => new.map fun name => (name, p.name)) = none) :
    (¬((gives named).map (·.1)).Pairwise Port.Apart ∧ ∃ cell port net t,
      retargetCell rule id s = .error (.violation (.secondDriver cell port net)) t) ∨
      ∃ t, retargetCell rule id s = .ok () t := by
  unfold retargetCell
  rw [bind_of_ok (Packing.edit_ok.mpr ⟨_, Edit.cell_of_some s.names hc, rfl⟩), bind_of_ok hnaming]
  simp only [h]
  obtain ⟨key, s₂, hkey, hs₂⟩ : ∃ key s₂, (liftM (naming formerTypeKey) : Packing Ident) s₁ =
    .ok key s₂ ∧ s₂.netlist = s₁.netlist := ⟨_, _, rfl, rfl⟩
  have hstart : Ported s.netlist id c.ports s₂.netlist := by
    rw [hs₂, hsame]
    exact .refl hw hc
  obtain ⟨m₁, hretype, hretyped⟩ := hstart.write s₂.names
    (f := fun d => { d with
      cellType := rule.newType
      attrs := d.attrs.insert key (.text (s₂.names.resolve c.cellType)) }) fun _ => rfl
  obtain ⟨s₃, htake, htaken⟩ := Ported.takePorts (s := { s₂ with netlist := m₁ }) hretyped
  have hnames : ([].map Port.name ++ (gives named).map Prod.snd).Nodup := by
    have hnodup := (nodup_of_collision? h).1
    simpa [gives, List.map_flatMap, Function.comp_def] using hnodup
  have hmem : ∀ give ∈ gives named, give.1 ∈ c.ports := by
    intro give hgive
    obtain ⟨entry, hentry, hgive⟩ := List.mem_flatMap.mp hgive
    obtain ⟨new, -, rfl⟩ := List.mem_map.mp hgive
    exact hports ▸ List.mem_map_of_mem hentry
  have hbegin := Packing.edit_ok.mpr ⟨m₁, hretype, rfl⟩
  rcases htaken.givePorts hw hc hmem hnames with ⟨s₄, hgive, hgiven⟩ | ⟨hclash, hrefused⟩
  · obtain ⟨m₅, hfinish, -⟩ := hgiven.write s₄.names
      (f := fun d => { d with
        params := newParams rule d.params
        attrs := newAttrs rule d.attrs }) fun _ => rfl
    rw [← forM_gives] at hgive
    exact Or.inr ⟨_, bind_ok.mpr ⟨key, s₂, hkey, bind_ok.mpr ⟨_, s₂, rfl, bind_ok.mpr ⟨(), _, hbegin,
      bind_ok.mpr ⟨⟨⟩, s₃, htake, bind_ok.mpr ⟨⟨⟩, s₄, hgive,
        Packing.edit_ok.mpr ⟨m₅, hfinish, rfl⟩⟩⟩⟩⟩⟩⟩
  · obtain ⟨cell, port, net, s₄, hrefused⟩ := hrefused
    rw [← forM_gives] at hrefused
    exact Or.inl ⟨hclash, cell, port, net, s₄, bind_error.mpr (Or.inr ⟨key, s₂, hkey,
      bind_error.mpr (Or.inr ⟨_, s₂, rfl, bind_error.mpr (Or.inr ⟨(), _, hbegin,
        bind_error.mpr (Or.inr ⟨⟨⟩, s₃, htake, bind_error.mpr (Or.inl hrefused)⟩)⟩)⟩)⟩)⟩

/-- Retargeting fails before the first edit, or because an output that drives a net gets several
names, or not at all. -/
theorem retargetCell_cases (hw : s.netlist.WellFormed) (hc : s.netlist.cell? id = some c) :
    (∃ cell first second new t, retargetCell rule id s =
        .error (.violation (.joinsPorts cell first second new)) t ∧ t.netlist = s.netlist) ∨
      (¬OneDriver rule c ∧ ∃ cell port net t, retargetCell rule id s =
        .error (.violation (.secondDriver cell port net)) t) ∨
      ∃ t, retargetCell rule id s = .ok () t := by
  obtain ⟨named, s₁, hnaming, hsame, hports, hnamed⟩ := exists_named rule c.ports s
  cases hcollision : collision? [] (named.flatMap fun (p, new) => new.map fun name => (name, p.name)) with
  | some found =>
    obtain ⟨cell, first, second, new, hrun⟩ := retargetCell_of_collision hc hnaming hcollision
    exact Or.inl ⟨cell, first, second, new, s₁, hrun, hsame⟩
  | none =>
    refine Or.inr ?_
    rcases retargetCell_of_apart hw hc hnaming hsame hports hcollision with ⟨hclash, hrefused⟩ | hrun
    · exact Or.inl ⟨fun hone => hclash (pairwise_gives hw hc hone hports hnamed), hrefused⟩
    · exact Or.inr hrun

/-- Retargeting that fails changes nothing in the netlist, unless the rule gives several names to an
output that drives a net and the second of them is refused as its second driver. -/
theorem retargetCell_atomic {e : Failure} (hw : s.netlist.WellFormed)
    (hc : s.netlist.cell? id = some c) (h : retargetCell rule id s = .error e s') :
    s'.netlist = s.netlist ∨
      ¬OneDriver rule c ∧ ∃ cell port net, e = .violation (.secondDriver cell port net) := by
  rcases retargetCell_cases hw hc with hjoins | ⟨hseveral, cell, port, net, t, hrun⟩ | ⟨t, hrun⟩
  · obtain ⟨cell, first, second, new, t, hrun, hsame⟩ := hjoins
    rw [hrun] at h
    cases h
    exact Or.inl hsame
  · rw [hrun] at h
    cases h
    exact Or.inr ⟨hseveral, cell, port, net, rfl⟩
  · rw [hrun] at h
    cases h

/-! ## Refusals -/

namespace Refusal

/-- A rule that gives two names to one port and a rule that gives one name to two. -/
def config : Config where
  chain := none
  boundary := ⟨none, none, none⟩
  lut := .empty
  normalize := ⟨[], [], []⟩
  rules := .ofList [
    ("FORK", ⟨"SLICE", .empty, .ofList [("Z", ["X", "Y"])], .empty, .empty, .empty, .empty⟩),
    ("JOIN", ⟨"SLICE", .ofList [("A", "X"), ("Z", "X")], .empty, .empty, .empty, .empty, .empty⟩)]

def names : Names where
  entered := #["FORK", "SLICE", "Z", "X", "Y", "JOIN", "A"]
  nodup := by decide +kernel

def fork : RetargetRule where
  newType := ⟨1⟩
  portRename := .empty
  portFanoutRename := .ofList [(⟨2⟩, [⟨3⟩, ⟨4⟩])]
  paramRename := .empty
  fixedAttrs := .empty
  fixedParams := .empty
  defaultParams := .empty

def join : RetargetRule where
  newType := ⟨1⟩
  portRename := .ofList [(⟨6⟩, ⟨3⟩), (⟨2⟩, ⟨3⟩)]
  portFanoutRename := .empty
  paramRename := .empty
  fixedAttrs := .empty
  fixedParams := .empty
  defaultParams := .empty

theorem ofConfig_config :
    RuleSet.ofConfig config .empty = (.ofList [(⟨0⟩, fork), (⟨5⟩, join)], names) :=
  Prod.ext (by decide +kernel) (by decide +kernel)

/-- The output of cell 0 drives the net that the input of cell 1 reads. -/
def session : Session := (Session.start names).after [
  .createCell ⟨0⟩ "fork", .createCell ⟨5⟩ "join", .createNet "x", .createNet "y",
  .addPort ⟨0⟩ ⟨2⟩ .output, .addPort ⟨1⟩ ⟨6⟩ .input, .addPort ⟨1⟩ ⟨2⟩ .output,
  .connect ⟨0⟩ ⟨2⟩ ⟨0⟩, .connect ⟨1⟩ ⟨6⟩ ⟨0⟩, .connect ⟨1⟩ ⟨2⟩ ⟨1⟩]

theorem wellFormed_session : session.netlist.WellFormed :=
  Session.wellFormed_after_of_wellFormed Wired.empty.wellFormed _

/-- Two ports cannot get one name, and the cell stays as it is. -/
theorem join_refused : ∃ s', retargetCell join ⟨1⟩ session =
      .error (.rejected (.invariant (.joinsPorts "join" "A" "Z" "X"))) s' ∧
    s'.netlist = session.netlist := by
  obtain ⟨s', h⟩ : ∃ s', retargetCell join ⟨1⟩ session =
      .error (.rejected (.invariant (.joinsPorts "join" "A" "Z" "X"))) s' :=
    exists_error_of_failure (by decide +kernel)
  obtain ⟨c, hc⟩ : ∃ c, session.netlist.cell? ⟨1⟩ = some c :=
    Option.isSome_iff_exists.mp (by decide +kernel)
  exact ⟨s', h, (retargetCell_atomic wellFormed_session hc h).resolve_right nofun⟩

/-- One output cannot become two on the net that it drives, which is found out when the cell has
lost its port and has its new type. -/
theorem fork_broken : config.validate = .ok () ∧
    RuleSet.ofConfig config .empty = (.ofList [(⟨0⟩, fork), (⟨5⟩, join)], names) ∧
    session.netlist.WellFormed ∧ (session.netlist.cell? ⟨0⟩).isSome ∧
    ∃ s', retargetCell fork ⟨0⟩ session =
        .error (.rejected (.invariant (.secondDriver "fork" "Y" "x"))) s' ∧
      s'.netlist ≠ session.netlist := by
  refine ⟨eq_ok_of_toOption (by decide +kernel), ofConfig_config, wellFormed_session,
    by decide +kernel, ?_⟩
  obtain ⟨s', h⟩ : ∃ s', retargetCell fork ⟨0⟩ session =
      .error (.rejected (.invariant (.secondDriver "fork" "Y" "x"))) s' :=
    exists_error_of_failure (by decide +kernel)
  have hchanged : (finalState (retargetCell fork ⟨0⟩ session)).netlist ≠ session.netlist := by
    decide +kernel
  rw [h] at hchanged
  exact ⟨s', h, hchanged⟩

end Refusal
end Retarget
end FpgaPacking
