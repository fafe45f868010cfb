import FpgaPacking.Proofs.Chain.Course

/-!
# Runs of the insertions

A regular run of an insertion is followed step by step: after each step the
wires are known exactly, and so are the nets created so far.  The end of the run
is where the statements about the wires after an insertion apply.
-/

namespace FpgaPacking
namespace Chain

variable {f : Fabric} {s s' : Session} {nl : Netlist} {role : Role} {id cell : CellId}
  {t : BoundaryTemplate}
  {links : List NetId} {moved : List PortRef} {wire : PortRef → Option NetId} {port : Ident} {k : NetId}

/-! ## Steps of an insertion -/

theorem keeps_order_boundaryCell {nl : Netlist} (f : Fabric) (role : Role) (anchor : CellId) :
    Packing.Keeps (Netlist.KeepsOrder moved nl) (boundaryCell f role anchor) := by
  refine Packing.Keeps.bind (.check _) fun t => ?_
  refine Packing.Keeps.bind (.edit (Edit.Keeps.cell anchor)) fun c => ?_
  refine Packing.Keeps.bind (.edit (Edit.keeps_order_uniqueName _)) fun name => ?_
  refine Packing.Keeps.bind (.edit (Edit.keeps_order_instantiate t.cell name)) fun id => ?_
  refine Packing.Keeps.bind (.name _) fun key => ?_
  exact Packing.Keeps.bind (.edit (Edit.keeps_order_updateCell _)) fun _ => .pure _

theorem keeps_order_linkNet {nl : Netlist} (id : CellId) :
    Edit.Keeps (Netlist.KeepsOrder moved nl) (linkNet id) :=
  Edit.Keeps.bind (Edit.Keeps.cell id) fun _ =>
    Edit.Keeps.bind (Edit.keeps_order_uniqueName _) fun name => Edit.keeps_order_createNet name

/-- The session while the boundary cell `id` is inserted: the nets `links` are
there, the ports `moved` have been taken off their nets, and the wires are those
given. -/
structure Inserting (f : Fabric) (nl : Netlist) (role : Role) (id : CellId) (t : BoundaryTemplate)
    (links : List NetId) (moved : List PortRef) (wire : PortRef → Option NetId) (s : Session) :
    Prop where
  extended : Extended f role id t links nl s.netlist
  linked : ∀ k ∈ links, ∃ name, s.netlist.tag k = some (name, none)
  wire : s.netlist.wire = wire
  order : Netlist.KeepsOrder moved nl s.netlist

namespace Inserting

/-- A step that keeps the bare cells and the tags. -/
theorem of_same (hs : Inserting f nl role id t links moved wire s) {moved' : List PortRef}
    {wire' : PortRef → Option NetId} (hw : s'.netlist.WellFormed) (hwire : s'.netlist.wire = wire')
    (hbare : s'.netlist.bare = s.netlist.bare) (htag : s'.netlist.tag = s.netlist.tag)
    (horder : Netlist.KeepsOrder moved' nl s'.netlist) :
    Inserting f nl role id t links moved' wire' s' where
  extended :=
    { hs.extended with
      wellFormed := hw
      cell := hbare ▸ hs.extended.cell
      nets := htag ▸ hs.extended.nets
      links_only := htag ▸ hs.extended.links_only
      input := by
        rw [Netlist.dir_congr (congrFun hbare _)]
        exact hs.extended.input
      outputs := fun p hp => by
        rw [Netlist.dir_congr (congrFun hbare _)]
        exact hs.extended.outputs p hp }
  linked := htag ▸ hs.linked
  wire := hwire
  order := horder

theorem connect {u : Unit} (hs : Inserting f nl role id t links moved wire s)
    (h : (liftM (Edit.connect cell port k) : Packing Unit) s = .ok u s') :
    Inserting f nl role id t links moved (Function.update wire ⟨cell, port⟩ (some k)) s' ∧
      (wire ⟨cell, port⟩ = none ∨ wire ⟨cell, port⟩ = some k) := by
  obtain ⟨nl', hrun, rfl⟩ := Packing.edit_ok.mp h
  obtain ⟨hw, hwire, hbare, htag, hbefore⟩ := Edit.connect_ok hs.extended.wellFormed hrun
  rw [hs.wire] at hwire hbefore
  have horder := Edit.keeps_order_connect.of_ok hrun hs.order
  exact ⟨hs.of_same hw hwire hbare htag horder, hbefore⟩

theorem disconnect {onNet : Option NetId} (hs : Inserting f nl role id t links moved wire s)
    (h : (liftM (Edit.disconnect cell port) : Packing (Option NetId)) s = .ok onNet s') :
    Inserting f nl role id t links (moved ++ [⟨cell, port⟩])
      (Function.update wire ⟨cell, port⟩ none) s' := by
  obtain ⟨nl', hrun, rfl⟩ := Packing.edit_ok.mp h
  obtain ⟨hw, hwire, hbare, htag, -⟩ := Edit.disconnect_ok hs.extended.wellFormed hrun
  rw [hs.wire] at hwire
  exact hs.of_same hw hwire hbare htag (Edit.order_disconnect hs.order hrun)

theorem detach (hs : Inserting f nl role id t links moved wire s)
    (h : (liftM (Chain.detach cell port) : Packing NetId) s = .ok k s') :
    Inserting f nl role id t links (moved ++ [⟨cell, port⟩])
      (Function.update wire ⟨cell, port⟩ none) s' ∧ wire ⟨cell, port⟩ = some k := by
  obtain ⟨nl', hrun, rfl⟩ := Packing.edit_ok.mp h
  obtain ⟨onNet, nl₁, hfirst, hrest⟩ := Edit.bind_ok.mp hrun
  obtain ⟨hw, hwire, hbare, htag, hbefore⟩ := Edit.disconnect_ok hs.extended.wellFormed hfirst
  rw [hs.wire] at hwire hbefore
  cases onNet with
  | none =>
    obtain ⟨c, nl₂, -, hviolate⟩ := Edit.bind_ok.mp hrest
    obtain ⟨name, nl₃, -, hviolate⟩ := Edit.bind_ok.mp hviolate
    cases hviolate
  | some k' =>
    obtain ⟨rfl, rfl⟩ := Edit.pure_ok.mp hrest
    exact ⟨hs.of_same hw hwire hbare htag (Edit.order_disconnect hs.order hfirst), hbefore⟩

theorem linkNet (hs : Inserting f nl role id t links moved wire s)
    (h : (liftM (Chain.linkNet cell) : Packing NetId) s = .ok k s') :
    Inserting f nl role id t (links ++ [k]) moved wire s' ∧ k ∉ links ∧ ∀ q, wire q ≠ some k := by
  obtain ⟨nl', hrun, rfl⟩ := Packing.edit_ok.mp h
  obtain ⟨c, nl₁, hcell, hrest⟩ := Edit.bind_ok.mp hrun
  obtain ⟨-, rfl⟩ := Edit.cell_ok hcell
  obtain ⟨name, nl₂, hname, hcreate⟩ := Edit.bind_ok.mp hrest
  obtain ⟨hwire₂, hbare₂, htag₂⟩ := Edit.uniqueName_ok hname
  have hw₂ : nl₂.WellFormed := (Edit.keeps_uniqueName _).of_ok hname hs.extended.wellFormed
  obtain ⟨hw, hwire, hbare, hknew, htag⟩ := Edit.createNet_ok hw₂ hcreate
  rw [htag₂] at htag
  have hfresh : s.netlist.tag k = none := by
    rw [← htag₂, hknew]
    exact Netlist.tag_nextNet
  have hbare' : nl'.bare = s.netlist.bare := hbare.trans hbare₂
  have hdir : ∀ r : PortRef, nl'.dir r = s.netlist.dir r := fun r =>
    Netlist.dir_congr (congrFun hbare' r.cell)
  have hold : ∀ k' x, s.netlist.tag k' = some x → k' ≠ k := by
    rintro k' x hx rfl
    rw [hfresh] at hx
    cases hx
  have hknone : nl.tag k = none := by
    cases hx : nl.tag k with
    | none => rfl
    | some x => exact absurd rfl (hold k x (hs.extended.nets k x hx))
  have hwireend : nl'.wire = wire := hwire.trans (hwire₂.trans hs.wire)
  refine ⟨⟨⟨hs.extended.before, hw, hs.extended.fresh, hbare' ▸ hs.extended.cell, ?_, ?_, ?_, ?_,
    fun p hp => (hdir _).trans (hs.extended.outputs p hp)⟩, ?_, hwireend,
    (keeps_order_linkNet cell).of_ok hrun hs.order⟩, fun hk => ?_, fun q => ?_⟩
  · intro k' x hx
    have hx' := hs.extended.nets k' x hx
    show nl'.tag k' = some x
    rw [htag, Function.update_of_ne (hold k' x hx')]
    exact hx'
  · intro k' hk'
    rcases List.mem_append.mp hk' with hk' | hk'
    · exact hs.extended.links_fresh k' hk'
    · rw [List.mem_singleton.mp hk']
      exact hknone
  · intro k' hnone hsome
    by_cases hk' : k' = k
    · simp [hk']
    · have hsome' : (nl'.tag k').isSome := hsome
      rw [htag, Function.update_of_ne hk'] at hsome'
      exact List.mem_append_left _ (hs.extended.links_only k' hnone hsome')
  · exact (hdir _).trans hs.extended.input
  · intro k' hk'
    show ∃ name, nl'.tag k' = some (name, none)
    rw [htag]
    by_cases he : k' = k
    · rw [he, Function.update_self]
      exact ⟨_, rfl⟩
    · rw [Function.update_of_ne he]
      have hmem := (List.mem_append.mp hk').resolve_right fun h => he (List.mem_singleton.mp h)
      exact hs.linked k' hmem
  · obtain ⟨name, hname⟩ := hs.linked k hk
    rw [hfresh] at hname
    cases hname
  · rw [← hs.wire]
    exact hs.extended.wellFormed.wired.wire_ne_of_tag hfresh

end Inserting

/-! ## Boundary cells -/

theorem boundaryTemplate_ok {role : Role} :
    boundaryTemplate f role = .ok t ↔ f.boundary role = some t := by
  unfold boundaryTemplate
  cases f.boundary role with
  | none => simp
  | some t' => simp

theorem template_of_boundaryCell {role : Role} {anchor : CellId}
    (h : boundaryCell f role anchor s = .ok (id, t) s') : f.boundary role = some t := by
  unfold boundaryCell at h
  obtain ⟨t', s₁, htemplate, h⟩ := bind_ok.mp h
  obtain ⟨c₀, s₂, -, h⟩ := bind_ok.mp h
  obtain ⟨name, s₃, -, h⟩ := bind_ok.mp h
  obtain ⟨id', s₄, -, h⟩ := bind_ok.mp h
  obtain ⟨key, s₅, -, h⟩ := bind_ok.mp h
  obtain ⟨u, s₆, -, h⟩ := bind_ok.mp h
  obtain ⟨hpair, -⟩ := pure_ok.mp h
  cases hpair
  exact boundaryTemplate_ok.mp (Packing.check_ok.mp htemplate).1

/-- A new boundary cell is connected to nothing and has the ports that its
template needs. -/
theorem boundaryCell_ok {role : Role} {anchor : CellId} (hf : f.Declared)
    (hw : s.netlist.WellFormed) (h : boundaryCell f role anchor s = .ok (id, t) s') :
    Inserting f s.netlist role id t [] [] s.netlist.wire s' := by
  have horder := (keeps_order_boundaryCell f role anchor : Packing.Keeps (Netlist.KeepsOrder []
    s.netlist) _) s .refl
  rw [h] at horder
  unfold boundaryCell at h
  obtain ⟨t', s₁, htemplate, h⟩ := bind_ok.mp h
  obtain ⟨c₀, s₂, hanchor, h⟩ := bind_ok.mp h
  obtain ⟨name, s₃, hname, h⟩ := bind_ok.mp h
  obtain ⟨id', s₄, hnew, h⟩ := bind_ok.mp h
  obtain ⟨key, s₅, hkey, h⟩ := bind_ok.mp h
  obtain ⟨u, s₆, hupdate, h⟩ := bind_ok.mp h
  obtain ⟨hpair, rfl⟩ := pure_ok.mp h
  cases hpair
  obtain ⟨ht, rfl⟩ := Packing.check_ok.mp htemplate
  have hboundary : f.boundary role = some t := boundaryTemplate_ok.mp ht
  obtain ⟨nl₂, hcell, rfl⟩ := Packing.edit_ok.mp hanchor
  obtain ⟨-, rfl⟩ := Edit.cell_ok hcell
  obtain ⟨nl₃, hrun₃, rfl⟩ := Packing.edit_ok.mp hname
  have hw₃ : nl₃.WellFormed := (Edit.keeps_uniqueName _).of_ok hrun₃ hw
  obtain ⟨hwire₃, hbare₃, htag₃⟩ := Edit.uniqueName_ok hrun₃
  obtain ⟨nl₄, hrun₄, rfl⟩ := Packing.edit_ok.mp hnew
  obtain ⟨hw₄, hwire₄, htag₄, rfl, c, hbare₄, hports⟩ := Edit.instantiate_ok hw₃ hrun₄
  obtain ⟨-, hsame₅, -⟩ := Packing.name_ok.mp hkey
  obtain ⟨nl₆, hrun₆, rfl⟩ := Packing.edit_ok.mp hupdate
  rw [hsame₅] at hrun₆
  obtain ⟨hw₆, hwire₆, htag₆, d, hd, hbare₆⟩ := Edit.updateCell_ok hw₄ hrun₆ fun _ => rfl
  have hdc : d.unwired = c := by
    have hself : nl₄.bare nl₃.nextCell = some c := by rw [hbare₄, Function.update_self]
    have hbare : nl₄.bare nl₃.nextCell = some d.unwired := Netlist.bare_of_cell? hd
    exact Option.some.inj (hbare.symm.trans hself)
  have htag : nl₆.tag = s₁.netlist.tag := htag₆.trans (htag₄.trans htag₃)
  have hdir : ∀ p ∈ t.cell.ports, nl₆.dir ⟨nl₃.nextCell, p.1⟩ = some p.2 := by
    intro p hp
    rw [Netlist.dir_eq_of_bare, hbare₆, Function.update_self]
    have hport := hports p hp
    rw [← hdc] at hport
    exact hport
  rw [hf role t hboundary] at hdir
  refine ⟨⟨hw, hw₆, ?_, ?_, ?_, nofun, ?_, ?_, ?_⟩, nofun, ?_, horder⟩
  · rw [← hbare₃]
    exact Netlist.bare_nextCell
  · refine ⟨({ d with role, attrs := d.attrs.insert key (.text role.marker) } : Cell).unwired, ?_,
      hboundary, rfl⟩
    show nl₆.bare = _
    rw [hbare₆, hbare₄, hbare₃]
    exact Function.update_idem _ _ _
  · intro k x hx
    show nl₆.tag k = some x
    rw [htag]
    exact hx
  · intro k hnone hsome
    have hsome' : (nl₆.tag k).isSome := hsome
    rw [htag, hnone] at hsome'
    cases hsome'
  · exact hdir _ List.mem_cons_self
  · intro p hp
    refine hdir (p, .output) (List.mem_cons_of_mem _ ?_)
    rw [List.mem_map]
    refine ⟨p, ?_, rfl⟩
    rw [List.mem_append, Option.mem_toList, Option.mem_toList]
    exact hp
  · exact hwire₆.trans (hwire₄.trans hwire₃)

theorem requiredPort_ok {role : Role} {description : String} {port? : Option Ident}
    (h : (liftM (requiredPort f role description port?) : Packing Ident) s = .ok port s') :
    port? = some port ∧ s' = s := by
  obtain ⟨hport, rfl⟩ := Packing.check_ok.mp h
  refine ⟨?_, rfl⟩
  cases port? with
  | none => cases hport
  | some p => exact congrArg some (Except.ok.inj hport)

/-! ## The three insertions -/

/-- A boundary cell of some role has been inserted after the chain cell `prev`, before the chain
cell `next` or between the two. -/
structure Inserted (f : Fabric) (role : Role) (moved : List PortRef) (prev next : Option CellId)
    (nl nl' : Netlist) (id : CellId) : Prop where
  edited : Edited moved nl nl'
  origins : SameOrigins f nl nl'
  new : NewBoundary nl nl' id
  has_role : ∃ c, nl'.bare id = some c ∧ c.role = role
  joined_prev : ∀ p, prev = some p → Joined f nl' p id
  joined_next : ∀ c, next = some c → Joined f nl' id c
  takesPlace : TakesPlace f nl nl' id prev next

theorem inserting_of_feedIn {head : CellId} (hf : f.Declared) (hw : s.netlist.WellFormed)
    (h : insertFeedIn f head s = .ok id s') :
    ∃ t output k link, t.chainOutput = some output ∧ s.netlist.wire ⟨head, f.chainIn⟩ = some k ∧
      Inserting f s.netlist .feedIn id t [link] [⟨head, f.chainIn⟩]
        (Function.update (Function.update (Function.update (Function.update s.netlist.wire
          ⟨head, f.chainIn⟩ none) ⟨id, t.input⟩ (some k)) ⟨id, output⟩ (some link))
          ⟨head, f.chainIn⟩ (some link)) s' := by
  unfold insertFeedIn at h
  obtain ⟨⟨i, t⟩, s₁, hnew, h⟩ := bind_ok.mp h
  obtain ⟨output, s₂, houtput, h⟩ := bind_ok.mp h
  obtain ⟨k, s₃, hdetach, h⟩ := bind_ok.mp h
  obtain ⟨_, s₄, hinput, h⟩ := bind_ok.mp h
  obtain ⟨link, s₅, hlink, h⟩ := bind_ok.mp h
  obtain ⟨_, s₆, hdrive, h⟩ := bind_ok.mp h
  obtain ⟨_, s₇, hread, h⟩ := bind_ok.mp h
  obtain ⟨rfl, rfl⟩ := pure_ok.mp h
  obtain ⟨hout, rfl⟩ := requiredPort_ok houtput
  obtain ⟨h₃, hk⟩ := (boundaryCell_ok hf hw hnew).detach hdetach
  obtain ⟨h₄, -⟩ := h₃.connect hinput
  obtain ⟨h₅, -⟩ := h₄.linkNet hlink
  obtain ⟨h₆, -⟩ := h₅.connect hdrive
  obtain ⟨h₇, -⟩ := h₆.connect hread
  exact ⟨t, output, k, link, hout, hk, h₇⟩

theorem fedIn_of_insert {head : CellId} (hf : f.Declared) (hw : s.netlist.WellFormed)
    (hhead : ChainCell f s.netlist head) (h : insertFeedIn f head s = .ok id s') :
    ∃ t output k link, FedIn f id t ⟨head, f.chainIn⟩ output k link s.netlist s'.netlist := by
  obtain ⟨t, output, k, link, hout, hk, hs'⟩ := inserting_of_feedIn hf hw h
  refine ⟨t, output, k, link,
    { toExtended := hs'.extended
      chain_output := hout
      on_net := hk
      reads := hhead.chainIn
      normal := fun d hd => hhead.role_normal hd
      drives := hs'.extended.outputs output (Or.inl hout)
      wires := fun q => ?_
      order := hs'.order }⟩
  rw [hs'.wire]
  simp only [Function.update_apply]
  by_cases hq : q = ⟨head, f.chainIn⟩
  · simp [hq]
  · simp [hq]

theorem insertFeedIn_ok {head : CellId} (hf : f.Declared) (hw : s.netlist.WellFormed)
    (hhead : ChainCell f s.netlist head) (h : insertFeedIn f head s = .ok id s') :
    Inserted f .feedIn [⟨head, f.chainIn⟩] none (some head) s.netlist s'.netlist id := by
  obtain ⟨t, output, k, link, hfed⟩ := fedIn_of_insert hf hw hhead h
  have hext := hfed.toExtended
  refine
    { edited := hfed.edited
      origins := hfed.sameOrigins
      new := hext.newBoundary
      has_role := hext.has_role
      joined_prev := nofun
      joined_next := ?_
      takesPlace := hfed.takesPlace hhead }
  rintro _ ⟨⟩
  exact (hhead.edited hfed.edited).joined_of_boundary hext hfed.chain_output hfed.linked

theorem inserting_of_passOut {tail : CellId} (hf : f.Declared) (hw : s.netlist.WellFormed)
    (h : insertPassOut f tail s = .ok id s') :
    ∃ t routed k link, t.fabricOutput = some routed ∧
      s.netlist.wire ⟨tail, f.chainOut⟩ = some k ∧
      Inserting f s.netlist .passOut id t [link] [⟨tail, f.chainOut⟩]
        (Function.update (Function.update (Function.update (Function.update s.netlist.wire
          ⟨tail, f.chainOut⟩ none) ⟨tail, f.chainOut⟩ (some link)) ⟨id, t.input⟩ (some link))
          ⟨id, routed⟩ (some k)) s' := by
  unfold insertPassOut at h
  obtain ⟨⟨i, t⟩, s₁, hnew, h⟩ := bind_ok.mp h
  obtain ⟨routed, s₂, hrouted, h⟩ := bind_ok.mp h
  obtain ⟨k, s₃, hdetach, h⟩ := bind_ok.mp h
  obtain ⟨link, s₄, hlink, h⟩ := bind_ok.mp h
  obtain ⟨_, s₅, hdrive, h⟩ := bind_ok.mp h
  obtain ⟨_, s₆, hinput, h⟩ := bind_ok.mp h
  obtain ⟨_, s₇, hroute, h⟩ := bind_ok.mp h
  obtain ⟨rfl, rfl⟩ := pure_ok.mp h
  obtain ⟨hout, rfl⟩ := requiredPort_ok hrouted
  obtain ⟨h₃, hk⟩ := (boundaryCell_ok hf hw hnew).detach hdetach
  obtain ⟨h₄, -⟩ := h₃.linkNet hlink
  obtain ⟨h₅, -⟩ := h₄.connect hdrive
  obtain ⟨h₆, -⟩ := h₅.connect hinput
  obtain ⟨h₇, -⟩ := h₆.connect hroute
  exact ⟨t, routed, k, link, hout, hk, h₇⟩

theorem passedOut_of_insert {tail : CellId} (hf : f.Declared) (hw : s.netlist.WellFormed)
    (htail : ChainCell f s.netlist tail) (h : insertPassOut f tail s = .ok id s') :
    ∃ t routed k link, PassedOut f id t ⟨tail, f.chainOut⟩ routed k link s.netlist s'.netlist := by
  obtain ⟨t, routed, k, link, hout, hk, hs'⟩ := inserting_of_passOut hf hw h
  have hdrouted := hs'.extended.outputs routed (Or.inr hout)
  have hports : (⟨id, routed⟩ : PortRef) ≠ ⟨id, t.input⟩ := by
    intro e
    rw [e, hs'.extended.input] at hdrouted
    cases hdrouted
  have htaili : (⟨id, routed⟩ : PortRef) ≠ ⟨tail, f.chainOut⟩ := fun e =>
    hs'.extended.cell_ne hk (congrArg PortRef.cell e).symm
  refine ⟨t, routed, k, link,
    { toExtended := hs'.extended
      fabric_output := hout
      on_net := hk
      driver := htail.dir_chainOut hk
      normal := fun d hd => htail.role_normal hd
      drives := hdrouted
      wires := fun q => ?_
      order := hs'.order }⟩
  rw [hs'.wire]
  simp only [Function.update_apply]
  by_cases hq : q = ⟨id, routed⟩
  · simp [hq, hports, htaili]
  · by_cases hqin : q = ⟨id, t.input⟩
    · simp [hqin, Ne.symm hports]
    · by_cases hqt : q = ⟨tail, f.chainOut⟩
      · simp [hqt, Ne.symm htaili]
      · simp [hq, hqin, hqt]

theorem insertPassOut_ok {tail : CellId} (hf : f.Declared) (hw : s.netlist.WellFormed)
    (htail : ChainCell f s.netlist tail) (h : insertPassOut f tail s = .ok id s') :
    Inserted f .passOut [⟨tail, f.chainOut⟩] (some tail) none s.netlist s'.netlist id := by
  obtain ⟨t, routed, k, link, hpassed⟩ := passedOut_of_insert hf hw htail h
  have hext := hpassed.toExtended
  refine
    { edited := hpassed.edited
      origins := hpassed.sameOrigins
      new := hext.newBoundary
      has_role := hext.has_role
      joined_prev := ?_
      joined_next := nofun
      takesPlace := hpassed.takesPlace htail }
  rintro _ ⟨⟩
  exact (htail.edited hpassed.edited).joined_to_boundary hext hpassed.linked

/-- The wires of a pass-through before its chain output and the next cell are connected. -/
def wiresThrough (wire : PortRef → Option NetId) (prev next input routed : PortRef)
    (k entry : NetId) : PortRef → Option NetId :=
  Function.update (Function.update (Function.update (Function.update
    (Function.update wire prev none) prev (some entry)) input (some entry)) routed (some k)) next none

/-- The wires after the steps of a pass-through, when all ports of the steps differ. -/
theorem wire_passThrough {prev next input output routed : PortRef} {entry exit : NetId}
    (hends : prev ≠ next) (hprev : ∀ r ∈ [input, output, routed], r ≠ prev)
    (hnext : ∀ r ∈ [input, output, routed], r ≠ next) (hin : input ≠ output)
    (hinr : input ≠ routed) (hports : routed ≠ output) (q : PortRef) :
    Function.update (Function.update (wiresThrough wire prev next input routed k entry)
      output (some exit)) next (some exit) q =
      if q = next ∨ q = output then some exit
      else if q = prev ∨ q = input then some entry
      else if q = routed then some k
      else wire q := by
  simp only [List.mem_cons, List.not_mem_nil, or_false, forall_eq_or_imp, forall_eq] at hprev hnext
  obtain ⟨hinprev, houtprev, hrprev⟩ := hprev
  obtain ⟨hinnext, -, hrnext⟩ := hnext
  simp only [wiresThrough, Function.update_apply]
  by_cases hqn : q = next
  · simp [hqn]
  · by_cases hqo : q = output
    · simp [hqo]
    · by_cases hqr : q = routed
      · simp [hqr, hrnext, hrprev, hports, Ne.symm hinr]
      · by_cases hqi : q = input
        · simp [hqi, hinnext, hin, hinr]
        · by_cases hqp : q = prev
          · simp [hqp, hends, Ne.symm hinprev, Ne.symm houtprev, Ne.symm hrprev]
          · simp [hqn, hqo, hqr, hqi, hqp]

theorem inserting_of_passThrough {prev next : CellId} (hf : f.Declared) (hw : s.netlist.WellFormed)
    (h : insertPassThrough f prev next s = .ok id s') :
    ∃ t output routed k entry exit, t.chainOutput = some output ∧ t.fabricOutput = some routed ∧
      s.netlist.wire ⟨prev, f.chainOut⟩ = some k ∧ entry ≠ exit ∧
      (wiresThrough s.netlist.wire ⟨prev, f.chainOut⟩ ⟨next, f.chainIn⟩ ⟨id, t.input⟩ ⟨id, routed⟩
          k entry ⟨id, output⟩ = none ∨
        wiresThrough s.netlist.wire ⟨prev, f.chainOut⟩ ⟨next, f.chainIn⟩ ⟨id, t.input⟩ ⟨id, routed⟩
          k entry ⟨id, output⟩ = some exit) ∧
      Inserting f s.netlist .passThrough id t [entry, exit] [⟨prev, f.chainOut⟩, ⟨next, f.chainIn⟩]
        (Function.update (Function.update (wiresThrough s.netlist.wire ⟨prev, f.chainOut⟩
          ⟨next, f.chainIn⟩ ⟨id, t.input⟩ ⟨id, routed⟩ k entry) ⟨id, output⟩ (some exit))
          ⟨next, f.chainIn⟩ (some exit)) s' := by
  unfold insertPassThrough at h
  obtain ⟨⟨i, t⟩, s₁, hnew, h⟩ := bind_ok.mp h
  obtain ⟨output, s₂, houtput, h⟩ := bind_ok.mp h
  obtain ⟨routed, s₃, hrouted, h⟩ := bind_ok.mp h
  obtain ⟨k, s₄, hdetach, h⟩ := bind_ok.mp h
  obtain ⟨entry, s₅, hentry, h⟩ := bind_ok.mp h
  obtain ⟨_, s₆, hdrive, h⟩ := bind_ok.mp h
  obtain ⟨_, s₇, hinput, h⟩ := bind_ok.mp h
  obtain ⟨_, s₈, hroute, h⟩ := bind_ok.mp h
  obtain ⟨onNet, s₉, hdisconnect, h⟩ := bind_ok.mp h
  obtain ⟨exit, s₁₀, hexit, h⟩ := bind_ok.mp h
  obtain ⟨_, s₁₁, hpass, h⟩ := bind_ok.mp h
  obtain ⟨_, s₁₂, hread, h⟩ := bind_ok.mp h
  obtain ⟨rfl, rfl⟩ := pure_ok.mp h
  obtain ⟨hout, rfl⟩ := requiredPort_ok houtput
  obtain ⟨houtr, rfl⟩ := requiredPort_ok hrouted
  obtain ⟨h₄, hk⟩ := (boundaryCell_ok hf hw hnew).detach hdetach
  obtain ⟨h₅, -⟩ := h₄.linkNet hentry
  obtain ⟨h₆, -⟩ := h₅.connect hdrive
  obtain ⟨h₇, -⟩ := h₆.connect hinput
  obtain ⟨h₈, -⟩ := h₇.connect hroute
  have h₉ := h₈.disconnect hdisconnect
  obtain ⟨h₁₀, hdistinct, -⟩ := h₉.linkNet hexit
  obtain ⟨h₁₁, hfree⟩ := h₁₀.connect hpass
  obtain ⟨h₁₂, -⟩ := h₁₁.connect hread
  exact ⟨t, output, routed, k, entry, exit, hout, houtr, hk, fun e => hdistinct (by simp [e]),
    hfree, h₁₂⟩

theorem passedThrough_of_insert {prev next : CellId} (hf : f.Declared) (hw : s.netlist.WellFormed)
    (hprev : ChainCell f s.netlist prev) (hnext : ChainCell f s.netlist next)
    (htogether : s.netlist.wire ⟨prev, f.chainOut⟩ = s.netlist.wire ⟨next, f.chainIn⟩)
    (h : insertPassThrough f prev next s = .ok id s') :
    ∃ t output routed k entry exit,
      PassedThrough f id t ⟨prev, f.chainOut⟩ ⟨next, f.chainIn⟩ output routed k entry exit
        s.netlist s'.netlist := by
  obtain ⟨t, output, routed, k, entry, exit, hout, houtr, hk, hlinks, hfree, hs'⟩ :=
    inserting_of_passThrough hf hw h
  have hknext : s.netlist.wire ⟨next, f.chainIn⟩ = some k := htogether ▸ hk
  have hext := hs'.extended
  have hdout := hs'.extended.outputs output (Or.inl hout)
  have hdrouted := hs'.extended.outputs routed (Or.inr houtr)
  have hin : ∀ p, s'.netlist.dir ⟨id, p⟩ = some .output → (⟨id, t.input⟩ : PortRef) ≠ ⟨id, p⟩ := by
    intro p hp e
    rw [← e, hext.input] at hp
    cases hp
  have hnewprev : ∀ p, (⟨id, p⟩ : PortRef) ≠ ⟨prev, f.chainOut⟩ := fun p e =>
    hext.cell_ne hk (congrArg PortRef.cell e).symm
  have hnewnext : ∀ p, (⟨id, p⟩ : PortRef) ≠ ⟨next, f.chainIn⟩ := fun p e =>
    hext.cell_ne hknext (congrArg PortRef.cell e).symm
  have hends : (⟨prev, f.chainOut⟩ : PortRef) ≠ ⟨next, f.chainIn⟩ := by
    intro e
    have hdprev := hprev.dir_chainOut hk
    rw [e] at hdprev
    exact hnext.chainIn hdprev
  -- An output for both purposes would be on the old net when the new one is connected.
  have hports : routed ≠ output := by
    rintro rfl
    have hkexit : k ≠ exit := by
      rintro rfl
      exact hext.wire_ne (by simp) _ hk
    simp [wiresThrough, hnewnext, hkexit] at hfree
  refine ⟨t, output, routed, k, entry, exit,
    { toExtended := hext
      chain_output := hout
      links_ne := hlinks
      on_net := hk
      next_on_net := hknext
      driver := hprev.dir_chainOut hk
      reads := hnext.chainIn
      prev_normal := fun d hd => hprev.role_normal hd
      next_normal := fun d hd => hnext.role_normal hd
      drives := hdout
      drives_routed := hdrouted
      outputs_ne := hports
      wires := fun q => ?_
      order := hs'.order }⟩
  rw [hs'.wire]
  exact wire_passThrough hends (by simp [hnewprev]) (by simp [hnewnext]) (hin output hdout)
    (hin routed hdrouted) (fun e => hports (congrArg PortRef.port e)) q

theorem insertPassThrough_ok {prev next : CellId} (hf : f.Declared) (hw : s.netlist.WellFormed)
    (hprev : ChainCell f s.netlist prev) (hnext : ChainCell f s.netlist next)
    (htogether : s.netlist.wire ⟨prev, f.chainOut⟩ = s.netlist.wire ⟨next, f.chainIn⟩)
    (h : insertPassThrough f prev next s = .ok id s') :
    Inserted f .passThrough [⟨prev, f.chainOut⟩, ⟨next, f.chainIn⟩] (some prev) (some next)
      s.netlist s'.netlist id := by
  obtain ⟨t, output, routed, k, entry, exit, hpassed⟩ :=
    passedThrough_of_insert hf hw hprev hnext htogether h
  have hext := hpassed.toExtended
  refine
    { edited := hpassed.edited
      origins := hpassed.sameOrigins
      new := hext.newBoundary
      has_role := hext.has_role
      joined_prev := ?_
      joined_next := ?_
      takesPlace := hpassed.takesPlace hprev hnext }
  · rintro _ ⟨⟩
    exact (hprev.edited hpassed.edited).joined_to_boundary hext hpassed.linked_prev
  · rintro _ ⟨⟩
    exact (hnext.edited hpassed.edited).joined_of_boundary hext hpassed.chain_output
      hpassed.linked_next

end Chain
end FpgaPacking
