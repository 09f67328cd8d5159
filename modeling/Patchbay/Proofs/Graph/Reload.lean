import Patchbay.Proofs.Graph.Storing
import Patchbay.Proofs.Graph.ColdStart
import Patchbay.Proofs.Graph.Operations

/-!
# Loading what was stored

The snapshot of a settled graph is loaded as a copy of the graph (`load_toSnapshot`): the pads that
are listed are there from the start with their values (`reloaded`), nodes declare no others, and
the links are the same.
-/

namespace Patchbay.GraphState

/-! ### Pads from snapshots -/

section

variable {pads : List PadState} {listed : List PadSnapshot} {specs : List PadSpec}

/-- Listed pads that a node has already are passed over. -/
theorem seedPads_of_known (h : ∀ x ∈ listed, x.id ∈ pads.map (·.id)) :
    seedPads pads listed = pads := by
  induction listed with
  | nil => rfl
  | cons x rest ih =>
    obtain ⟨hx, hrest⟩ := List.forall_mem_cons.mp h
    have hfind : (findPad x.id pads).isSome = true := by
      obtain ⟨p, hp, hid⟩ := List.mem_map.mp hx
      exact List.find?_isSome.mpr ⟨p, hp, by simpa using hid⟩
    rw [seedPads, List.foldl_cons, if_pos hfind]
    exact ih hrest

theorem seededPad_id (x : PadSnapshot) : (seededPad x).id = x.id := by
  rw [seededPad]
  split <;> rfl

/-- Listed pads with new, distinct ids are all added. -/
theorem seedPads_of_new (hnd : (listed.map (·.id)).Nodup)
    (hnew : ∀ x ∈ listed, x.id ∉ pads.map (·.id)) :
    seedPads pads listed = pads ++ listed.map seededPad := by
  induction listed generalizing pads with
  | nil => simp [seedPads]
  | cons x rest ih =>
    obtain ⟨hx, hrest⟩ := List.forall_mem_cons.mp hnew
    obtain ⟨hxrest, hndrest⟩ := List.nodup_cons.mp hnd
    have hfind : findPad x.id pads = none := by
      refine List.find?_eq_none.mpr fun p hp hpx => hx ?_
      exact List.mem_map.mpr ⟨p, hp, by simpa using hpx⟩
    rw [seedPads, List.foldl_cons, hfind, Option.isSome_none, if_neg (by simp)]
    have hrest' : ∀ y ∈ rest, y.id ∉ (pads ++ [seededPad x]).map (·.id) := by
      intro y hy
      rw [List.map_append, List.mem_append, not_or]
      refine ⟨hrest y hy, ?_⟩
      rw [List.map_singleton, List.mem_singleton, seededPad_id]
      exact fun h => hxrest (List.mem_map.mpr ⟨y, hy, h⟩)
    have hseed := ih hndrest hrest'
    rw [seedPads] at hseed
    rw [hseed, List.append_assoc, List.singleton_append, List.map_cons]

/-- Declared pads that a node has already are passed over. -/
theorem declareMissing_of_known (h : ∀ spec ∈ specs, spec.id ∈ pads.map (·.id)) :
    declareMissing pads specs = pads := by
  induction specs with
  | nil => rfl
  | cons spec rest ih =>
    obtain ⟨hspec, hrest⟩ := List.forall_mem_cons.mp h
    have hfind : (findPad spec.id pads).isSome = true := by
      obtain ⟨p, hp, hid⟩ := List.mem_map.mp hspec
      exact List.find?_isSome.mpr ⟨p, hp, by simpa using hid⟩
    rw [declareMissing, List.foldl_cons, if_pos hfind]
    exact ih hrest

end

variable {s t inner inner₀ inner₁ : GraphState} {e d : NodeEntry} {p : PadState}
  {library : Library} {config : EngineConfig}
  {R : InnerResolver} {external : External} {n : Nat}

/-- No property holds `null`. -/
def NoNulls (s : GraphState) : Prop := ∀ e ∈ s.nodes, ∀ p ∈ e.pads, p.value ≠ some .null

instance : DecidablePred NoNulls := fun s =>
  decidable_of_iff (∀ e ∈ s.nodes, ∀ p ∈ e.pads, p.value.any Json.isNull = false) <|
    forall₂_congr fun _ _ => forall₂_congr fun p _ => by
      cases p.value with
      | none => simp
      | some v => cases v <;> simp [Json.isNull]

/-- A stored pad is seeded as a copy. -/
theorem seededPad_storePad (s : GraphState) (node : String) (hproxy : p.proxy = none)
    (hnull : p.value ≠ some .null) (hstateless : p.isProperty = false → p.value = none) :
    (seededPad (storePad s node p)).Copies p ∧ (seededPad (storePad s node p)).value =
    p.value := by
  have hfresh : (PadState.ofSpec { id := p.id, padType := p.padType }).value = none := by
    rw [PadState.ofSpec, PadState.declare]
    split <;> rfl
  have hpads : (seededPad (storePad s node p)).outline = p.outline ∧
      (seededPad (storePad s node p)).value = p.value := by
    rw [seededPad]
    simp only [storePad]
    split
    · rename_i hv
      exact absurd hv hnull
    · rename_i hprop
      have hprop : p.isProperty = false := hprop
      exact ⟨PadState.outline_eq_iff.mpr ⟨rfl, rfl, hproxy.symm⟩,
        hfresh.trans (hstateless hprop).symm⟩
    · rename_i hv _
      exact ⟨PadState.outline_eq_iff.mpr ⟨rfl, rfl, hproxy.symm⟩, hfresh.trans hv.symm⟩
    · rename_i v _ hv
      exact ⟨PadState.outline_eq_iff.mpr ⟨rfl, rfl, hproxy.symm⟩, hv.symm⟩
  exact ⟨⟨hpads.1, fun _ => .inl hpads.2⟩, hpads.2⟩

/-- The pads of a node of a type stand for no other pads, and are declared in their order. -/
theorem SettledAt.declared (h : SettledAt R external s e) {type : NodeType} (htame : type.Tame)
    (hb : e.body = .plugin type) : ∃ specs, type.resolve (s.view external e) = .ok specs ∧
      specs.map (·.id) = e.pads.map (·.id) ∧ ∀ p ∈ e.pads, p.proxy = none := by
  obtain ⟨specs, hspecs, -, hpads⟩ := h
  have hspecs' := ((resolveBody_of_plugin hb).mp (hb ▸ hspecs)).1
  refine ⟨specs, hspecs', ?_, fun p hp => ?_⟩
  · have hids := congrArg (List.map (·.id)) hpads
    simpa [List.map_map, Function.comp_def, PadState.bare] using hids
  · obtain ⟨spec, hspec, hbare⟩ := exists_spec_of_settled hpads hp
    obtain ⟨value, hdecl, -⟩ := mergedPad_eq e.pads spec
    rw [hdecl] at hbare
    obtain ⟨-, -, -, -, -, hproxy⟩ := PadState.bare_eq_iff.mp hbare
    exact hproxy.symm.trans (htame.consistent _ _ hspecs' spec hspec).1

/-! ### Nodes from snapshots -/

/-- A node of a type, as it is loaded: its pads are those that were listed. -/
def reloaded (s : GraphState) (e : NodeEntry) (type : NodeType) : NodeEntry :=
  { NodeEntry.plugin e.id e.nodeType type with
    pads := e.pads.map fun p => seededPad (storePad s e.id p), editor := e.editor }

/-- What is loaded for a stored node of a type. -/
theorem loadNode_eq_reloaded (hset : SettledAt R external s e) {type : NodeType}
    (htame : type.Tame) (hb : e.body = .plugin type)
    (htype : library.create e.nodeType = .ok type) (hnd : (e.pads.map (·.id)).Nodup)
    (hstateless : ∀ p ∈ e.pads, p.isProperty = false → p.value = none)
    (hnull : ∀ p ∈ e.pads, p.value ≠ some .null) :
    loadNode library config (storeNode s e) = .ok (reloaded s e type) := by
  obtain ⟨specs, hspecs, hids, hproxy⟩ := hset.declared htame hb
  have hvalue : ∀ p ∈ e.pads, (seededPad (storePad s e.id p)).value = p.value := fun p hp =>
    (seededPad_storePad s e.id (hproxy p hp) (hnull p hp) (hstateless p hp)).2
  have hseed : seedPads [] (e.pads.map (storePad s e.id)) =
      e.pads.map fun p => seededPad (storePad s e.id p) := by
    rw [seedPads_of_new _ (by simp), List.map_map]
    · rfl
    · rw [List.map_map]
      exact hnd
  have hprop : ∀ id, (s.view external e).property id =
      (⟨e.id, e.pads.map fun p => seededPad (storePad s e.id p), []⟩ : NodeView).property id := by
    intro id
    have hvalue : (findPad id e.pads).bind (·.value) =
        (findPad id (e.pads.map fun p => seededPad (storePad s e.id p))).bind (·.value) := by
      have hfind : findPad id (e.pads.map fun p => seededPad (storePad s e.id p)) =
          (findPad id e.pads).map fun p => seededPad (storePad s e.id p) := by
        rw [findPad, List.find?_map, findPad]
        simp only [Function.comp_def, seededPad_id, storePad]
      rw [hfind]
      cases hp : findPad id e.pads with
      | none => rfl
      | some p =>
        rw [Option.map_some, Option.bind_some, Option.bind_some, hvalue p (findPad_eq_some hp).1]
    simp only [NodeView.property, NodeView.pad?, view, hvalue]
  obtain ⟨specs', hspecs'⟩ :=
    htame.total ⟨e.id, e.pads.map fun p => seededPad (storePad s e.id p), []⟩
  have hknown : declareMissing (e.pads.map fun p => seededPad (storePad s e.id p)) specs' =
      e.pads.map fun p => seededPad (storePad s e.id p) := by
    -- the pads that a node declares depend on values only, and all of them are listed
    have houtline : specs.map (·.id) = specs'.map (·.id) := by
      have := congrArg (List.map Prod.fst) (htame.outline _ _ specs specs' hprop hspecs hspecs')
      simpa only [outlineOfSpecs, List.map_map, Function.comp_def] using this
    refine declareMissing_of_known fun spec hspec => ?_
    have hmem : spec.id ∈ specs'.map (·.id) := List.mem_map_of_mem hspec
    rw [← houtline, hids] at hmem
    simpa only [List.map_map, Function.comp_def, seededPad_id, storePad] using hmem
  have hname : e.nodeType ≠ subgraphType := by
    rintro hname
    rw [Library.create, if_pos hname] at htype
    cases htype
  rw [storeNode_eq, loadNode, if_neg hname, htype]
  simp only [bind, Except.bind, pluginEntry, hseed, hspecs', hknown]
  rfl

/-- A stored node of a type is loaded as a copy. -/
theorem copies_reloaded (hset : SettledAt R external s e) {type : NodeType} (htame : type.Tame)
    (hb : e.body = .plugin type) (hstateless : ∀ p ∈ e.pads, p.isProperty = false → p.value = none)
    (hnull : ∀ p ∈ e.pads, p.value ≠ some .null) : (reloaded s e type).Copies e := by
  obtain ⟨-, -, -, hproxy⟩ := hset.declared htame hb
  refine ⟨rfl, rfl, rfl, ?_, by rw [hb]; rfl⟩
  rw [reloaded, List.forall₂_map_left_iff, List.forall₂_same]
  exact fun p hp =>
    (seededPad_storePad s e.id (hproxy p hp) (hnull p hp) (hstateless p hp)).1

/-- A subgraph node, as it is loaded around a graph. -/
def reloadedAround (e : NodeEntry) (id : Option String) (inner : GraphState) : NodeEntry :=
  ⟨e.id, subgraphType, e.editor, inner.exposedPads.map PadState.ofSpec, .unresolved,
    .subgraph id inner⟩

section

variable (hset : SettledAt R external s e) {id : Option String} (hb : e.body = .subgraph id inner)
  (htype : e.nodeType = subgraphType)
  (houtline : (inner₁.exposedPads.map PadState.ofSpec).map PadState.outline =
    (inner.exposedPads.map PadState.ofSpec).map PadState.outline)

include hset hb htype houtline

/-- What is loaded for a stored subgraph node, if the graph inside is loaded and resolved with the
same proxies. -/
theorem loadNode_eq_reloadedAround (hload : load library config inner.toSnapshot = .ok inner₀)
    (hresolve : reconcile config [] inner₀ = .ok inner₁) :
    loadNode library config (storeNode s e) = .ok (reloadedAround e id inner₁) := by
  have houtline := houtline.trans (map_outline_of_bare (hset.resolved hb).2)
  have hseed : seedPads (inner₁.exposedPads.map PadState.ofSpec) (e.pads.map (storePad s e.id)) =
      inner₁.exposedPads.map PadState.ofSpec := by
    refine seedPads_of_known fun x hx => ?_
    obtain ⟨p, hp, rfl⟩ := List.mem_map.mp hx
    have hids := congrArg (List.map (·.id)) houtline
    simp only [List.map_map, Function.comp_def, PadState.outline] at hids
    have hmem : p.id ∈ e.pads.map (·.id) := List.mem_map_of_mem hp
    rw [← hids] at hmem
    simpa only [List.map_map, Function.comp_def, storePad] using hmem
  rw [storeNode_eq, hb, loadNode, if_pos htype]
  simp only [storeBody, loadInner, hload, Except.map, bind, Except.bind, subgraphEntry, hresolve,
    hseed]
  rfl

/-- A stored subgraph node is loaded as a copy, if the graph inside is. -/
theorem copies_reloadedAround : (reloadedAround e id inner₁).Copies e := by
  have hbare := (hset.resolved hb).2
  have houtline := houtline.trans (map_outline_of_bare hbare)
  have hproxy : ∀ p ∈ e.pads, p.proxy ≠ none := by
    intro p hp
    have hmem : p.bare ∈ (inner.exposedPads.map PadState.ofSpec).map PadState.bare :=
      hbare ▸ List.mem_map_of_mem hp
    obtain ⟨q, hq, hbare⟩ := List.mem_map.mp hmem
    obtain ⟨spec, hspec, rfl⟩ := List.mem_map.mp hq
    obtain ⟨f, -, d, -, -, rfl⟩ := mem_exposedPads.mp hspec
    rw [← (PadState.bare_eq_iff.mp hbare).2.2.2.2.2]
    exact Option.some_ne_none _
  refine ⟨rfl, htype.symm, rfl, ?_, by rw [hb]; rfl⟩
  rw [← List.forall₂_eq_eq_eq, List.forall₂_map_left_iff, List.forall₂_map_right_iff,
    List.forall₂_iff_zip] at houtline
  exact List.forall₂_iff_zip.mpr ⟨houtline.1, fun {q p} hqp => ⟨houtline.2 hqp, fun hnone =>
    absurd hnone (hproxy p (List.of_mem_zip hqp).2)⟩⟩

end

/-! ### Graphs from snapshots -/

theorem loadNodes_of_copies {es : List NodeEntry}
    (hload : ∀ e ∈ es, ∃ d, loadNode library config (storeNode s e) = .ok d ∧ d.Copies e)
    (hvalid : ∀ e ∈ es, isValidNodeId e.id = true) (hnd : (es.map (·.id)).Nodup)
    (hnew : ∀ e ∈ es, e.id ∉ t.nodes.map (·.id)) :
    ∃ ds, loadNodes library config (es.map (storeNode s)) t =
    .ok { t with nodes := t.nodes ++ ds } ∧ List.Forall₂ (fun d e =>
      loadNode library config (storeNode s e) = .ok d ∧ d.Copies e) ds es := by
  induction es generalizing t with
  | nil =>
    refine ⟨[], ?_, .nil⟩
    cases t
    simp [loadNodes]
  | cons e rest ih =>
    obtain ⟨⟨d, hd, hde⟩, hrest⟩ := List.forall_mem_cons.mp hload
    obtain ⟨hv, hvrest⟩ := List.forall_mem_cons.mp hvalid
    obtain ⟨he, hnewrest⟩ := List.forall_mem_cons.mp hnew
    obtain ⟨herest, hndrest⟩ := List.nodup_cons.mp hnd
    have hadd : t.addNode d = .ok { t with nodes := t.nodes ++ [d] } := by
      have hcontains : t.contains e.id = false := by
        rw [← Bool.not_eq_true, contains_iff]
        exact he
      rw [addNode, hde.id, hv, hcontains]
      rfl
    obtain ⟨ds, hds, hcopies⟩ := ih (t := { t with nodes := t.nodes ++ [d] }) hrest hvrest hndrest
      fun f hf => by
        rw [List.map_append, List.mem_append, not_or]
        refine ⟨hnewrest f hf, ?_⟩
        rw [List.map_singleton, List.mem_singleton, hde.id]
        exact fun h => herest (List.mem_map.mpr ⟨f, hf, h⟩)
    refine ⟨d :: ds, ?_, .cons ⟨hd, hde⟩ hcopies⟩
    rw [List.map_cons, loadNodes, hd]
    simp only [bind, Except.bind, hadd, hds, List.append_assoc, List.singleton_append]

/-- The snapshot of a graph is loaded as a copy, if those of its nodes are. -/
theorem load_toSnapshot {T : String → NodeType → Prop} {P : GraphState → Prop}
    (hs : s.OrderlyOver T Constraints.Plain P) (hwf : s.WellFormed)
    (hload : ∀ e ∈ s.nodes, ∃ d, loadNode library config (storeNode s e) = .ok d ∧ d.Copies e) :
    ∃ s₀, load library config s.toSnapshot = .ok s₀ ∧ s₀.links = s.links ∧
      List.Forall₂ (fun d e => loadNode library config (storeNode s e) = .ok d ∧ d.Copies e)
        s₀.nodes s.nodes := by
  obtain ⟨ds, hds, hloaded⟩ := loadNodes_of_copies (t := .empty) hload
    (fun e he => (hs.fit e he).valid) hs.distinct fun _ _ h => by cases h
  have hcopies : List.Forall₂ NodeEntry.Copies ds s.nodes := hloaded.imp fun _ _ => And.right
  obtain ⟨table, htable, hordered, hmem⟩ := linkAll_of_links (s := s) (t := ⟨ds, []⟩) hs.ordered
    List.Pairwise.nil (fun _ hl => by cases hl)
    (fun l (hl : l ∈ s.toSnapshot.links) => (mem_links_toSnapshot hwf).mp hl) fun l hl => by
      obtain ⟨p, q, hp, hq, hsource, hsink, -⟩ := hwf.linked l hl
      obtain ⟨p', hp', hpp⟩ := pad?_of_copies (t := ⟨ds, []⟩) hcopies hp
      obtain ⟨q', hq', hqq⟩ := pad?_of_copies (t := ⟨ds, []⟩) hcopies hq
      refine ⟨p', q', hp', hq', ?_, ?_⟩
      · rw [PadState.isSource, (PadState.outline_eq_iff.mp hpp.outline).2.1]
        exact hsource
      · rw [PadState.isSource, (PadState.outline_eq_iff.mp hqq.outline).2.1]
        exact hsink
  refine ⟨⟨ds, table⟩, ?_, hordered.eq_of_mem_iff hs.ordered fun l => ?_, hloaded⟩
  · rw [toSnapshot_eq, load, hds, ← toSnapshot_eq]
    exact htable
  · rw [hmem, mem_links_toSnapshot hwf]
    simp

end Patchbay.GraphState
