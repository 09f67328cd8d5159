import Patchbay.Proofs.Graph.Cut
import Patchbay.Proofs.Graph.FreshIds
import Patchbay.Proofs.Graph.Prefixes

/-!
# Dissolving a subgraph node

A subgraph node of an exact graph can always be dissolved (`dissolveSubgraph_spec`). The nodes
inside stand under new ids, which no node has that stays. The links inside follow them, and a link
of the dissolved node ends now where the target of its proxy has gone (`outwards`). No two links
come to the same sink that way: a proxy stands for a pad without links inside, and no two of them
for the same.
-/

/-!
## Moving nodes and links

The steps that a subgraph node is dissolved with. Taking a node out keeps the other nodes, up to
their marks of change (`removeNode_spec`). Nodes from elsewhere are always taken in, under valid
ids that are told apart from each other and from the ids that are there (`adoptNodes_spec`). Links
whose ends are translated to pads are put in, if no sink among them has a feeder already
(`relink_spec`).
-/

namespace Patchbay

/-- The node without its mark. Putting links in marks nodes as changed, and nothing else. -/
def NodeEntry.still (e : NodeEntry) : NodeEntry := { e with state := .unresolved }

/-- The node under the id that a naming gives it, with its pads and its body. -/
def NodeEntry.rename (name : String → String) (e : NodeEntry) : NodeEntry :=
  { e with id := name e.id }

namespace GraphState

variable {s s' t : GraphState} {e : NodeEntry} {name : String → String} {node : String}

/-! ### Marks of change -/

theorem map_still_foldl_unresolve (s : GraphState) (ids : List String) :
    (ids.foldl unresolve s).nodes.map (·.still) = s.nodes.map (·.still) := by
  induction ids generalizing s with
  | nil => rfl
  | cons id rest ih =>
    rw [List.foldl_cons, ih, unresolve, updateNode, map_updateFirst]
    exact fun _ => rfl

theorem links_foldl_unresolve (s : GraphState) (ids : List String) :
    (ids.foldl unresolve s).links = s.links := by
  induction ids generalizing s with
  | nil => rfl
  | cons id rest ih => exact ih _

/-- Ids do not depend on marks. -/
theorem map_id_of_still (h : s.nodes.map (·.still) = t.nodes.map (·.still)) :
    s.nodes.map (·.id) = t.nodes.map (·.id) := by
  have hids := congrArg (List.map (·.id)) h
  simpa only [List.map_map, Function.comp_def, NodeEntry.still] using hids

theorem node?_still (h : s.nodes.map (·.still) = t.nodes.map (·.still)) (id : String) :
    (s.node? id).map (·.still) = (t.node? id).map (·.still) := by
  have hfind : ∀ s : GraphState, (s.node? id).map (·.still) =
      (s.nodes.map (·.still)).find? fun e => e.id == id := by
    intro s
    rw [List.find?_map]
    rfl
  rw [hfind, hfind, h]

/-- Nor do pads. -/
theorem pad?_of_still (h : s.nodes.map (·.still) = t.nodes.map (·.still)) (r : PadRef) :
    s.pad? r = t.pad? r := by
  have hpad : ∀ s : GraphState, s.pad? r = ((s.node? r.node).map (·.still)).bind
      (·.pad? r.pad) := by
    intro s
    rw [Option.bind_map]
    rfl
  rw [hpad, hpad, node?_still h]

/-! ### Taking a node out -/

theorem eraseFirst_id_eq_filter {nodes : List NodeEntry} (hnd : (nodes.map (·.id)).Nodup)
    (id : String) :
    eraseFirst (fun e => e.id == id) nodes = nodes.filter fun e => e.id != id := by
  induction nodes with
  | nil => rfl
  | cons e rest ih =>
    obtain ⟨he, hrest⟩ := List.nodup_cons.mp hnd
    rw [eraseFirst, List.filter_cons]
    split
    · rename_i hid
      rw [beq_iff_eq] at hid
      have hothers : ∀ d ∈ rest, (d.id != id) = true := fun d hd => by
        rw [bne_iff_ne]
        exact fun h => he (List.mem_map.mpr ⟨d, hd, h.trans hid.symm⟩)
      rw [if_neg (by simp [hid]), List.filter_eq_self.mpr hothers]
    · rename_i hid
      rw [if_pos (by simpa using hid), ih hrest]

/-- A node that is there is taken out, and the others stay as they are, up to their marks. -/
theorem removeNode_spec (hnd : (s.nodes.map (·.id)).Nodup) (he : e ∈ s.nodes) :
    ∃ s', s.removeNode e.id = .ok (s', e) ∧
      s'.nodes.map (·.still) = (s.nodes.filter fun d => d.id != e.id).map (·.still) ∧
      s'.links = s.links.filter fun l => !touches e.id l := by
  rw [removeNode, node?_of_mem hnd he]
  refine ⟨_, rfl, ?_, links_foldl_unresolve _ _⟩
  rw [map_still_foldl_unresolve, eraseFirst_id_eq_filter hnd]

/-! ### Taking nodes in -/

/-- What taking nodes in leaves behind: the nodes that were there, and then the new ones under
their new ids, which are valid and free (`adoptNodes`). -/
structure Adopts (s : GraphState) (nodes : List NodeEntry) (name : String → String) : Prop where
  done : s.adoptNodes nodes = .ok ({ s with nodes := s.nodes ++ nodes.map (·.rename name) },
    nodes.map fun e => (e.id, name e.id))
  valid : ∀ e ∈ nodes, isValidNodeId (name e.id) = true
  distinct : ((s.nodes ++ nodes.map (·.rename name)).map (·.id)).Nodup

/-- Nodes with distinct ids can be given any other ids by a naming, so that a list of new ids is a
function. -/
theorem exists_naming {nodes : List NodeEntry} {ids : List String} (hnd : (nodes.map (·.id)).Nodup)
    (hlength : ids.length = nodes.length) : ∃ name : String → String,
    nodes.map (fun e => name e.id) = ids := by
  refine ⟨fun id => ids.getD ((nodes.map (·.id)).idxOf id) "",
    List.ext_getElem (by simp [hlength]) ?_⟩
  intro i hi hi'
  have hplace := hnd.idxOf_getElem i (by simpa using hi)
  rw [List.getElem_map] at hplace
  rw [List.getElem_map]
  dsimp only
  rw [hplace, List.getD_eq_getElem?_getD, List.getElem?_eq_getElem hi', Option.getD_some]

/-- Nodes are always taken in. -/
theorem adoptNodes_spec {nodes : List NodeEntry} (hs : (s.nodes.map (·.id)).Nodup)
    (hnd : (nodes.map (·.id)).Nodup) : ∃ name, s.Adopts nodes name := by
  obtain ⟨ids, hlength, hdone, hfresh, hids⟩ := s.exists_adoptNodes nodes
  obtain ⟨name, rfl⟩ := exists_naming hnd hlength
  have hnew : ∀ e ∈ nodes, s.Fresh (name e.id) :=
    fun e he => hfresh _ (List.mem_map.mpr ⟨e, he, rfl⟩)
  have hnames : (nodes.map (·.rename name)).map (·.id) = nodes.map fun e => name e.id := by
    rw [List.map_map]
    rfl
  refine ⟨name, ?_, fun e he => ?_, ?_⟩
  · rw [hdone, List.zipWith_map_right, List.zipWith_self, List.zip_map']
    rfl
  · obtain ⟨hne, hcolon, hslash, -⟩ := hnew e he
    exact isValidNodeId_iff.mpr ⟨hne, hcolon, hslash⟩
  · rw [List.map_append, hnames]
    refine List.nodup_append.mpr ⟨hs, hids, fun a ha b hb hab => ?_⟩
    obtain ⟨e, he, rfl⟩ := List.mem_map.mp hb
    have htaken := contains_iff.mpr (hab ▸ ha)
    exact absurd htaken (by simp [(hnew e he).free])

/-- The address of a pad of a node that was taken in. -/
theorem adoptedPad_eq {r : PadRef} (h : (s.node? r.node).isSome = true) :
    adoptedPad (s.nodes.map fun e => (e.id, name e.id)) r = .ok (r.mapNode name) := by
  obtain ⟨e, he⟩ := Option.isSome_iff_exists.mp h
  have hfind : (s.nodes.map fun e => (e.id, name e.id)).find? (fun x => x.1 == r.node) =
      some (e.id, name e.id) := by
    rw [List.find?_map]
    exact congrArg (Option.map fun e : NodeEntry => (e.id, name e.id)) he
  rw [adoptedPad, hfind, (node?_eq_some he).2]
  rfl

/-! ### Linking again -/

/-- Links whose ends are translated to a source and a sink without a feeder are put in. -/
theorem relink_spec {translate : PadRef → Except Error PadRef} {image : PadRef → PadRef}
    {links : List Link}
    (himage : ∀ l ∈ links, translate l.source = .ok (image l.source) ∧
      translate l.sink = .ok (image l.sink))
    (hsource : ∀ l ∈ links, (s.pad? (image l.source)).any (·.isSource) = true)
    (hsink : ∀ l ∈ links, (s.pad? (image l.sink)).any (!·.isSource) = true)
    (hfree : ∀ l ∈ links, ∀ k ∈ s.links, k.sink ≠ image l.sink)
    (hapart : links.Pairwise fun l l' => image l.sink ≠ image l'.sink) :
    ∃ s', s.relink translate links = .ok s' ∧ s'.nodes = s.nodes ∧
      ∀ k, k ∈ s'.links ↔ k ∈ s.links ∨ ∃ l ∈ links, k = l.map image := by
  induction links generalizing s with
  | nil => exact ⟨s, rfl, rfl, fun k => by simp⟩
  | cons l rest ih =>
    rw [List.forall_mem_cons] at himage hsource hsink hfree
    obtain ⟨hl, hrest⟩ := List.pairwise_cons.mp hapart
    let s₁ : GraphState := { s with links := insertLink (l.map image) s.links }
    have hmem : ∀ k, k ∈ s₁.links ↔ k = l.map image ∨ k ∈ s.links := fun k =>
      ⟨mem_insertLink, fun h => h.elim (fun h => h ▸ mem_insertLink_self _ _)
        fun h => mem_insertLink_of_ne h (hfree.1 k h)⟩
    have hlink : s.linkUnchecked (image l.source) (image l.sink) = .ok s₁ := by
      rw [linkUnchecked, orient_eq_ok hsource.1 hsink.1]
      simp only [bind, Except.bind, feeder_eq_none.mpr hfree.1]
      rfl
    obtain ⟨s', hdone, hnodes, hlinks⟩ := ih (s := s₁) himage.2 hsource.2 hsink.2
      (fun l' hl' k hk => by
        rcases (hmem k).mp hk with rfl | hk
        · exact hl l' hl'
        · exact hfree.2 l' hl' k hk) hrest
    refine ⟨s', ?_, hnodes, fun k => ?_⟩
    · rw [relink, himage.1.1, himage.1.2]
      simp only [bind, Except.bind]
      rw [hlink]
      exact hdone
    · rw [hlinks, hmem, or_assoc, or_left_comm, List.exists_mem_cons_iff]

end GraphState

end Patchbay

/-! ## Dissolving a subgraph node -/

namespace Patchbay.GraphState

/-- The graph with the nodes of a graph inside in place of a node, under new ids, without links.
These are put in one after the other (`relink_spec`). -/
def unpacked (s : GraphState) (node : String) (inner : GraphState) (name : String → String) :
    GraphState :=
  ⟨(s.nodes.filter fun d => d.id != node) ++ inner.nodes.map (·.rename name), []⟩

/-- The address of what a pad stands for, if it is one of the dissolved node; links from outside
are put in there. -/
def outwards (node : String) (name : String → String) (r : PadRef) : PadRef :=
  if r.node = node then (parseProxyPadId r.pad).elim r (·.mapNode name) else r

/-- The ids of the nodes that stay and the new ids of the nodes inside are valid and distinct, so
that all nodes can be taken in. -/
structure Naming (s : GraphState) (node : String) (inner : GraphState) (name : String → String) :
    Prop where
  valid : ∀ x ∈ inner.nodes, isValidNodeId (name x.id) = true
  distinct : ((s.unpacked node inner name).nodes.map (·.id)).Nodup

/-- The graph `s'` is `s` with a node dissolved, up to marks of change: the nodes of `unpacked`,
and the links that stay, those from inside, and those that ended at the node, led outwards. -/
structure Dissolved (s : GraphState) (node : String) (inner : GraphState) (name : String → String)
    (s' : GraphState) : Prop where
  naming : s.Naming node inner name
  nodes : s'.nodes.map (·.still) = (s.unpacked node inner name).nodes.map (·.still)
  links : ∀ k, k ∈ s'.links ↔ (∃ l ∈ s.links, k = l.map (outwards node name)) ∨
    ∃ l ∈ inner.links, k = l.map (·.mapNode name)

/-- The nodes inside got their ids when they were taken in (`adoptNodes`), and stand under them. -/
structure Named (s : GraphState) (node : String) (inner : GraphState) (name : String → String)
    (s' : GraphState) : Prop where
  given : ∃ s₁ d s₂, s.removeNode node = .ok (s₁, d) ∧
    s₁.adoptNodes inner.nodes = .ok (s₂, inner.nodes.map fun x => (x.id, name x.id))
  found : ∀ x ∈ inner.nodes, s'.node? (name x.id) = some (x.rename name)

variable {s s' inner : GraphState} {e d x y : NodeEntry} {id : Option String} {node : String}
  {name : String → String} {r r' : PadRef} {p p' : PadState} {l k : Link}

/-! ### New ids -/

namespace Naming

variable (h : s.Naming node inner name)

include h

theorem name_ne (hd : d ∈ s.nodes) (hne : d.id ≠ node) (hx : x ∈ inner.nodes) :
    name x.id ≠ d.id := by
  have hdistinct := h.distinct
  rw [unpacked, List.map_append, List.nodup_append] at hdistinct
  have hstay : d.id ∈ (s.nodes.filter fun d => d.id != node).map (·.id) :=
    List.mem_map_of_mem (List.mem_filter.mpr ⟨hd, by simpa using hne⟩)
  have hnew : name x.id ∈ (inner.nodes.map (·.rename name)).map (·.id) :=
    List.mem_map.mpr ⟨x.rename name, List.mem_map_of_mem hx, rfl⟩
  exact fun heq => hdistinct.2.2 _ hstay _ hnew heq.symm

theorem name_inj (hx : x ∈ inner.nodes) (hy : y ∈ inner.nodes) (heq : name x.id = name y.id) :
    x.id = y.id := by
  have hdistinct := h.distinct
  rw [unpacked, List.map_append, List.nodup_append, List.map_map] at hdistinct
  rw [List.inj_on_of_nodup_map hdistinct.2.1 hx hy heq]

theorem node?_stays (hd : d ∈ s.nodes) (hne : d.id ≠ node) :
    (s.unpacked node inner name).node? d.id = some d :=
  node?_of_mem h.distinct (List.mem_append_left _ (List.mem_filter.mpr ⟨hd, by simpa using hne⟩))

theorem node?_renamed (hx : x ∈ inner.nodes) :
    (s.unpacked node inner name).node? (name x.id) = some (x.rename name) :=
  node?_of_mem h.distinct (e := x.rename name) (List.mem_append_right _ (List.mem_map_of_mem hx))

/-- The pads of a node that stays. -/
theorem pad?_stays (hp : s.pad? r = some p) (hne : r.node ≠ node) :
    (s.unpacked node inner name).pad? r = some p := by
  obtain ⟨d, hd, hpd⟩ := Option.bind_eq_some_iff.mp hp
  obtain ⟨hmem, hid⟩ := node?_eq_some hd
  rw [pad?, ← hid, h.node?_stays hmem (hid ▸ hne)]
  exact hpd

/-- The pads of a node from inside. -/
theorem pad?_renamed (hp : inner.pad? r = some p) :
    (s.unpacked node inner name).pad? (r.mapNode name) = some p := by
  obtain ⟨x, hx, hpx⟩ := Option.bind_eq_some_iff.mp hp
  obtain ⟨hmem, hid⟩ := node?_eq_some hx
  rw [pad?, PadRef.mapNode, ← hid, h.node?_renamed hmem]
  exact hpx

theorem mapNode_inj (hp : inner.pad? r = some p) (hp' : inner.pad? r' = some p')
    (heq : r.mapNode name = r'.mapNode name) : r = r' := by
  obtain ⟨x, hx, hid, -⟩ := pad?_eq_some hp
  obtain ⟨y, hy, hid', -⟩ := pad?_eq_some hp'
  rw [PadRef.mapNode, PadRef.mapNode, PadRef.mk.injEq, ← hid, ← hid'] at heq
  have hnode : r.node = r'.node := by rw [← hid, ← hid', h.name_inj hx hy heq.1]
  cases r
  cases r'
  exact congrArg₂ _ hnode heq.2

/-- A pad that stays is none from inside. -/
theorem mapNode_ne (hp : s.pad? r = some p) (hr : r.node ≠ node) {q : PadRef} {d : PadState}
    (hd : inner.pad? q = some d) : q.mapNode name ≠ r := by
  obtain ⟨f, hf, hid, -⟩ := pad?_eq_some hp
  obtain ⟨x, hx, hxid, -⟩ := pad?_eq_some hd
  have hne := h.name_ne hf (hid ▸ hr) hx
  rw [hid, hxid] at hne
  exact fun heq => hne (congrArg PadRef.node heq)

end Naming

/-! ### Outwards -/

theorem outwards_of_ne (name : String → String) (h : r.node ≠ node) : outwards node name r = r :=
  if_neg h

/-- Only the links of the dissolved node end elsewhere. -/
theorem exists_map_outwards (links : List Link) : (∃ l ∈ links, k = l.map (outwards node name)) ↔
    k ∈ links.filter (fun l => !touches node l) ∨
      ∃ l ∈ links.filter (touches node), k = l.map (outwards node name) := by
  have hstays : ∀ l, touches node l = false → l.map (outwards node name) = l := by
    intro l hl
    rw [touches, Bool.or_eq_false_iff, beq_eq_false_iff_ne, beq_eq_false_iff_ne] at hl
    rw [Link.map, outwards_of_ne name hl.1, outwards_of_ne name hl.2]
  simp only [List.mem_filter, Bool.not_eq_true']
  constructor
  · rintro ⟨l, hl, rfl⟩
    cases ht : touches node l with
    | true => exact .inr ⟨l, ⟨hl, ht⟩, rfl⟩
    | false => exact .inl (by rw [hstays l ht]; exact ⟨hl, ht⟩)
  · rintro (⟨hk, ht⟩ | ⟨l, ⟨hl, -⟩, rfl⟩)
    · exact ⟨k, hk, (hstays k ht).symm⟩
    · exact ⟨l, hl, rfl⟩

section

variable (hs : s.Everywhere Exact) (he : e ∈ s.nodes) (hb : e.body = .subgraph id inner)

include hs he hb

/-- A pad of the dissolved node stands for one inside, which its id tells (`parseProxyPadId`). -/
theorem exists_target (hp : s.pad? r = some p) (hr : r.node = e.id) : ∃ q d,
    parseProxyPadId r.pad = some q ∧ p.proxy = some q ∧ p.Mirrors q d ∧ inner.pad? q = some d ∧
      inner.Unlinked q := by
  obtain ⟨f, hf, hid, hpf, hpid⟩ := pad?_eq_some hp
  obtain rfl := eq_of_id_eq hs hf he (hid.trans hr)
  have hin := hs.body he id inner hb
  obtain ⟨q, d, hq, hd, hun⟩ :=
    mirrors_target hin.self.wellFormed (hs.self.mirrored f he id inner hb) hpf
  refine ⟨q, d, parseProxyPadId_eq_some_iff.mpr ⟨hpid ▸ hq.id, ?_⟩, hq.proxy, hq, hd, hun⟩
  obtain ⟨x, hx, hxid, -⟩ := pad?_eq_some hd
  exact hxid ▸ (hin.self.wellFormed.validIds x hx).2.1

/-- Outwards a pad stays what it is, or becomes its target, under the new id. -/
theorem outwards_cases (name : String → String) (hp : s.pad? r = some p) :
    (r.node ≠ e.id ∧ outwards e.id name r = r) ∨ ∃ q d, r.node = e.id ∧
      outwards e.id name r = q.mapNode name ∧ p.Mirrors q d ∧ inner.pad? q = some d ∧
        inner.Unlinked q := by
  by_cases hr : r.node = e.id
  · obtain ⟨q, d, hparse, -, hq, hd, hun⟩ := exists_target hs he hb hp hr
    exact .inr ⟨q, d, hr, by rw [outwards, if_pos hr, hparse]; rfl, hq, hd, hun⟩
  · exact .inl ⟨hr, if_neg hr⟩

theorem throughProxy_eq (hp : s.pad? r = some p) :
    throughProxy (inner.nodes.map fun x => (x.id, name x.id)) e.id r =
    .ok (outwards e.id name r) := by
  rw [throughProxy]
  split
  · rename_i hne
    rw [outwards_of_ne name hne]
  · rename_i hr
    rw [not_not] at hr
    obtain ⟨q, d, hparse, -, -, hd, -⟩ := exists_target hs he hb hp hr
    obtain ⟨x, hx, -⟩ := Option.bind_eq_some_iff.mp hd
    rw [outwards, if_pos hr, hparse]
    exact adoptedPad_eq (Option.isSome_iff_exists.mpr ⟨x, hx⟩)

variable (h : s.Naming e.id inner name)

include h

/-- Outwards there is a pad of the same direction. -/
theorem pad?_outwards (hp : s.pad? r = some p) : ∃ p',
    (s.unpacked e.id inner name).pad? (outwards e.id name r) = some p' ∧
    p'.isSource = p.isSource := by
  rcases outwards_cases hs he hb name hp with ⟨hne, heq⟩ | ⟨q, d, -, heq, hq, hd, -⟩
  · exact ⟨p, by rw [heq, h.pad?_stays hp hne], rfl⟩
  · exact ⟨d, by rw [heq, h.pad?_renamed hd], congrArg PadType.isSource hq.padType.symm⟩

/-- No two pads come to the same one outwards, so that a sink that had one feeder has one still. -/
theorem outwards_inj (hp : s.pad? r = some p) (hp' : s.pad? r' = some p')
    (heq : outwards e.id name r = outwards e.id name r') : r = r' := by
  rcases outwards_cases hs he hb name hp with ⟨hr, hout⟩ | ⟨q, d, hr, hout, hq, hd, -⟩ <;>
    rcases outwards_cases hs he hb name hp' with ⟨hr', hout'⟩ | ⟨q', d', hr', hout', hq', hd',
      -⟩ <;>
    rw [hout, hout'] at heq
  · exact heq
  · exact absurd heq.symm (h.mapNode_ne hp hr hd')
  · exact absurd heq (h.mapNode_ne hp' hr' hd)
  · -- proxies of the same target have the same id
    obtain rfl := h.mapNode_inj hd hd' heq
    obtain ⟨-, -, -, -, hpid⟩ := pad?_eq_some hp
    obtain ⟨-, -, -, -, hpid'⟩ := pad?_eq_some hp'
    have hpads : r.pad = r'.pad := by rw [← hpid, ← hpid', hq.id, hq'.id]
    cases r
    cases r'
    exact congrArg₂ _ (hr.trans hr'.symm) hpads

/-- What is linked inside is not come to from outside: only pads without links are exposed. -/
theorem outwards_ne (hp : s.pad? r = some p) (hl : l ∈ inner.links) :
    outwards e.id name r ≠ l.sink.mapNode name := by
  obtain ⟨-, c, -, hc, -⟩ := (hs.body he id inner hb).self.wellFormed.linked l hl
  rcases outwards_cases hs he hb name hp with ⟨hr, hout⟩ | ⟨q, d, -, hout, -, hd, hun⟩ <;>
    rw [hout]
  · exact (h.mapNode_ne hp hr hc).symm
  · intro heq
    exact (hun l hl).2 (h.mapNode_inj hc hd heq.symm)

/-! ### The dissolved graph -/

/-- The links inside can be put in. -/
theorem relink_inner {t : GraphState}
    (hnodes : t.nodes.map (·.still) = (s.unpacked e.id inner name).nodes.map (·.still))
    (hlinks : t.links = s.links.filter fun l => !touches e.id l) :
    ∃ t', t.relink (adoptedPad (inner.nodes.map fun x => (x.id, name x.id))) inner.links = .ok t' ∧
      t'.nodes = t.nodes ∧ ∀ k, k ∈ t'.links ↔ k ∈ t.links ∨
        ∃ l ∈ inner.links, k = l.map (·.mapNode name) := by
  have hin := hs.body he id inner hb
  have hadopted : ∀ {r p}, inner.pad? r = some p →
      adoptedPad (inner.nodes.map fun x => (x.id, name x.id)) r = .ok (r.mapNode name) := by
    intro r p hp
    obtain ⟨x, hx, -⟩ := Option.bind_eq_some_iff.mp hp
    exact adoptedPad_eq (Option.isSome_iff_exists.mpr ⟨x, hx⟩)
  refine relink_spec (fun l hl => ?_) (fun l hl => ?_) (fun l hl => ?_) (fun l hl k hk => ?_) ?_
  · obtain ⟨p, q, hp, hq, -⟩ := hin.self.wellFormed.linked l hl
    exact ⟨hadopted hp, hadopted hq⟩
  · obtain ⟨p, q, hp, -, hsource, -⟩ := hin.self.wellFormed.linked l hl
    rw [pad?_of_still hnodes, h.pad?_renamed hp]
    exact hsource
  · obtain ⟨p, q, -, hq, -, hsink, -⟩ := hin.self.wellFormed.linked l hl
    rw [pad?_of_still hnodes, h.pad?_renamed hq, Option.any_some, hsink]
    rfl
  · rw [hlinks, List.mem_filter] at hk
    obtain ⟨hk, hstays⟩ := hk
    obtain ⟨-, q, -, hq, -⟩ := hs.self.wellFormed.linked k hk
    have hne : k.sink.node ≠ e.id := fun heq => by simp [touches, heq] at hstays
    rw [← outwards_of_ne name hne]
    exact outwards_ne hs he hb h hq hl
  · refine hin.self.ordered.imp_of_mem fun {l l'} hl hl' hlt heq => PadRef.ne_of_lt hlt ?_
    obtain ⟨-, q, -, hq, -⟩ := hin.self.wellFormed.linked l hl
    obtain ⟨-, q', -, hq', -⟩ := hin.self.wellFormed.linked l' hl'
    exact h.mapNode_inj hq hq' heq

/-- So can the links of the dissolved node, after them. -/
theorem relink_outer {t : GraphState}
    (hnodes : t.nodes.map (·.still) = (s.unpacked e.id inner name).nodes.map (·.still))
    (hlinks : ∀ k, k ∈ t.links ↔ k ∈ s.links.filter (fun l => !touches e.id l) ∨
      ∃ l ∈ inner.links, k = l.map (·.mapNode name)) :
    ∃ t', t.relink (throughProxy (inner.nodes.map fun x => (x.id, name x.id)) e.id)
        (s.links.filter (touches e.id)) = .ok t' ∧ t'.nodes = t.nodes ∧
      ∀ k, k ∈ t'.links ↔ k ∈ t.links ∨
        ∃ l ∈ s.links.filter (touches e.id), k = l.map (outwards e.id name) := by
  have hmem : ∀ {l}, l ∈ s.links.filter (touches e.id) → l ∈ s.links :=
    fun hl => (List.mem_filter.mp hl).1
  refine relink_spec (fun l hl => ?_) (fun l hl => ?_) (fun l hl => ?_) (fun l hl k hk => ?_) ?_
  · obtain ⟨p, q, hp, hq, -⟩ := hs.self.wellFormed.linked l (hmem hl)
    exact ⟨throughProxy_eq hs he hb hp, throughProxy_eq hs he hb hq⟩
  · obtain ⟨p, q, hp, -, hsource, -⟩ := hs.self.wellFormed.linked l (hmem hl)
    obtain ⟨p', hp', hdir⟩ := pad?_outwards hs he hb h hp
    rw [pad?_of_still hnodes, hp', Option.any_some, hdir, hsource]
  · obtain ⟨p, q, -, hq, -, hsink, -⟩ := hs.self.wellFormed.linked l (hmem hl)
    obtain ⟨q', hq', hdir⟩ := pad?_outwards hs he hb h hq
    rw [pad?_of_still hnodes, hq', Option.any_some, hdir, hsink]
    rfl
  · obtain ⟨-, q, -, hq, -⟩ := hs.self.wellFormed.linked l (hmem hl)
    rcases (hlinks k).mp hk with hk | ⟨m, hm, rfl⟩
    · -- a link that stays has another sink, which stays what it is
      obtain ⟨hk, hstays⟩ := List.mem_filter.mp hk
      obtain ⟨-, c, -, hc, -⟩ := hs.self.wellFormed.linked k hk
      have hne : k.sink.node ≠ e.id := fun heq => by simp [touches, heq] at hstays
      rw [← outwards_of_ne name hne]
      intro heq
      obtain rfl := hs.self.ordered.eq_of_sink_eq hk (hmem hl) (outwards_inj hs he hb h hc hq heq)
      simp [(List.mem_filter.mp hl).2] at hstays
    · exact (outwards_ne hs he hb h hq hm).symm
  · refine (hs.self.ordered.filter _).imp_of_mem fun {l l'} hl hl' hlt heq =>
      PadRef.ne_of_lt hlt ?_
    obtain ⟨-, q, -, hq, -⟩ := hs.self.wellFormed.linked l (hmem hl)
    obtain ⟨-, q', -, hq', -⟩ := hs.self.wellFormed.linked l' (hmem hl')
    exact outwards_inj hs he hb h hq hq' heq

omit h in
/-- A subgraph node can be dissolved, and what comes of it is the graph with the node dissolved
(`Dissolved`), under the names that were given (`Named`). -/
theorem dissolveSubgraph_spec : ∃ s' name, s.dissolveSubgraph e.id = .ok s' ∧
    s.Named e.id inner name s' ∧ s.Dissolved e.id inner name s' := by
  have hnd := hs.self.wellFormed.distinctNodes
  have hin := (hs.body he id inner hb).self.wellFormed
  obtain ⟨s₁, hremove, hnodes₁, hlinks₁⟩ := removeNode_spec hnd he
  have hnd₁ : (s₁.nodes.map (·.id)).Nodup := by
    rw [map_id_of_still (t := ⟨s.nodes.filter fun d => d.id != e.id, []⟩) hnodes₁]
    exact (List.filter_sublist.map _).nodup hnd
  obtain ⟨name, hadopt, hvalid, hdistinct⟩ := adoptNodes_spec hnd₁ hin.distinctNodes
  let s₂ : GraphState := { s₁ with nodes := s₁.nodes ++ inner.nodes.map (·.rename name) }
  have hnodes₂ : s₂.nodes.map (·.still) = (s.unpacked e.id inner name).nodes.map (·.still) := by
    rw [unpacked, List.map_append, List.map_append, hnodes₁]
  have hnaming : s.Naming e.id inner name := ⟨hvalid, map_id_of_still hnodes₂ ▸ hdistinct⟩
  obtain ⟨s₃, hinner, hnodes₃, hlinks₃⟩ := relink_inner hs he hb hnaming hnodes₂ hlinks₁
  have hlinks₃' : ∀ k, k ∈ s₃.links ↔ k ∈ s.links.filter (fun l => !touches e.id l) ∨
      ∃ l ∈ inner.links, k = l.map (·.mapNode name) := fun k => hlinks₁ ▸ hlinks₃ k
  obtain ⟨s₄, houter, hnodes₄, hlinks₄⟩ :=
    relink_outer hs he hb hnaming (hnodes₃ ▸ hnodes₂) hlinks₃'
  have hnodes : s₄.nodes = s₂.nodes := hnodes₄.trans hnodes₃
  refine ⟨s₄, name, ?_, ⟨⟨s₁, e, s₂, hremove, hadopt⟩, fun x hx => ?_⟩, hnaming, hnodes ▸ hnodes₂,
    fun k => ?_⟩
  · rw [dissolveSubgraph, node?_of_mem hnd he]
    simp only [hb, hremove, hadopt, bind, Except.bind]
    rw [hinner]
    exact houter
  · refine node?_of_mem (hnodes ▸ hdistinct) (e := x.rename name) ?_
    rw [hnodes]
    exact List.mem_append_right _ (List.mem_map_of_mem hx)
  · rw [hlinks₄, hlinks₃', exists_map_outwards s.links, or_right_comm]

end

end Patchbay.GraphState
