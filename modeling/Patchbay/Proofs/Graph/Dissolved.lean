import Patchbay.Proofs.Graph.Dissolving
import Patchbay.Proofs.Graph.FixedPoint

/-!
# Dissolving a subgraph node does not change what runs

When a subgraph node of a graph that was resolved is dissolved, the flat form stays the same up to
ids (`dissolveSubgraph_unchanged`): where an id led through the node to one inside, it begins with
the new id of that one (`movedId`). Every pad outwards has the flat address that it had before,
moved that way (`Dissolved.flatAddress_outwards`), so every link comes to the same pads as before.
-/

namespace Patchbay.GraphState

variable {s s' inner : GraphState} {e d x y : NodeEntry} {id : Option String} {node : String}
  {name : String → String} {r r' : PadRef} {p p' : PadState} {l k : Link} {n : FlatNode}
  {m path : String}

/-! ### Moved ids -/

/-- The flat id with the part that leads through a node to one inside replaced by the new id of
that one. All other ids stay. -/
def movedId (node : String) (name : String → String) (id : String) : String :=
  match splitFirst '/' id.toList with
  | none => id
  | some (first, rest) =>
    if String.ofList first ≠ node then id
    else
      match splitFirst '/' rest with
      | none => name (String.ofList rest)
      | some (second, tail) => name (String.ofList second) ++ "/" ++ String.ofList tail

theorem movedId_inside (hnode : '/' ∉ node.toList) {x : String} (hx : '/' ∉ x.toList)
    (hm : IsTail m) :
    movedId node name (node ++ "/" ++ x ++ m) = name x ++ m := by
  have hfirst : splitFirst '/' (node ++ "/" ++ x ++ m).toList =
      some (node.toList, (x ++ m).toList) := by
    have happend := splitFirst_append hnode (x ++ m).toList
    simpa [String.toList_append] using happend
  rw [movedId, hfirst]
  simp only [String.ofList_toList, ne_eq, not_true_eq_false, if_false]
  rcases hm with rfl | ⟨rest, rfl⟩
  · rw [String.append_empty, splitFirst_eq_none_iff.mpr hx]
    simp
  · have hsecond : splitFirst '/' (x ++ ("/" ++ rest)).toList = some (x.toList, rest.toList) := by
      have happend := splitFirst_append hx rest.toList
      simpa [String.toList_append] using happend
    rw [hsecond]
    simp [String.append_assoc]

theorem movedId_outside {id : String} (h : ∀ rest, id ≠ node ++ "/" ++ rest) :
    movedId node name id = id := by
  rw [movedId]
  split
  · rfl
  · rename_i first rest hsplit
    refine if_pos fun hfirst => h (String.ofList rest) (String.toList_inj.mp ?_)
    rw [(splitFirst_eq_some_iff.mp hsplit).1, ← hfirst]
    simp

/-- The ids under another node do not lead through this one. -/
theorem append_tail_ne (hd : '/' ∉ d.id.toList) (hnode : '/' ∉ node.toList) (hne : d.id ≠ node)
    (hm : IsTail m) (rest : String) : d.id ++ m ≠ node ++ "/" ++ rest := by
  rw [String.append_assoc]
  exact fun heq => hne (eq_of_append_tail hd hnode hm (.inr ⟨rest, rfl⟩) heq).1

/-! ### Without marks -/

theorem exists_mem_of_still {t : GraphState} (h : s.nodes.map (·.still) = t.nodes.map (·.still))
    {P : NodeEntry → Prop} (hP : ∀ d, P d.still ↔ P d) : (∃ d ∈ s.nodes, P d) ↔ ∃ d ∈ t.nodes,
    P d := by
  have hmap : ∀ s : GraphState, (∃ d ∈ s.nodes, P d) ↔ ∃ d ∈ s.nodes.map (·.still), P d := by
    intro s
    simp only [List.mem_map, exists_exists_and_eq_and, hP]
  rw [hmap, hmap, h]

/-- Flat addresses do not depend on marks of change. -/
theorem flatAddress_of_still {t : GraphState} (h : s.nodes.map (·.still) = t.nodes.map (·.still))
    (path : String) (r : PadRef) : s.flatAddress path r = t.flatAddress path r := by
  have haddress : ∀ s : GraphState, s.flatAddress path r = ((s.node? r.node).map (·.still)).bind
      fun e => (e.flatPad r.pad).map (·.mapNode (path ++ r.node ++ ·)) := by
    intro s
    rw [flatAddress_eq_flatPad, Option.bind_map]
    rfl
  rw [haddress, haddress, node?_still h]

/-! ### Parts of flat forms -/

theorem exists_unpacked {P : NodeEntry → Prop} : (∃ d ∈ (s.unpacked node inner name).nodes, P d) ↔
    (∃ d ∈ s.nodes, d.id ≠ node ∧ P d) ∨ ∃ x ∈ inner.nodes, P (x.rename name) := by
  simp only [unpacked, List.mem_append, or_and_right, exists_or, List.mem_filter, List.mem_map,
    bne_iff_ne, and_assoc, exists_exists_and_eq_and]

/-- The ids that lead to the parts of the flat form are moved to those that lead there afterwards
(`movedId`). -/
structure Moves (s : GraphState) (node : String) (inner : GraphState) (name : String → String) :
    Prop where
  stays : ∀ d ∈ s.nodes, d.id ≠ node → ∀ m, IsTail m → movedId node name (d.id ++ m) = d.id ++ m
  inside : ∀ x ∈ inner.nodes, ∀ m, IsTail m →
    movedId node name (node ++ "/" ++ x.id ++ m) = name x.id ++ m

namespace Moves

variable (h : s.Moves node inner name)

include h

theorem mapId_stays (hd : d ∈ s.nodes) (hne : d.id ≠ node) (hn : n ∈ d.flat.nodes) :
    (n.mapId (d.id ++ ·)).mapId (movedId node name) = n.mapId (d.id ++ ·) := by
  have hid := h.stays d hd hne n.id (NodeEntry.isTail_of_mem_nodes hn)
  rw [FlatNode.mapId, FlatNode.mapId, hid]

theorem mapId_inside (hx : x ∈ inner.nodes) (hn : n ∈ x.flat.nodes) :
    (n.mapId (node ++ "/" ++ x.id ++ ·)).mapId (movedId node name) = n.mapId (name x.id ++ ·) := by
  have hid := h.inside x hx n.id (NodeEntry.isTail_of_mem_nodes hn)
  rw [FlatNode.mapId, FlatNode.mapId, FlatNode.mapId, hid]

theorem map_stays (hd : d ∈ s.nodes) (hne : d.id ≠ node) (hl : l ∈ d.flat.links) :
    (l.map (·.mapNode (d.id ++ ·))).map (·.mapNode (movedId node name)) =
      l.map (·.mapNode (d.id ++ ·)) := by
  obtain ⟨hsource, hsink⟩ := NodeEntry.isTail_of_mem_links hl
  simp only [Link.map, PadRef.mapNode, h.stays d hd hne _ hsource, h.stays d hd hne _ hsink]

theorem map_inside (hx : x ∈ inner.nodes) (hl : l ∈ x.flat.links) :
    (l.map (·.mapNode (node ++ "/" ++ x.id ++ ·))).map (·.mapNode (movedId node name)) =
      l.map (·.mapNode (name x.id ++ ·)) := by
  obtain ⟨hsource, hsink⟩ := NodeEntry.isTail_of_mem_links hl
  simp only [Link.map, PadRef.mapNode, h.inside x hx _ hsource, h.inside x hx _ hsink]

end Moves

section

variable (hs : s.Everywhere Exact) (he : e ∈ s.nodes) (hb : e.body = .subgraph id inner)

include hs he

theorem exists_node_iff {P : NodeEntry → Prop} :
    (∃ d ∈ s.nodes, P d) ↔ (∃ d ∈ s.nodes, d.id ≠ e.id ∧ P d) ∨ P e := by
  constructor
  · rintro ⟨d, hd, hP⟩
    by_cases hid : d.id = e.id
    · exact .inr (eq_of_id_eq hs hd he hid ▸ hP)
    · exact .inl ⟨d, hd, hid, hP⟩
  · rintro (⟨d, hd, -, hP⟩ | hP)
    · exact ⟨d, hd, hP⟩
    · exact ⟨e, he, hP⟩

include hb

theorem moves (name : String → String) : s.Moves e.id inner name where
  stays d hd hne _ hm := movedId_outside
    (append_tail_ne (hs.self.wellFormed.validIds d hd).2.2 (hs.self.wellFormed.validIds e he).2.2
      hne hm)
  inside x hx _ hm := movedId_inside (hs.self.wellFormed.validIds e he).2.2
    ((hs.body he id inner hb).self.wellFormed.validIds x hx).2.2 hm

/-- The flat nodes before. -/
theorem mem_flatten_nodes_iff : n ∈ s.flatten.nodes ↔
    (∃ d ∈ s.nodes, d.id ≠ e.id ∧ ∃ m ∈ d.flat.nodes, n = m.mapId (d.id ++ ·)) ∨
      ∃ x ∈ inner.nodes, ∃ m ∈ x.flat.nodes, n = m.mapId (e.id ++ "/" ++ x.id ++ ·) := by
  have hinside : (∃ m ∈ e.flat.nodes, n = m.mapId (e.id ++ ·)) ↔
      n ∈ (inner.flattenAt (e.id ++ "/")).nodes := by
    have hbody := flattenBody_eq e e.id
    rw [hb, flattenBody] at hbody
    simp only [hbody, FlatGraph.mapIds, List.mem_map, eq_comm]
  rw [flatten, mem_flattenAt_nodes_iff, exists_node_iff hs he]
  simp only [String.empty_append, hinside, mem_flattenAt_nodes_iff]

/-- The flat links before. -/
theorem mem_flatten_links_iff : k ∈ s.flatten.links ↔
    ((∃ d ∈ s.nodes, d.id ≠ e.id ∧ ∃ l ∈ d.flat.links, k = l.map (·.mapNode (d.id ++ ·))) ∨
      (∃ x ∈ inner.nodes, ∃ l ∈ x.flat.links, k = l.map (·.mapNode (e.id ++ "/" ++ x.id ++ ·))) ∨
        ∃ l ∈ inner.links, inner.flatLink (e.id ++ "/") l = some k) ∨
      ∃ l ∈ s.links, s.flatLink "" l = some k := by
  have hinside : (∃ l ∈ e.flat.links, k = l.map (·.mapNode (e.id ++ ·))) ↔
      k ∈ (inner.flattenAt (e.id ++ "/")).links := by
    have hbody := flattenBody_eq e e.id
    rw [hb, flattenBody] at hbody
    simp only [hbody, FlatGraph.mapIds, List.mem_map, eq_comm]
  rw [flatten, mem_flattenAt_links_iff, exists_node_iff hs he]
  simp only [String.empty_append, hinside, mem_flattenAt_links_iff]

end

namespace Dissolved

variable (h : s.Dissolved node inner name s')

include h

/-- The flat nodes afterwards. -/
theorem mem_flatten_nodes_iff : n ∈ s'.flatten.nodes ↔
    (∃ d ∈ s.nodes, d.id ≠ node ∧ ∃ m ∈ d.flat.nodes, n = m.mapId (d.id ++ ·)) ∨
      ∃ x ∈ inner.nodes, ∃ m ∈ x.flat.nodes, n = m.mapId (name x.id ++ ·) := by
  rw [flatten, mem_flattenAt_nodes_iff, exists_mem_of_still h.nodes fun _ => Iff.rfl,
    exists_unpacked]
  simp only [String.empty_append]
  rfl

theorem exists_link_iff {P : Link → Prop} : (∃ l ∈ s'.links, P l) ↔
    (∃ l ∈ s.links, P (l.map (outwards node name))) ∨ ∃ l ∈ inner.links,
    P (l.map (·.mapNode name)) := by
  constructor
  · rintro ⟨k, hk, hP⟩
    rcases (h.links k).mp hk with ⟨l, hl, rfl⟩ | ⟨l, hl, rfl⟩
    · exact .inl ⟨l, hl, hP⟩
    · exact .inr ⟨l, hl, hP⟩
  · rintro (⟨l, hl, hP⟩ | ⟨l, hl, hP⟩)
    · exact ⟨_, (h.links _).mpr (.inl ⟨l, hl, rfl⟩), hP⟩
    · exact ⟨_, (h.links _).mpr (.inr ⟨l, hl, rfl⟩), hP⟩

/-- The flat links afterwards. -/
theorem mem_flatten_links_iff : k ∈ s'.flatten.links ↔
    ((∃ d ∈ s.nodes, d.id ≠ node ∧ ∃ l ∈ d.flat.links, k = l.map (·.mapNode (d.id ++ ·))) ∨
      ∃ x ∈ inner.nodes, ∃ l ∈ x.flat.links, k = l.map (·.mapNode (name x.id ++ ·))) ∨
      (∃ l ∈ s.links, s'.flatLink "" (l.map (outwards node name)) = some k) ∨
        ∃ l ∈ inner.links, s'.flatLink "" (l.map (·.mapNode name)) = some k := by
  rw [flatten, mem_flattenAt_links_iff, exists_mem_of_still h.nodes fun _ => Iff.rfl,
    exists_unpacked, h.exists_link_iff]
  simp only [String.empty_append]
  rfl

variable (hmoves : s.Moves node inner name)

include hmoves

/-- A pad from inside has the flat address that it had before, moved. -/
theorem flatAddress_renamed (hp : inner.pad? r = some p) : s'.flatAddress "" (r.mapNode name) =
    (inner.flatAddress (node ++ "/") r).map (·.mapNode (movedId node name)) := by
  obtain ⟨x, hx, -⟩ := Option.bind_eq_some_iff.mp hp
  obtain ⟨hmem, hid⟩ := node?_eq_some hx
  rw [flatAddress_of_still h.nodes, flatAddress_eq_flatPad, flatAddress_eq_flatPad, hx,
    PadRef.mapNode, ← hid,
    h.naming.node?_renamed hmem, Option.bind_some, Option.bind_some, Option.map_map]
  refine Option.map_congr fun q hq => ?_
  have hmoved := hmoves.inside x hmem q.node (NodeEntry.isTail_of_flatPad hq)
  rw [Function.comp_apply, PadRef.mapNode, PadRef.mapNode, PadRef.mapNode, hmoved,
    String.empty_append]

/-- So has a pad of a node that stays. -/
theorem flatAddress_stays (hp : s.pad? r = some p) (hne : r.node ≠ node) : s'.flatAddress "" r =
    (s.flatAddress "" r).map (·.mapNode (movedId node name)) := by
  obtain ⟨d, hd, -⟩ := Option.bind_eq_some_iff.mp hp
  obtain ⟨hmem, hid⟩ := node?_eq_some hd
  rw [flatAddress_of_still h.nodes, flatAddress_eq_flatPad, flatAddress_eq_flatPad, hd, ← hid,
    h.naming.node?_stays hmem (hid ▸ hne), Option.bind_some, Option.map_map]
  refine Option.map_congr fun q hq => ?_
  have hmoved := hmoves.stays d hmem (hid ▸ hne) q.node (NodeEntry.isTail_of_flatPad hq)
  rw [Function.comp_apply, PadRef.mapNode, PadRef.mapNode, String.empty_append, hmoved]

end Dissolved

/-! ### What stays the same -/

section

variable (hs : s.Everywhere Exact) (he : e ∈ s.nodes) (hb : e.body = .subgraph id inner)
  (h : s.Dissolved e.id inner name s')

include hs he hb h

/-- Outwards a pad has the flat address that it had before, moved. -/
theorem flatAddress_outwards (hp : s.pad? r = some p) : s'.flatAddress "" (outwards e.id name r) =
    (s.flatAddress "" r).map (·.mapNode (movedId e.id name)) := by
  have hmoves := moves hs he hb name
  rcases outwards_cases hs he hb name hp with ⟨hne, hout⟩ | ⟨q, d, hr, hout, hq, hd, -⟩
  · rw [hout, h.flatAddress_stays hmoves hp hne]
  · -- the flat address of a proxy is that of its target
    have htarget : s.flatAddress "" r = inner.flatAddress (e.id ++ "/") q := by
      have hnode := node?_of_mem hs.self.wellFormed.distinctNodes he
      have hpad : findPad r.pad e.pads = some p := by
        rw [pad?, hr, hnode] at hp
        exact hp
      rw [flatAddress_eq (hr ▸ hnode), hb, flatAddressOfBody, hpad, Option.bind_some, hq.proxy, hr,
        String.empty_append]
    rw [hout, h.flatAddress_renamed hmoves hd, htarget]

theorem flatLink_outwards (hl : l ∈ s.links) : s'.flatLink "" (l.map (outwards e.id name)) =
    (s.flatLink "" l).map (·.map (·.mapNode (movedId e.id name))) := by
  obtain ⟨p, q, hp, hq, -⟩ := hs.self.wellFormed.linked l hl
  rw [flatLink, flatLink, Link.map, flatAddress_outwards hs he hb h hp,
    flatAddress_outwards hs he hb h hq]
  cases s.flatAddress "" l.source <;> cases s.flatAddress "" l.sink <;> rfl

theorem flatLink_renamed (hl : l ∈ inner.links) : s'.flatLink "" (l.map (·.mapNode name)) =
    (inner.flatLink (e.id ++ "/") l).map (·.map (·.mapNode (movedId e.id name))) := by
  have hmoves := moves hs he hb name
  obtain ⟨p, q, hp, hq, -⟩ := (hs.body he id inner hb).self.wellFormed.linked l hl
  rw [flatLink, flatLink, Link.map, h.flatAddress_renamed hmoves hp,
    h.flatAddress_renamed hmoves hq]
  cases inner.flatAddress (e.id ++ "/") l.source <;> cases inner.flatAddress
    (e.id ++ "/") l.sink <;> rfl

end

/-- The flat form of `s'` is that of `s`, with other ids where they led through a node to those
inside: nodes and links correspond, and `movedId` tells ids apart. -/
structure FlattensAlike (s : GraphState) (node : String) (inner : GraphState)
    (name : String → String)
    (s' : GraphState) : Prop where
  moved : ∀ n ∈ s.flatten.nodes,
    (∃ x ∈ inner.nodes, ∃ m, IsTail m ∧ n.id = node ++ "/" ++ x.id ++ m ∧
      movedId node name n.id = name x.id ++ m) ∨
    ((∀ rest, n.id ≠ node ++ "/" ++ rest) ∧ movedId node name n.id = n.id)
  injective : ∀ n ∈ s.flatten.nodes, ∀ n' ∈ s.flatten.nodes,
    movedId node name n.id = movedId node name n'.id → n.id = n'.id
  nodes : ∀ n, n ∈ s'.flatten.nodes ↔ ∃ n' ∈ s.flatten.nodes, n = n'.mapId (movedId node name)
  links : ∀ k, k ∈ s'.flatten.links ↔
    ∃ l ∈ s.flatten.links, k = l.map (·.mapNode (movedId node name))

section

variable (hs : s.Everywhere Exact) (he : e ∈ s.nodes) (hb : e.body = .subgraph id inner)
  (h : s.Dissolved e.id inner name s')

include hs he hb

theorem movedId_cases (name : String → String) (hn : n ∈ s.flatten.nodes) :
    (∃ x ∈ inner.nodes, ∃ m, IsTail m ∧ n.id = e.id ++ "/" ++ x.id ++ m ∧
      movedId e.id name n.id = name x.id ++ m) ∨
    ∃ d ∈ s.nodes, d.id ≠ e.id ∧ ∃ m, IsTail m ∧ n.id = d.id ++ m ∧ movedId e.id name n.id =
    d.id ++ m := by
  have hmoves := moves hs he hb name
  rcases (mem_flatten_nodes_iff hs he hb).mp hn with ⟨d, hd, hne, m, hm, rfl⟩ | ⟨x, hx, m, hm, rfl⟩
  · have htail := NodeEntry.isTail_of_mem_nodes hm
    exact .inr ⟨d, hd, hne, m.id, htail, rfl, hmoves.stays d hd hne m.id htail⟩
  · have htail := NodeEntry.isTail_of_mem_nodes hm
    exact .inl ⟨x, hx, m.id, htail, rfl, hmoves.inside x hx m.id htail⟩

include h

/-- Moving tells flat ids apart, because the new ids of the nodes inside are none of those that
stay (`Naming`). -/
theorem movedId_inj {n' : FlatNode} (hn : n ∈ s.flatten.nodes) (hn' : n' ∈ s.flatten.nodes)
    (heq : movedId e.id name n.id = movedId e.id name n'.id) : n.id = n'.id := by
  have hold : ∀ d ∈ s.nodes, '/' ∉ d.id.toList :=
    fun d hd => (hs.self.wellFormed.validIds d hd).2.2
  have hnew : ∀ x ∈ inner.nodes, '/' ∉ (name x.id).toList := fun x hx =>
    (isValidNodeId_iff.mp (h.naming.valid x hx)).2.2
  rcases movedId_cases hs he hb name hn with ⟨x, hx, m, hm, hid, hmoved⟩ | ⟨d, hd, hne, m, hm, hid,
    hmoved⟩ <;> rcases movedId_cases hs he hb name hn' with
      ⟨x', hx', m', hm', hid', hmoved'⟩ | ⟨d', hd', hne', m', hm', hid', hmoved'⟩ <;>
    rw [hmoved, hmoved'] at heq
  · obtain ⟨hname, rfl⟩ := eq_of_append_tail (hnew x hx) (hnew x' hx') hm hm' heq
    rw [hid, hid', h.naming.name_inj hx hx' hname]
  · exact absurd (eq_of_append_tail (hnew x hx) (hold d' hd') hm hm' heq).1
      (h.naming.name_ne hd' hne' hx)
  · exact absurd (eq_of_append_tail (hold d hd) (hnew x' hx') hm hm' heq).1.symm
      (h.naming.name_ne hd hne hx')
  · rw [hid, hid', heq]

theorem flattensAlike : s.FlattensAlike e.id inner name s' := by
  have hmoves := moves hs he hb name
  have hself := (hs.self.wellFormed.validIds e he).2.2
  refine ⟨fun n hn => ?_, fun n hn n' hn' => movedId_inj hs he hb h hn hn', fun n => ?_,
    fun k => ?_⟩
  · refine (movedId_cases hs he hb name hn).imp_right ?_
    rintro ⟨d, hd, hne, m, hm, hid, hmoved⟩
    exact ⟨hid ▸ append_tail_ne (hs.self.wellFormed.validIds d hd).2.2 hself hne hm,
      hmoved.trans hid.symm⟩
  · rw [h.mem_flatten_nodes_iff]
    simp only [mem_flatten_nodes_iff hs he hb]
    constructor
    · rintro (⟨d, hd, hne, m, hm, rfl⟩ | ⟨x, hx, m, hm, rfl⟩)
      · exact ⟨_, .inl ⟨d, hd, hne, m, hm, rfl⟩, (hmoves.mapId_stays hd hne hm).symm⟩
      · exact ⟨_, .inr ⟨x, hx, m, hm, rfl⟩, (hmoves.mapId_inside hx hm).symm⟩
    · rintro ⟨_, ⟨d, hd, hne, m, hm, rfl⟩ | ⟨x, hx, m, hm, rfl⟩, rfl⟩
      · exact .inl ⟨d, hd, hne, m, hm, hmoves.mapId_stays hd hne hm⟩
      · exact .inr ⟨x, hx, m, hm, hmoves.mapId_inside hx hm⟩
  · rw [h.mem_flatten_links_iff]
    simp only [mem_flatten_links_iff hs he hb]
    constructor
    · rintro ((⟨d, hd, hne, l, hl, rfl⟩ | ⟨x, hx, l, hl, rfl⟩) | ⟨l, hl, hk⟩ | ⟨l, hl, hk⟩)
      · exact ⟨_, .inl (.inl ⟨d, hd, hne, l, hl, rfl⟩), (hmoves.map_stays hd hne hl).symm⟩
      · exact ⟨_, .inl (.inr (.inl ⟨x, hx, l, hl, rfl⟩)), (hmoves.map_inside hx hl).symm⟩
      · rw [flatLink_outwards hs he hb h hl] at hk
        obtain ⟨k₀, hk₀, rfl⟩ := Option.map_eq_some_iff.mp hk
        exact ⟨k₀, .inr ⟨l, hl, hk₀⟩, rfl⟩
      · rw [flatLink_renamed hs he hb h hl] at hk
        obtain ⟨k₀, hk₀, rfl⟩ := Option.map_eq_some_iff.mp hk
        exact ⟨k₀, .inl (.inr (.inr ⟨l, hl, hk₀⟩)), rfl⟩
    · rintro ⟨k₀, (⟨d, hd, hne, l, hl, rfl⟩ | ⟨x, hx, l, hl, rfl⟩ | ⟨l, hl, hk⟩) | ⟨l, hl, hk⟩,
        rfl⟩
      · exact .inl (.inl ⟨d, hd, hne, l, hl, hmoves.map_stays hd hne hl⟩)
      · exact .inl (.inr ⟨x, hx, l, hl, hmoves.map_inside hx hl⟩)
      · exact .inr (.inr ⟨l, hl, by rw [flatLink_renamed hs he hb h hl, hk]; rfl⟩)
      · exact .inr (.inl ⟨l, hl, by rw [flatLink_outwards hs he hb h hl, hk]; rfl⟩)

end

/-- A subgraph node of a graph that was resolved can be dissolved, and what runs is the same
afterwards (`GraphState.FlattensAlike`): the flat form has the same nodes and the same links, up to
ids, which are moved from the way through the node to the new ids of the nodes inside
(`GraphState.Named`). -/
theorem dissolveSubgraph_flattensAlike {config : EngineConfig} {external : External}
    {s₀ s : GraphState}
    (hs₀ : s₀.Everywhere (Orderly (fun _ _ => True) fun _ => True))
    (hs : reconcile config external s₀ = .ok s) {e : NodeEntry} (he : e ∈ s.nodes)
    {id : Option String}
    {inner : GraphState} (hb : e.body = .subgraph id inner) :
    ∃ s' name, s.dissolveSubgraph e.id = .ok s' ∧ s.Named e.id inner name s' ∧
      s.FlattensAlike e.id inner name s' := by
  have hexact : s.Everywhere Exact := everywhere_exact_reconcile hs₀ hs
  obtain ⟨s', name, hdone, hnamed, h⟩ := dissolveSubgraph_spec hexact he hb
  exact ⟨s', name, hdone, hnamed, flattensAlike hexact he hb h⟩

/-- The relay is orderly, and is resolved with its subgraph node in place. -/
theorem reconcile_relay : relay.Everywhere (Orderly (fun _ _ => True) fun _ => True) ∧
    ∃ s, reconcile {} [] relay = .ok s ∧ ∃ e ∈ s.nodes, ∃ id inner,
    e.body = .subgraph id inner := by
  have hvalid : ∀ id ∈ ["i", "p", "g", "d"], isValidNodeId id = true := by
    simp only [isValidNodeId_iff]
    decide +kernel
  have hdisplay : (⟨[.plugin "d" "Display" Display.nodeType], []⟩ : GraphState).Everywhere
      (Orderly (fun _ _ => True) fun _ => True) := by
    refine everywhere_iff.mpr
      ⟨⟨by decide, .nil, fun e he => hvalid e.id ?_, ?_, fun _ _ _ _ => ⟨trivial, trivial⟩⟩, ?_⟩
    · rw [List.mem_singleton.mp he]
      decide
    · exact List.forall_mem_singleton.mpr trivial
    · exact List.forall_mem_singleton.mpr (Body.inside_plugin _ _)
  have hordered : Ordered relay.links := List.pairwise_pair.mpr (by decide +kernel)
  have hids : relay.nodes.map (·.id) ⊆ ["i", "p", "g", "d"] := by decide
  refine ⟨everywhere_iff.mpr
    ⟨⟨by decide, hordered, fun e he => hvalid e.id (hids (List.mem_map_of_mem he)), ?_,
    fun _ _ _ _ => ⟨trivial, trivial⟩⟩, ?_⟩, ?_⟩
  · exact List.forall_mem_cons.mpr ⟨trivial, List.forall_mem_cons.mpr
      ⟨trivial, List.forall_mem_singleton.mpr rfl⟩⟩
  · refine List.forall_mem_cons.mpr ⟨Body.inside_plugin _ _, List.forall_mem_cons.mpr
      ⟨Body.inside_plugin _ _, List.forall_mem_singleton.mpr ?_⟩⟩
    exact (Body.inside_subgraph _ _ _).mpr hdisplay
  · have hany : ((reconcile {} [] relay).toOption.any fun s => s.nodes.any (·.isSubgraph)) =
        true := by
      decide +kernel
    obtain ⟨s, hs, hnodes⟩ := (Option.any_eq_true _ _).mp hany
    obtain ⟨e, he, hsub⟩ := List.any_eq_true.mp hnodes
    refine ⟨s, toOption_eq_some_iff.mp hs, e, he, ?_⟩
    rw [NodeEntry.isSubgraph] at hsub
    split at hsub
    · cases hsub
    · rename_i id inner hb
      exact ⟨id, inner, hb⟩

/-- The relay without its subgraph node runs as before, with a display that stands in the outer
graph now. -/
theorem dissolveSubgraph_flattensAlike_relay :
    relay.Everywhere (Orderly (fun _ _ => True) fun _ => True) ∧
      ∃ s, reconcile {} [] relay = .ok s ∧ ∃ e ∈ s.nodes, ∃ id inner, e.body = .subgraph id inner ∧
        ∃ s' name, s.dissolveSubgraph e.id = .ok s' ∧ s.Named e.id inner name s' ∧
          s.FlattensAlike e.id inner name s' := by
  obtain ⟨horderly, s, hs, e, he, id, inner, hb⟩ := reconcile_relay
  exact ⟨horderly, s, hs, e, he, id, inner, hb, dissolveSubgraph_flattensAlike horderly hs he hb⟩

end Patchbay.GraphState
