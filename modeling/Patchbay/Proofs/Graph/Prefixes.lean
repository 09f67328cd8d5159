import Patchbay.Proofs.Graph.Flattening
import Patchbay.Run.Wiring

/-!
# Flat forms under a path

The flat form of a graph that a path leads to is the flat form of the graph itself, with the path
in front of every id (`GraphState.flattenAt_append`). So a flat graph is put together from flat
forms of its nodes (`NodeEntry.flat`), each of them under the id of the node
(`GraphState.mem_flattenAt_nodes_iff`, `GraphState.mem_flattenAt_links_iff`). What then follows the
id of the node is a tail: it is empty or begins with a mark, and can be told from the id
(`eq_of_append_tail`).

The id of a proxy is read back from the other side: what stands before its first mark is the id of
a node (`parseProxyPadId_eq_some_iff`).
-/

namespace Patchbay

/-- The address with another node. Addresses are moved this way when ids are. -/
def PadRef.mapNode (f : String → String) (r : PadRef) : PadRef := ⟨f r.node, r.pad⟩

/-- The link with other ends. -/
def Link.map (f : PadRef → PadRef) (l : Link) : Link := ⟨f l.source, f l.sink⟩

/-- The flat node with another id. -/
def FlatNode.mapId (f : String → String) (n : FlatNode) : FlatNode := { n with id := f n.id }

/-- The flat graph with other ids of nodes. -/
def FlatGraph.mapIds (f : String → String) (g : FlatGraph) : FlatGraph :=
  ⟨g.nodes.map (·.mapId f), g.links.map (·.map (·.mapNode f))⟩

/-! ### Splitting at a mark -/

theorem splitFirst_append {mark : Char} {a : List Char} (ha : mark ∉ a) (b : List Char) :
    splitFirst mark (a ++ mark :: b) = some (a, b) := by
  induction a with
  | nil => simp [splitFirst]
  | cons c a ih =>
    obtain ⟨hc, ha⟩ := not_or.mp (List.mem_cons.not.mp ha)
    simp [splitFirst, Ne.symm hc, ih ha]

theorem splitFirst_eq_some_iff {mark : Char} {cs a b : List Char} :
    splitFirst mark cs = some (a, b) ↔ cs = a ++ mark :: b ∧ mark ∉ a := by
  constructor
  · intro h
    refine ⟨splitFirst_eq_some h, ?_⟩
    induction cs generalizing a with
    | nil => exact absurd h (by simp [splitFirst])
    | cons c cs ih =>
      by_cases hc : c = mark
      · simp only [splitFirst, hc, if_true, Option.some.injEq, Prod.mk.injEq] at h
        simp [← h.1]
      · simp only [splitFirst, hc, if_false, Option.map_eq_some_iff, Prod.mk.injEq] at h
        obtain ⟨⟨a', b'⟩, h, rfl, rfl⟩ := h
        simpa [Ne.symm hc] using ih h
  · rintro ⟨rfl, ha⟩
    exact splitFirst_append ha b

theorem parseProxyPadId_eq_some_iff {id : String} {r : PadRef} :
    parseProxyPadId id = some r ↔ id = r.node ++ ":" ++ r.pad ∧ ':' ∉ r.node.toList := by
  simp only [parseProxyPadId, Option.map_eq_some_iff, Prod.exists, splitFirst_eq_some_iff]
  constructor
  · rintro ⟨a, b, ⟨hid, ha⟩, rfl⟩
    refine ⟨String.toList_inj.mp ?_, by simpa using ha⟩
    simp [hid]
  · rintro ⟨rfl, hnode⟩
    exact ⟨r.node.toList, r.pad.toList, ⟨by simp, hnode⟩, by simp⟩

theorem splitFirst_eq_none_iff {mark : Char} {cs : List Char} : splitFirst mark cs = none ↔
    mark ∉ cs := by
  induction cs with
  | nil => simp [splitFirst]
  | cons c cs ih =>
    by_cases hc : c = mark
    · simp [splitFirst, hc]
    · simp [splitFirst, hc, ih, Ne.symm hc]

/-! ### Tails -/

/-- What stands behind the id of a node in the ids of its flat nodes: nothing, or a text that
begins with a mark. -/
def IsTail (id : String) : Prop := id = "" ∨ ∃ rest, id = "/" ++ rest

/-- Ids without marks are told apart before tails. -/
theorem eq_of_append_tail {a b x y : String} (ha : '/' ∉ a.toList) (hb : '/' ∉ b.toList)
    (hx : IsTail x) (hy : IsTail y) (h : a ++ x = b ++ y) : a = b ∧ x = y := by
  have hbefore : ∀ {a x : String}, '/' ∉ a.toList → IsTail x →
      (a ++ x).toList.takeWhile (· != '/') = a.toList := by
    intro a x ha hx
    rw [String.toList_append,
      List.takeWhile_append_of_pos fun c hc => by simpa using ne_of_mem_of_not_mem hc ha]
    rcases hx with rfl | ⟨rest, rfl⟩ <;> simp
  have hab : a.toList = b.toList := by rw [← hbefore ha hx, h, hbefore hb hy]
  obtain rfl := String.toList_inj.mp hab
  exact ⟨rfl, (String.append_right_inj a).mp h⟩

namespace GraphState

variable {s t : GraphState} {e : NodeEntry} {n : FlatNode} {k : Link} {r : PadRef} {path : String}

/-! ### Addresses -/

theorem flatAddress_eq_bind (path : String) (s : GraphState) (r : PadRef) :
    flatAddress path s r = (s.node? r.node).bind fun e => flatAddressOfBody path e.pads e.body
    r := by
  cases h : s.node? r.node with
  | some e => exact flatAddress_eq h
  | none =>
    have hnodes : ∀ {nodes : List NodeEntry}, nodes.find? (fun e => e.id == r.node) = none →
        flatAddressIn path nodes r = none := by
      intro nodes h
      induction nodes with
      | nil => rfl
      | cons d rest ih =>
        rw [List.find?_eq_none, List.forall_mem_cons, ← List.find?_eq_none] at h
        rw [flatAddressIn, if_neg h.1, ih h.2]
    cases s
    exact hnodes h

/-- The flat address with a longer path. -/
theorem flatAddress_append (outer path : String) (s : GraphState) (r : PadRef) :
    flatAddress (outer ++ path) s r = (flatAddress path s r).map (·.mapNode (outer ++ ·)) := by
  induction s using insideInduction generalizing path r with
  | step s ih =>
    rw [flatAddress_eq_bind, flatAddress_eq_bind, Option.map_bind]
    refine Option.bind_congr fun e he => ?_
    obtain ⟨hmem, -⟩ := node?_eq_some he
    rw [Function.comp_apply]
    cases hb : e.body with
    | plugin type => simp [flatAddressOfBody, PadRef.mapNode, String.append_assoc]
    | subgraph id inner =>
      simp only [flatAddressOfBody]
      cases (findPad r.pad e.pads).bind (·.proxy) with
      | none => rfl
      | some target =>
        have hinner := ih e hmem id inner hb (path ++ r.node ++ "/") target
        simpa only [String.append_assoc] using hinner

theorem flatLink_append (outer path : String) (s : GraphState) (l : Link) :
    s.flatLink (outer ++ path) l = (s.flatLink path l).map (·.map (·.mapNode (outer ++ ·))) := by
  rw [flatLink, flatLink, flatAddress_append, flatAddress_append]
  cases flatAddress path s l.source <;> cases flatAddress path s l.sink <;> rfl

/-! ### Flat forms -/

/-- The flat form with a longer path: the path stands in front of all ids (`FlatGraph.mapIds`). The
induction is on the depth. -/
theorem flattenAt_append (outer path : String) (s : GraphState) :
    s.flattenAt (outer ++ path) = (s.flattenAt path).mapIds (outer ++ ·) := by
  induction s using insideInduction generalizing path with
  | step s ih =>
    have hbody : ∀ e ∈ s.nodes, flattenBody (outer ++ path ++ e.id) e.nodeType e.pads e.body =
        (flattenBody (path ++ e.id) e.nodeType e.pads e.body).mapIds (outer ++ ·) := by
      intro e he
      cases hb : e.body with
      | plugin type => simp [flattenBody, FlatGraph.mapIds, FlatNode.mapId, String.append_assoc]
      | subgraph id inner =>
        have hinner := ih e he id inner hb (path ++ e.id ++ "/")
        simpa only [flattenBody, String.append_assoc] using hinner
    have hnodes := List.flatMap_congr fun e he => congrArg FlatGraph.nodes (hbody e he)
    have hlinks := List.flatMap_congr fun e he => congrArg FlatGraph.links (hbody e he)
    rw [flattenAt_eq, flattenAt_eq, hnodes, hlinks, FlatGraph.mapIds, List.map_flatMap,
      List.map_append, List.map_flatMap, List.map_filterMap]
    simp only [FlatGraph.mapIds, funext (flatLink_append outer path s)]

end GraphState

/-! ### Flat forms of nodes -/

namespace NodeEntry

/-- The flat form of a node, as it is under the id of the node: one flat node, or the flat form of
the graph inside. -/
def flat (e : NodeEntry) : FlatGraph := GraphState.flattenBody "" e.nodeType e.pads e.body

/-- The flat address of a pad of a node, as it is under the id of the node. -/
def flatPad (e : NodeEntry) (pad : String) : Option PadRef :=
  GraphState.flatAddressOfBody "" e.pads e.body ⟨"", pad⟩

variable {e : NodeEntry} {n : FlatNode} {k : Link} {q : PadRef} {pad : String}

theorem isTail_of_mem_nodes (h : n ∈ e.flat.nodes) : IsTail n.id := by
  rw [flat] at h
  cases hb : e.body with
  | plugin type =>
    rw [hb, GraphState.flattenBody, List.mem_singleton] at h
    exact .inl (congrArg FlatNode.id h)
  | subgraph id inner =>
    rw [hb, GraphState.flattenBody, String.empty_append, ← @String.append_empty "/",
      GraphState.flattenAt_append] at h
    obtain ⟨m, -, rfl⟩ := List.mem_map.mp h
    exact .inr ⟨m.id, rfl⟩

theorem isTail_of_mem_links (h : k ∈ e.flat.links) : IsTail k.source.node ∧
    IsTail k.sink.node := by
  rw [flat] at h
  cases hb : e.body with
  | plugin type =>
    rw [hb, GraphState.flattenBody] at h
    exact absurd h List.not_mem_nil
  | subgraph id inner =>
    rw [hb, GraphState.flattenBody, String.empty_append, ← @String.append_empty "/",
      GraphState.flattenAt_append] at h
    obtain ⟨l, -, rfl⟩ := List.mem_map.mp h
    exact ⟨.inr ⟨l.source.node, rfl⟩, .inr ⟨l.sink.node, rfl⟩⟩

theorem isTail_of_flatPad (h : e.flatPad pad = some q) : IsTail q.node := by
  rw [flatPad] at h
  cases hb : e.body with
  | plugin type =>
    rw [hb, GraphState.flatAddressOfBody, Option.some.injEq] at h
    exact .inl (congrArg PadRef.node h).symm
  | subgraph id inner =>
    rw [hb, GraphState.flatAddressOfBody] at h
    split at h
    · cases h
    · rw [String.append_empty, String.empty_append, ← @String.append_empty "/",
        GraphState.flatAddress_append] at h
      obtain ⟨m, -, rfl⟩ := Option.map_eq_some_iff.mp h
      exact .inr ⟨m.node, rfl⟩

end NodeEntry

namespace GraphState

variable {s t : GraphState} {e : NodeEntry} {n : FlatNode} {k : Link} {r : PadRef} {path : String}

theorem flattenBody_eq (e : NodeEntry) (id : String) :
    flattenBody id e.nodeType e.pads e.body = e.flat.mapIds (id ++ ·) := by
  rw [NodeEntry.flat]
  cases e.body with
  | plugin type => simp [flattenBody, FlatGraph.mapIds, FlatNode.mapId]
  | subgraph sid inner => rw [flattenBody, flattenBody, String.empty_append, flattenAt_append]

/-- A flat node is one of a node, under its id. -/
theorem mem_flattenAt_nodes_iff : n ∈ (s.flattenAt path).nodes ↔
    ∃ e ∈ s.nodes, ∃ m ∈ e.flat.nodes, n = m.mapId (path ++ e.id ++ ·) := by
  simp only [flattenAt_eq, List.mem_flatMap, flattenBody_eq, FlatGraph.mapIds, List.mem_map,
    eq_comm]

/-- A flat link is one of a node, under its id, or it comes from a link of the graph itself, with
ends as `flatAddress` gives them. -/
theorem mem_flattenAt_links_iff : k ∈ (s.flattenAt path).links ↔
    (∃ e ∈ s.nodes, ∃ l ∈ e.flat.links, k = l.map (·.mapNode (path ++ e.id ++ ·))) ∨
      ∃ l ∈ s.links, s.flatLink path l = some k := by
  simp only [flattenAt_eq, List.mem_append, List.mem_flatMap, List.mem_filterMap, flattenBody_eq,
    FlatGraph.mapIds, List.mem_map, eq_comm]

/-- The flat address of a pad is one of its node, under its id. -/
theorem flatAddress_eq_flatPad (path : String) (s : GraphState) (r : PadRef) :
    s.flatAddress path r =
    (s.node? r.node).bind fun e => (e.flatPad r.pad).map (·.mapNode (path ++ r.node ++ ·)) := by
  rw [flatAddress_eq_bind]
  refine Option.bind_congr fun e _ => ?_
  rw [NodeEntry.flatPad]
  cases e.body with
  | plugin type => simp [flatAddressOfBody, PadRef.mapNode]
  | subgraph id inner =>
    simp only [flatAddressOfBody]
    cases (findPad r.pad e.pads).bind (·.proxy) with
    | none => rfl
    | some target => rw [String.append_empty, String.empty_append, ← flatAddress_append]

end GraphState

end Patchbay
