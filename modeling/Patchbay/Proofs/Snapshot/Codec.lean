import Patchbay.Snapshot.Wire
import Patchbay.Proofs.Constraint.Codec

/-!
# Snapshots that are read back

A snapshot is read back from its JSON form (`GraphSnapshot.ofJson?_toJson`), however deep graphs
nest, if it is *exact*: no pad holds the value `null`, which is written like an absent one, and the
objects in values and schemas have their fields in key order.
-/

namespace Patchbay

open Json

/-! ### The parts of a node -/

theorem PadRef.ofJson?_toJson (p : PadRef) : ofJson? p.toJson = some p := rfl

theorem PadType.ofJson?_toJson (place : Place) (t : PadType) :
    ofJson? place t.toJson = some t := by
  rw [ofJson?, toJson, name?]
  exact ofName?_name t

theorem Metadata.ofJson?_toJson (m : Metadata) : ofJson? m.toJson = some m := by
  obtain ⟨primary, secondary, tags⟩ := m
  let fields := ("primary", Json.str primary) :: presentField "secondary" .str secondary ++
    [("tags", ofStrings tags)]
  have hprimary : (Json.obj fields).field "primary" str? = some primary :=
    field_of_under (.str primary) (by simp [fields]) rfl
  have hsecondary : (Json.obj fields).optionalField "secondary" str? = some secondary :=
    optionalField_of_presentField .str (by simp [fields]) fun _ _ => ⟨nofun, rfl⟩
  have htags : (Json.obj fields).fieldWithDefault "tags" strings? [] = some tags :=
    fieldWithDefault_of_under (ofStrings tags)
      (by simp [fields]) (strings?_ofStrings tags) []
  simp only [ofJson?, toJson, record?, Option.bind_eq_bind, Option.bind_some]
  rw [hprimary, hsecondary, htags]
  rfl

/-- The value of the pad, and the schemas in its constraints, are exact. -/
structure PadSnapshot.Exact (p : PadSnapshot) : Prop where
  value : ∀ v ∈ p.value, v.Exact
  allowedTypes : p.allowedTypes.Exact

theorem PadSnapshot.ofJson?_toJson {p : PadSnapshot} (h : p.Exact) (place : Place) :
    ofJson? place p.toJson = some p := by
  obtain ⟨id, group, padType, value, nextPads, previousPad, allowedTypes⟩ := p
  let fields := ("id", Json.str id) :: presentField "group" .str group ++
    [("type", padType.toJson), ("value", ofOption (fun v => v) value),
      ("next_pads", .arr (nextPads.map PadRef.toJson)),
      ("previous_pad", ofOption PadRef.toJson previousPad),
      ("allowed_types", Constraints.toJson allowedTypes)]
  have hjson : toJson ⟨id, group, padType, value, nextPads, previousPad, allowedTypes⟩ =
      Json.obj fields := by
    cases value <;> rfl
  have hid : (Json.obj fields).field "id" str? = some id :=
    field_of_under (.str id) (by simp [fields]) rfl
  have hgroup : (Json.obj fields).optionalField "group" str? = some group :=
    optionalField_of_presentField .str (by simp [fields]) fun _ _ => ⟨nofun, rfl⟩
  have htype : (Json.obj fields).field "type" (PadType.ofJson? place) = some padType :=
    field_of_under padType.toJson (by simp [fields])
      (padType.ofJson?_toJson place)
  have hvalue : (Json.obj fields).optionalField "value" any? = some value :=
    optionalField_of_ofOption (fun v => v)
      (by simp [fields])
      fun v hv => ⟨(h.value v hv).not_null, (h.value v hv).any?⟩
  have hnext : (Json.obj fields).fieldWithDefault "next_pads" (listOf PadRef.ofJson?) [] =
      some nextPads :=
    fieldWithDefault_of_under (.arr (nextPads.map PadRef.toJson))
      (by simp [fields])
      (listOf_map fun r _ => r.ofJson?_toJson) []
  have hprevious : (Json.obj fields).optionalField "previous_pad" PadRef.ofJson? =
      some previousPad :=
    optionalField_of_ofOption PadRef.toJson
      (by simp [fields])
      fun r _ => ⟨nofun, r.ofJson?_toJson⟩
  have hallowed : (Json.obj fields).fieldWithDefault "allowed_types"
      (Constraints.ofJson? place) none =
      some allowedTypes :=
    fieldWithDefault_of_under (Constraints.toJson allowedTypes)
      (by simp [fields])
      (Constraints.ofJson?_toJson h.allowedTypes place) none
  rw [hjson]
  simp only [ofJson?, record?, Option.bind_eq_bind, Option.bind_some, hid, hgroup, htype, hvalue,
    hnext, hprevious, hallowed]

/-! ### Graphs -/

mutual

/-- All pads of the graph, at every depth, are exact. -/
def GraphSnapshot.Exact : GraphSnapshot → Prop
  | ⟨nodes⟩ => NodeSnapshot.ExactAll nodes

/-- All pads of the nodes are exact. -/
def NodeSnapshot.ExactAll : List NodeSnapshot → Prop
  | [] => True
  | n :: ns => n.Exact ∧ NodeSnapshot.ExactAll ns

/-- All pads of the node are exact. -/
def NodeSnapshot.Exact : NodeSnapshot → Prop
  | ⟨_, _, _, pads, _, _, subgraph⟩ =>
  (∀ p ∈ pads, p.Exact) ∧ SubgraphSnapshot.ExactOption subgraph

/-- All pads of the inner graph, if there is one, are exact. -/
def SubgraphSnapshot.ExactOption : Option SubgraphSnapshot → Prop
  | none => True
  | some s => s.Exact

/-- All pads of the inner graph are exact. -/
def SubgraphSnapshot.Exact : SubgraphSnapshot → Prop
  | ⟨_, graph⟩ => graph.Exact

end

theorem NodeSnapshot.exactAll_iff {nodes : List NodeSnapshot} :
    NodeSnapshot.ExactAll nodes ↔ ∀ n ∈ nodes, n.Exact := by
  induction nodes with
  | nil => simp [NodeSnapshot.ExactAll]
  | cons n ns ih => rw [NodeSnapshot.ExactAll, ih, List.forall_mem_cons]

theorem subgraphFields_eq (s : Option SubgraphSnapshot) :
    subgraphFields s = presentField "subgraph" SubgraphSnapshot.toJson s := by
  cases s <;> simp [subgraphFields, presentField]

theorem depth_le_depthOfFields {fields : List (String × Json)} {key : String} {a : Json}
    (h : (key, a) ∈ fields) : a.depth ≤ depthOfFields fields := by
  induction fields with
  | nil => cases h
  | cons f fields ih =>
    obtain ⟨k, b⟩ := f
    rw [depthOfFields]
    rcases List.mem_cons.mp h with heq | h
    · cases heq
      exact Nat.le_max_left _ _
    · exact Nat.le_trans (ih h) (Nat.le_max_right _ _)

/-- What stands in a field nests less deep than the record. -/
theorem depth_lt_depth_obj {fields : List (String × Json)} {key : String} {a : Json}
    (h : (key, a) ∈ fields) : a.depth < (Json.obj fields).depth := by
  have hle := depth_le_depthOfFields h
  rw [Json.depth]
  omega

theorem NodeSnapshot.depth_toJson_pos (n : NodeSnapshot) : 0 < n.toJson.depth := by
  obtain ⟨id, nodeType, editor, pads, description, metadata, subgraph⟩ := n
  simp [NodeSnapshot.toJson, Json.depth]

mutual

theorem NodeSnapshot.ofJsonWithin_toJson (place : Place) : ∀ (n : NodeSnapshot) {depth : Nat},
    n.Exact → n.toJson.depth ≤ depth → NodeSnapshot.ofJsonWithin place depth n.toJson = some n
  | n, 0, _, hd => absurd n.depth_toJson_pos (by omega)
  | ⟨id, nodeType, editor, pads, description, metadata, subgraph⟩, depth + 1, h, hd => by
    let fields := ("id", Json.str id) :: ("type", .str nodeType) :: editor.fields ++
      [("pads", .arr (pads.map PadSnapshot.toJson)), ("description", .str description),
        ("metadata", metadata.toJson)] ++ presentField "subgraph" SubgraphSnapshot.toJson subgraph
    have hjson :
        NodeSnapshot.toJson ⟨id, nodeType, editor, pads, description, metadata, subgraph⟩ =
        Json.obj fields := by
      rw [NodeSnapshot.toJson, subgraphFields_eq]
    have hinner : ∀ s ∈ subgraph, s.toJson.depth ≤ depth := by
      rintro s ⟨⟩
      rw [hjson] at hd
      have hlt : s.toJson.depth < (Json.obj fields).depth :=
        depth_lt_depth_obj (List.mem_append_right _ List.mem_cons_self)
      omega
    have hid : (Json.obj fields).field "id" str? = some id :=
      field_of_under (.str id) (by simp [fields, EditorInfo.fields]) rfl
    have htype : (Json.obj fields).field "type" str? = some nodeType :=
      field_of_under (.str nodeType) (by simp [fields, EditorInfo.fields]) rfl
    have hname : (Json.obj fields).optionalField "editor_name" str? = some editor.name :=
      optionalField_of_presentField .str (by simp [fields, EditorInfo.fields])
        fun _ _ => ⟨nofun, rfl⟩
    have hposition : (Json.obj fields).optionalField "editor_position" pair? =
        some editor.position :=
      optionalField_of_presentField ofPair (by simp [fields, EditorInfo.fields])
        fun _ _ => ⟨nofun, rfl⟩
    have hdimensions : (Json.obj fields).optionalField "editor_dimensions" pair? =
        some editor.dimensions :=
      optionalField_of_presentField ofPair (by simp [fields, EditorInfo.fields])
        fun _ _ => ⟨nofun, rfl⟩
    have hpads : (Json.obj fields).fieldWithDefault "pads" (listOf (PadSnapshot.ofJson? place))
        [] =
        some pads :=
      fieldWithDefault_of_under (.arr (pads.map PadSnapshot.toJson))
        (by simp [fields, EditorInfo.fields])
        (listOf_map fun p hp => PadSnapshot.ofJson?_toJson (h.1 p hp) place) []
    have hdescription : (Json.obj fields).fieldWithDefault "description" str? "" =
        some description :=
      fieldWithDefault_of_under (.str description) (by simp [fields, EditorInfo.fields])
        (show str? (.str description) = some description from rfl) ""
    have hmetadata : (Json.obj fields).fieldWithDefault "metadata" Metadata.ofJson? .empty =
        some metadata :=
      fieldWithDefault_of_under metadata.toJson (by simp [fields, EditorInfo.fields])
        metadata.ofJson?_toJson .empty
    have hsubgraph : (Json.obj fields).optionalField "subgraph"
        (SubgraphSnapshot.ofNodes (NodeSnapshot.ofJsonWithin place depth)) = some subgraph :=
      optionalField_of_presentField SubgraphSnapshot.toJson (by simp [fields, EditorInfo.fields])
        (SubgraphSnapshot.ofNodes_toJson place subgraph h.2 hinner)
    rw [hjson]
    simp only [NodeSnapshot.ofJsonWithin, record?, EditorInfo.ofFields?, Option.bind_eq_bind,
      Option.bind_some, hid, htype, hname, hposition, hdimensions, hpads, hdescription, hmetadata,
      hsubgraph]

theorem SubgraphSnapshot.ofNodes_toJson (place : Place) : ∀ (subgraph : Option SubgraphSnapshot)
    {depth : Nat}, SubgraphSnapshot.ExactOption subgraph →
    (∀ s ∈ subgraph, s.toJson.depth ≤ depth) → ∀ s ∈ subgraph, s.toJson ≠ .null ∧
        SubgraphSnapshot.ofNodes (NodeSnapshot.ofJsonWithin place depth) s.toJson = some s
  | none, _, _, _ => nofun
  | some ⟨id, graph⟩, depth, h, hd => by
    rintro s ⟨⟩
    let fields := presentField "subgraph_id" Json.str id ++ [("graph", graph.toJson)]
    have hjson : SubgraphSnapshot.toJson ⟨id, graph⟩ = Json.obj fields := by
      rw [SubgraphSnapshot.toJson]
    have hgraph : graph.toJson.depth ≤ depth := by
      have hlt : graph.toJson.depth < (Json.obj fields).depth :=
        depth_lt_depth_obj (List.mem_append_right _ List.mem_cons_self)
      have hle := hd ⟨id, graph⟩ rfl
      rw [hjson] at hle
      omega
    have hid : (Json.obj fields).optionalField "subgraph_id" str? = some id :=
      optionalField_of_presentField .str (by simp [fields]) fun _ _ => ⟨nofun, rfl⟩
    have hgraph : (Json.obj fields).field "graph"
        (GraphSnapshot.ofNodes (NodeSnapshot.ofJsonWithin place depth)) = some graph :=
      field_of_under graph.toJson (by simp [fields])
        (GraphSnapshot.ofNodes_toJson place graph h hgraph)
    rw [hjson]
    refine ⟨nofun, ?_⟩
    simp only [SubgraphSnapshot.ofNodes, record?, Option.bind_eq_bind, Option.bind_some, hid,
      hgraph]

theorem GraphSnapshot.ofNodes_toJson (place : Place) : ∀ (graph : GraphSnapshot) {depth : Nat},
    graph.Exact → graph.toJson.depth ≤ depth →
      GraphSnapshot.ofNodes (NodeSnapshot.ofJsonWithin place depth) graph.toJson = some graph
  | ⟨nodes⟩, depth, h, hd => by
    rw [GraphSnapshot.toJson] at hd ⊢
    have hdepth : depthOfItems (nodesToJson nodes) ≤ depth := by
      simp only [Json.depth, depthOfFields] at hd
      omega
    have hnodes : (Json.obj [("nodes", .arr (nodesToJson nodes))]).fieldWithDefault "nodes"
        (listOf (NodeSnapshot.ofJsonWithin place depth)) [] = some nodes :=
      fieldWithDefault_of_under (.arr (nodesToJson nodes)) (by simp)
        (NodeSnapshot.decodeEach_nodesToJson place nodes h hdepth) []
    simp only [GraphSnapshot.ofNodes, record?, Option.bind_eq_bind, Option.bind_some, hnodes]

theorem NodeSnapshot.decodeEach_nodesToJson (place : Place) :
    ∀ (nodes : List NodeSnapshot) {depth : Nat},
    NodeSnapshot.ExactAll nodes → depthOfItems (nodesToJson nodes) ≤ depth →
      decodeEach (NodeSnapshot.ofJsonWithin place depth) (nodesToJson nodes) = some nodes
  | [], _, _, _ => by
    rw [nodesToJson]
    rfl
  | n :: ns, _, h, hd => by
    rw [nodesToJson, depthOfItems] at hd
    rw [nodesToJson, decodeEach, NodeSnapshot.ofJsonWithin_toJson place n h.1 (by omega),
      NodeSnapshot.decodeEach_nodesToJson place ns h.2 (by omega)]

end

/-- A graph is read back. -/
theorem GraphSnapshot.ofJson?_toJson {g : GraphSnapshot} (h : g.Exact) (place : Place) :
    ofJson? place g.toJson = some g :=
  GraphSnapshot.ofNodes_toJson place g h (Nat.le_refl _)

/-! ### A check -/

/-- Neither `null` nor made of other values. -/
def Json.isScalar : Json → Bool
  | .bool _ | .int _ | .double _ | .str _ => true
  | _ => false

theorem Json.exact_of_isScalar {v : Json} (h : v.isScalar = true) : v.Exact := by
  cases v with
  | bool b => exact ⟨Json.noConfusion, rfl⟩
  | int n => exact ⟨Json.noConfusion, rfl⟩
  | double d => exact ⟨Json.noConfusion, rfl⟩
  | str s => exact ⟨Json.noConfusion, rfl⟩
  | null => cases h
  | arr items => cases h
  | obj fields => cases h

/-- Without parts that are made of other values. -/
def Constraint.isScalar : Constraint → Bool
  | .object _ | .list _ => false
  | _ => true

theorem Constraint.exact_of_isScalar {c : Constraint} (h : c.isScalar = true) : c.Exact := by
  cases c <;> trivial

/-- The value and the constraints of the pad are made of scalars. -/
def PadSnapshot.isScalar (p : PadSnapshot) : Bool :=
  p.value.all Json.isScalar && p.allowedTypes.all (·.all Constraint.isScalar)

theorem PadSnapshot.exact_of_isScalar {p : PadSnapshot} (h : p.isScalar = true) : p.Exact := by
  obtain ⟨hvalue, htypes⟩ := Bool.and_eq_true_iff.mp h
  refine ⟨fun v hv => Json.exact_of_isScalar ?_, fun l hl c hc => Constraint.exact_of_isScalar ?_⟩
  · exact Option.all_eq_true _ _ |>.mp hvalue v hv
  · exact List.all_eq_true.mp (Option.all_eq_true _ _ |>.mp htypes l hl) c hc

mutual

/-- The values and constraints in a graph are made of scalars, at every depth. -/
def GraphSnapshot.isScalar : GraphSnapshot → Bool
  | ⟨nodes⟩ => NodeSnapshot.allScalar nodes

/-- The values and constraints of nodes are made of scalars. -/
def NodeSnapshot.allScalar : List NodeSnapshot → Bool
  | [] => true
  | n :: ns => n.isScalar && NodeSnapshot.allScalar ns

/-- The values and constraints of a node are made of scalars. -/
def NodeSnapshot.isScalar : NodeSnapshot → Bool
  | ⟨_, _, _, pads, _, _, subgraph⟩ =>
    pads.all PadSnapshot.isScalar && SubgraphSnapshot.isScalar subgraph

/-- The values and constraints in an inner graph are made of scalars. -/
def SubgraphSnapshot.isScalar : Option SubgraphSnapshot → Bool
  | none => true
  | some ⟨_, graph⟩ => graph.isScalar

end

mutual

theorem GraphSnapshot.exact_of_isScalar : ∀ g : GraphSnapshot, g.isScalar = true → g.Exact
  | ⟨nodes⟩, h => NodeSnapshot.exact_of_allScalar nodes (by rwa [GraphSnapshot.isScalar] at h)

theorem NodeSnapshot.exact_of_allScalar : ∀ nodes : List NodeSnapshot,
    NodeSnapshot.allScalar nodes = true → NodeSnapshot.ExactAll nodes
  | [], _ => trivial
  | n :: ns, h => by
    rw [NodeSnapshot.allScalar, Bool.and_eq_true_iff] at h
    exact ⟨NodeSnapshot.exact_of_isScalar n h.1, NodeSnapshot.exact_of_allScalar ns h.2⟩

theorem NodeSnapshot.exact_of_isScalar : ∀ n : NodeSnapshot, n.isScalar = true → n.Exact
  | ⟨_, _, _, pads, _, _, subgraph⟩, h => by
    rw [NodeSnapshot.isScalar, Bool.and_eq_true_iff] at h
    exact ⟨fun p hp => PadSnapshot.exact_of_isScalar (List.all_eq_true.mp h.1 p hp),
      SubgraphSnapshot.exact_of_isScalar subgraph h.2⟩

theorem SubgraphSnapshot.exact_of_isScalar : ∀ subgraph : Option SubgraphSnapshot,
    SubgraphSnapshot.isScalar subgraph = true → SubgraphSnapshot.ExactOption subgraph
  | none, _ => trivial
  | some ⟨_, graph⟩, h =>
  GraphSnapshot.exact_of_isScalar graph (by rwa [SubgraphSnapshot.isScalar] at h)

end

end Patchbay
