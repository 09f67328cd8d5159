import Patchbay.Edit.Wire
import Patchbay.Proofs.Snapshot.Reordering

/-!
# Edits that are read back

An edit is read back from its JSON form, as a snapshot is. Both are read back from it with the
fields of all records in key order as well, which is the form they have as JSON values.
-/

namespace Patchbay

open Json

theorem PadConnection.nodup_fields (c : PadConnection) : (c.fields.map Prod.fst).Nodup := by
  simp [fields]

theorem PadConnection.ofJson?_obj {c : PadConnection} {fields : List (String × Json)}
    (h : ∀ key, key ≠ "type" → under key fields = under key c.fields) :
    ofJson? (.obj fields) = some c := by
  have hnode : (Json.obj fields).field "node" str? = some c.first.node :=
    field_of_under (.str c.first.node) (by rw [h _ (by decide)]; simp [PadConnection.fields]) rfl
  have hpad : (Json.obj fields).field "pad" str? = some c.first.pad :=
    field_of_under (.str c.first.pad) (by rw [h _ (by decide)]; simp [PadConnection.fields]) rfl
  have hconnectedNode : (Json.obj fields).field "connected_node" str? = some c.second.node :=
    field_of_under (.str c.second.node) (by rw [h _ (by decide)]; simp [PadConnection.fields]) rfl
  have hconnectedPad : (Json.obj fields).field "connected_pad" str? = some c.second.pad :=
    field_of_under (.str c.second.pad) (by rw [h _ (by decide)]; simp [PadConnection.fields]) rfl
  simp only [ofJson?, record?, Option.bind_eq_bind, Option.bind_some, hnode, hpad, hconnectedNode,
    hconnectedPad]

theorem PadConnection.ofJson?_toJson (c : PadConnection) : ofJson? c.toJson = some c :=
  ofJson?_obj fun key _ => under_sortKeys c.nodup_fields key

namespace GraphEdit

/-- What the edit carries is read back: an inner graph is exact, and the objects in a value have
their fields in key order. -/
def Exact : GraphEdit → Prop
  | .insertInlineSubgraph _ _ graph _ _ _ _ _ => graph.Exact
  | .updatePad _ value => value.normalize = value
  | _ => True

theorem nodup_fields (e : GraphEdit) :
    ((("type", Json.str e.kind) :: e.parameters).map Prod.fst).Nodup := by
  cases e <;> simp [parameters, PadConnection.fields]

/-- What stands in an edit under a key, apart from its kind. -/
theorem under_toJson (e : GraphEdit) {key : String} (h : key ≠ "type") :
    under key (sortKeys (("type", .str e.kind) :: e.parameters)) = under key e.parameters := by
  rw [under_sortKeys e.nodup_fields, under_cons_of_ne h.symm]

theorem variant?_toJson (e : GraphEdit) (place : Place) :
    e.toJson.variant? (Json.kind? place kinds) = some (e.kind, e.toJson) := by
  have hnone : under "type" e.parameters = [] := by
    cases e <;> simp [parameters, PadConnection.fields]
  have hunder : under "type" (sortKeys (("type", .str e.kind) :: e.parameters)) =
      [("type", .str e.kind)] := by
    rw [under_sortKeys e.nodup_fields, under_cons_self, hnone]
  have hfield : e.toJson.field "type" (Json.kind? place kinds) = some e.kind :=
    field_of_under _ hunder (by cases place <;> rfl)
  rw [toJson, object] at hfield ⊢
  simp only [variant?, hfield, Option.map_some]

section

variable {e : GraphEdit} {key : String} {α : Type} {decode : Json → Option α}

theorem field_toJson (a : Json) {x : α} (hk : key ≠ "type")
    (h : under key e.parameters = [(key, a)])
    (ha : decode a = some x) : e.toJson.field key decode = some x :=
  field_of_under a ((e.under_toJson hk).trans h) ha

theorem fieldWithDefault_toJson (a : Json) {x : α} (hk : key ≠ "type")
    (h : under key e.parameters = [(key, a)]) (ha : decode a = some x) (default : α) :
    e.toJson.fieldWithDefault key decode default = some x :=
  fieldWithDefault_of_under a ((e.under_toJson hk).trans h) ha default

theorem optionalField_toJson (encode : α → Json) {x : Option α} (hk : key ≠ "type")
    (h : under key e.parameters = [(key, ofOption encode x)])
    (hx : ∀ a ∈ x, encode a ≠ .null ∧ decode (encode a) = some a) :
    e.toJson.optionalField key decode = some x :=
  optionalField_of_ofOption encode ((e.under_toJson hk).trans h) hx

/-- A text that may be absent. -/
theorem optionalStr_toJson {x : Option String} (hk : key ≠ "type")
    (h : under key e.parameters = [(key, ofOption .str x)]) :
    e.toJson.optionalField key str? = some x :=
  optionalField_toJson .str hk h fun _ _ => ⟨by simp, rfl⟩

/-- Two numbers that may be absent. -/
theorem optionalPair_toJson {x : Option (Double × Double)} (hk : key ≠ "type")
    (h : under key e.parameters = [(key, ofOption .ofPair x)]) :
    e.toJson.optionalField key pair? = some x :=
  optionalField_toJson .ofPair hk h fun _ _ => ⟨by simp [ofPair], rfl⟩

theorem record?_toJson (e : GraphEdit) (names : List String) :
    e.toJson.record? names = some e.toJson := rfl

end

/-! ### The kinds of edits -/

theorem ofKind?_insertNode (id : Option String) (nodeType : String)
    (position : Option (Double × Double))
    (name : Option String) :
    ofKind? (insertNode id nodeType position name).toJson "insert_node" =
      some (insertNode id nodeType position name) := by
  let e := insertNode id nodeType position name
  have hid : e.toJson.optionalField "id" str? = some id :=
    optionalStr_toJson (by decide) (by simp [e, parameters])
  have htype : e.toJson.field "node_type" str? = some nodeType :=
    field_toJson (.str nodeType) (by decide) (by simp [e, parameters]) rfl
  have hposition : e.toJson.optionalField "editor_position" pair? = some position :=
    optionalPair_toJson (by decide) (by simp [e, parameters])
  have hname : e.toJson.optionalField "editor_name" str? = some name :=
    optionalStr_toJson (by decide) (by simp [e, parameters])
  simp only [ofKind?, record?_toJson, Option.bind_eq_bind, Option.bind_some]
  rw [hid, htype, hposition, hname]
  rfl

theorem ofKind?_insertSubgraph (id : Option String) (subgraphId : String)
    (position : Option (Double × Double)) (name : Option String) :
    ofKind? (insertSubgraph id subgraphId position name).toJson "insert_subgraph" =
      some (insertSubgraph id subgraphId position name) := by
  let e := insertSubgraph id subgraphId position name
  have hid : e.toJson.optionalField "id" str? = some id :=
    optionalStr_toJson (by decide) (by simp [e, parameters])
  have hsubgraph : e.toJson.field "subgraph_id" str? = some subgraphId :=
    field_toJson (.str subgraphId) (by decide) (by simp [e, parameters]) rfl
  have hposition : e.toJson.optionalField "editor_position" pair? = some position :=
    optionalPair_toJson (by decide) (by simp [e, parameters])
  have hname : e.toJson.optionalField "editor_name" str? = some name :=
    optionalStr_toJson (by decide) (by simp [e, parameters])
  simp only [ofKind?, record?_toJson, Option.bind_eq_bind, Option.bind_some]
  rw [hid, hsubgraph, hposition, hname]
  rfl

theorem ofKind?_insertInlineSubgraph (id subgraphId : Option String) {graph : GraphSnapshot}
    (hgraph : graph.Exact) (inbound outbound : List PadConnection) (removed : List String)
    (position : Option (Double × Double)) (name : Option String) :
    ofKind?
    (insertInlineSubgraph id subgraphId graph inbound outbound removed position name).toJson
        "insert_inline_subgraph" =
      some (insertInlineSubgraph id subgraphId graph inbound outbound removed position name) := by
  let e := insertInlineSubgraph id subgraphId graph inbound outbound removed position name
  have hid : e.toJson.optionalField "id" str? = some id :=
    optionalStr_toJson (by decide) (by simp [e, parameters])
  have hsubgraph : e.toJson.optionalField "subgraph_id" str? = some subgraphId :=
    optionalStr_toJson (by decide) (by simp [e, parameters])
  have hgraph : e.toJson.field "graph" (GraphSnapshot.ofJson? .enclosed) = some graph :=
    field_toJson graph.toJson (by decide) (by simp [e, parameters])
      (GraphSnapshot.ofJson?_toJson hgraph .enclosed)
  have hinbound : e.toJson.fieldWithDefault "inbound_connections" (listOf PadConnection.ofJson?)
      [] =
      some inbound :=
    fieldWithDefault_toJson (.arr (inbound.map PadConnection.toJson)) (by decide)
      (by simp [e, parameters]) (listOf_map fun c _ => c.ofJson?_toJson) []
  have houtbound : e.toJson.fieldWithDefault "outbound_connections" (listOf PadConnection.ofJson?)
      [] =
      some outbound :=
    fieldWithDefault_toJson (.arr (outbound.map PadConnection.toJson)) (by decide)
      (by simp [e, parameters]) (listOf_map fun c _ => c.ofJson?_toJson) []
  have hremoved : e.toJson.fieldWithDefault "remove_node_ids" strings? [] = some removed :=
    fieldWithDefault_toJson (ofStrings removed) (by decide) (by simp [e, parameters])
      (strings?_ofStrings removed) []
  have hposition : e.toJson.optionalField "editor_position" pair? = some position :=
    optionalPair_toJson (by decide) (by simp [e, parameters])
  have hname : e.toJson.optionalField "editor_name" str? = some name :=
    optionalStr_toJson (by decide) (by simp [e, parameters])
  simp only [ofKind?, record?_toJson, Option.bind_eq_bind, Option.bind_some]
  rw [hid, hsubgraph]
  simp only [Option.bind_some]
  rw [hgraph, hinbound, houtbound, hremoved, hposition, hname]
  rfl

theorem ofKind?_updateNode (id : String) (editor : EditorInfo) (newId : Option String) :
    ofKind? (updateNode id editor newId).toJson "update_node" =
    some (updateNode id editor newId) := by
  let e := updateNode id editor newId
  have hid : e.toJson.field "id" str? = some id :=
    field_toJson (.str id) (by decide) (by simp [e, parameters]) rfl
  have hname : e.toJson.optionalField "editor_name" str? = some editor.name :=
    optionalStr_toJson (by decide) (by simp [e, parameters])
  have hposition : e.toJson.optionalField "editor_position" pair? = some editor.position :=
    optionalPair_toJson (by decide) (by simp [e, parameters])
  have hdimensions : e.toJson.optionalField "editor_dimensions" pair? = some editor.dimensions :=
    optionalPair_toJson (by decide) (by simp [e, parameters])
  have hnewId : e.toJson.optionalField "new_id" str? = some newId :=
    optionalStr_toJson (by decide) (by simp [e, parameters])
  simp only [ofKind?, record?_toJson, EditorInfo.ofFields?, Option.bind_eq_bind, Option.bind_some]
  rw [hid, hname, hposition, hdimensions, hnewId]
  rfl

theorem ofKind?_updatePad (pad : PadRef) {value : Json} (h : value.normalize = value) :
    ofKind? (updatePad pad value).toJson "update_pad" = some (updatePad pad value) := by
  let e := updatePad pad value
  have hnode : e.toJson.field "node" str? = some pad.node :=
    field_toJson (.str pad.node) (by decide) (by simp [e, parameters]) rfl
  have hpad : e.toJson.field "pad" str? = some pad.pad :=
    field_toJson (.str pad.pad) (by decide) (by simp [e, parameters]) rfl
  have hvalue : e.toJson.field "value" any? = some value :=
    field_toJson value (by decide) (by simp [e, parameters]) (by rw [any?, h])
  simp only [ofKind?, record?_toJson, Option.bind_eq_bind, Option.bind_some]
  rw [hnode, hpad, hvalue]
  rfl

/-- Edits that name a node and nothing else. -/
theorem field_node_id (e : GraphEdit) {id : String} (h : e.parameters = [("node_id", .str id)]) :
    e.toJson.field "node_id" str? = some id :=
  field_toJson (.str id) (by decide) (by simp [h]) rfl

/-- Edits that name two pads. -/
theorem ofJson?_connection (e : GraphEdit) {c : PadConnection} (h : e.parameters = c.fields) :
    PadConnection.ofJson? e.toJson = some c :=
  PadConnection.ofJson?_obj fun _ hkey => h ▸ e.under_toJson hkey

theorem ofKind?_toJson {e : GraphEdit} (h : e.Exact) : ofKind? e.toJson e.kind = some e := by
  cases e with
  | insertNode id nodeType position name => exact ofKind?_insertNode id nodeType position name
  | insertSubgraph id subgraphId position name =>
    exact ofKind?_insertSubgraph id subgraphId position name
  | insertInlineSubgraph id subgraphId graph inbound outbound removed position name =>
    exact ofKind?_insertInlineSubgraph id subgraphId h inbound outbound removed position name
  | updateNode id editor newId => exact ofKind?_updateNode id editor newId
  | removeNode id =>
    have hid := field_node_id (.removeNode id) rfl
    simp only [kind, ofKind?, record?_toJson, Option.bind_eq_bind, Option.bind_some, hid]
  | connectPad c =>
    have hc := ofJson?_connection (.connectPad c) rfl
    simp only [kind, ofKind?, hc, Option.map_some]
  | disconnectPad c =>
    have hc := ofJson?_connection (.disconnectPad c) rfl
    simp only [kind, ofKind?, hc, Option.map_some]
  | updatePad pad value => exact ofKind?_updatePad pad h
  | removeSubgraph id =>
    have hid := field_node_id (.removeSubgraph id) rfl
    simp only [kind, ofKind?, record?_toJson, Option.bind_eq_bind, Option.bind_some, hid]

/-- An edit is read back. -/
theorem ofJson?_toJson {e : GraphEdit} (h : e.Exact) (place : Place) :
    ofJson? place e.toJson = some e := by
  rw [ofJson?, variant?_toJson]
  exact ofKind?_toJson h

end GraphEdit

/-! ### Edits in key order -/

theorem PadConnection.blind_ofJson? : Blind PadConnection.ofJson? :=
  .record? (by decide) (.bind (.field _ .str?) fun _ => .bind (.field _ .str?) fun _ =>
    .bind (.field _ .str?) fun _ => .bind (.field _ .str?) fun _ => .const _)

theorem PadConnection.keyed_toJson (c : PadConnection) : c.toJson.Keyed := by
  refine keyed_obj.mpr ⟨(ascending_sortKeys _).nodup, fun f hf => ?_⟩
  have hf := mem_sortKeys hf
  simp only [fields, List.mem_cons, List.not_mem_nil, or_false] at hf
  obtain rfl | rfl | rfl | rfl := hf <;> trivial

namespace GraphEdit

theorem blind_ofKind? (kind : String) : Blind fun v => ofKind? v kind := by
  unfold ofKind?
  split
  · exact .record? (by decide)
      (.bind (.optionalField _ .str?) fun _ => .bind (.field _ .str?) fun _ =>
        .bind (.optionalField _ .pair?) fun _ => .bind (.optionalField _ .str?) fun _ => .const _)
  · exact .record? (by decide)
      (.bind (.optionalField _ .str?) fun _ => .bind (.field _ .str?) fun _ =>
        .bind (.optionalField _ .pair?) fun _ => .bind (.optionalField _ .str?) fun _ => .const _)
  · exact .record? (by decide)
      (.bind (.optionalField _ .str?) fun _ => .bind (.optionalField _ .str?) fun _ =>
        .bind (.field _ (GraphSnapshot.blind_ofJson? .enclosed)) fun _ =>
        .bind (.fieldWithDefault _ PadConnection.blind_ofJson?.listOf _) fun _ =>
        .bind (.fieldWithDefault _ PadConnection.blind_ofJson?.listOf _) fun _ =>
        .bind (.fieldWithDefault _ .strings? _) fun _ => .bind (.optionalField _ .pair?) fun _ =>
        .bind (.optionalField _ .str?) fun _ => .const _)
  · exact .record? (by decide)
      (.bind (.field _ .str?) fun _ => .bind EditorInfo.blind_ofFields? fun _ =>
        .bind (.optionalField _ .str?) fun _ => .const _)
  · exact .record? (by decide) (.bind (.field _ .str?) fun _ => .const _)
  · exact PadConnection.blind_ofJson?.map _
  · exact PadConnection.blind_ofJson?.map _
  · exact .record? (by decide) (.bind (.field _ .str?) fun _ => .bind (.field _ .str?) fun _ =>
      .bind (.field _ .any?) fun _ => .const _)
  · exact .record? (by decide) (.bind (.field _ .str?) fun _ => .const _)
  · exact .const none

theorem blind_ofJson? (place : Place) : Blind (GraphEdit.ofJson? place) :=
  .variant? (.kind? place kinds) blind_ofKind?

theorem keyed_parameters {e : GraphEdit} (h : e.Exact) : ∀ f ∈ e.parameters, f.2.Keyed := by
  have hstr (x : Option String) : (ofOption Json.str x).Keyed := keyed_ofOption fun _ _ => trivial
  have hpair (x : Option (Double × Double)) : (ofOption ofPair x).Keyed :=
    keyed_ofOption fun p _ => keyed_ofPair p
  have hconnections (cs : List PadConnection) : (Json.arr (cs.map PadConnection.toJson)).Keyed :=
    keyed_arr_map fun c _ => c.keyed_toJson
  have hatom (x : String) : (Json.str x).Keyed := trivial
  cases e with
  | insertInlineSubgraph id subgraphId graph inbound outbound removed position name =>
    have hgraph := GraphSnapshot.keyed_toJson graph h
    simp [parameters, hstr, hpair, hconnections, hgraph, keyed_ofStrings]
  | updatePad pad value =>
    have hvalue : value.Keyed := h ▸ keyed_normalize value
    simp [parameters, hatom, hvalue]
  | _ => simp [parameters, PadConnection.fields, hstr, hpair, hatom]

theorem keyed_toJson {e : GraphEdit} (h : e.Exact) : e.toJson.Keyed := by
  refine keyed_obj.mpr ⟨(ascending_sortKeys _).nodup, fun f hf => ?_⟩
  obtain rfl | hf := List.mem_cons.mp (mem_sortKeys hf)
  · trivial
  · exact keyed_parameters h f hf

/-- An edit is read back from any value that differs from its JSON form in the order of fields
only. -/
theorem ofJson?_of_reorders {e : GraphEdit} (h : e.Exact) (place : Place) {v : Json}
    (hv : Reorders v e.toJson) : ofJson? place v = some e :=
  (blind_ofJson? place hv).trans (ofJson?_toJson h place)

end GraphEdit

/-- Nothing is lost on the wire. A snapshot is read back from the records that are written, and
from the JSON value they stand for, in which the fields of all records are in key order
(`Json.normalize`); and so is an edit. Only a pad value or an object schema `null` would not come
back, since it is written like an absent one; `GraphSnapshot.Exact` and `GraphEdit.Exact` leave
that out. -/
theorem wire_lossless (place : Place) :
    (∀ g : GraphSnapshot, g.Exact →
      GraphSnapshot.ofJson? place g.toJson = some g ∧
        GraphSnapshot.ofJson? place g.toJson.normalize = some g) ∧
    ∀ e : GraphEdit, e.Exact →
      GraphEdit.ofJson? place e.toJson = some e ∧ GraphEdit.ofJson? place e.toJson.normalize =
      some e := by
  refine ⟨fun g h => ⟨GraphSnapshot.ofJson?_toJson h place, ?_⟩,
    fun e h => ⟨GraphEdit.ofJson?_toJson h place, ?_⟩⟩
  · exact GraphSnapshot.ofJson?_of_reorders h place (.normalize (GraphSnapshot.keyed_toJson g h))
  · exact GraphEdit.ofJson?_of_reorders h place (.normalize (GraphEdit.keyed_toJson h))

/-- A graph in a graph; the pad of its node has a list of lists of objects as constraint. -/
def nestedSnapshot : GraphSnapshot where
  nodes := [{ NodeSnapshot.bare "s" "Subgraph" with
    subgraph := some { subgraphId := none, graph := { nodes :=
      [{ NodeSnapshot.bare "a" "Display" with
        pads := [{
          id := "value"
          padType := .propertySink
          value := some (.obj [("x", .int 1), ("y", .bool true)])
          allowedTypes :=
            some [.list (some [.list (some [.object (some (.obj []))])])] }] }] } } }]

/-- A nested graph comes back, alone and in an edit, and so does an update of a pad to `null`. -/
theorem wire_lossless_nested :
    GraphSnapshot.ofJson? .plain nestedSnapshot.toJson.normalize = some nestedSnapshot ∧
      let insert := GraphEdit.insertInlineSubgraph none none nestedSnapshot
        [⟨⟨"a", "out"⟩, ⟨"s", "a:value"⟩⟩] [] ["b"] none none
      let update := GraphEdit.updatePad ⟨"a", "value"⟩ .null
      GraphEdit.ofJson? .plain insert.toJson = some insert ∧
        GraphEdit.ofJson? .plain update.toJson = some update := by
  have hschema : ∀ v ∈ some (Json.obj []), v.Exact := by
    rintro v ⟨⟩
    exact ⟨nofun, rfl⟩
  have hvalue : ∀ v ∈ some (Json.obj [("x", .int 1), ("y", .bool true)]), v.Exact := by
    rintro v ⟨⟩
    exact ⟨nofun, rfl⟩
  have hexact : nestedSnapshot.Exact := by
    refine ⟨⟨nofun, ⟨List.forall_mem_singleton.mpr ⟨hvalue, ?_⟩, trivial⟩, trivial⟩, trivial⟩
    rintro l ⟨⟩
    exact List.forall_mem_singleton.mpr ⟨⟨hschema, trivial⟩, trivial⟩
  refine ⟨((wire_lossless .plain).1 nestedSnapshot hexact).2, ?_⟩
  intro insert update
  exact ⟨((wire_lossless .plain).2 insert hexact).1, ((wire_lossless .plain).2 update rfl).1⟩

end Patchbay
