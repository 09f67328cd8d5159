import Patchbay.Proofs.Json.Reordering
import Patchbay.Proofs.Snapshot.Codec

/-!
# Snapshots in key order

The reader of snapshots does not see the order of fields (`GraphSnapshot.blind_ofJson?`), and no
record is written with a field twice (`GraphSnapshot.keyed_toJson`). So a snapshot is read back
from its JSON form with the fields of all records in key order, too.
-/

namespace Patchbay

open Json

/-! ### Readers -/

namespace Constraint

theorem blind_ofTagged {items : Json → Option (List Constraint)} (hi : Blind items)
    (tag : String) :
    Blind fun v => ofTagged items v tag := by
  -- most tags come without fields
  have hbare (c : Constraint) : Blind fun v => (v.record? []).map fun _ => c := by
    simp only [Option.map_eq_bind]
    exact .record? List.nodup_nil (.const (some c))
  unfold ofTagged
  split
  · exact hbare _
  · exact .record? (by decide) (.bind (.optionalField _ .int64?) fun _ =>
      .bind (.optionalField _ .int64?) fun _ => .const _)
  · exact .record? (by decide) (.bind (.optionalField _ .double?) fun _ =>
      .bind (.optionalField _ .double?) fun _ => .const _)
  · exact hbare _
  · exact .record? (by decide) (.bind (.field _ .strings?) fun _ => .const _)
  · exact hbare _
  · exact hbare _
  · exact hbare _
  · exact hbare _
  · exact hbare _
  · exact hbare _
  · exact hbare _
  · exact hbare _
  · exact .record? (by decide) (.bind (.optionalField _ .any?) fun _ => .const _)
  · exact .record? (by decide) (.bind (.optionalField _ hi) fun _ => .const _)
  · exact .record? (by decide) (.bind (.fieldWithDefault _ .strings? _) fun _ => .const _)
  · exact hbare _
  · exact hbare _
  · exact .const none

theorem blind_ofJsonWithin (depth : Nat) (place : Place) : Blind (ofJsonWithin depth place) := by
  induction depth generalizing place with
  | zero => exact .const none
  | succ depth ih =>
    exact .variant? (.kind? place tags) fun tag => blind_ofTagged (ih .enclosed).listOf tag

theorem blind_ofJson? (place : Place) : Blind (Constraint.ofJson? place) := by
  intro v w h
  rw [ofJson?, ofJson?, h.depth_eq]
  exact blind_ofJsonWithin w.depth place h

end Constraint

theorem Constraints.blind_ofJson? (place : Place) : Blind (Constraints.ofJson? place) := by
  have hlist := (Constraint.blind_ofJson? place).listOf
  intro v w h
  obtain ⟨rfl, -⟩ | ⟨as, bs, rfl, rfl⟩ | ⟨fs, gs, rfl, rfl⟩ := h.shapes
  · rfl
  · exact congrArg (Option.map some) (hlist h)
  · exact congrArg (Option.map some) (hlist h)

theorem PadRef.blind_ofJson? : Blind PadRef.ofJson? :=
  .record? (by decide) (.bind (.field _ .str?) fun _ => .bind (.field _ .str?) fun _ => .const _)

theorem PadType.blind_ofJson? (place : Place) : Blind (PadType.ofJson? place) :=
  .bind (.name? place) fun _ => .const _

theorem Metadata.blind_ofJson? : Blind Metadata.ofJson? :=
  .record? (by decide) (.bind (.field _ .str?) fun _ => .bind (.optionalField _ .str?) fun _ =>
    .bind (.fieldWithDefault _ .strings? _) fun _ => .const _)

theorem PadSnapshot.blind_ofJson? (place : Place) : Blind (PadSnapshot.ofJson? place) :=
  .record? (by decide) (.bind (.field _ .str?) fun _ => .bind (.optionalField _ .str?) fun _ =>
    .bind (.field _ (PadType.blind_ofJson? place)) fun _ => .bind (.optionalField _ .any?) fun _ =>
    .bind (.fieldWithDefault _ PadRef.blind_ofJson?.listOf _) fun _ =>
    .bind (.optionalField _ PadRef.blind_ofJson?) fun _ =>
    .bind (.fieldWithDefault _ (Constraints.blind_ofJson? place) _) fun _ => .const _)

theorem EditorInfo.blind_ofFields? : Blind EditorInfo.ofFields? :=
  .bind (.optionalField _ .str?) fun _ => .bind (.optionalField _ .pair?) fun _ =>
    .bind (.optionalField _ .pair?) fun _ => .const _

theorem GraphSnapshot.blind_ofNodes {node : Json → Option NodeSnapshot} (h : Blind node) :
    Blind (GraphSnapshot.ofNodes node) :=
  .record? (by decide) (.bind (.fieldWithDefault _ h.listOf _) fun _ => .const _)

theorem SubgraphSnapshot.blind_ofNodes {node : Json → Option NodeSnapshot} (h : Blind node) :
    Blind (SubgraphSnapshot.ofNodes node) :=
  .record? (by decide) (.bind (.optionalField _ .str?) fun _ =>
    .bind (.field _ (GraphSnapshot.blind_ofNodes h)) fun _ => .const _)

theorem NodeSnapshot.blind_ofJsonWithin (place : Place) (depth : Nat) :
    Blind (NodeSnapshot.ofJsonWithin place depth) := by
  induction depth with
  | zero => exact .const none
  | succ depth ih =>
    exact .record? (by decide) (.bind (.field _ .str?) fun _ => .bind (.field _ .str?) fun _ =>
      .bind EditorInfo.blind_ofFields? fun _ =>
      .bind (.fieldWithDefault _ (PadSnapshot.blind_ofJson? place).listOf _) fun _ =>
      .bind (.fieldWithDefault _ .str? _) fun _ => .bind
        (.fieldWithDefault _ Metadata.blind_ofJson? _) fun _ =>
      .bind (.optionalField _ (SubgraphSnapshot.blind_ofNodes ih)) fun _ => .const _)

theorem GraphSnapshot.blind_ofJson? (place : Place) : Blind (GraphSnapshot.ofJson? place) := by
  intro v w h
  rw [ofJson?, ofJson?, h.depth_eq]
  exact GraphSnapshot.blind_ofNodes (NodeSnapshot.blind_ofJsonWithin place w.depth) h

/-! ### Writers -/

theorem Json.Exact.keyed {v : Json} (h : v.Exact) : v.Keyed := h.normal ▸ keyed_normalize v

theorem Json.keyed_ofOption {α : Type} {encode : α → Json} {x : Option α}
    (h : ∀ a ∈ x, (encode a).Keyed) :
    (ofOption encode x).Keyed := by
  cases x with
  | none => trivial
  | some a => exact h a rfl

theorem Json.keyed_arr_map {α : Type} {encode : α → Json} {as : List α}
    (h : ∀ a ∈ as, (encode a).Keyed) :
    (Json.arr (as.map encode)).Keyed :=
  keyed_arr.mpr fun _ hv => by
    obtain ⟨a, ha, rfl⟩ := List.mem_map.mp hv
    exact h a ha

theorem Json.keyed_ofStrings (xs : List String) : (ofStrings xs).Keyed :=
  keyed_arr_map fun _ _ => trivial

theorem Json.keyed_ofPair (p : Double × Double) : (ofPair p).Keyed := ⟨trivial, trivial, trivial⟩

namespace Constraint

mutual

theorem keyed_toJson : ∀ c : Constraint, c.Exact → c.toJson.Keyed
  | .integer lo hi, _ => by
    cases lo <;> cases hi <;> simp [toJson, tagged, intBound, presentField, Keyed, KeyedFields]
  | .float lo hi, _ => by
    cases lo <;> cases hi <;> simp [toJson, tagged, floatBound, presentField, Keyed, KeyedFields]
  | .enumeration options, _ => by
    simp [toJson, tagged, Keyed, KeyedFields, keyed_ofStrings options]
  | .object none, _ => by simp [toJson, tagged, presentField, Keyed, KeyedFields]
  | .object (some v), h => by
    have hv : v.Keyed := (h v rfl).keyed
    simp [toJson, tagged, presentField, Keyed, KeyedFields, hv]
  | .list none, _ => by simp [toJson, tagged, Keyed, KeyedFields]
  | .list (some cs), h => by
    have hitems := keyedItems_toJsonAll cs h
    simp [toJson, tagged, Keyed, KeyedFields, hitems]
  | .nodeReference types, _ => by
    simp [toJson, tagged, Keyed, KeyedFields, keyed_ofStrings types]
  | .string, _ | .boolean, _ | .audio, _ | .video, _ | .audioClip, _ | .videoClip, _ | .avClip, _
  | .contextMessage, _ | .textStream, _ | .trigger, _ | .secret, _ | .schema, _ => by
    simp [toJson, tagged, Keyed, KeyedFields]

theorem keyedItems_toJsonAll : ∀ cs : List Constraint, ExactAll cs → KeyedItems (toJsonAll cs)
  | [], _ => trivial
  | c :: cs, h => ⟨keyed_toJson c h.1, keyedItems_toJsonAll cs h.2⟩

end

end Constraint

theorem Constraints.keyed_toJson {cs : Constraints} (h : cs.Exact) :
    (Constraints.toJson cs).Keyed := by
  cases cs with
  | none => trivial
  | some l => exact Constraint.keyedItems_toJsonAll l (Constraint.exactAll_iff.mpr (h l rfl))

theorem PadRef.keyed_toJson (r : PadRef) : r.toJson.Keyed := by
  simp [PadRef.toJson, Keyed, KeyedFields]

theorem Metadata.keyed_toJson (m : Metadata) : m.toJson.Keyed := by
  cases hs : m.secondary <;>
    simp [Metadata.toJson, presentField, Keyed, KeyedFields, keyed_ofStrings, hs]

theorem PadSnapshot.keyed_toJson {p : PadSnapshot} (h : p.Exact) : p.toJson.Keyed := by
  have hvalue : (p.value.getD .null).Keyed := by
    cases hv : p.value with
    | none => trivial
    | some v => exact (h.value v hv).keyed
  have hnext : (Json.arr (p.nextPads.map PadRef.toJson)).Keyed :=
    keyed_arr_map fun r _ => r.keyed_toJson
  have hprevious : (ofOption PadRef.toJson p.previousPad).Keyed :=
    keyed_ofOption fun r _ => r.keyed_toJson
  have hallowed := Constraints.keyed_toJson h.allowedTypes
  have htype : p.padType.toJson.Keyed := trivial
  cases hg : p.group <;>
    simp [PadSnapshot.toJson, presentField, keyed_obj, hvalue, hnext, hprevious, hallowed, htype,
      hg] <;>
    simp [Keyed]

/-- No key of editor information stands twice, and none is another field of a node. -/
theorem EditorInfo.keyed_fields (e : EditorInfo) :
    (e.fields.map Prod.fst).Sublist ["editor_name", "editor_position", "editor_dimensions"] ∧
      ∀ f ∈ e.fields, f.2.Keyed := by
  cases hn : e.name <;> cases hp : e.position <;> cases hd : e.dimensions <;>
    simp [EditorInfo.fields, presentField, hn, hp, hd, keyed_ofPair, Keyed]

mutual

theorem NodeSnapshot.keyed_toJson : ∀ n : NodeSnapshot, n.Exact → n.toJson.Keyed
  | ⟨id, nodeType, editor, pads, description, metadata, subgraph⟩, h => by
    obtain ⟨heditor, hfields⟩ := editor.keyed_fields
    obtain ⟨hsubgraph, hinner⟩ := SubgraphSnapshot.keyed_subgraphFields subgraph h.2
    have hpads : (Json.arr (pads.map PadSnapshot.toJson)).Keyed :=
      keyed_arr_map fun p hp => PadSnapshot.keyed_toJson (h.1 p hp)
    -- fields may be left out, but none comes in that is not in the full list
    have hkeys : ((("id", Json.str id) :: ("type", .str nodeType) :: editor.fields ++
        [("pads", .arr (pads.map PadSnapshot.toJson)), ("description", .str description),
          ("metadata", metadata.toJson)] ++ subgraphFields subgraph).map Prod.fst).Sublist
        (["id", "type"] ++ ["editor_name", "editor_position", "editor_dimensions"] ++
          ["pads", "description", "metadata"] ++ ["subgraph"]) := by
      simp only [List.map_append, List.map_cons, List.map_nil]
      exact (((List.Sublist.refl ["id", "type"]).append heditor).append (.refl _)).append hsubgraph
    rw [NodeSnapshot.toJson, keyed_obj]
    refine ⟨List.Nodup.sublist hkeys (by decide), ?_⟩
    simp only [List.mem_append, List.mem_cons, List.not_mem_nil, or_false]
    rintro f (((rfl | rfl | hf) | rfl | rfl | rfl) | hf)
    · trivial
    · trivial
    · exact hfields f hf
    · exact hpads
    · trivial
    · exact metadata.keyed_toJson
    · exact hinner f hf

theorem SubgraphSnapshot.keyed_subgraphFields : ∀ s : Option SubgraphSnapshot,
    SubgraphSnapshot.ExactOption s →
      ((subgraphFields s).map Prod.fst).Sublist ["subgraph"] ∧ ∀ f ∈ subgraphFields s, f.2.Keyed
  | none, _ => by simp [subgraphFields]
  | some ⟨id, graph⟩, h => by
    have hgraph := GraphSnapshot.keyed_toJson graph h
    cases id <;> simp [subgraphFields, SubgraphSnapshot.toJson, presentField, Keyed, KeyedFields,
      hgraph]

theorem GraphSnapshot.keyed_toJson : ∀ g : GraphSnapshot, g.Exact → g.toJson.Keyed
  | ⟨nodes⟩, h => by
    have hnodes := NodeSnapshot.keyedItems_nodesToJson nodes h
    simp [GraphSnapshot.toJson, Keyed, KeyedFields, hnodes]

theorem NodeSnapshot.keyedItems_nodesToJson : ∀ nodes : List NodeSnapshot,
    NodeSnapshot.ExactAll nodes → KeyedItems (nodesToJson nodes)
  | [], _ => by simp [nodesToJson, KeyedItems]
  | n :: ns, h => by
    rw [nodesToJson]
    exact ⟨NodeSnapshot.keyed_toJson n h.1, NodeSnapshot.keyedItems_nodesToJson ns h.2⟩

end

/-- A graph is read back from any value that differs from its JSON form in the order of fields
only. -/
theorem GraphSnapshot.ofJson?_of_reorders {g : GraphSnapshot} (h : g.Exact) (place : Place)
    {v : Json}
    (hv : Reorders v g.toJson) : ofJson? place v = some g :=
  (GraphSnapshot.blind_ofJson? place hv).trans (GraphSnapshot.ofJson?_toJson h place)

end Patchbay
