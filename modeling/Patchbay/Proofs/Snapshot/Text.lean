import Patchbay.Proofs.Json.Text
import Patchbay.Proofs.Snapshot.Codec

/-!
# Snapshots as text

The text of a snapshot is read back as that snapshot (`GraphSnapshot.read?_write`), if the snapshot
is *legible*: it is exact, its numbers are legible, and its JSON form does not nest too deep.
-/

namespace Patchbay

open Json

/-! ### What outlines cover -/

namespace Json

theorem coversFields_iff {o : Outline} {fields : List (String × Json)} :
    CoversFields o fields ↔ ∀ f ∈ fields, ∃ part, o.field? f.1 = some part ∧ Covers part f.2 := by
  induction fields with
  | nil => simp [CoversFields]
  | cons f fields ih => rw [CoversFields, ih, List.forall_mem_cons]

theorem coversItems_each {o : Outline} {items : List Json} (i : Nat) :
    CoversItems (.each o) i items ↔ ∀ a ∈ items, Covers o a := by
  induction items generalizing i with
  | nil => simp [CoversItems]
  | cons a items ih => rw [CoversItems, ih, List.forall_mem_cons]; rfl

/-- A field that is asked for in full is covered. -/
theorem covers_of_whole {o : Outline} {key : String} (a : Json) (h : o.field? key = some .whole) :
    ∃ part, o.field? key = some part ∧ Covers part a :=
  ⟨.whole, h, covers_whole a⟩

theorem forall_mem_presentField {α : Type} {key : String} {encode : α → Json} {x : Option α}
    {P : String × Json → Prop} (h : ∀ a, P (key, encode a)) : ∀ f ∈ presentField key encode x,
    P f := by
  cases x with
  | none => exact fun f hf => absurd hf List.not_mem_nil
  | some a => exact List.forall_mem_singleton.mpr (h a)

end Json

theorem PadRef.covers_toJson (r : PadRef) : Covers outline r.toJson :=
  coversFields_iff.mpr
    (by simp [outline, Outline.ofNames, Outline.field?, lookupKey, covers_whole])

theorem Metadata.covers_toJson (m : Metadata) : Covers outline m.toJson := by
  refine coversFields_iff.mpr ?_
  cases m.secondary <;>
    simp [presentField, outline, Outline.ofNames, Outline.field?, lookupKey, covers_whole]

theorem PadSnapshot.covers_toJson (p : PadSnapshot) : Covers outline p.toJson := by
  have hnext : Covers (.each PadRef.outline) (.arr (p.nextPads.map PadRef.toJson)) := by
    refine (coversItems_each 0).mpr fun a ha => ?_
    obtain ⟨r, -, rfl⟩ := List.mem_map.mp ha
    exact r.covers_toJson
  have hprevious : Covers PadRef.outline (ofOption PadRef.toJson p.previousPad) := by
    cases p.previousPad with
    | none => trivial
    | some r => exact r.covers_toJson
  refine coversFields_iff.mpr (List.forall_mem_cons.mpr ⟨covers_of_whole _ rfl,
    List.forall_mem_append.mpr ⟨forall_mem_presentField fun _ => covers_of_whole _ rfl, ?_⟩⟩)
  simp only [List.forall_mem_cons]
  exact ⟨covers_of_whole _ rfl, covers_of_whole _ rfl, ⟨_, rfl, hnext⟩, ⟨_, rfl, hprevious⟩,
    covers_of_whole _ rfl, fun f hf => absurd hf List.not_mem_nil⟩

mutual

theorem NodeSnapshot.covers_toJson : ∀ (n : NodeSnapshot) (k : Nat),
    Covers (NodeSnapshot.outlineWithin k) n.toJson
  | n, 0 => covers_whole n.toJson
  | ⟨id, nodeType, editor, pads, description, metadata, subgraph⟩, k + 1 => by
    have hpads : Covers (.each PadSnapshot.outline) (.arr (pads.map PadSnapshot.toJson)) := by
      refine (coversItems_each 0).mpr fun a ha => ?_
      obtain ⟨p, -, rfl⟩ := List.mem_map.mp ha
      exact p.covers_toJson
    rw [NodeSnapshot.toJson, subgraphFields_eq, NodeSnapshot.outlineWithin]
    refine coversFields_iff.mpr (List.forall_mem_append.mpr ⟨List.forall_mem_append.mpr
      ⟨List.forall_mem_cons.mpr ⟨covers_of_whole _ rfl, List.forall_mem_cons.mpr
        ⟨covers_of_whole _ rfl, ?_⟩⟩, ?_⟩, ?_⟩)
    · refine List.forall_mem_append.mpr ⟨List.forall_mem_append.mpr ⟨?_, ?_⟩, ?_⟩
      · exact forall_mem_presentField fun _ => covers_of_whole _ rfl
      · exact forall_mem_presentField fun _ => covers_of_whole _ rfl
      · exact forall_mem_presentField fun _ => covers_of_whole _ rfl
    · simp only [List.forall_mem_cons]
      exact ⟨⟨_, rfl, hpads⟩, covers_of_whole _ rfl, ⟨_, rfl, metadata.covers_toJson⟩,
        fun f hf => absurd hf List.not_mem_nil⟩
    · exact SubgraphSnapshot.covers_fields subgraph k

theorem SubgraphSnapshot.covers_fields : ∀ (subgraph : Option SubgraphSnapshot) (k : Nat),
    ∀ f ∈ presentField "subgraph" SubgraphSnapshot.toJson subgraph, ∃ part,
      (NodeSnapshot.outlineOf (SubgraphSnapshot.outlineOf (NodeSnapshot.outlineWithin k))).field?
      f.1 = some part ∧ Covers part f.2
  | none, _ => fun f hf => absurd hf List.not_mem_nil
  | some ⟨id, graph⟩, k => by
    refine List.forall_mem_singleton.mpr ⟨_, rfl, ?_⟩
    rw [SubgraphSnapshot.toJson]
    refine coversFields_iff.mpr (List.forall_mem_append.mpr
      ⟨forall_mem_presentField fun _ => covers_of_whole _ rfl, List.forall_mem_singleton.mpr ?_⟩)
    exact ⟨_, rfl, GraphSnapshot.covers_toJson graph k⟩

theorem GraphSnapshot.covers_toJson : ∀ (graph : GraphSnapshot) (k : Nat),
    Covers (GraphSnapshot.outlineOf (NodeSnapshot.outlineWithin k)) graph.toJson
  | ⟨nodes⟩, k => by
    rw [GraphSnapshot.toJson]
    refine coversFields_iff.mpr (List.forall_mem_singleton.mpr ⟨_, rfl, ?_⟩)
    exact (coversItems_each 0).mpr (NodeSnapshot.covers_nodesToJson nodes k)

theorem NodeSnapshot.covers_nodesToJson : ∀ (nodes : List NodeSnapshot) (k : Nat),
    ∀ a ∈ nodesToJson nodes, Covers (NodeSnapshot.outlineWithin k) a
  | [], _ => by
    rw [nodesToJson]
    exact fun a ha => absurd ha List.not_mem_nil
  | n :: ns, k => by
    rw [nodesToJson]
    exact List.forall_mem_cons.mpr ⟨NodeSnapshot.covers_toJson n k,
      NodeSnapshot.covers_nodesToJson ns k⟩

end

/-! ### The text of a snapshot -/

/-- The snapshot survives its text: no pad holds `null`, objects have their fields in key order,
numbers are read back, and containers do not nest too deep. -/
structure GraphSnapshot.Legible (g : GraphSnapshot) : Prop where
  exact : g.Exact
  numbers : g.toJson.Legible
  depth : g.toJson.depth ≤ depthLimit

/-- A test for legible snapshots. Those pass it whose values are scalars. -/
def GraphSnapshot.readsBack (g : GraphSnapshot) : Bool :=
  g.isScalar && decide (g.toJson.Legible ∧ g.toJson.depth ≤ depthLimit)

theorem GraphSnapshot.legible_of_readsBack {g : GraphSnapshot} (h : g.readsBack = true) :
    g.Legible := by
  rw [readsBack, Bool.and_eq_true, decide_eq_true_iff] at h
  exact ⟨exact_of_isScalar _ h.1, h.2.1, h.2.2⟩

/-- A legible snapshot is read back from its text. -/
theorem GraphSnapshot.read?_write {g : GraphSnapshot} (h : g.Legible) :
    read? g.write = some g := by
  have hread : readOutline outline g.toJson.compact = some g.toJson :=
    readOutline_compact h.depth h.numbers (g.covers_toJson depthLimit)
  rw [read?, write, hread]
  exact ofJson?_toJson h.exact .plain

end Patchbay
