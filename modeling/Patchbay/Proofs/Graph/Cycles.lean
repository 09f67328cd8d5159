import Patchbay.Proofs.Graph.Settled
import Patchbay.Proofs.Graph.Order

/-!
# Cycles around which no types flow

On a cycle, types could keep each other alive. They do not if all nodes that a cycle leads to are
calm, and take their types from nodes that no cycle leads to, or from nodes of a lower rank
(`GraphState.Untangled`). All but the types of the sources of a calm node is *firm*: it is the same
in every pass.
-/

namespace Patchbay

/-! ### What is firm -/

/-- The pad without its effective constraints, and without the declared ones if it is a source that
has no value. What is left is the same in every pass over a calm node. -/
def PadState.firm (p : PadState) : PadState :=
  if p.padType = .statelessSource then { p.bare with declared := none } else p.bare

/-- The node with the firm parts of its pads, and unresolved. -/
def NodeEntry.firm (e : NodeEntry) : NodeEntry :=
  { e with pads := e.pads.map PadState.firm, state := .unresolved }

/-- The graph with the firm parts of its nodes. -/
def GraphState.firm (s : GraphState) : GraphState := { s with nodes := s.nodes.map NodeEntry.firm }

section

variable {p q : PadState} {pads pads' : List PadState} {e d : NodeEntry}

theorem PadState.firm_bare (p : PadState) : p.bare.firm = p.firm := rfl

theorem PadState.firm_of_bare (h : p.bare = q.bare) : p.firm = q.firm := by
  rw [← firm_bare, h, firm_bare]

@[simp] theorem PadSpec.firm_id (spec : PadSpec) : spec.firm.id = spec.id := by
  rw [firm]
  split <;> rfl

@[simp] theorem PadSpec.firm_padType (spec : PadSpec) : spec.firm.padType = spec.padType := by
  rw [firm]
  split <;> rfl

@[simp] theorem PadState.firm_id (p : PadState) : p.firm.id = p.id := by
  rw [firm]
  split <;> rfl

@[simp] theorem PadState.firm_padType (p : PadState) : p.firm.padType = p.padType := by
  rw [firm]
  split <;> rfl

@[simp] theorem PadState.firm_value (p : PadState) : p.firm.value = p.value := by
  rw [firm]
  split <;> rfl

@[simp] theorem PadState.firm_proxy (p : PadState) : p.firm.proxy = p.proxy := by
  rw [firm]
  split <;> rfl

theorem PadState.outline_of_firm (h : p.firm = q.firm) : p.outline = q.outline := by
  refine outline_eq_iff.mpr ⟨?_, ?_, ?_⟩
  · rw [← firm_id p, h, firm_id]
  · rw [← firm_padType p, h, firm_padType]
  · rw [← firm_proxy p, h, firm_proxy]

theorem map_firm_of_bare (h : pads.map PadState.bare = pads'.map PadState.bare) :
    pads.map PadState.firm = pads'.map PadState.firm := by
  have hmap := congrArg (List.map PadState.firm) h
  simpa only [List.map_map, Function.comp_def, PadState.firm_bare] using hmap

theorem NodeEntry.firm_eq_iff :
    e.firm = d.firm ↔ e.id = d.id ∧ e.nodeType = d.nodeType ∧ e.editor = d.editor ∧
      e.pads.map PadState.firm = d.pads.map PadState.firm ∧ e.body = d.body := by
  simp only [firm, NodeEntry.mk.injEq, true_and]

theorem NodeEntry.firm_of_bare (h : e.bare = d.bare) : e.firm = d.firm := by
  obtain ⟨hid, htype, heditor, hpads, hbody⟩ := bare_eq_iff.mp h
  exact firm_eq_iff.mpr ⟨hid, htype, heditor, map_firm_of_bare hpads, hbody⟩

theorem findPad_firm (id : String) (pads : List PadState) :
    findPad id (pads.map PadState.firm) = (findPad id pads).map PadState.firm := by
  rw [findPad, List.find?_map, findPad]
  simp only [Function.comp_def, PadState.firm_id]

end

namespace GraphState

theorem pad?_firm (s : GraphState) (r : PadRef) :
    s.firm.pad? r = (s.pad? r).map PadState.firm := by
  rw [pad?, pad?, node?, firm, List.find?_map, node?]
  simp only [Function.comp_def, NodeEntry.firm]
  cases s.nodes.find? fun e => e.id == r.node with
  | none => rfl
  | some e => exact findPad_firm r.pad e.pads

theorem isSound_firm (s : GraphState) (l : Link) : s.firm.isSound l = s.isSound l := by
  simp only [isSound, pad?_firm, Option.any_map, PadState.isSource,
    PadState.firm_padType]

/-- What a firm declaration makes of a pad is firm: `mergedPad` of specs that differ in the types
of sources without values. -/
theorem firm_mergedPad_congr {spec spec' : PadSpec} (pads : List PadState)
    (h : spec.firm = spec'.firm) : (mergedPad pads spec).firm = (mergedPad pads spec').firm := by
  have htype : spec.padType = spec'.padType := by
    rw [← PadSpec.firm_padType, h, PadSpec.firm_padType]
  by_cases hstateless : spec.padType = .statelessSource
  · -- such a pad holds no value, and its constraints do not count
    have hmerge : ∀ spec : PadSpec, spec.padType = .statelessSource →
        mergedPad pads spec = .declare spec none := by
      intro spec hspec
      rw [mergedPad]
      split
      · rw [PadState.merge, PadState.keptValue, hspec]
        rfl
      · rw [PadState.ofSpec, hspec]
        rfl
    have hstateless' := htype ▸ hstateless
    rw [PadSpec.firm, if_pos hstateless, PadSpec.firm, if_pos hstateless', PadSpec.mk.injEq] at h
    obtain ⟨hid, hgroup, -, -, -, hproxy⟩ := h
    rw [hmerge _ hstateless, hmerge _ hstateless']
    simp only [PadState.firm, PadState.declare, hstateless, hstateless', PadState.bare, if_true,
      hid, hgroup, hproxy]
  · have hstateless' := htype ▸ hstateless
    rw [PadSpec.firm, if_neg hstateless, PadSpec.firm, if_neg hstateless'] at h
    rw [h]

/-! ### Nodes on cycles -/

/-- The node is calm (`NodeType.Calm`), and takes types from nodes that no cycle leads to
(`Ahead`), or from nodes of a lower rank. -/
def Relays (s : GraphState) (rank : String → Nat) (e : NodeEntry) : Prop :=
  ∃ t K, e.body = .plugin t ∧ t.Calm K ∧ ∀ l ∈ s.links, l.sink.node = e.id → l.sink.pad ∈ K →
    s.Ahead l.source.node ∨ rank l.source.node < rank e.id

/-- The nodes that cycles lead to are calm, and take types from lower ranks (`Relays`). There are
passes enough for all ranks. Without cycles this is so of every graph (`Acyclic.untangled`). -/
def Untangled (passes : Nat) (s : GraphState) : Prop :=
  ∃ rank : String → Nat, ∀ e ∈ s.nodes, s.Ahead e.id ∨ rank e.id + 2 ≤ passes ∧ s.Relays rank e

theorem Acyclic.untangled {s : GraphState} (h : s.Acyclic) (passes : Nat) : s.Untangled passes :=
  ⟨fun _ => 0, fun e _ => .inl (h.ahead e.id)⟩

end GraphState

end Patchbay
