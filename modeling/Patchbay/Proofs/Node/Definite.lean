import Patchbay.Proofs.Constraint.Definite
import Patchbay.Proofs.Node.Builtin

/-!
# Definite declarations

Pads, declarations and views in which the negative zero does not occur are *definite*. A definite
pad whose declaration does not change is the same to the digit (`PadState.Definite.bare_eq`). The
built-in types declare no negative zero unless they see one (`NodeType.IsBuiltin.keepsDefinite`).
-/

namespace Patchbay

/-- The negative zero does not occur in the declaration. -/
structure PadSpec.Definite (spec : PadSpec) : Prop where
  constraints : spec.constraints.Definite
  default : spec.default.all Json.isDefinite = true

/-- The negative zero does not occur in the pad. -/
structure PadState.Definite (p : PadState) : Prop where
  declared : p.declared.Definite
  effective : p.effective.Definite
  value : p.value.all Json.isDefinite = true

/-- The negative zero does not occur in what a node sees. -/
structure NodeView.Definite (view : NodeView) : Prop where
  pads : ∀ p ∈ view.pads, p.Definite
  peers : ∀ x ∈ view.peers, x.2.constraints.Definite

/-- A type that declares no negative zero unless it sees one. -/
def NodeType.KeepsDefinite (t : NodeType) : Prop :=
  ∀ view specs, view.Definite → t.resolve view = .ok specs → ∀ spec ∈ specs, spec.Definite

/-! ### Pads under declarations -/

namespace PadState

variable {p : PadState} {spec : PadSpec}

theorem definite_declare {value : Option Json} (hspec : spec.Definite)
    (hvalue : value.all Json.isDefinite = true) : (declare spec value).Definite :=
  ⟨hspec.constraints, hspec.constraints, hvalue⟩

/-- A fresh pad is as definite as its declaration. -/
theorem definite_ofSpec (hspec : spec.Definite) : (ofSpec spec).Definite := by
  refine definite_declare hspec ?_
  split
  · exact hspec.default
  · rfl

/-- A pad keeps its value, takes the default, or has none. -/
theorem keptValue_cases (p : PadState) (spec : PadSpec) :
    p.keptValue spec = p.value ∨ p.keptValue spec = spec.default ∨ p.keptValue spec = none := by
  rw [keptValue]
  split
  · exact .inr (.inr rfl)
  · split
    · exact .inr (.inl rfl)
    · split
      · rename_i v hv
        split
        · exact .inl hv.symm
        · exact .inr (.inl rfl)
      · exact .inr (.inl rfl)

/-- A definite pad is definite under a new, definite declaration. -/
theorem definite_merge (hp : p.Definite) (hspec : spec.Definite) : (p.merge spec).Definite := by
  refine definite_declare hspec ?_
  rcases p.keptValue_cases spec with h | h | h <;> rw [h]
  · exact hp.value
  · exact hspec.default
  · rfl

end PadState

/-! ### Built-in types -/

theorem definite_peerConstraints {view : NodeView} (h : view.Definite) (id : String) :
    (view.peerConstraints id).Definite := by
  rw [NodeView.peerConstraints, NodeView.peer]
  cases hl : lookupKey id view.peers with
  | none => exact Constraints.each_none
  | some peer => exact h.peers _ (mem_of_lookupKey hl)

private theorem definite_single {c : Constraint} (h : c.isDefinite = true) :
    Constraints.Definite (some [c]) :=
  Constraints.each_some.mpr (List.forall_mem_singleton.mpr h)

theorem PropertyNode.keepsDefinite (name description : String) {shape : Constraint}
    {default : Json}
    (hshape : shape.isDefinite = true) (hdefault : default.isDefinite = true) :
    (PropertyNode.nodeType name description shape default).KeepsDefinite := by
  rintro view specs - h
  cases h
  exact List.forall_mem_singleton.mpr ⟨definite_single hshape, hdefault⟩

theorem Ticker.keepsDefinite : Ticker.nodeType.KeepsDefinite := by
  rintro view specs - h
  cases h
  exact List.forall_mem_cons.mpr ⟨⟨definite_single rfl, rfl⟩,
    List.forall_mem_singleton.mpr ⟨definite_single rfl, rfl⟩⟩

theorem Display.keepsDefinite : Display.nodeType.KeepsDefinite := by
  rintro view specs - h
  cases h
  exact List.forall_mem_singleton.mpr ⟨Constraints.each_none, rfl⟩

theorem Passthrough.keepsDefinite : Passthrough.nodeType.KeepsDefinite := by
  rintro view specs hview h
  cases h
  exact List.forall_mem_cons.mpr ⟨⟨Constraints.each_none, rfl⟩,
    List.forall_mem_singleton.mpr ⟨definite_peerConstraints hview _, rfl⟩⟩

theorem Gate.keepsDefinite : Gate.nodeType.KeepsDefinite := by
  rintro view specs hview h
  cases h
  exact List.forall_mem_cons.mpr ⟨⟨Constraints.each_none, rfl⟩,
    List.forall_mem_cons.mpr ⟨⟨definite_single rfl, rfl⟩,
      List.forall_mem_singleton.mpr ⟨definite_peerConstraints hview _, rfl⟩⟩⟩

theorem Join.keepsDefinite : Join.nodeType.KeepsDefinite := by
  rintro view specs - h spec hspec
  cases h
  simp only [List.mem_append, List.mem_cons, List.mem_map, List.not_mem_nil, or_false] at hspec
  rcases hspec with ((rfl | rfl) | ⟨index, -, rfl⟩) | rfl <;> exact ⟨definite_single rfl, rfl⟩

theorem Compare.keepsDefinite : Compare.nodeType.KeepsDefinite := by
  have hcomparable : Compare.comparable.Definite := Constraints.each_some.mpr (by decide)
  rintro view specs hview h spec hspec
  cases h
  simp only [List.mem_cons, List.not_mem_nil, or_false] at hspec
  rcases hspec with rfl | rfl | rfl | rfl
  · exact ⟨hcomparable.intersect (definite_peerConstraints hview _), rfl⟩
  · exact ⟨hcomparable.intersect (definite_peerConstraints hview _), rfl⟩
  · refine ⟨definite_single rfl, ?_⟩
    cases hmenu : Compare.menu view <;> rfl
  · exact ⟨definite_single rfl, rfl⟩

/-- Built-in types declare no negative zero unless they see one. -/
theorem NodeType.IsBuiltin.keepsDefinite {t : NodeType} (h : t.IsBuiltin) : t.KeepsDefinite :=
  h.elim (PropertyNode.keepsDefinite _ _ rfl rfl) (PropertyNode.keepsDefinite _ _ rfl rfl)
    (PropertyNode.keepsDefinite _ _ rfl rfl) (PropertyNode.keepsDefinite _ _ rfl rfl)
    Ticker.keepsDefinite Passthrough.keepsDefinite Join.keepsDefinite Compare.keepsDefinite
    Gate.keepsDefinite Display.keepsDefinite

end Patchbay
