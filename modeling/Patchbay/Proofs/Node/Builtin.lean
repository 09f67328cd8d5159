import Patchbay.Library
import Patchbay.Proofs.Json.Fields
import Patchbay.Proofs.Constraint.Plain

/-!
# The built-in node types

What the built-in types have in common (`NodeType.Tame`): their declarations never fail, declare no
proxies, start property pads with values that these pads accept, use plain constraints only, and
depend on nothing but the values of properties and what the declared sinks are fed with. A property
that is chosen from a menu starts with the first option, and which option is chosen does not affect
the declarations.

All of them but one are *calm* (`NodeType.Calm`): what feeds them shows in the types of their
sources, and nowhere else. The exception is the compare, whose menu depends on it.
-/

namespace Patchbay

/-- A declaration that stands for no other pad, and whose default it accepts itself. -/
def PadSpec.Consistent (spec : PadSpec) : Prop :=
  spec.proxy = none ∧ ∀ v, spec.default = some v → spec.constraints.accept v = true

/-- A property that is chosen from a menu. -/
def PadSpec.IsMenu (spec : PadSpec) : Prop :=
  spec.padType.isProperty = true ∧ ∃ options, spec.constraints = some [.enumeration options]

/-- The declaration, without its constraints if it is that of a source without a value. -/
def PadSpec.firm (spec : PadSpec) : PadSpec :=
  if spec.padType = .statelessSource then { spec with constraints := none } else spec

/-- The pads of a list of declarations without their constraints. -/
def outlineOfSpecs (specs : List PadSpec) : List (String × PadType) :=
  specs.map fun spec => (spec.id, spec.padType)

namespace NodeType

/-- A type that declares its pads in the way of the built-in types. -/
structure Tame (t : NodeType) : Prop where
  total : ∀ view, ∃ specs, t.resolve view = .ok specs
  consistent : ∀ view specs, t.resolve view = .ok specs → ∀ spec ∈ specs, spec.Consistent
  plain : ∀ view : NodeView, (∀ x ∈ view.peers, Constraints.Plain x.2.constraints) →
    ∀ specs, t.resolve view = .ok specs → ∀ spec ∈ specs, Constraints.Plain spec.constraints
  /-- Which pads there are depends on the values of properties. -/
  outline : ∀ view view' specs specs', (∀ id, view.property id = view'.property id) →
    t.resolve view = .ok specs → t.resolve view' = .ok specs' →
    outlineOfSpecs specs = outlineOfSpecs specs'
  /-- What the pads are like depends on the values that are not from menus, and on what feeds the
  sinks. -/
  congr : ∀ view view' specs, t.resolve view = .ok specs →
    (∀ id, (∀ spec ∈ specs, spec.id = id → ¬ spec.IsMenu) → view.property id = view'.property id) →
    (∀ spec ∈ specs, spec.padType.isSource = false →
      view.peerConstraints spec.id = view'.peerConstraints spec.id) →
    t.resolve view' = .ok specs
  menu : ∀ view specs, t.resolve view = .ok specs → ∀ spec ∈ specs, spec.padType.isProperty =
    true → ∀ option rest, spec.constraints = some [.enumeration (option :: rest)] →
      spec.default = some (.str option)

/-- A type that declares firmly everything but the constraints of sources without values, and these
depend on nothing but what feeds the sinks in `K`. -/
structure Calm (t : NodeType) (K : List String) : Prop where
  noMenu : ∀ view specs, t.resolve view = .ok specs → ∀ spec ∈ specs, ¬ spec.IsMenu
  firm : ∀ view view' specs specs', (∀ id, view.property id = view'.property id) →
    t.resolve view = .ok specs → t.resolve view' = .ok specs' →
    specs.map PadSpec.firm = specs'.map PadSpec.firm
  through : ∀ view view' specs, (∀ id, view.property id = view'.property id) →
    t.resolve view = .ok specs →
    (∀ spec ∈ specs, spec.padType.isSource = false → spec.id ∈ K →
      view.peerConstraints spec.id = view'.peerConstraints spec.id) →
    t.resolve view' = .ok specs

end NodeType

/-- What a pad sees is in a class when all that is seen is. -/
theorem NodeView.peerConstraints_in {C : Constraints → Prop} (hnone : C none) {view : NodeView}
    (h : ∀ x ∈ view.peers, C x.2.constraints) (id : String) : C (view.peerConstraints id) := by
  rw [NodeView.peerConstraints, NodeView.peer]
  cases hl : lookupKey id view.peers with
  | none => exact hnone
  | some peer => exact h _ (mem_of_lookupKey hl)

theorem plain_peerConstraints {view : NodeView}
    (h : ∀ x ∈ view.peers, Constraints.Plain x.2.constraints) (id : String) :
    Constraints.Plain (view.peerConstraints id) :=
  NodeView.peerConstraints_in Constraints.plain_none h id

private theorem accept_single {c : Constraint} {v : Json} :
    Constraints.accept (some [c]) v = c.accepts v := by
  simp [Constraints.accept, Constraint.anyAccepts]

private theorem plain_single {c : Constraint} (h : c.Plain) : Constraints.Plain (some [c]) :=
  Constraints.plain_some.mpr (List.forall_mem_singleton.mpr h)

private theorem not_isMenu_of_stateless {spec : PadSpec} (h : spec.padType.isProperty = false) :
    ¬ spec.IsMenu := by
  rintro ⟨hprop, -⟩
  rw [h] at hprop
  cases hprop

private theorem not_isMenu_of_single {spec : PadSpec} {c : Constraint}
    (h : spec.constraints = some [c]) (hc : ∀ options, c ≠ .enumeration options) :
    ¬ spec.IsMenu := by
  rintro ⟨-, options, hmenu⟩
  rw [h, Option.some.injEq, List.cons.injEq] at hmenu
  exact hc options hmenu.1

/-! ### Types whose declarations are fixed -/

/-- A type that declares the same pads whatever it sees. -/
private theorem tame_of_fixed {t : NodeType} {specs : List PadSpec}
    (h : ∀ view, t.resolve view = .ok specs) (hcons : ∀ spec ∈ specs, spec.Consistent)
    (hplain : ∀ spec ∈ specs, Constraints.Plain spec.constraints)
    (hmenu : ∀ spec ∈ specs, ¬ spec.IsMenu) : t.Tame := by
  have hspecs : ∀ view specs', t.resolve view = .ok specs' → specs' = specs := by
    intro view specs' h'
    rw [h view] at h'
    exact (Except.ok.inj h').symm
  refine ⟨fun view => ⟨specs, h view⟩, ?_, ?_, ?_, ?_, ?_⟩
  · intro view specs' h'
    exact hspecs view specs' h' ▸ hcons
  · intro view _ specs' h'
    exact hspecs view specs' h' ▸ hplain
  · intro view view' specs₁ specs₂ _ h₁ h₂
    rw [hspecs view specs₁ h₁, hspecs view' specs₂ h₂]
  · intro view view' specs' h' _ _
    rw [hspecs view specs' h', h view']
  · intro view specs' h' spec hspec hprop option rest hcs
    exact absurd ⟨hprop, _, hcs⟩ (hmenu spec (hspecs view specs' h' ▸ hspec))

/-- Such a type is calm, if it has no menus. -/
private theorem calm_of_fixed {t : NodeType} {specs : List PadSpec}
    (h : ∀ view, t.resolve view = .ok specs) (hmenu : ∀ spec ∈ specs, ¬ spec.IsMenu) :
    t.Calm [] := by
  have hspecs : ∀ view specs', t.resolve view = .ok specs' → specs' = specs := by
    intro view specs' h'
    rw [h view] at h'
    exact (Except.ok.inj h').symm
  refine ⟨?_, ?_, ?_⟩
  · intro view specs' h'
    exact hspecs view specs' h' ▸ hmenu
  · intro view view' specs₁ specs₂ _ h₁ h₂
    rw [hspecs view specs₁ h₁, hspecs view' specs₂ h₂]
  · intro view view' specs' _ h' _
    rw [hspecs view specs' h', h view']

theorem PropertyNode.tame (name description : String) {shape : Constraint} {default : Json}
    (hplain : shape.Plain) (haccept : shape.accepts default = true)
    (hmenu : ∀ options, shape ≠ .enumeration options) :
    (PropertyNode.nodeType name description shape default).Tame := by
  refine tame_of_fixed (fun _ => rfl) ?_ ?_ ?_
  · refine List.forall_mem_singleton.mpr ⟨rfl, fun v hv => ?_⟩
    cases hv
    rw [accept_single]
    exact haccept
  · exact List.forall_mem_singleton.mpr (plain_single hplain)
  · exact List.forall_mem_singleton.mpr (not_isMenu_of_single rfl hmenu)

theorem PropertyNode.calm (name description : String) {shape : Constraint} {default : Json}
    (hmenu : ∀ options, shape ≠ .enumeration options) :
    (PropertyNode.nodeType name description shape default).Calm [] :=
  calm_of_fixed (fun _ => rfl) (List.forall_mem_singleton.mpr (not_isMenu_of_single rfl hmenu))

theorem Ticker.tame : Ticker.nodeType.Tame := by
  refine tame_of_fixed (fun _ => rfl) ?_ ?_ ?_
  · refine List.forall_mem_cons.mpr
      ⟨⟨rfl, fun v hv => ?_⟩, List.forall_mem_singleton.mpr ⟨rfl, nofun⟩⟩
    cases hv
    decide
  · exact List.forall_mem_cons.mpr
      ⟨plain_single trivial, List.forall_mem_singleton.mpr (plain_single trivial)⟩
  · exact List.forall_mem_cons.mpr
      ⟨not_isMenu_of_single rfl nofun, List.forall_mem_singleton.mpr (not_isMenu_of_stateless rfl)⟩

theorem Ticker.calm : Ticker.nodeType.Calm [] :=
  calm_of_fixed (fun _ => rfl) (List.forall_mem_cons.mpr
    ⟨not_isMenu_of_single rfl nofun, List.forall_mem_singleton.mpr (not_isMenu_of_stateless rfl)⟩)

theorem Display.tame : Display.nodeType.Tame :=
  tame_of_fixed (fun _ => rfl) (List.forall_mem_singleton.mpr ⟨rfl, nofun⟩)
    (List.forall_mem_singleton.mpr Constraints.plain_none)
    (List.forall_mem_singleton.mpr fun h => by obtain ⟨-, _, h⟩ := h; cases h)

theorem Display.calm : Display.nodeType.Calm [] :=
  calm_of_fixed (fun _ => rfl)
    (List.forall_mem_singleton.mpr fun h => by obtain ⟨-, _, h⟩ := h; cases h)

/-! ### Types that pass on what they are fed with -/

theorem Passthrough.tame : Passthrough.nodeType.Tame := by
  refine ⟨fun _ => ⟨_, rfl⟩, ?_, ?_, ?_, ?_, ?_⟩
  · rintro view specs h spec hspec
    cases h
    simp only [List.mem_cons, List.not_mem_nil, or_false] at hspec
    rcases hspec with rfl | rfl <;> exact ⟨rfl, nofun⟩
  · rintro view hview specs h spec hspec
    cases h
    simp only [List.mem_cons, List.not_mem_nil, or_false] at hspec
    rcases hspec with rfl | rfl
    · exact Constraints.plain_none
    · exact plain_peerConstraints hview _
  · rintro view view' specs specs' - h h'
    cases h
    cases h'
    rfl
  · rintro view view' specs h - hpeer
    cases h
    have hin := hpeer _ List.mem_cons_self rfl
    simp only [Passthrough.nodeType, hin]
  · rintro view specs h spec hspec hprop
    cases h
    simp only [List.mem_cons, List.not_mem_nil, or_false] at hspec
    rcases hspec with rfl | rfl <;> cases hprop

theorem Passthrough.calm : Passthrough.nodeType.Calm [Passthrough.input] := by
  refine ⟨?_, ?_, ?_⟩
  · rintro view specs h spec hspec
    cases h
    simp only [List.mem_cons, List.not_mem_nil, or_false] at hspec
    rcases hspec with rfl | rfl <;> exact not_isMenu_of_stateless rfl
  · rintro view view' specs specs' - h h'
    cases h
    cases h'
    rfl
  · rintro view view' specs - h hpeer
    cases h
    have hin := hpeer _ List.mem_cons_self rfl List.mem_cons_self
    simp only [Passthrough.nodeType, hin]

theorem Gate.tame : Gate.nodeType.Tame := by
  refine ⟨fun _ => ⟨_, rfl⟩, ?_, ?_, ?_, ?_, ?_⟩
  · rintro view specs h spec hspec
    cases h
    simp only [List.mem_cons, List.not_mem_nil, or_false] at hspec
    rcases hspec with rfl | rfl | rfl
    · exact ⟨rfl, nofun⟩
    · exact ⟨rfl, fun v hv => by cases hv; rfl⟩
    · exact ⟨rfl, nofun⟩
  · rintro view hview specs h spec hspec
    cases h
    simp only [List.mem_cons, List.not_mem_nil, or_false] at hspec
    rcases hspec with rfl | rfl | rfl
    · exact Constraints.plain_none
    · exact plain_single trivial
    · exact plain_peerConstraints hview _
  · rintro view view' specs specs' - h h'
    cases h
    cases h'
    rfl
  · rintro view view' specs h - hpeer
    cases h
    have hin := hpeer _ List.mem_cons_self rfl
    simp only [Gate.nodeType, hin]
  · rintro view specs h spec hspec hprop option rest hcs
    cases h
    simp only [List.mem_cons, List.not_mem_nil, or_false] at hspec
    rcases hspec with rfl | rfl | rfl
    · cases hcs
    · cases hcs
    · cases hprop

theorem Gate.calm : Gate.nodeType.Calm [Gate.input] := by
  refine ⟨?_, ?_, ?_⟩
  · rintro view specs h spec hspec
    cases h
    simp only [List.mem_cons, List.not_mem_nil, or_false] at hspec
    rcases hspec with rfl | rfl | rfl
    · exact not_isMenu_of_stateless rfl
    · exact not_isMenu_of_single rfl nofun
    · exact not_isMenu_of_stateless rfl
  · rintro view view' specs specs' - h h'
    cases h
    cases h'
    rfl
  · rintro view view' specs - h hpeer
    cases h
    have hin := hpeer _ List.mem_cons_self rfl List.mem_cons_self
    simp only [Gate.nodeType, hin]

/-! ### Join and Compare -/

private theorem Join.not_isMenu (view : NodeView) (specs : List PadSpec)
    (h : Join.nodeType.resolve view = .ok specs) : ∀ spec ∈ specs, ¬ spec.IsMenu := by
  intro spec hspec
  cases h
  simp only [List.mem_append, List.mem_cons, List.mem_map, List.not_mem_nil, or_false] at hspec
  rcases hspec with ((rfl | rfl) | ⟨index, -, rfl⟩) | rfl <;> exact not_isMenu_of_single rfl nofun

/-- The inputs of a join are as many as its property says. -/
private theorem Join.inputCount_congr {view view' : NodeView}
    (h : view.property Join.count = view'.property Join.count) :
    Join.inputCount view = Join.inputCount view' := by
  rw [Join.inputCount, Join.inputCount, h]

theorem Join.tame : Join.nodeType.Tame := by
  refine ⟨fun _ => ⟨_, rfl⟩, ?_, ?_, ?_, ?_, ?_⟩
  · rintro view specs h spec hspec
    cases h
    simp only [List.mem_append, List.mem_cons, List.mem_map, List.not_mem_nil, or_false] at hspec
    rcases hspec with ((rfl | rfl) | ⟨index, -, rfl⟩) | rfl
    · exact ⟨rfl, fun v hv => by cases hv; decide⟩
    · exact ⟨rfl, fun v hv => by cases hv; rfl⟩
    · exact ⟨rfl, nofun⟩
    · exact ⟨rfl, nofun⟩
  · rintro view - specs h spec hspec
    cases h
    simp only [List.mem_append, List.mem_cons, List.mem_map, List.not_mem_nil, or_false] at hspec
    rcases hspec with ((rfl | rfl) | ⟨index, -, rfl⟩) | rfl <;> exact plain_single trivial
  · rintro view view' specs specs' hprop h h'
    have hcount := Join.inputCount_congr (hprop Join.count)
    cases h
    cases h'
    simp only [outlineOfSpecs, hcount]
  · rintro view view' specs h hprop -
    have hcount := Join.inputCount_congr
      (hprop Join.count fun spec hspec _ => Join.not_isMenu view specs h spec hspec)
    cases h
    simp only [Join.nodeType, hcount]
  · rintro view specs h spec hspec hprop option rest hcs
    exact absurd ⟨hprop, _, hcs⟩ (Join.not_isMenu view specs h spec hspec)

theorem Join.calm : Join.nodeType.Calm [] := by
  refine ⟨Join.not_isMenu, ?_, ?_⟩
  · rintro view view' specs specs' hprop h h'
    have hcount := Join.inputCount_congr (hprop Join.count)
    cases h
    cases h'
    simp only [hcount]
  · rintro view view' specs hprop h -
    have hcount := Join.inputCount_congr (hprop Join.count)
    cases h
    simp only [Join.nodeType, hcount]

private theorem Compare.plain_comparable : Constraints.Plain Compare.comparable := by
  refine Constraints.plain_some.mpr fun c hc => ?_
  simp only [List.mem_cons, List.not_mem_nil, or_false] at hc
  rcases hc with rfl | rfl | rfl | rfl <;> trivial

/-- The first operator of the menu is on the menu, so the default is accepted. -/
theorem Compare.tame : Compare.nodeType.Tame := by
  refine ⟨fun _ => ⟨_, rfl⟩, ?_, ?_, ?_, ?_, ?_⟩
  · rintro view specs h spec hspec
    cases h
    simp only [List.mem_cons, List.not_mem_nil, or_false] at hspec
    rcases hspec with rfl | rfl | rfl | rfl
    · exact ⟨rfl, by simp⟩
    · exact ⟨rfl, by simp⟩
    · refine ⟨rfl, fun v hv => ?_⟩
      obtain ⟨op, hop, rfl⟩ := Option.map_eq_some_iff.mp hv
      rw [accept_single]
      simp only [Constraint.accepts, Json.str?, Option.any_some, List.contains_iff_mem]
      exact List.mem_of_mem_head? hop
    · exact ⟨rfl, by simp⟩
  · rintro view hview specs h spec hspec
    cases h
    simp only [List.mem_cons, List.not_mem_nil, or_false] at hspec
    rcases hspec with rfl | rfl | rfl | rfl
    · exact Constraints.plain_intersect Compare.plain_comparable (plain_peerConstraints hview _)
    · exact Constraints.plain_intersect Compare.plain_comparable (plain_peerConstraints hview _)
    · exact plain_single trivial
    · exact plain_single trivial
  · rintro view view' specs specs' - h h'
    cases h
    cases h'
    rfl
  · rintro view view' specs h - hpeer
    cases h
    have hleft := hpeer _ List.mem_cons_self rfl
    have hright := hpeer _ (List.mem_cons_of_mem _ List.mem_cons_self) rfl
    simp only at hleft hright
    simp only [Compare.nodeType, Compare.menu, Compare.operand, hleft, hright]
  · rintro view specs h spec hspec hprop option rest hcs
    cases h
    simp only [List.mem_cons, List.not_mem_nil, or_false] at hspec
    rcases hspec with rfl | rfl | rfl | rfl
    · cases hprop
    · cases hprop
    · have hmenu : Compare.menu view = option :: rest := by simpa using hcs
      simp only [hmenu, List.head?_cons, Option.map_some]
    · cases hprop

/-! ### The library -/

/-- The type is one of the built-in library. -/
def NodeType.IsBuiltin (t : NodeType) : Prop := ∃ name, (name, t) ∈ Library.builtins.types

/-- What holds of each built-in type. -/
theorem NodeType.IsBuiltin.elim {M : NodeType → Prop} {t : NodeType} (h : t.IsBuiltin)
    (string : M PropertyNode.string) (integer : M PropertyNode.integer)
    (float : M PropertyNode.float) (boolean : M PropertyNode.boolean) (ticker : M Ticker.nodeType)
    (passthrough : M Passthrough.nodeType) (join : M Join.nodeType) (compare : M Compare.nodeType)
    (gate : M Gate.nodeType) (display : M Display.nodeType) : M t := by
  obtain ⟨name, h⟩ := h
  have hmem := mem_sortKeys h
  simp only [List.mem_cons, Prod.mk.injEq, List.not_mem_nil, or_false] at hmem
  rcases hmem with ⟨-, rfl⟩ | ⟨-, rfl⟩ | ⟨-, rfl⟩ | ⟨-, rfl⟩ | ⟨-, rfl⟩ | ⟨-, rfl⟩ | ⟨-, rfl⟩ |
    ⟨-, rfl⟩ | ⟨-, rfl⟩ | ⟨-, rfl⟩ <;> assumption

/-- Built-in types are tame. -/
theorem NodeType.IsBuiltin.tame {t : NodeType} (h : t.IsBuiltin) : t.Tame :=
  h.elim (PropertyNode.tame _ _ trivial rfl nofun)
    (PropertyNode.tame _ _ trivial (by decide) nofun)
    (PropertyNode.tame _ _ trivial (by decide) nofun) (PropertyNode.tame _ _ trivial rfl nofun)
    Ticker.tame Passthrough.tame Join.tame Compare.tame Gate.tame Display.tame

/-- Built-in types are calm, but for the compare. -/
theorem NodeType.IsBuiltin.calm {t : NodeType} (h : t.IsBuiltin) :
    t = Compare.nodeType ∨ ∃ K, t.Calm K := by
  refine h.elim (M := fun t => t = Compare.nodeType ∨ ∃ K, t.Calm K) ?_ ?_ ?_ ?_
    (.inr ⟨_, Ticker.calm⟩) (.inr ⟨_, Passthrough.calm⟩) (.inr ⟨_, Join.calm⟩) (.inl rfl)
    (.inr ⟨_, Gate.calm⟩) (.inr ⟨_, Display.calm⟩)
  all_goals exact .inr ⟨_, PropertyNode.calm _ _ nofun⟩

end Patchbay
