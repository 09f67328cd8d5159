import Patchbay.Proofs.Constraint.Slim
import Patchbay.Proofs.Node.Builtin
import Patchbay.Proofs.Number.Numerals

/-!
# What all declarations of a type have in common

Whatever a node of a built-in type sees, it declares pads with distinct ids and slim constraints,
and one id always stands for pads of one direction and kind. Sources and properties are always
there, and all but menus are always declared in the same way (`NodeType.Steady`). What may come and
go are the inputs of a join.
-/

namespace Patchbay

/-- The declarations of the type differ in sinks without values, in menus, and in constraints of
pads without values only. They depend on nothing but the properties that are no menus and on what
feeds the sinks, all of them declared. -/
structure NodeType.Steady (t : NodeType) : Prop where
  distinct : ∀ view specs, t.resolve view = .ok specs → (specs.map (·.id)).Nodup
  padType : ∀ view view' specs specs', t.resolve view = .ok specs → t.resolve view' = .ok specs' →
    ∀ spec ∈ specs, ∀ spec' ∈ specs', spec.id = spec'.id → spec.padType = spec'.padType
  kept : ∀ view view' specs specs', t.resolve view = .ok specs → t.resolve view' = .ok specs' →
    ∀ spec ∈ specs, spec.padType.isSource = true ∨ spec.padType.isProperty = true →
    ∃ spec' ∈ specs', spec'.id = spec.id
  fixed : ∀ view view' specs specs', t.resolve view = .ok specs → t.resolve view' = .ok specs' →
    ∀ spec ∈ specs, spec.padType.isProperty = true → ¬ spec.IsMenu → spec ∈ specs'
  congr : ∀ view view' specs, t.resolve view = .ok specs →
    (∀ spec ∈ specs, spec.padType.isProperty = true → ¬ spec.IsMenu →
      view.property spec.id = view'.property spec.id) →
    (∀ spec ∈ specs, spec.padType.isSource = false →
      view.peerConstraints spec.id = view'.peerConstraints spec.id) →
    t.resolve view' = .ok specs
  slim : ∀ view specs, t.resolve view = .ok specs →
    (∀ spec ∈ specs, spec.padType.isSource = false → (view.peerConstraints spec.id).Slim) →
    ∀ spec ∈ specs, spec.constraints.Slim

/-- Declarations with one outline, in which properties are fixed unless they are menus, and which
depend on what feeds the sinks. -/
private theorem steady_of_outline {t : NodeType} {specs : NodeView → List PadSpec}
    (outline : List (String × PadType)) (h : ∀ view, t.resolve view = .ok (specs view))
    (houtline : ∀ view, outlineOfSpecs (specs view) = outline) (hnd : (outline.map (·.1)).Nodup)
    (hfixed : ∀ view view', ∀ spec ∈ specs view, spec.padType.isProperty = true → ¬ spec.IsMenu →
      spec ∈ specs view')
    (hcongr : ∀ view view', (∀ spec ∈ specs view, spec.padType.isSource = false →
      view.peerConstraints spec.id = view'.peerConstraints spec.id) → specs view' = specs view)
    (hslim : ∀ view, (∀ spec ∈ specs view, spec.padType.isSource = false →
      (view.peerConstraints spec.id).Slim) → ∀ spec ∈ specs view, spec.constraints.Slim) :
    t.Steady := by
  have hspecs : ∀ {view specs'}, t.resolve view = .ok specs' → specs' = specs view := by
    intro view specs' h'
    rw [h view] at h'
    exact (Except.ok.inj h').symm
  have hmem : ∀ {view}, ∀ spec ∈ specs view, (spec.id, spec.padType) ∈ outline := by
    intro view spec hspec
    rw [← houtline view]
    exact List.mem_map_of_mem hspec
  refine ⟨?_, ?_, ?_, ?_, ?_, ?_⟩
  · intro view specs' h'
    rw [hspecs h']
    have hids := congrArg (List.map (·.1)) (houtline view)
    rw [outlineOfSpecs, List.map_map] at hids
    exact hids ▸ hnd
  · intro view view' specs₁ specs₂ h₁ h₂ spec hspec spec' hspec' hid
    have hone := hmem spec (hspecs h₁ ▸ hspec)
    have htwo := hmem spec' (hspecs h₂ ▸ hspec')
    exact congrArg Prod.snd (List.inj_on_of_nodup_map hnd hone htwo hid)
  · intro view view' specs₁ specs₂ h₁ h₂ spec hspec _
    have hone := hmem spec (hspecs h₁ ▸ hspec)
    rw [← houtline view'] at hone
    obtain ⟨spec', hspec', heq⟩ := List.mem_map.mp hone
    exact ⟨spec', hspecs h₂ ▸ hspec', congrArg Prod.fst heq⟩
  · intro view view' specs₁ specs₂ h₁ h₂ spec hspec
    rw [hspecs h₂]
    exact hfixed view view' spec (hspecs h₁ ▸ hspec)
  · intro view view' specs' h' _ hsinks
    rw [hspecs h'] at hsinks ⊢
    rw [h view', hcongr view view' hsinks]
  · intro view specs' h' hsinks spec hspec
    rw [hspecs h'] at hsinks hspec
    exact hslim view hsinks spec hspec

/-! ### Built-in types -/

theorem PropertyNode.steady (name description : String) {shape : Constraint} {default : Json}
    (hplain : shape.Plain) (hsolid : shape.Solid) :
    (PropertyNode.nodeType name description shape default).Steady :=
  steady_of_outline [(value, .propertySource)] (fun _ => rfl) (fun _ => rfl)
    (List.nodup_singleton _) (fun _ _ _ h _ _ => h) (fun _ _ _ => rfl)
    fun _ _ => List.forall_mem_singleton.mpr (Constraints.slim_single hplain (.inr hsolid))

theorem Ticker.steady : Ticker.nodeType.Steady :=
  steady_of_outline [(interval, .propertySink), (tick, .statelessSource)] (fun _ => rfl)
    (fun _ => rfl) (by decide) (fun _ _ _ h _ _ => h) (fun _ _ _ => rfl)
    fun _ _ => List.forall_mem_cons.mpr ⟨Constraints.slim_single trivial (.inr rfl),
      List.forall_mem_singleton.mpr (Constraints.slim_single trivial (.inr rfl))⟩

theorem Display.steady : Display.nodeType.Steady :=
  steady_of_outline [(value, .propertySink)] (fun _ => rfl) (fun _ => rfl) (by decide)
    (fun _ _ _ h _ _ => h) (fun _ _ _ => rfl)
    fun _ _ => List.forall_mem_singleton.mpr Constraints.slim_none

theorem Passthrough.steady : Passthrough.nodeType.Steady := by
  refine steady_of_outline [(input, .statelessSink), (output, .statelessSource)] (fun _ => rfl)
    (fun _ => rfl) (by decide) ?_ ?_ ?_
  · intro view view' spec hspec hprop
    simp only [List.mem_cons, List.not_mem_nil, or_false] at hspec
    rcases hspec with rfl | rfl <;> cases hprop
  · intro view view' hsinks
    have hin := hsinks _ List.mem_cons_self rfl
    simp only at hin
    simp only [hin]
  · intro view hsinks
    have hin := hsinks _ List.mem_cons_self rfl
    exact List.forall_mem_cons.mpr ⟨Constraints.slim_none, List.forall_mem_singleton.mpr hin⟩

theorem Gate.steady : Gate.nodeType.Steady := by
  refine steady_of_outline [(input, .statelessSink), (control, .propertySink),
    (output, .statelessSource)] (fun _ => rfl) (fun _ => rfl) (by decide) ?_ ?_ ?_
  · intro view view' spec hspec hprop _
    simp only [List.mem_cons, List.not_mem_nil, or_false] at hspec
    rcases hspec with rfl | rfl | rfl
    · cases hprop
    · simp
    · cases hprop
  · intro view view' hsinks
    have hin := hsinks _ List.mem_cons_self rfl
    simp only at hin
    simp only [hin]
  · intro view hsinks
    have hin := hsinks _ List.mem_cons_self rfl
    exact List.forall_mem_cons.mpr ⟨Constraints.slim_none, List.forall_mem_cons.mpr
      ⟨Constraints.slim_single trivial (.inr rfl), List.forall_mem_singleton.mpr hin⟩⟩

theorem Compare.slim_comparable : Compare.comparable.Slim := by
  refine ⟨Constraints.plain_some.mpr fun c hc => ?_, fun l hl => ?_,
    .inr (Constraints.each_some.mpr fun c hc => ?_)⟩
  · simp only [List.mem_cons, List.not_mem_nil, or_false] at hc
    rcases hc with rfl | rfl | rfl | rfl <;> trivial
  · cases hl
    simp [Constraint.Ranked, Constraint.kind, Constraint.Kind.rank]
  · simp only [List.mem_cons, List.not_mem_nil, or_false] at hc
    rcases hc with rfl | rfl | rfl | rfl <;> rfl

theorem Compare.steady : Compare.nodeType.Steady := by
  refine steady_of_outline [(left, .statelessSink), (right, .statelessSink),
    (operator, .propertySink),
    (result, .statelessSource)] (fun _ => rfl) (fun _ => rfl) (by decide) ?_ ?_ ?_
  · intro view view' spec hspec hprop hmenu
    simp only [List.mem_cons, List.not_mem_nil, or_false] at hspec
    rcases hspec with rfl | rfl | rfl | rfl
    · cases hprop
    · cases hprop
    · exact absurd ⟨rfl, _, rfl⟩ hmenu
    · cases hprop
  · intro view view' hsinks
    have hleft := hsinks _ List.mem_cons_self rfl
    have hright := hsinks _ (List.mem_cons_of_mem _ List.mem_cons_self) rfl
    simp only at hleft hright
    simp only [Compare.menu, Compare.operand, hleft, hright]
  · intro view hsinks
    have hleft := hsinks _ List.mem_cons_self rfl
    have hright := hsinks _ (List.mem_cons_of_mem _ List.mem_cons_self) rfl
    have hmenu := Constraints.slim_enumeration (Compare.menu view)
    exact List.forall_mem_cons.mpr ⟨Compare.slim_comparable.intersect hright,
      List.forall_mem_cons.mpr ⟨Compare.slim_comparable.intersect hleft, List.forall_mem_cons.mpr
        ⟨hmenu, List.forall_mem_singleton.mpr (Constraints.slim_single trivial (.inr rfl))⟩⟩⟩

/-- An input has none of the other ids. -/
private theorem Join.inputPad_ne (i : Nat) :
    Join.inputPad i ≠ Join.count ∧ Join.inputPad i ≠ Join.separator ∧
    Join.inputPad i ≠ Join.output := by
  have hhead : ∀ {id : String}, id.toList.head? ≠ some 'i' → Join.inputPad i ≠ id := by
    rintro id h rfl
    exact h (by simp [Join.inputPad, Join.stem])
  exact ⟨hhead (by decide), hhead (by decide), hhead (by decide)⟩

private theorem Join.nodup_ids (n : Nat) : ([Join.count, Join.separator] ++
    (List.range n).map Join.inputPad ++ [Join.output]).Nodup := by
  have hinputs : ((List.range n).map Join.inputPad).Nodup :=
    List.nodup_range.map (append_repr_injective Join.stem)
  have hne := Join.inputPad_ne
  have hout : Join.count ≠ Join.output ∧ Join.separator ≠ Join.output := by decide
  rw [List.nodup_append, List.nodup_append]
  refine ⟨⟨by decide, hinputs, ?_⟩, List.nodup_singleton _, ?_⟩
  · simp only [List.mem_cons, List.not_mem_nil, or_false, List.mem_map]
    rintro a (rfl | rfl) _ ⟨i, -, rfl⟩
    · exact (hne i).1.symm
    · exact (hne i).2.1.symm
  · simp only [List.mem_append, List.mem_cons, List.not_mem_nil, or_false, List.mem_map]
    rintro a ((rfl | rfl) | ⟨i, -, rfl⟩) _ rfl
    · exact hout.1
    · exact hout.2
    · exact (hne i).2.2

theorem Join.steady : Join.nodeType.Steady := by
  have hmem : ∀ {view specs}, Join.nodeType.resolve view = .ok specs → ∀ spec, spec ∈ specs ↔
      (spec = ⟨Join.count, none, .propertySink, some [.integer (some 1) (some Join.mostInputs)],
          some (.int Join.usualInputs.toInt), none⟩ ∨
        spec = ⟨Join.separator, none, .propertySink, some [.string],
          some (.str Join.usualSeparator), none⟩ ∨
        ∃ i < Join.inputCount view, spec =
          ⟨Join.inputPad i, some "inputs", .statelessSink, some [.string], none, none⟩) ∨
      spec = ⟨Join.output, none, .statelessSource, some [.string], none, none⟩ := by
    rintro view specs h spec
    cases h
    simp only [List.mem_append, List.mem_cons, List.mem_map, List.not_mem_nil, or_false,
      List.mem_range, or_assoc, eq_comm]
  refine ⟨?_, ?_, ?_, ?_, ?_, ?_⟩
  · rintro view specs h
    cases h
    simpa [Function.comp_def] using Join.nodup_ids (Join.inputCount view)
  · intro view view' specs specs' h h' spec hspec spec' hspec' hid
    have hne := Join.inputPad_ne
    rcases (hmem h spec).mp hspec with (rfl | rfl | ⟨i, -, rfl⟩) | rfl <;>
      rcases (hmem h' spec').mp hspec' with (rfl | rfl | ⟨j, -, rfl⟩) | rfl
    all_goals first
      | rfl
      | exact absurd hid (by decide)
      | exact absurd hid (hne _).1 | exact absurd hid (hne _).2.1 | exact absurd hid (hne _).2.2
      | exact absurd hid.symm (hne _).1 | exact absurd hid.symm (hne _).2.1
      | exact absurd hid.symm (hne _).2.2
  · intro view view' specs specs' h h' spec hspec hkind
    rcases (hmem h spec).mp hspec with (rfl | rfl | ⟨i, -, rfl⟩) | rfl
    · exact ⟨_, (hmem h' _).mpr (.inl (.inl rfl)), rfl⟩
    · exact ⟨_, (hmem h' _).mpr (.inl (.inr (.inl rfl))), rfl⟩
    · rcases hkind with hkind | hkind <;> cases hkind
    · exact ⟨_, (hmem h' _).mpr (.inr rfl), rfl⟩
  · intro view view' specs specs' h h' spec hspec hprop _
    rcases (hmem h spec).mp hspec with (rfl | rfl | ⟨i, -, rfl⟩) | rfl
    · exact (hmem h' _).mpr (.inl (.inl rfl))
    · exact (hmem h' _).mpr (.inl (.inr (.inl rfl)))
    · cases hprop
    · cases hprop
  · intro view view' specs h hprops _
    have hcount : Join.inputCount view' = Join.inputCount view := by
      rw [Join.inputCount, Join.inputCount,
        hprops _ ((hmem h _).mpr (.inl (.inl rfl))) rfl (by rintro ⟨-, _, h⟩; cases h)]
    cases h
    simp only [Join.nodeType, hcount]
  · intro view specs h _ spec hspec
    rcases (hmem h spec).mp hspec with (rfl | rfl | ⟨i, -, rfl⟩) | rfl
    · exact Constraints.slim_single trivial (.inr rfl)
    all_goals exact Constraints.slim_single trivial (.inr rfl)

/-- Built-in types are steady. -/
theorem NodeType.IsBuiltin.steady {t : NodeType} (h : t.IsBuiltin) : t.Steady :=
  h.elim (PropertyNode.steady _ _ trivial rfl) (PropertyNode.steady _ _ trivial rfl)
    (PropertyNode.steady _ _ trivial rfl) (PropertyNode.steady _ _ trivial rfl)
    Ticker.steady Passthrough.steady Join.steady Compare.steady Gate.steady Display.steady

end Patchbay
