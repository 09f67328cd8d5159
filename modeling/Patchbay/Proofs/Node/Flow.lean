import Patchbay.Proofs.Node.Heeds
import Patchbay.Proofs.Constraint.Under
import Patchbay.Graph.Proxy

/-!
# How types flow through built-in nodes

What a pad of a built-in node declares depends on what certain other pads of the node see
(`NodeType.Moves`): the output of a relay on the input, and the operands of a compare on each
other, with its menu on both. Where these pads see the same, the pad is declared in the same way
(`NodeType.IsBuiltin.spec_of_moves`); where they see more, it permits more
(`NodeType.IsBuiltin.spec_under`). The menus of operators are left out there: an operand that
permits more kinds has a smaller menu. They can be told by their ids, also on the subgraphs around
them (`IsOperator`).
-/

namespace Patchbay

/-! ### Operators -/

/-- The pad is the operator of a compare, or it stands for one: its id is that of the operator, or
ends in a colon and that id (`proxyPadId`). -/
def IsOperator (id : String) : Prop := (':' :: Compare.operator.toList) <:+ (':' :: id.toList)

instance (id : String) : Decidable (IsOperator id) :=
  inferInstanceAs (Decidable ((':' :: Compare.operator.toList) <:+ (':' :: id.toList)))

theorem isOperator_proxyPadId (r : PadRef) : IsOperator (proxyPadId r) ↔ IsOperator r.pad := by
  have hid : ':' :: (proxyPadId r).toList = (':' :: r.node.toList) ++ (':' :: r.pad.toList) := by
    simp [proxyPadId]
  rw [IsOperator, IsOperator, hid]
  refine ⟨fun h => ?_, fun h => h.trans (List.suffix_append _ _)⟩
  rcases List.suffix_or_suffix_of_suffix h (List.suffix_append _ _) with h | h
  · exact h
  · -- there is no colon in the id of an operator
    rcases List.suffix_cons_iff.mp h with heq | h
    · exact heq ▸ List.suffix_rfl
    · exact absurd (h.subset List.mem_cons_self) (by decide)

theorem not_isOperator_inputPad (i : Nat) : ¬ IsOperator (Join.inputPad i) := by
  intro h
  have hmem : 'r' ∈ ':' :: (Join.inputPad i).toList := h.subset (by decide)
  rw [Join.inputPad, String.toList_append, List.mem_cons, List.mem_append] at hmem
  rcases hmem with hmem | hmem | hmem
  · exact absurd hmem (by decide)
  · exact absurd hmem (by decide)
  · have hdigit : 'r'.isDigit = true :=
      isDigit_of_mem_numeral (n := i) (by simpa [Nat.repr] using hmem)
    exact absurd hdigit (by decide)

theorem Compare.broad_comparable : Compare.comparable.Broad := by
  refine ⟨Compare.slim_comparable, ?_⟩
  obtain ⟨l, hl, hkinds⟩ := Compare.menuless_comparable
  rintro l' hl'
  cases hl.symm.trans hl'
  exact hkinds

namespace NodeType

variable {t : NodeType} {view view' : NodeView} {specs specs' : List PadSpec}
  {spec spec' : PadSpec} {r : String}

/-! ### What a declaration depends on -/

/-- What the pad `r` declares may depend on what the pad `z` sees. The converse, that nothing else
has an influence, is `IsBuiltin.spec_of_moves`. -/
def Moves (t : NodeType) (z r : String) : Prop :=
  t.IsRelay ∧ z = Passthrough.input ∧ r = Passthrough.output ∨
    t = Compare.nodeType ∧ (z = Compare.left ∧ (r = Compare.right ∨ r = Compare.operator) ∨
      z = Compare.right ∧ (r = Compare.left ∨ r = Compare.operator))

/-- Both views show the same values of the properties that are no menus. -/
def SameProperties (specs : List PadSpec) (view view' : NodeView) : Prop :=
  ∀ spec ∈ specs, spec.padType.isProperty = true → ¬ spec.IsMenu →
    view.property spec.id = view'.property spec.id

theorem Moves.not_isOperator {z r : String} (h : t.Moves z r) : ¬ IsOperator z := by
  rcases h with ⟨-, rfl, -⟩ | ⟨-, ⟨rfl, -⟩ | ⟨rfl, -⟩⟩ <;> decide

theorem Compare.resolve_eq (h : Compare.nodeType.resolve view = .ok specs) :
    specs = [⟨Compare.left, none, .statelessSink,
        Compare.comparable.intersect (view.peerConstraints Compare.right), none, none⟩,
      ⟨Compare.right, none, .statelessSink,
        Compare.comparable.intersect (view.peerConstraints Compare.left), none, none⟩,
      Compare.operatorSpec (Compare.menu view),
      ⟨Compare.result, none, .statelessSource, some [.boolean], none, none⟩] := by
  cases h
  rfl

/-- A type that takes no notice of what feeds it declares the same if the properties that it
declares are the same. -/
theorem Calm.resolve_of_sameProperties (hcalm : t.Calm []) (ht : t.IsBuiltin)
    (hspecs : t.resolve view = .ok specs) (hprop : SameProperties specs view view') :
    t.resolve view' = .ok specs := by
  have hbetween : t.resolve ⟨view.node, view.pads, view'.peers⟩ = .ok specs :=
    hcalm.through view _ specs (fun _ => rfl) hspecs nofun
  exact ht.steady.congr _ view' specs hbetween hprop fun _ _ _ => rfl

/-- Declarations depend on what sinks see. -/
theorem Moves.isSource (h : t.Moves spec.id r) (hspecs : t.resolve view = .ok specs)
    (hspec : spec ∈ specs) : spec.padType.isSource = false := by
  rcases h with ⟨hrelay, hid, -⟩ | ⟨rfl, h⟩
  · obtain ⟨front, hfront, -, hresolve⟩ := hrelay.resolve
    rw [hresolve, Except.ok.injEq] at hspecs
    subst hspecs
    rcases List.mem_append.mp hspec with hspec | hspec
    · exact hfront spec hspec
    · have hne : Passthrough.output ≠ Passthrough.input := by decide
      rw [List.mem_singleton.mp hspec] at hid
      exact absurd hid hne
  · have hid : spec.id = Compare.left ∨ spec.id = Compare.right := h.imp And.left And.left
    have hop : ¬ (Compare.operator = Compare.left ∨ Compare.operator = Compare.right) := by decide
    have hres : ¬ (Compare.result = Compare.left ∨ Compare.result = Compare.right) := by decide
    rw [Compare.resolve_eq hspecs] at hspec
    simp only [List.mem_cons, List.not_mem_nil, or_false] at hspec
    rcases hspec with rfl | rfl | rfl | rfl
    · rfl
    · rfl
    · exact absurd hid hop
    · exact absurd hid hres

namespace IsBuiltin

variable (h : t.IsBuiltin) (hspecs : t.resolve view = .ok specs)
  (hspecs' : t.resolve view' = .ok specs') (hprop : SameProperties specs view view')

include h hspecs hspecs' hprop

/-- Where the pads that it depends on (`Moves`) see the same, a pad is declared in the same way. -/
theorem spec_of_moves (hspec : spec ∈ specs)
    (hsee : ∀ z, t.Moves z spec.id → view.peerConstraints z = view'.peerConstraints z) :
    spec ∈ specs' := by
  rcases h.kinds with hcalm | hrelay | rfl
  · rw [hcalm.resolve_of_sameProperties h hspecs hprop, Except.ok.injEq] at hspecs'
    exact hspecs' ▸ hspec
  · obtain ⟨front, -, -, hresolve⟩ := hrelay.resolve
    rw [hresolve, Except.ok.injEq] at hspecs hspecs'
    subst hspecs hspecs'
    rcases List.mem_append.mp hspec with hspec | hspec
    · exact List.mem_append_left _ hspec
    · rw [List.mem_singleton] at hspec
      have hin := hsee Passthrough.input (.inl ⟨hrelay, rfl, by rw [hspec]; rfl⟩)
      rw [hspec, hin]
      exact List.mem_append_right _ List.mem_cons_self
  · rw [Compare.resolve_eq hspecs] at hspec
    rw [Compare.resolve_eq hspecs']
    have hleft : ∀ r, r = Compare.right ∨ r = Compare.operator → spec.id = r →
        view.peerConstraints Compare.left = view'.peerConstraints Compare.left :=
      fun r hr hid => hsee _ (.inr ⟨rfl, .inl ⟨rfl, hid ▸ hr⟩⟩)
    have hright : ∀ r, r = Compare.left ∨ r = Compare.operator → spec.id = r →
        view.peerConstraints Compare.right = view'.peerConstraints Compare.right :=
      fun r hr hid => hsee _ (.inr ⟨rfl, .inr ⟨rfl, hid ▸ hr⟩⟩)
    simp only [List.mem_cons, List.not_mem_nil, or_false] at hspec
    rcases hspec with rfl | rfl | rfl | rfl
    · rw [hright Compare.left (.inl rfl) rfl]
      simp
    · rw [hleft Compare.right (.inl rfl) rfl]
      simp
    · have hmenu : Compare.menu view = Compare.menu view' := by
        rw [Compare.menu, Compare.menu, Compare.operand, Compare.operand,
          hleft Compare.operator (.inr rfl) rfl, hright Compare.operator (.inr rfl) rfl]
      rw [hmenu]
      simp
    · simp

end IsBuiltin

/-- The pads are the same. -/
theorem IsBuiltin.outline_of_sameProperties (h : t.IsBuiltin) (hspecs : t.resolve view = .ok specs)
    (hspecs' : t.resolve view' = .ok specs') (hprop : SameProperties specs view view') :
    outlineOfSpecs specs' = outlineOfSpecs specs := by
  rcases h.kinds with hcalm | hrelay | rfl
  · rw [hcalm.resolve_of_sameProperties h hspecs hprop, Except.ok.injEq] at hspecs'
    rw [hspecs']
  · obtain ⟨front, -, -, hresolve⟩ := hrelay.resolve
    rw [hresolve, Except.ok.injEq] at hspecs hspecs'
    subst hspecs hspecs'
    simp [outlineOfSpecs, relayOutput]
  · rw [Compare.resolve_eq hspecs, Compare.resolve_eq hspecs']
    rfl

/-! ### Broad declarations -/

/-- A property whose only shape is another one is no menu. -/
theorem not_isMenu_of_ne {c : Constraint} (h : spec.constraints = some [c])
    (hc : c.kind ≠ .enumeration) : ¬ spec.IsMenu := by
  rintro ⟨-, options, hmenu⟩
  rw [h, Option.some.injEq, List.cons.injEq] at hmenu
  exact hc (hmenu.1 ▸ rfl)

/-- Pads without values are no menus. -/
theorem not_isMenu_of_not_isProperty (h : spec.padType.isProperty = false) : ¬ spec.IsMenu := by
  rintro ⟨hprop, -⟩
  rw [h] at hprop
  cases hprop

/-- The declaration is not that of an operator, and broad (`Constraints.Broad`) if the node is fed
with broad constraints. -/
structure Harmless (view : NodeView) (spec : PadSpec) : Prop where
  not_isOperator : ¬ IsOperator spec.id
  not_isMenu : ¬ spec.IsMenu
  broad : (∀ id, (view.peerConstraints id).Broad) → spec.constraints.Broad

theorem Harmless.of_single {c : Constraint} (h : spec.constraints = some [c]) (hc : c.Plain)
    (hmenu : c.kind ≠ .enumeration) (hsolid : c.Solid) (hid : ¬ IsOperator spec.id) :
    Harmless view spec :=
  ⟨hid, not_isMenu_of_ne h hmenu, fun _ => h ▸ Constraints.broad_single hc hmenu hsolid⟩

/-- A declaration of a built-in node is that of an operator, or a harmless one. -/
theorem IsBuiltin.spec_cases (h : t.IsBuiltin) (hspecs : t.resolve view = .ok specs)
    (hspec : spec ∈ specs) : Harmless view spec ∨
      t = Compare.nodeType ∧ spec = Compare.operatorSpec (Compare.menu view) := by
  revert hspecs
  refine h.elim (M := fun t => t.resolve view = .ok specs → Harmless view spec ∨
      t = Compare.nodeType ∧ spec = Compare.operatorSpec (Compare.menu view))
    ?string ?integer ?float ?boolean ?ticker ?passthrough ?join ?compare ?gate ?display <;>
    intro hspecs
  case compare =>
    rw [Compare.resolve_eq hspecs] at hspec
    simp only [List.mem_cons, List.not_mem_nil, or_false] at hspec
    rcases hspec with rfl | rfl | rfl | rfl
    · exact .inl ⟨(by decide : ¬ IsOperator Compare.left), not_isMenu_of_not_isProperty rfl,
        fun hsee => Compare.broad_comparable.intersect (hsee _)⟩
    · exact .inl ⟨(by decide : ¬ IsOperator Compare.right), not_isMenu_of_not_isProperty rfl,
        fun hsee => Compare.broad_comparable.intersect (hsee _)⟩
    · exact .inr ⟨rfl, rfl⟩
    · exact .inl (.of_single rfl trivial nofun rfl (by decide))
  case join =>
    cases hspecs
    simp only [List.mem_append, List.mem_cons, List.mem_map, List.not_mem_nil, or_false] at hspec
    rcases hspec with ((rfl | rfl) | ⟨index, -, rfl⟩) | rfl
    · exact .inl (.of_single rfl trivial nofun rfl (by decide))
    · exact .inl (.of_single rfl trivial nofun rfl (by decide))
    · exact .inl (.of_single rfl trivial nofun rfl (not_isOperator_inputPad index))
    · exact .inl (.of_single rfl trivial nofun rfl (by decide))
  all_goals
    cases hspecs
    simp only [List.mem_cons, List.not_mem_nil, or_false] at hspec
  case ticker =>
    rcases hspec with rfl | rfl <;> exact .inl (.of_single rfl trivial nofun rfl (by decide))
  case passthrough =>
    rcases hspec with rfl | rfl
    · exact .inl ⟨by decide, not_isMenu_of_not_isProperty rfl, fun _ => Constraints.broad_none⟩
    · exact .inl ⟨(by decide : ¬ IsOperator Passthrough.output), not_isMenu_of_not_isProperty rfl,
        fun hsee => hsee _⟩
  case gate =>
    rcases hspec with rfl | rfl | rfl
    · exact .inl ⟨by decide, not_isMenu_of_not_isProperty rfl, fun _ => Constraints.broad_none⟩
    · exact .inl (.of_single rfl trivial nofun rfl (by decide))
    · exact .inl ⟨(by decide : ¬ IsOperator Passthrough.output), not_isMenu_of_not_isProperty rfl,
        fun hsee => hsee _⟩
  case display =>
    rcases hspec with rfl
    refine .inl ⟨by decide, ?_, fun _ => Constraints.broad_none⟩
    rintro ⟨-, _, hmenu⟩
    cases hmenu
  all_goals
    rcases hspec with rfl
    exact .inl (.of_single rfl trivial nofun rfl (by decide))

/-- Only the operator of a compare is an operator. -/
theorem IsBuiltin.eq_operatorSpec (h : t.IsBuiltin) (hspecs : t.resolve view = .ok specs)
    (hspec : spec ∈ specs) (hop : IsOperator spec.id) :
    t = Compare.nodeType ∧ spec = Compare.operatorSpec (Compare.menu view) :=
  (h.spec_cases hspecs hspec).resolve_left fun hspec => hspec.not_isOperator hop

/-- All other declarations are harmless. -/
theorem IsBuiltin.harmless (h : t.IsBuiltin) (hspecs : t.resolve view = .ok specs)
    (hspec : spec ∈ specs) (hop : ¬ IsOperator spec.id) : Harmless view spec := by
  refine (h.spec_cases hspecs hspec).resolve_right ?_
  rintro ⟨-, rfl⟩
  exact hop (List.suffix_rfl : IsOperator Compare.operator)

/-- Fed with broad constraints, a built-in node declares broad constraints, but for operators. -/
theorem IsBuiltin.broad (h : t.IsBuiltin) (hspecs : t.resolve view = .ok specs)
    (hsee : ∀ id, (view.peerConstraints id).Broad) (hspec : spec ∈ specs)
    (hop : ¬ IsOperator spec.id) : spec.constraints.Broad :=
  (h.harmless hspecs hspec hop).broad hsee

/-! ### More to be seen -/

/-- Where the pads that it depends on see more, a pad permits more (`Constraints.Under`), unless it
is an operator. Built-in types are monotone in this sense. -/
theorem IsBuiltin.spec_under (h : t.IsBuiltin) (hspecs : t.resolve view = .ok specs)
    (hspecs' : t.resolve view' = .ok specs') (hprop : SameProperties specs view view')
    (hbroad : ∀ id, (view.peerConstraints id).Broad)
    (hbroad' : ∀ id, (view'.peerConstraints id).Broad) (hspec : spec ∈ specs)
    (hop : ¬ IsOperator spec.id)
    (hsee : ∀ z, t.Moves z spec.id →
      (view.peerConstraints z).Under (view'.peerConstraints z)) :
    ∃ spec' ∈ specs', spec'.id = spec.id ∧ spec.constraints.Under spec'.constraints := by
  have hself : spec.constraints.Under spec.constraints :=
    (h.broad hspecs hbroad hspec hop).under_self
  rcases h.kinds with hcalm | hrelay | rfl
  · rw [hcalm.resolve_of_sameProperties h hspecs hprop, Except.ok.injEq] at hspecs'
    exact ⟨spec, hspecs' ▸ hspec, rfl, hself⟩
  · obtain ⟨front, -, -, hresolve⟩ := hrelay.resolve
    rw [hresolve, Except.ok.injEq] at hspecs hspecs'
    subst hspecs hspecs'
    rcases List.mem_append.mp hspec with hspec | hspec
    · exact ⟨spec, List.mem_append_left _ hspec, rfl, hself⟩
    · rw [List.mem_singleton] at hspec
      subst hspec
      exact ⟨_, List.mem_append_right _ List.mem_cons_self, rfl,
        hsee _ (.inl ⟨hrelay, rfl, rfl⟩)⟩
  · have hoperand : ∀ z, Compare.nodeType.Moves z spec.id →
        (Compare.comparable.intersect (view.peerConstraints z)).Under
          (Compare.comparable.intersect (view'.peerConstraints z)) := fun z hz =>
      Compare.broad_comparable.under_self.intersect_intersect (hsee z hz) Compare.broad_comparable
        Compare.broad_comparable (hbroad z) (hbroad' z)
    rw [Compare.resolve_eq hspecs] at hspec
    rw [Compare.resolve_eq hspecs']
    simp only [List.mem_cons, List.not_mem_nil, or_false] at hspec
    rcases hspec with rfl | rfl | rfl | rfl
    · exact ⟨_, List.mem_cons_self, rfl, hoperand _ (.inr ⟨rfl, .inr ⟨rfl, .inl rfl⟩⟩)⟩
    · exact ⟨_, List.mem_cons_of_mem _ List.mem_cons_self, rfl,
        hoperand _ (.inr ⟨rfl, .inl ⟨rfl, .inl rfl⟩⟩)⟩
    · exact absurd (List.suffix_rfl : IsOperator Compare.operator) hop
    · exact ⟨_, by simp, rfl, hself⟩

/-! ### Declarations that permit something -/

/-- The declaration is a fixed one, narrowed by what another pad of the node sees, which declares
no more than that fixed one. -/
def Narrows (t : NodeType) (view : NodeView) (specs : List PadSpec) (spec : PadSpec) : Prop :=
  ∃ front ∈ specs, ∃ base : Constraints, t.Moves front.id spec.id ∧ base.Broad ∧ base ≠ some [] ∧
    spec.constraints = base.intersect (view.peerConstraints front.id) ∧
    front.constraints.Under base ∧ front.constraints.Broad

/-- A declaration permits something by itself, or it narrows a fixed one. -/
theorem IsBuiltin.narrows (h : t.IsBuiltin) (hspecs : t.resolve view = .ok specs)
    (hbroad : ∀ id, (view.peerConstraints id).Broad) (hspec : spec ∈ specs)
    (hop : ¬ IsOperator spec.id) : spec.constraints ≠ some [] ∨ t.Narrows view specs spec := by
  revert hspecs
  refine h.elim (M := fun t => t.resolve view = .ok specs →
      spec.constraints ≠ some [] ∨ t.Narrows view specs spec)
    ?string ?integer ?float ?boolean ?ticker ?passthrough ?join ?compare ?gate ?display <;>
    intro hspecs
  case compare =>
    have hcomparable : Compare.comparable ≠ some [] := nofun
    rw [Compare.resolve_eq hspecs] at hspec ⊢
    simp only [List.mem_cons, List.not_mem_nil, or_false] at hspec
    have hfront : ∀ z, (Compare.comparable.intersect (view.peerConstraints z)).Under
        Compare.comparable ∧ (Compare.comparable.intersect (view.peerConstraints z)).Broad :=
        fun z =>
      ⟨Compare.broad_comparable.intersect_under_left (hbroad z),
        Compare.broad_comparable.intersect (hbroad z)⟩
    rcases hspec with rfl | rfl | rfl | rfl
    · exact .inr ⟨_, List.mem_cons_of_mem _ List.mem_cons_self, _,
        .inr ⟨rfl, .inr ⟨rfl, .inl rfl⟩⟩, Compare.broad_comparable, hcomparable, rfl, hfront _⟩
    · exact .inr ⟨_, List.mem_cons_self, _, .inr ⟨rfl, .inl ⟨rfl, .inl rfl⟩⟩,
        Compare.broad_comparable, hcomparable, rfl, hfront _⟩
    · exact absurd (List.suffix_rfl : IsOperator Compare.operator) hop
    · exact .inl nofun
  case join =>
    cases hspecs
    simp only [List.mem_append, List.mem_cons, List.mem_map, List.not_mem_nil, or_false] at hspec
    rcases hspec with ((rfl | rfl) | ⟨index, -, rfl⟩) | rfl <;> exact .inl nofun
  all_goals
    cases hspecs
    simp only [List.mem_cons, List.not_mem_nil, or_false] at hspec
  case passthrough =>
    rcases hspec with rfl | rfl
    · exact .inl nofun
    · exact .inr ⟨_, List.mem_cons_self, none, .inl ⟨.inl rfl, rfl, rfl⟩, Constraints.broad_none,
        nofun, rfl, Constraints.under_none _, Constraints.broad_none⟩
  case gate =>
    rcases hspec with rfl | rfl | rfl
    · exact .inl nofun
    · exact .inl nofun
    · exact .inr ⟨_, List.mem_cons_self, none, .inl ⟨.inr rfl, rfl, rfl⟩, Constraints.broad_none,
        nofun, rfl, Constraints.under_none _, Constraints.broad_none⟩
  case ticker => rcases hspec with rfl | rfl <;> exact .inl nofun
  all_goals
    rcases hspec with rfl
    exact .inl nofun

/-- If every pad that it depends on permits something of what it sees, a pad permits something
(`IsBuiltin.narrows`). -/
theorem IsBuiltin.ne_nil (h : t.IsBuiltin) (hspecs : t.resolve view = .ok specs)
    (hbroad : ∀ id, (view.peerConstraints id).Broad) (hspec : spec ∈ specs)
    (hop : ¬ IsOperator spec.id)
    (hsee : ∀ front ∈ specs, t.Moves front.id spec.id →
      view.peerConstraints front.id = none ∨
        front.constraints.intersect (view.peerConstraints front.id) ≠ some []) :
    spec.constraints ≠ some [] := by
  rcases h.narrows hspecs hbroad hspec hop with hne |
    ⟨front, hfront, base, hmoves, hbase, hne, hcs, hunder, hfbroad⟩
  · exact hne
  · rw [hcs]
    rcases hsee front hfront hmoves with hnone | hmet
    · rw [hnone, hbase.intersect_comm Constraints.broad_none, Constraints.none_intersect]
      exact hne
    · exact (Constraints.Under.intersect_intersect hunder (hbroad front.id).under_self hfbroad
        hbase (hbroad _) (hbroad _)).ne_nil hmet

end NodeType

/-! ### Menus -/

theorem Constraints.OfKinds.single {k : Constraint.Kind} {cs : Constraints}
    (h : cs.OfKinds (· = k)) (hslim : cs.Slim) (hne : cs ≠ some []) :
    ∃ c, cs = some [c] ∧ c.kind = k := by
  obtain ⟨l, rfl, hkinds⟩ := h
  match l, hkinds with
  | [], _ => exact absurd rfl hne
  | [c], hkinds => exact ⟨c, rfl, hkinds c List.mem_cons_self⟩
  | c :: c' :: rest, hkinds =>
    -- slim constraints have one shape of each kind
    have hlt := (List.pairwise_cons.mp (hslim.ranked _ rfl)).1 c' List.mem_cons_self
    rw [hkinds c List.mem_cons_self, hkinds c' (List.mem_cons_of_mem _ List.mem_cons_self)] at hlt
    exact absurd hlt (Nat.lt_irrefl _)

namespace Compare

variable {k : Constraint.Kind} {a b : Constraints} {view view' : NodeView}

/-- What is permitted and can be compared is of one kind. An operand that is sole decides about the
menu (`menu_of_sole`), whatever the other one is. -/
def Sole (k : Constraint.Kind) (cs : Constraints) : Prop :=
  (comparable.intersect cs).OfKinds (· = k)

theorem Sole.of_under (h : Sole k b) (ha : a.Broad) (hb : b.Broad) (hab : a.Under b) :
    Sole k a := by
  have hunder := broad_comparable.under_self.intersect_intersect hab broad_comparable
    broad_comparable ha hb
  rw [Sole, ← hunder]
  exact .intersect (.inr h)

theorem broad_operand (hbroad : ∀ id, (view.peerConstraints id).Broad) : (operand view).Broad :=
  (broad_comparable.intersect (hbroad _)).intersect (hbroad _)

/-- Where more is seen, the operands have more in common. -/
theorem operand_under (hbroad : ∀ id, (view.peerConstraints id).Broad)
    (hbroad' : ∀ id, (view'.peerConstraints id).Broad)
    (hsee : ∀ id, (view.peerConstraints id).Under (view'.peerConstraints id)) :
    (operand view).Under (operand view') :=
  (broad_comparable.under_self.intersect_intersect (hsee _) broad_comparable broad_comparable
    (hbroad _) (hbroad' _)).intersect_intersect (hsee _) (broad_comparable.intersect (hbroad _))
    (broad_comparable.intersect (hbroad' _)) (hbroad _) (hbroad' _)

/-- An operand of one kind decides about the menu. -/
theorem menu_of_sole (hbroad : ∀ id, (view.peerConstraints id).Broad)
    (h : Sole k (view.peerConstraints left) ∨ Sole k (view.peerConstraints right))
    (hne : operand view ≠ some []) : menu view = operatorsFor k := by
  have hkinds : (operand view).OfKinds (· = k) := by
    rw [operand_eq (hbroad _).toSlim (hbroad _).toSlim]
    exact .intersect h
  obtain ⟨c, hc, rfl⟩ := hkinds.single (broad_operand hbroad).toSlim hne
  rw [menu, hc, Constraints.single?]

/-- Where less is seen, the menu is the same, if it had options, and the operands have something in
common: one kind was left before, and so it is now. -/
theorem menu_of_under (hbroad : ∀ id, (view.peerConstraints id).Broad)
    (hbroad' : ∀ id, (view'.peerConstraints id).Broad)
    (hsee : ∀ id, (view'.peerConstraints id).Under (view.peerConstraints id))
    (hmenu : menu view ≠ []) (hne : operand view' ≠ some []) : menu view' = menu view := by
  have hsingle : (operand view).single? ≠ none := (menu_eq_nil_iff view).not.mp hmenu
  obtain ⟨c, hc⟩ : ∃ c, operand view = some [c] := by
    match hop : operand view with
    | some [c] => exact ⟨c, rfl⟩
    | none => rw [hop] at hsingle; exact absurd rfl hsingle
    | some [] => rw [hop] at hsingle; exact absurd rfl hsingle
    | some (_ :: _ :: _) => rw [hop] at hsingle; exact absurd rfl hsingle
  have hkinds : (operand view).OfKinds (· = c.kind) :=
    ⟨[c], hc, List.forall_mem_singleton.mpr rfl⟩
  have hunder := operand_under hbroad' hbroad hsee
  have hkinds' : (operand view').OfKinds (· = c.kind) := by
    rw [← hunder]
    exact .intersect (.inr hkinds)
  obtain ⟨c', hc', hkind⟩ := hkinds'.single (broad_operand hbroad').toSlim hne
  simp only [menu, hc, hc', Constraints.single?, hkind]

end Compare

end Patchbay
