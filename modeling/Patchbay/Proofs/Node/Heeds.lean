import Patchbay.Proofs.Constraint.Permits
import Patchbay.Proofs.Node.Steady

/-!
# What types take notice of

A passthrough and a gate declare at their output what feeds their input, and a compare takes notice
of the comparable shapes that feed its operands. No other built-in type takes notice of what feeds
it. So each type keeps a part of what feeds a sink, and this part is all that its declarations
depend on, and can be read off them (`NodeType.Heeds`).
-/

namespace Patchbay

/-- Passthroughs and gates. -/
def NodeType.IsRelay (t : NodeType) : Prop := t = Passthrough.nodeType ∨ t = Gate.nodeType

/-- The output of a relay that is fed with some type. -/
def relayOutput (cs : Constraints) : PadSpec :=
  { id := Passthrough.output, padType := .statelessSource, constraints := cs }

variable {t : NodeType} {view view₀ view₁ : NodeView} {specs specs₀ specs₁ : List PadSpec}
  {spec : PadSpec}

/-- A relay declares the same pads but for the type of its output. -/
theorem NodeType.IsRelay.resolve (h : t.IsRelay) :
    ∃ front : List PadSpec, (∀ spec ∈ front, spec.padType.isSource = false) ∧
      (∃ spec ∈ front, spec.id = Passthrough.input) ∧
      ∀ view,
      t.resolve view = .ok (front ++ [relayOutput (view.peerConstraints Passthrough.input)]) := by
  rcases h with rfl | rfl
  · refine ⟨[{ id := Passthrough.input, padType := .statelessSink }], ?_,
      ⟨_, List.mem_cons_self, rfl⟩, fun _ => rfl⟩
    exact List.forall_mem_singleton.mpr rfl
  · refine ⟨[{ id := Gate.input, padType := .statelessSink },
      { id := Gate.control, padType := .propertySink, constraints := some [.boolean],
        default := some (.bool false) }], ?_, ⟨_, List.mem_cons_self, rfl⟩, fun _ => rfl⟩
    exact List.forall_mem_cons.mpr ⟨rfl, List.forall_mem_singleton.mpr rfl⟩

/-- Built-in types are relays, or compares, or take no notice of what feeds them. -/
theorem NodeType.IsBuiltin.kinds (h : t.IsBuiltin) : t.Calm [] ∨ t.IsRelay ∨
    t = Compare.nodeType := by
  refine h.elim (M := fun t => t.Calm [] ∨ t.IsRelay ∨ t = Compare.nodeType) ?_ ?_ ?_ ?_
    (.inl Ticker.calm) (.inr (.inl (.inl rfl))) (.inl Join.calm) (.inr (.inr rfl))
    (.inr (.inl (.inr rfl))) (.inl Display.calm)
  all_goals exact .inl (PropertyNode.calm _ _ nofun)

/-- A type that takes no notice of what feeds it declares the same in all views of its
properties. -/
theorem NodeType.Calm.resolve_eq (hcalm : t.Calm []) (htotal : t.Tame)
    (hprop : ∀ id, view.property id = view₀.property id) : t.resolve view = t.resolve view₀ := by
  obtain ⟨specs, hspecs⟩ := htotal.total view
  rw [hspecs, hcalm.through view view₀ specs hprop hspecs nofun]

/-- A source of a relay passes on what feeds its input. -/
theorem NodeType.IsRelay.source (h : t.IsRelay) (hspecs : t.resolve view = .ok specs)
    (hspec : spec ∈ specs)
    (hsource : spec.padType.isSource = true) :
    spec = relayOutput (view.peerConstraints Passthrough.input) := by
  obtain ⟨front, hfront, -, hresolve⟩ := h.resolve
  rw [hresolve] at hspecs
  rcases List.mem_append.mp (Except.ok.inj hspecs ▸ hspec) with hmem | hmem
  · rw [hfront spec hmem] at hsource
    cases hsource
  · exact List.mem_singleton.mp hmem

/-- A source of any other built-in node is declared in the same way in all views of its
properties. -/
theorem NodeType.IsBuiltin.source (h : t.IsBuiltin) (hrelay : ¬ t.IsRelay)
    (hspecs₀ : t.resolve view₀ = .ok specs₀) (hspecs : t.resolve view = .ok specs)
    (hprop : ∀ id, view₀.property id = view.property id) (hspec : spec ∈ specs₀)
    (hsource : spec.padType.isSource = true) : spec ∈ specs := by
  rcases h.kinds with hcalm | hrelay' | rfl
  · rw [← hcalm.resolve_eq h.tame hprop, hspecs₀] at hspecs
    exact Except.ok.inj hspecs ▸ hspec
  · exact absurd hrelay' hrelay
  · cases hspecs₀
    cases hspecs
    simp only [List.mem_cons, List.not_mem_nil, or_false] at hspec
    rcases hspec with rfl | rfl | rfl | rfl
    · cases hsource
    · cases hsource
    · cases hsource
    · simp

/-! ### The part that is kept -/

/-- Of what feeds a sink the declarations of the type depend on the part that `key` keeps, if it is
slim, and on nothing more; and they show that part. -/
structure NodeType.Heeds (t : NodeType) (key : String → Constraints → Constraints) : Prop where
  congr : ∀ view view' : NodeView, (∀ id, view.property id = view'.property id) →
    (∀ id, (view.peerConstraints id).Slim) → (∀ id, (view'.peerConstraints id).Slim) →
    (∀ id, key id (view.peerConstraints id) = key id (view'.peerConstraints id)) →
    t.resolve view = t.resolve view'
  shown : ∀ view view' specs specs', t.resolve view = .ok specs → t.resolve view' = .ok specs' →
    specs.map (·.constraints) = specs'.map (·.constraints) →
    ∀ id, key id (view.peerConstraints id) = key id (view'.peerConstraints id)

/-- The operands have in common what is comparable in both of them. -/
theorem Compare.operand_eq (hleft : (view.peerConstraints left).Slim)
    (hright : (view.peerConstraints right).Slim) :
    operand view = (comparable.intersect (view.peerConstraints left)).intersect
      (comparable.intersect (view.peerConstraints right)) := by
  have hslim := slim_comparable.intersect hleft
  rw [operand, ← hslim.intersect_assoc slim_comparable hright,
    slim_comparable.absorb_of_ne hleft (by simp [comparable])]

theorem NodeType.IsBuiltin.heeds (h : t.IsBuiltin) : ∃ key, t.Heeds key := by
  rcases h.kinds with hcalm | hrelay | rfl
  · exact ⟨fun _ _ => none, fun view view' hprop _ _ _ => hcalm.resolve_eq h.tame hprop,
      fun _ _ _ _ _ _ _ _ => rfl⟩
  · obtain ⟨front, -, -, hresolve⟩ := hrelay.resolve
    refine ⟨fun id cs => if id = Passthrough.input then cs else none,
      fun view view' _ _ _ hkey => ?_, fun view view' specs specs' hspecs hspecs' hsame id => ?_⟩
    · have hin := hkey Passthrough.input
      simp only [if_true] at hin
      rw [hresolve, hresolve, hin]
    · rw [hresolve] at hspecs hspecs'
      obtain rfl := Except.ok.inj hspecs
      obtain rfl := Except.ok.inj hspecs'
      rw [List.map_append, List.map_append, List.append_cancel_left_eq] at hsame
      have hout :
          view.peerConstraints Passthrough.input = view'.peerConstraints Passthrough.input :=
        List.singleton_inj.mp hsame
      split
      · rename_i hid
        rw [hid, hout]
      · rfl
  · refine ⟨fun id cs => if id = Compare.left ∨ id = Compare.right
      then Compare.comparable.intersect cs else none, fun view view' _ hslim hslim' hkey => ?_,
      fun view view' specs specs' hspecs hspecs' hsame id => ?_⟩
    · have hleft := hkey Compare.left
      have hright := hkey Compare.right
      simp only [true_or, or_true, if_true] at hleft hright
      have hmenu : Compare.menu view = Compare.menu view' := by
        rw [Compare.menu, Compare.menu, Compare.operand_eq (hslim _) (hslim _),
          Compare.operand_eq (hslim' _) (hslim' _), hleft, hright]
      simp only [Compare.nodeType, hleft, hright, hmenu]
    · cases hspecs
      cases hspecs'
      simp only [List.map_cons, List.map_nil, List.cons.injEq] at hsame
      split
      · rename_i hid
        rcases hid with rfl | rfl
        · exact hsame.2.1
        · exact hsame.1
      · rfl

/-! ### Menus -/

/-- A compare that offers operators goes on to offer the same ones when operands that nothing fed
are fed, as long as the operands have something in common. -/
theorem Compare.menu_eq (hslim₀ : ∀ id, (view₀.peerConstraints id).Slim)
    (hslim₁ : ∀ id, (view₁.peerConstraints id).Slim)
    (hfed : ∀ id, view₁.peerConstraints id = view₀.peerConstraints id ∨
      view₀.peerConstraints id = none)
    (hsee : ∀ id, view.peerConstraints id = view₀.peerConstraints id ∨
      view.peerConstraints id = view₁.peerConstraints id)
    (hcommon : operand view₁ ≠ some []) (hne : menu view₀ ≠ []) : menu view = menu view₀ := by
  obtain ⟨c, hsingle⟩ : ∃ c, operand view₀ = some [c] := by
    cases hop : operand view₀ with
    | none => exact absurd (by simp only [menu, hop, Constraints.single?]) hne
    | some cs =>
      cases cs with
      | nil => exact absurd (by simp only [menu, hop, Constraints.single?]) hne
      | cons c cs =>
        cases cs with
        | nil => exact ⟨c, rfl⟩
        | cons => exact absurd (by simp only [menu, hop, Constraints.single?]) hne
  have hslim : Constraints.Slim (some [c]) := by
    rw [← hsingle, operand]
    exact (slim_comparable.intersect (hslim₀ left)).intersect (hslim₀ right)
  have hpart : ∀ {cs : Constraints}, cs.intersect none = cs := fun {cs} => by cases cs <;> rfl
  -- only one operand can be newly fed, for without the other one the menu would have been empty
  obtain ⟨hview, c', hgrown, hkind⟩ :
    (operand view = operand view₀ ∨ operand view = operand view₁) ∧
      ∃ c', operand view₁ = some [c'] ∧ c'.kind = c.kind := by
    rcases hfed left with hl | hl <;> rcases hfed right with hr | hr
    · have hl' := (hsee left).elim id (·.trans hl)
      have hr' := (hsee right).elim id (·.trans hr)
      exact ⟨.inl (by rw [operand, operand, hl', hr']),
        c, by rw [← hsingle, operand, operand, hl, hr], rfl⟩
    · have hl' := (hsee left).elim (fun h => h.trans hl.symm) id
      refine ⟨(hsee right).imp (fun h => ?_) fun h => ?_, ?_⟩
      · rw [operand, operand, hl', hl, h]
      · rw [operand, operand, hl', h]
      · rw [operand, hr, hpart] at hsingle
        refine (slim_comparable.intersect (hslim₁ right)).single_intersect hslim (.inl ?_) hcommon
        rw [operand_eq (hslim₁ _) (hslim₁ _), hl, hsingle]
    · have hr' := (hsee right).elim (fun h => h.trans hr.symm) id
      refine ⟨(hsee left).imp (fun h => ?_) fun h => ?_, ?_⟩
      · rw [operand, operand, hr', hr, h]
      · rw [operand, operand, hr', h]
      · rw [operand, hl, hpart] at hsingle
        refine (slim_comparable.intersect (hslim₁ left)).single_intersect hslim (.inr ?_) hcommon
        rw [operand_eq (hslim₁ _) (hslim₁ _), hr, hsingle]
    · rw [operand, hl, hr] at hsingle
      cases hsingle
  rcases hview with hview | hview
  · rw [menu, menu, hview]
  · simp only [menu, hview, hgrown, hsingle, Constraints.single?, hkind]

/-- Operands that have nothing in common do not get anything in common when they are fed. -/
theorem Compare.operand_eq_nil (hslim₁ : ∀ id, (view₁.peerConstraints id).Slim)
    (hfed : ∀ id, view₁.peerConstraints id = view.peerConstraints id ∨
      view.peerConstraints id = none)
    (h : operand view = some []) : operand view₁ = some [] := by
  have hpart : ∀ {cs : Constraints}, cs.intersect none = cs := fun {cs} => by cases cs <;> rfl
  rcases hfed left with hl | hl <;> rcases hfed right with hr | hr
  · rw [operand, hl, hr, ← operand, h]
  · rw [operand, hr, hpart] at h
    rw [operand, hl, h, Constraints.nil_intersect]
  · rw [operand, hl, hpart] at h
    rw [operand_eq (hslim₁ _) (hslim₁ _), hr, h]
    exact Constraints.intersect_nil (by cases view₁.peerConstraints left <;>
      simp [comparable, Constraints.intersect])
  · rw [operand, hl, hr, hpart, hpart] at h
    cases h

/-- Some shapes, all of them of certain kinds. -/
def Constraints.OfKinds (K : Constraint.Kind → Prop) (cs : Constraints) : Prop :=
  ∃ l, cs = some l ∧ ∀ c ∈ l, K c.kind

theorem Constraints.OfKinds.intersect {K : Constraint.Kind → Prop} {a b : Constraints}
    (h : a.OfKinds K ∨ b.OfKinds K) : (a.intersect b).OfKinds K := by
  match a, b with
  | none, _ => exact h.resolve_left nofun
  | some as, none => exact h.resolve_right nofun
  | some as, some bs =>
    refine ⟨_, rfl, fun c hc => ?_⟩
    obtain ⟨x, hx, y, hy, hmeet⟩ := Constraint.mem_meetAll (Constraint.mem_canonicalize hc)
    obtain ⟨hcx, hcy⟩ := Constraint.kind_of_meet hmeet
    rcases h with ⟨l, hl, hkind⟩ | ⟨l, hl, hkind⟩ <;> cases hl
    · exact hcx ▸ hkind x hx
    · exact hcy ▸ hkind y hy

/-- Some shapes, and no menu among them. -/
def Constraints.Menuless (cs : Constraints) : Prop :=
  ∃ l, cs = some l ∧ ∀ c ∈ l, c.kind ≠ .enumeration

theorem Constraints.Menuless.intersect {a b : Constraints} (h : a.Menuless ∨ b.Menuless) :
    (a.intersect b).Menuless :=
  @OfKinds.intersect (· ≠ .enumeration) a b h

theorem Compare.menuless_comparable : comparable.Menuless := by
  refine ⟨_, rfl, fun c hc => ?_⟩
  simp only [List.mem_cons, List.not_mem_nil, or_false] at hc
  rcases hc with rfl | rfl | rfl | rfl <;> decide

/-- A compare has options for every kind that can be compared. -/
theorem Compare.ofKinds_comparable : comparable.OfKinds fun k => operatorsFor k ≠ [] := by
  refine ⟨_, rfl, fun c hc => ?_⟩
  simp only [List.mem_cons, List.not_mem_nil, or_false] at hc
  rcases hc with rfl | rfl | rfl | rfl <;> decide

/-- The menu of a compare is empty as long as the type of its operands is open. -/
theorem Compare.menu_eq_nil_iff (view : NodeView) :
    menu view = [] ↔ (operand view).single? = none := by
  rw [menu]
  split
  · rename_i c hc
    obtain ⟨l, hl, hkinds⟩ : (operand view).OfKinds fun k => operatorsFor k ≠ [] :=
      .intersect (.inl (.intersect (.inl ofKinds_comparable)))
    have hmem : c ∈ l := by
      rw [hl] at hc
      cases l with
      | nil => cases hc
      | cons d rest =>
        cases rest with
        | nil => exact Option.some.inj hc ▸ List.mem_singleton_self d
        | cons d' rest => cases hc
    simp [hkinds c hmem, hc]
  · rename_i hnone
    simp [hnone]

theorem Compare.notes_ne_nil_iff (view : NodeView) : nodeType.notes view ≠ [] ↔
    menu view = [] := by
  rw [menu_eq_nil_iff]
  show (if (operand view).single?.isSome then [] else _) ≠ [] ↔ _
  cases (operand view).single? <;> simp

/-- The operands have something in common, if what feeds them permits something comparable. -/
theorem Compare.operand_ne_nil {k : Constraint.Kind} (hk : k.Extensional) {v : Json}
    (hv : v ≠ .null)
    (hcomparable : comparable.permitsAs k v = true)
    (hleft : (view.peerConstraints left).permitsAs k v = true)
    (hright : (view.peerConstraints right).permitsAs k v = true) : operand view ≠ some [] := by
  intro hnil
  have hboth : (operand view).permitsAs k v = true := by
    rw [operand, Constraints.permitsAs_intersect hk hv, Constraints.permitsAs_intersect hk hv,
      hcomparable, hleft, hright]
    rfl
  rw [hnil] at hboth
  cases hboth

/-! ### Properties -/

/-- The operator of a compare that offers some options. -/
def Compare.operatorSpec (options : List String) : PadSpec where
  id := operator
  padType := .propertySink
  constraints := some [.enumeration options]
  default := options.head?.map .str

theorem Compare.operatorSpec_mem (h : Compare.nodeType.resolve view = .ok specs) :
    operatorSpec (menu view) ∈ specs := by
  cases h
  simp [operatorSpec]

/-- The menu of a compare is empty, or it starts with equality. -/
theorem Compare.head?_menu (view : NodeView) : (menu view).head? = none ∨
    (menu view).head? = some "==" := by
  rw [menu]
  split
  · rename_i c _
    cases c.kind <;> simp [operatorsFor]
  · exact .inl rfl

/-- In all views of its properties a built-in node declares the same properties, but for the
operator of a compare. -/
theorem NodeType.IsBuiltin.property (h : t.IsBuiltin) (hspecs₀ : t.resolve view₀ = .ok specs₀)
    (hspecs : t.resolve view = .ok specs) (hprop : ∀ id, view₀.property id = view.property id)
    (hspec : spec ∈ specs₀) (hproperty : spec.padType.isProperty = true) :
    spec ∈ specs ∨ t = Compare.nodeType ∧ spec = Compare.operatorSpec (Compare.menu view₀) := by
  rcases h.kinds with hcalm | hrelay | rfl
  · rw [← hcalm.resolve_eq h.tame hprop, hspecs₀] at hspecs
    exact .inl (Except.ok.inj hspecs ▸ hspec)
  · obtain ⟨front, -, -, hresolve⟩ := hrelay.resolve
    rw [hresolve] at hspecs₀ hspecs
    rcases List.mem_append.mp (Except.ok.inj hspecs₀ ▸ hspec) with hmem | hmem
    · exact .inl (Except.ok.inj hspecs ▸ List.mem_append_left _ hmem)
    · rw [List.mem_singleton.mp hmem] at hproperty
      cases hproperty
  · cases hspecs₀
    cases hspecs
    simp only [List.mem_cons, List.not_mem_nil, or_false] at hspec
    rcases hspec with rfl | rfl | rfl | rfl
    · cases hproperty
    · cases hproperty
    · exact .inr ⟨rfl, rfl⟩
    · cases hproperty

end Patchbay
