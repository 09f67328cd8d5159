import Patchbay.Proofs.Graph.Sights
import Patchbay.Proofs.Graph.Ceiling

/-!
# Operators that keep their values

An operator that holds nothing, or equality, comes back by itself: that is what it holds whenever
it has no options, or has some. Other values are lost as soon as the operands do not agree on one
type. So drafts are *tuned* to a graph (`PadState.Tuned`) as long as they have the same values of
such operators, and come out of resolution with them if the menus of these operators are the same
all the time.
-/

namespace Patchbay

open Compare (operatorSpec)

/-- What an operator holds by itself: nothing, while its menu is empty, or `==`, the first entry of
every other menu. -/
def IdleValue (v : Option Json) : Prop := v = none ∨ v = some (.str "==")

namespace PadState

variable {p q : PadState} {m m₀ : List String}

/-- Both operators hold the same, or what they hold by themselves (`IdleValue`). Pads that are no
operators are always tuned: their values are part of the plan. -/
def Tuned (q p : PadState) : Prop :=
  IsOperator p.id → p.proxy = none → q.value = p.value ∨ IdleValue p.value ∧ IdleValue q.value

theorem idleValue_keptValue (hq : q.isProperty = true) (hidle : IdleValue q.value)
    (hm : m.head? = none ∨ m.head? = some "==") : IdleValue (q.keptValue (operatorSpec m)) := by
  have hhead : IdleValue (m.head?.map .str) := by
    rcases hm with hm | hm <;> rw [hm]
    · exact .inl rfl
    · exact .inr rfl
  rw [keptValue_operatorSpec hq]
  rcases hidle with hv | hv <;> rw [hv]
  · exact hhead
  · show IdleValue (if _ then _ else _)
    split
    · exact .inr rfl
    · exact hhead

/-- An operator that is merged with its menu (`PadState.keptValue`) stays tuned, if the menu is the
same, or if the value is idle anyway, or null. -/
theorem tuned_keptValue (hp : p.isProperty = true) (hq : q.isProperty = true)
    (h : q.value = p.value ∨ IdleValue p.value ∧ IdleValue q.value)
    (hm : m.head? = none ∨ m.head? = some "==") (hkept : p.keptValue (operatorSpec m₀) = p.value)
    (hmenu : IdleValue p.value ∨ p.value = some .null ∨ m = m₀) :
    q.keptValue (operatorSpec m) = p.value ∨
      IdleValue p.value ∧ IdleValue (q.keptValue (operatorSpec m)) := by
  have hidle : IdleValue p.value → IdleValue q.value := fun hv =>
    h.elim (fun heq => heq ▸ hv) And.right
  rcases hmenu with hv | hnull | rfl
  · exact .inr ⟨hv, idleValue_keptValue hq (hidle hv) hm⟩
  · -- every menu accepts null
    rcases h with heq | ⟨hv, -⟩
    · rw [keptValue_operatorSpec hq, heq, hnull]
      exact .inl rfl
    · rw [hnull] at hv
      rcases hv with hv | hv <;> cases hv
  · rcases h with heq | ⟨hv, hv'⟩
    · rw [keptValue_operatorSpec hp] at hkept
      rw [keptValue_operatorSpec hq, heq]
      exact .inl hkept
    · exact .inr ⟨hv, idleValue_keptValue hq hv' hm⟩

/-- An operator without options holds nothing, or null: this is all that `PadState.keptValue`
leaves under an empty menu. -/
theorem value_of_noOptions (hp : p.isProperty = true)
    (hkept : p.keptValue (operatorSpec []) = p.value) :
    IdleValue p.value ∨ p.value = some .null := by
  rw [keptValue_operatorSpec hp] at hkept
  cases hv : p.value with
  | none => exact .inl (.inl rfl)
  | some v =>
    rw [hv] at hkept
    cases v with
    | null => exact .inr rfl
    | _ => cases hkept

/-- Tuned operators with one menu hold the same. -/
theorem value_of_tuned (hp : p.isProperty = true) (hq : q.isProperty = true)
    (h : q.value = p.value ∨ IdleValue p.value ∧ IdleValue q.value)
    (hm : m.head? = none ∨ m.head? = some "==") (hkept : p.keptValue (operatorSpec m) = p.value)
    (hkept' : q.keptValue (operatorSpec m) = q.value) : q.value = p.value := by
  rcases h with heq | ⟨hv, hv'⟩
  · exact heq
  · -- the menu says which of the idle values it is
    have hidle : ∀ v : PadState, v.isProperty = true → IdleValue v.value →
        v.keptValue (operatorSpec m) = v.value → v.value = m.head?.map .str := by
      intro v hprop hv hkept
      rw [keptValue_operatorSpec hprop] at hkept
      rcases hv with hv | hv <;> rw [hv] at hkept ⊢
      · exact hkept.symm
      · cases m with
        | nil => cases hkept
        | cons o rest =>
          obtain rfl : o = "==" := by simpa using hm
          rfl
    rw [hidle q hq hv' hkept', hidle p hp hv hkept]

end PadState

namespace GraphState

variable {T : String → NodeType → Prop} {config : EngineConfig} {n m : Nat}
  {external external' : External} {s t t' u : GraphState} {e d d' : NodeEntry} {p q : PadState}
  {r : PadRef} {id : Option String} {inner : GraphState} {i : Nat} {changed : Bool}
  {type : NodeType}

theorem tuned_of_nodes (h : t.Padwise PadState.Tuned s)
    (hnodes : u.nodes.map NodeEntry.bare = t.nodes.map NodeEntry.bare) :
    u.Padwise PadState.Tuned s := by
  refine Padwise.of_nodes (fun q q' p hqq hq hop hproxy => ?_) h hnodes
  rw [← (PadState.bare_eq_iff.mp hqq).2.2.2.2.1]
  exact hq hop hproxy

section

variable (hT : ∀ name type, T name type → type.IsBuiltin) (hs : AtRest T config n external s)

include hT hs

/-! ### Operators of one node -/

/-- An operator at rest keeps its value under its menu, for resolution has put it there
(`SettledAt`). -/
theorem AtRest.keptValue_operator (he : e ∈ s.nodes) (hb : e.body = .plugin type) (hp : p ∈ e.pads)
    (hop : IsOperator p.id) : type = Compare.nodeType ∧ p.isProperty = true ∧
      p.keptValue (operatorSpec (Compare.menu (s.view external e))) = p.value := by
  obtain ⟨specs, hspecs, hpads⟩ := (hs.settledAt hT he).declaredBy hb
  obtain ⟨spec, hspec, hdecl⟩ := exists_of_forall₂ hpads hp
  obtain ⟨rfl, rfl⟩ := (hs.nested.builtin hT he hb).eq_operatorSpec hspecs hspec (hdecl.id ▸ hop)
  exact ⟨rfl, congrArg PadType.isProperty hdecl.padType, hdecl.value⟩

/-- What comes of an operator when its node is resolved: the value that it keeps under the menu
that the operands leave to it. -/
theorem AtRest.value_resolveNode (he : e ∈ s.nodes) (hb : e.body = .plugin type)
    (hde : d.plan = e.plan) (hplan : d'.plan = e.plan)
    (h : resolveNode (innerResolver config n) external' u d = .ok (d', changed)) (hq : q ∈ d'.pads)
    (hop : IsOperator q.id) : ∃ a ∈ d.pads, a.id = q.id ∧ a.isProperty = true ∧
      q.value = a.keptValue (operatorSpec (Compare.menu (u.view external' d))) := by
  obtain ⟨specs, body, hbody, -, rfl, -⟩ := resolveNode_eq_ok h
  have hb' := Body.plugin_of_plan (NodeEntry.plan_eq_iff.mp hde).2.2.2.2 hb
  obtain ⟨hspecs, -⟩ := (resolveBody_of_plugin hb').mp hbody
  obtain ⟨spec, hspec, rfl⟩ := List.mem_map.mp hq
  rw [mergedPad_id] at hop
  obtain ⟨rfl, rfl⟩ := (hs.nested.builtin hT he hb).eq_operatorSpec hspecs hspec hop
  obtain ⟨p, hp, hpid, -⟩ := NodeEntry.exists_pad_of_plan hplan hq
  rw [mergedPad_id] at hpid
  obtain ⟨a, ha, haid, hatype, -⟩ := NodeEntry.exists_pad_of_plan hde.symm hp
  obtain ⟨-, hprop, -⟩ := hs.keptValue_operator hT he hb hp (hpid ▸ hop)
  have hnd : (d.pads.map (·.id)).Nodup := by
    rw [PadState.map_id_of_plan (NodeEntry.plan_eq_iff.mp hde).2.2.2.1]
    exact hs.wellFormed.self.distinctPads e he
  have haid' : a.id = (operatorSpec (Compare.menu (u.view external' d))).id := haid.trans hpid
  refine ⟨a, ha, haid'.trans (mergedPad_id _ _).symm, ?_, ?_⟩
  · exact (congrArg PadType.isProperty hatype).trans hprop
  · rw [mergedPad_of_mem hnd ha haid']
    rfl

/-- A node stays tuned when it is resolved, if the menu of its operator is the same
(`tuned_keptValue`), or if the operator is idle. -/
theorem AtRest.tuned_resolveNode (he : e ∈ s.nodes) (hb : e.body = .plugin type)
    (hde : d.plan = e.plan) (hplan : d'.plan = e.plan)
    (h : resolveNode (innerResolver config n) external' u d = .ok (d', changed))
    (htuned : ∀ p ∈ e.pads, ∀ q ∈ d.pads, q.id = p.id → q.Tuned p)
    (hmenu : ∀ p ∈ e.pads, IsOperator p.id → IdleValue p.value ∨ p.value = some .null ∨
      Compare.menu (u.view external' d) = Compare.menu (s.view external e)) :
    ∀ p ∈ e.pads, ∀ q ∈ d'.pads, q.id = p.id → q.Tuned p := by
  intro p hp q hq hid hop hproxy
  obtain ⟨-, hprop, hkept⟩ := hs.keptValue_operator hT he hb hp hop
  obtain ⟨a, ha, haid, hprop', hvalue⟩ := hs.value_resolveNode hT he hb hde hplan h hq (hid ▸ hop)
  rw [hvalue]
  exact PadState.tuned_keptValue hprop hprop' (htuned p hp a ha (haid.trans hid) hop hproxy)
    (Compare.head?_menu _) hkept (hmenu p hp hop)

/-- The pads of a subgraph stand for others, and hold what these hold. -/
theorem AtRest.tuned_of_subgraph (he : e ∈ s.nodes) (hb : e.body = .subgraph id inner)
    (hp : p ∈ e.pads) : q.Tuned p := by
  intro _ hproxy
  obtain ⟨c, r, hstands⟩ := mem_pads_of_settled (hs.settledAt hT he) hb
    (hs.wellFormed.body he _ _ hb).self hp
  rw [hstands.proxy] at hproxy
  cases hproxy

/-! ### Graphs that are the same -/

/-- Graphs at rest that permit the same (`Above` in both directions), with operators that are
tuned. -/
structure Same (s t : GraphState) : Prop where
  plan : t.plan = s.plan
  above : t.Above s
  below : s.Above t
  tuned : t.Padwise PadState.Tuned s

omit hT in
/-- In graphs that permit the same, pads see the same. -/
theorem Same.peerView (ht : AtRest T config n external t) (h : Same s t) (r : PadRef)
    (p : PadState) : t.peerView external r p = s.peerView external r p := by
  have hwf := hs.wellFormed.self
  have hplan := nodes_of_plan h.plan
  have hends : ∀ l ∈ s.links, ∀ r, r = l.source ∨ r = l.sink → t.declared? r = s.declared? r := by
    intro l hl r hr
    have hop := hs.clean.self.not_isOperator_of_link hl hr
    refine declared?_of_plan hplan hwf.distinctNodes fun i e d he hd hid p hp q hq hpid hqid => ?_
    have hopp : ¬ IsOperator p.id := hpid ▸ hop
    have hsame := hqid.trans hpid.symm
    refine ((padwise_iff.mp h.above i e d he hd).pads p hp q hq hsame hopp).antisymm
      ((padwise_iff.mp h.below i d e hd he).pads q hq p hp hsame.symm (hsame ▸ hopp))
      (hs.clean.self.broad e (List.mem_of_getElem? he) p hp hopp)
      (ht.clean.self.broad d (List.mem_of_getElem? hd) q hq (hsame ▸ hopp)) |>.symm
  exact peerView_of_declared? hs.joined (links_of_plan h.plan)
    (fun _ l hl _ => hends l hl _ (.inr rfl)) (fun _ l hl _ => hends l hl _ (.inl rfl))
    fun _ => rfl

/-- Corresponding plugins in graphs that permit the same differ in their effective constraints at
most. -/
theorem Same.pads_plugin (ht : AtRest T config n external t) (h : Same s t)
    (he : s.nodes[i]? = some e) (hd : t.nodes[i]? = some d) (hde : d.plan = e.plan)
    (hb : e.body = .plugin type) : d.pads.map PadState.bare = e.pads.map PadState.bare := by
  have hmem := List.mem_of_getElem? he
  have hmem' := List.mem_of_getElem? hd
  obtain ⟨hid, -, -, hpads, hbody⟩ := NodeEntry.plan_eq_iff.mp hde
  have hb' := Body.plugin_of_plan hbody hb
  have hbuiltin := hs.nested.builtin hT hmem hb
  obtain ⟨specs, hspecs, hdecl⟩ := (hs.settledAt hT hmem).declaredBy hb
  obtain ⟨specs', hspecs', hdecl'⟩ := (ht.settledAt hT hmem').declaredBy hb'
  have hpeers : t.peerViews external d = s.peerViews external e := by
    rw [peerViews_congr rfl rfl hid (PadState.map_outline_of_plan hpads)]
    exact List.map_congr_left fun p _ => congrArg (Prod.mk p.id) (h.peerView hs ht _ p)
  have hsee : ∀ z, (s.view external e).peerConstraints z = (t.view external d).peerConstraints z :=
    fun z => by
      rw [NodeView.peerConstraints, NodeView.peerConstraints, NodeView.peer, NodeView.peer, view,
        view, hpeers]
  -- both are declared in the same way
  obtain rfl : specs' = specs := by
    have hcongr := hbuiltin.steady.congr _ (t.view external d) specs hspecs
      (sameProperties_of_plan (v := s.view external e) (w := t.view external d) hbuiltin hspecs
        hpads (hs.proxy_eq_none hT hmem hb rfl)) fun spec _ _ => hsee spec.id
    exact Except.ok.inj (hspecs'.symm.trans hcongr)
  have hmenu : Compare.menu (t.view external d) = Compare.menu (s.view external e) := by
    rw [Compare.menu, Compare.menu, Compare.operand, Compare.operand, hsee, hsee]
  rw [← List.forall₂_eq_eq_eq, List.forall₂_map_left_iff, List.forall₂_map_right_iff,
    List.forall₂_iff_zip] at hpads ⊢
  refine ⟨hpads.1, fun {q p} hqp => ?_⟩
  obtain ⟨hq, hp⟩ := List.of_mem_zip hqp
  obtain ⟨hqid, htype, hproxy, hvalue⟩ := PadState.plan_eq_iff.mp (hpads.2 hqp)
  obtain ⟨spec, hspec, hp'⟩ := exists_of_forall₂ hdecl hp
  obtain ⟨spec', hspec', hq'⟩ := exists_of_forall₂ hdecl' hq
  obtain rfl := List.inj_on_of_nodup_map (hbuiltin.steady.distinct _ _ hspecs) hspec hspec'
    (hp'.id.symm.trans (hqid.symm.trans hq'.id))
  have hnone := hs.proxy_eq_none hT hmem hb rfl p hp
  refine PadState.bare_eq_iff.mpr ⟨hqid, hq'.group.trans hp'.group.symm, htype,
    hq'.constraints.trans hp'.constraints.symm, ?_, hproxy⟩
  by_cases hop : IsOperator p.id
  · obtain ⟨-, hprop, hkept⟩ := hs.keptValue_operator hT hmem hb hp hop
    obtain ⟨-, hprop', hkept'⟩ := ht.keptValue_operator hT hmem' hb' hq (hqid ▸ hop)
    rw [hmenu] at hkept'
    exact PadState.value_of_tuned hprop hprop'
      ((padwise_iff.mp h.tuned i e d he hd).pads p hp q hq hqid hop hnone) (Compare.head?_menu _)
      hkept hkept'
  · exact hvalue hnone hop

/-- Graphs at rest that permit the same are the same, if their operators are tuned: menus are made
of what operands permit, under one menu tuned operators hold the same (`value_of_tuned`), and
effective constraints come of narrowing what is declared. The induction is on the depth. -/
theorem AtRest.eq_of_same (ht : AtRest T config n external t) (h : Same s t) : t = s := by
  induction n using Nat.strong_induction_on generalizing external s t
  rename_i n ih
  have hplan := nodes_of_plan h.plan
  have hbare : t.bare = s.bare := by
    refine bare_eq_iff.mpr ⟨List.ext_getElem? fun i => ?_, links_of_plan h.plan⟩
    rw [List.getElem?_map, List.getElem?_map]
    cases he : s.nodes[i]? with
    | none =>
      have hnone : t.nodes[i]? = none := by
        rw [List.getElem?_eq_none_iff, length_of_plan hplan]
        exact List.getElem?_eq_none_iff.mp he
      rw [hnone]
    | some e =>
      obtain ⟨d, hd, hde⟩ := getElem?_of_plan hplan he
      have hmem := List.mem_of_getElem? he
      have hmem' := List.mem_of_getElem? hd
      obtain ⟨hid, htype, heditor, hpads, hbody⟩ := NodeEntry.plan_eq_iff.mp hde
      rw [hd, Option.map_some, Option.map_some, Option.some.injEq]
      cases hb : e.body with
      | plugin type =>
        exact NodeEntry.bare_eq_iff.mpr ⟨hid, htype, heditor, h.pads_plugin hT hs ht he hd hde hb,
          (Body.plugin_of_plan hbody hb).trans hb.symm⟩
      | subgraph id inner =>
        obtain ⟨inner', hb', hinner⟩ := Body.subgraph_of_plan hbody hb
        obtain ⟨m, rfl, hrest⟩ := hs.inside hT hmem hb
        obtain ⟨m', hm, hrest'⟩ := ht.inside hT hmem' hb'
        obtain rfl : m = m' := Nat.succ.inj hm
        have hshown : externalOf d.pads (t.peerViews external d) =
            externalOf e.pads (s.peerViews external e) := by
          rw [externalOf_of_plan t external hde]
          exact congrArg _ (List.map_congr_left fun p _ =>
            congrArg (Prod.mk p.id) (h.peerView hs ht _ p))
        obtain rfl := ih m m.lt_succ_self hrest (hshown ▸ hrest')
          ⟨hinner, (padwise_iff.mp h.above i e d he hd).inside _ _ _ _ hb hb',
            (padwise_iff.mp h.below i d e hd he).inside _ _ _ _ hb' hb,
            (padwise_iff.mp h.tuned i e d he hd).inside _ _ _ _ hb hb'⟩
        exact NodeEntry.bare_eq_iff.mpr ⟨hid, htype, heditor,
          ((ht.outcome hT hmem').inside _ _ hb').2.trans
            ((hs.outcome hT hmem).inside _ _ hb).2.symm, hb'.trans hb.symm⟩
  have hnarrow := (narrow_congr hbare).trans (hs.reconciled hT).narrowed
  exact Except.ok.inj ((ht.reconciled hT).narrowed.symm.trans hnarrow)

end

end GraphState

end Patchbay
