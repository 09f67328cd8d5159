import Patchbay.Proofs.Graph.Passes

/-!
# Well-formed graphs

Resolution makes a graph well-formed (`GraphState.WellFormed`), and every graph inside it
(`everywhere_wellFormed_reconcile`), whatever types the library has, as long as the graph it starts
from is orderly. The proof is an induction on how deep subgraphs nest: the graphs inside the nodes
are resolved whenever their nodes are.
-/

namespace Patchbay

namespace GraphState

/-- Node ids are distinct and valid, pad ids are distinct in each node, a stateless pad has no
value, the values of built-in nodes are accepted where they are held, and every link joins a source
and a sink that agree on their constraints. -/
structure WellFormed (s : GraphState) : Prop where
  distinctNodes : (s.nodes.map (·.id)).Nodup
  validIds : ∀ e ∈ s.nodes, e.id ≠ "" ∧ ':' ∉ e.id.toList ∧ '/' ∉ e.id.toList
  distinctPads : ∀ e ∈ s.nodes, (e.pads.map (·.id)).Nodup
  stateless : ∀ e ∈ s.nodes, ∀ p ∈ e.pads, p.isProperty = false → p.value = none
  accepted : ∀ e ∈ s.nodes, ∀ t, e.body = .plugin t → t.IsBuiltin →
    ∀ p ∈ e.pads, p.isProperty = true → ∀ v, p.value = some v → p.declared.accept v = true
  linked : ∀ l ∈ s.links, ∃ p q, s.pad? l.source = some p ∧ s.pad? l.sink = some q ∧
    p.isSource = true ∧ q.isSource = false ∧
    p.effective.same q.effective = true ∧ p.effective ≠ some [] ∧ q.effective ≠ some []

end GraphState

theorem isValidNodeId_iff {id : String} :
    isValidNodeId id = true ↔ id ≠ "" ∧ ':' ∉ id.toList ∧ '/' ∉ id.toList := by
  simp [isValidNodeId, and_assoc]

/-- A node is added under a valid id that is new. -/
theorem GraphState.addNode_of_new {s : GraphState} {e : NodeEntry}
    (hid : e.id ≠ "" ∧ ':' ∉ e.id.toList ∧ '/' ∉ e.id.toList) (hnew : s.contains e.id = false) :
    s.addNode e = .ok { s with nodes := s.nodes ++ [e] } := by
  simp [addNode, isValidNodeId_iff.mpr hid, hnew]

/-! ### What does not depend on effective constraints -/

theorem NodeEntry.Declared.of_bare {e e' : NodeEntry} (h : e.Declared) (hb : e.bare = e'.bare) :
    e'.Declared := by
  obtain ⟨-, -, -, hpads, hbody⟩ := NodeEntry.bare_eq_iff.mp hb
  have hold : ∀ p' ∈ e'.pads, ∃ p ∈ e.pads, p.bare = p'.bare := by
    intro p' hp'
    have hmem : p'.bare ∈ e.pads.map PadState.bare := hpads ▸ List.mem_map_of_mem hp'
    exact List.mem_map.mp hmem
  refine ⟨?_, ?_, ?_⟩
  · have hids : e'.pads.map (·.id) = e.pads.map (·.id) := by
      have hid := congrArg (List.map (·.id)) hpads
      simpa only [List.map_map, Function.comp_def, PadState.bare] using hid.symm
    exact hids ▸ h.distinct
  · intro p' hp' hprop
    obtain ⟨p, hp, hbare⟩ := hold p' hp'
    obtain ⟨-, -, htype, -, hvalue, -⟩ := PadState.bare_eq_iff.mp hbare
    rw [← hvalue]
    exact h.stateless p hp (by rw [PadState.isProperty, htype]; exact hprop)
  · intro t ht hbuiltin p' hp' v hv
    obtain ⟨p, hp, hbare⟩ := hold p' hp'
    obtain ⟨-, -, -, hdecl, hvalue, -⟩ := PadState.bare_eq_iff.mp hbare
    rw [← hdecl]
    exact h.accepted t (hbody ▸ ht) hbuiltin p hp v (hvalue ▸ hv)

namespace GraphState

variable {T : String → NodeType → Prop} {C : Constraints → Prop} {P Q : GraphState → Prop}
  {R : InnerResolver} {config : EngineConfig} {external : External} {s s' : GraphState}
  {e e' : NodeEntry}

theorem orderlyOver_of_bare (h : s.OrderlyOver T C P) (hb : s'.bare = s.bare)
    (hpads : s'.PadsIn C) : s'.OrderlyOver T C P := by
  obtain ⟨hnodes, hlinks⟩ := bare_eq_iff.mp hb
  refine ⟨?_, hlinks ▸ h.ordered, fun e' he' => ?_⟩
  · have hids : s'.nodes.map (·.id) = s.nodes.map (·.id) := by
      have hid := congrArg (List.map (·.id)) hnodes
      simpa only [List.map_map, Function.comp_def, NodeEntry.bare] using hid
    exact hids ▸ h.distinct
  · obtain ⟨e, he, hbare⟩ := exists_bare_eq hb he'
    obtain ⟨hid, htype, -, -, hbody⟩ := NodeEntry.bare_eq_iff.mp hbare
    have hfit := h.fit e he
    exact ⟨hid ▸ hfit.valid, htype ▸ hbody ▸ hfit.types, hpads e' he', hbody ▸ hfit.inner⟩

theorem padsIn_markResolved (h : s.PadsIn C) : s.markResolved.PadsIn C := by
  intro e he
  obtain ⟨d, hd, rfl⟩ := List.mem_map.mp he
  exact h d hd

theorem agrees_markResolved {l : Link} (h : s.Agrees l) : s.markResolved.Agrees l := by
  rw [Agrees, pad?_markResolved, pad?_markResolved]
  exact h

/-! ### Resolution -/

/-- What is left of a graph that was resolved: a last pass that changed nothing, and the narrowing
after it. -/
theorem reconcileWith_eq_ok {I : GraphState → Prop} {order : List Nat}
    (horder : s.dependencyOrder = order)
    (hstep : ∀ s s' changed, I s → pass R external order s = .ok (s', changed) → I s') (hs : I s)
    (h : reconcileWith R config external s = .ok s') :
    ∃ s₀ s₁ s₂, I s₀ ∧ pass R external order s₀ = .ok (s₁, false) ∧
      s₁.narrow external = .ok s₂ ∧ s' = s₂.markResolved := by
  rw [reconcileWith] at h
  split at h
  · cases h
  · cases h
  · rename_i s₁ hsettle
    obtain ⟨s₂, hnarrow, rfl⟩ := map_eq_ok_iff.mp h
    obtain ⟨s₀, hs₀, hpass⟩ := settle_eq_some hstep hs (horder ▸ hsettle)
    exact ⟨s₀, s₁, s₂, hs₀, hpass, hnarrow, rfl⟩

/-- The last pass starts from an orderly graph. -/
theorem exists_last_pass (hR : Regime T C) (hres : Resolves T C P Q R) (hext : external.In C)
    (hs : s.OrderlyOver T C P) (h : reconcileWith R config external s = .ok s') :
    ∃ s₀ s₁ s₂, s₀.OrderlyOver T C P ∧ s₀.nodes.length = s.nodes.length ∧
      pass R external s.dependencyOrder s₀ = .ok (s₁, false) ∧ s₁.narrow external = .ok s₂ ∧
        s' = s₂.markResolved := by
  obtain ⟨s₀, s₁, s₂, ⟨hs₀, hlen₀⟩, hlast⟩ :=
    reconcileWith_eq_ok (I := fun t => t.OrderlyOver T C P ∧ t.nodes.length = s.nodes.length) rfl
      (fun t t' _ ht hpass =>
        have hspec := pass_spec hR hres hext ht.1 hpass
        ⟨hspec.1, hspec.2.1.trans ht.2⟩) ⟨hs, rfl⟩ h
  exact ⟨s₀, s₁, s₂, hs₀, hlen₀, hlast⟩

theorem reconcileWith_spec (hR : Regime T C) (hres : Resolves T C P Q R) (hext : external.In C)
    (hs : s.OrderlyOver T C P) (h : reconcileWith R config external s = .ok s') :
    s'.OrderlyOver T C P ∧ s'.WellFormed ∧ ∀ e ∈ s'.nodes, e.body.Inside Q := by
  obtain ⟨s₀, s₁, s₂, hs₀, hlen₀, hpass, hnarrow, rfl⟩ := exists_last_pass hR hres hext hs h
  obtain ⟨hs₁, hlen₁, hdoneAt, hsound⟩ := pass_spec hR hres hext hs₀ hpass
  have hdone : ∀ e ∈ s₁.nodes, Done Q e := by
    intro e he
    obtain ⟨i, hi, rfl⟩ := List.mem_iff_getElem.mp he
    have hlt : i < s.nodes.length := hlen₀ ▸ hlen₁ ▸ hi
    exact hdoneAt i (mem_dependencyOrder hlt) _ (List.getElem?_eq_getElem hi)
  obtain ⟨hbare₂, hagree⟩ := narrow_agrees hnarrow
  have hbare : s₂.markResolved.bare = s₁.bare := (bare_markResolved s₂).trans hbare₂
  have hlinks : s₂.markResolved.links = s₁.links := (bare_eq_iff.mp hbare).2
  have hs' : s₂.markResolved.OrderlyOver T C P := orderlyOver_of_bare hs₁ hbare
    (padsIn_markResolved (hs₁.padsIn.narrow hR.intersect hext hnarrow))
  have hdeclared : ∀ e ∈ s₂.markResolved.nodes, e.Declared ∧ e.body.Inside Q := by
    intro e' he'
    obtain ⟨e, he, hb⟩ := exists_bare_eq hbare he'
    obtain ⟨-, -, -, -, hbody⟩ := NodeEntry.bare_eq_iff.mp hb
    exact ⟨(hdone e he).declared.of_bare hb, hbody ▸ (hdone e he).inner⟩
  refine ⟨hs', ⟨hs'.distinct, fun e he => isValidNodeId_iff.mp (hs'.fit e he).valid,
    fun e he => (hdeclared e he).1.distinct, fun e he => (hdeclared e he).1.stateless,
    fun e he t ht hb p hp _ => (hdeclared e he).1.accepted t ht hb p hp, fun l hl => ?_⟩,
    fun e he => (hdeclared e he).2⟩
  have hl₁ : s₁.isSound l = true := hsound l (hlinks ▸ hl)
  rw [← isSound_bare, ← hbare, isSound_bare, isSound, Bool.and_eq_true] at hl₁
  obtain ⟨q, hq, hsink⟩ := (Option.any_eq_true _ _).mp hl₁.1
  obtain ⟨p, hp, hsource⟩ := (Option.any_eq_true _ _).mp hl₁.2
  obtain ⟨hsame, hp', hq'⟩ := agrees_markResolved (hagree l hl) p q hp hq
  refine ⟨p, q, hp, hq, hsource, by simpa using hsink, hsame, ?_, ?_⟩
  · intro hnil
    simp [hnil, Constraints.isIncompatible] at hp'
  · intro hnil
    simp [hnil, Constraints.isIncompatible] at hq'

/-! ### Graphs inside graphs -/

theorem OrderlyOver.replace (h : s.OrderlyOver T C P)
    (hin : ∀ e ∈ s.nodes, e.body.Inside P → e.body.Inside Q) : s.OrderlyOver T C Q :=
  ⟨h.distinct, h.ordered, fun e he =>
    have hfit := h.fit e he
    ⟨hfit.valid, hfit.types, hfit.constraints, hin e he hfit.inner⟩⟩

/-- The graphs that resolution is used for: orderly ones of limited depth. -/
def Nested (T : String → NodeType → Prop) (C : Constraints → Prop) (n : Nat) (s : GraphState) :
    Prop :=
  s.depth ≤ n ∧ s.Everywhere (Orderly T C)

theorem nested_zero_iff : s.Nested T C 0 ↔ s.OrderlyOver T C fun _ => False := by
  rw [Nested, depth_le_zero_iff, everywhere_orderly_iff]
  constructor
  · rintro ⟨hdepth, h⟩
    exact h.replace fun e he _ => hdepth e he
  · intro h
    exact ⟨fun e he => (h.fit e he).inner, h.replace fun e _ hin => hin.mono fun _ => False.elim⟩

theorem nested_succ_iff {n : Nat} : s.Nested T C (n + 1) ↔ s.OrderlyOver T C (Nested T C n) := by
  rw [Nested, depth_le_succ_iff, everywhere_orderly_iff]
  constructor
  · rintro ⟨hdepth, h⟩
    exact h.replace fun e he hin id inner hb => ⟨hdepth e he id inner hb, hin id inner hb⟩
  · intro h
    exact ⟨fun e he => (h.fit e he).inner.mono fun _ ht => ht.1,
      h.replace fun e _ hin => hin.mono fun _ ht => ht.2⟩

/-- Resolution keeps graphs orderly and makes them well-formed, at every depth. -/
theorem reconcileWithin_spec (hR : Regime T C) {n : Nat} (hext : external.In C)
    (hs : s.Nested T C n) (h : reconcileWithin config n external s = .ok s') :
    s'.Nested T C n ∧ s'.Everywhere WellFormed := by
  induction n generalizing external s s' with
  | zero =>
    have hres : Resolves T C (fun _ => False) (Everywhere WellFormed) fun _ inner => .ok inner :=
      resolves_false
    rw [nested_zero_iff] at hs ⊢
    obtain ⟨horderly, hwf, hin⟩ := reconcileWith_spec hR hres hext hs h
    exact ⟨horderly, everywhere_iff.mpr ⟨hwf, hin⟩⟩
  | succ n ih =>
    have hres : Resolves T C (Nested T C n) (Everywhere WellFormed) (reconcileWithin config n) :=
      ⟨fun _ ht => ht.2.self, fun _ _ _ hext ht hr => ih hext ht hr⟩
    rw [nested_succ_iff] at hs ⊢
    obtain ⟨horderly, hwf, hin⟩ := reconcileWith_spec hR hres hext hs h
    exact ⟨horderly, everywhere_iff.mpr ⟨hwf, hin⟩⟩

theorem everywhere_orderly_reconcile (hR : Regime T C) (hext : external.In C)
    (hs : s.Everywhere (Orderly T C)) (h : reconcile config external s = .ok s') :
    s'.Everywhere (Orderly T C) :=
  (reconcileWithin_spec hR hext ⟨Nat.le_refl _, hs⟩ h).1.2

/-- A graph that was resolved is well-formed at every depth, if it was orderly before. -/
theorem everywhere_wellFormed_reconcile (hR : Regime T C) (hext : external.In C)
    (hs : s.Everywhere (Orderly T C)) (h : reconcile config external s = .ok s') :
    s'.Everywhere WellFormed :=
  (reconcileWithin_spec hR hext ⟨Nat.le_refl _, hs⟩ h).2

end GraphState

end Patchbay
