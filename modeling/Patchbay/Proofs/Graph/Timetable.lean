import Patchbay.Proofs.Graph.Cut
import Patchbay.Proofs.Graph.Sinks

/-!
# When types are settled

A pass takes types from node to node, as far as the order of resolution goes along with the links;
against the order they move on in the next pass. A *timetable* says by which pass the types of
each pad are settled, and by which pass those inside each subgraph. It is kept if whatever a pad
takes its types from is settled in time (`GraphState.Timed`).

The source of a subgraph takes its types from the sinks that it feeds, too. A sink of another
subgraph declares what feeds it, so that the two would wait for each other. What counts is what is
behind the sink (`GraphState.Echo`).
-/

namespace Patchbay

/-- By which pass the types of pads are settled, and those inside of nodes. What is at `0` needs no
pass: it is as it should be from the start. -/
structure Timetable where
  pads : PadRef → Nat
  nodes : String → Nat

namespace GraphState

variable {T : String → NodeType → Prop} {config : EngineConfig} {n m : Nat}
  {external external' : External} {s t u : GraphState} {e d : NodeEntry} {p q : PadState}
  {r : PadRef} {id : Option String} {inner : GraphState} {i j k a b : Nat} {placed rest : List Nat}
  {x y : String}

/-! ### Passes -/

/-- The node `x` is resolved before the node `y` in every pass (`dependencyOrder`). -/
def Precedes (s : GraphState) (x y : String) : Prop :=
  ∃ i j, s.indexOf? x = some i ∧ s.indexOf? y = some j ∧ Before s.dependencyOrder i j

/-- What is settled at the node `x` by the pass `a` is in time for the node `y` in the pass `b`.
What needs no pass at all always is. -/
def InTime (s : GraphState) (x : String) (a : Nat) (y : String) (b : Nat) : Prop :=
  a = 0 ∨ a < b ∨ a ≤ b ∧ s.Precedes x y

/-- After `k` passes and in the midst of the next one, in which the nodes at some places were
resolved, what is settled by the pass `a` is settled at the place `i`. -/
def Due (k : Nat) (placed : List Nat) (a i : Nat) : Prop := a ≤ k ∨ a ≤ k + 1 ∧ i ∈ placed

theorem Due.of_le (h : a ≤ k) : Due k placed a i := .inl h

/-- The places that are not resolved keep what is due. -/
theorem due_append_of_ne (hij : j ≠ i) : Due k (placed ++ [i]) a j ↔ Due k placed a j := by
  simp [Due, hij]

/-- A pass is over. -/
theorem due_succ_iff (hi : i ∈ placed) : Due k placed a i ↔ Due (k + 1) [] a i := by
  simp only [Due, hi, and_true, List.not_mem_nil, and_false, or_false]
  omega

/-- Whatever is due at a node rests on what was settled in earlier passes at the node that is
resolved now. -/
theorem le_of_inTime (horder : s.dependencyOrder = placed ++ i :: rest)
    (hx : s.indexOf? x = some i) (hy : s.indexOf? y = some j) (h : s.InTime x a y b)
    (hdue : Due k (placed ++ [i]) b j) : a ≤ k := by
  rcases h with rfl | hlt | ⟨hle, i', j', hx', hy', hbefore⟩
  · exact Nat.zero_le k
  · rcases hdue with h | ⟨h, -⟩ <;> omega
  · obtain rfl := Option.some.inj (hx.symm.trans hx')
    obtain rfl := Option.some.inj (hy.symm.trans hy')
    have hnd : (placed ++ i :: rest).Nodup := horder ▸ s.feeding_dependencyOrder.1
    have hi : i ∉ placed := fun h => (List.nodup_append.mp hnd).2.2 i h i List.mem_cons_self rfl
    rcases hdue with h | ⟨-, hj⟩
    · exact hle.trans h
    · -- the node that rests on it comes later
      rcases List.mem_append.mp hj with hj | hj
      · obtain ⟨front, back, rfl⟩ := List.append_of_mem hj
        have hback : j ∉ back ++ i :: rest := by
          rw [List.append_assoc] at hnd
          exact (List.nodup_cons.mp (List.nodup_append.mp hnd).2.1).1
        rw [horder, List.append_assoc, List.cons_append, before_append_cons_iff hback] at hbefore
        exact absurd (List.mem_append_left _ hbefore) hi
      · rw [List.mem_singleton.mp hj] at hbefore
        exact absurd hbefore (not_before_self (s.feeding_dependencyOrder.1) i)

theorem InTime.congr (hids : t.nodes.map (·.id) = s.nodes.map (·.id)) (hlinks : t.links = s.links)
    (h : s.InTime x a y b) : t.InTime x a y b := by
  rw [InTime, Precedes, dependencyOrder_congr hids hlinks, indexOf?_congr hids]
  exact h

/-! ### Pads that nothing moves -/

/-- Nothing that is fed to the graph changes what is behind the pad: it is declared by a plugin
whose type does not move it (`NodeType.Moves`), or stands for such a pad inside. -/
inductive Rigid : GraphState → PadRef → Prop
  | plugin {s : GraphState} {r : PadRef} {e : NodeEntry} {type : NodeType}
      (node : s.node? r.node = some e) (body : e.body = .plugin type)
      (still : ∀ z, ¬ type.Moves z r.pad) : Rigid s r
  | inside {s : GraphState} {r : PadRef} {e : NodeEntry} {id : Option String} {inner : GraphState}
      {x : PadRef} (node : s.node? r.node = some e) (body : e.body = .subgraph id inner)
      (target : parseProxyPadId r.pad = some x) (rigid : Rigid inner x) : Rigid s r

/-- Nothing that is fed to the graph inside changes what is behind the pad of its node. -/
def RigidBehind (e : NodeEntry) (pad : String) : Prop :=
  ∃ id inner x, e.body = .subgraph id inner ∧ parseProxyPadId pad = some x ∧ inner.Rigid x

/-! ### Timetables -/

/-- A link from a source of a subgraph to a sink of another one, where what is behind the sink
(`GraphState.behind`) is settled in time. The nodes of the sink are to be resolved once before. -/
structure Echo (s : GraphState) (L : Timetable) (l : Link) (f : NodeEntry) : Prop where
  node : s.node? l.sink.node = some f
  subgraph : f.isSubgraph = true
  ne : l.sink.node ≠ l.source.node
  once : s.InTime l.sink.node 1 l.source.node (L.pads l.source)
  behind : RigidBehind f l.sink.pad ∨
    s.InTime l.sink.node (L.nodes l.sink.node) l.source.node (L.pads l.source)

/-- The timetable is kept: whatever the types of a pad depend on is settled in time, and in the
last two of the passes nothing is left to be done. What is settled from the start rests on what is
settled from the start only. Links between subgraphs may be left out of this if echoes are
allowed. -/
structure Timed (s : GraphState) (echoes : Prop) (L : Timetable) (passes : Nat) : Prop where
  moved : ∀ e ∈ s.nodes, ∀ type, e.body = .plugin type → ∀ pad, ¬ IsOperator pad →
    ∀ l ∈ s.links, l.sink.node = e.id → type.Moves l.sink.pad pad →
      s.InTime l.source.node (L.pads l.source) e.id (L.pads ⟨e.id, pad⟩)
  fed : ∀ e ∈ s.nodes, e.isSubgraph = true → ∀ l ∈ s.links, l.sink.node = e.id →
    s.InTime l.source.node (L.pads l.source) e.id (L.nodes e.id) ∧
      s.InTime l.source.node (L.pads l.source) e.id (L.pads l.sink)
  shown : ∀ e ∈ s.nodes, e.isSubgraph = true → ∀ p ∈ e.pads, ¬ IsOperator p.id →
    RigidBehind e p.id ∨ L.nodes e.id ≤ L.pads ⟨e.id, p.id⟩
  feeding : ∀ l ∈ s.links, ∀ e, s.node? l.source.node = some e → e.isSubgraph = true →
    s.InTime l.sink.node (L.pads l.sink) l.source.node (L.pads l.source) ∨
      echoes ∧ ∃ f, s.Echo L l f
  idle : ∀ e ∈ s.nodes, e.isSubgraph = true → L.nodes e.id = 0 → ∀ l ∈ s.links,
    (l.source.node = e.id → L.pads l.sink = 0) ∧ (l.sink.node = e.id → L.pads l.source = 0)
  pads_le : ∀ r, L.pads r + 2 ≤ passes

/-- Nothing is settled from the start, except where a plugin never declares anything. A timetable
with this property does not depend on what a draft declares. -/
structure StartsCold (s : GraphState) (L : Timetable) : Prop where
  plugin : ∀ e ∈ s.nodes, ∀ type, e.body = .plugin type → ∀ p ∈ e.pads, ¬ IsOperator p.id →
    L.pads ⟨e.id, p.id⟩ = 0 → p.declared = none ∧ ∀ z, ¬ type.Moves z p.id
  pads : ∀ e ∈ s.nodes, e.isSubgraph = true → ∀ p ∈ e.pads, L.pads ⟨e.id, p.id⟩ ≠ 0
  nodes : ∀ e ∈ s.nodes, e.isSubgraph = true → L.nodes e.id ≠ 0

/-- There is a timetable for the graph that does not depend on how it starts (`StartsCold`), and it
fits into the passes that are allowed (`EngineConfig.passLimit`). -/
def Paced (config : EngineConfig) (echoes : Prop) (s : GraphState) : Prop :=
  ∃ L : Timetable, s.Timed echoes L (config.passLimit s.nodes.length) ∧ s.StartsCold L

/-! ### What is behind rigid pads -/

section

variable (hT : ∀ name type, T name type → type.IsBuiltin)

include hT

/-- In graphs at rest with one plan the same is behind a rigid pad, by induction along the graphs
inside. -/
theorem Rigid.behind (h : s.Rigid r) (hs : AtRest T config n external s)
    (ht : AtRest T config n external' t)
    (hplan : t.nodes.map NodeEntry.plan = s.nodes.map NodeEntry.plan) :
    t.behind r = s.behind r := by
  induction h generalizing n external external' t with
  | @plugin s r e type node body still =>
    obtain ⟨i, d, hd, he, hd', hde⟩ :=
      exists_node_of_plan hplan hs.wellFormed.self.distinctNodes node
    have hmem := List.mem_of_getElem? he
    rw [behind_eq, behind_eq, node, hd, Option.bind_some, Option.bind_some]
    refine behind_of_declared hde body fun p hp q hq hpid hqid => ?_
    exact (hs.outcome hT hmem).declared_congr hT hs hmem
      (ht.outcome_of_plan hT (List.mem_of_getElem? hd') hde) body hp hq (hqid.trans hpid.symm)
      fun z hz => absurd (hpid ▸ hz) (still z)
  | @inside s r e id inner x node body target rigid ih =>
    obtain ⟨i, d, hd, he, hd', hde⟩ :=
      exists_node_of_plan hplan hs.wellFormed.self.distinctNodes node
    obtain ⟨inner', body', hplan'⟩ :=
      Body.subgraph_of_plan (NodeEntry.plan_eq_iff.mp hde).2.2.2.2 body
    obtain ⟨m, rfl, hrest⟩ := hs.inside hT (List.mem_of_getElem? he) body
    obtain ⟨m', hm, hrest'⟩ := ht.inside hT (List.mem_of_getElem? hd') body'
    obtain rfl : m = m' := Nat.succ.inj hm
    rw [behind_eq, behind_eq, node, hd, Option.bind_some, Option.bind_some,
      NodeEntry.behind_of_body body, NodeEntry.behind_of_body body', target]
    exact ih hrest hrest' (nodes_of_plan hplan')

omit hT in
/-- Pads are rigid by the plan of the graph. -/
theorem Rigid.of_plan (h : s.Rigid r) (hnd : s.Everywhere WellFormed)
    (hplan : t.nodes.map NodeEntry.plan = s.nodes.map NodeEntry.plan) : t.Rigid r := by
  induction h generalizing t with
  | @plugin s r e type node body still =>
    obtain ⟨i, d, hd, -, -, hde⟩ := exists_node_of_plan hplan hnd.self.distinctNodes node
    exact .plugin hd (Body.plugin_of_plan (NodeEntry.plan_eq_iff.mp hde).2.2.2.2 body) still
  | @inside s r e id inner x node body target rigid ih =>
    obtain ⟨i, d, hd, he, -, hde⟩ := exists_node_of_plan hplan hnd.self.distinctNodes node
    obtain ⟨inner', body', hplan'⟩ :=
      Body.subgraph_of_plan (NodeEntry.plan_eq_iff.mp hde).2.2.2.2 body
    exact .inside hd body' target
      (ih (hnd.body (List.mem_of_getElem? he) _ _ body) (nodes_of_plan hplan'))

omit hT in
theorem RigidBehind.of_plan {pad : String} (h : RigidBehind e pad)
    (hwf : e.body.Inside (Everywhere WellFormed)) (hde : d.plan = e.plan) :
    RigidBehind d pad := by
  obtain ⟨id, inner, x, hb, hx, hrigid⟩ := h
  obtain ⟨inner', hb', hplan⟩ := Body.subgraph_of_plan (NodeEntry.plan_eq_iff.mp hde).2.2.2.2 hb
  exact ⟨id, inner', x, hb', hx, hrigid.of_plan (hwf _ _ hb) (nodes_of_plan hplan)⟩

omit hT in
/-- Whether a timetable is kept depends on the plan of the graph only (`GraphState.plan`), so that
all drafts of a graph share its timetables. -/
theorem Timed.of_plan {echoes : Prop} {L : Timetable} {passes : Nat}
    (h : s.Timed echoes L passes) (hwf : s.Everywhere WellFormed) (hplan : t.plan = s.plan) :
    t.Timed echoes L passes := by
  have hnodes := nodes_of_plan hplan
  have hlinks := links_of_plan hplan
  have hids := ids_of_plan hnodes
  have hnd := hwf.self.distinctNodes
  have hin : ∀ {x a y b}, s.InTime x a y b → t.InTime x a y b := InTime.congr hids hlinks
  -- nodes correspond to each other
  have hback : ∀ d ∈ t.nodes, ∃ e ∈ s.nodes, d.plan = e.plan := fun d hd => by
    obtain ⟨e, he, hde⟩ := mem_of_plan hnodes.symm hd
    exact ⟨e, he, hde.symm⟩
  have hsub : ∀ {d e : NodeEntry}, d.plan = e.plan → d.isSubgraph = e.isSubgraph :=
    NodeEntry.isSubgraph_of_plan
  refine ⟨?_, ?_, ?_, ?_, ?_, h.pads_le⟩
  · intro d hd type hb pad hop l hl hsink hmoves
    obtain ⟨e, he, hde⟩ := hback d hd
    obtain ⟨hid, -, -, -, hbody⟩ := NodeEntry.plan_eq_iff.mp hde
    rw [hid] at hsink ⊢
    exact hin (h.moved e he type (Body.plugin_of_plan hbody.symm hb) pad hop l (hlinks ▸ hl) hsink
      hmoves)
  · intro d hd hdsub l hl hsink
    obtain ⟨e, he, hde⟩ := hback d hd
    rw [(NodeEntry.plan_eq_iff.mp hde).1] at hsink ⊢
    exact (h.fed e he (hsub hde ▸ hdsub) l (hlinks ▸ hl) hsink).imp hin hin
  · intro d hd hdsub q hq hop
    obtain ⟨e, he, hde⟩ := hback d hd
    obtain ⟨p, hp, hpid, -⟩ := NodeEntry.exists_pad_of_plan hde hq
    rw [(NodeEntry.plan_eq_iff.mp hde).1, ← hpid]
    exact (h.shown e he (hsub hde ▸ hdsub) p hp (hpid ▸ hop)).imp_left
      (RigidBehind.of_plan · (hwf.body he) hde)
  · intro l hl d hd hdsub
    obtain ⟨i, e, he, -, -, hed⟩ := exists_node_of_plan hnodes.symm (hids ▸ hnd) hd
    refine (h.feeding l (hlinks ▸ hl) e he (hsub hed.symm ▸ hdsub)).imp hin ?_
    rintro ⟨hechoes, f, hf, hfsub, hne, honce, hbehind⟩
    obtain ⟨j, c, hc, hf', -, hcf⟩ := exists_node_of_plan hnodes hnd hf
    exact ⟨hechoes, c, hc, (hsub hcf).trans hfsub, hne, hin honce,
      hbehind.imp (RigidBehind.of_plan · (hwf.body (List.mem_of_getElem? hf')) hcf) hin⟩
  · intro d hd hdsub hzero l hl
    obtain ⟨e, he, hde⟩ := hback d hd
    rw [(NodeEntry.plan_eq_iff.mp hde).1] at hzero ⊢
    exact h.idle e he (hsub hde ▸ hdsub) hzero l (hlinks ▸ hl)

end

end GraphState

end Patchbay
