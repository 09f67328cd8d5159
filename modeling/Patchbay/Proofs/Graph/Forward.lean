import Patchbay.Proofs.Graph.Certainty
import Patchbay.Proofs.Graph.Cascade
import Patchbay.Proofs.Graph.TopologicalOrder

/-!
# Graphs that lead forward

Timetables are there for all graphs that *lead forward* (`GraphState.Forward`): no node feeds
itself, and the sources of subgraphs feed pads only whose types nothing moves. Then two passes
settle all types, and with the two that `Timed` keeps free at the end four are enough
(`Forward.timed`): whatever moves a pad comes before it (`Acyclic.precedes`), and sources of
subgraphs take nothing from the pads that they feed.

A graph is *straight* (`GraphState.Straight`) if this can be read off it: its links go from earlier
to later places, subgraphs feed only pads with names that no built-in type moves, and every
operator that holds more than a default has an operand of one kind. This is decidable, and a
straight graph leads forward and is decided (`Straight.forward`, `Straight.decided`).
-/

namespace Patchbay

/-- A list of a single constraint, as `Constraints.single?` finds it. -/
theorem Constraints.single?_eq_some {cs : Constraints} {c : Constraint} :
    cs.single? = some c ↔ cs = some [c] := by
  match cs with
  | none | some [] | some (_ :: _ :: _) => simp [single?]
  | some [d] => simp [single?]

/-- Everything at one time. Where there are no links this is a timetable (`timed_of_noLinks`). -/
def Timetable.always (k : Nat) : Timetable := ⟨fun _ => k, fun _ => k⟩

namespace GraphState

variable {s : GraphState} {config : EngineConfig} {echoes : Prop} {r : PadRef} {l : Link}
  {e f : NodeEntry}

/-- A pad of a plugin whose type does not depend on what is fed to any pad (`NodeType.Moves`), such
as the input of a display. -/
def Unmoved (s : GraphState) (r : PadRef) : Prop :=
  ∃ e type, s.node? r.node = some e ∧ e.body = .plugin type ∧ ∀ z, ¬ type.Moves z r.pad

/-- No node feeds itself, directly or through others, and the sources of subgraphs feed unmoved
pads only. -/
structure Forward (s : GraphState) : Prop where
  acyclic : s.Acyclic
  unmoved : ∀ l ∈ s.links, ∀ e, s.node? l.source.node = some e → e.isSubgraph = true →
    s.Unmoved l.sink

theorem not_unmoved_of_subgraph (he : s.node? r.node = some e) (hsub : e.isSubgraph = true) :
    ¬ s.Unmoved r := by
  rintro ⟨f, type, hf, hb, -⟩
  obtain rfl := Option.some.inj (he.symm.trans hf)
  rw [NodeEntry.isSubgraph, hb] at hsub
  cases hsub

/-- Without cycles, the source of a link comes first in the order of resolution
(`dependencyOrder`). -/
theorem Acyclic.precedes (h : s.Acyclic) (hs : s.Joined) (hl : l ∈ s.links) :
    s.Precedes l.source.node l.sink.node := by
  obtain ⟨p, q, hp, hq, -⟩ := hs.ends hl
  have hplace : ∀ {r p}, s.pad? r = some p → ∃ i, s.indexOf? r.node = some i := by
    intro r p hp
    obtain ⟨e, he, hid, -⟩ := pad?_eq_some hp
    exact exists_indexOf? (contains_iff.mpr (hid ▸ List.mem_map_of_mem he))
  obtain ⟨i, hi⟩ := hplace hp
  obtain ⟨j, hj⟩ := hplace hq
  have htopological := h.topological
  obtain ⟨front, rest, horder⟩ := List.append_of_mem
    ((htopological.mem_iff j).mpr (lt_of_indexOf? hj))
  have hbefore := (horder ▸ htopological.feeding).before i (h.mem_nodeEdges hl hi hj) trivial
  exact ⟨i, j, hi, hj, front, rest, horder, by simpa using hbefore⟩

/-! ### Timetables -/

open Classical in
/-- First the pads that nothing moves, then all others, and the graphs inside with them. -/
noncomputable def forwardTimes (s : GraphState) : Timetable where
  pads r := if s.Unmoved r then 1 else 2
  nodes _ := 2

theorem forwardTimes_of_unmoved (hr : s.Unmoved r) : s.forwardTimes.pads r = 1 := if_pos hr

theorem forwardTimes_of_moved (hr : ¬ s.Unmoved r) : s.forwardTimes.pads r = 2 := if_neg hr

theorem forwardTimes_pads_le (s : GraphState) (r : PadRef) : s.forwardTimes.pads r ≤ 2 := by
  by_cases hr : s.Unmoved r
  · rw [forwardTimes_of_unmoved hr]
    decide
  · rw [forwardTimes_of_moved hr]

/-- Without links, nothing waits for anything. -/
theorem timed_of_noLinks (hlinks : s.links = []) {k passes : Nat} (hk : k + 2 ≤ passes) :
    s.Timed echoes (.always k) passes := by
  have hnone : ∀ l ∈ s.links, False := by simp [hlinks]
  exact ⟨fun _ _ _ _ _ _ l hl => (hnone l hl).elim, fun _ _ _ l hl => (hnone l hl).elim,
    fun _ _ _ _ _ _ => .inr le_rfl, fun l hl => (hnone l hl).elim,
    fun _ _ _ _ l hl => (hnone l hl).elim, fun _ => hk⟩

/-- Four passes are enough for a graph that leads forward: what a pad takes its type from is
resolved before it in the same pass, so that `forwardTimes` has no entry after `2`, and two more
passes find nothing to do. -/
theorem Forward.timed (h : s.Forward) (hs : s.Joined) (hnd : (s.nodes.map (·.id)).Nodup)
    {passes : Nat} (hpasses : 4 ≤ passes) :
    s.Timed echoes s.forwardTimes passes := by
  have hin : ∀ l ∈ s.links, s.InTime l.source.node (s.forwardTimes.pads l.source) l.sink.node 2 :=
    fun l hl => .inr (.inr ⟨s.forwardTimes_pads_le _, h.acyclic.precedes hs hl⟩)
  refine ⟨fun e he type hb pad hop l hl hsink hmoves => ?_, fun e he hsub l hl hsink => ?_,
    fun e he hsub p hp hop => .inr ?_, fun l hl e he hsub => .inl ?_,
    fun e he hsub hzero => ?_, fun r => (Nat.add_le_add_right (s.forwardTimes_pads_le r) 2).trans
      hpasses⟩
  · have hmoved : ¬ s.Unmoved ⟨e.id, pad⟩ := by
      rintro ⟨f, type', hf, hf', hstill⟩
      obtain rfl := Option.some.inj ((node?_of_mem hnd he).symm.trans hf)
      obtain rfl := Body.plugin.inj (hb.symm.trans hf')
      exact hstill _ hmoves
    rw [forwardTimes_of_moved hmoved]
    exact hsink ▸ hin l hl
  · have hnode : s.node? l.sink.node = some e := hsink ▸ node?_of_mem hnd he
    rw [forwardTimes_of_moved (not_unmoved_of_subgraph hnode hsub)]
    exact hsink ▸ ⟨hin l hl, hin l hl⟩
  · rw [forwardTimes_of_moved (not_unmoved_of_subgraph (node?_of_mem hnd he) hsub)]
    exact le_rfl
  · rw [forwardTimes_of_moved (not_unmoved_of_subgraph he hsub),
      forwardTimes_of_unmoved (h.unmoved l hl e he hsub)]
    exact .inr (.inl (by decide))
  · cases hzero

/-- There is a timetable for every graph that leads forward, with nothing that is settled from the
start: `forwardTimes`, or one time for all if there are no links. -/
theorem Forward.exists_timetable (h : s.Forward) (hs : s.Joined) (hnd : (s.nodes.map (·.id)).Nodup)
    (hlimit : config.maxResolvePasses = 0 ∨ 4 ≤ config.maxResolvePasses) :
    ∃ L : Timetable, s.Timed echoes L (config.passLimit s.nodes.length) ∧
      (s.nodes ≠ [] → (∀ r, L.pads r ≠ 0) ∧ ∀ node, L.nodes node ≠ 0) := by
  have hpasses : ∀ k ≤ 4, (config.maxResolvePasses = 0 → k ≤ s.nodes.length + 2) →
      k ≤ config.passLimit s.nodes.length := by
    intro k hk hzero
    rw [EngineConfig.passLimit]
    split <;> omega
  by_cases hlinks : s.links = []
  · by_cases hnodes : s.nodes = []
    · exact ⟨.always 0, timed_of_noLinks hlinks (hpasses 2 (by decide) (by omega)),
        fun hne => absurd hnodes hne⟩
    · have hlen := List.length_pos_iff.mpr hnodes
      exact ⟨.always 1, timed_of_noLinks hlinks (hpasses 3 (by decide) (by omega)),
        fun _ => ⟨fun _ => Nat.one_ne_zero, fun _ => Nat.one_ne_zero⟩⟩
  · -- a link leads from one node to another
    obtain ⟨l, hl⟩ := List.exists_mem_of_ne_nil _ hlinks
    obtain ⟨i, j, hi, hj, hbefore⟩ := h.acyclic.precedes hs hl
    have hne : i ≠ j := by
      rintro rfl
      exact not_before_self s.feeding_dependencyOrder.1 i hbefore
    have hilt := lt_of_indexOf? hi
    have hjlt := lt_of_indexOf? hj
    refine ⟨s.forwardTimes, h.timed hs hnd (hpasses 4 le_rfl (by omega)),
      fun _ => ⟨fun r => ?_, fun _ => Nat.succ_ne_zero 1⟩⟩
    by_cases hr : s.Unmoved r
    · rw [forwardTimes_of_unmoved hr]
      decide
    · rw [forwardTimes_of_moved hr]
      decide

/-- Types are settled in time in graphs that lead forward (`Paced`), under the default limit of
passes or any other one that leaves four of them. -/
theorem Forward.paced (h : s.Forward) (hs : s.Joined) (hnd : (s.nodes.map (·.id)).Nodup)
    (hlimit : config.maxResolvePasses = 0 ∨ 4 ≤ config.maxResolvePasses) :
    s.Paced config echoes := by
  obtain ⟨L, htimed, hne⟩ := h.exists_timetable hs hnd hlimit
  exact ⟨L, htimed,
    fun e he _ _ _ _ _ hzero => absurd hzero ((hne (List.ne_nil_of_mem he)).1 _),
    fun e he _ _ _ => (hne (List.ne_nil_of_mem he)).1 _,
    fun e he _ => (hne (List.ne_nil_of_mem he)).2 _⟩

/-- No source of a subgraph feeds another subgraph, so that there is nothing to be grounded
(`Grounded`). -/
theorem Forward.grounded (h : s.Forward) : s.Grounded := fun l hl e _ he hf hsub hsub' =>
  absurd (h.unmoved l hl e he hsub) (not_unmoved_of_subgraph hf hsub')

/-! ### Tests -/

/-- The names of the pads that may be moved: the output of a relay, and the operands and the
operator of a compare. -/
def movedNames : List String :=
  [Passthrough.output, Compare.left, Compare.right, Compare.operator]

/-- Only operators declare menus, and nothing is linked to them. Together with slim constraints
this makes a graph clean (`Clean`). -/
def MenusApart (s : GraphState) : Prop :=
  (∀ e ∈ s.nodes, ∀ p ∈ e.pads, ¬ IsOperator p.id → ∀ c ∈ p.declared.getD [],
    c.kind ≠ .enumeration) ∧
  ∀ l ∈ s.links, ¬ IsOperator l.source.pad ∧ ¬ IsOperator l.sink.pad

instance : DecidablePred MenusApart := fun _ => inferInstanceAs (Decidable (_ ∧ _))

theorem MenusApart.clean (h : s.MenusApart) (hs : s.PadsIn Constraints.Slim) : s.Clean := by
  refine ⟨fun e he p hp hop => ⟨(hs e he p hp).1, fun l hl c hc => ?_⟩, h.2⟩
  exact h.1 e he p hp hop c (by rw [hl]; exact hc)

/-- The place of the link's source comes first, and if it belongs to a subgraph, the name of the
sink is none of a moved pad. -/
def LeadsOn (s : GraphState) (l : Link) : Prop :=
  s.place l.source.node < s.place l.sink.node ∧
    ((s.node? l.source.node).any (·.isSubgraph) = true →
      (s.node? l.sink.node).any (!·.isSubgraph) = true ∧ l.sink.pad ∉ movedNames)

instance (s : GraphState) : DecidablePred s.LeadsOn := fun _ => inferInstanceAs (Decidable (_ ∧ _))

/-- A pad of a plugin whose name is none of a moved pad. -/
theorem unmoved_of_name (hf : (s.node? r.node).any (!·.isSubgraph) = true)
    (hname : r.pad ∉ movedNames) : s.Unmoved r := by
  obtain ⟨f, hf, hplugin⟩ := (Option.any_eq_true _ _).mp hf
  cases hb : f.body with
  | subgraph id inner =>
    rw [NodeEntry.isSubgraph, hb] at hplugin
    cases hplugin
  | plugin type =>
    refine ⟨f, type, hf, hb, fun z hz => hname ?_⟩
    rcases hz with ⟨-, -, h⟩ | ⟨-, ⟨-, h | h⟩ | ⟨-, h | h⟩⟩ <;> rw [h] <;> decide

theorem forward_of_leadsOn (h : ∀ l ∈ s.links, s.LeadsOn l) : s.Forward := by
  refine ⟨acyclic_of_rank s.place fun l hl => (h l hl).1, fun l hl e he hsub => ?_⟩
  obtain ⟨hsink, hname⟩ := (h l hl).2 (by rw [he]; exact hsub)
  exact unmoved_of_name hsink hname

instance (v : Option Json) : Decidable (IdleValue v) :=
  decidable_of_iff (v.all fun j => j.str? = some "==") (by
    rw [IdleValue]
    cases v with
    | none => simp
    | some j => cases j <;> simp [Json.str?])

/-- The operator holds what it holds by itself (`IdleValue`), or an operand is fed by a pad that
nothing moves, which permits one kind of what can be compared. -/
def DecidedBy (s : GraphState) (e : NodeEntry) (p : PadState) : Prop :=
  IdleValue p.value ∨ ∃ l ∈ s.links, l.sink.node = e.id ∧
    (l.sink.pad = Compare.left ∨ l.sink.pad = Compare.right) ∧
    (s.node? l.source.node).any (!·.isSubgraph) = true ∧ l.source.pad ∉ movedNames ∧
    (Compare.comparable.intersect (s.behind l.source)).single?.isSome = true

instance (s : GraphState) (e : NodeEntry) : DecidablePred (s.DecidedBy e) := fun _ =>
  inferInstanceAs (Decidable (_ ∨ _))

/-- A graph with menus apart (`MenusApart`), whose links all lead on (`LeadsOn`) and whose
operators are all decided (`DecidedBy`). -/
def Straight (s : GraphState) : Prop :=
  s.MenusApart ∧ (∀ l ∈ s.links, s.LeadsOn l) ∧
    ∀ e ∈ s.nodes, e.isSubgraph = false → ∀ p ∈ e.pads, IsOperator p.id → s.DecidedBy e p

instance : DecidablePred Straight := fun _ => inferInstanceAs (Decidable (_ ∧ _ ∧ _))

theorem Straight.forward (h : s.Straight) : s.Forward := forward_of_leadsOn h.2.1

theorem Straight.decided (h : s.Straight) (hs : s.Joined) : s.Decided := by
  intro e he hb p hp hop
  refine (h.2.2 e he (by rw [NodeEntry.isSubgraph, hb]) p hp hop).imp_right ?_
  rintro ⟨l, hl, hsink, hside, hplugin, hname, hsole⟩
  obtain ⟨f, type, hf, hfb, hstill⟩ := unmoved_of_name hplugin hname
  obtain ⟨c, hc⟩ := Option.isSome_iff_exists.mp hsole
  exact ⟨l, hl, hsink, hside, hsink ▸ h.forward.acyclic.precedes hs hl, c.kind,
    .rigid (.plugin hf hfb hstill)
      ⟨[c], Constraints.single?_eq_some.mp hc, List.forall_mem_singleton.mpr rfl⟩⟩

end GraphState

end Patchbay
