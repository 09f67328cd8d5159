import Mathlib.Data.List.Pairwise
import Patchbay.Proofs.Graph.Lookup
import Patchbay.Proofs.Graph.Order

/-!
# The order of resolution is topological

A node that is on no cycle of different nodes, and behind none, comes after all nodes that feed it;
the others come last, in the order of the node list (`DependencyOrdered`). Parallel links count as
one, and links of a node with itself or with a node that does not exist count as none.

The places that are released are just those without a cycle above them: what is released comes
after what feeds it, which no cycle allows, and nothing else stays behind (`Placing.complete`). The
count of edges is exact: no in-degree is taken one off that has none left (`dependencyOrder?`).
-/

namespace Patchbay.GraphState

/-! ### Counting with care -/

/-- Takes one off the in-degree of each target as `release` does; fails where none is left. -/
def release? : List Nat → List Nat → Option (List Nat × List Nat)
  | degrees, [] => some (degrees, [])
  | degrees, t :: ts =>
    match degrees[t]? with
    | none | some 0 => none
    | some (d + 1) =>
      (release? (degrees.set t d) ts).map fun (degrees, ready) =>
        (degrees, if d = 0 then t :: ready else ready)

/-- Places waiting nodes as `placeWaiting` does; fails where the count does, and when a node still
waits after so many steps. -/
def placeWaiting? (edges : List (Nat × Nat)) : Nat → List Nat → List Nat → Option (List Nat)
  | _, _, [] => some []
  | 0, _, _ :: _ => none
  | fuel + 1, degrees, i :: waiting =>
    let targets := (edges.filter fun p => p.1 == i).map (·.2)
    (release? degrees targets).bind fun (degrees, ready) =>
      (placeWaiting? edges fuel degrees (waiting ++ ready)).map (i :: ·)

/-- The order of resolution, made with care. -/
def dependencyOrder? (s : GraphState) : Option (List Nat) :=
  let n := s.nodes.length
  let edges := s.nodeEdges
  let degrees := inDegrees n edges
  let free := (List.range n).filter fun i => degrees.getD i 0 == 0
  (placeWaiting? edges n degrees free).map fun placed =>
    placed ++ (List.range n).filter fun i => !placed.contains i

section

variable {edges : List (Nat × Nat)} {placed waiting degrees targets order : List Nat} {i j n : Nat}

theorem release?_eq (hnd : targets.Nodup) (hpos : ∀ t ∈ targets, 0 < degrees.getD t 0) :
    release? degrees targets = some (release degrees targets) := by
  induction targets generalizing degrees with
  | nil => rfl
  | cons t ts ih =>
    obtain ⟨ht, hts⟩ := List.nodup_cons.mp hnd
    obtain ⟨hfirst, hrest⟩ := List.forall_mem_cons.mp hpos
    cases hd : degrees[t]? with
    | none => simp [hd] at hfirst
    | some d =>
      cases d with
      | zero => simp [hd] at hfirst
      | succ d =>
        have hset : ∀ u ∈ ts, 0 < (degrees.set t d).getD u 0 := by
          intro u hu
          have hne : t ≠ u := fun h => ht (h ▸ hu)
          simpa [List.getElem?_set_ne hne] using hrest u hu
        simp [release?, release, hd, ih hts hset]

/-- Every target of a place that waits has an open edge, the one from this place. -/
theorem Placing.release? (hnd : edges.Nodup) (hlt : ∀ p ∈ edges, p.2 < n)
    (h : Placing edges n placed (i :: waiting) degrees) :
    release? degrees ((edges.filter fun p => p.1 == i).map (·.2)) =
      some (release degrees ((edges.filter fun p => p.1 == i).map (·.2))) := by
  refine release?_eq (nodup_targets hnd i) fun t ht => ?_
  have hedge := mem_targets.mp ht
  have hi : i ∉ placed :=
    fun hmem => (List.nodup_append.mp h.nodup).2.2 i hmem i List.mem_cons_self rfl
  rw [h.degree t (hlt _ hedge), openDegree_append hnd hi, if_pos hedge]
  exact Nat.succ_pos _

/-- As many steps as there are places are enough, and no count fails in them. -/
theorem Placing.placeWaiting? (hnd : edges.Nodup) (hlt : ∀ p ∈ edges, p.2 < n) {fuel : Nat}
    (hfuel : n ≤ fuel + placed.length) (h : Placing edges n placed waiting degrees) :
    placeWaiting? edges fuel degrees waiting = some (placeWaiting edges fuel degrees waiting) := by
  induction fuel generalizing placed waiting degrees with
  | zero =>
    cases waiting with
    | nil => rfl
    | cons i waiting =>
      have hle := h.length_le
      simp only [List.length_append, List.length_cons] at hle
      omega
  | succ fuel ih =>
    cases waiting with
    | nil => rfl
    | cons i waiting =>
      have hlen : n ≤ fuel + (placed ++ [i]).length := by
        rw [List.length_append, List.length_singleton]
        omega
      simp only [GraphState.placeWaiting?, h.release? hnd hlt, Option.bind_some,
        ih hlen (h.step hnd hlt), Option.map_some, placeWaiting]

/-! ### Cycles of places -/

/-- The place is on a cycle of edges, or behind one. -/
def CyclicAt (edges : List (Nat × Nat)) (j : Nat) : Prop :=
  ∃ i, Relation.TransGen (fun a b => (a, b) ∈ edges) i i ∧
    Relation.ReflTransGen (fun a b => (a, b) ∈ edges) i j

theorem CyclicAt.step (h : CyclicAt edges i) (hij : (i, j) ∈ edges) : CyclicAt edges j := by
  obtain ⟨k, hcycle, hway⟩ := h
  exact ⟨k, hcycle, hway.tail hij⟩

/-- What feeds a place of the order stands before it. -/
theorem Feeding.idxOf_lt {A : Nat → Prop} (h : Feeding A edges [] order) (hnd : order.Nodup)
    (hji : (j, i) ∈ edges) (hA : A j) (hi : i ∈ order) :
    j ∈ order ∧ order.idxOf j < order.idxOf i := by
  obtain ⟨before, later, rfl⟩ := List.append_of_mem hi
  have hj : j ∈ before := h.before j hji hA
  have hout : i ∉ before :=
    fun hmem => (List.nodup_append.mp hnd).2.2 i hmem i List.mem_cons_self rfl
  refine ⟨List.mem_append_left _ hj, ?_⟩
  rw [List.idxOf_append_of_mem hj, List.idxOf_append_of_notMem hout, List.idxOf_cons_self]
  exact Nat.lt_of_lt_of_le (List.idxOf_lt_length_of_mem hj) (Nat.le_add_right _ _)

/-- No place on a cycle, or behind one, comes after all places that feed it. -/
theorem Feeding.not_cyclicAt (h : Feeding (fun _ => True) edges [] order) (hnd : order.Nodup)
    (hi : i ∈ order) :
    ¬ CyclicAt edges i := by
  have hway : ∀ {a b}, Relation.TransGen (fun a b => (a, b) ∈ edges) a b → b ∈ order →
      a ∈ order ∧ order.idxOf a < order.idxOf b := by
    intro a b hab hb
    induction hab with
    | single hedge => exact h.idxOf_lt hnd hedge trivial hb
    | tail _ hedge ih =>
      obtain ⟨hc, hlt⟩ := h.idxOf_lt hnd hedge trivial hb
      obtain ⟨ha, hlt'⟩ := ih hc
      exact ⟨ha, Nat.lt_trans hlt' hlt⟩
  rintro ⟨a, hcycle, hbehind⟩
  have ha : a ∈ order := by
    rcases Relation.reflTransGen_iff_eq_or_transGen.mp hbehind with rfl | hbehind
    · exact hi
    · exact (hway hbehind hi).1
  exact Nat.lt_irrefl _ (hway hcycle ha).2

end

/-! ### Cycles of nodes -/

variable {s : GraphState} {a b : String} {i j : Nat}

/-- A link leads from a node to another one. -/
def FeedsOther (s : GraphState) (a b : String) : Prop :=
  a ≠ b ∧ s.contains a = true ∧ s.contains b = true ∧ s.Feeds a b

/-- The node is on a cycle of two nodes or more, or behind one. -/
def BehindCycle (s : GraphState) (b : String) : Prop :=
  ∃ a, Relation.TransGen s.FeedsOther a a ∧ Relation.ReflTransGen s.FeedsOther a b

theorem exists_indexOf? (h : s.contains a = true) : ∃ i, s.indexOf? a = some i := by
  rw [← Option.isSome_iff_exists, indexOf?, List.findIdx?_isSome]
  exact h

theorem contains_of_indexOf? (h : s.indexOf? a = some i) : s.contains a = true := by
  obtain ⟨e, he, rfl⟩ := indexOf?_eq_some h
  exact contains_iff.mpr (List.mem_map.mpr ⟨e, List.mem_of_getElem? he, rfl⟩)

/-- Edges are the links between different nodes. -/
theorem mem_nodeEdges_iff (hi : s.indexOf? a = some i) (hj : s.indexOf? b = some j) :
    (i, j) ∈ s.nodeEdges ↔ s.FeedsOther a b := by
  have hid : ∀ {c d k}, s.indexOf? c = some k → s.indexOf? d = some k → c = d := by
    intro c d k hc hd
    obtain ⟨e, he, rfl⟩ := indexOf?_eq_some hc
    obtain ⟨f, hf, rfl⟩ := indexOf?_eq_some hd
    rw [Option.some.inj (he.symm.trans hf)]
  rw [mem_nodeEdges]
  constructor
  · rintro ⟨hne, l, hl, hsource, hsink⟩
    refine ⟨?_, contains_of_indexOf? hi, contains_of_indexOf? hj, l, hl, hid hsource hi,
      hid hsink hj⟩
    rintro rfl
    exact hne (Option.some.inj (hi.symm.trans hj))
  · rintro ⟨hne, -, -, l, hl, rfl, rfl⟩
    refine ⟨?_, l, hl, hi, hj⟩
    rintro rfl
    exact hne (hid hi hj)

/-- The id of the node at a place. -/
def nameAt (s : GraphState) (i : Nat) : String := (s.nodes[i]?.map (·.id)).getD ""

/-- The place of a node. -/
def placeOf (s : GraphState) (a : String) : Nat := (s.indexOf? a).getD 0

theorem nameAt_of_indexOf? (h : s.indexOf? a = some i) : s.nameAt i = a := by
  obtain ⟨e, he, rfl⟩ := indexOf?_eq_some h
  rw [nameAt, he]
  rfl

theorem placeOf_of_indexOf? (h : s.indexOf? a = some i) : s.placeOf a = i := by
  rw [placeOf, h]
  rfl

theorem feedsOther_nameAt (h : (i, j) ∈ s.nodeEdges) : s.FeedsOther (s.nameAt i) (s.nameAt j) := by
  obtain ⟨-, l, -, hi, hj⟩ := mem_nodeEdges.mp h
  rw [nameAt_of_indexOf? hi, nameAt_of_indexOf? hj]
  exact (mem_nodeEdges_iff hi hj).mp h

theorem mem_nodeEdges_placeOf (h : s.FeedsOther a b) :
    (s.placeOf a, s.placeOf b) ∈ s.nodeEdges := by
  obtain ⟨i, hi⟩ := exists_indexOf? h.2.1
  obtain ⟨j, hj⟩ := exists_indexOf? h.2.2.1
  rw [placeOf_of_indexOf? hi, placeOf_of_indexOf? hj]
  exact (mem_nodeEdges_iff hi hj).mpr h

/-- Cycles of nodes are cycles of places. -/
theorem cyclicAt_iff (hj : s.indexOf? b = some j) : CyclicAt s.nodeEdges j ↔ s.BehindCycle b := by
  have hname : ∀ i j, (i, j) ∈ s.nodeEdges → s.FeedsOther (s.nameAt i) (s.nameAt j) :=
    fun _ _ => feedsOther_nameAt
  have hplace : ∀ a b, s.FeedsOther a b → (s.placeOf a, s.placeOf b) ∈ s.nodeEdges :=
    fun _ _ => mem_nodeEdges_placeOf
  constructor
  · rintro ⟨i, hcycle, hway⟩
    exact ⟨s.nameAt i, hcycle.lift _ hname, nameAt_of_indexOf? hj ▸ hway.lift _ hname⟩
  · rintro ⟨a, hcycle, hway⟩
    exact ⟨s.placeOf a, hcycle.lift _ hplace, placeOf_of_indexOf? hj ▸ hway.lift _ hplace⟩

/-! ### The order -/

/-- A topological order of the places of a graph. -/
structure DependencyOrdered (s : GraphState) (order : List Nat) : Prop where
  /-- Every place comes once. -/
  perm : order.Perm (List.range s.nodes.length)
  /-- A node that is behind no cycle comes after the nodes that feed it. -/
  before : ∀ l ∈ s.links, l.source.node ≠ l.sink.node → ¬ s.BehindCycle l.sink.node → ∀ i j,
    s.indexOf? l.source.node = some i → s.indexOf? l.sink.node = some j →
    order.idxOf i < order.idxOf j
  /-- The nodes that are on cycles or behind them come last, in the order of the node list. -/
  last : ∃ front back, order = front ++ back ∧ back.Pairwise (· < ·) ∧
    ∀ i, i ∈ back ↔ ∃ e, s.nodes[i]? = some e ∧ s.BehindCycle e.id

/-- What is released are the places that are on no cycle, and behind none, each after those that
feed it. -/
theorem exists_released (s : GraphState) :
    ∃ placed, s.dependencyOrder? =
        some (placed ++ (List.range s.nodes.length).filter fun i => !placed.contains i) ∧
      s.dependencyOrder =
      placed ++ ((List.range s.nodes.length).filter fun i => !placed.contains i) ∧
      placed.Nodup ∧ Feeding (fun _ => True) s.nodeEdges [] placed ∧
      ∀ i, i ∈ placed ↔ i < s.nodes.length ∧ ¬ CyclicAt s.nodeEdges i := by
  have hlt : ∀ p ∈ s.nodeEdges, p.1 < s.nodes.length ∧ p.2 < s.nodes.length := by
    rintro ⟨i, j⟩ hp
    obtain ⟨-, l, -, hi, hj⟩ := mem_nodeEdges.mp hp
    exact ⟨lt_of_indexOf? hi, lt_of_indexOf? hj⟩
  have hfuel : s.nodes.length ≤ s.nodes.length + ([] : List Nat).length := Nat.le_add_right _ _
  have hcareful := s.placing_start.placeWaiting? (nodup_nodeEdges s)
    (fun p hp => (hlt p hp).2) hfuel
  obtain ⟨hfeed, degrees, hend⟩ := s.placing_start.run (fun _ => True) (nodup_nodeEdges s)
    (fun p hp => (hlt p hp).2) s.nodes.length hfuel
  rw [List.nil_append] at hend
  have hnd := List.append_nil (placeWaiting ..) ▸ hend.nodup
  refine ⟨_, by rw [dependencyOrder?, hcareful, Option.map_some], rfl, hnd, hfeed,
    fun i => ⟨fun hi => ?_, ?_⟩⟩
  · have hready := (hend.ready i).mp (List.mem_append_left _ hi)
    exact ⟨hready.1, hfeed.not_cyclicAt hnd hi⟩
  · rintro ⟨hi, hout⟩
    refine hend.complete (A := fun i => ¬ CyclicAt s.nodeEdges i)
      (fun i j hij hj hcyc => hj (hcyc.step hij))
      (fun i hi hcycle => hi ⟨i, hcycle, .refl⟩) (fun p hp => (hlt p hp).1) hi hout

/-- The order of resolution is topological (`GraphState.DependencyOrdered`), and the count that it
is made by never fails: taking one link after the other off the count of a node, one never takes
more than there are (`GraphState.dependencyOrder?`). -/
theorem dependencyOrder_topological (hids : (s.nodes.map (·.id)).Nodup) :
    s.dependencyOrder? = some s.dependencyOrder ∧ s.DependencyOrdered s.dependencyOrder := by
  obtain ⟨hnodup, hplaces, -⟩ := s.feeding_dependencyOrder
  obtain ⟨placed, hcareful, horder, hnd, hfeed, hplaced⟩ := s.exists_released
  refine ⟨hcareful.trans (congrArg some horder.symm), ?_, fun l hl hne hahead i j hi hj => ?_,
    placed, _, horder, ?_, fun i => ?_⟩
  · refine (List.perm_ext_iff_of_nodup hnodup List.nodup_range).mpr fun i => ?_
    rw [hplaces, List.mem_range]
  · have hmem : j ∈ placed :=
      (hplaced j).mpr ⟨lt_of_indexOf? hj, fun h => hahead ((cyclicAt_iff hj).mp h)⟩
    have hedge : (i, j) ∈ s.nodeEdges := (mem_nodeEdges_iff hi hj).mpr
      ⟨hne, contains_of_indexOf? hi, contains_of_indexOf? hj, l, hl, rfl, rfl⟩
    obtain ⟨hmem', hlt⟩ := hfeed.idxOf_lt hnd hedge trivial hmem
    rwa [horder, List.idxOf_append_of_mem hmem, List.idxOf_append_of_mem hmem']
  · exact List.pairwise_lt_range.filter _
  · rw [List.mem_filter, List.mem_range, Bool.not_eq_true', List.contains_eq_mem,
      decide_eq_false_iff_not, hplaced]
    constructor
    · rintro ⟨hi, hout⟩
      have hcyclic : CyclicAt s.nodeEdges i := by_contra fun h => hout ⟨hi, h⟩
      have hplace := indexOf?_of_getElem? hids (List.getElem?_eq_getElem hi)
      exact ⟨_, List.getElem?_eq_getElem hi, (cyclicAt_iff hplace).mp hcyclic⟩
    · rintro ⟨e, he, hbehind⟩
      have hplace := indexOf?_of_getElem? hids he
      exact ⟨lt_of_indexOf? hplace, fun h => h.2 ((cyclicAt_iff hplace).mpr hbehind)⟩

/-- Two nodes on a cycle and one behind them, a node that feeds itself, and one that is fed twice
by another one and once by a node that does not exist. -/
def tangle : GraphState where
  nodes := ["end", "ring", "chain", "behind", "loop", "start"].map fun id =>
    .plugin id "Relay" default
  links := [
    ⟨⟨"chain", "out"⟩, ⟨"behind", "in"⟩⟩,
    ⟨⟨"ring", "out"⟩, ⟨"chain", "in"⟩⟩,
    ⟨⟨"start", "out"⟩, ⟨"end", "in"⟩⟩,
    ⟨⟨"start", "out"⟩, ⟨"end", "more"⟩⟩,
    ⟨⟨"ghost", "out"⟩, ⟨"end", "rest"⟩⟩,
    ⟨⟨"loop", "out"⟩, ⟨"loop", "in"⟩⟩,
    ⟨⟨"chain", "out"⟩, ⟨"ring", "in"⟩⟩]

theorem dependencyOrder_topological_tangle : (tangle.nodes.map (·.id)).Nodup ∧
    tangle.dependencyOrder? = some tangle.dependencyOrder ∧
    tangle.DependencyOrdered tangle.dependencyOrder ∧
      tangle.dependencyOrder = [4, 5, 0, 1, 2, 3] := by
  have hids : (tangle.nodes.map (·.id)).Nodup := by decide
  obtain ⟨hcareful, htopological⟩ := dependencyOrder_topological hids
  exact ⟨hids, hcareful, htopological, by decide⟩

end Patchbay.GraphState
