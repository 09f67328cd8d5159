import Patchbay.Graph.Order
import Mathlib.Data.List.Nodup
import Mathlib.Data.List.Perm.Subperm

/-!
# The order of resolution puts feeding nodes first

The order is made by counting, for every place, the edges from places that are not placed yet; a
place waits from the moment its count is zero. So when a place is placed, all places with an edge
to it were placed before (`Feeding`), and a place that is never placed has an edge from another
such place. The places that no cycle leads to are all placed, and the others follow in the order of
the nodes (`feeding_dependencyOrder`).
-/

namespace Patchbay.GraphState

/-! ### Counting edges -/

section

variable {edges : List (Nat × Nat)} {placed waiting degrees : List Nat} {i j n : Nat}

/-- The number of edges to a place from places that are not placed. The degrees of the work are
these numbers (`Placing`). -/
def openDegree (edges : List (Nat × Nat)) (placed : List Nat) (j : Nat) : Nat :=
  (edges.filter fun p => p.2 == j && !placed.contains p.1).length

theorem openDegree_eq_zero_iff :
    openDegree edges placed j = 0 ↔ ∀ i, (i, j) ∈ edges → i ∈ placed := by
  rw [openDegree, List.length_eq_zero_iff, List.filter_eq_nil_iff]
  constructor
  · intro h i hi
    simpa using h (i, j) hi
  · rintro h ⟨i, k⟩ hk
    simp only [Bool.and_eq_true, beq_iff_eq, Bool.not_eq_true', not_and, Bool.not_eq_false,
      List.contains_iff_mem]
    rintro rfl
    exact h i hk

private theorem openDegree_cons (p : Nat × Nat) (edges : List (Nat × Nat)) (placed : List Nat)
    (j : Nat) : openDegree (p :: edges) placed j =
      openDegree edges placed j + if p.2 = j ∧ p.1 ∉ placed then 1 else 0 := by
  by_cases h : p.2 = j ∧ p.1 ∉ placed
  · simp [openDegree, h]
  · simp [openDegree, h]

/-- Placing a place takes its edges out of the counts. -/
theorem openDegree_append (hnd : edges.Nodup) (hi : i ∉ placed) :
    openDegree edges placed j =
      openDegree edges (placed ++ [i]) j + if (i, j) ∈ edges then 1 else 0 := by
  induction edges with
  | nil => simp [openDegree]
  | cons p rest ih =>
    obtain ⟨hp, hrest⟩ := List.nodup_cons.mp hnd
    rw [openDegree_cons, openDegree_cons, ih hrest]
    obtain ⟨a, b⟩ := p
    by_cases ha : a = i
    · subst ha
      by_cases hb : b = j
      · subst hb
        simp [hi, hp]
      · have hne : ¬ j = b := fun h => hb h.symm
        simp [hb, hne]
    · have hne : ¬ i = a := fun h => ha h.symm
      simp [ha, hne]
      omega

/-! ### Releasing -/

/-- Every target loses one open edge, and those that reach zero are ready, so that no degree goes
below zero. -/
theorem release_spec : ∀ (targets degrees : List Nat), targets.Nodup →
    (∀ t ∈ targets, t < degrees.length) →
    (release degrees targets).1.length = degrees.length ∧
      (∀ j, (release degrees targets).1.getD j 0 =
        if j ∈ targets then degrees.getD j 0 - 1 else degrees.getD j 0) ∧
      (release degrees targets).2 = targets.filter fun t => degrees.getD t 0 - 1 == 0
  | [], degrees, _, _ => by simp [release]
  | t :: ts, degrees, hnd, hlt => by
    obtain ⟨ht, hts⟩ := List.nodup_cons.mp hnd
    obtain ⟨hlt₀, hlt'⟩ := List.forall_mem_cons.mp hlt
    obtain ⟨hlen, hget, hready⟩ := release_spec ts (degrees.set t (degrees.getD t 0 - 1)) hts
      (by simpa using hlt')
    have hset : ∀ k, (degrees.set t (degrees.getD t 0 - 1)).getD k 0 =
        if k = t then degrees.getD t 0 - 1 else degrees.getD k 0 := by
      intro k
      rw [List.getD_eq_getElem?_getD, List.getElem?_set]
      by_cases hk : t = k
      · subst hk
        simp [hlt₀]
      · have hk' : ¬ k = t := fun h => hk h.symm
        simp [hk, hk']
    refine ⟨by simpa [release] using hlen, fun j => ?_, ?_⟩
    · have h := hget j
      rw [hset] at h
      simp only [release, h, List.mem_cons]
      by_cases hj : j = t
      · subst hj
        simp [ht]
      · simp [hj]
    · have hrest : (ts.filter fun u =>
          (degrees.set t (degrees.getD t 0 - 1)).getD u 0 - 1 == 0) =
          ts.filter fun u => degrees.getD u 0 - 1 == 0 := by
        refine List.filter_congr fun u hu => ?_
        have hne : u ≠ t := fun h => ht (h ▸ hu)
        rw [hset, if_neg hne]
      simp only [release, hready, hrest, List.filter_cons, beq_iff_eq]

/-! ### Placing -/

/-- The state of the work: what was placed, what waits, and the degrees that are left. The places
that are placed or wait are those without open edges (`openDegree`). -/
structure Placing (edges : List (Nat × Nat)) (n : Nat) (placed waiting degrees : List Nat) :
    Prop where
  nodup : (placed ++ waiting).Nodup
  length : degrees.length = n
  degree : ∀ j, j < n → degrees.getD j 0 = openDegree edges placed j
  ready : ∀ j, j ∈ placed ++ waiting ↔ j < n ∧ openDegree edges placed j = 0

/-- In a list of places, every edge from a place of the class `A` comes from one before it, or from
one of `placed`. -/
def Feeding (A : Nat → Prop) (edges : List (Nat × Nat)) : List Nat → List Nat → Prop
  | _, [] => True
  | placed, i :: rest =>
    (∀ j, (j, i) ∈ edges → A j → j ∈ placed) ∧ Feeding A edges (placed ++ [i]) rest

theorem feeding_of_placed {A : Nat → Prop} (order : List Nat)
    (h : ∀ i j, (j, i) ∈ edges → A j → j ∈ placed) : Feeding A edges placed order := by
  induction order generalizing placed with
  | nil => trivial
  | cons i rest ih =>
    exact ⟨h i, ih fun k j hjk hA => List.mem_append_left _ (h k j hjk hA)⟩

theorem Feeding.append {A : Nat → Prop} {order rest : List Nat} (h : Feeding A edges placed order)
    (hrest : Feeding A edges (placed ++ order) rest) : Feeding A edges placed (order ++ rest) := by
  induction order generalizing placed with
  | nil => simpa using hrest
  | cons i order ih => exact ⟨h.1, ih h.2 (by simpa using hrest)⟩

/-- What feeds a place comes before it. -/
theorem Feeding.before {A : Nat → Prop} {done rest : List Nat}
    (h : Feeding A edges done (placed ++ i :: rest)) : ∀ j, (j, i) ∈ edges → A j →
    j ∈ done ++ placed := by
  induction placed generalizing done with
  | nil => simpa using h.1
  | cons k placed ih =>
    intro j hj hA
    simpa using ih h.2 j hj hA

theorem Feeding.mono {A B : Nat → Prop} {edges' : List (Nat × Nat)} {order : List Nat}
    (h : Feeding A edges placed order)
    (hAB : ∀ i j, (j, i) ∈ edges' → B j → (j, i) ∈ edges ∧ A j) :
    Feeding B edges' placed order := by
  induction order generalizing placed with
  | nil => trivial
  | cons i rest ih =>
    refine ⟨fun j hj hB => ?_, ih h.2⟩
    obtain ⟨hj, hA⟩ := hAB i j hj hB
    exact h.1 j hj hA

/-- What passes on from the feeding places holds of all places of the order. It is the induction
along an order without cycles. -/
theorem Feeding.forall {Q : Nat → Prop} {order : List Nat}
    (h : Feeding (fun _ => True) edges placed order) (hplaced : ∀ i ∈ placed, Q i)
    (hstep : ∀ i, (∀ j, (j, i) ∈ edges → Q j) → Q i) : ∀ i ∈ order, Q i := by
  induction order generalizing placed with
  | nil => nofun
  | cons i rest ih =>
    have hi : Q i := hstep i fun j hj => hplaced j (h.1 j hj trivial)
    refine List.forall_mem_cons.mpr ⟨hi, ih h.2 fun j hj => ?_⟩
    rcases List.mem_append.mp hj with hj | hj
    · exact hplaced j hj
    · exact List.mem_singleton.mp hj ▸ hi

/-- The places that edges from a place lead to. -/
theorem mem_targets : j ∈ (edges.filter fun p => p.1 == i).map (·.2) ↔ (i, j) ∈ edges := by
  simp only [List.mem_map, List.mem_filter, beq_iff_eq]
  constructor
  · rintro ⟨⟨a, b⟩, ⟨hmem, rfl⟩, rfl⟩
    exact hmem
  · exact fun h => ⟨(i, j), ⟨h, rfl⟩, rfl⟩

theorem nodup_targets (hnd : edges.Nodup) (i : Nat) :
    ((edges.filter fun p => p.1 == i).map (·.2)).Nodup := by
  refine List.Nodup.map_on ?_ (hnd.filter _)
  rintro ⟨a, b⟩ ha ⟨c, d⟩ hc hbd
  simp only [List.mem_filter, beq_iff_eq] at ha hc
  exact Prod.ext (ha.2.trans hc.2.symm) hbd

/-- One step of the work: the first waiting place is placed, and what is ready then waits.
`Placing` holds again. -/
theorem Placing.step (hnd : edges.Nodup) (hlt : ∀ p ∈ edges, p.2 < n)
    (h : Placing edges n placed (i :: waiting) degrees) :
    Placing edges n (placed ++ [i])
      (waiting ++ (release degrees ((edges.filter fun p => p.1 == i).map (·.2))).2)
      (release degrees ((edges.filter fun p => p.1 == i).map (·.2))).1 := by
  have htargets : ∀ t ∈ (edges.filter fun p => p.1 == i).map (·.2), t < degrees.length := by
    intro t ht
    rw [h.length]
    exact hlt _ (mem_targets.mp ht)
  obtain ⟨hlen, hget, hready⟩ := release_spec _ _ (nodup_targets hnd i) htargets
  have hi : i ∉ placed := by
    have hdisj := (List.nodup_append.mp h.nodup).2.2
    exact fun hmem => hdisj i hmem i List.mem_cons_self rfl
  have hopen : ∀ j, openDegree edges placed j =
      openDegree edges (placed ++ [i]) j + if (i, j) ∈ edges then 1 else 0 :=
    fun j => openDegree_append hnd hi
  have hmemReady : ∀ j, j ∈ (release degrees ((edges.filter fun p => p.1 == i).map (·.2))).2 ↔
      (i, j) ∈ edges ∧ openDegree edges (placed ++ [i]) j = 0 := by
    intro j
    rw [hready, List.mem_filter, mem_targets, beq_iff_eq]
    refine and_congr_right fun hij => ?_
    rw [h.degree j (hlt _ hij), hopen j, if_pos hij, Nat.add_sub_cancel]
  have hshift : placed ++ [i] ++ (waiting ++ (release degrees
      ((edges.filter fun p => p.1 == i).map (·.2))).2) =
      (placed ++ i :: waiting) ++ (release degrees
        ((edges.filter fun p => p.1 == i).map (·.2))).2 := by
    simp only [List.append_assoc, List.cons_append, List.nil_append]
  refine ⟨?_, hlen.trans h.length, fun j hj => ?_, fun j => ?_⟩
  · rw [hshift]
    refine List.nodup_append.mpr ⟨h.nodup, hready ▸ (nodup_targets hnd i).filter _, ?_⟩
    -- what becomes ready still had the open edge from `i`
    rintro a ha b hb rfl
    have hzero := ((h.ready a).mp ha).2
    rw [hopen, if_pos ((hmemReady a).mp hb).1] at hzero
    omega
  · rw [hget, h.degree j hj, hopen j]
    simp only [mem_targets]
    split <;> omega
  · rw [hshift, List.mem_append, h.ready, hmemReady]
    constructor
    · rintro (⟨hj, hzero⟩ | ⟨hij, hzero⟩)
      · rw [hopen] at hzero
        exact ⟨hj, by omega⟩
      · exact ⟨hlt _ hij, hzero⟩
    · rintro ⟨hj, hzero⟩
      by_cases hij : (i, j) ∈ edges
      · exact .inr ⟨hij, hzero⟩
      · refine .inl ⟨hj, ?_⟩
        rw [hopen, if_neg hij, hzero]

theorem Placing.length_le (h : Placing edges n placed waiting degrees) :
    (placed ++ waiting).length ≤ n := by
  have hsub : (placed ++ waiting).Subperm (List.range n) :=
    h.nodup.subperm fun j hj => List.mem_range.mpr ((h.ready j).mp hj).1
  simpa using hsub.length_le

/-- The work ends with nothing waiting, and with feeding places first (`Feeding`), by induction on
what is left to be placed. -/
theorem Placing.run (A : Nat → Prop) (hnd : edges.Nodup) (hlt : ∀ p ∈ edges, p.2 < n) (fuel : Nat)
    (hfuel : n ≤ fuel + placed.length) (h : Placing edges n placed waiting degrees) :
    Feeding A edges placed (placeWaiting edges fuel degrees waiting) ∧
      ∃ degrees', Placing edges n (placed ++ placeWaiting edges fuel degrees waiting)
      [] degrees' := by
  induction fuel generalizing placed waiting degrees with
  | zero =>
    cases waiting with
    | nil => exact ⟨trivial, degrees, by simpa [placeWaiting] using h⟩
    | cons i waiting =>
      -- a waiting place would be one more than there are places
      have hle := h.length_le
      simp only [List.length_append, List.length_cons] at hle
      omega
  | succ fuel ih =>
    cases waiting with
    | nil => exact ⟨trivial, degrees, by simpa [placeWaiting] using h⟩
    | cons i waiting =>
      have hstep := h.step hnd hlt
      have hlen : n ≤ fuel + (placed ++ [i]).length := by
        rw [List.length_append, List.length_singleton]
        omega
      obtain ⟨hfeed, degrees', hend⟩ := ih hlen hstep
      have hzero := ((h.ready i).mp (List.mem_append_right _ List.mem_cons_self)).2
      rw [placeWaiting]
      refine ⟨⟨fun j hj _ => openDegree_eq_zero_iff.mp hzero j hj, hfeed⟩, degrees', ?_⟩
      simpa only [List.append_assoc, List.singleton_append] using hend

/-- A nonempty list has a member without another one below it in a transitive, irreflexive
relation. -/
private theorem exists_minimal {r : Nat → Nat → Prop} (htrans : ∀ {a b c}, r a b → r b c → r a c)
    (hirrefl : ∀ a, ¬ r a a) (l : List Nat) (hl : l ≠ []) : ∃ m ∈ l, ∀ x ∈ l, ¬ r x m := by
  induction l with
  | nil => exact absurd rfl hl
  | cons a l ih =>
    rcases eq_or_ne l [] with rfl | hne
    · exact ⟨a, List.mem_cons_self, List.forall_mem_singleton.mpr (hirrefl a)⟩
    · obtain ⟨m, hm, hmin⟩ := ih hne
      by_cases ham : r a m
      · refine ⟨a, List.mem_cons_self, List.forall_mem_cons.mpr ⟨hirrefl a, fun x hx hxa => ?_⟩⟩
        exact hmin x hx (htrans hxa ham)
      · exact ⟨m, List.mem_cons_of_mem _ hm, List.forall_mem_cons.mpr ⟨ham, hmin⟩⟩

/-- Nothing stays behind that no cycle leads to: a place without open edges is placed, and some
place among those left behind has none (`exists_minimal`). -/
theorem Placing.complete {A : Nat → Prop} (hclosed : ∀ i j, (i, j) ∈ edges → A j → A i)
    (hacyclic : ∀ i, A i → ¬ Relation.TransGen (fun a b => (a, b) ∈ edges) i i)
    (hlt : ∀ p ∈ edges, p.1 < n) (h : Placing edges n placed [] degrees) {i : Nat} (hi : i < n)
    (hA : A i) : i ∈ placed := by
  classical
  have hready : ∀ j, j ∈ placed ↔ j < n ∧ openDegree edges placed j = 0 := by
    simpa only [List.append_nil] using h.ready
  by_contra hout
  have hleft : (List.range n).filter (fun j => j ∉ placed ∧ A j) ≠ [] := by
    refine List.ne_nil_of_mem (a := i) (List.mem_filter.mpr ⟨List.mem_range.mpr hi, ?_⟩)
    simpa using ⟨hout, hA⟩
  obtain ⟨m, hm, hmin⟩ := exists_minimal
    (r := fun a b => A a ∧ Relation.TransGen (fun a b => (a, b) ∈ edges) a b)
    (fun hab hbc => ⟨hab.1, hab.2.trans hbc.2⟩) (fun a ha => hacyclic a ha.1 ha.2) _ hleft
  simp only [List.mem_filter, List.mem_range, decide_eq_true_eq] at hm hmin
  refine hm.2.1 ((hready m).mpr ⟨hm.1, openDegree_eq_zero_iff.mpr fun k hk => ?_⟩)
  by_contra hkout
  have hAk := hclosed k m hk hm.2.2
  exact hmin k ⟨hlt _ hk, hkout, hAk⟩ ⟨hAk, .single hk⟩

end

/-! ### The order of a graph -/

variable {s : GraphState} {i j : Nat}

/-- A link leads from one node to another. Paths are chains of it (`Relation.TransGen`). -/
def Feeds (s : GraphState) (a b : String) : Prop :=
  ∃ l ∈ s.links, l.source.node = a ∧ l.sink.node = b

/-- No node feeds itself, directly or through others. -/
def Acyclic (s : GraphState) : Prop := ∀ a, ¬ Relation.TransGen s.Feeds a a

/-- There are no cycles when every link leads to a higher rank. -/
theorem acyclic_of_rank {s : GraphState} (rank : String → Nat)
    (h : ∀ l ∈ s.links, rank l.source.node < rank l.sink.node) : s.Acyclic := by
  have hlt : ∀ a b, Relation.TransGen s.Feeds a b → rank a < rank b := by
    intro a b hab
    induction hab with
    | single hfeeds =>
      obtain ⟨l, hl, rfl, rfl⟩ := hfeeds
      exact h l hl
    | tail _ hfeeds ih =>
      obtain ⟨l, hl, rfl, rfl⟩ := hfeeds
      exact Nat.lt_trans ih (h l hl)
  exact fun a haa => Nat.lt_irrefl _ (hlt a a haa)

/-- No cycle leads to the node, and it is on none. In a graph without cycles this is so of all
nodes. -/
def Ahead (s : GraphState) (a : String) : Prop :=
  ∀ b, Relation.ReflTransGen s.Feeds b a → ¬ Relation.TransGen s.Feeds b b

theorem Acyclic.ahead (h : s.Acyclic) (a : String) : s.Ahead a := fun b _ => h b

/-- What leads to a node that no cycle leads to is such a node itself. -/
theorem Ahead.of_transGen {a b : String} (h : s.Ahead b) (hab : Relation.TransGen s.Feeds a b) :
    s.Ahead a :=
  fun c hca => h c (hca.trans hab.to_reflTransGen)

private theorem nodup_dedup (l acc : List (Nat × Nat)) (hacc : acc.Nodup) :
    (l.foldl (fun acc p => if acc.contains p then acc else acc ++ [p]) acc).Nodup ∧
      ∀ x, x ∈ l.foldl (fun acc p => if acc.contains p then acc else acc ++ [p]) acc ↔
        x ∈ acc ∨ x ∈ l := by
  induction l generalizing acc with
  | nil => simpa using hacc
  | cons p rest ih =>
    rw [List.foldl_cons]
    split
    · rename_i hp
      obtain ⟨hnd, hmem⟩ := ih acc hacc
      refine ⟨hnd, fun x => ?_⟩
      rw [hmem, List.mem_cons]
      have hp : p ∈ acc := by simpa using hp
      constructor
      · rintro (h | h)
        · exact .inl h
        · exact .inr (.inr h)
      · rintro (h | rfl | h)
        · exact .inl h
        · exact .inl hp
        · exact .inr h
    · rename_i hp
      have hp : p ∉ acc := by simpa using hp
      have hacc' : (acc ++ [p]).Nodup := by
        refine List.nodup_append.mpr ⟨hacc, by simp, fun a ha b hb => ?_⟩
        rw [List.mem_singleton.mp hb]
        rintro rfl
        exact hp ha
      obtain ⟨hnd, hmem⟩ := ih _ hacc'
      refine ⟨hnd, fun x => ?_⟩
      rw [hmem, List.mem_append, List.mem_singleton, List.mem_cons, or_assoc]

theorem nodup_nodeEdges (s : GraphState) : s.nodeEdges.Nodup :=
  (nodup_dedup _ [] List.nodup_nil).1

theorem mem_nodeEdges : (i, j) ∈ s.nodeEdges ↔
    i ≠ j ∧ ∃ l ∈ s.links, s.indexOf? l.source.node = some i ∧ s.indexOf? l.sink.node =
    some j := by
  rw [nodeEdges, (nodup_dedup _ [] List.nodup_nil).2]
  simp only [List.not_mem_nil, false_or, List.mem_filterMap]
  constructor
  · rintro ⟨l, hl, h⟩
    split at h
    · rename_i a b ha hb
      split at h
      · cases h
      · rename_i hne
        cases h
        exact ⟨hne, l, hl, ha, hb⟩
    · cases h
  · rintro ⟨hne, l, hl, ha, hb⟩
    exact ⟨l, hl, by simp [ha, hb, hne]⟩

theorem indexOf?_eq_some {id : String} (h : s.indexOf? id = some i) :
    ∃ e, s.nodes[i]? = some e ∧ e.id = id := by
  obtain ⟨hlt, hid, -⟩ := List.findIdx?_eq_some_iff_getElem.mp h
  exact ⟨s.nodes[i], List.getElem?_eq_getElem hlt, by simpa using hid⟩

theorem lt_of_indexOf? {id : String} (h : s.indexOf? id = some i) : i < s.nodes.length := by
  obtain ⟨e, he, -⟩ := indexOf?_eq_some h
  exact (List.getElem?_eq_some_iff.mp he).1

/-- A link from a node that no cycle leads to leads to a different place. -/
theorem mem_nodeEdges_of_ahead {l : Link} (hl : l ∈ s.links)
    (hi : s.indexOf? l.source.node = some i)
    (hj : s.indexOf? l.sink.node = some j) (hahead : s.Ahead l.source.node) :
    (i, j) ∈ s.nodeEdges := by
  refine mem_nodeEdges.mpr ⟨?_, l, hl, hi, hj⟩
  rintro rfl
  obtain ⟨e, he, hid⟩ := indexOf?_eq_some hi
  obtain ⟨e', he', hid'⟩ := indexOf?_eq_some hj
  obtain rfl : e = e' := Option.some.inj (he.symm.trans he')
  exact hahead _ .refl (.single ⟨l, hl, rfl, hid'.symm.trans hid⟩)

/-- A way along edges is a way along links. -/
private theorem transGen_feeds (h : Relation.TransGen (fun a b => (a, b) ∈ s.nodeEdges) i j) :
    ∃ d e, s.nodes[i]? = some d ∧ s.nodes[j]? = some e ∧ Relation.TransGen s.Feeds d.id e.id := by
  have hedge : ∀ {a b}, (a, b) ∈ s.nodeEdges →
      ∃ d e, s.nodes[a]? = some d ∧ s.nodes[b]? = some e ∧ s.Feeds d.id e.id := by
    intro a b hab
    obtain ⟨-, l, hl, ha, hb⟩ := mem_nodeEdges.mp hab
    obtain ⟨d, hd, hdid⟩ := indexOf?_eq_some ha
    obtain ⟨e, he, heid⟩ := indexOf?_eq_some hb
    exact ⟨d, e, hd, he, l, hl, hdid.symm, heid.symm⟩
  induction h with
  | single hab =>
    obtain ⟨d, e, hd, he, hfeeds⟩ := hedge hab
    exact ⟨d, e, hd, he, .single hfeeds⟩
  | tail _ hbc ih =>
    obtain ⟨d, e, hd, he, hway⟩ := ih
    obtain ⟨e', f, he', hf, hfeeds⟩ := hedge hbc
    rw [he, Option.some.injEq] at he'
    exact ⟨d, f, hd, hf, hway.tail (he' ▸ hfeeds)⟩

/-- At the start nothing is placed, and the places without edges wait. -/
theorem placing_start (s : GraphState) :
    Placing s.nodeEdges s.nodes.length []
      ((List.range s.nodes.length).filter fun i =>
        (inDegrees s.nodes.length s.nodeEdges).getD i 0 == 0)
      (inDegrees s.nodes.length s.nodeEdges) := by
  have hdegree : ∀ j, j < s.nodes.length →
      (inDegrees s.nodes.length s.nodeEdges).getD j 0 = openDegree s.nodeEdges [] j := by
    intro j hj
    simp [inDegrees, openDegree, List.getD_eq_getElem?_getD, hj]
  refine ⟨List.nodup_range.filter _, by simp [inDegrees], hdegree, fun j => ?_⟩
  simp only [List.nil_append, List.mem_filter, List.mem_range, beq_iff_eq]
  refine and_congr_right fun hj => ?_
  rw [hdegree j hj]

/-- No cycle leads to the node at the place. -/
def AheadAt (s : GraphState) (i : Nat) : Prop := ∃ e, s.nodes[i]? = some e ∧ s.Ahead e.id

/-- The order of resolution has every place once, and all that no cycle leads to come before what
they feed (`Feeding`). -/
theorem feeding_dependencyOrder (s : GraphState) :
    s.dependencyOrder.Nodup ∧ (∀ i, i ∈ s.dependencyOrder ↔ i < s.nodes.length) ∧
      Feeding s.AheadAt s.nodeEdges [] s.dependencyOrder := by
  have hlt : ∀ p ∈ s.nodeEdges, p.1 < s.nodes.length ∧ p.2 < s.nodes.length := by
    rintro ⟨i, j⟩ hp
    obtain ⟨-, l, -, hi, hj⟩ := mem_nodeEdges.mp hp
    exact ⟨lt_of_indexOf? hi, lt_of_indexOf? hj⟩
  have hclosed : ∀ i j, (i, j) ∈ s.nodeEdges → s.AheadAt j → s.AheadAt i := by
    rintro i j hij ⟨e, he, hahead⟩
    obtain ⟨d, e', hd, he', hway⟩ := transGen_feeds (.single hij)
    rw [he, Option.some.injEq] at he'
    exact ⟨d, hd, hahead.of_transGen (he' ▸ hway)⟩
  have hacyclic : ∀ i, s.AheadAt i →
      ¬ Relation.TransGen (fun a b => (a, b) ∈ s.nodeEdges) i i := by
    rintro i ⟨e, he, hahead⟩ hi
    obtain ⟨d, d', hd, hd', hway⟩ := transGen_feeds hi
    obtain rfl : e = d := Option.some.inj (he.symm.trans hd)
    obtain rfl : e = d' := Option.some.inj (he.symm.trans hd')
    exact hahead e.id .refl hway
  obtain ⟨hfeed, degrees, hend⟩ := (placing_start s).run s.AheadAt (nodup_nodeEdges s)
    (fun p hp => (hlt p hp).2) s.nodes.length (Nat.le_add_right _ _)
  rw [List.nil_append] at hend
  have hnd := hend.nodup
  rw [List.append_nil] at hnd
  rw [dependencyOrder]
  refine ⟨?_, fun i => ?_, hfeed.append (feeding_of_placed _ fun i j hji hj => ?_)⟩
  · refine List.nodup_append.mpr ⟨hnd, List.nodup_range.filter _, ?_⟩
    rintro i hi j hj rfl
    obtain ⟨-, hout⟩ := List.mem_filter.mp hj
    simp only [Bool.not_eq_true', List.contains_eq_mem, decide_eq_false_iff_not] at hout
    exact hout hi
  · constructor
    · intro hi
      rcases List.mem_append.mp hi with hi | hi
      · exact ((hend.ready i).mp (List.mem_append_left _ hi)).1
      · exact List.mem_range.mp (List.mem_filter.mp hi).1
    · intro hi
      rw [List.mem_append, List.mem_filter, List.mem_range, Bool.not_eq_true',
        List.contains_eq_mem, decide_eq_false_iff_not]
      exact (em _).imp_right fun hout => ⟨hi, hout⟩
  · exact hend.complete hclosed hacyclic (fun p hp => (hlt p hp).1) (hlt _ hji).1 hj

end Patchbay.GraphState
