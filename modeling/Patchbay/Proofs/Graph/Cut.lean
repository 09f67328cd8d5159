import Patchbay.Proofs.Graph.Order
import Patchbay.Proofs.Graph.LinkTable
import Patchbay.Proofs.Graph.Groups

/-!
# Links put in and taken out

A sink that nothing feeds is linked by one more entry in the table of links, and taking the entry
out again leaves the table as it was. In the order of resolution a graph with fewer links is at no
disadvantage: if a node comes after one that feeds it, it does so too when other links are gone
(`before_of_subset`).
-/

namespace Patchbay.GraphState

variable {s t : GraphState} {i j : Nat} {l k : Link} {links : List Link} {r : PadRef}

/-! ### The order of resolution -/

/-- One place comes before another in an order. The order is split there, so that what holds of the
places before can be told. -/
def Before (order : List Nat) (j i : Nat) : Prop :=
  ∃ placed rest, order = placed ++ i :: rest ∧ j ∈ placed

theorem before_append_cons_iff {front rest : List Nat} (hi : i ∉ rest) :
    Before (front ++ i :: rest) j i ↔ j ∈ front := by
  refine ⟨fun ⟨placed, back, heq, hj⟩ => ?_, fun hj => ⟨front, rest, rfl, hj⟩⟩
  rcases List.append_eq_append_iff.mp heq with ⟨mid, rfl, hmid⟩ | ⟨mid, rfl, -⟩
  · cases mid with
    | nil => simpa using hj
    | cons m mid =>
      obtain ⟨rfl, rfl⟩ := List.cons.inj hmid
      exact absurd (by simp) hi
  · exact List.mem_append_left _ hj

/-- The order of resolution starts with places that come after all that feed them. Whatever is fed
by such places only is among them, and the others, on cycles or behind them, follow by number. -/
theorem exists_placed (s : GraphState) : ∃ placed rest, s.dependencyOrder = placed ++ rest ∧
    (∀ i ∈ placed, i < s.nodes.length) ∧ Feeding (fun _ => True) s.nodeEdges [] placed ∧
    (∀ i < s.nodes.length, (∀ j, (j, i) ∈ s.nodeEdges → j ∈ placed) → i ∈ placed) ∧
    (∀ i, i ∈ rest ↔ i < s.nodes.length ∧ i ∉ placed) ∧ rest.Pairwise (· < ·) := by
  have hlt : ∀ p ∈ s.nodeEdges, p.2 < s.nodes.length := by
    rintro ⟨i, j⟩ hp
    obtain ⟨-, l, -, -, hj⟩ := mem_nodeEdges.mp hp
    exact lt_of_indexOf? hj
  obtain ⟨hfeed, degrees, hend⟩ := (placing_start s).run (fun _ => True) (nodup_nodeEdges s) hlt
    s.nodes.length (Nat.le_add_right _ _)
  rw [List.nil_append] at hend
  have hready := hend.ready
  simp only [List.append_nil] at hready
  refine ⟨_, _, rfl, fun i hi => ((hready i).mp hi).1, hfeed, fun i hi hall => ?_, fun i => ?_, ?_⟩
  · exact (hready i).mpr ⟨hi, openDegree_eq_zero_iff.mpr hall⟩
  · rw [List.mem_filter, List.mem_range, Bool.not_eq_true', List.contains_eq_mem,
      decide_eq_false_iff_not]
  · exact List.pairwise_lt_range.filter _

theorem not_before_self {order : List Nat} (hnd : order.Nodup) (i : Nat) : ¬ Before order i i := by
  rintro ⟨placed, rest, rfl, hi⟩
  exact (List.nodup_append.mp hnd).2.2 i hi i List.mem_cons_self rfl

/-- What comes after a node that feeds it does so too in a graph with fewer links, also where
cycles are cut that way. -/
theorem before_of_subset (hids : t.nodes.map (·.id) = s.nodes.map (·.id))
    (hlinks : t.links ⊆ s.links)
    (hedge : (j, i) ∈ t.nodeEdges) (h : Before s.dependencyOrder j i) :
    Before t.dependencyOrder j i := by
  have hlen : t.nodes.length = s.nodes.length := by
    simpa only [List.length_map] using congrArg List.length hids
  have hedges : ∀ {j i}, (j, i) ∈ t.nodeEdges → (j, i) ∈ s.nodeEdges := by
    intro j i hedge
    rw [mem_nodeEdges, indexOf?_congr hids] at hedge
    obtain ⟨hne, l, hl, hends⟩ := hedge
    exact mem_nodeEdges.mpr ⟨hne, l, hlinks hl, hends⟩
  have hlt : j < t.nodes.length ∧ i < t.nodes.length := by
    obtain ⟨-, l, -, hj, hi⟩ := mem_nodeEdges.mp hedge
    exact ⟨lt_of_indexOf? hj, lt_of_indexOf? hi⟩
  obtain ⟨placed, rest, horder, hplacedlt, hfeeding, -, hrest, hsorted⟩ := s.exists_placed
  obtain ⟨placed', rest', horder', -, hfeeding', hclosed', hrest', hsorted'⟩ := t.exists_placed
  -- with fewer links more places come after all that feed them
  have hsub : ∀ i ∈ placed, i ∈ placed' := by
    have hstep := hfeeding.forall (Q := fun i => i < s.nodes.length → i ∈ placed') nofun
      fun i hprev hi => hclosed' i (hlen ▸ hi) fun j hj => ?_
    · exact fun i hi => hstep i hi (hplacedlt i hi)
    · have hj' := hedges hj
      obtain ⟨-, l, -, hjlt, -⟩ := mem_nodeEdges.mp hj'
      exact hprev j hj' (lt_of_indexOf? hjlt)
  rw [horder']
  by_cases hi : i ∈ placed'
  · obtain ⟨front, back, rfl⟩ := List.append_of_mem hi
    refine ⟨front, back ++ rest', by simp, ?_⟩
    simpa using hfeeding'.before j hedge trivial
  · have hir : i ∈ rest' := (hrest' i).mpr ⟨hlt.2, hi⟩
    obtain ⟨front, back, rfl⟩ := List.append_of_mem hir
    refine ⟨placed' ++ front, back, by simp, ?_⟩
    by_cases hj : j ∈ placed'
    · exact List.mem_append_left _ hj
    · -- neither was placed before either, so that both orders go by number
      have hless : j < i := by
        have hjout : j ∉ placed := fun h => hj (hsub j h)
        have hiout : i ∉ placed := fun h => hi (hsub i h)
        obtain ⟨before, after, heq, hmem⟩ := h
        rw [horder] at heq
        rcases List.append_eq_append_iff.mp heq with ⟨mid, rfl, rfl⟩ | ⟨mid, rfl, hmid⟩
        · exact (List.pairwise_append.mp hsorted).2.2 j
            ((List.mem_append.mp hmem).resolve_left hjout) i List.mem_cons_self
        · cases mid with
          | nil => exact absurd (by simpa using hmem) hjout
          | cons m mid =>
            obtain ⟨rfl, -⟩ := List.cons.inj hmid
            exact absurd (by simp) hiout
      have hjr : j ∈ front ++ i :: back := (hrest' j).mpr ⟨hlt.1, hj⟩
      refine List.mem_append_right _ ((List.mem_append.mp hjr).resolve_right fun hmem => ?_)
      rcases List.mem_cons.mp hmem with rfl | hmem
      · exact Nat.lt_irrefl _ hless
      · exact Nat.lt_asymm hless
          ((List.pairwise_cons.mp (List.pairwise_append.mp hsorted').2.1).1 j hmem)

/-! ### The table of links -/

theorem feeder_eq_none : s.feeder r = none ↔ ∀ l ∈ s.links, l.sink ≠ r := by
  rw [feeder, Option.map_eq_none_iff, List.find?_eq_none]
  simp only [beq_iff_eq]

theorem find?_insertLink (l : Link) (links : List Link) (r : PadRef) :
    (insertLink l links).find? (fun k => k.sink == r) =
      if r = l.sink then some l else links.find? fun k => k.sink == r := by
  induction links with
  | nil =>
    rw [insertLink, List.find?_singleton]
    by_cases h : r = l.sink
    · rw [if_pos (by simpa using h.symm), if_pos h]
    · rw [if_neg (by simpa using Ne.symm h), if_neg h]
      rfl
  | cons k rest ih =>
    rw [insertLink]
    by_cases h : r = l.sink
    · subst h
      rw [if_pos rfl] at ih ⊢
      split
      · simp
      · split
        · simp
        · rename_i hne
          rw [List.find?_cons_of_neg (by simpa using Ne.symm hne), ih]
    · rw [if_neg h] at ih ⊢
      have hl : (l.sink == r) = false := by simpa using Ne.symm h
      split
      · rw [List.find?_cons, hl]
      · split
        · rename_i heq
          rw [List.find?_cons, List.find?_cons, ← heq, hl]
        · rw [List.find?_cons, List.find?_cons, ih]

/-- A new entry does not show to a test that it does not pass. -/
theorem filter_insertLink {test : Link → Bool} (hl : test l = false)
    (hnew : ∀ k ∈ links, k.sink ≠ l.sink) :
    (insertLink l links).filter test = links.filter test := by
  induction links with
  | nil => simp [insertLink, hl]
  | cons k rest ih =>
    obtain ⟨hk, hrest⟩ := List.forall_mem_cons.mp hnew
    rw [insertLink]
    split
    · rw [List.filter_cons_of_neg (by simp [hl])]
    · rw [if_neg (Ne.symm hk), List.filter_cons, List.filter_cons, ih hrest]

/-- The links of a graph, with one more if a flag is set. Both cases are treated at once where a
link is put in and taken out again. -/
def wired (s : GraphState) (l : Link) (on : Bool) : List Link :=
  if on then insertLink l s.links else s.links

/-- Without its entry again, the table is as it was (`insertLink`), if nothing fed the sink. -/
theorem filter_wired (hfree : s.feeder l.sink = none) :
    (s.wired l true).filter (fun k => k.sink != l.sink) = s.links := by
  have hnew := feeder_eq_none.mp hfree
  refine (filter_insertLink (by simp) hnew).trans (List.filter_eq_self.mpr fun k hk => ?_)
  simpa using hnew k hk

section

variable {on : Bool} (hlinks : t.links = s.wired l on)

include hlinks

theorem feeder_of_wired (r : PadRef) (hr : r ≠ l.sink) : t.feeder r = s.feeder r := by
  rw [feeder, feeder, hlinks, wired]
  split
  · rw [find?_insertLink, if_neg hr]
  · rfl

variable (hfree : s.feeder l.sink = none)

include hfree

theorem feeder_sink_of_wired : t.feeder l.sink = if on then some l.source else none := by
  rw [feeder, hlinks, wired]
  split
  · rw [find?_insertLink, if_pos rfl]
    rfl
  · exact hfree

theorem downstream_of_wired (hr : r ≠ l.source) : t.downstream r = s.downstream r := by
  rw [downstream, downstream, hlinks, wired]
  split
  · rw [filter_insertLink (by simpa using Ne.symm hr) (feeder_eq_none.mp hfree)]
  · rfl

omit hfree in
theorem mem_of_wired (hk : k ∈ t.links) : k = l ∨ k ∈ s.links := by
  rw [hlinks, wired] at hk
  split at hk
  · exact mem_insertLink hk
  · exact .inr hk

theorem subset_of_wired : s.links ⊆ t.links := by
  intro k hk
  rw [hlinks, wired]
  split
  · exact mem_insertLink_of_ne hk (feeder_eq_none.mp hfree k hk)
  · exact hk

end

/-! ### Linking and unlinking -/

theorem bare_unresolve (s : GraphState) (id : String) : (s.unresolve id).bare = s.bare :=
  bare_eq_iff.mpr ⟨map_updateFirst fun _ => rfl, rfl⟩

/-- A source and a sink are linked in this order. -/
theorem orient_eq_ok {a b : PadRef} (ha : (s.pad? a).any (·.isSource) = true)
    (hb : (s.pad? b).any (!·.isSource) = true) : s.orient a b = .ok ⟨a, b⟩ := by
  obtain ⟨p, hp, hps⟩ := (Option.any_eq_true _ _).mp ha
  obtain ⟨q, hq, hqs⟩ := (Option.any_eq_true _ _).mp hb
  have hpd : p.padType.direction = .source := by
    simpa [PadState.isSource, PadType.isSource] using hps
  have hqd : q.padType.direction = .sink := by
    cases hd : q.padType.direction with
    | sink => rfl
    | source => simp [PadState.isSource, PadType.isSource, hd] at hqs
  rw [orient, hp, hq]
  simp only [hpd, hqd]

/-- What is linked to a source is a sink. -/
theorem sink_of_orient {a b : PadRef} (ha : (s.pad? a).any (·.isSource) = true)
    (h : s.orient a b = .ok l) :
    (s.pad? b).any (!·.isSource) = true := by
  obtain ⟨p, hp, hps⟩ := (Option.any_eq_true _ _).mp ha
  have hpd : p.padType.direction = .source := by
    simpa [PadState.isSource, PadType.isSource] using hps
  rw [orient, hp] at h
  cases hq : s.pad? b with
  | none =>
    rw [hq] at h
    cases h
  | some q =>
    rw [hq] at h
    simp only [hpd] at h
    cases hd : q.padType.direction with
    | sink => simp [PadState.isSource, PadType.isSource, hd]
    | source =>
      rw [hd] at h
      cases h

/-- To link two pads changes nothing but the table (`insertLink`), and the mark of two nodes. -/
theorem connect_eq_ok {a b : PadRef} (h : s.connect a b = .ok (t, l)) :
    s.orient a b = .ok l ∧ t.bare = { s.bare with links := insertLink l s.links } := by
  rw [connect] at h
  obtain ⟨l', hl', h⟩ := bind_eq_ok_iff.mp h
  obtain ⟨-, -, h⟩ := bind_eq_ok_iff.mp h
  simp only [Except.ok.injEq, Prod.mk.injEq] at h
  obtain ⟨rfl, rfl⟩ := h
  refine ⟨hl', ?_⟩
  rw [bare_unresolve, bare_unresolve]
  split
  · split
    · rfl
    · rw [bare_unresolve]
      rfl
  · rfl

/-- To unlink linked pads takes their link out of the table, and changes nothing else. -/
theorem disconnect_eq_ok {a b : PadRef} (horient : s.orient a b = .ok l)
    (hfed : s.feeder l.sink = some l.source) : ∃ t, s.disconnect a b = .ok t ∧
      t.bare = { s.bare with links := s.links.filter fun k => k.sink != l.sink } := by
  rw [disconnect, horient]
  simp only [bind, Except.bind, hfed, if_true]
  refine ⟨_, rfl, ?_⟩
  rw [bare_unresolve, bare_unresolve]
  rfl

end Patchbay.GraphState
