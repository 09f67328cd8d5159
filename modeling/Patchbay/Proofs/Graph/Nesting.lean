import Patchbay.Graph.State

/-!
# Graphs inside graphs

A subgraph node has a graph inside, whose nodes may be subgraph nodes again. `Encloses` relates a
graph to every graph that lies in it at any depth, itself included, and `Everywhere` lifts a
property of one graph to all of them. A property holds everywhere in a graph exactly when it holds
of the graph and everywhere in the graphs of its nodes (`everywhere_iff`). Likewise the depth of a
graph is bounded exactly by the depths of the graphs of its nodes (`depth_le_succ_iff`), so what
passes from the graphs of the nodes to the graph around them holds of every graph
(`insideInduction`).
-/

namespace Patchbay

namespace GraphState

/-- `s` is `t`, or `t` lies in `s` at some depth: the reflexive closure of being inside a node. -/
inductive Encloses : GraphState → GraphState → Prop where
  | refl (s : GraphState) : Encloses s s
  | inner {s inner t : GraphState} {e : NodeEntry} {id : Option String} (mem : e ∈ s.nodes)
      (body : e.body = .subgraph id inner) (rest : Encloses inner t) : Encloses s t

/-- A property of a graph and of all graphs that lie in it (`Encloses`). -/
def Everywhere (P : GraphState → Prop) (s : GraphState) : Prop := ∀ t, s.Encloses t → P t

end GraphState

/-- A property of the graph inside a body, if there is one. It holds of types of nodes without more
ado (`Body.inside_plugin`). -/
def Body.Inside (P : GraphState → Prop) (b : Body) : Prop :=
  ∀ id inner, b = .subgraph id inner → P inner

/-- A node type has no graph inside. -/
@[simp] theorem Body.inside_plugin (P : GraphState → Prop) (t : NodeType) :
    (Body.plugin t).Inside P := by
  intro id inner h
  cases h

@[simp] theorem Body.inside_subgraph (P : GraphState → Prop) (id : Option String)
    (inner : GraphState) : (Body.subgraph id inner).Inside P ↔ P inner := by
  constructor
  · exact fun h => h id inner rfl
  · rintro h id' inner' hb
    cases hb
    exact h

theorem Body.Inside.mono {P Q : GraphState → Prop} {b : Body} (h : b.Inside P)
    (hPQ : ∀ s, P s → Q s) : b.Inside Q :=
  fun id inner hb => hPQ inner (h id inner hb)

namespace GraphState

variable {P Q : GraphState → Prop} {s t u : GraphState}

theorem Encloses.trans (h : s.Encloses t) (h' : t.Encloses u) : s.Encloses u := by
  induction h with
  | refl => exact h'
  | inner mem body _ ih => exact .inner mem body (ih h')

theorem everywhere_iff :
    s.Everywhere P ↔ P s ∧ ∀ e ∈ s.nodes, e.body.Inside (Everywhere P) := by
  constructor
  · intro h
    exact ⟨h s (.refl s), fun e he id inner hb t ht => h t (.inner he hb ht)⟩
  · rintro ⟨h, hin⟩ t ht
    cases ht with
    | refl => exact h
    | inner mem body rest => exact hin _ mem _ _ body _ rest

theorem Everywhere.self (h : s.Everywhere P) : P s := h s (.refl s)

theorem Everywhere.body (h : s.Everywhere P) {e : NodeEntry} (he : e ∈ s.nodes) :
    e.body.Inside (Everywhere P) :=
  (everywhere_iff.mp h).2 e he

theorem Everywhere.mono (h : s.Everywhere P) (hPQ : ∀ t, P t → Q t) : s.Everywhere Q :=
  fun t ht => hPQ t (h t ht)

theorem Everywhere.and (h : s.Everywhere P) (h' : s.Everywhere Q) :
    s.Everywhere fun t => P t ∧ Q t :=
  fun t ht => ⟨h t ht, h' t ht⟩

theorem Everywhere.within (h : s.Everywhere P) (ht : s.Encloses t) : t.Everywhere P :=
  fun u hu => h u (ht.trans hu)

/-! ### Depth -/

private theorem depthOfNodes_le_iff {nodes : List NodeEntry} {n : Nat} :
    depthOfNodes nodes ≤ n ↔ ∀ e ∈ nodes, e.body.depth ≤ n := by
  induction nodes with
  | nil => simp [depthOfNodes]
  | cons e rest ih =>
    rw [depthOfNodes, Nat.max_le, ih, List.forall_mem_cons]
    cases e
    exact Iff.rfl

theorem depth_le_iff {n : Nat} : s.depth ≤ n ↔ ∀ e ∈ s.nodes, e.body.depth ≤ n := by
  cases s
  exact depthOfNodes_le_iff

/-- A graph of depth zero has no graphs inside. -/
theorem depth_le_zero_iff : s.depth ≤ 0 ↔ ∀ e ∈ s.nodes, e.body.Inside fun _ => False := by
  rw [depth_le_iff]
  refine forall₂_congr fun e _ => ?_
  cases e.body with
  | plugin t => simp [Body.depth]
  | subgraph id inner => simp [Body.depth]

theorem depth_le_succ_iff {n : Nat} :
    s.depth ≤ n + 1 ↔ ∀ e ∈ s.nodes, e.body.Inside fun inner => inner.depth ≤ n := by
  rw [depth_le_iff]
  refine forall₂_congr fun e _ => ?_
  cases e.body with
  | plugin t => simp [Body.depth]
  | subgraph id inner => simp [Body.depth]

/-- A property everywhere in a graph without graphs inside is a property of that graph. -/
theorem within_zero_iff : s.depth ≤ 0 ∧ s.Everywhere P ↔
    P s ∧ ∀ e ∈ s.nodes, e.body.Inside fun _ => False := by
  rw [depth_le_zero_iff, everywhere_iff]
  constructor
  · rintro ⟨hdepth, hs, -⟩
    exact ⟨hs, hdepth⟩
  · rintro ⟨hs, hin⟩
    exact ⟨hin, hs, fun e he => (hin e he).mono fun _ => False.elim⟩

theorem within_succ_iff {n : Nat} : s.depth ≤ n + 1 ∧ s.Everywhere P ↔
    P s ∧ ∀ e ∈ s.nodes, e.body.Inside fun inner => inner.depth ≤ n ∧ inner.Everywhere P := by
  rw [depth_le_succ_iff, everywhere_iff]
  constructor
  · rintro ⟨hdepth, hs, hin⟩
    exact ⟨hs, fun e he id inner hb => ⟨hdepth e he id inner hb, hin e he id inner hb⟩⟩
  · rintro ⟨hs, hin⟩
    exact ⟨fun e he => (hin e he).mono fun _ h => h.1, hs,
      fun e he => (hin e he).mono fun _ h => h.2⟩

/-- What is true of a graph whenever it is true of the graphs of its nodes is true of every graph.
Inductions on the depth go by this rule. -/
@[elab_as_elim]
theorem insideInduction {P : GraphState → Prop}
    (step : ∀ s : GraphState, (∀ e ∈ s.nodes, e.body.Inside P) → P s) (s : GraphState) : P s := by
  have hdepth : ∀ n (s : GraphState), s.depth ≤ n → P s := by
    intro n
    induction n with
    | zero =>
      exact fun s hs => step s fun e he => (depth_le_zero_iff.mp hs e he).mono fun _ => False.elim
    | succ n ih => exact fun s hs => step s fun e he => (depth_le_succ_iff.mp hs e he).mono ih
  exact hdepth s.depth s (Nat.le_refl _)

/-! ### Tests -/

mutual

/-- Whether a graph and all graphs that lie in it pass a test. With it `Everywhere` can be decided.
-/
def all (test : GraphState → Bool) : GraphState → Bool
  | ⟨nodes, links⟩ => test ⟨nodes, links⟩ && allOfNodes test nodes

/-- Whether the graphs inside of nodes pass a test. -/
def allOfNodes (test : GraphState → Bool) : List NodeEntry → Bool
  | [] => true
  | e :: rest => allOfNode test e && allOfNodes test rest

/-- Whether the graphs inside of a node pass a test. -/
def allOfNode (test : GraphState → Bool) : NodeEntry → Bool
  | ⟨_, _, _, _, _, body⟩ => allOfBody test body

/-- Whether the graphs inside of a body pass a test. -/
def allOfBody (test : GraphState → Bool) : Body → Bool
  | .plugin _ => true
  | .subgraph _ inner => inner.all test

end

private theorem allOfNodes_iff {test : GraphState → Bool} {nodes : List NodeEntry} :
    allOfNodes test nodes = true ↔ ∀ e ∈ nodes, allOfBody test e.body = true := by
  induction nodes with
  | nil => simp [allOfNodes]
  | cons e rest ih =>
    rw [allOfNodes, Bool.and_eq_true, ih, List.forall_mem_cons]
    cases e
    exact Iff.rfl

theorem all_iff (test : GraphState → Bool) (s : GraphState) : s.all test = true ↔
    s.Everywhere fun t => test t = true := by
  induction s using insideInduction with
  | step s ih =>
    cases s with
    | mk nodes links =>
      rw [all, Bool.and_eq_true, allOfNodes_iff, everywhere_iff]
      refine and_congr_right fun _ => forall₂_congr fun e he => ?_
      cases hb : e.body with
      | plugin t => simp [allOfBody]
      | subgraph id inner =>
        rw [allOfBody, Body.inside_subgraph]
        exact ih e he id inner hb

instance [DecidablePred P] (s : GraphState) : Decidable (s.Everywhere P) :=
  decidable_of_iff (s.all fun t => decide (P t)) (by simp only [all_iff, decide_eq_true_iff])

end GraphState

end Patchbay
