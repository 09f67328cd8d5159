import Patchbay.Proofs.Graph.Prefixes
import Patchbay.Proofs.Run.Moves

/-!
# Addresses in a running graph

A running graph has only the pads of the flat graph. Whoever addresses a proxy is led to the pad
behind it by the text of the address alone: the id of the pad is split at its first colon, and its
first part moves over to the path of the node (`PadRef.SplitsTo`), as often as it takes to arrive
at a pad (`locatePad_eq_none_iff`).

In an exact graph this is the way that the stored targets lead (`locate_of_denotes`). It is not
left too early, since the id of a subgraph node is not the id of a flat node; and the first colon
is the right one, since ids of nodes hold none, whatever the ids of pads hold.
-/

namespace Patchbay

/-- The id of the pad is split at its first colon, and the first part moves over to the node. An id
without a colon is not split. -/
def PadRef.SplitsTo (p q : PadRef) : Prop :=
  ∃ node pad, p.pad = node ++ ":" ++ pad ∧ ':' ∉ node.toList ∧ q = ⟨p.node ++ "/" ++ node, pad⟩

/-! ### Splitting -/

section

variable {known : PadRef → Bool} {p q : PadRef}

theorem splitsTo_iff : p.SplitsTo q ↔ ∃ inner, parseProxyPadId p.pad = some inner ∧
    q = ⟨p.node ++ "/" ++ inner.node, inner.pad⟩ := by
  simp only [parseProxyPadId_eq_some_iff]
  constructor
  · rintro ⟨node, pad, hpad, hnode, rfl⟩
    exact ⟨⟨node, pad⟩, ⟨hpad, hnode⟩, rfl⟩
  · rintro ⟨inner, ⟨hpad, hnode⟩, rfl⟩
    exact ⟨inner.node, inner.pad, hpad, hnode, rfl⟩

/-- No address can be split forever: the id of the pad becomes shorter (`PadRef.SplitsTo`). So the
search for a pad ends without a limit. -/
theorem wellFounded_splitsTo : WellFounded fun q p : PadRef => p.SplitsTo q := by
  refine Subrelation.wf ?_ (measure fun p : PadRef => p.pad.length).wf
  intro q p h
  obtain ⟨inner, hinner, rfl⟩ := splitsTo_iff.mp h
  have hlen := length_of_parseProxyPadId hinner
  exact hlen

theorem locatePad_of_known (h : known p = true) : locatePad known p = some p := by
  rw [locatePad, if_pos h]

theorem locatePad_of_splitsTo (h : known p = false) (hq : p.SplitsTo q) :
    locatePad known p = locatePad known q := by
  obtain ⟨inner, hinner, rfl⟩ := splitsTo_iff.mp hq
  rw [locatePad, if_neg (by simp [h])]
  split
  · rename_i hnone
    exact absurd (hinner.symm.trans hnone) (by simp)
  · rename_i inner' hsome
    rw [Option.some_inj.mp (hinner.symm.trans hsome)]

theorem locatePad_of_end (h : known p = false) (hp : ∀ q, ¬ p.SplitsTo q) :
    locatePad known p = none := by
  rw [locatePad, if_neg (by simp [h])]
  split
  · rfl
  · rename_i inner hsome
    exact absurd (splitsTo_iff.mpr ⟨inner, hsome, rfl⟩) (hp _)

/-- What is located is a known pad that splitting leads to, and the first one of these. -/
theorem locatePad_eq_some (h : locatePad known p = some q) :
    Relation.ReflTransGen PadRef.SplitsTo p q ∧ known q = true := by
  induction p using wellFounded_splitsTo.induction with
  | _ p ih =>
    cases hp : known p with
    | true =>
      rw [locatePad_of_known hp] at h
      obtain rfl := Option.some_inj.mp h
      exact ⟨.refl, hp⟩
    | false =>
      by_cases hsplit : ∃ r, p.SplitsTo r
      · obtain ⟨r, hr⟩ := hsplit
        rw [locatePad_of_splitsTo hp hr] at h
        obtain ⟨hreach, hq⟩ := ih r hr h
        exact ⟨.head hr hreach, hq⟩
      · rw [locatePad_of_end hp (not_exists.mp hsplit)] at h
        exact absurd h (by simp)

/-- Nothing is located exactly when splitting leads to no known pad. -/
theorem locatePad_eq_none_iff :
    locatePad known p = none ↔ ∀ q, Relation.ReflTransGen PadRef.SplitsTo p q →
    known q = false := by
  induction p using wellFounded_splitsTo.induction with
  | _ p ih =>
    constructor
    · intro h q hreach
      cases hp : known p with
      | true => exact absurd ((locatePad_of_known hp).symm.trans h) (by simp)
      | false =>
        rcases Relation.ReflTransGen.cases_head hreach with rfl | ⟨r, hr, hreach⟩
        · exact hp
        · rw [locatePad_of_splitsTo hp hr] at h
          exact (ih r hr).mp h q hreach
    · intro h
      have hp := h p .refl
      by_cases hsplit : ∃ r, p.SplitsTo r
      · obtain ⟨r, hr⟩ := hsplit
        rw [locatePad_of_splitsTo hp hr]
        exact (ih r hr).mpr fun q hq => h q (.head hr hq)
      · exact locatePad_of_end hp (not_exists.mp hsplit)

end

/-! ### The pads of a run -/

namespace Run

/-- The table of effective constraints of a flat graph, which a run takes over when it starts
(`Run.Starts.constraints`). -/
def constraintsOf (g : FlatGraph) : PadTable Constraints :=
  g.nodes.flatMap fun n => n.pads.map fun p => (⟨n.id, p.id⟩, p.effective)

theorem constraints_seed (w : Wiring) (l : Link) : (w.seed l).constraints = w.constraints := by
  unfold Wiring.seed
  split
  · split <;> rfl
  · rfl

theorem constraints_addLink (w : Wiring) (l : Link) :
    (w.addLink l).constraints = w.constraints := by
  unfold Wiring.addLink
  split <;> rfl

/-- What keeps the constraints, as often as it is done. -/
theorem constraints_foldl {f : Wiring → Link → Wiring}
    (hf : ∀ w l, (f w l).constraints = w.constraints)
    (links : List Link) (w : Wiring) : (links.foldl f w).constraints = w.constraints := by
  induction links generalizing w with
  | nil => rfl
  | cons l links ih => rw [List.foldl_cons, ih, hf]

theorem constraints_addPad (w : Wiring) (node : String) (p : PadState) :
    (w.addPad node p).constraints = w.constraints ++ [(⟨node, p.id⟩, p.effective)] := by
  unfold Wiring.addPad
  split <;> split <;> rfl

theorem constraints_wire (g : FlatGraph) (capacity : Nat) :
    (wire g capacity).constraints = constraintsOf g := by
  have hpads : ∀ (pads : List (String × PadState)) (w : Wiring),
      (pads.foldl (fun w pad => w.addPad pad.1 pad.2) w).constraints =
        w.constraints ++ pads.map fun pad => (⟨pad.1, pad.2.id⟩, pad.2.effective) := by
    intro pads
    induction pads with
    | nil => simp
    | cons pad pads ih =>
      intro w
      rw [List.foldl_cons, ih, constraints_addPad, List.append_assoc, List.map_cons,
        List.singleton_append]
  rw [wire, constraints_foldl constraints_addLink,
    constraints_foldl constraints_seed, hpads,
    List.nil_append, List.map_flatMap, constraintsOf]
  simp only [List.map_map, Function.comp_def]

end Run

theorem PadTable.has_iff {α : Type} {t : PadTable α} {r : PadRef} :
    t.has r = true ↔ ∃ a, (r, a) ∈ t := by
  induction t with
  | nil => simp [has, get?]
  | cons b t ih =>
    obtain ⟨q, b⟩ := b
    by_cases h : q = r
    · subst h
      simp [has, get?]
    · rw [has] at ih
      rw [has, get?, if_neg h, ih]
      simp [Ne.symm h]

theorem Run.has_constraintsOf {g : FlatGraph} {r : PadRef} :
    (constraintsOf g).has r = true ↔ ∃ p, g.HasPad r p := by
  rw [PadTable.has_iff]
  simp only [constraintsOf, List.mem_flatMap, List.mem_map, Prod.mk.injEq, FlatGraph.HasPad]
  constructor
  · rintro ⟨a, n, hn, p, hp, rfl, rfl⟩
    exact ⟨p, n, hn, rfl, hp, rfl⟩
  · rintro ⟨p, n, hn, hnode, hp, hpad⟩
    exact ⟨p.effective, n, hn, p, hp, by rw [hnode, hpad], rfl⟩

/-! ### Texts and targets -/

namespace GraphState

open Run

variable {s t inner : GraphState} {e : NodeEntry} {route route' : List String} {r r' : PadRef}
  {p : PadState} {id : Option String}

/-- The run of a graph has a pad where the flat graph has one. -/
theorem has_constraintsOf_iff : (constraintsOf s.flatten).has r = true ↔
    ∃ route t, s.HoldsAt route t ∧ ∃ e ∈ t.nodes, ∃ type, e.body = .plugin type ∧
      r.node = routeText route ++ e.id ∧ ∃ p ∈ e.pads, p.id = r.pad := by
  rw [has_constraintsOf]
  simp only [FlatGraph.HasPad, flatten, mem_flattenAt_nodes [], List.nil_append, ← routeText_nil]
  constructor
  · rintro ⟨p, n, ⟨route, t, ht, e, he, type, hb, rfl⟩, hid, hp, hpad⟩
    exact ⟨route, t, ht, e, he, type, hb, hid.symm, p, hp, hpad⟩
  · rintro ⟨route, t, ht, e, he, type, hb, hid, p, hp, hpad⟩
    exact ⟨p, _, ⟨route, t, ht, e, he, type, hb, rfl⟩, hid.symm, hp, hpad⟩

variable (hs : s.Everywhere Exact)

include hs

/-- A proxy is no pad of the run. -/
theorem has_constraintsOf_proxy (ht : s.HoldsAt route t) (he : e ∈ t.nodes)
    (hb : e.body = .subgraph id inner) (pad : String) :
    (constraintsOf s.flatten).has (flatRef route ⟨e.id, pad⟩) = false := by
  by_contra h
  rw [Bool.not_eq_false, has_constraintsOf_iff] at h
  obtain ⟨route', t', ht', e', he', type, hb', hid, -⟩ := h
  obtain ⟨-, rfl⟩ := eq_of_flat_id hs ht he ht' he' hid
  exact absurd (hb.symm.trans hb') (by simp)

/-- The id of a proxy is split where the id of the inner node ends: ids of nodes hold no colon
(`isValidNodeId`), so the first colon is that of `proxyPadId`. -/
theorem splitsTo_proxy (he : e ∈ s.nodes) (hb : e.body = .subgraph id inner) (hp : p ∈ e.pads)
    (hr : p.proxy = some r) (outer : List String) :
    (flatRef outer ⟨e.id, p.id⟩).SplitsTo (flatRef (outer ++ [e.id]) r) := by
  obtain ⟨d, hd, htarget, -⟩ := proxy_target hs he hb hp hr
  obtain ⟨f, hf, hnode, -⟩ := pad?_eq_some htarget
  have hvalid := (hs.body he id inner hb).self.wellFormed.validIds f hf
  refine ⟨r.node, r.pad, hd.id, ?_, ?_⟩
  · rw [← hnode]
    exact hvalid.2.1
  · simp only [flatRef, routeText_concat, String.append_assoc]

/-- Splitting leads where the stored targets lead (`GraphState.Denotes`): from a proxy to the pad
inside, one subgraph after the other, and not past it. -/
theorem locate_of_denotes (ht : s.HoldsAt route t) (h : t.Denotes r route' r') :
    locatePad (constraintsOf s.flatten).has (flatRef route r) =
    some (flatRef (route ++ route') r') := by
  induction h generalizing route with
  | @plugin t e type p mem body pad =>
    rw [List.append_nil]
    refine locatePad_of_known (has_constraintsOf_iff.mpr ?_)
    exact ⟨route, t, ht, e, mem, type, body, rfl, p, pad, rfl⟩
  | @proxy t inner e id p target r' route' mem body pad proxy _ ih =>
    have hknown := has_constraintsOf_proxy hs ht mem body p.id
    have hsplit := splitsTo_proxy (hs.within ht.encloses) mem body pad proxy route
    rw [locatePad_of_splitsTo hknown hsplit, ih (ht.trans (.inside mem body (.here inner))),
      List.append_assoc, List.singleton_append]

end GraphState

/-- What addresses come to in a running graph with the pads of the flat form of a graph: those of
pads and proxies to the pad behind, and all others to nothing. -/
structure Wiring.Locates (w : Wiring) (s : GraphState) : Prop where
  /-- For the pads of the graph, the text of an address leads where the stored targets lead. -/
  agrees : ∀ e ∈ s.nodes, ∀ p ∈ e.pads, ∃ q, s.flatAddress "" ⟨e.id, p.id⟩ = some q ∧
    w.locate ⟨e.id, p.id⟩ = .ok q
  /-- No address can be split forever. -/
  ends : WellFounded fun q p : PadRef => p.SplitsTo q
  /-- What is located is a flat pad that splitting leads to. -/
  found : ∀ p q, w.locate p = .ok q →
    Relation.ReflTransGen PadRef.SplitsTo p q ∧ ∃ d, s.flatten.HasPad q d
  /-- An address is refused when splitting leads to no flat pad. -/
  refused : ∀ p e, w.locate p = .error e ↔ e = .padNotFound p ∧
    ∀ q, Relation.ReflTransGen PadRef.SplitsTo p q → ¬ ∃ d, s.flatten.HasPad q d

theorem Wiring.locate_eq_ok {w : Wiring} {p q : PadRef} :
    w.locate p = .ok q ↔ locatePad w.constraints.has p = some q := by
  rw [Wiring.locate]
  cases locatePad w.constraints.has p <;> simp

theorem Wiring.locate_eq_error {w : Wiring} {p : PadRef} {e : Error} :
    w.locate p = .error e ↔ e = .padNotFound p ∧ locatePad w.constraints.has p = none := by
  rw [Wiring.locate]
  cases locatePad w.constraints.has p <;> simp [eq_comm]

theorem Wiring.locates_of_constraints {w : Wiring} {s : GraphState}
    (hs : s.Everywhere GraphState.Exact)
    (hw : w.constraints = Run.constraintsOf s.flatten) : w.Locates s where
  agrees e he p hp := by
    obtain ⟨route, q, hdenotes⟩ :=
      GraphState.exists_denotes hs (hs.self.wellFormed.pad?_eq he hp)
    refine ⟨flatRef route q, GraphState.flatAddress_of_denotes hs hdenotes [], ?_⟩
    rw [Wiring.locate_eq_ok, hw]
    exact GraphState.locate_of_denotes hs (.here s) hdenotes
  ends := wellFounded_splitsTo
  found p q h := by
    rw [Wiring.locate_eq_ok, hw] at h
    obtain ⟨hreach, hknown⟩ := locatePad_eq_some h
    exact ⟨hreach, Run.has_constraintsOf.mp hknown⟩
  refused p e := by
    rw [Wiring.locate_eq_error, hw, locatePad_eq_none_iff]
    refine and_congr_right fun _ => forall₂_congr fun q _ => ?_
    rw [← Run.has_constraintsOf, Bool.not_eq_true]

/-! ### Started runs -/

theorem Run.constraints_start {g : FlatGraph} {r : Run} {config : EngineConfig}
    {services : Services}
    {id : String} {hasScheduler : Bool} (h : Run.start g config services id hasScheduler = .ok r) :
    r.wiring.constraints = constraintsOf g := by
  unfold Run.start at h
  split at h
  · obtain ⟨-, -, rfl⟩ := map_eq_ok_iff.mp h
    exact constraints_wire g _
  · exact absurd h (by simp)

/-- A run starts with the pads of the flat graph, and keeps them. -/
theorem Run.Starts.constraints {g : FlatGraph} {r₀ r : Run} (h : Run.Starts g r₀)
    (hr : r₀.Leads r) :
    r.wiring.constraints = constraintsOf g := by
  rw [hr.constraints]
  cases h with
  | plain h => exact constraints_start h
  | served h =>
    obtain ⟨a, ha, rfl⟩ := map_eq_ok_iff.mp h
    have hkept := constraints_start ha
    exact (rests_wake _ _).wiring.constraints.trans hkept

/-- After any sequence of operations on a new graph, at every moment of a run of the graph, the
text of an address of a pad leads where the stored targets lead, and an address leads nowhere
exactly when splitting it leads to no pad of a flat node (`Wiring.Locates`). -/
theorem Graph.locates_run (library : Library) (config : EngineConfig) (ops : List Operation)
    {r₀ r : Run}
    (hstart : Run.Starts ((Graph.new library config).run ops).state.flatten r₀) (hr : r₀.Leads r) :
    r.wiring.Locates ((Graph.new library config).run ops).state :=
  Wiring.locates_of_constraints (everywhere_exact_run library config ops) (hstart.constraints hr)

/-- Puts a display in a subgraph in a subgraph. -/
def insertNested : GraphEdit :=
  .insertInlineSubgraph (some "g") none
    ⟨[{ NodeSnapshot.bare "h" subgraphType with
        subgraph := some ⟨none, ⟨[.bare "d" "Display"]⟩⟩ }]⟩ [] [] [] none none

/-- The pad of the subgraph node leads to the display, through the ids of two nodes. -/
theorem Graph.locates_run_nested : ∃ s r,
    ((Graph.new Library.builtins {}).run [.edit insertNested]).state = s ∧
    s.nodes.map (fun e => (e.id, e.pads.map (·.id))) = [("g", ["h:d:value"])] ∧
    s.flatAddress "" ⟨"g", "h:d:value"⟩ = some ⟨"g/h/d", "value"⟩ ∧
    Run.start s.flatten {} {} "run" true = .ok r ∧ r.wiring.Locates s := by
  have hnested : ((Graph.new Library.builtins {}).edited insertNested).toOption.map (fun s =>
      (s.nodes.map (fun e => (e.id, e.pads.map (·.id))), s.flatAddress "" ⟨"g", "h:d:value"⟩)) =
      some ([("g", ["h:d:value"])], some ⟨"g/h/d", "value"⟩) := by decide +kernel
  obtain ⟨s, hs, hnested⟩ := Option.map_eq_some_iff.mp hnested
  obtain ⟨hpads, haddress⟩ := Prod.mk.inj hnested
  have hrun := run_edit (toOption_eq_some_iff.mp hs) []
  have hstate : ((Graph.new Library.builtins {}).run [.edit insertNested]).state = s := by
    rw [hrun]
    rfl
  obtain ⟨r, hr⟩ : ∃ r, Run.start s.flatten {} {} "run" true = .ok r := ⟨_, rfl⟩
  refine ⟨s, r, hstate, hpads, haddress, hr, ?_⟩
  have h := locates_run Library.builtins {} [.edit insertNested] (hstate ▸ .plain hr) (.here r)
  rwa [hstate] at h

end Patchbay
