import Patchbay.Proofs.Node.Definite
import Patchbay.Proofs.Graph.Proxies
import Patchbay.Proofs.Graph.Copies

/-!
# Fixed points of resolution

Where the negative zero does not occur, and the types read no more of their pads than values,
resolution ends in a fixed point: every node declares just the pads that it has
(`PadState.DeclaredBy`), no link has lost an end, and resolution does not change the graph again
(`reconcile_fixedPoint`). That holds of the graph and of every graph inside it, under what it sees
from outside (`EnclosesUnder`).

With negative zeros it fails. Equality takes the two zeros as one number, so that the last pass may
exchange two declarations unnoticed, and the next resolution changes them back
(`reconcile_crossed`). The canonical order of shapes tells the zeros apart, and then the change
shows in the order of the effective shapes too.
-/

namespace Patchbay

/-! ### Definite nodes -/

/-- A node without negative zeros (`Constraints.Definite`), of a type that reads values only and
brings in no negative zeros. -/
structure NodeEntry.Definite (e : NodeEntry) : Prop where
  pads : ∀ p ∈ e.pads, p.Definite
  types : ∀ t, e.body = .plugin t → t.ReadsValues ∧ t.KeepsDefinite

/-- Such a node with a graph inside for which `P` holds. -/
structure NodeEntry.DefiniteOver (P : GraphState → Prop) (e : NodeEntry) : Prop
    extends e.Definite where
  inner : e.body.Inside P

/-- A fresh node of a built-in type is definite. -/
theorem NodeEntry.definite_plugin (id name : String) {t : NodeType} (h : t.IsBuiltin) :
    (NodeEntry.plugin id name t).Definite := by
  refine ⟨fun p hp => ?_, fun t' ht => ?_⟩
  · cases hp
  · cases ht
    exact ⟨h.tame.readsValues, h.keepsDefinite⟩

/-- Definite constraints are not left by resolution: types bring in none, and intersections of
definite constraints are definite. -/
theorem Regime.definite : Regime (fun _ _ => False) Constraints.Definite where
  unconstrained := Constraints.each_none
  intersect _ _ := Constraints.Definite.intersect
  resolve _ _ := False.elim

namespace PadState

variable {p q : PadState} {spec : PadSpec}

/-- A definite pad with an unchanged declaration is the same to the digit:
`PadState.sameDeclaration` compares numbers, and there is one double for each. -/
theorem Definite.bare_eq (hp : p.Definite) (hq : q.Definite) (h : p.sameDeclaration q = true) :
    p.bare = q.bare := by
  obtain ⟨hid, hgroup, htype, hdecl, hproxy⟩ :=
    face_eq_iff.mp (face_eq_of_sameDeclaration (hp.declared.eq_of_same hq.declared) h)
  simp only [sameDeclaration, Bool.and_eq_true] at h
  have hvalue : p.value = q.value := Constraint.eq_of_sameValue hp.value hq.value h.1.2
  exact bare_eq_iff.mpr ⟨hid, hgroup, htype, hdecl, hvalue, hproxy⟩

/-- The pad is as a declaration says, and keeps its value under it (`PadState.keptValue`). -/
structure DeclaredBy (p : PadState) (spec : PadSpec) : Prop where
  id : p.id = spec.id
  group : p.group = spec.group
  padType : p.padType = spec.padType
  constraints : p.declared = spec.constraints
  proxy : p.proxy = spec.proxy
  value : (p.merge spec).value = p.value

theorem declaredBy_of_bare (hid : p.id = spec.id) (h : (p.merge spec).bare = p.bare) :
    p.DeclaredBy spec := by
  obtain ⟨-, hgroup, htype, hdecl, hvalue, hproxy⟩ := bare_eq_iff.mp h
  exact ⟨hid, hgroup.symm, htype.symm, hdecl.symm, hproxy.symm, hvalue⟩

theorem DeclaredBy.bare_merge (h : p.DeclaredBy spec) : (p.merge spec).bare = p.bare :=
  bare_eq_iff.mpr ⟨h.id.symm, h.group.symm, h.padType.symm, h.constraints.symm, h.value,
    h.proxy.symm⟩

end PadState

namespace GraphState

variable {P : GraphState → Prop} {R : InnerResolver} {config : EngineConfig}
  {external external' : External} {s s' t t' : GraphState} {e e' : NodeEntry} {n : Nat}

/-! ### What resolution keeps -/

theorem definite_mergedPad {pads : List PadState} {spec : PadSpec} (hpads : ∀ p ∈ pads, p.Definite)
    (hspec : spec.Definite) : (mergedPad pads spec).Definite := by
  rw [mergedPad]
  split
  · rename_i p hp
    exact PadState.definite_merge (hpads p (List.mem_of_find?_eq_some hp)) hspec
  · exact PadState.definite_ofSpec hspec

theorem definite_exposedPads (hs : s.NodesIn NodeEntry.Definite) :
    ∀ spec ∈ s.exposedPads, spec.Definite := by
  intro spec hspec
  obtain ⟨e, he, p, hp, -, rfl⟩ := mem_exposedPads.mp hspec
  have hdefinite := (hs e he).pads p hp
  exact ⟨hdefinite.effective, hdefinite.value⟩

theorem padsIn_definite (hs : s.NodesIn NodeEntry.Definite) : s.PadsIn Constraints.Definite :=
  fun e he p hp => ⟨((hs e he).pads p hp).declared, ((hs e he).pads p hp).effective⟩

theorem definite_view (hext : external.In Constraints.Definite) (hs : s.NodesIn NodeEntry.Definite)
    (he : e ∈ s.nodes) : (s.view external e).Definite :=
  ⟨(hs e he).pads, peerViews_in Regime.definite hext (padsIn_definite hs) e⟩

/-- What is known of a way to resolve the graphs inside nodes: graphs for which `P` holds are
definite, `P` holds of them after it, and another time it does not change them. It carries the
induction on the depth. -/
structure Fixes (P : GraphState → Prop) (R : InnerResolver) : Prop where
  definite : ∀ t, P t → t.NodesIn NodeEntry.Definite
  kept : ∀ external t t', external.In Constraints.Definite → P t → R external t = .ok t' → P t'
  idempotent : Idempotent Constraints.Definite P R

/-- Resolving a definite node leaves it definite, if that is so of the graph inside. -/
theorem definiteOver_resolveNode (hR : Fixes P R) (hext : external.In Constraints.Definite)
    (hs : s.NodesIn (NodeEntry.DefiniteOver P)) (he : e ∈ s.nodes) {changed : Bool}
    (h : resolveNode R external s e = .ok (e', changed)) : e'.DefiniteOver P := by
  have hview := definite_view hext (fun d hd => (hs d hd).toDefinite) he
  have hfit := hs e he
  obtain ⟨specs, body, hbody, -, rfl, -⟩ := resolveNode_eq_ok h
  have hpads : (∀ spec ∈ specs, spec.Definite) →
      ∀ p ∈ specs.map (mergedPad e.pads), p.Definite := by
    intro hspecs p hp
    obtain ⟨spec, hspec, rfl⟩ := List.mem_map.mp hp
    exact definite_mergedPad hfit.pads (hspecs spec hspec)
  rw [resolveBody] at hbody
  cases hb : e.body with
  | plugin type =>
    rw [hb] at hbody
    obtain ⟨specs', hspecs, heq⟩ := map_eq_ok_iff.mp hbody
    cases heq
    have htype := hfit.types type hb
    refine ⟨⟨hpads (htype.2 _ _ hview hspecs), fun t ht => ?_⟩, Body.inside_plugin P type⟩
    cases ht
    exact htype
  | subgraph id inner =>
    rw [hb] at hbody
    obtain ⟨inner', hinner, heq⟩ := map_eq_ok_iff.mp hbody
    cases heq
    have hP' := hR.kept _ _ _ (externalOf_in hview.peers) (hfit.inner id inner hb) hinner
    refine ⟨⟨hpads (definite_exposedPads (hR.definite _ hP')), fun t ht => ?_⟩,
      (Body.inside_subgraph P id inner').mpr hP'⟩
    cases ht

/-- The resolution of definite nodes is repeatable (`Repeatable`): a pass that reports no change
has made none. -/
theorem repeatable_definite (hR : Fixes P R) (hext : external.In Constraints.Definite) :
    Repeatable R external Constraints.Definite (NodeEntry.DefiniteOver P) where
  eq_of_same _ _ := Constraints.Definite.eq_of_same
  declared _ he p hp := (he.pads p hp).declared
  reads _ he t hb := (he.types t hb).1
  kept _ hs _ he _ _ h := definiteOver_resolveNode hR hext hs he h
  pads s hs e he e' h _ _ := by
    have he' := definiteOver_resolveNode hR hext hs he h
    obtain ⟨specs, body, -, -, rfl, hflag⟩ := resolveNode_eq_ok h
    have hsame : sameDeclarations e.pads (specs.map (mergedPad e.pads)) = true := by
      simpa using hflag.symm
    exact (map_eq_of_sameDeclarations hsame fun p hp q hq =>
      ((hs e he).pads p hp).bare_eq (he'.pads q hq)).symm
  inner s hs e he id inner inner' hb h := by
    have hview := definite_view hext (fun d hd => (hs d hd).toDefinite) he
    exact hR.idempotent _ _ _ (externalOf_in hview.peers) ((hs e he).inner id inner hb) h

/-- Narrowing leaves definite nodes definite. -/
theorem definiteOver_narrow (hext : external.In Constraints.Definite)
    (ht : t.NodesIn (NodeEntry.DefiniteOver P)) (h : t.narrow external = .ok t') :
    t'.markResolved.NodesIn (NodeEntry.DefiniteOver P) := by
  have hbare : t'.markResolved.bare = t.bare := (bare_markResolved t').trans (narrow_agrees h).1
  have hpads : t'.markResolved.PadsIn Constraints.Definite :=
    padsIn_markResolved ((padsIn_definite fun e he => (ht e he).toDefinite).narrow
      Regime.definite.intersect hext h)
  intro e' he'
  obtain ⟨e, he, hb⟩ := exists_bare_eq hbare he'
  obtain ⟨-, -, -, hbpads, hbody⟩ := NodeEntry.bare_eq_iff.mp hb
  have hfit := ht e he
  refine ⟨⟨fun p' hp' => ?_, hbody ▸ hfit.types⟩, hbody ▸ hfit.inner⟩
  -- values are no part of what narrowing changes
  have hmem : p'.bare ∈ e.pads.map PadState.bare := hbpads ▸ List.mem_map_of_mem hp'
  obtain ⟨p, hp, hpbare⟩ := List.mem_map.mp hmem
  obtain ⟨-, -, -, -, hvalue, -⟩ := PadState.bare_eq_iff.mp hpbare
  exact ⟨(hpads e' he' p' hp').1, (hpads e' he' p' hp').2, hvalue ▸ (hfit.pads p hp).value⟩

/-- A definite graph that was resolved is definite, and reconciled. -/
theorem reconciled_of_definiteOver (hR : Fixes P R) (hext : external.In Constraints.Definite)
    (hs : s.NodesIn (NodeEntry.DefiniteOver P))
    (h : reconcileWith R config external s = .ok s') :
    s'.NodesIn (NodeEntry.DefiniteOver P) ∧ Reconciled R external s' := by
  obtain ⟨hrest, t, t', ht, hnarrow, rfl⟩ :=
    reconciled_of_reconcileWith (repeatable_definite hR hext) hs h
  exact ⟨definiteOver_narrow hext ht hnarrow, hrest⟩

/-! ### All depths -/

/-- A graph of limited depth that is definite at every depth (`NodeEntry.Definite`). -/
def DefiniteWithin (n : Nat) (s : GraphState) : Prop :=
  s.depth ≤ n ∧ s.Everywhere (NodesIn NodeEntry.Definite)

theorem nodesIn_definiteOver_iff : s.NodesIn (NodeEntry.DefiniteOver P) ↔
    s.NodesIn NodeEntry.Definite ∧ ∀ e ∈ s.nodes, e.body.Inside P := by
  constructor
  · exact fun h => ⟨fun e he => (h e he).toDefinite, fun e he => (h e he).inner⟩
  · exact fun ⟨hs, hin⟩ e he => ⟨hs e he, hin e he⟩

theorem definiteWithin_zero_iff :
    s.DefiniteWithin 0 ↔ s.NodesIn (NodeEntry.DefiniteOver fun _ => False) :=
  within_zero_iff.trans nodesIn_definiteOver_iff.symm

theorem definiteWithin_succ_iff :
    s.DefiniteWithin (n + 1) ↔ s.NodesIn (NodeEntry.DefiniteOver (DefiniteWithin n)) :=
  within_succ_iff.trans nodesIn_definiteOver_iff.symm

/-- A definite graph that was resolved is definite and reconciled (`Reconciled`), at every depth.
-/
theorem reconciled_of_definiteWithin (hext : external.In Constraints.Definite)
    (hs : s.DefiniteWithin n) (h : reconcileWithin config n external s = .ok s') :
    s'.DefiniteWithin n ∧ Reconciled (innerResolver config n) external s' := by
  induction n generalizing external s s' with
  | zero =>
    rw [definiteWithin_zero_iff] at hs ⊢
    exact reconciled_of_definiteOver ⟨fun _ => False.elim, fun _ _ _ _ => False.elim,
      fun _ _ _ _ => False.elim⟩ hext hs h
  | succ n ih =>
    rw [definiteWithin_succ_iff] at hs ⊢
    refine reconciled_of_definiteOver
      ⟨fun t ht => ht.2.self, fun _ _ _ hext ht h => (ih hext ht h).1,
      fun external t t' hext ht h => ?_⟩ hext hs h
    rw [innerResolver, reconcileWithin_eq]
    exact (ih hext ht h).2.reconcileWith

/-! ### Fixed points -/

/-- Every node of a type declares just the pads that it has (`PadState.DeclaredBy`), in their
order, and every link joins a source to a sink. -/
structure FixedPoint (external : External) (s : GraphState) : Prop where
  declares : ∀ e ∈ s.nodes, ∀ t, e.body = .plugin t → ∃ specs,
    t.resolve (s.view external e) = .ok specs ∧ List.Forall₂ PadState.DeclaredBy e.pads specs
  joined : ∀ l ∈ s.links, ∃ p q, s.pad? l.source = some p ∧ s.pad? l.sink = some q ∧
    p.isSource = true ∧ q.isSource = false

/-- `t`, seen from outside as `external'`, is `s`, seen as `external`, or it lies in `s` at some
depth and sees what its subgraph node shows it. -/
inductive EnclosesUnder : External → GraphState → External → GraphState → Prop where
  | refl (external : External) (s : GraphState) : EnclosesUnder external s external s
  | inner {external external' : External} {s inner t : GraphState} {e : NodeEntry}
      {id : Option String} (mem : e ∈ s.nodes) (body : e.body = .subgraph id inner)
      (rest : EnclosesUnder (externalOf e.pads (s.view external e).peers) inner external' t) :
      EnclosesUnder external s external' t

/-- A settled node of a type declares just the pads that it has. -/
theorem SettledAt.declaredBy (h : SettledAt R external s e) {type : NodeType}
    (hb : e.body = .plugin type) : ∃ specs, type.resolve (s.view external e) = .ok specs ∧
      List.Forall₂ PadState.DeclaredBy e.pads specs := by
  obtain ⟨specs, hspecs, hnd, hpads⟩ := h
  refine ⟨specs, ((resolveBody_of_plugin hb).mp (hb ▸ hspecs)).1, ?_⟩
  have hids : specs.map (·.id) = e.pads.map (·.id) := by
    have hmap := congrArg (List.map (·.id)) hpads
    simpa only [List.map_map, Function.comp_def, PadState.bare, mergedPad_id] using hmap
  rw [← List.forall₂_eq_eq_eq, List.forall₂_map_left_iff, List.forall₂_map_left_iff,
    List.forall₂_map_right_iff, List.forall₂_iff_zip] at hpads
  refine (List.forall₂_iff_zip.mpr ⟨hpads.1, fun {spec p} hmem => ?_⟩).flip
  obtain ⟨-, hp⟩ := List.of_mem_zip hmem
  have hbare := hpads.2 hmem
  have hid : p.id = spec.id := by
    rw [← mergedPad_id e.pads spec]
    exact (PadState.bare_eq_iff.mp hbare).1.symm
  rw [mergedPad_of_mem (hids ▸ hnd) hp hid] at hbare
  exact PadState.declaredBy_of_bare hid hbare

theorem fixedPoint_of_reconciled (h : Reconciled R external s) : s.FixedPoint external := by
  refine ⟨fun e he t hb => (h.settled e he).declaredBy hb, fun l hl => ?_⟩
  have hsound := h.sound l hl
  rw [isSound, Bool.and_eq_true] at hsound
  obtain ⟨q, hq, hsink⟩ := (Option.any_eq_true _ _).mp hsound.1
  obtain ⟨p, hp, hsource⟩ := (Option.any_eq_true _ _).mp hsound.2
  exact ⟨p, q, hp, hq, hsource, by simpa using hsink⟩

/-- A reconciled graph is a fixed point (`FixedPoint`), and so are the graphs inside it, under what
their nodes show them. -/
theorem fixedPoint_of_enclosesUnder (hext : external.In Constraints.Definite)
    (hs : s.DefiniteWithin n) (h : Reconciled (innerResolver config n) external s)
    (ht : EnclosesUnder external s external' t) : t.FixedPoint external' := by
  induction ht generalizing n with
  | refl => exact fixedPoint_of_reconciled h
  | @inner external external' s inner t e id mem body rest ih =>
    have hresolved := ((h.settled e mem).resolved body).1
    have hin : (externalOf e.pads (s.view external e).peers).In Constraints.Definite :=
      externalOf_in (definite_view hext hs.2.self mem).peers
    cases n with
    | zero => exact ((definiteWithin_zero_iff.mp hs e mem).inner id inner body).elim
    | succ n =>
      have hinner := (definiteWithin_succ_iff.mp hs e mem).inner id inner body
      exact ih hin hinner (reconciled_of_definiteWithin hin hinner hresolved).2

/-- Without negative zeros (`Constraints.Definite`) resolution ends in a fixed point, at every
depth, and does not change it again. Without them equal bounds are the same double, so that it does
not matter which one of two equal bounds `Double.max` and `Double.min` keep. -/
theorem reconcile_fixedPoint (hext : external.In Constraints.Definite)
    (hs : s.Everywhere (NodesIn NodeEntry.Definite)) (h : reconcile config external s = .ok s') :
    (∀ external' t, EnclosesUnder external s' external' t → t.FixedPoint external') ∧
      reconcile config external s' = .ok s' := by
  obtain ⟨hs', hrest⟩ := reconciled_of_definiteWithin hext ⟨Nat.le_refl _, hs⟩ h
  refine ⟨fun external' t ht => fixedPoint_of_enclosesUnder hext hs' hrest ht, ?_⟩
  rw [reconcile, depth_reconcileWithin h, reconcileWithin_eq]
  exact hrest.reconcileWith

/-- A whole number that reaches a display inside a subgraph through a passthrough. -/
def relay : GraphState where
  nodes :=
    [.plugin "i" "IntegerProperty" PropertyNode.integer,
      .plugin "p" "Passthrough" Passthrough.nodeType,
      { id := "g", nodeType := subgraphType, editor := {}, pads := [], state := .unresolved,
        body := .subgraph none ⟨[.plugin "d" "Display" Display.nodeType], []⟩ }]
  links := [⟨⟨"p", "output"⟩, ⟨"g", "d:value"⟩⟩, ⟨⟨"i", "value"⟩, ⟨"p", "input"⟩⟩]

/-- The relay is resolved to a fixed point. -/
theorem reconcile_fixedPoint_relay :
    External.In Constraints.Definite [] ∧ relay.Everywhere (NodesIn NodeEntry.Definite) ∧
      ∃ s', reconcile {} [] relay = .ok s' ∧
        (∀ external t, EnclosesUnder [] s' external t → t.FixedPoint external) ∧
        reconcile {} [] s' = .ok s' := by
  have hinteger : PropertyNode.integer.IsBuiltin := ⟨"IntegerProperty", mem_of_lookupKey rfl⟩
  have hpass : Passthrough.nodeType.IsBuiltin := ⟨"Passthrough", mem_of_lookupKey rfl⟩
  have hshow : Display.nodeType.IsBuiltin := ⟨"Display", mem_of_lookupKey rfl⟩
  have hext : External.In Constraints.Definite [] := by simp [External.In]
  have hdisplay : (⟨[.plugin "d" "Display" Display.nodeType], []⟩ : GraphState).Everywhere
      (NodesIn NodeEntry.Definite) := by
    refine everywhere_iff.mpr ⟨?_, ?_⟩
    · exact List.forall_mem_singleton.mpr (NodeEntry.definite_plugin "d" "Display" hshow)
    · exact List.forall_mem_singleton.mpr (Body.inside_plugin _ _)
  have hrelay : relay.Everywhere (NodesIn NodeEntry.Definite) := by
    refine everywhere_iff.mpr ⟨?_, ?_⟩
    · refine List.forall_mem_cons.mpr ⟨?_, List.forall_mem_cons.mpr ⟨?_, ?_⟩⟩
      · exact NodeEntry.definite_plugin "i" "IntegerProperty" hinteger
      · exact NodeEntry.definite_plugin "p" "Passthrough" hpass
      · refine List.forall_mem_singleton.mpr ⟨fun p hp => ?_, fun t ht => ?_⟩
        · cases hp
        · cases ht
    · refine List.forall_mem_cons.mpr ⟨Body.inside_plugin _ _, List.forall_mem_cons.mpr
        ⟨Body.inside_plugin _ _, List.forall_mem_singleton.mpr ?_⟩⟩
      exact (Body.inside_subgraph _ _ _).mpr hdisplay
  have hok : (reconcile {} [] relay).isOk = true := by decide +kernel
  refine ⟨hext, hrelay, ?_⟩
  cases h : reconcile {} [] relay with
  | error e =>
    rw [h] at hok
    cases hok
  | ok s' => exact ⟨s', rfl, reconcile_fixedPoint hext hrelay h⟩

/-! ### Signed zeros -/

/-- A type with two sources, each of which declares what feeds a sink. No built-in type is like
this, but a library may have it. -/
def twoWires : NodeType where
  metadata := ⟨"", none, []⟩
  description := ""
  resolve view := .ok
    [{ id := "a", padType := .statelessSink },
      { id := "b", padType := .statelessSink },
      { id := "x", padType := .statelessSource, constraints := view.peerConstraints "a" },
      { id := "y", padType := .statelessSource, constraints := view.peerConstraints "b" }]

/-- A node whose sources feed each other's sinks; what they declare differs in the sign of a
zero. -/
def crossed : GraphState where
  nodes :=
    [{ id := "n", nodeType := "", editor := {}, state := .unresolved, body := .plugin twoWires,
       pads :=
         [{ id := "a", padType := .statelessSink },
           { id := "b", padType := .statelessSink },
           { id := "x", padType := .statelessSource,
             declared := some [.float (some .zero) none] },
           { id := "y", padType := .statelessSource,
             declared := some [.float (some Double.zero.neg) none] }] }]
  links := [⟨⟨"n", "y"⟩, ⟨"n", "a"⟩⟩, ⟨⟨"n", "x"⟩, ⟨"n", "b"⟩⟩]

/-- Whether a pad is declared without negative zeros. -/
def declaresDefinite (s : GraphState) (r : PadRef) : Bool :=
  (s.declared? r).any fun cs => cs.all fun l => l.all Constraint.isDefinite

/-- Crossed wires change places whenever they are resolved: the last pass has exchanged
declarations that `PadState.sameDeclaration` takes as the same. -/
theorem reconcile_crossed :
    ∃ s t, reconcile {} [] crossed = .ok s ∧ reconcile {} [] s = .ok t ∧ s ≠ t := by
  have hsigns : ((reconcile {} [] crossed).toOption.bind fun s =>
      (reconcile {} [] s).toOption.map fun t =>
        (s.declaresDefinite ⟨"n", "x"⟩, t.declaresDefinite ⟨"n", "x"⟩)) = some (false, true) := by
    decide +kernel
  obtain ⟨s, hs, hsigns⟩ := Option.bind_eq_some_iff.mp hsigns
  obtain ⟨t, ht, hsigns⟩ := Option.map_eq_some_iff.mp hsigns
  refine ⟨s, t, toOption_eq_some_iff.mp hs, toOption_eq_some_iff.mp ht, ?_⟩
  rintro rfl
  rw [Prod.mk.injEq] at hsigns
  exact Bool.false_ne_true (hsigns.1.symm.trans hsigns.2)

end GraphState

end Patchbay
