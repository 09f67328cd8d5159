import Patchbay.Graph.Resolve
import Patchbay.Proofs.Outcome
import Patchbay.Proofs.Constraint.Same
import Patchbay.Proofs.Graph.Orderly

/-!
# What narrowing does

Narrowing changes the effective constraints of pads and nothing else: the graph stays the same when
they are taken away (`GraphState.bare`). When it ends, the two ends of every link have equal
constraints, and some shape is left to them (`narrow_agrees`).
-/

namespace Patchbay

/-! ### Graphs without effective constraints -/

/-- The pad without its effective constraints, which is what resolution by passes is about. -/
def PadState.bare (p : PadState) : PadState := { p with effective := none }

/-- The node without the effective constraints of its pads, and unresolved. -/
def NodeEntry.bare (e : NodeEntry) : NodeEntry :=
  { e with pads := e.pads.map PadState.bare, state := .unresolved }

/-- The graph without the effective constraints of its pads, and unresolved. Graphs inside its
nodes stay as they are. Most lemmas on passes compare bare graphs. -/
def GraphState.bare (s : GraphState) : GraphState := { s with nodes := s.nodes.map NodeEntry.bare }

theorem PadState.bare_eq_iff {p q : PadState} :
    p.bare = q.bare ↔ p.id = q.id ∧ p.group = q.group ∧ p.padType = q.padType ∧
      p.declared = q.declared ∧ p.value = q.value ∧ p.proxy = q.proxy := by
  simp only [bare, PadState.mk.injEq, true_and]

theorem NodeEntry.bare_eq_iff {e d : NodeEntry} :
    e.bare = d.bare ↔ e.id = d.id ∧ e.nodeType = d.nodeType ∧ e.editor = d.editor ∧
      e.pads.map PadState.bare = d.pads.map PadState.bare ∧ e.body = d.body := by
  simp only [bare, NodeEntry.mk.injEq, true_and]

theorem GraphState.bare_eq_iff {s t : GraphState} :
    s.bare = t.bare ↔
      s.nodes.map NodeEntry.bare = t.nodes.map NodeEntry.bare ∧ s.links = t.links := by
  simp only [bare, GraphState.mk.injEq]

theorem findPad_bare (id : String) (pads : List PadState) :
    findPad id (pads.map PadState.bare) = (findPad id pads).map PadState.bare := by
  rw [findPad, List.find?_map]
  rfl

namespace GraphState

variable {s s' : GraphState} {l : Link} {ls : List Link} {external : External} {changed : Bool}

theorem node?_bare (s : GraphState) (id : String) :
    s.bare.node? id = (s.node? id).map NodeEntry.bare := by
  rw [node?, bare, List.find?_map]
  rfl

theorem pad?_bare (s : GraphState) (p : PadRef) :
    s.bare.pad? p = (s.pad? p).map PadState.bare := by
  rw [pad?, pad?, node?_bare]
  cases s.node? p.node with
  | none => rfl
  | some e => exact findPad_bare p.pad e.pads

theorem isSound_bare (s : GraphState) (l : Link) : s.bare.isSound l = s.isSound l := by
  simp only [isSound, pad?_bare, Option.any_map]
  rfl

/-- A node of a graph is, up to constraints, a node of every graph that is the same without
them. -/
theorem exists_bare_eq (h : s'.bare = s.bare) {e' : NodeEntry} (he : e' ∈ s'.nodes) :
    ∃ e ∈ s.nodes, e.bare = e'.bare := by
  have hmem : e'.bare ∈ s.nodes.map NodeEntry.bare :=
    (bare_eq_iff.mp h).1 ▸ List.mem_map_of_mem he
  exact List.mem_map.mp hmem

theorem ids_of_bare (h : s'.nodes.map NodeEntry.bare = s.nodes.map NodeEntry.bare) :
    s'.nodes.map (·.id) = s.nodes.map (·.id) := by
  have hids := congrArg (List.map fun e : NodeEntry => e.id) h
  rwa [List.map_map, List.map_map] at hids

theorem bare_updatePad {f : PadState → PadState} (hf : ∀ p, (f p).bare = p.bare) (s : GraphState)
    (p : PadRef) : (s.updatePad p f).bare = s.bare := by
  have hpads : ∀ e : NodeEntry,
      ({ e with pads := updateFirst (fun q => q.id == p.pad) f e.pads } : NodeEntry).bare =
      e.bare := by
    intro e
    simp only [NodeEntry.bare, map_updateFirst hf]
  simp only [bare, updatePad, updateNode, map_updateFirst hpads]

theorem bare_startNarrowing (s : GraphState) (external : External) :
    (s.startNarrowing external).bare = s.bare := by
  have hstart : ∀ (node : String) (p : PadState), (startOf external node p).bare = p.bare := by
    intro node p
    rw [startOf]
    split <;> rfl
  simp only [bare, startNarrowing, List.map_map, Function.comp_def, NodeEntry.bare, hstart]
  rfl

theorem bare_markResolved (s : GraphState) : s.markResolved.bare = s.bare := by
  rw [bare, markResolved, List.map_map]
  rfl

theorem pad?_markResolved (s : GraphState) (p : PadRef) : s.markResolved.pad? p = s.pad? p := by
  have hid : (fun e : NodeEntry => e.id == p.node) ∘
      (fun e : NodeEntry => { e with state := .resolved }) = fun e => e.id == p.node := rfl
  rw [pad?, node?, markResolved, List.find?_map, hid, pad?, node?]
  cases s.nodes.find? fun e => e.id == p.node <;> rfl

/-! ### One link -/

/-- The two ends of a link have equal constraints (`Constraints.same`), and these leave some shape.
-/
def Agrees (s : GraphState) (l : Link) : Prop :=
  ∀ p q, s.pad? l.source = some p → s.pad? l.sink = some q →
    p.effective.same q.effective = true ∧ p.effective.isIncompatible = false ∧
      q.effective.isIncompatible = false

theorem bare_narrowLink (h : s.narrowLink l = .ok (s', changed)) : s'.bare = s.bare := by
  have hset : ∀ (s : GraphState) (p : PadRef) (cs : Constraints),
      (s.updatePad p ({ · with effective := cs })).bare = s.bare :=
    fun s p cs => bare_updatePad (f := ({ · with effective := cs })) (fun _ => rfl) s p
  rw [narrowLink] at h
  split at h
  · dsimp only at h
    split at h
    · cases h
    · simp only [Except.ok.injEq, Prod.mk.injEq] at h
      obtain ⟨rfl, -⟩ := h
      split <;> split <;> simp only [hset]
  · simp only [Except.ok.injEq, Prod.mk.injEq] at h
    rw [h.1]

/-- A link that narrowing does not change has ends that agree. -/
theorem narrowLink_unchanged (h : s.narrowLink l = .ok (s', false)) : s' = s ∧ s.Agrees l := by
  rw [narrowLink] at h
  split at h
  · rename_i p q hp hq
    dsimp only at h
    split at h
    · cases h
    · rename_i hcompat
      simp only [Except.ok.injEq, Prod.mk.injEq, Bool.or_eq_false_iff, Bool.not_eq_false'] at h
      obtain ⟨rfl, hsource, hsink⟩ := h
      refine ⟨by simp [hsource, hsink], fun p' q' hp' hq' => ?_⟩
      rw [hp, Option.some.injEq] at hp'
      rw [hq, Option.some.injEq] at hq'
      subst hp' hq'
      rw [Bool.not_eq_true] at hcompat
      exact ⟨Constraints.same_trans (Constraints.same_symm hsource) hsink,
        (Constraints.isIncompatible_eq_of_same hsource) ▸ hcompat,
        (Constraints.isIncompatible_eq_of_same hsink) ▸ hcompat⟩
  · rename_i hnone
    simp only [Except.ok.injEq, Prod.mk.injEq] at h
    exact ⟨h.1.symm, fun p q hp hq => absurd hq (hnone p q hp)⟩

/-! ### Rounds -/

section

variable {I : GraphState → Prop}

/-- What narrowing each link of a graph keeps, narrowing a list of its links keeps. The forms for
rounds and for the whole of narrowing follow (`narrow_invariant`). -/
theorem narrowLinks_invariant
    (hstep : ∀ s l s' changed, l ∈ s.links → I s → s.narrowLink l = .ok (s', changed) → I s')
    (hls : ∀ l ∈ ls, l ∈ s.links) (hs : I s) (h : s.narrowLinks ls = .ok (s', changed)) :
    I s' := by
  induction ls generalizing s changed with
  | nil =>
    cases h
    exact hs
  | cons l rest ih =>
    obtain ⟨hl, hrest⟩ := List.forall_mem_cons.mp hls
    rw [narrowLinks] at h
    obtain ⟨⟨s₁, c₁⟩, h₁, h⟩ := bind_eq_ok_iff.mp h
    obtain ⟨⟨s₂, c₂⟩, h₂, h⟩ := bind_eq_ok_iff.mp h
    simp only [Except.ok.injEq, Prod.mk.injEq] at h
    obtain ⟨rfl, -⟩ := h
    have hlinks : s₁.links = s.links := (bare_eq_iff.mp (bare_narrowLink h₁)).2
    exact ih (hlinks.symm ▸ hrest) (hstep _ _ _ _ hl hs h₁) h₂

theorem narrowLinks_unchanged (h : s.narrowLinks ls = .ok (s', false)) :
    s' = s ∧ ∀ l ∈ ls, s.Agrees l := by
  induction ls generalizing s with
  | nil =>
    cases h
    exact ⟨rfl, fun _ h => by cases h⟩
  | cons l rest ih =>
    rw [narrowLinks] at h
    obtain ⟨⟨s₁, c₁⟩, h₁, h⟩ := bind_eq_ok_iff.mp h
    obtain ⟨⟨s₂, c₂⟩, h₂, h⟩ := bind_eq_ok_iff.mp h
    simp only [Except.ok.injEq, Prod.mk.injEq, Bool.or_eq_false_iff] at h
    obtain ⟨rfl, rfl, rfl⟩ := h
    obtain ⟨rfl, hl⟩ := narrowLink_unchanged h₁
    obtain ⟨rfl, hrest⟩ := ih h₂
    exact ⟨rfl, List.forall_mem_cons.mpr ⟨hl, hrest⟩⟩

/-- The last round changes nothing, so it finds that the ends of every link agree (`Agrees`). -/
theorem narrowRounds_settled {n : Nat}
    (hstep : ∀ s l s' changed, l ∈ s.links → I s → s.narrowLink l = .ok (s', changed) → I s')
    (hs : I s) (h : narrowRounds n s = .settled s') : I s' ∧ ∀ l ∈ s'.links, s'.Agrees l := by
  induction n generalizing s with
  | zero => cases h
  | succ n ih =>
    rw [narrowRounds] at h
    split at h
    · cases h
    · rename_i s₁ changed h₁
      split at h
      · exact ih (narrowLinks_invariant hstep (fun _ hl => hl) hs h₁) h
      · rename_i hc
        cases h
        rw [Bool.not_eq_true] at hc
        subst hc
        obtain ⟨rfl, hagree⟩ := narrowLinks_unchanged h₁
        exact ⟨hs, hagree⟩

theorem narrowLinks_refused {Q : Error → Prop} {e : Error}
    (hstep : ∀ s l s' changed, l ∈ s.links → I s → s.narrowLink l = .ok (s', changed) → I s')
    (hrefuse : ∀ s l e, l ∈ s.links → I s → s.narrowLink l = .error e → Q e)
    (hls : ∀ l ∈ ls, l ∈ s.links) (hs : I s) (h : s.narrowLinks ls = .error e) : Q e := by
  induction ls generalizing s with
  | nil => cases h
  | cons l rest ih =>
    obtain ⟨hl, hrest⟩ := List.forall_mem_cons.mp hls
    rw [narrowLinks] at h
    cases h₁ : s.narrowLink l with
    | error e₁ =>
      rw [h₁] at h
      cases h
      exact hrefuse s l e hl hs h₁
    | ok x =>
      obtain ⟨s₁, c₁⟩ := x
      have hlinks : s₁.links = s.links := (bare_eq_iff.mp (bare_narrowLink h₁)).2
      cases h₂ : s₁.narrowLinks rest with
      | error e₂ =>
        simp only [h₁, h₂, bind, Except.bind] at h
        cases h
        exact ih (hlinks.symm ▸ hrest) (hstep _ _ _ _ hl hs h₁) h₂
      | ok y =>
        simp only [h₁, h₂, bind, Except.bind] at h
        cases h

/-- A refusal comes from a link, in a state that earlier links have led to. -/
theorem narrowRounds_refused {Q : Error → Prop} {e : Error} {n : Nat}
    (hstep : ∀ s l s' changed, l ∈ s.links → I s → s.narrowLink l = .ok (s', changed) → I s')
    (hrefuse : ∀ s l e, l ∈ s.links → I s → s.narrowLink l = .error e → Q e)
    (hs : I s) (h : narrowRounds n s = .refused e) : Q e := by
  induction n generalizing s with
  | zero => cases h
  | succ n ih =>
    rw [narrowRounds] at h
    split at h
    · rename_i h₁
      cases h
      exact narrowLinks_refused hstep hrefuse (fun _ hl => hl) hs h₁
    · rename_i s₁ changed h₁
      split at h
      · exact ih (narrowLinks_invariant hstep (fun _ hl => hl) hs h₁) h
      · cases h

theorem narrow_invariant
    (hstep : ∀ s l s' changed, l ∈ s.links → I s → s.narrowLink l = .ok (s', changed) → I s')
    (hs : I (s.startNarrowing external)) (h : s.narrow external = .ok s') :
    I s' ∧ ∀ l ∈ s'.links, s'.Agrees l := by
  rw [narrow] at h
  split at h
  · rename_i hr
    cases h
    exact narrowRounds_settled hstep hs hr
  · cases h
  · cases h

end

/-- Narrowing keeps the graph but for the effective constraints (`GraphState.bare`), and makes the
ends of links agree. -/
theorem narrow_agrees (h : s.narrow external = .ok s') :
    s'.bare = s.bare ∧ ∀ l ∈ s'.links, s'.Agrees l := by
  refine narrow_invariant (I := fun t => t.bare = s.bare) (fun t l t' _ _ ht hl => ?_)
    (bare_startNarrowing s external) h
  exact (bare_narrowLink hl).trans ht

/-! ### Constraints of a class -/

variable {C : Constraints → Prop}

/-- The constraints on all pads are in a class, declared ones and effective ones. -/
def PadsIn (C : Constraints → Prop) (s : GraphState) : Prop :=
  ∀ e ∈ s.nodes, ∀ p ∈ e.pads, C p.declared ∧ C p.effective

theorem PadsIn.pad (h : s.PadsIn C) {r : PadRef} {p : PadState} (hp : s.pad? r = some p) :
    C p.declared ∧ C p.effective := by
  obtain ⟨e, he, hp⟩ := Option.bind_eq_some_iff.mp hp
  exact h e (List.mem_of_find?_eq_some he) p (List.mem_of_find?_eq_some hp)

theorem PadsIn.updatePad (h : s.PadsIn C) (r : PadRef) {cs : Constraints} (hcs : C cs) :
    (s.updatePad r ({ · with effective := cs })).PadsIn C := by
  intro e he p hp
  rcases mem_updateFirst he with he | ⟨d, hd, -, rfl⟩
  · exact h e he p hp
  · rcases mem_updateFirst hp with hp | ⟨q, hq, -, rfl⟩
    · exact h d hd p hp
    · exact ⟨(h d hd q hq).1, hcs⟩

end GraphState

/-- All constraints seen from outside are in a class. Nothing is seen of the outermost graph
(`External.in_nil`). -/
def External.In (C : Constraints → Prop) (external : External) : Prop := ∀ x ∈ external, C x.2

theorem External.in_nil (C : Constraints → Prop) : External.In C [] := by
  simp [External.In]

theorem External.In.get? {external : External} {C : Constraints → Prop} (h : external.In C)
    {p : PadRef} {cs : Constraints} (hp : external.get? p = some cs) : C cs := by
  obtain ⟨x, hx, rfl⟩ := Option.map_eq_some_iff.mp hp
  exact h x (List.mem_of_find?_eq_some hx)

namespace GraphState

variable {s s' : GraphState} {external : External} {C : Constraints → Prop}

/-- Narrowing stays in a class that is closed under intersection. -/
theorem PadsIn.narrow (hmeet : ∀ a b, C a → C b → C (a.intersect b)) (hs : s.PadsIn C)
    (hext : external.In C) (h : s.narrow external = .ok s') : s'.PadsIn C := by
  have hstart : (s.startNarrowing external).PadsIn C := by
    intro e he p hp
    obtain ⟨d, hd, rfl⟩ := List.mem_map.mp he
    obtain ⟨q, hq, rfl⟩ := List.mem_map.mp hp
    have hdecl := (hs d hd q hq).1
    rw [startOf]
    split
    · exact ⟨hdecl, hdecl⟩
    · rename_i outer hout
      refine ⟨hdecl, ?_⟩
      dsimp only
      split
      · exact hdecl
      · exact hmeet _ _ hdecl (hext.get? hout)
  refine (narrow_invariant (I := PadsIn C) (fun t l t' _ _ ht hl => ?_) hstart h).1
  rw [narrowLink] at hl
  split at hl
  · rename_i p q hp hq
    dsimp only at hl
    split at hl
    · cases hl
    · simp only [Except.ok.injEq, Prod.mk.injEq] at hl
      obtain ⟨rfl, -⟩ := hl
      have hmerged := hmeet _ _ (ht.pad hp).2 (ht.pad hq).2
      split <;> split
      · exact (ht.updatePad _ hmerged).updatePad _ hmerged
      · exact ht.updatePad _ hmerged
      · exact ht.updatePad _ hmerged
      · exact ht
  · cases hl
    exact ht

end GraphState

end Patchbay

/-!
## What nodes see of each other

Across a link a node sees the declaration of the other pad (`GraphState.declared?`), and nothing of
its value or of its effective constraints. So what a node sees is determined by the *faces* of the
other pads: everything but values and effective constraints. Of its own pads only the *outline*
matters for that: ids, directions and what they stand for.
-/

namespace Patchbay

/-- The pad without its value and its effective constraints, which neighbours do not look at. -/
def PadState.face (p : PadState) : PadState := { p with effective := none, value := none }

theorem PadState.face_eq_iff {p q : PadState} :
    p.face = q.face ↔ p.id = q.id ∧ p.group = q.group ∧ p.padType = q.padType ∧
      p.declared = q.declared ∧ p.proxy = q.proxy := by
  simp only [face, PadState.mk.injEq, true_and]

theorem PadState.face_bare (p : PadState) : p.bare.face = p.face := rfl

/-- The pad without its group, its constraints and its value: all that matters of the pads of a
node for what the node sees. -/
def PadState.outline (p : PadState) : PadState :=
  { p with group := none, declared := none, effective := none, value := none }

theorem PadState.outline_eq_iff {p q : PadState} :
    p.outline = q.outline ↔ p.id = q.id ∧ p.padType = q.padType ∧ p.proxy = q.proxy := by
  simp only [outline, PadState.mk.injEq, true_and]

theorem PadState.outline_face (p : PadState) : p.face.outline = p.outline := rfl

section

variable {pads pads' : List PadState}

theorem map_face_of_bare (h : pads.map PadState.bare = pads'.map PadState.bare) :
    pads.map PadState.face = pads'.map PadState.face := by
  have hmap := congrArg (List.map PadState.face) h
  simpa only [List.map_map, Function.comp_def, PadState.face_bare] using hmap

theorem map_outline_of_face (h : pads.map PadState.face = pads'.map PadState.face) :
    pads.map PadState.outline = pads'.map PadState.outline := by
  have hmap := congrArg (List.map PadState.outline) h
  simpa only [List.map_map, Function.comp_def, PadState.outline_face] using hmap

theorem map_outline_of_bare (h : pads.map PadState.bare = pads'.map PadState.bare) :
    pads.map PadState.outline = pads'.map PadState.outline :=
  map_outline_of_face (map_face_of_bare h)

end

/-- What neighbours see of a node: its id and the faces of its pads. -/
def NodeEntry.face (e : NodeEntry) : String × List PadState := (e.id, e.pads.map PadState.face)

theorem NodeEntry.face_bare (e : NodeEntry) : e.bare.face = e.face := by
  rw [face, bare, List.map_map]
  rfl

namespace GraphState

variable {s t : GraphState} {external : External} {e d : NodeEntry} {here r : PadRef}

/-- What the nodes of a graph show to each other. -/
def faces (s : GraphState) : List (String × List PadState) := s.nodes.map NodeEntry.face

theorem faces_of_bare (h : s.bare = t.bare) : s.faces = t.faces := by
  have hmap := congrArg (List.map NodeEntry.face) (bare_eq_iff.mp h).1
  simpa only [List.map_map, Function.comp_def, NodeEntry.face_bare, faces] using hmap

/-- The declared constraints of the pad at an address. -/
def declared? (s : GraphState) (r : PadRef) : Option Constraints := (s.pad? r).map (·.declared)

/-- What a list of faces shows at an address. -/
private theorem face?_eq (s : GraphState) (r : PadRef) : (s.pad? r).map PadState.face =
    (s.faces.find? fun x => x.1 == r.node).bind fun x => findPad r.pad x.2 := by
  rw [pad?, node?, faces, List.find?_map]
  simp only [Function.comp_def, NodeEntry.face]
  cases s.nodes.find? fun e => e.id == r.node with
  | none => rfl
  | some e =>
    simp only [Option.bind_some, Option.map_some, NodeEntry.pad?, NodeEntry.face, findPad]
    rw [List.find?_map]
    rfl

theorem face?_congr (h : s.faces = t.faces) (r : PadRef) :
    (s.pad? r).map PadState.face = (t.pad? r).map PadState.face := by
  rw [face?_eq, face?_eq, h]

theorem declared?_congr (h : s.faces = t.faces) (r : PadRef) : s.declared? r = t.declared? r := by
  have hdeclared := congrArg (Option.map (·.declared)) (face?_congr h r)
  rwa [Option.map_map, Option.map_map] at hdeclared

theorem isSound_congr (h : s.faces = t.faces) (l : Link) : s.isSound l = t.isSound l := by
  have hany : ∀ (s : GraphState) r (f : PadState → Bool), (∀ p, f p.face = f p) →
      (s.pad? r).any f = ((s.pad? r).map PadState.face).any f := by
    intro s r f hf
    rw [Option.any_map]
    simp only [hf]
  rw [isSound, isSound, hany s l.sink _ fun _ => rfl, hany s l.source _ fun _ => rfl,
    face?_congr h, face?_congr h, ← hany t l.sink _ fun _ => rfl, ← hany t l.source _ fun _ => rfl]

/-! ### Views -/

/-- A source sees the declarations of all pads it feeds together. -/
theorem peerView_source {p : PadState} (hp : p.isSource = true) :
    s.peerView external here p =
      match (s.downstream here).filterMap s.declared? with
      | [] => externalView external here
      | seen => ⟨true, seen.foldl Constraints.intersect none⟩ := by
  have hmap : (s.downstream here).filterMap s.declared? =
      ((s.downstream here).filterMap s.pad?).map (·.declared) := by
    rw [List.map_filterMap]
    rfl
  rw [peerView, if_pos hp, hmap]
  cases (s.downstream here).filterMap s.pad? with
  | nil => rfl
  | cons q rest => simp only [List.map_cons, List.foldl_cons, List.foldl_map]

/-- A sink sees the declaration of the pad that feeds it. -/
theorem peerView_sink {p : PadState} (hp : p.isSource = false) :
    s.peerView external here p =
      match (s.feeder here).bind s.declared? with
      | some declared => ⟨true, declared⟩
      | none => externalView external here := by
  have hbind : (s.feeder here).bind s.declared? =
      ((s.feeder here).bind s.pad?).map (·.declared) := by
    cases s.feeder here with
    | none => rfl
    | some r => rfl
  rw [peerView, if_neg (by simp [hp]), hbind]
  cases (s.feeder here).bind s.pad? <;> rfl

theorem peerView_congr (hlinks : s.links = t.links) (hfaces : s.faces = t.faces) {p q : PadState}
    (hpq : p.isSource = q.isSource) :
    s.peerView external here p = t.peerView external here q := by
  have hdecl : s.declared? = t.declared? := funext (declared?_congr hfaces)
  have hdown : s.downstream = t.downstream := funext fun r => by
    rw [downstream, downstream, hlinks]
  have hfeed : s.feeder = t.feeder := funext fun r => by rw [feeder, feeder, hlinks]
  cases hq : q.isSource with
  | true => rw [peerView_source (hpq.trans hq), peerView_source hq, hdecl, hdown]
  | false => rw [peerView_sink (hpq.trans hq), peerView_sink hq, hdecl, hfeed]

/-- What a node sees depends on the faces in the graph (`faces`) and on the outline of its own
pads. -/
theorem peerViews_congr (hlinks : s.links = t.links) (hfaces : s.faces = t.faces)
    (hid : e.id = d.id) (hpads : e.pads.map PadState.outline = d.pads.map PadState.outline) :
    s.peerViews external e = t.peerViews external d := by
  have hmap : ∀ (s : GraphState) (e : NodeEntry), s.peerViews external e =
      (e.pads.map PadState.outline).map fun p =>
        (p.id, s.peerView external ⟨e.id, p.id⟩ p) := by
    intro s e
    rw [List.map_map]
    rfl
  rw [hmap, hmap, hpads, hid]
  refine List.map_congr_left fun p _ => ?_
  rw [peerView_congr hlinks hfaces rfl]

/-- What proxies show inside depends on the outline of the pads. -/
theorem externalOf_congr {pads pads' : List PadState} (peers : List (String × PeerView))
    (h : pads.map PadState.outline = pads'.map PadState.outline) :
    externalOf pads peers = externalOf pads' peers := by
  have hmap : ∀ pads : List PadState,
      externalOf pads peers = externalOf (pads.map PadState.outline) peers := by
    intro pads
    rw [externalOf, externalOf, List.filterMap_map]
    rfl
  rw [hmap, hmap pads', h]

end GraphState

end Patchbay
