import Patchbay.Proofs.Graph.Settled
import Patchbay.Proofs.Graph.Disconnect
import Patchbay.Proofs.Graph.Echoes
import Patchbay.Proofs.Graph.Honoured
import Patchbay.Proofs.Graph.Remarks

/-!
# Values are written at every level

A value that is written to a proxy is written to its target as well, and so on down to a pad of a
node of a type, and each pad on the way checks it against what is left to it. In a graph that
operations have made the first check settles the others (`exists_setValue`): a proxy declares what
is left to its target, and is left with no more than that. Then the graph is resolved, under which
the pad at the end keeps the value. Either its type has no other way than to declare a property
that accepts it, or it is the operator of a compare, whose menu does not depend on values
(`NodeType.IsBuiltin.retains_or_heedless`).
-/

/-!
## How resolution fails

Resolution fails when the pads of a node cannot be resolved, or when two connected pads share no
shape (`Error.OfResolution`). An error of these kinds in a graph inside comes out as it is, and any
other one would become a failure of the node around it.
-/

namespace Patchbay

/-- Pads could not be resolved, or two connected ones share no shape. -/
def Error.OfResolution : Error → Prop
  | .nodeResolution .. | .typeConstraintViolation .. => True
  | _ => False

theorem Error.ofResolution_whileResolving (node : String) (e : Error) :
    (e.whileResolving node).OfResolution := by
  cases e <;> trivial

namespace GraphState

variable {R : InnerResolver} {config : EngineConfig} {external : External} {s : GraphState}
  {err : Error} {i : Nat}

theorem ofResolution_resolveAt (h : resolveAt R external s i = .error err) : err.OfResolution := by
  rw [resolveAt] at h
  split at h
  · cases h
  · rename_i e _
    have hnode := map_eq_error_iff.mp h
    rw [resolveNode] at hnode
    split at hnode
    · cases hnode
      exact Error.ofResolution_whileResolving _ _
    · rw [applySpecs] at hnode
      split at hnode <;> cases hnode
      trivial

theorem ofResolution_resolveEach {order : List Nat}
    (h : resolveEach R external s order = .error err) :
    err.OfResolution := by
  induction order generalizing s with
  | nil => cases h
  | cons i rest ih =>
    rw [resolveEach] at h
    rcases bind_eq_error_iff.mp h with h | ⟨⟨s₁, c₁⟩, -, h⟩
    · exact ofResolution_resolveAt h
    · rcases bind_eq_error_iff.mp h with h | ⟨⟨s₂, c₂⟩, -, h⟩
      · exact ih h
      · cases h

theorem ofResolution_settle {order : List Nat} {limit : Nat}
    (h : settle (pass R external order) limit s = .error err) : err.OfResolution := by
  induction limit generalizing s with
  | zero => cases h
  | succ limit ih =>
    rw [settle] at h
    split at h
    · rename_i hpass
      cases h
      exact ofResolution_resolveEach (map_eq_error_iff.mp hpass)
    · split at h
      · exact ih h
      · cases h

theorem ofResolution_narrow (h : s.narrow external = .error err) : err.OfResolution := by
  have hlink : ∀ s l e, narrowLink s l = .error e → e.OfResolution := by
    intro s l e h
    rw [narrowLink] at h
    split at h
    · dsimp only at h
      split at h <;> cases h
      trivial
    · cases h
  rw [narrow] at h
  split at h
  · cases h
  · rename_i hr
    cases h
    exact narrowRounds_refused (I := fun _ => True) (fun _ _ _ _ _ _ _ => trivial)
      (fun s l e _ _ h => hlink s l e h) trivial hr
  · cases h
    trivial

/-- However resolution fails, it is not for a value. -/
theorem ofResolution_reconcileWith (h : reconcileWith R config external s = .error err) :
    err.OfResolution := by
  rw [reconcileWith] at h
  split at h
  · rename_i hsettle
    cases h
    exact ofResolution_settle hsettle
  · cases h
    trivial
  · exact ofResolution_narrow (map_eq_error_iff.mp h)

theorem ofResolution_reconcile (h : reconcile config external s = .error err) :
    err.OfResolution := by
  rw [reconcile, reconcileWithin_eq] at h
  exact ofResolution_reconcileWith h

end GraphState

end Patchbay

/-! ## Values are written at every level -/

namespace Patchbay

/-! ### Types -/

variable {type : NodeType} {view : NodeView} {specs : List PadSpec} {spec : PadSpec} {v : Json}

theorem Compare.heedless : Compare.nodeType.Heedless := by
  intro view view' _ hpeers
  simp only [nodeType, menu, operand, NodeView.peerConstraints, NodeView.peer, hpeers]

/-- Of the built-in types only the compare has a menu. -/
theorem NodeType.IsBuiltin.not_isMenu (h : type.IsBuiltin) (hcompare : type ≠ Compare.nodeType)
    (hspecs : type.resolve view = .ok specs) (hspec : spec ∈ specs) : ¬ spec.IsMenu := by
  obtain ⟨K, hcalm⟩ := h.calm.resolve_left hcompare
  exact hcalm.noMenu _ _ hspecs spec hspec

/-- What a property of a built-in type accepts once, it accepts under all views, or the type does
not look at values. -/
theorem NodeType.IsBuiltin.retains_or_heedless (h : type.IsBuiltin)
    (hspecs : type.resolve view = .ok specs)
    (hspec : spec ∈ specs) (hproperty : spec.padType.isProperty = true)
    (hv : spec.constraints.accept v = true) :
    type.Retains spec.id v ∨ type.Heedless := by
  by_cases hcompare : type = Compare.nodeType
  · exact .inr (hcompare ▸ Compare.heedless)
  · refine .inl fun view' specs' hspecs' => ?_
    have hfixed :=
      h.steady.fixed _ _ _ _ hspecs hspecs' spec hspec hproperty
      (h.not_isMenu hcompare hspecs hspec)
    exact ⟨spec, hfixed, rfl, hproperty, (h.tame.consistent _ _ hspecs spec hspec).1, hv⟩

/-! ### Writing to a pad of a node -/

namespace NodeEntry

variable {e : NodeEntry} {p : PadState} {r : PadRef}

/-- The node with a value in one of its pads, and another body. -/
def written (e : NodeEntry) (pad : String) (v : Json) (body : Body) : NodeEntry :=
  { e with
    pads := updateFirst (fun q => q.id == pad) (fun q => { q with value := some v }) e.pads
    state := .unresolved
    body := body }

/-- What becomes of the body of a node when a value is written to one of its pads. -/
def writeThrough (e : NodeEntry) (p : PadState) (v : Json) : Except Error Body :=
  match p.proxy with
  | none => .ok e.body
  | some q => e.body.setValue q v

theorem setValue_eq (e : NodeEntry) (r : PadRef) (v : Json) :
    e.setValue r v = match e.pad? r.pad with
      | none => .error (.padNotFound r)
      | some p =>
        if !p.isProperty then .error (.notAPropertyPad r)
        else if !p.effective.accept v then .error (.notOfType r v p.effective)
        else (e.writeThrough p v).map (e.written r.pad v) := by
  obtain ⟨id, nodeType, editor, pads, state, body⟩ := e
  rw [setValue, pad?]
  dsimp only
  cases findPad r.pad pads with
  | none => rfl
  | some p =>
    simp only [writeThrough]
    cases p.proxy <;> rfl

theorem setValue_of_accept (hp : findPad r.pad e.pads = some p) (hproperty : p.isProperty = true)
    (hv : p.effective.accept v = true) :
    e.setValue r v = (e.writeThrough p v).map (e.written r.pad v) := by
  have hp : e.pad? r.pad = some p := hp
  simp [setValue_eq, hp, hproperty, hv]

theorem face_written (e : NodeEntry) (pad : String) (v : Json) (body : Body) :
    (e.written pad v body).face = e.face := by
  have hpads : (e.written pad v body).pads.map PadState.face = e.pads.map PadState.face :=
    map_updateFirst fun _ => rfl
  rw [face, face, hpads]
  rfl

theorem findPad_written (hp : findPad r.pad e.pads = some p) (body : Body) :
    findPad r.pad (e.written r.pad v body).pads = some { p with value := some v } := by
  have hid : ∀ q : PadState, PadState.id { q with value := some v } = q.id := fun _ => rfl
  have hfind := find?_updateFirst hid r.pad r.pad e.pads
  rw [if_pos rfl] at hfind
  rw [findPad] at hp ⊢
  rw [written, hfind, hp, Option.map_some]

end NodeEntry

namespace GraphState

variable {config : EngineConfig} {external : External} {s t : GraphState} {e : NodeEntry}
  {p : PadState} {r x : PadRef} {route : List String} {i : Nat}

/-! ### Writing to a pad of a graph -/

theorem setValueIn_of_getElem? {nodes : List NodeEntry} (hnd : (nodes.map (·.id)).Nodup)
    (h : nodes[i]? = some e)
    (hid : e.id = r.node) : setValueIn nodes r v = (e.setValue r v).map (nodes.set i ·) := by
  induction nodes generalizing i with
  | nil => cases h
  | cons c rest ih =>
    obtain ⟨hc, hrest⟩ := List.nodup_cons.mp hnd
    rw [setValueIn]
    cases i with
    | zero =>
      obtain rfl := Option.some.inj (List.getElem?_cons_zero.symm.trans h)
      rw [if_pos (beq_iff_eq.mpr hid)]
      rfl
    | succ i =>
      rw [List.getElem?_cons_succ] at h
      have hne : c.id ≠ r.node := by
        intro hcid
        exact hc (List.mem_map.mpr ⟨e, List.mem_of_getElem? h, hid.trans hcid.symm⟩)
      rw [if_neg (by simpa using hne), ih hrest h]
      cases e.setValue r v <;> rfl

theorem setValueIn_of_not_mem {nodes : List NodeEntry} (h : ∀ e ∈ nodes, e.id ≠ r.node) :
    setValueIn nodes r v = .error (.nodeNotFound r.node) := by
  induction nodes with
  | nil => rfl
  | cons c rest ih =>
    obtain ⟨hc, hrest⟩ := List.forall_mem_cons.mp h
    rw [setValueIn, if_neg (by simpa using hc), ih hrest]
    rfl

theorem setValue_of_getElem? (hs : s.WellFormed) (h : s.nodes[i]? = some e) (hid : e.id = r.node) :
    s.setValue r v = (e.setValue r v).map fun d => { s with nodes := s.nodes.set i d } := by
  obtain ⟨nodes, links⟩ := s
  rw [setValue, setValueIn_of_getElem? hs.distinctNodes h hid]
  cases e.setValue r v <;> rfl

/-- What is written through to the body of a node, and to one of its pads, changes this node
only. -/
theorem setValue_of_writeThrough (hs : s.WellFormed) (hi : s.nodes[i]? = some e) (hp : p ∈ e.pads)
    (hproperty : p.isProperty = true) (hv : p.effective.accept v = true) {body : Body}
    (hbody : e.writeThrough p v = .ok body) : ∃ s', s.setValue ⟨e.id, p.id⟩ v = .ok s' ∧
      s.SameBut i e (e.written p.id v body) s' ∧
      findPad p.id (e.written p.id v body).pads = some { p with value := some v } ∧
      (body.depth = e.body.depth → s'.depth = s.depth) := by
  have hpad := findPad_of_mem (hs.distinctPads e (List.mem_of_getElem? hi)) hp
  refine ⟨{ s with nodes := s.nodes.set i (e.written p.id v body) }, ?_, ?_, ?_, fun hdepth => ?_⟩
  · rw [setValue_of_getElem? hs hi rfl, NodeEntry.setValue_of_accept hpad hproperty hv, hbody]
    rfl
  · exact ⟨rfl, hi, List.map_set, e.face_written p.id v body⟩
  · exact NodeEntry.findPad_written (r := ⟨e.id, p.id⟩) hpad body
  · exact depth_congr (map_set_of_eq hi hdepth)

/-- A value that is left to a pad is written to the end of the chain of its targets, and to the
pads on the way: what is left to a target, its proxy declares. -/
theorem exists_setValue (h : Attuned external s) (hs : s.Everywhere Exact)
    (hx : s.Denotes r route x)
    (hp : s.pad? r = some p) (hproperty : p.isProperty = true) (hv : p.effective.accept v = true)
    (ht : s.HoldsAt route t) (he : e ∈ t.nodes) (hid : e.id = x.node)
    (hb : e.body = .plugin type) :
    ∃ s', s.setValue r v = .ok s' ∧ s.Echoes type x.pad v r s' ∧ s'.depth = s.depth := by
  induction hx generalizing external p with
  | @plugin s c type' p' mem body pad =>
    obtain rfl := holdsAt_nil_iff.mp ht
    obtain rfl := eq_of_id_eq hs he mem hid
    obtain rfl := Option.some.inj ((hs.self.wellFormed.pad?_eq mem pad).symm.trans hp)
    obtain ⟨i, hi⟩ := List.getElem?_of_mem mem
    have hbody : e.writeThrough p' v = .ok e.body := by
      rw [NodeEntry.writeThrough, hb]
      cases p'.proxy <;> rfl
    obtain ⟨s', hset, level, hpad, hdepth⟩ :=
      setValue_of_writeThrough hs.self.wellFormed hi pad hproperty hv hbody
    exact ⟨s', hset, .plugin level hb rfl hpad ⟨hproperty, rfl⟩
      ((h.here.declared _ _ hp).accept hv), hdepth rfl⟩
  | @proxy s inner c id p' target r' route mem body pad proxy _ ih =>
    obtain rfl := Option.some.inj ((hs.self.wellFormed.pad?_eq mem pad).symm.trans hp)
    obtain ⟨d, hmirror, hd, hun⟩ := proxy_target hs mem body pad proxy
    -- the value passes at the target: what is left to it is what the proxy declares
    have hdeclared := (h.here.declared _ _ hp).accept hv
    rw [hmirror.declared] at hdeclared
    obtain ⟨inside, -, -, within⟩ := h
    obtain ⟨inner', hset, hinside, hdepth⟩ := ih (within c mem id inner body)
      (hs.body mem id inner body) hd
      ((congrArg PadType.isProperty hmirror.padType).symm.trans hproperty) hdeclared
      (ht.tail hs mem body) hid
    obtain ⟨i, hi⟩ := List.getElem?_of_mem mem
    have hbody : c.writeThrough p' v = .ok (.subgraph id inner') := by
      rw [NodeEntry.writeThrough, proxy, body]
      simp only [Body.setValue, hset]
      rfl
    obtain ⟨s', hset', level, -, hdepth'⟩ :=
      setValue_of_writeThrough hs.self.wellFormed hi pad hproperty hv hbody
    refine ⟨s', hset', ?_, hdepth' ?_⟩
    · rw [hmirror.id]
      exact .proxy level body rfl hun hinside
    · rw [body, Body.depth, Body.depth, hdepth]

/-- The addressed pad accepts the value, or it does not and refuses it, or there is no such pad to
write to. -/
theorem setValue_cases (hs : s.WellFormed) (r : PadRef) (v : Json) :
    (∃ p, s.pad? r = some p ∧ p.isProperty = true ∧ p.effective.accept v = true) ∨
      (∃ p, s.pad? r = some p ∧ p.isProperty = true ∧ p.effective.accept v = false ∧
        s.setValue r v = .error (.notOfType r v p.effective)) ∨
      ∃ err, s.setValue r v = .error err ∧ ∀ q message, err ≠ .invalidPadValue q message := by
  cases hnode : s.node? r.node with
  | none =>
    refine .inr (.inr ⟨.nodeNotFound r.node, ?_, fun _ _ h => Error.noConfusion h⟩)
    have hothers : ∀ e ∈ s.nodes, e.id ≠ r.node := by simpa [node?] using hnode
    obtain ⟨nodes, links⟩ := s
    rw [setValue, setValueIn_of_not_mem hothers]
    rfl
  | some e =>
    obtain ⟨he, hid⟩ := node?_eq_some hnode
    obtain ⟨i, hi⟩ := List.getElem?_of_mem he
    have hpad : s.pad? r = e.pad? r.pad := by rw [pad?, hnode, Option.bind_some]
    rw [setValue_of_getElem? hs hi hid, NodeEntry.setValue_eq, hpad]
    cases e.pad? r.pad with
    | none => exact .inr (.inr ⟨_, rfl, fun _ _ h => Error.noConfusion h⟩)
    | some p =>
      cases hproperty : p.isProperty with
      | false =>
        refine .inr (.inr ⟨.notAPropertyPad r, ?_, fun _ _ h => Error.noConfusion h⟩)
        simp [hproperty, Except.map]
      | true =>
        cases hv : p.effective.accept v with
        | false => exact .inr (.inl ⟨p, rfl, hproperty, hv, by simp [hproperty, hv, Except.map]⟩)
        | true => exact .inl ⟨p, rfl, hproperty, hv⟩

/-- In a resolved graph of built-in nodes the written value is stored, and stays when the graph is
resolved. -/
theorem exists_stores {T : String → NodeType → Prop} (hT : ∀ name t, T name t → t.IsBuiltin)
    (h : Attuned [] s) (hs : s.Everywhere Exact)
    (horderly : s.Everywhere (Orderly T Constraints.Plain))
    (hrest : Reconciled (innerResolver config s.depth) [] s) (hp : s.pad? r = some p)
    (hproperty : p.isProperty = true) (hv : p.effective.accept v = true) :
    ∃ s', s.setValue r v = .ok s' ∧
      ∀ t, reconcile config [] s' = .ok t → ∃ type pad, t.Stores type pad v r := by
  have htame : ∀ name t, T name t → t.Tame := fun name t ht => (hT name t ht).tame
  have hext := External.in_nil Constraints.Plain
  obtain ⟨route, x, hx⟩ := exists_denotes hs hp
  obtain ⟨p', hp', t, ht, e, he, type, hb, d, hd, rfl, htype⟩ := hx.target hs
  obtain rfl := Option.some.inj (hp.symm.trans hp')
  obtain ⟨s', hset, hecho, hdepth⟩ := exists_setValue h hs hx hp hproperty hv ht he rfl hb
  refine ⟨s', hset, fun u hu => ⟨type, d.id, ?_⟩⟩
  have hbuiltin : type.IsBuiltin := by
    have htypes := (horderly t ht.encloses).types e he
    rw [hb] at htypes
    exact hT _ _ htypes
  -- at the end of the chain the value is accepted as well
  have hdeclared : d.declared.accept v = true := by
    refine h.accept_declared hs hx hp ((h.here.declared _ _ hp).accept hv) ht ?_
    exact (hs.within ht.encloses).self.wellFormed.pad?_eq he hd
  obtain ⟨m, external, hsettled, -⟩ :=
    exists_reconciled_of_holdsAt htame hs hext ⟨Nat.le_refl _, horderly⟩ hrest ht
  obtain ⟨specs, hspecs, hpads⟩ := (hsettled.settled e he).declaredBy hb
  obtain ⟨spec, hspec, hdspec⟩ := exists_of_forall₂ hpads hd
  rw [reconcile, hdepth] at hu
  have hspecProperty : spec.padType.isProperty = true := by
    rw [← hdspec.padType, htype]
    exact hproperty
  -- the menu of a compare may change, so that the graph is compared with what it was instead
  rcases hbuiltin.retains_or_heedless hspecs hspec hspecProperty
    (hdspec.constraints ▸ hdeclared) with
      hretains | hheedless
  · exact (sustains_reconcileWithin (hdspec.id ▸ hretains) _ _ _ _ _ hecho.stores hu).2
  · exact (echoes_reconcileWithin hheedless hbuiltin.tame htame hext ⟨Nat.le_refl _, horderly⟩
      (fun t ht => (hs t ht).wellFormed) hrest hecho hu).1.stores

end GraphState

/-! ### After any operations -/

namespace Graph

variable {library : Library} {config : EngineConfig} {g g' : Graph} {r : PadRef}

/-- What comes of writing a value to a pad. -/
structure Writes (g : Graph) (r : PadRef) (v : Json) : Prop where
  /-- A value that passes at the addressed pad is refused nowhere else. -/
  passes : ∀ p, g.state.pad? r = some p → p.isProperty = true → p.effective.accept v = true →
    (∃ s, g.state.setValue r v = .ok s) ∧
      ∀ err g', g.apply (.updatePad r v) = (.error err, g') → err.OfResolution
  refuses : ∀ q message g', g.apply (.updatePad r v) = (.error (.invalidPadValue q message), g') →
    q = r ∧ ∃ p, g.state.pad? r = some p ∧ p.isProperty = true ∧ p.effective.accept v = false
  /-- Where the update succeeds, all pads that stand for one another show the value. -/
  shows : ∀ snapshot g', g.apply (.updatePad r v) = (.ok snapshot, g') → snapshot.Shows v r

theorem apply_eq_error {edit : GraphEdit} {err : Error} (h : g.apply edit = (.error err, g')) :
    g.editState g.state edit = .error err ∨
      ∃ s, g.editState g.state edit = .ok s ∧ GraphState.reconcile g.config [] s = .error err := by
  rw [apply] at h
  cases hedited : g.edited edit with
  | ok s =>
    rw [hedited] at h
    cases h
  | error e =>
    rw [hedited] at h
    cases h
    exact bind_eq_error_iff.mp hedited

/-- After any sequence of operations on a new graph of built-in nodes, a value that the addressed
pad accepts is accepted at every level, and once the update has succeeded the snapshot shows it at
the addressed pad, and at every pad that this one stands for (`Graph.Writes`). A value that is
refused names the pad that was addressed. -/
theorem writes_run (hlib : library.types = Library.builtins.types) (config : EngineConfig)
    (ops : List Operation)
    (r : PadRef) (v : Json) : ((Graph.new library config).run ops).Writes r v := by
  obtain ⟨g, hg⟩ : ∃ g, (Graph.new library config).run ops = g := ⟨_, rfl⟩
  have hexact := everywhere_exact_run library config ops
  have hrest := rested_run hlib config ops hg
  have hattuned := attuned_run library config ops
  have hsane := (sane_resolved_run hlib config ops).1
  have hsettings : g.config = config := hg ▸ config_run (Graph.new library config) ops
  rw [hg] at hexact hattuned hsane ⊢
  have hstores : ∀ p, g.state.pad? r = some p → p.isProperty = true → p.effective.accept v = true →
      _ :=
    fun p hp hproperty hv => GraphState.exists_stores (library.isBuiltin_of_has hlib) hattuned
      hexact hsane.orderly hrest.toReconciled hp hproperty hv
  have hcases := GraphState.setValue_cases hexact.self.wellFormed r v
  refine ⟨fun p hp hproperty hv => ?_, fun q message g' h => ?_, fun snapshot g' h => ?_⟩
  · obtain ⟨s, hset, -⟩ := hstores p hp hproperty hv
    refine ⟨⟨s, hset⟩, fun err g' h => ?_⟩
    rcases apply_eq_error h with h | ⟨s', -, h⟩
    · cases hset.symm.trans h
    · exact GraphState.ofResolution_reconcile h
  · rcases apply_eq_error h with h | ⟨s', -, h⟩
    · rcases hcases with ⟨p, hp, hproperty, hv⟩ | ⟨p, hp, hproperty, hv, hset⟩ | ⟨err, hset,
        hother⟩
      · obtain ⟨s, hset, -⟩ := hstores p hp hproperty hv
        cases hset.symm.trans h
      · cases hset.symm.trans h
        exact ⟨rfl, p, hp, hproperty, hv⟩
      · exact absurd (Except.error.inj (hset.symm.trans h)) (hother q message)
    · exact (GraphState.ofResolution_reconcile h).elim
  · have hexact' := everywhere_exact_run library config (ops ++ [.edit (.updatePad r v)])
    rw [run_concat_edit hg h] at hexact'
    obtain ⟨u, hedited, rfl, rfl⟩ := apply_eq_ok.mp h
    obtain ⟨s, hset, hresolve⟩ := bind_eq_ok_iff.mp hedited
    rcases hcases with ⟨p, hp, hproperty, hv⟩ | ⟨p, -, -, -, hrefused⟩ | ⟨err, hrefused, -⟩
    · obtain ⟨s', hset', hstore⟩ := hstores p hp hproperty hv
      obtain rfl := Except.ok.inj (hset.symm.trans hset')
      obtain ⟨type, pad, hstore⟩ := hstore u (hsettings ▸ hresolve)
      exact (hstore.shows hexact').2
    · cases hset.symm.trans hrefused
    · cases hset.symm.trans hrefused

/-- Puts a gate into a subgraph. -/
def gateInside : GraphEdit :=
  .insertInlineSubgraph (some "s") none ⟨[.bare "g" "Gate"]⟩ [] [] [] none none

/-- The gate in the subgraph is opened from outside. -/
theorem writes_run_gateInside : ∃ snapshot g',
    ((Graph.new Library.builtins {}).run [.edit gateInside]).apply
    (.updatePad ⟨"s", "g:open"⟩ (.bool true)) = (.ok snapshot, g') ∧
      (snapshot.node? "s").map (·.pads.map (·.id)) = some ["g:input", "g:open", "g:output"] ∧
      snapshot.Shows (.bool true) ⟨"s", "g:open"⟩ := by
  obtain ⟨u, happly, hpads⟩ := apply_of_test Library.builtins {} [gateInside]
    (.updatePad ⟨"s", "g:open"⟩ (.bool true))
    (P := fun _ u => (u.toSnapshot.node? "s").map (·.pads.map (·.id)) =
      some ["g:input", "g:open", "g:output"]) (by decide +kernel)
  exact ⟨u.toSnapshot, _, happly, hpads, (writes_run rfl {} _ _ _).shows _ _ happly⟩

end Graph

end Patchbay
