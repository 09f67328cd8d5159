import Patchbay.Graph.Basic
import Patchbay.Proofs.Graph.WellFormed
import Patchbay.Proofs.History

/-!
# What operations keep

Loading a snapshot gives an orderly graph, and every edit keeps a graph orderly, at every depth.
Resolution then makes it well-formed again. So after any sequence of operations, successful or not,
the graph and all graphs inside it are well-formed (`everywhere_wellFormed_run`).
-/

namespace Patchbay

variable {T : String → NodeType → Prop} {C : Constraints → Prop} {library : Library}
  {config : EngineConfig}

/-- What a library has under a name is of a class. The class `T` says which type may stand under
which name. -/
def Library.In (T : String → NodeType → Prop) (library : Library) : Prop :=
  ∀ name t, library.create name = .ok t → T name t

namespace GraphState

variable {s s' : GraphState} {e : NodeEntry}

/-! ### Loading -/

theorem seedPads_in (hR : Regime T C) {pads : List PadState}
    (h : ∀ p ∈ pads, C p.declared ∧ C p.effective) (listed : List PadSnapshot) :
    ∀ p ∈ seedPads pads listed, C p.declared ∧ C p.effective := by
  refine List.foldlRecOn
    (motive := fun pads : List PadState => ∀ p ∈ pads, C p.declared ∧ C p.effective) _ _ h
    fun pads h q _ => ?_
  split
  · exact h
  · refine List.forall_mem_append.mpr ⟨h, List.forall_mem_singleton.mpr ?_⟩
    rw [seededPad]
    split <;> exact ⟨hR.unconstrained, hR.unconstrained⟩

theorem declareMissing_in {pads : List PadState} {specs : List PadSpec}
    (h : ∀ p ∈ pads, C p.declared ∧ C p.effective) (hspecs : ∀ spec ∈ specs, C spec.constraints) :
    ∀ p ∈ declareMissing pads specs, C p.declared ∧ C p.effective := by
  refine List.foldlRecOn
    (motive := fun pads : List PadState => ∀ p ∈ pads, C p.declared ∧ C p.effective) _ _ h
    fun pads h spec hspec => ?_
  split
  · exact h
  · exact List.forall_mem_append.mpr
      ⟨h, List.forall_mem_singleton.mpr ⟨hspecs spec hspec, hspecs spec hspec⟩⟩

/-- A node of a type with the pads of a snapshot fits, if its id is valid. -/
theorem fit_pluginEntry (hR : Regime T C) {id nodeType : String} {type : NodeType}
    (ht : T nodeType type)
    {listed : List PadSnapshot} (h : pluginEntry id nodeType type listed = .ok e)
    (hvalid : isValidNodeId e.id = true) : e.Fit T C := by
  rw [pluginEntry] at h
  split at h
  · cases h
  · rename_i specs hspecs
    cases h
    exact ⟨hvalid, ht, declareMissing_in (seedPads_in hR (by simp) listed)
      (hR.resolve _ type ht ⟨id, seedPads [] listed, []⟩ (by simp) specs hspecs),
      Body.inside_plugin _ _⟩

theorem fit_subgraphEntry (hR : Regime T C) {id : String} {subgraphId : Option String}
    {inner : GraphState} (hin : inner.Everywhere (Orderly T C))
    (h : subgraphEntry config id subgraphId inner = .ok e) (hvalid : isValidNodeId e.id = true) :
    e.Fit T C := by
  rw [subgraphEntry] at h
  split at h
  · cases h
  · rename_i inner' hrec
    cases h
    have hin' := everywhere_orderly_reconcile hR (by simp [External.In]) hin hrec
    refine ⟨hvalid, rfl, fun p hp => ?_, (Body.inside_subgraph _ _ _).mpr hin'⟩
    obtain ⟨spec, hspec, rfl⟩ := List.mem_map.mp hp
    exact ⟨exposedPads_in hin'.self spec hspec, exposedPads_in hin'.self spec hspec⟩

end GraphState

/-- A node that fits can be shown in another way, and with more pads. -/
theorem NodeEntry.Fit.seeded {e : NodeEntry} (hR : Regime T C) (h : e.Fit T C)
    (editor : EditorInfo) (listed : List PadSnapshot) :
    ({ e with editor := editor, pads := GraphState.seedPads e.pads listed } : NodeEntry).Fit T C :=
  ⟨h.valid, h.types, GraphState.seedPads_in hR h.constraints listed, h.inner⟩

namespace GraphState

variable {s s' : GraphState} {e : NodeEntry}

mutual

/-- A graph from a snapshot is orderly at every depth (`Orderly`), before it is resolved. -/
theorem orderly_load (hR : Regime T C) (hlib : library.In T) : ∀ (snapshot : GraphSnapshot)
    {s : GraphState}, load library config snapshot = .ok s → s.Everywhere (Orderly T C)
  | ⟨nodes⟩, s, h => by
    rw [load] at h
    obtain ⟨s₁, h₁, h⟩ := bind_eq_ok_iff.mp h
    exact orderly_linkAll (orderly_loadNodes hR hlib nodes orderly_empty h₁) h

theorem orderly_loadNodes (hR : Regime T C) (hlib : library.In T) : ∀ (nodes : List NodeSnapshot)
    {s s' : GraphState}, s.Everywhere (Orderly T C) → loadNodes library config nodes s = .ok s' →
    s'.Everywhere (Orderly T C)
  | [], s, s', hs, h => by
    rw [loadNodes] at h
    cases h
    exact hs
  | n :: ns, s, s', hs, h => by
    rw [loadNodes] at h
    obtain ⟨e, he, h⟩ := bind_eq_ok_iff.mp h
    obtain ⟨s₁, h₁, h⟩ := bind_eq_ok_iff.mp h
    exact orderly_loadNodes hR hlib ns (orderly_addNode hs (fit_loadNode hR hlib n he) h₁) h

theorem fit_loadNode (hR : Regime T C) (hlib : library.In T) : ∀ (n : NodeSnapshot)
    {e : NodeEntry}, loadNode library config n = .ok e → isValidNodeId e.id = true → e.Fit T C
  | ⟨id, nodeType, editor, listed, _, _, subgraph⟩, e, h, hvalid => by
    rw [loadNode] at h
    split at h
    · obtain ⟨⟨subgraphId, inner⟩, hinner, h⟩ := bind_eq_ok_iff.mp h
      obtain ⟨d, hd, h⟩ := bind_eq_ok_iff.mp h
      cases h
      exact (fit_subgraphEntry hR (orderly_loadInner hR hlib subgraph hinner) hd hvalid).seeded hR
        editor listed
    · obtain ⟨type, htype, h⟩ := bind_eq_ok_iff.mp h
      obtain ⟨d, hd, h⟩ := bind_eq_ok_iff.mp h
      cases h
      exact (fit_pluginEntry hR (hlib _ _ htype) hd hvalid).of_eq rfl rfl rfl rfl

theorem orderly_loadInner (hR : Regime T C) (hlib : library.In T) :
    ∀ (subgraph : Option SubgraphSnapshot) {node : String} {id : Option String}
      {inner : GraphState}, loadInner library config node subgraph = .ok (id, inner) →
    inner.Everywhere (Orderly T C)
  | none, _, _, _, h => by
    rw [loadInner] at h
    cases h
  | some ⟨subgraphId, graph⟩, _, _, _, h => by
    rw [loadInner] at h
    obtain ⟨inner, hinner, h⟩ := map_eq_ok_iff.mp h
    cases h
    exact orderly_load hR hlib graph hinner

end

/-! ### Making and dissolving subgraphs -/

theorem orderly_insertSubgraph (hR : Regime T C) (hlib : library.In T)
    (hs : s.Everywhere (Orderly T C)) {id : Option String} {subgraphId : String}
    {editor : EditorInfo} (h : s.insertSubgraph library config id subgraphId editor = .ok s') :
    s'.Everywhere (Orderly T C) := by
  rw [insertSubgraph] at h
  obtain ⟨graph, -, h⟩ := bind_eq_ok_iff.mp h
  obtain ⟨inner, hinner, h⟩ := bind_eq_ok_iff.mp h
  obtain ⟨e, he, h⟩ := bind_eq_ok_iff.mp h
  refine orderly_addNode hs (fun hvalid => ?_) h
  exact (fit_subgraphEntry hR (orderly_load hR hlib graph hinner) he hvalid).of_eq rfl rfl rfl rfl

theorem orderly_removeNodes {ids : List String} (hs : s.Everywhere (Orderly T C))
    (h : s.removeNodes ids = .ok s') : s'.Everywhere (Orderly T C) := by
  induction ids generalizing s with
  | nil =>
    cases h
    exact hs
  | cons id rest ih =>
    rw [removeNodes] at h
    obtain ⟨⟨s₁, e⟩, h₁, h⟩ := bind_eq_ok_iff.mp h
    exact ih (orderly_removeNode hs h₁).1 h

theorem orderly_connectEach {pairs : List (PadRef × PadRef)} (hs : s.Everywhere (Orderly T C))
    (h : s.connectEach pairs = .ok s') : s'.Everywhere (Orderly T C) := by
  induction pairs generalizing s with
  | nil =>
    cases h
    exact hs
  | cons pair rest ih =>
    rw [connectEach] at h
    obtain ⟨⟨s₁, l⟩, h₁, h⟩ := bind_eq_ok_iff.mp h
    exact ih (orderly_connect hs h₁) h

theorem orderly_insertInlineSubgraph (hR : Regime T C) (hlib : library.In T)
    (hs : s.Everywhere (Orderly T C)) {id subgraphId : Option String} {graph : GraphSnapshot}
    {inbound outbound : List PadConnection} {removed : List String} {editor : EditorInfo}
    (h : s.insertInlineSubgraph library config id subgraphId graph inbound outbound removed
      editor = .ok s') : s'.Everywhere (Orderly T C) := by
  rw [insertInlineSubgraph] at h
  obtain ⟨s₁, h₁, h⟩ := bind_eq_ok_iff.mp h
  obtain ⟨inner, hinner, h⟩ := bind_eq_ok_iff.mp h
  obtain ⟨e, he, h⟩ := bind_eq_ok_iff.mp h
  obtain ⟨s₂, h₂, h⟩ := bind_eq_ok_iff.mp h
  obtain ⟨s₃, h₃, h⟩ := bind_eq_ok_iff.mp h
  have hs₂ : s₂.Everywhere (Orderly T C) := by
    refine orderly_addNode (orderly_removeNodes hs h₁) (fun hvalid => ?_) h₂
    exact (fit_subgraphEntry hR (orderly_load hR hlib graph hinner) he hvalid).of_eq rfl rfl rfl
      rfl
  exact orderly_connectEach (orderly_connectEach hs₂ h₃) h

theorem orderly_adoptNodes {nodes : List NodeEntry} {renames : List (String × String)}
    (hs : s.Everywhere (Orderly T C)) (hnodes : ∀ e ∈ nodes, e.Fit T C)
    (h : s.adoptNodes nodes = .ok (s', renames)) : s'.Everywhere (Orderly T C) := by
  induction nodes generalizing s renames with
  | nil =>
    cases h
    exact hs
  | cons e rest ih =>
    rw [adoptNodes] at h
    obtain ⟨s₁, h₁, h⟩ := bind_eq_ok_iff.mp h
    obtain ⟨⟨s₂, renames₂⟩, h₂, h⟩ := bind_eq_ok_iff.mp h
    cases h
    obtain ⟨he, hrest⟩ := List.forall_mem_cons.mp hnodes
    refine ih (orderly_addNode hs (fun hvalid => ?_) h₁) hrest h₂
    exact ⟨hvalid, he.types, he.constraints, he.inner⟩

theorem orderly_relink {translate : PadRef → Except Error PadRef} {links : List Link}
    (hs : s.Everywhere (Orderly T C)) (h : s.relink translate links = .ok s') :
    s'.Everywhere (Orderly T C) := by
  induction links generalizing s with
  | nil =>
    cases h
    exact hs
  | cons l rest ih =>
    rw [relink] at h
    obtain ⟨source, -, h⟩ := bind_eq_ok_iff.mp h
    obtain ⟨sink, -, h⟩ := bind_eq_ok_iff.mp h
    obtain ⟨s₁, h₁, h⟩ := bind_eq_ok_iff.mp h
    exact ih (orderly_linkUnchecked hs h₁) h

theorem orderly_dissolveSubgraph {node : String} (hs : s.Everywhere (Orderly T C))
    (h : s.dissolveSubgraph node = .ok s') : s'.Everywhere (Orderly T C) := by
  rw [dissolveSubgraph] at h
  split at h
  · cases h
  · rename_i e he
    have hfit := (everywhere_orderly_iff.mp hs).fit e (List.mem_of_find?_eq_some he)
    split at h
    · cases h
    · rename_i id inner hbody
      have hinner := everywhere_orderly_iff.mp (hfit.inner id inner hbody)
      obtain ⟨⟨s₁, d⟩, h₁, h⟩ := bind_eq_ok_iff.mp h
      obtain ⟨⟨s₂, renames⟩, h₂, h⟩ := bind_eq_ok_iff.mp h
      obtain ⟨s₃, h₃, h⟩ := bind_eq_ok_iff.mp h
      have hs₂ := orderly_adoptNodes (orderly_removeNode hs h₁).1 hinner.fit h₂
      exact orderly_relink (orderly_relink hs₂ h₃) h

end GraphState

/-! ### Operations -/

namespace Graph

variable {g g' : Graph} {s s' : GraphState}

open GraphState in
/-- Every edit of an orderly graph gives an orderly graph, with one lemma for each kind of edit. -/
theorem orderly_editState (hR : Regime T C) (hlib : g.library.In T)
    (hs : s.Everywhere (Orderly T C)) {edit : GraphEdit} (h : g.editState s edit = .ok s') :
    s'.Everywhere (Orderly T C) := by
  cases edit with
  | insertNode id nodeType position name =>
    obtain ⟨type, htype, h⟩ := bind_eq_ok_iff.mp h
    refine orderly_addNode hs (fun hvalid => ?_) h
    exact ⟨hvalid, hlib _ _ htype, fun p hp => absurd hp List.not_mem_nil, Body.inside_plugin _ _⟩
  | insertSubgraph id subgraphId position name => exact orderly_insertSubgraph hR hlib hs h
  | insertInlineSubgraph id subgraphId graph inbound outbound removed position name =>
    exact orderly_insertInlineSubgraph hR hlib hs h
  | updateNode id editor newId =>
    obtain ⟨s₁, h₁, h⟩ := bind_eq_ok_iff.mp h
    have hs₁ := orderly_updateEditor hs h₁
    cases newId with
    | none =>
      cases h
      exact hs₁
    | some newId => exact orderly_renameNode hs₁ h
  | removeNode id =>
    obtain ⟨⟨s₁, e⟩, h₁, rfl⟩ := map_eq_ok_iff.mp h
    exact (orderly_removeNode hs h₁).1
  | connectPad c =>
    obtain ⟨⟨s₁, l⟩, h₁, rfl⟩ := map_eq_ok_iff.mp h
    exact orderly_connect hs h₁
  | disconnectPad c => exact orderly_disconnect hs h
  | updatePad pad value => exact orderly_setValue s hs h
  | removeSubgraph id => exact orderly_dissolveSubgraph hs h

/-- A graph of an operation's outcome: orderly and well-formed at every depth (`Orderly`,
`WellFormed`). -/
structure Sane (T : String → NodeType → Prop) (C : Constraints → Prop) (s : GraphState) :
    Prop where
  orderly : s.Everywhere (GraphState.Orderly T C)
  wellFormed : s.Everywhere GraphState.WellFormed

theorem sane_empty : Sane T C .empty := by
  refine ⟨GraphState.orderly_empty, GraphState.everywhere_iff.mpr ⟨⟨List.nodup_nil, ?_, ?_, ?_,
    ?_, ?_⟩, ?_⟩⟩ <;> simp [GraphState.empty]

theorem sane_build (hR : Regime T C) (hlib : g.library.In T) {snapshot : GraphSnapshot}
    (h : g.build snapshot = .ok s) : Sane T C s := by
  obtain ⟨s₁, h₁, h⟩ := bind_eq_ok_iff.mp h
  have hs₁ := GraphState.orderly_load hR hlib snapshot h₁
  have hext : External.In C [] := by simp [External.In]
  exact ⟨GraphState.everywhere_orderly_reconcile hR hext hs₁ h,
    GraphState.everywhere_wellFormed_reconcile hR hext hs₁ h⟩

theorem sane_edited (hR : Regime T C) (hlib : g.library.In T) (hg : Sane T C g.state)
    {edit : GraphEdit} (h : g.edited edit = .ok s) : Sane T C s := by
  obtain ⟨s₁, h₁, h⟩ := bind_eq_ok_iff.mp h
  have hs₁ := orderly_editState hR hlib hg.orderly h₁
  have hext : External.In C [] := by simp [External.In]
  exact ⟨GraphState.everywhere_orderly_reconcile hR hext hs₁ h,
    GraphState.everywhere_wellFormed_reconcile hR hext hs₁ h⟩

/-! ### What an operation leaves behind -/

/-- The graph `g'` has the library and the settings of `g`, and the state of `g` or one that was
built from a snapshot or made by an edit. All operations leave this behind (`leftBehind_perform`).
-/
structure LeftBehind (g g' : Graph) : Prop where
  library : g'.library = g.library
  config : g'.config = g.config
  state : g'.state = g.state ∨ (∃ snapshot, g.build snapshot = .ok g'.state) ∨
    ∃ edit, g.edited edit = .ok g'.state

theorem leftBehind_restore (g : Graph) (entry : String) : g.LeftBehind (g.restore entry).2 := by
  rw [restore]
  split
  · exact ⟨rfl, rfl, .inl rfl⟩
  · rename_i snapshot _
    split
    · rename_i s hbuild
      exact ⟨rfl, rfl, .inr (.inl ⟨snapshot, hbuild⟩)⟩
    · exact ⟨rfl, rfl, .inl rfl⟩

/-- Moving the cursor leaves library, settings and state alone. -/
theorem leftBehind_moveTo (g : Graph) (repair : History String → History String)
    (target : Option (History String × String)) : g.LeftBehind (g.moveTo repair target).2 := by
  match target with
  | none => exact ⟨rfl, rfl, .inl rfl⟩
  | some (history, entry) =>
    have hrest := leftBehind_restore { g with history := history } entry
    rw [moveTo]
    split
    · rename_i snapshot g' heq
      rw [heq] at hrest
      exact ⟨hrest.library, hrest.config, hrest.state⟩
    · rename_i e g' heq
      rw [heq] at hrest
      exact ⟨hrest.library, hrest.config, hrest.state⟩

theorem leftBehind_perform (g : Graph) (op : Operation) : g.LeftBehind (g.perform op).2 := by
  cases op with
  | edit edit =>
    cases h : g.edited edit with
    | error e => simp only [perform, apply, h, adopt]; exact ⟨rfl, rfl, .inl rfl⟩
    | ok s => simp only [perform, apply, h, adopt]; exact ⟨rfl, rfl, .inr (.inr ⟨edit, h⟩)⟩
  | load snapshot =>
    cases h : g.build snapshot with
    | error e => simp only [perform, load, h, adopt]; exact ⟨rfl, rfl, .inl rfl⟩
    | ok s => simp only [perform, load, h, adopt]; exact ⟨rfl, rfl, .inr (.inl ⟨snapshot, h⟩)⟩
  | undo => exact leftBehind_moveTo g _ _
  | redo => exact leftBehind_moveTo g _ _

theorem sane_perform (hR : Regime T C) (hlib : g.library.In T) (hg : Sane T C g.state)
    (op : Operation) : Sane T C (g.perform op).2.state := by
  rcases (leftBehind_perform g op).state with h | ⟨snapshot, h⟩ | ⟨edit, h⟩
  · exact h ▸ hg
  · exact sane_build hR hlib h
  · exact sane_edited hR hlib hg h

theorem sane_run (hR : Regime T C) (hlib : g.library.In T) (hg : Sane T C g.state)
    (ops : List Operation) : Sane T C (g.run ops).state := by
  induction ops generalizing g with
  | nil => exact hg
  | cons op rest ih =>
    have hlib' : (g.perform op).2.library.In T := (leftBehind_perform g op).library ▸ hlib
    exact ih hlib' (sane_perform hR hlib hg op)

theorem library_run (g : Graph) (ops : List Operation) : (g.run ops).library = g.library := by
  induction ops generalizing g with
  | nil => rfl
  | cons op rest ih => exact (ih (g.perform op).2).trans (leftBehind_perform g op).library

theorem config_run (g : Graph) (ops : List Operation) : (g.run ops).config = g.config := by
  induction ops generalizing g with
  | nil => rfl
  | cons op rest ih => exact (ih (g.perform op).2).trans (leftBehind_perform g op).config

theorem run_append (g : Graph) (ops ops' : List Operation) :
    g.run (ops ++ ops') = (g.run ops).run ops' :=
  List.foldl_append

theorem run_edit {edit : GraphEdit} {s : GraphState} (h : g.edited edit = .ok s)
    (ops : List Operation) : g.run (.edit edit :: ops) = (g.commit s).run ops := by
  rw [run, List.foldl_cons, perform, apply, h]
  rfl

/-- What resolution makes true of an orderly graph is true of the state after any operations, for
all of them end in resolution or change nothing (`LeftBehind`). -/
theorem state_run_of_reconcile {P : GraphState → Prop} (hR : Regime T C) (hlib : g.library.In T)
    (hg : Sane T C g.state) (hP : ∀ s s', s.Everywhere (GraphState.Orderly T C) →
      GraphState.reconcile g.config [] s = .ok s' → P s') (hstate : P g.state)
    (ops : List Operation) : P (g.run ops).state := by
  induction ops generalizing g with
  | nil => exact hstate
  | cons op rest ih =>
    have hleft := leftBehind_perform g op
    refine ih (hleft.library ▸ hlib) (sane_perform hR hlib hg op) (hleft.config ▸ hP) ?_
    rcases hleft.state with h | ⟨snapshot, h⟩ | ⟨edit, h⟩
    · exact h ▸ hstate
    · obtain ⟨s, hs, h⟩ := bind_eq_ok_iff.mp h
      exact hP s _ (GraphState.orderly_load hR hlib snapshot hs) h
    · obtain ⟨s, hs, h⟩ := bind_eq_ok_iff.mp h
      exact hP s _ (orderly_editState hR hlib hg.orderly hs) h

/-- After any sequence of operations on a new graph, whatever the library and the settings, the
graph and every graph inside it are well-formed (`GraphState.WellFormed`). Every operation keeps
that, and so does loading. -/
theorem everywhere_wellFormed_run (library : Library) (config : EngineConfig)
    (ops : List Operation) :
    ((Graph.new library config).run ops).state.Everywhere GraphState.WellFormed := by
  have hlib : (Graph.new library config).library.In fun _ _ => True := fun _ _ _ => trivial
  exact (sane_run Regime.all hlib sane_empty ops).wellFormed

/-! ### Edits that succeed one after the other -/

/-- The state after edits that all succeed, without the history. Witnesses evaluate this and not
the whole graph. -/
def editedBy (g : Graph) : List GraphEdit → Except Error GraphState
  | [] => .ok g.state
  | edit :: edits => do
    let s ← g.edited edit
    ({ g with state := s } : Graph).editedBy edits

/-- What an edit makes of a state has nothing to do with the history. -/
theorem editState_congr {g' : Graph} (hlibrary : g'.library = g.library)
    (hconfig : g'.config = g.config) (s : GraphState) (edit : GraphEdit) :
    g'.editState s edit = g.editState s edit := by
  cases g
  cases g'
  subst hlibrary hconfig
  cases edit <;> rfl

theorem edited_congr {g' : Graph} (hlibrary : g'.library = g.library)
    (hconfig : g'.config = g.config) (hstate : g'.state = g.state) (edit : GraphEdit) :
    g'.edited edit = g.edited edit := by
  rw [edited, edited, hstate, hconfig, editState_congr hlibrary hconfig]

/-- The edits leave their state behind, and the cursor on its text. -/
theorem run_of_editedBy {edits : List GraphEdit} {s : GraphState} {g' : Graph}
    (hlibrary : g'.library = g.library) (hconfig : g'.config = g.config)
    (hstate : g'.state = g.state) (hproper : g'.history.Proper)
    (hcurrent : g'.history.current? = some g'.toSnapshot.write) (h : g.editedBy edits = .ok s) :
    (g'.run (edits.map .edit)).state = s ∧
      (g'.run (edits.map .edit)).history.depth = g'.history.depth ∧
      (g'.run (edits.map .edit)).history.current? = some s.toSnapshot.write := by
  induction edits generalizing g g' with
  | nil =>
    cases h
    exact ⟨hstate, rfl, hcurrent.trans (by rw [toSnapshot, hstate])⟩
  | cons edit edits ih =>
    obtain ⟨t, ht, h⟩ := bind_eq_ok_iff.mp h
    rw [List.map_cons, run_edit ((edited_congr hlibrary hconfig hstate edit).trans ht)]
    exact ih (g := { g with state := t }) hlibrary hconfig rfl
      (History.proper_push hproper.depth_pos _) (History.current?_push hproper _) h

/-- So they do on a new graph. -/
theorem run_new_of_editedBy {edits : List GraphEdit} {s : GraphState}
    (h : (Graph.new library config).editedBy edits = .ok s) :
    ((Graph.new library config).run (edits.map .edit)).state = s ∧
      ((Graph.new library config).run (edits.map .edit)).history.depth =
        max config.historyDepth 1 ∧
      ((Graph.new library config).run (edits.map .edit)).history.current? =
        some s.toSnapshot.write :=
  run_of_editedBy rfl rfl rfl (History.proper_ofDepth_push _ _)
    (History.current?_ofDepth_push _ _) h

/-- An edit succeeds with a state, which is then the state of the graph. -/
theorem apply_eq_ok {g' : Graph} {edit : GraphEdit} {snapshot : GraphSnapshot} :
    g.apply edit = (.ok snapshot, g') ↔
      ∃ s, g.edited edit = .ok s ∧ snapshot = s.toSnapshot ∧ g' = g.commit s := by
  rw [apply]
  cases g.edited edit with
  | error e => simp [adopt]
  | ok s => simp [adopt, eq_comm]

/-- What an edit leaves behind after operations is what they leave behind together. -/
theorem run_concat_edit {g g' g'' : Graph} {ops : List Operation} {edit : GraphEdit}
    {snapshot : GraphSnapshot} (hg : g.run ops = g') (h : g'.apply edit = (.ok snapshot, g'')) :
    g.run (ops ++ [.edit edit]) = g'' := by
  rw [run_append, hg]
  exact congrArg Prod.snd h

/-- What edits make of a new graph passes a test, if it does when they are evaluated (`editedBy`).
-/
theorem run_of_test (library : Library) (config : EngineConfig) (edits : List GraphEdit)
    {P : GraphState → Prop} [DecidablePred P]
    (h : ((Graph.new library config).editedBy edits).toOption.any (fun s => decide (P s)) =
      true) :
    P ((Graph.new library config).run (edits.map .edit)).state := by
  obtain ⟨s, hs, h⟩ := (Option.any_eq_true _ _).mp h
  rw [(run_new_of_editedBy (toOption_eq_some_iff.mp hs)).1]
  exact of_decide_eq_true h

/-- So does what one more edit makes of it, together with what it was before. -/
theorem apply_of_test (library : Library) (config : EngineConfig) (edits : List GraphEdit)
    (edit : GraphEdit) {P : GraphState → GraphState → Prop} [∀ s, DecidablePred (P s)]
    (h : ((Graph.new library config).editedBy edits).toOption.any (fun s =>
      ({ Graph.new library config with state := s }.edited edit).toOption.any fun t =>
        decide (P s t)) = true) :
    ∃ t, ((Graph.new library config).run (edits.map .edit)).apply edit =
        (.ok t.toSnapshot, ((Graph.new library config).run (edits.map .edit)).commit t) ∧
      P ((Graph.new library config).run (edits.map .edit)).state t := by
  obtain ⟨s, hs, h⟩ := (Option.any_eq_true _ _).mp h
  obtain ⟨t, ht, h⟩ := (Option.any_eq_true _ _).mp h
  have hstate := (run_new_of_editedBy (toOption_eq_some_iff.mp hs)).1
  have hedited := (edited_congr (g := { Graph.new library config with state := s })
    (library_run (Graph.new library config) (edits.map .edit))
    (config_run (Graph.new library config) (edits.map .edit)) hstate edit).trans
    (toOption_eq_some_iff.mp ht)
  exact ⟨t, apply_eq_ok.mpr ⟨t, hedited, rfl, rfl⟩, hstate ▸ of_decide_eq_true h⟩

end Graph

end Patchbay
