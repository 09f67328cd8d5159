import Patchbay.Proofs.Outcome
import Patchbay.Proofs.Graph.Nesting
import Patchbay.Proofs.Graph.LinkTable

/-!
# Orderly graphs

A graph is *orderly* when its node ids are valid and distinct, its links are in order, its nodes
are of the types that a given class `T` has under their names, and the constraints on its pads are
of a given class `C`. This holds of graphs whether they are resolved or not, and the elementary
changes keep it, at every depth.

The classes are parameters, since some facts hold of every library, and others of the built-in one.
-/

namespace Patchbay

/-! ### First members -/

section

variable {α β : Type} {test : α → Bool} {f : α → α} {a b : α} {l : List α}

theorem mem_updateFirst (h : b ∈ updateFirst test f l) :
    b ∈ l ∨ ∃ a ∈ l, test a = true ∧ b = f a := by
  induction l with
  | nil => simp [updateFirst] at h
  | cons a rest ih =>
    rw [updateFirst] at h
    split at h
    · rename_i ha
      rcases List.mem_cons.mp h with rfl | h
      · exact .inr ⟨a, List.mem_cons_self, ha, rfl⟩
      · exact .inl (List.mem_cons_of_mem _ h)
    · rcases List.mem_cons.mp h with rfl | h
      · exact .inl List.mem_cons_self
      · refine (ih h).imp (List.mem_cons_of_mem _) ?_
        rintro ⟨c, hc, hrest⟩
        exact ⟨c, List.mem_cons_of_mem _ hc, hrest⟩

/-- A change does not show in a part that it keeps. -/
theorem map_updateFirst {g : α → β} (h : ∀ a, g (f a) = g a) :
    (updateFirst test f l).map g = l.map g := by
  induction l with
  | nil => rfl
  | cons a rest ih =>
    rw [updateFirst]
    split
    · simp [h]
    · simp [ih]

/-- A new member does not show in a part that it has in common with the old one. -/
theorem map_set_of_eq {g : α → β} {i : Nat} (h : l[i]? = some a) (hg : g b = g a) :
    (l.set i b).map g = l.map g := by
  obtain ⟨hlt, rfl⟩ := List.getElem?_eq_some_iff.mp h
  have hlt' : i < (l.map g).length := by simpa using hlt
  have hold : g l[i] = (l.map g)[i] := by simp
  rw [List.map_set, hg, hold, List.set_getElem_self]

theorem eraseFirst_sublist : (eraseFirst test l).Sublist l := by
  induction l with
  | nil => exact List.Sublist.refl _
  | cons a rest ih =>
    rw [eraseFirst]
    split
    · exact List.sublist_cons_self a rest
    · exact ih.cons_cons a

end

/-! ### Orderly graphs and fitting nodes -/

/-- A body is of the type that a name stands for; one name (`subgraphType`) is that of all subgraph
nodes. -/
def Body.OfType (T : String → NodeType → Prop) (name : String) : Body → Prop
  | .plugin t => T name t
  | .subgraph .. => name = subgraphType

/-- Valid and distinct node ids, links in order (`Ordered`), types and constraints of given
classes. All of this holds before resolution, too. -/
structure GraphState.Orderly (T : String → NodeType → Prop) (C : Constraints → Prop)
    (s : GraphState) :
    Prop where
  distinct : (s.nodes.map (·.id)).Nodup
  ordered : Ordered s.links
  valid : ∀ e ∈ s.nodes, isValidNodeId e.id = true
  types : ∀ e ∈ s.nodes, e.body.OfType T e.nodeType
  constraints : ∀ e ∈ s.nodes, ∀ p ∈ e.pads, C p.declared ∧ C p.effective

/-- A node that an orderly graph may have, with a graph inside for which `P` holds. With `P` for
"orderly at every depth" it is `NodeEntry.Fit`. -/
structure NodeEntry.FitOver (T : String → NodeType → Prop) (C : Constraints → Prop)
    (P : GraphState → Prop) (e : NodeEntry) : Prop where
  valid : isValidNodeId e.id = true
  types : e.body.OfType T e.nodeType
  constraints : ∀ p ∈ e.pads, C p.declared ∧ C p.effective
  inner : e.body.Inside P

/-- An orderly graph with graphs inside its nodes for which `P` holds. -/
structure GraphState.OrderlyOver (T : String → NodeType → Prop) (C : Constraints → Prop)
    (P : GraphState → Prop) (s : GraphState) : Prop where
  distinct : (s.nodes.map (·.id)).Nodup
  ordered : Ordered s.links
  fit : ∀ e ∈ s.nodes, e.FitOver T C P

/-- A node that a graph may have that is orderly at every depth. -/
abbrev NodeEntry.Fit (T : String → NodeType → Prop) (C : Constraints → Prop) (e : NodeEntry) :
    Prop :=
  e.FitOver T C (GraphState.Everywhere (GraphState.Orderly T C))

variable {T : String → NodeType → Prop} {C : Constraints → Prop} {s s' : GraphState}
  {e e' : NodeEntry}

namespace GraphState

theorem everywhere_orderly_iff :
    s.Everywhere (Orderly T C) ↔
      s.OrderlyOver T C (Everywhere (Orderly T C)) := by
  rw [everywhere_iff]
  constructor
  · rintro ⟨h, hin⟩
    exact ⟨h.distinct, h.ordered, fun e he =>
      ⟨h.valid e he, h.types e he, h.constraints e he, hin e he⟩⟩
  · rintro ⟨hd, ho, hfit⟩
    exact ⟨⟨hd, ho, fun e he => (hfit e he).valid, fun e he => (hfit e he).types,
      fun e he => (hfit e he).constraints⟩, fun e he => (hfit e he).inner⟩

theorem orderly_empty : GraphState.empty.Everywhere (Orderly T C) :=
  everywhere_orderly_iff.mpr ⟨List.nodup_nil, List.Pairwise.nil, fun _ he => by cases he⟩

end GraphState

/-- Whether a node fits does not depend on its editor information, nor on its state. -/
theorem NodeEntry.FitOver.of_eq {P : GraphState → Prop} (h : e.FitOver T C P)
    (hid : e'.id = e.id) (htype : e'.nodeType = e.nodeType) (hpads : e'.pads = e.pads)
    (hbody : e'.body = e.body) : e'.FitOver T C P := by
  refine ⟨hid ▸ h.valid, ?_, ?_, ?_⟩
  · rw [hbody, htype]
    exact h.types
  · rw [hpads]
    exact h.constraints
  · rw [hbody]
    exact h.inner

namespace GraphState

/-! ### Nodes come, go and change -/

theorem contains_iff {id : String} : s.contains id = true ↔ id ∈ s.nodes.map (·.id) := by
  simp only [contains, List.any_eq_true, List.mem_map, beq_iff_eq]

theorem addNode_eq_ok (h : s.addNode e = .ok s') :
    isValidNodeId e.id = true ∧ e.id ∉ s.nodes.map (·.id) ∧
      s' = { s with nodes := s.nodes ++ [e] } := by
  rw [addNode] at h
  split at h
  · cases h
  · rename_i hv
    split at h
    · cases h
    · rename_i hc
      rw [contains_iff] at hc
      exact ⟨by simpa using hv, hc, by simpa using h.symm⟩

theorem orderly_addNode (hs : s.Everywhere (Orderly T C))
    (he : isValidNodeId e.id = true → e.Fit T C) (h : s.addNode e = .ok s') :
    s'.Everywhere (Orderly T C) := by
  obtain ⟨hvalid, hnew, rfl⟩ := addNode_eq_ok h
  obtain ⟨hd, ho, hfit⟩ := everywhere_orderly_iff.mp hs
  refine everywhere_orderly_iff.mpr ⟨?_, ho, fun d hd => ?_⟩
  · rw [List.map_append, List.nodup_append]
    refine ⟨hd, by simp, fun a ha b hb => ?_⟩
    rintro rfl
    simp only [List.map_cons, List.map_nil, List.mem_singleton] at hb
    exact hnew (hb ▸ ha)
  · rcases List.mem_append.mp hd with hd | hd
    · exact hfit d hd
    · rw [List.mem_singleton.mp hd]
      exact he hvalid

/-- A change of a node that keeps its id keeps the graph orderly, if it keeps the node fitting
(`NodeEntry.Fit`). -/
theorem orderly_updateNode {f : NodeEntry → NodeEntry} (id : String)
    (hs : s.Everywhere (Orderly T C)) (hid : ∀ e, (f e).id = e.id)
    (hfit : ∀ e, e.Fit T C → (f e).Fit T C) :
    (s.updateNode id f).Everywhere (Orderly T C) := by
  obtain ⟨hd, ho, hnodes⟩ := everywhere_orderly_iff.mp hs
  refine everywhere_orderly_iff.mpr ⟨?_, ho, fun e he => ?_⟩
  · rw [updateNode, map_updateFirst hid]
    exact hd
  · rcases mem_updateFirst he with he | ⟨d, hd, -, rfl⟩
    · exact hnodes e he
    · exact hfit d (hnodes d hd)

theorem orderly_unresolve (hs : s.Everywhere (Orderly T C)) (id : String) :
    (s.unresolve id).Everywhere (Orderly T C) :=
  orderly_updateNode id hs (fun _ => rfl) fun _ h => h.of_eq rfl rfl rfl rfl

theorem orderly_foldl_unresolve (ids : List String) (hs : s.Everywhere (Orderly T C)) :
    (ids.foldl unresolve s).Everywhere (Orderly T C) := by
  induction ids generalizing s with
  | nil => exact hs
  | cons id rest ih => exact ih (orderly_unresolve hs id)

theorem orderly_updateEditor {id : String} {f : EditorInfo → EditorInfo}
    (hs : s.Everywhere (Orderly T C)) (h : s.updateEditor id f = .ok s') :
    s'.Everywhere (Orderly T C) := by
  rw [updateEditor] at h
  split at h
  · cases h
    exact orderly_updateNode id hs (fun _ => rfl) fun _ h => h.of_eq rfl rfl rfl rfl
  · cases h

/-- Fewer nodes, and other links in order. -/
theorem orderly_of_sublist (hs : s.Everywhere (Orderly T C)) (hn : s'.nodes.Sublist s.nodes)
    (hl : Ordered s'.links) : s'.Everywhere (Orderly T C) := by
  obtain ⟨hd, -, hfit⟩ := everywhere_orderly_iff.mp hs
  exact everywhere_orderly_iff.mpr
    ⟨(hn.map _).nodup hd, hl, fun e he => hfit e (hn.subset he)⟩

theorem orderly_removeNode {id : String} (hs : s.Everywhere (Orderly T C))
    (h : s.removeNode id = .ok (s', e)) : s'.Everywhere (Orderly T C) ∧ e.Fit T C := by
  rw [removeNode] at h
  split at h
  · cases h
  · rename_i d hd
    simp only [Except.ok.injEq, Prod.mk.injEq] at h
    obtain ⟨rfl, rfl⟩ := h
    refine ⟨orderly_foldl_unresolve _ (orderly_of_sublist hs eraseFirst_sublist
      (hs.self.ordered.filter _)), ?_⟩
    exact (everywhere_orderly_iff.mp hs).fit d (List.mem_of_find?_eq_some hd)

/-- A new id in place of another keeps ids distinct. -/
private theorem nodup_map_rename {l : List NodeEntry} {old new : String}
    (hd : (l.map (·.id)).Nodup) (hnew : new ∉ l.map (·.id)) :
    ((updateFirst (fun e => e.id == old) (fun e => { e with id := new }) l).map (·.id)).Nodup := by
  induction l with
  | nil => exact List.nodup_nil
  | cons e rest ih =>
    simp only [List.map_cons, List.nodup_cons, List.mem_cons, not_or] at hd hnew
    rw [updateFirst]
    split
    · simp only [List.map_cons, List.nodup_cons]
      exact ⟨hnew.2, hd.2⟩
    · simp only [List.map_cons, List.nodup_cons]
      refine ⟨fun hmem => ?_, ih hd.2 hnew.2⟩
      obtain ⟨d, hmem, hid⟩ := List.mem_map.mp hmem
      rcases mem_updateFirst hmem with hmem | ⟨c, hc, -, rfl⟩
      · exact hd.1 (List.mem_map.mpr ⟨d, hmem, hid⟩)
      · exact hnew.1 hid

theorem orderly_renameNode {old new : String} (hs : s.Everywhere (Orderly T C))
    (h : s.renameNode old new = .ok s') : s'.Everywhere (Orderly T C) := by
  rw [renameNode] at h
  split at h
  · cases h
    exact hs
  · split at h
    · cases h
    · rename_i hvalid
      split at h
      · cases h
      · rename_i hnew
        split at h
        · cases h
        · cases h
          rw [contains_iff] at hnew
          obtain ⟨hd, -, hfit⟩ := everywhere_orderly_iff.mp hs
          refine everywhere_orderly_iff.mpr
            ⟨nodup_map_rename hd hnew, ordered_renameLinks _ _ _, fun e he => ?_⟩
          rcases mem_updateFirst he with he | ⟨d, hd, -, rfl⟩
          · exact hfit e he
          · exact ⟨by simpa using hvalid, (hfit d hd).types, (hfit d hd).constraints,
              (hfit d hd).inner⟩

/-! ### Links -/

theorem orderly_links (hs : s.Everywhere (Orderly T C)) {links : List Link} (h : Ordered links) :
    ({ s with links := links } : GraphState).Everywhere (Orderly T C) :=
  orderly_of_sublist hs (List.Sublist.refl _) h

theorem orderly_connect {a b : PadRef} {l : Link} (hs : s.Everywhere (Orderly T C))
    (h : s.connect a b = .ok (s', l)) : s'.Everywhere (Orderly T C) := by
  rw [connect] at h
  obtain ⟨l', -, h⟩ := bind_eq_ok_iff.mp h
  obtain ⟨-, -, h⟩ := bind_eq_ok_iff.mp h
  simp only [Except.ok.injEq, Prod.mk.injEq] at h
  obtain ⟨rfl, -⟩ := h
  refine orderly_unresolve (orderly_unresolve ?_ _) _
  have hlinked := orderly_links hs (ordered_insertLink hs.self.ordered l')
  split
  · split
    · exact hlinked
    · exact orderly_unresolve hlinked _
  · exact hlinked

theorem orderly_linkUnchecked {a b : PadRef} (hs : s.Everywhere (Orderly T C))
    (h : s.linkUnchecked a b = .ok s') : s'.Everywhere (Orderly T C) := by
  rw [linkUnchecked] at h
  obtain ⟨l, -, h⟩ := bind_eq_ok_iff.mp h
  have hlinked := orderly_links hs (ordered_insertLink hs.self.ordered l)
  split at h
  · split at h
    · cases h
      exact hlinked
    · cases h
  · cases h
    exact hlinked

theorem orderly_linkAll {links : List Link} (hs : s.Everywhere (Orderly T C))
    (h : s.linkAll links = .ok s') : s'.Everywhere (Orderly T C) := by
  induction links generalizing s with
  | nil =>
    cases h
    exact hs
  | cons l rest ih =>
    rw [linkAll] at h
    obtain ⟨s₁, h₁, h⟩ := bind_eq_ok_iff.mp h
    exact ih (orderly_linkUnchecked hs h₁) h

theorem orderly_disconnect {a b : PadRef} (hs : s.Everywhere (Orderly T C))
    (h : s.disconnect a b = .ok s') : s'.Everywhere (Orderly T C) := by
  rw [disconnect] at h
  obtain ⟨l, -, h⟩ := bind_eq_ok_iff.mp h
  split at h
  · cases h
    exact orderly_unresolve (orderly_unresolve
      (orderly_links hs (hs.self.ordered.filter _)) _) _
  · cases h

end GraphState

/-! ### Values -/

mutual

theorem GraphState.orderly_setValue : ∀ (s : GraphState) {s' : GraphState} {target : PadRef}
    {v : Json}, s.Everywhere (GraphState.Orderly T C) → s.setValue target v = .ok s' →
    s'.Everywhere (GraphState.Orderly T C)
  | ⟨nodes, links⟩, s', target, v, hs, h => by
    rw [GraphState.setValue] at h
    obtain ⟨nodes', hset, rfl⟩ := map_eq_ok_iff.mp h
    obtain ⟨hd, ho, hfit⟩ := GraphState.everywhere_orderly_iff.mp hs
    obtain ⟨hids, hfit'⟩ := fit_setValueIn nodes hfit hset
    exact GraphState.everywhere_orderly_iff.mpr ⟨hids ▸ hd, ho, hfit'⟩

theorem fit_setValueIn : ∀ (nodes : List NodeEntry) {nodes' : List NodeEntry} {target : PadRef}
    {v : Json}, (∀ e ∈ nodes, e.Fit T C) → setValueIn nodes target v = .ok nodes' →
    nodes'.map (·.id) = nodes.map (·.id) ∧ ∀ e ∈ nodes', e.Fit T C
  | [], _, _, _, _, h => by
    rw [setValueIn] at h
    cases h
  | e :: rest, nodes', target, v, hfit, h => by
    rw [setValueIn] at h
    have he := hfit e List.mem_cons_self
    have hrest : ∀ d ∈ rest, d.Fit T C := fun d hd => hfit d (List.mem_cons_of_mem _ hd)
    split at h
    · obtain ⟨e', hset, rfl⟩ := map_eq_ok_iff.mp h
      obtain ⟨hid, he'⟩ := fit_setValue e he hset
      exact ⟨by simp [hid], List.forall_mem_cons.mpr ⟨he', hrest⟩⟩
    · obtain ⟨rest', hset, rfl⟩ := map_eq_ok_iff.mp h
      obtain ⟨hids, hrest'⟩ := fit_setValueIn rest hrest hset
      exact ⟨by simp [hids], List.forall_mem_cons.mpr ⟨he, hrest'⟩⟩

theorem fit_setValue : ∀ (e : NodeEntry) {e' : NodeEntry} {target : PadRef} {v : Json},
    e.Fit T C → e.setValue target v = .ok e' → e'.id = e.id ∧ e'.Fit T C
  | ⟨id, nodeType, editor, pads, state, body⟩, e', target, v, he, h => by
    rw [NodeEntry.setValue] at h
    have hpads : ∀ p ∈ updateFirst (fun q => q.id == target.pad)
        (fun q => { q with value := some v }) pads, C p.declared ∧ C p.effective := by
      intro p hp
      rcases mem_updateFirst hp with hp | ⟨q, hq, -, rfl⟩
      · exact he.constraints p hp
      · exact he.constraints q hq
    split at h
    · cases h
    · split at h
      · cases h
      · split at h
        · cases h
        · split at h
          · cases h
            exact ⟨rfl, he.valid, he.types, hpads, he.inner⟩
          · obtain ⟨body', hset, rfl⟩ := map_eq_ok_iff.mp h
            obtain ⟨htypes, hinner⟩ := fit_bodySetValue body he.types he.inner hset
            exact ⟨rfl, he.valid, htypes, hpads, hinner⟩

theorem fit_bodySetValue : ∀ (b : Body) {b' : Body} {target : PadRef} {v : Json} {name : String},
    b.OfType T name → b.Inside (GraphState.Everywhere (GraphState.Orderly T C)) →
    b.setValue target v = .ok b' →
    b'.OfType T name ∧ b'.Inside (GraphState.Everywhere (GraphState.Orderly T C))
  | .plugin t, b', _, _, _, ht, hin, h => by
    rw [Body.setValue] at h
    cases h
    exact ⟨ht, hin⟩
  | .subgraph id inner, b', target, v, _, ht, hin, h => by
    rw [Body.setValue] at h
    obtain ⟨inner', hset, rfl⟩ := map_eq_ok_iff.mp h
    refine ⟨ht, ?_⟩
    rw [Body.inside_subgraph] at hin ⊢
    exact GraphState.orderly_setValue inner hin hset

end

end Patchbay
