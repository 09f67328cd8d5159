import Patchbay.Graph.Order
import Patchbay.Graph.Resolve
import Patchbay.Proofs.Graph.Orderly

/-!
# Looking up nodes and pads

With distinct ids, a node is found under its id at its place, and a pad of a node under its id.
What is found is not affected by changes elsewhere.
-/

namespace Patchbay

/-! ### Finding in lists -/

section

variable {α : Type} {l : List α} {key : α → String} {a : α} {i : Nat}

/-- With distinct keys, a member is found under its key. -/
theorem find?_of_mem (hnd : (l.map key).Nodup) (ha : a ∈ l) :
    (l.find? fun b => key b == key a) = some a := by
  induction l with
  | nil => cases ha
  | cons b l ih =>
    obtain ⟨hb, hl⟩ := List.nodup_cons.mp hnd
    rcases List.mem_cons.mp ha with rfl | ha
    · simp
    · have hne : key b ≠ key a := fun h => hb (h ▸ List.mem_map_of_mem ha)
      rw [List.find?_cons_of_neg (by simpa using hne)]
      exact ih hl ha

/-- With distinct keys, the place of a member is found under its key. -/
theorem findIdx?_of_getElem? (hnd : (l.map key).Nodup) (ha : l[i]? = some a) :
    (l.findIdx? fun b => key b == key a) = some i := by
  induction l generalizing i with
  | nil => cases ha
  | cons b l ih =>
    obtain ⟨hb, hl⟩ := List.nodup_cons.mp hnd
    cases i with
    | zero =>
      rw [List.getElem?_cons_zero, Option.some.injEq] at ha
      rw [List.findIdx?_cons, ha, if_pos (beq_self_eq_true _)]
    | succ i =>
      rw [List.getElem?_cons_succ] at ha
      have hne : key b ≠ key a := fun h => hb (h ▸ List.mem_map_of_mem (List.mem_of_getElem? ha))
      rw [List.findIdx?_cons]
      simp [hne, ih hl ha]

/-- What is looked for is found in a part of the list that holds all of it. -/
theorem find?_filter_of_imp {p q : α → Bool} (h : ∀ a ∈ l, q a = true → p a = true) :
    (l.filter p).find? q = l.find? q := by
  induction l with
  | nil => rfl
  | cons a l ih =>
    obtain ⟨ha, hl⟩ := List.forall_mem_cons.mp h
    cases hq : q a with
    | true =>
      rw [List.filter_cons_of_pos (ha hq), List.find?_cons_of_pos hq, List.find?_cons_of_pos hq]
    | false =>
      rw [List.find?_cons_of_neg (by simp [hq]), List.filter_cons]
      split
      · rw [List.find?_cons_of_neg (by simp [hq]), ih hl]
      · exact ih hl

/-- A change of the first member with a key does not affect what is found under another one
(`updateFirst`), if it keeps keys. -/
theorem find?_updateFirst {f : α → α} (hf : ∀ a, key (f a) = key a) (k k' : String)
    (l : List α) : ((updateFirst (fun b => key b == k) f l).find? fun b => key b == k') =
      if k' = k then (l.find? fun b => key b == k').map f else l.find? fun b => key b == k' := by
  induction l with
  | nil => simp [updateFirst]
  | cons b l ih =>
    rw [updateFirst]
    by_cases hk : key b = k
    · by_cases hk' : k' = k
      · subst hk'
        simp [hk, hf]
      · have hne : key b ≠ k' := fun h => hk' (h.symm.trans hk)
        simp [hk, hk', hf, Ne.symm hk']
    · by_cases hb : key b = k'
      · have hne : k' ≠ k := fun h => hk (hb.trans h)
        simp [hb, hne]
      · simp [hk, hb, ih]

end

theorem findPad_of_mem {pads : List PadState} {p : PadState} (hnd : (pads.map (·.id)).Nodup)
    (hp : p ∈ pads) : findPad p.id pads = some p :=
  find?_of_mem hnd hp

theorem findPad_eq_some {pads : List PadState} {p : PadState} {id : String}
    (h : findPad id pads = some p) : p ∈ pads ∧ p.id = id :=
  ⟨List.mem_of_find?_eq_some h, by simpa using List.find?_some h⟩

namespace GraphState

variable {s : GraphState} {e : NodeEntry} {i : Nat} {id : String} {p : PadState} {r : PadRef}

/-! ### Finding in graphs -/

theorem node?_of_mem (hnd : (s.nodes.map (·.id)).Nodup) (he : e ∈ s.nodes) :
    s.node? e.id = some e :=
  find?_of_mem hnd he

theorem node?_eq_some (h : s.node? id = some e) : e ∈ s.nodes ∧ e.id = id :=
  ⟨List.mem_of_find?_eq_some h, by simpa using List.find?_some h⟩

theorem indexOf?_of_getElem? (hnd : (s.nodes.map (·.id)).Nodup) (h : s.nodes[i]? = some e) :
    s.indexOf? e.id = some i :=
  findIdx?_of_getElem? hnd h

/-- The place of an id depends on the ids only, so that it is the same all through resolution. -/
theorem indexOf?_congr {t : GraphState} (h : t.nodes.map (·.id) = s.nodes.map (·.id)) :
    t.indexOf? = s.indexOf? := by
  have hmap : ∀ (s : GraphState) (id : String),
      s.indexOf? id = (s.nodes.map (·.id)).findIdx? fun k => k == id := by
    intro s id
    rw [indexOf?, List.findIdx?_map]
    rfl
  funext id
  rw [hmap, hmap, h]

theorem pad?_of_mem (hnd : (s.nodes.map (·.id)).Nodup) (he : e ∈ s.nodes) (id : String) :
    s.pad? ⟨e.id, id⟩ = findPad id e.pads := by
  rw [pad?, node?_of_mem hnd he]
  rfl

theorem pad?_eq_some (h : s.pad? r = some p) :
    ∃ e ∈ s.nodes, e.id = r.node ∧ p ∈ e.pads ∧ p.id = r.pad := by
  obtain ⟨e, he, hp⟩ := Option.bind_eq_some_iff.mp h
  obtain ⟨hmem, hid⟩ := node?_eq_some he
  obtain ⟨hp, hpid⟩ := findPad_eq_some hp
  exact ⟨e, hmem, hid, hp, hpid⟩

/-- The pad at an address is one of the node at its place (`findPad`). -/
theorem pad?_of_indexOf? {r : PadRef} (h : s.indexOf? r.node = some i) :
    s.pad? r = (s.nodes[i]?).bind fun e => findPad r.pad e.pads := by
  have hnode : s.node? r.node = s.nodes[i]? := by
    obtain ⟨hlt, hid, hbefore⟩ := List.findIdx?_eq_some_iff_getElem.mp h
    rw [node?, List.getElem?_eq_getElem hlt]
    refine List.find?_eq_some_iff_getElem.mpr ⟨hid, i, hlt, rfl, fun j hj => ?_⟩
    simpa using hbefore j hj
  rw [pad?, hnode]
  rfl

theorem node?_updateNode {f : NodeEntry → NodeEntry} (hf : ∀ e, (f e).id = e.id)
    (s : GraphState) (id k : String) :
    (s.updateNode id f).node? k = if k = id then (s.node? k).map f else s.node? k :=
  find?_updateFirst hf id k s.nodes

/-- A change of a pad does not affect the others. -/
theorem pad?_updatePad_of_ne {f : PadState → PadState} (hf : ∀ p, (f p).id = p.id) {r r' : PadRef}
    (hne : r' ≠ r) : (s.updatePad r f).pad? r' = s.pad? r' := by
  rw [pad?, updatePad, node?_updateNode, pad?]
  · split
    · rename_i hnode
      have hpad : r'.pad ≠ r.pad := fun h => hne (by cases r; cases r'; simp_all)
      rw [Option.bind_map]
      refine congrArg _ (funext fun e => ?_)
      simp only [Function.comp_apply, NodeEntry.pad?, findPad]
      rw [find?_updateFirst hf, if_neg hpad]
    · rfl
  · exact fun _ => rfl

theorem pad?_updatePad_self {f : PadState → PadState} (hf : ∀ p, (f p).id = p.id) (s : GraphState)
    (r : PadRef) : (s.updatePad r f).pad? r = (s.pad? r).map f := by
  rw [pad?, updatePad, node?_updateNode, pad?, if_pos rfl, Option.bind_map, Option.map_bind]
  · refine congrArg _ (funext fun e => ?_)
    simp only [Function.comp_apply, NodeEntry.pad?, findPad]
    rw [find?_updateFirst hf, if_pos rfl]
  · exact fun _ => rfl

end GraphState

end Patchbay
