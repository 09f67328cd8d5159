import Patchbay.Graph.Load
import Patchbay.Proofs.Graph.WellFormed
import Patchbay.Proofs.Graph.Lookup

/-!
# Links in snapshots

A snapshot of a well-formed graph names the links of the graph, and no others
(`mem_links_toSnapshot`). When they are linked in a graph with the same pads, the table of links is
as before (`linkAll_of_links`).
-/

namespace Patchbay

theorem mem_eraseReps {α : Type} [BEq α] [LawfulBEq α] (l : List α) (x : α) :
    x ∈ l.eraseReps ↔ x ∈ l := by
  have hloop : ∀ (as : List α) (a : α) (acc : List α),
      x ∈ List.eraseRepsBy.loop (· == ·) a as acc ↔ x = a ∨ x ∈ as ∨ x ∈ acc := by
    intro as
    induction as with
    | nil =>
      intro a acc
      simp [List.eraseRepsBy.loop, or_comm]
    | cons b as ih =>
      intro a acc
      rw [List.eraseRepsBy.loop]
      cases hab : a == b with
      | true =>
        rw [ih, List.mem_cons, eq_of_beq hab, or_assoc, or_self_left]
      | false =>
        rw [ih, List.mem_cons, List.mem_cons]
        tauto
  cases l with
  | nil => rfl
  | cons a as =>
    rw [List.eraseReps, List.eraseRepsBy, hloop, List.mem_cons]
    simp

namespace GraphState

variable {s t : GraphState} {l : Link} {e : NodeEntry} {p : PadState}

/-! ### Snapshots of nodes -/

theorem storeNodes_eq (s : GraphState) (es : List NodeEntry) :
    storeNodes s es = es.map (storeNode s) := by
  induction es with
  | nil => rfl
  | cons e rest ih => rw [storeNodes, ih, List.map_cons]

theorem storeNode_eq (s : GraphState) (e : NodeEntry) :
    storeNode s e = ⟨e.id, e.nodeType, e.editor, e.pads.map (storePad s e.id),
      (storeBody e.body).1, (storeBody e.body).2.1, (storeBody e.body).2.2⟩ := by
  cases e
  rfl

theorem toSnapshot_eq (s : GraphState) : s.toSnapshot = ⟨s.nodes.map (storeNode s)⟩ := by
  cases s
  rw [toSnapshot, storeNodes_eq]

/-! ### Links -/

/-- The links that a stored pad names are its own. -/
theorem mem_linksOfPad : l ∈ GraphSnapshot.linksOfPad e.id (storePad s e.id p) ↔
    l ∈ s.links ∧ l.source = ⟨e.id, p.id⟩ ∧ p.isSource = true ∨
      p.isSource = false ∧ l.sink = ⟨e.id, p.id⟩ ∧ s.feeder ⟨e.id, p.id⟩ = some l.source := by
  obtain ⟨source, sink⟩ := l
  cases hp : p.isSource with
  | true =>
    simp only [GraphSnapshot.linksOfPad, storePad, hp, if_true, downstream, List.mem_append,
      List.mem_map, List.mem_filter, Option.toList_none, List.map_nil, List.not_mem_nil]
    constructor
    · rintro (⟨r, ⟨k, ⟨hk, hks⟩, rfl⟩, heq⟩ | h)
      · obtain ⟨rfl, rfl⟩ := Link.mk.inj heq
        have hks : k.source = ⟨e.id, p.id⟩ := by simpa using hks
        refine .inl ⟨?_, rfl, trivial⟩
        rw [← hks]
        exact hk
      · exact h.elim
    · rintro (⟨hl, rfl, -⟩ | h)
      · exact .inl ⟨sink, ⟨_, ⟨hl, beq_self_eq_true _⟩, rfl⟩, rfl⟩
      · cases h.1
  | false =>
    simp only [GraphSnapshot.linksOfPad, storePad, hp, Bool.false_eq_true, if_false, List.map_nil,
      List.nil_append, List.mem_map, Option.mem_toList, and_false, false_or, true_and]
    constructor
    · rintro ⟨r, hr, heq⟩
      obtain ⟨rfl, rfl⟩ := Link.mk.inj heq
      exact ⟨rfl, hr⟩
    · rintro ⟨rfl, hr⟩
      exact ⟨source, hr, rfl⟩

/-- A snapshot names the links of the graph. -/
theorem mem_links_toSnapshot (hs : s.WellFormed) : l ∈ s.toSnapshot.links ↔ l ∈ s.links := by
  rw [GraphSnapshot.links, mem_eraseReps, List.mem_mergeSort, toSnapshot_eq]
  simp only [List.flatMap_map, List.mem_flatMap, storeNode_eq]
  constructor
  · rintro ⟨e, -, p, -, h⟩
    rcases mem_linksOfPad.mp h with ⟨hl, -⟩ | ⟨-, hsink, hfeeder⟩
    · exact hl
    · obtain ⟨k, hk, hks⟩ := Option.map_eq_some_iff.mp hfeeder
      have hksink : k.sink = l.sink := by
        rw [hsink]
        simpa using List.find?_some hk
      have hkl : k = l := by
        cases k
        cases l
        simp_all
      exact hkl ▸ List.mem_of_find?_eq_some hk
  · intro hl
    obtain ⟨p, -, hp, -, hsource, -⟩ := hs.linked l hl
    obtain ⟨e, he, hid, hpads, hpid⟩ := pad?_eq_some hp
    refine ⟨e, he, p, hpads, mem_linksOfPad.mpr (.inl ⟨hl, ?_, hsource⟩)⟩
    rw [hid, hpid]

/-- Linking the links of another graph, pads being the same, puts them in the table. -/
theorem linkAll_of_links (hs : Ordered s.links) (ht : Ordered t.links)
    (hsub : ∀ l ∈ t.links, l ∈ s.links) {links : List Link} (hlinks : ∀ l ∈ links, l ∈ s.links)
    (horient : ∀ l ∈ s.links, ∃ p q, t.pad? l.source = some p ∧ t.pad? l.sink = some q ∧
      p.isSource = true ∧ q.isSource = false) :
    ∃ table, t.linkAll links = .ok { t with links := table } ∧ Ordered table ∧
      ∀ l, l ∈ table ↔ l ∈ t.links ∨ l ∈ links := by
  induction links generalizing t with
  | nil =>
    refine ⟨t.links, ?_, ht, by simp⟩
    cases t
    rfl
  | cons l rest ih =>
    obtain ⟨hl, hrest⟩ := List.forall_mem_cons.mp hlinks
    obtain ⟨p, q, hp, hq, hsource, hsink⟩ := horient l hl
    have horient' : t.orient l.source l.sink = .ok l := by
      have hp' : p.padType.direction = .source := by
        simpa [PadState.isSource, PadType.isSource] using hsource
      have hq' : q.padType.direction = .sink := by
        cases h : q.padType.direction with
        | sink => rfl
        | source => rw [PadState.isSource, PadType.isSource, h] at hsink; cases hsink
      rw [orient, hp, hq]
      simp only [hp', hq']
    have hfeeder : ∀ r, t.feeder l.sink = some r → r = l.source := by
      intro r hr
      obtain ⟨k, hk, rfl⟩ := Option.map_eq_some_iff.mp hr
      have hk' : k.sink = l.sink := by simpa using List.find?_some hk
      rw [hs.eq_of_sink_eq (hsub k (List.mem_of_find?_eq_some hk)) hl hk']
    have hlink :
        t.linkUnchecked l.source l.sink = .ok { t with links := insertLink l t.links } := by
      rw [linkUnchecked, horient']
      simp only [bind, Except.bind]
      cases hf : t.feeder l.sink with
      | none => rfl
      | some r => simp only [hfeeder r hf, if_true]
    have hinsert : ∀ k, k ∈ insertLink l t.links ↔ k = l ∨ k ∈ t.links := by
      refine fun k => ⟨mem_insertLink, ?_⟩
      rintro (rfl | hk)
      · exact mem_insertLink_self _ _
      · by_cases hkl : k.sink = l.sink
        · rw [hs.eq_of_sink_eq (hsub k hk) hl hkl]
          exact mem_insertLink_self _ _
        · exact mem_insertLink_of_ne hk hkl
    obtain ⟨table, htable, hordered, hmem⟩ := ih (t := { t with links := insertLink l t.links })
      (ordered_insertLink ht l)
      (fun k hk => ((hinsert k).mp hk).elim (fun h => h ▸ hl) (hsub k)) hrest horient
    refine ⟨table, ?_, hordered, fun k => ?_⟩
    · rw [linkAll, hlink]
      exact htable
    · rw [hmem, hinsert, List.mem_cons, or_comm (a := k = l), or_assoc]

end GraphState

end Patchbay
