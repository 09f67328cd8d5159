import Mathlib.Data.List.Induction
import Patchbay.Snapshot.Builder
import Patchbay.Proofs.Graph.LinkTable
import Patchbay.Proofs.Graph.Lookup
import Patchbay.Proofs.Graph.Storing

/-!
# What a builder records

Linking a source to a sink is recorded on both pads: the source lists the sink, and the sink names
the source. A sink names one source, the last one that was linked to it; but no source ever takes a
sink off its list. So after any calls in a sensible order (`SnapshotBuilder.Orderly`) a source
lists the sinks of all its links, and a sink names the source of its last link
(`SnapshotBuilder.Records`). The two ends of a sink are in step exactly when all its links have one
source.
-/

namespace Patchbay

/-! ### The order of links -/

namespace Link

variable {k l m : Link}

theorem lt_iff : k.lt l = true ↔
    k.source.lt l.source = true ∨ k.source = l.source ∧ k.sink.lt l.sink = true := by
  simp [lt]

theorem lt_irrefl (l : Link) : ¬ l.lt l = true := by
  rw [lt_iff]
  rintro (h | ⟨-, h⟩) <;> exact PadRef.lt_irrefl _ h

theorem lt_trans (h : k.lt l = true) (h' : l.lt m = true) : k.lt m = true := by
  rw [lt_iff] at *
  rcases h with h | ⟨h, hs⟩ <;> rcases h' with h' | ⟨h', hs'⟩
  · exact .inl (PadRef.lt_trans h h')
  · exact .inl (h' ▸ h)
  · exact .inl (h ▸ h')
  · exact .inr ⟨h.trans h', PadRef.lt_trans hs hs'⟩

theorem lt_or_eq_or_gt (k l : Link) : k.lt l = true ∨ k = l ∨ l.lt k = true := by
  rw [lt_iff, lt_iff]
  rcases PadRef.lt_or_eq_or_gt k.source l.source with h | h | h
  · exact .inl (.inl h)
  · rcases PadRef.lt_or_eq_or_gt k.sink l.sink with h' | h' | h'
    · exact .inl (.inr ⟨h, h'⟩)
    · exact .inr (.inl (by cases k; cases l; simp_all))
    · exact .inr (.inr (.inr ⟨h.symm, h'⟩))
  · exact .inr (.inr (.inl h))

/-- One link does not come after another. -/
def le (k l : Link) : Bool := !l.lt k

theorem le_trans (h : k.le l = true) (h' : l.le m = true) : k.le m = true := by
  simp only [le, Bool.not_eq_true', Bool.eq_false_iff] at *
  intro hmk
  rcases lt_or_eq_or_gt k l with hkl | rfl | hlk
  · exact h' (lt_trans hmk hkl)
  · exact h' hmk
  · exact h hlk

theorem le_total (k l : Link) : (k.le l || l.le k) = true := by
  rw [Bool.or_eq_true]
  by_cases h : l.lt k = true
  · exact .inr (by simpa [le] using fun h' => lt_irrefl k (lt_trans h' h))
  · exact .inl (by simpa [le] using h)

theorem le_antisymm (h : k.le l = true) (h' : l.le k = true) : k = l := by
  simp only [le, Bool.not_eq_true', Bool.eq_false_iff] at h h'
  exact ((lt_or_eq_or_gt k l).resolve_left h').resolve_right h

theorem pairwise_mergeSort (ls : List Link) : (ls.mergeSort le).Pairwise fun k l => k.le l =
    true := by
  have htrans : ∀ k l m : Link, k.le l = true → l.le m = true → k.le m = true :=
    fun _ _ _ => le_trans
  exact List.pairwise_mergeSort htrans le_total ls

end Link

/-- A list in order has no repeats when the runs of equal members are cut down to one. -/
theorem nodup_eraseReps {α : Type} [BEq α] [LawfulBEq α] {l : List α} (le : α → α → Bool)
    (htrans : ∀ {a b c}, le a b = true → le b c = true → le a c = true)
    (hantisymm : ∀ {a b}, le a b = true → le b a = true → a = b)
    (hl : l.Pairwise fun a b => le a b = true) :
    l.eraseReps.Nodup := by
  have hloop : ∀ (as : List α) (a : α) (acc : List α),
      (a :: as).Pairwise (fun a b => le a b = true) →
      (∀ x ∈ acc, le x a = true ∧ x ≠ a) → acc.Nodup →
      (List.eraseRepsBy.loop (· == ·) a as acc).Nodup := by
    intro as
    induction as with
    | nil =>
      intro a acc _ hacc hnd
      rw [List.eraseRepsBy.loop, List.nodup_reverse]
      exact List.nodup_cons.mpr ⟨fun h => (hacc a h).2 rfl, hnd⟩
    | cons b as ih =>
      intro a acc hsorted hacc hnd
      obtain ⟨ha, has⟩ := List.pairwise_cons.mp hsorted
      have hab := ha b List.mem_cons_self
      rw [List.eraseRepsBy.loop]
      cases hb : a == b with
      | true =>
        obtain rfl := eq_of_beq hb
        exact ih a acc has hacc hnd
      | false =>
        have hne : a ≠ b := ne_of_beq_false hb
        refine ih b (a :: acc) has (List.forall_mem_cons.mpr ⟨⟨hab, hne⟩, fun x hx => ?_⟩)
          (List.nodup_cons.mpr ⟨fun h => (hacc a h).2 rfl, hnd⟩)
        obtain ⟨hxa, hxne⟩ := hacc x hx
        refine ⟨htrans hxa hab, fun hxb => hxne ?_⟩
        subst hxb
        exact hantisymm hxa hab
  cases l with
  | nil => exact List.nodup_nil
  | cons a as => exact hloop as a [] hl (fun x hx => absurd hx List.not_mem_nil) List.nodup_nil

/-! ### Pads of a snapshot -/

namespace GraphSnapshot

/-- A pad stands in a snapshot under an address. -/
def Has (g : GraphSnapshot) (r : PadRef) (p : PadSnapshot) : Prop :=
  ∃ n ∈ g.nodes, n.id = r.node ∧ p ∈ n.pads ∧ p.id = r.pad

/-- A source lists a sink. -/
def Lists (g : GraphSnapshot) (source sink : PadRef) : Prop :=
  ∃ p, g.Has source p ∧ sink ∈ p.nextPads

/-- A sink names a source. -/
def Names (g : GraphSnapshot) (source sink : PadRef) : Prop :=
  ∃ p, g.Has sink p ∧ p.previousPad = some source

/-- The links of a snapshot are those that one of the two ends names. -/
theorem mem_links (g : GraphSnapshot) (l : Link) :
    l ∈ g.links ↔ g.Lists l.source l.sink ∨ g.Names l.source l.sink := by
  obtain ⟨source, sink⟩ := l
  rw [links, mem_eraseReps, List.mem_mergeSort, List.mem_flatMap]
  simp only [List.mem_flatMap, linksOfPad, List.mem_append, List.mem_map, Option.mem_toList,
    Link.mk.injEq]
  constructor
  · rintro ⟨n, hn, p, hp, ⟨next, hnext, rfl, rfl⟩ | ⟨previous, hprevious, rfl, rfl⟩⟩
    · exact .inl ⟨p, ⟨n, hn, rfl, hp, rfl⟩, hnext⟩
    · exact .inr ⟨p, ⟨n, hn, rfl, hp, rfl⟩, hprevious⟩
  · rintro (⟨p, ⟨n, hn, hid, hp, hpid⟩, h⟩ | ⟨p, ⟨n, hn, hid, hp, hpid⟩, h⟩)
    · exact ⟨n, hn, p, hp, .inl ⟨sink, h, by rw [hid, hpid], rfl⟩⟩
    · exact ⟨n, hn, p, hp, .inr ⟨source, h, rfl, by rw [hid, hpid]⟩⟩

theorem nodup_links (g : GraphSnapshot) : g.links.Nodup :=
  nodup_eraseReps Link.le Link.le_trans Link.le_antisymm (Link.pairwise_mergeSort _)

end GraphSnapshot

namespace SnapshotBuilder

/-! ### Calls -/

/-- A call of the builder. -/
inductive Call where
  | node (id nodeType : String)
  | subgraph (type id : String) (subgraphId : Option String) (graph : GraphSnapshot)
  | place (x y : Double)
  | name (name : String)
  | value (pad : String) (v : Json)
  | connect (source sink : PadRef)

/-- The builder after a call. -/
def call (b : SnapshotBuilder) : Call → SnapshotBuilder
  | .node id type => b.addNode id type
  | .subgraph type id subgraphId graph => b.addSubgraph type id subgraphId graph
  | .place x y => b.placed x y
  | .name name => b.named name
  | .value pad v => b.withValue pad v
  | .connect source sink => b.connect source sink

/-- The builder after calls on a new one. -/
def after (calls : List Call) : SnapshotBuilder := calls.foldl call {}

/-- The id of the node that a call adds. -/
def Call.added? : Call → Option String
  | .node id _ => some id
  | .subgraph _ id _ _ => some id
  | _ => none

/-- The link that a call makes. -/
def Call.link? : Call → Option Link
  | .connect source sink => some ⟨source, sink⟩
  | _ => none

/-- The ids of the nodes that calls add. -/
def added (calls : List Call) : List String := calls.filterMap Call.added?

/-- The links that calls make, in the order of the calls. -/
def linked (calls : List Call) : List Link := calls.filterMap Call.link?

/-- The source that calls have linked to a sink last. -/
def upstream? (calls : List Call) (sink : PadRef) : Option PadRef :=
  ((linked calls).filter fun l => l.sink = sink).getLast?.map (·.source)

/-- Calls in a sensible order: no two nodes have one id, links are made between nodes that are
there, and no pad is the source of one link and the sink of another. -/
structure Orderly (calls : List Call) : Prop where
  distinct : (added calls).Nodup
  present : ∀ i source sink, calls[i]? = some (.connect source sink) →
    source.node ∈ added (calls.take i) ∧ sink.node ∈ added (calls.take i)
  apart : ∀ l ∈ linked calls, ∀ m ∈ linked calls, l.source ≠ m.sink

theorem after_append (calls : List Call) (c : Call) :
    after (calls ++ [c]) = (after calls).call c :=
  List.foldl_concat call {} c calls

theorem added_append (calls : List Call) (c : Call) :
    added (calls ++ [c]) = added calls ++ c.added?.toList := by
  rw [added, List.filterMap_append, List.filterMap_cons, List.filterMap_nil]
  cases c.added? <;> rfl

theorem linked_append (calls : List Call) (c : Call) :
    linked (calls ++ [c]) = linked calls ++ c.link?.toList := by
  rw [linked, List.filterMap_append, List.filterMap_cons, List.filterMap_nil]
  cases c.link? <;> rfl

/-- Calls in a sensible order were so before the last one. -/
theorem Orderly.init {calls : List Call} {c : Call} (h : Orderly (calls ++ [c])) :
    Orderly calls := by
  refine ⟨?_, fun i source sink hi => ?_, fun l hl m hm => ?_⟩
  · have hdistinct := h.distinct
    rw [added_append] at hdistinct
    exact (List.nodup_append.mp hdistinct).1
  · have hlt := (List.getElem?_eq_some_iff.mp hi).1
    have hpresent := h.present i source sink (by rwa [List.getElem?_append_left hlt])
    rwa [List.take_append_of_le_length (Nat.le_of_lt hlt)] at hpresent
  · refine h.apart l ?_ m ?_ <;> rw [linked_append] <;> exact List.mem_append_left _ ‹_›

theorem upstream?_append_connect (calls : List Call) (source sink r : PadRef) :
    upstream? (calls ++ [.connect source sink]) r = if r = sink then some source
    else upstream? calls r := by
  rw [upstream?, linked_append, List.filter_append]
  by_cases hr : r = sink
  · simp [Call.link?, hr]
  · simp [Call.link?, hr, Ne.symm hr, upstream?]

theorem mem_linked_of_upstream? {calls : List Call} {source sink : PadRef}
    (h : upstream? calls sink = some source) : ⟨source, sink⟩ ∈ linked calls := by
  obtain ⟨l, hlast, rfl⟩ := Option.map_eq_some_iff.mp h
  obtain ⟨hl, hsink⟩ := List.mem_filter.mp (List.mem_of_getLast? hlast)
  obtain rfl := of_decide_eq_true hsink
  exact hl

theorem exists_upstream? {calls : List Call} {l : Link} (h : l ∈ linked calls) :
    ∃ source, upstream? calls l.sink = some source := by
  have hne : (linked calls).filter (fun m => m.sink = l.sink) ≠ [] :=
    List.ne_nil_of_mem (List.mem_filter.mpr ⟨h, decide_eq_true rfl⟩)
  exact ⟨_, by rw [upstream?, List.getLast?_eq_some_getLast hne, Option.map_some]⟩

/-! ### Pads of a builder -/

variable {b : SnapshotBuilder} {r source sink : PadRef} {p : PadSnapshot} {calls : List Call}

/-- The pad of a list under an id. -/
abbrev find (id : String) (pads : List PadSnapshot) : Option PadSnapshot :=
  pads.find? fun p => p.id == id

/-- The pad under an address. -/
def pad? (b : SnapshotBuilder) (r : PadRef) : Option PadSnapshot :=
  (b.nodes.find? fun n => n.id == r.node).bind fun n => find r.pad n.pads

/-- Every pad of a node has an id of its own. -/
def Keyed (n : NodeSnapshot) : Prop := (n.pads.map (·.id)).Nodup

theorem updateNode_eq (id : String) (f : NodeSnapshot → NodeSnapshot) (ns : List NodeSnapshot) :
    updateNode id f ns = updateFirst (fun n => n.id == id) f ns := by
  induction ns with
  | nil => rfl
  | cons n ns ih => rw [updateNode, updateFirst, ih]

theorem find_updatePad {f : PadSnapshot → PadSnapshot} (hf : ∀ p, (f p).id = p.id) (id k : String)
    (provisional : PadType) (pads : List PadSnapshot) : find k (updatePad id provisional f pads) =
      if k = id then some (f ((find k pads).getD { id := id, padType := provisional }))
      else find k pads := by
  induction pads with
  | nil =>
    by_cases hk : k = id
    · simp [updatePad, hf, hk]
    · simp [updatePad, hf, hk, Ne.symm hk]
  | cons p pads ih =>
    rw [updatePad]
    by_cases hp : p.id = id
    · by_cases hk : k = id
      · simp [hp, hk, hf]
      · simp [hp, hk, hf, Ne.symm hk]
    · by_cases hk : p.id = k
      · have hne : k ≠ id := fun h => hp (hk.trans h)
        simp [hk, hne]
      · simpa [hp, hk] using ih

theorem map_id_updatePad {f : PadSnapshot → PadSnapshot} (hf : ∀ p, (f p).id = p.id) (id : String)
    (provisional : PadType) (pads : List PadSnapshot) :
    (updatePad id provisional f pads).map (·.id) =
      if id ∈ pads.map (·.id) then pads.map (·.id) else pads.map (·.id) ++ [id] := by
  induction pads with
  | nil => simp [updatePad, hf]
  | cons p pads ih =>
    rw [updatePad]
    by_cases hp : p.id = id
    · simp [hp, hf]
    · by_cases hmem : id ∈ pads.map (·.id) <;>
        simp_all [Ne.symm hp]

/-- The node with one of its pads changed. -/
def touchNode (id : String) (provisional : PadType) (f : PadSnapshot → PadSnapshot)
    (n : NodeSnapshot) :
    NodeSnapshot :=
  { n with pads := updatePad id provisional f n.pads }

theorem keyed_touchNode {f : PadSnapshot → PadSnapshot} (hf : ∀ p, (f p).id = p.id)
    {n : NodeSnapshot}
    (h : Keyed n) (id : String) (provisional : PadType) :
    Keyed (touchNode id provisional f n) := by
  rw [Keyed, touchNode, map_id_updatePad hf]
  split
  · exact h
  · rename_i hid
    exact List.nodup_append.mpr ⟨h, List.nodup_singleton id, fun a ha b hb hab =>
      hid (by rwa [← List.mem_singleton.mp hb, ← hab])⟩

/-- The builder with the pad under an address changed. -/
def touch (b : SnapshotBuilder) (r : PadRef) (provisional : PadType)
    (f : PadSnapshot → PadSnapshot) :
    SnapshotBuilder :=
  ⟨updateNode r.node (touchNode r.pad provisional f) b.nodes⟩

theorem connect_eq (b : SnapshotBuilder) (source sink : PadRef) : b.connect source sink =
    (b.touch source .statelessSource (feeding sink)).touch sink .statelessSink (fedBy source) :=
    rfl

theorem mem_ids_iff {b : SnapshotBuilder} {id : String} :
    id ∈ b.nodes.map (·.id) ↔ ∃ n, (b.nodes.find? fun n => n.id == id) = some n := by
  rw [← Option.isSome_iff_exists, List.find?_isSome, List.mem_map]
  simp only [beq_iff_eq]

theorem pad?_touch (f : PadSnapshot → PadSnapshot) (hf : ∀ p, (f p).id = p.id)
    (hr : r.node ∈ b.nodes.map (·.id)) (provisional : PadType) (k : PadRef) :
    (b.touch r provisional f).pad? k =
      if k = r then some (f ((b.pad? r).getD { id := r.pad, padType := provisional }))
      else b.pad? k := by
  obtain ⟨n, hn⟩ := mem_ids_iff.mp hr
  have hfind : ((b.touch r provisional f).nodes.find? fun m => m.id == k.node) =
      if k.node = r.node then (b.nodes.find? fun m => m.id == k.node).map
      (touchNode r.pad provisional f)
      else b.nodes.find? fun m => m.id == k.node := by
    rw [touch, updateNode_eq]
    have hid : ∀ m, (touchNode r.pad provisional f m).id = m.id := fun _ => rfl
    exact find?_updateFirst hid r.node k.node b.nodes
  rw [pad?, hfind]
  by_cases hnode : k.node = r.node
  · rw [if_pos hnode, pad?, pad?, hnode, hn, Option.map_some, Option.bind_some, Option.bind_some,
      touchNode, find_updatePad hf]
    by_cases hpad : k.pad = r.pad
    · have hk : k = r := by
        cases k
        cases r
        simp_all
      rw [if_pos hpad, if_pos hk, hpad]
    · rw [if_neg hpad, if_neg fun h : k = r => hpad (h ▸ rfl), Option.bind_some]
  · rw [if_neg hnode, if_neg fun h : k = r => hnode (h ▸ rfl), pad?]

/-- The sinks that the pad under an address lists. -/
def nexts (b : SnapshotBuilder) (r : PadRef) : List PadRef := ((b.pad? r).map (·.nextPads)).getD []

/-- The source that the pad under an address names. -/
def previous (b : SnapshotBuilder) (r : PadRef) : Option PadRef := (b.pad? r).bind (·.previousPad)

theorem nexts_touch (f : PadSnapshot → PadSnapshot) (change : List PadRef → List PadRef)
    (hf : ∀ p, (f p).id = p.id) (hchange : ∀ p, (f p).nextPads = change p.nextPads)
    (hr : r.node ∈ b.nodes.map (·.id)) (provisional : PadType) (k : PadRef) :
    (b.touch r provisional f).nexts k = if k = r then change (b.nexts r) else b.nexts k := by
  rw [nexts, pad?_touch f hf hr]
  split
  · rw [Option.map_some, Option.getD_some, hchange, nexts]
    cases b.pad? r <;> rfl
  · rfl

theorem nexts_touch_of_eq (f : PadSnapshot → PadSnapshot) (hf : ∀ p, (f p).id = p.id)
    (hsame : ∀ p, (f p).nextPads = p.nextPads) (hr : r.node ∈ b.nodes.map (·.id))
    (provisional : PadType)
    (k : PadRef) : (b.touch r provisional f).nexts k = b.nexts k := by
  rw [nexts_touch f id hf hsame hr]
  split
  · rename_i hk
    rw [hk, id]
  · rfl

theorem previous_touch (f : PadSnapshot → PadSnapshot) (change : Option PadRef → Option PadRef)
    (hf : ∀ p, (f p).id = p.id) (hchange : ∀ p, (f p).previousPad = change p.previousPad)
    (hr : r.node ∈ b.nodes.map (·.id)) (provisional : PadType) (k : PadRef) :
    (b.touch r provisional f).previous k = if k = r then change (b.previous r)
    else b.previous k := by
  rw [previous, pad?_touch f hf hr]
  split
  · rw [Option.bind_some, hchange, previous]
    cases b.pad? r <;> rfl
  · rfl

theorem previous_touch_of_eq (f : PadSnapshot → PadSnapshot) (hf : ∀ p, (f p).id = p.id)
    (hsame : ∀ p, (f p).previousPad = p.previousPad) (hr : r.node ∈ b.nodes.map (·.id))
    (provisional : PadType) (k : PadRef) :
    (b.touch r provisional f).previous k = b.previous k := by
  rw [previous_touch f id hf hsame hr]
  split
  · rename_i hk
    rw [hk, id]
  · rfl

theorem map_id_touch (b : SnapshotBuilder) (r : PadRef) (provisional : PadType)
    (f : PadSnapshot → PadSnapshot) : (b.touch r provisional f).nodes.map (·.id) = b.nodes.map
    (·.id) := by
  rw [touch, updateNode_eq]
  exact map_updateFirst fun _ => rfl

theorem keyed_touch (f : PadSnapshot → PadSnapshot) (hf : ∀ p, (f p).id = p.id)
    (hb : ∀ n ∈ b.nodes, Keyed n) (r : PadRef) (provisional : PadType) :
    ∀ n ∈ (b.touch r provisional f).nodes, Keyed n := by
  intro n hn
  rw [touch, updateNode_eq] at hn
  rcases mem_updateFirst hn with hn | ⟨m, hm, -, rfl⟩
  · exact hb n hn
  · exact keyed_touchNode hf (hb m hm) r.pad provisional

/-- A pad that lists sinks is a source, and one that names a source is a sink. -/
def Plays (p : PadSnapshot) : Prop :=
  (p.nextPads ≠ [] → p.padType.direction = .source) ∧
    (p.previousPad ≠ none → p.padType.direction = .sink)

theorem plays_touch (f : PadSnapshot → PadSnapshot) (hf : ∀ p, (f p).id = p.id)
    (hr : r.node ∈ b.nodes.map (·.id)) {provisional : PadType}
    (hb : ∀ k p, b.pad? k = some p → Plays p)
    (hnew : Plays (f ((b.pad? r).getD { id := r.pad, padType := provisional }))) :
    ∀ k p, (b.touch r provisional f).pad? k = some p → Plays p := by
  intro k p hp
  rw [pad?_touch f hf hr] at hp
  split at hp
  · exact Option.some_inj.mp hp ▸ hnew
  · exact hb k p hp

/-! ### What is recorded along the calls -/

/-- The builder has recorded the calls. -/
structure Tracks (calls : List Call) (b : SnapshotBuilder) : Prop where
  ids : b.nodes.map (·.id) = added calls
  keyed : ∀ n ∈ b.nodes, Keyed n
  next : ∀ source sink, sink ∈ b.nexts source ↔ ⟨source, sink⟩ ∈ linked calls
  once : ∀ r, (b.nexts r).Nodup
  previous : ∀ sink, b.previous sink = upstream? calls sink
  plays : ∀ r p, b.pad? r = some p → Plays p

/-- Calls that leave pads and links alone are recorded where the nodes are. -/
theorem Tracks.of_pad? {calls' : List Call} {b' : SnapshotBuilder} (h : Tracks calls b)
    (hids : b'.nodes.map (·.id) = added calls') (hkeyed : ∀ n ∈ b'.nodes, Keyed n)
    (hpad : ∀ r, b'.pad? r = b.pad? r) (hlinked : linked calls' = linked calls) :
    Tracks calls' b' where
  ids := hids
  keyed := hkeyed
  next source sink := by rw [nexts, hpad, hlinked, ← h.next, nexts]
  once r := by rw [nexts, hpad]; exact h.once r
  previous sink := by
    rw [SnapshotBuilder.previous, hpad, upstream?, hlinked]; exact h.previous sink
  plays r p hp := h.plays r p (by rwa [← hpad])

/-- A new node has no pads. -/
theorem Tracks.push (h : Tracks calls b) {n : NodeSnapshot} (hpads : n.pads = []) {c : Call}
    (hadded : c.added? = some n.id) (hlink : c.link? = none) : Tracks (calls ++ [c])
    ⟨b.nodes ++ [n]⟩ := by
  refine h.of_pad? ?_ (fun m hm => ?_) (fun r => ?_) ?_
  · rw [List.map_append, h.ids, added_append, hadded]
    rfl
  · rcases List.mem_append.mp hm with hm | hm
    · exact h.keyed m hm
    · rw [List.mem_singleton.mp hm, Keyed, hpads]
      exact List.nodup_nil
  · rw [pad?, pad?, List.find?_append]
    cases b.nodes.find? fun m => m.id == r.node with
    | some m => rfl
    | none =>
      rw [Option.none_or, List.find?_singleton]
      split <;> simp [hpads]
  · rw [linked_append, hlink, Option.toList_none, List.append_nil]

theorem map_updateLast {β : Type} {f : NodeSnapshot → NodeSnapshot} {g : NodeSnapshot → β}
    (h : ∀ n, g (f n) = g n) (ns : List NodeSnapshot) : (updateLast f ns).map g = ns.map g := by
  induction ns with
  | nil => rfl
  | cons n ns ih =>
    cases ns with
    | nil => simp [updateLast, h]
    | cons m ns =>
      rw [updateLast, List.map_cons, ih]
      rfl

/-- With distinct ids the last node is the first one under its id. -/
theorem updateLast_eq {f : NodeSnapshot → NodeSnapshot} {ns : List NodeSnapshot} {n : NodeSnapshot}
    (hnd : (ns.map (·.id)).Nodup) (hn : ns.getLast? = some n) :
    updateLast f ns = updateNode n.id f ns := by
  induction ns with
  | nil => cases hn
  | cons m ns ih =>
    cases ns with
    | nil =>
      obtain rfl := Option.some_inj.mp hn
      simp [updateLast, updateNode]
    | cons k ns =>
      obtain ⟨hm, hnd⟩ := List.nodup_cons.mp hnd
      rw [List.getLast?_cons_cons] at hn
      have hne : m.id ≠ n.id := fun h => hm (List.mem_map.mpr ⟨n, List.mem_of_getLast? hn, h.symm⟩)
      rw [updateLast, ih hnd hn]
      exact (if_neg (by simpa using hne)).symm

/-- What a pad is found by is the ids of the nodes and their pads. -/
theorem pad?_congr {b b' : SnapshotBuilder}
    (h : b'.nodes.map (fun n => (n.id, n.pads)) = b.nodes.map fun n => (n.id, n.pads))
    (r : PadRef) :
    b'.pad? r = b.pad? r := by
  have hpad (b : SnapshotBuilder) : b.pad? r =
      ((b.nodes.map fun n => (n.id, n.pads)).find? fun n => n.1 == r.node).bind fun n =>
      find r.pad n.2 := by
    rw [List.find?_map, Option.bind_map]
    rfl
  rw [hpad, hpad, h]

/-- Names and places of nodes are not about pads. -/
theorem Tracks.onLast (h : Tracks calls b) {f : NodeSnapshot → NodeSnapshot}
    (hf : ∀ n, ((f n).id, (f n).pads) = (n.id, n.pads)) {c : Call} (hadded : c.added? = none)
    (hlink : c.link? = none) : Tracks (calls ++ [c]) (b.onLast f) := by
  have hkept : (updateLast f b.nodes).map (fun n => (n.id, n.pads)) = b.nodes.map fun n =>
      (n.id, n.pads) :=
    map_updateLast hf b.nodes
  refine h.of_pad? ?_ (fun n hn => ?_) (pad?_congr hkept) ?_
  · rw [added_append, hadded, Option.toList_none, List.append_nil, ← h.ids]
    exact map_updateLast (fun n => congrArg Prod.fst (hf n)) b.nodes
  · have hmem : (n.id, n.pads) ∈ b.nodes.map fun n => (n.id, n.pads) :=
      hkept ▸ List.mem_map_of_mem hn
    obtain ⟨m, hm, heq⟩ := List.mem_map.mp hmem
    obtain ⟨-, hpads⟩ := Prod.mk.inj heq
    rw [Keyed, ← hpads]
    exact h.keyed m hm
  · rw [linked_append, hlink, Option.toList_none, List.append_nil]

/-- A value is about no link. -/
theorem Tracks.value (h : Tracks calls b) (hnd : (added calls).Nodup) (pad : String) (v : Json) :
    Tracks (calls ++ [.value pad v]) (b.withValue pad v) := by
  have hadded : added (calls ++ [.value pad v]) = added calls := by
    rw [added_append]
    exact List.append_nil _
  have hlinked : linked (calls ++ [.value pad v]) = linked calls := by
    rw [linked_append]
    exact List.append_nil _
  cases hlast : b.nodes.getLast? with
  | none =>
    have hnil := List.getLast?_eq_none_iff.mp hlast
    have heq : b.withValue pad v = b := by
      obtain ⟨nodes⟩ := b
      subst hnil
      rfl
    rw [heq]
    exact h.of_pad? (h.ids.trans hadded.symm) h.keyed (fun _ => rfl) hlinked
  | some n =>
    have hr : (⟨n.id, pad⟩ : PadRef).node ∈ b.nodes.map (·.id) :=
      List.mem_map_of_mem (List.mem_of_getLast? hlast)
    have heq : b.withValue pad v = b.touch ⟨n.id, pad⟩ .propertySink (holding v) :=
      congrArg SnapshotBuilder.mk (updateLast_eq (h.ids ▸ hnd) hlast)
    have hnexts (r : PadRef) : (b.withValue pad v).nexts r = b.nexts r := by
      rw [heq]
      exact nexts_touch_of_eq (holding v) (fun _ => rfl) (fun _ => rfl) hr _ r
    have hprevious (r : PadRef) : (b.withValue pad v).previous r = b.previous r := by
      rw [heq]
      exact previous_touch_of_eq (holding v) (fun _ => rfl) (fun _ => rfl) hr _ r
    refine ⟨?_, ?_, fun source sink => ?_, fun r => ?_, fun sink => ?_, ?_⟩
    · rw [heq, map_id_touch, h.ids, hadded]
    · exact heq ▸ keyed_touch (holding v) (fun _ => rfl) h.keyed _ _
    · rw [hnexts, h.next, hlinked]
    · rw [hnexts]
      exact h.once r
    · rw [hprevious, h.previous, upstream?, upstream?, hlinked]
    · rw [heq]
      refine plays_touch (holding v) (fun _ => rfl) hr h.plays ?_
      cases hp : b.pad? ⟨n.id, pad⟩ with
      | none => exact ⟨fun hne => absurd rfl hne, fun hne => absurd rfl hne⟩
      | some p => exact h.plays _ p hp

/-- The list of a source with a sink on it. -/
def withSink (sink : PadRef) (sinks : List PadRef) : List PadRef :=
  if sinks.contains sink then sinks else sinks ++ [sink]

theorem mem_withSink {sinks : List PadRef} : r ∈ withSink sink sinks ↔ r = sink ∨ r ∈ sinks := by
  rw [withSink]
  split
  · rename_i hmem
    rw [List.contains_iff_mem] at hmem
    exact ⟨.inr, fun h => h.elim (fun h => h ▸ hmem) id⟩
  · rw [List.mem_append, List.mem_singleton, or_comm]

theorem nodup_withSink {sinks : List PadRef} (h : sinks.Nodup) (sink : PadRef) :
    (withSink sink sinks).Nodup := by
  rw [withSink]
  split
  · exact h
  · rename_i hmem
    rw [List.contains_iff_mem] at hmem
    exact List.nodup_append.mpr ⟨h, List.nodup_singleton sink, fun a ha b hb hab =>
      hmem (by rwa [← List.mem_singleton.mp hb, ← hab])⟩

theorem nextPads_getD (b : SnapshotBuilder) (r : PadRef) {p : PadSnapshot} (hp : p.nextPads = []) :
    ((b.pad? r).getD p).nextPads = b.nexts r := by
  rw [nexts]
  cases b.pad? r with
  | none => exact hp
  | some _ => rfl

theorem previousPad_getD (b : SnapshotBuilder) (r : PadRef) {p : PadSnapshot}
    (hp : p.previousPad = none) :
    ((b.pad? r).getD p).previousPad = b.previous r := by
  rw [SnapshotBuilder.previous]
  cases b.pad? r with
  | none => exact hp
  | some _ => rfl

/-- A pad that lists sinks is the source of a link. -/
theorem Tracks.exists_sink (h : Tracks calls b) (hr : b.nexts r ≠ []) :
    ∃ sink, ⟨r, sink⟩ ∈ linked calls := by
  obtain ⟨sink, hsink⟩ := List.exists_mem_of_ne_nil _ hr
  exact ⟨sink, (h.next r sink).mp hsink⟩

/-- A pad that names a source is the sink of a link. -/
theorem Tracks.exists_source (h : Tracks calls b) (hr : b.previous r ≠ none) :
    ∃ source, ⟨source, r⟩ ∈ linked calls := by
  obtain ⟨source, hsource⟩ := Option.ne_none_iff_exists'.mp (h.previous r ▸ hr)
  exact ⟨source, mem_linked_of_upstream? hsource⟩

/-- A link is recorded on both ends. -/
theorem Tracks.connect (h : Tracks calls b) (hsource : source.node ∈ added calls)
    (hsink : sink.node ∈ added calls)
    (hapart : ∀ l ∈ linked (calls ++ [.connect source sink]),
      ∀ m ∈ linked (calls ++ [.connect source sink]), l.source ≠ m.sink) :
    Tracks (calls ++ [.connect source sink]) (b.connect source sink) := by
  have hadded : added (calls ++ [.connect source sink]) = added calls := by
    rw [added_append]
    exact List.append_nil _
  have hlinked : linked (calls ++ [.connect source sink]) = linked calls ++ [⟨source, sink⟩] :=
    linked_append calls _
  rw [hlinked] at hapart
  have hnew : (⟨source, sink⟩ : Link) ∈ linked calls ++ [⟨source, sink⟩] :=
    List.mem_append_right _ (List.mem_singleton_self _)
  rw [← h.ids] at hsource hsink
  generalize hfed : b.touch source .statelessSource (feeding sink) = fed
  have hids : fed.nodes.map (·.id) = b.nodes.map (·.id) := hfed ▸ map_id_touch b _ _ _
  have heq : b.connect source sink = fed.touch sink .statelessSink (fedBy source) := by
    rw [connect_eq, hfed]
  rw [← hids] at hsink
  have hnexts (r : PadRef) : (b.connect source sink).nexts r =
      if r = source then withSink sink (b.nexts source) else b.nexts r := by
    rw [heq, nexts_touch_of_eq (fedBy source) (fun _ => rfl) (fun _ => rfl) hsink, ← hfed]
    exact nexts_touch (feeding sink) (withSink sink) (fun _ => rfl) (fun _ => rfl) hsource _ r
  have hprevious (r : PadRef) : (b.connect source sink).previous r =
      if r = sink then some source else b.previous r := by
    rw [heq, previous_touch (fedBy source) (fun _ => some source) (fun _ => rfl)
      (fun _ => rfl) hsink, ← hfed,
      previous_touch_of_eq (feeding sink) (fun _ => rfl) (fun _ => rfl) hsource]
  refine ⟨?_, ?_, fun source' sink' => ?_, fun r => ?_, fun r => ?_, ?_⟩
  · rw [heq, map_id_touch, hids, h.ids, hadded]
  · rw [heq, ← hfed]
    exact keyed_touch (fedBy source) (fun _ => rfl)
      (keyed_touch (feeding sink) (fun _ => rfl) h.keyed _ _) _ _
  · rw [hnexts, hlinked, List.mem_append, List.mem_singleton, ← h.next, Link.mk.injEq]
    by_cases hs : source' = source
    · rw [if_pos hs, mem_withSink, hs, or_comm]
      simp
    · rw [if_neg hs]
      simp [hs]
  · rw [hnexts]
    split
    · exact nodup_withSink (h.once source) sink
    · exact h.once r
  · rw [hprevious, upstream?_append_connect, h.previous]
  · have hown : source ≠ sink := hapart _ hnew _ hnew
    have hsourcePlays : ∀ k p, fed.pad? k = some p → Plays p := by
      rw [← hfed]
      refine plays_touch (feeding sink)
        (fun _ => rfl) hsource h.plays ⟨fun _ => rfl, fun hfedBy => ?_⟩
      obtain ⟨other, hold⟩ := h.exists_source fun hnone =>
        hfedBy ((previousPad_getD b source (by rfl)).trans hnone)
      exact absurd rfl (hapart _ hnew _ (List.mem_append_left _ hold))
    rw [heq]
    refine plays_touch (fedBy source)
      (fun _ => rfl) hsink hsourcePlays ⟨fun hfeeds => ?_, fun _ => rfl⟩
    have hlists : fed.nexts sink = b.nexts sink := by
      rw [← hfed, nexts_touch (feeding sink) (withSink sink) (fun _ => rfl) (fun _ => rfl) hsource,
        if_neg (Ne.symm hown)]
    obtain ⟨other, hold⟩ := h.exists_sink fun hnil =>
      hfeeds ((nextPads_getD fed sink (by rfl)).trans (hlists.trans hnil))
    exact absurd rfl (hapart _ (List.mem_append_left _ hold) _ hnew)

theorem tracks_nil : Tracks [] {} :=
  ⟨rfl, fun _ h => absurd h List.not_mem_nil,
    fun _ _ => iff_of_false List.not_mem_nil List.not_mem_nil,
    fun _ => List.nodup_nil, fun _ => rfl, fun _ _ h => nomatch h⟩

/-- Calls in a sensible order are recorded. -/
theorem tracks_after (h : Orderly calls) : Tracks calls (after calls) := by
  induction calls using List.reverseRecOn with
  | nil => exact tracks_nil
  | append_singleton calls c ih =>
    have htracks := ih h.init
    rw [after_append]
    cases c with
    | node id nodeType => exact htracks.push rfl rfl rfl
    | subgraph type id subgraphId graph => exact htracks.push rfl rfl rfl
    | place x y =>
      refine htracks.onLast (c := .place x y) ?_ rfl rfl
      exact fun _ => rfl
    | name name =>
      refine htracks.onLast (c := .name name) ?_ rfl rfl
      exact fun _ => rfl
    | value pad v => exact htracks.value h.init.distinct pad v
    | connect source sink =>
      have hpresent := h.present calls.length source sink (List.getElem?_concat_length)
      rw [List.take_left] at hpresent
      exact htracks.connect hpresent.1 hpresent.2 h.apart

/-! ### The two ends of a link -/

/-- What a snapshot shows of the links that calls have made: a source lists the sinks of all its
links, each of them once, and a sink names the source of its last link; the links of the snapshot
are those of the calls. -/
structure Records (calls : List Call) (g : GraphSnapshot) : Prop where
  unique : ∀ r p q, g.Has r p → g.Has r q → p = q
  plays : ∀ r p, g.Has r p → Plays p
  once : ∀ r p, g.Has r p → p.nextPads.Nodup
  lists : ∀ source sink, g.Lists source sink ↔ ⟨source, sink⟩ ∈ linked calls
  names : ∀ source sink, g.Names source sink ↔ upstream? calls sink = some source
  links : g.links.Nodup ∧ ∀ l, l ∈ g.links ↔ l ∈ linked calls

theorem has_build_iff (hids : (b.nodes.map (·.id)).Nodup) (hkeyed : ∀ n ∈ b.nodes, Keyed n) :
    b.build.Has r p ↔ b.pad? r = some p := by
  rw [pad?, Option.bind_eq_some_iff]
  constructor
  · rintro ⟨n, hn, hid, hp, hpid⟩
    refine ⟨n, ?_, ?_⟩
    · rw [← hid]
      exact find?_of_mem hids hn
    · rw [← hpid]
      exact find?_of_mem (hkeyed n hn) hp
  · rintro ⟨n, hn, hp⟩
    exact ⟨n, List.mem_of_find?_eq_some hn, by simpa using List.find?_some hn,
      List.mem_of_find?_eq_some hp, by simpa using List.find?_some hp⟩

theorem records_after (h : Orderly calls) : Records calls (after calls).build := by
  have ht := tracks_after h
  have hhas (r : PadRef) (p : PadSnapshot) : (after calls).build.Has r p ↔ (after calls).pad? r =
      some p :=
    has_build_iff (ht.ids ▸ h.distinct) ht.keyed
  have hlists (source sink : PadRef) :
      (after calls).build.Lists source sink ↔ ⟨source, sink⟩ ∈ linked calls := by
    rw [← ht.next, nexts, GraphSnapshot.Lists]
    simp only [hhas]
    cases (after calls).pad? source <;> simp
  have hnames (source sink : PadRef) :
      (after calls).build.Names source sink ↔ upstream? calls sink = some source := by
    rw [← ht.previous, SnapshotBuilder.previous, Option.bind_eq_some_iff, GraphSnapshot.Names]
    simp only [hhas]
  have hplays (r : PadRef) (p : PadSnapshot) (hp : (after calls).build.Has r p) : Plays p :=
    ht.plays r p ((hhas r p).mp hp)
  refine ⟨fun r p q hp hq => ?_, hplays, fun r p hp => ?_, hlists, hnames,
    GraphSnapshot.nodup_links _, fun l => ?_⟩
  · rw [hhas] at hp hq
    exact Option.some_inj.mp (hp.symm.trans hq)
  · have honce := ht.once r
    rwa [nexts, (hhas r p).mp hp] at honce
  · rw [GraphSnapshot.mem_links, hlists, hnames]
    exact or_iff_left_of_imp mem_linked_of_upstream?

/-- The sources that list a sink are the source that it names. -/
def InStep (g : GraphSnapshot) (sink : PadRef) : Prop :=
  ∀ source, g.Lists source sink ↔ g.Names source sink

/-- All links that calls have made to a sink have one source. -/
def FedOnce (calls : List Call) (sink : PadRef) : Prop :=
  ∀ l ∈ linked calls, ∀ m ∈ linked calls, l.sink = sink → m.sink = sink → l.source = m.source

theorem Records.inStep_iff {g : GraphSnapshot} (h : Records calls g) :
    InStep g sink ↔ FedOnce calls sink := by
  constructor
  · intro hstep l hl m hm hls hms
    have hupstream (k : Link) (hk : k ∈ linked calls) (hks : k.sink = sink) :
        upstream? calls sink = some k.source := by
      rw [← h.names, ← hstep, h.lists, ← hks]
      exact hk
    exact Option.some_inj.mp ((hupstream l hl hls).symm.trans (hupstream m hm hms))
  · intro honce source
    rw [h.lists, h.names]
    refine ⟨fun hl => ?_, mem_linked_of_upstream?⟩
    obtain ⟨last, hlast⟩ := exists_upstream? hl
    exact hlast.trans (congrArg some (honce _ (mem_linked_of_upstream? hlast) _ hl rfl rfl))

theorem Records.nodup_sinks_iff {g : GraphSnapshot} (h : Records calls g) :
    (g.links.map (·.sink)).Nodup ↔ ∀ sink, FedOnce calls sink := by
  obtain ⟨hnd, hmem⟩ := h.links
  rw [List.nodup_map_iff_inj_on hnd]
  constructor
  · intro hinj sink l hl m hm hls hms
    rw [hinj l ((hmem l).mpr hl) m ((hmem m).mpr hm) (hls.trans hms.symm)]
  · intro honce l hl m hm hsink
    have hsource := honce m.sink l ((hmem l).mp hl) m ((hmem m).mp hm) hsink rfl
    cases l
    cases m
    simp_all

/-- After calls in a sensible order (`Orderly`) the two ends of a sink are in step (`InStep`)
exactly when it was linked to one source only (`FedOnce`); and the snapshot has one link for each
linked sink exactly when that is so of all sinks. A sink that is linked again is still listed by
the source that it had before. -/
theorem inStep_after_iff (h : Orderly calls) : Records calls (after calls).build ∧
    (∀ sink, InStep (after calls).build sink ↔ FedOnce calls sink) ∧
    (((after calls).build.links.map (·.sink)).Nodup ↔ ∀ sink, FedOnce calls sink) := by
  have hrecords := records_after h
  exact ⟨hrecords, fun _ => hrecords.inStep_iff, hrecords.nodup_sinks_iff⟩

/-- A sink that is linked to one source and then to another. -/
def redirected : List Call :=
  [.node "a" "IntegerProperty", .node "b" "IntegerProperty", .node "r" "Passthrough",
    .connect ⟨"a", "value"⟩ ⟨"r", "input"⟩, .connect ⟨"b", "value"⟩ ⟨"r", "input"⟩]

theorem linked_redirected :
    linked redirected = [⟨⟨"a", "value"⟩, ⟨"r", "input"⟩⟩, ⟨⟨"b", "value"⟩, ⟨"r", "input"⟩⟩] := rfl

theorem orderly_redirected : Orderly redirected where
  distinct := by decide
  present i source sink hi := by
    match i, hi with
    | 3, hi =>
      obtain ⟨rfl, rfl⟩ := Call.connect.inj (Option.some_inj.mp hi)
      decide
    | 4, hi =>
      obtain ⟨rfl, rfl⟩ := Call.connect.inj (Option.some_inj.mp hi)
      decide
  apart := by
    rw [linked_redirected]
    decide

/-- The first source still lists the sink, and the sink names the second. -/
theorem inStep_after_redirected :
    Orderly redirected ∧ Records redirected (after redirected).build ∧
    ¬ InStep (after redirected).build ⟨"r", "input"⟩ ∧
    ¬ ((after redirected).build.links.map (·.sink)).Nodup := by
  obtain ⟨hrecords, hstep, hsinks⟩ := inStep_after_iff orderly_redirected
  have htwice : ¬ FedOnce redirected ⟨"r", "input"⟩ := by
    rw [FedOnce, linked_redirected]
    decide
  exact ⟨orderly_redirected, hrecords, fun h => htwice ((hstep _).mp h),
    fun h => htwice (hsinks.mp h _)⟩

end SnapshotBuilder

end Patchbay
