import Patchbay.Proofs.Graph.Narrowing
import Patchbay.Proofs.Graph.Lookup

/-!
# What narrowing depends on

Narrowing starts from the declarations, so its outcome is the same for graphs that are the same
without effective constraints (`narrow_congr`). A pad without links keeps what it starts with
(`pad?_narrow_of_unlinked`).
-/

namespace Patchbay

/-- An ending of narrowing with a change of the graph it left. -/
def Narrowing.map (f : GraphState → GraphState) : Narrowing → Narrowing
  | .settled s => .settled (f s)
  | .refused e => .refused e
  | .unfinished => .unfinished

namespace GraphState

variable {s t s' : GraphState} {l : Link} {external : External}

/-! ### Marking nodes as resolved -/

theorem updatePad_markResolved (s : GraphState) (r : PadRef) (f : PadState → PadState) :
    s.markResolved.updatePad r f = (s.updatePad r f).markResolved := by
  have hnodes : ∀ nodes : List NodeEntry,
      updateFirst (fun e => e.id == r.node)
          (fun e => { e with pads := updateFirst (fun q => q.id == r.pad) f e.pads })
          (nodes.map fun e => { e with state := .resolved }) =
        (updateFirst (fun e => e.id == r.node)
          (fun e => { e with pads := updateFirst (fun q => q.id == r.pad) f e.pads })
          nodes).map fun e => { e with state := .resolved } := by
    intro nodes
    induction nodes with
    | nil => rfl
    | cons e rest ih =>
      rw [List.map_cons, updateFirst, updateFirst]
      split
      · rfl
      · rw [List.map_cons, ih]
  simp only [updatePad, updateNode, markResolved, hnodes]

theorem narrowLink_markResolved (s : GraphState) (l : Link) :
    s.markResolved.narrowLink l = (s.narrowLink l).map fun (t, c) => (t.markResolved, c) := by
  rw [narrowLink, narrowLink, pad?_markResolved, pad?_markResolved]
  split
  · dsimp only
    split
    · rfl
    · simp only [Except.map, Except.ok.injEq, Prod.mk.injEq, and_true]
      split <;> split <;> simp only [updatePad_markResolved]
  · rfl

theorem narrowLinks_markResolved (s : GraphState) (ls : List Link) :
    s.markResolved.narrowLinks ls = (s.narrowLinks ls).map fun (t, c) => (t.markResolved, c) := by
  induction ls generalizing s with
  | nil => rfl
  | cons l rest ih =>
    rw [narrowLinks, narrowLinks, narrowLink_markResolved]
    cases h : s.narrowLink l with
    | error e => rfl
    | ok x =>
      obtain ⟨s₁, c₁⟩ := x
      simp only [Except.map, bind, Except.bind]
      rw [ih]
      cases h' : s₁.narrowLinks rest with
      | error e => rfl
      | ok y => rfl

theorem narrowRounds_markResolved (n : Nat) (s : GraphState) :
    narrowRounds n s.markResolved = (narrowRounds n s).map markResolved := by
  induction n generalizing s with
  | zero => rfl
  | succ n ih =>
    have hlinks : s.markResolved.links = s.links := rfl
    rw [narrowRounds, narrowRounds, hlinks, narrowLinks_markResolved]
    cases h : s.narrowLinks s.links with
    | error e => rfl
    | ok x =>
      obtain ⟨s₁, c₁⟩ := x
      simp only [Except.map]
      split
      · exact ih s₁
      · rfl

theorem typeWeight_markResolved (s : GraphState) : s.markResolved.typeWeight = s.typeWeight := by
  rw [typeWeight, markResolved, sumOf_map, typeWeight]
  rfl

theorem roundLimit_markResolved (s : GraphState) : s.markResolved.roundLimit = s.roundLimit := by
  rw [roundLimit, typeWeight_markResolved, roundLimit]

/-- What narrowing makes of a start, with all nodes marked as resolved. -/
def narrowFrom (start : GraphState) : Except Error GraphState :=
  match narrowRounds start.roundLimit start with
  | .settled s => .ok s
  | .refused e => .error e
  | .unfinished => .error (.nodeResolution "" "types did not settle")

theorem narrowFrom_markResolved (start : GraphState) :
    narrowFrom start.markResolved = (narrowFrom start).map markResolved := by
  rw [narrowFrom, roundLimit_markResolved, narrowRounds_markResolved, narrowFrom]
  cases narrowRounds start.roundLimit start <;> rfl

theorem narrow_markResolved_eq (s : GraphState) (external : External) :
    (s.narrow external).map markResolved =
      narrowFrom (s.startNarrowing external).markResolved := by
  rw [narrowFrom_markResolved]
  cases h : narrowRounds (s.startNarrowing external).roundLimit (s.startNarrowing external) <;>
    simp only [narrow, narrowFrom, h]

/-! ### The start -/

theorem startOf_bare (external : External) (node : String) (p : PadState) :
    startOf external node p.bare = startOf external node p := by
  rw [startOf, startOf]
  rfl

/-- Graphs that are the same without effective constraints start alike. -/
theorem startNarrowing_congr (h : s.bare = t.bare) (external : External) :
    (s.startNarrowing external).markResolved = (t.startNarrowing external).markResolved := by
  have hstart : ∀ s : GraphState, (s.startNarrowing external).markResolved =
      (s.bare.startNarrowing external).markResolved := by
    intro s
    simp only [startNarrowing, markResolved, bare, List.map_map, GraphState.mk.injEq, and_true]
    refine List.map_congr_left fun e _ => ?_
    simp only [Function.comp_apply, NodeEntry.bare, List.map_map, NodeEntry.mk.injEq, true_and,
      and_true]
    exact List.map_congr_left fun p _ => (startOf_bare external e.id p).symm
  rw [hstart s, hstart t, h]

/-- Narrowing depends on what there is without effective constraints (`GraphState.bare`): it starts
from declarations (`startNarrowing_congr`). -/
theorem narrow_congr (hbare : s.bare = t.bare) :
    (s.narrow external).map markResolved = (t.narrow external).map markResolved := by
  rw [narrow_markResolved_eq, narrow_markResolved_eq, startNarrowing_congr hbare]

/-! ### Pads without links -/

/-- No link of the graph ends at an address. -/
def Unlinked (s : GraphState) (r : PadRef) : Prop := ∀ l ∈ s.links, l.source ≠ r ∧ l.sink ≠ r

theorem Unlinked.downstream {r : PadRef} (h : s.Unlinked r) : s.downstream r = [] := by
  rw [GraphState.downstream, List.map_eq_nil_iff, List.filter_eq_nil_iff]
  exact fun l hl => by simpa using (h l hl).1

theorem Unlinked.feeder {r : PadRef} (h : s.Unlinked r) : s.feeder r = none := by
  rw [GraphState.feeder, Option.map_eq_none_iff, List.find?_eq_none]
  exact fun l hl => by simpa using (h l hl).2

theorem pad?_narrowLink_of_ne {changed : Bool} {r : PadRef} (hsource : l.source ≠ r)
    (hsink : l.sink ≠ r) (h : s.narrowLink l = .ok (s', changed)) : s'.pad? r = s.pad? r := by
  have hset : ∀ (s : GraphState) (r' : PadRef) (cs : Constraints), r' ≠ r →
      (s.updatePad r' ({ · with effective := cs })).pad? r = s.pad? r :=
    fun s r' cs hne => pad?_updatePad_of_ne (f := ({ · with effective := cs })) (fun _ => rfl)
      hne.symm
  rw [narrowLink] at h
  split at h
  · dsimp only at h
    split at h
    · cases h
    · simp only [Except.ok.injEq, Prod.mk.injEq] at h
      obtain ⟨rfl, -⟩ := h
      split <;> split <;> simp only [hset _ _ _ hsource, hset _ _ _ hsink]
  · cases h
    rfl

theorem pad?_startNarrowing (s : GraphState) (external : External) (r : PadRef) :
    (s.startNarrowing external).pad? r = (s.pad? r).map (startOf external r.node) := by
  have hid : ∀ (node : String) (p : PadState), (startOf external node p).id = p.id := by
    intro node p
    rw [startOf]
    split <;> rfl
  rw [pad?, node?, startNarrowing, List.find?_map, pad?, node?]
  simp only [Function.comp_def]
  cases h : s.nodes.find? fun e => e.id == r.node with
  | none => rfl
  | some e =>
    have he : e.id = r.node := (node?_eq_some h).2
    simp only [Option.map_some, Option.bind_some, NodeEntry.pad?, findPad, List.find?_map,
      Function.comp_def, hid, he]

/-- A pad without links keeps what it starts with (`startOf`), since narrowing touches the ends of
links only. -/
theorem pad?_narrow_of_unlinked {r : PadRef} (hr : s.Unlinked r)
    (h : s.narrow external = .ok s') : s'.pad? r = (s.pad? r).map (startOf external r.node) := by
  have hinv := (narrow_invariant
    (I := fun t => t.links = s.links ∧ t.pad? r = (s.startNarrowing external).pad? r)
    (fun t l t' _ hl ht hstep => ?_) ⟨rfl, rfl⟩ h).1
  · rw [hinv.2, pad?_startNarrowing]
  · obtain ⟨hsource, hsink⟩ := hr l (ht.1 ▸ hl)
    exact ⟨(bare_eq_iff.mp (bare_narrowLink hstep)).2.trans ht.1,
      (pad?_narrowLink_of_ne hsource hsink hstep).trans ht.2⟩

end GraphState

end Patchbay
