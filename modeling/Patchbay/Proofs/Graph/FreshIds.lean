import Mathlib.Order.Interval.Finset.Nat
import Patchbay.Graph.Subgraph
import Patchbay.Proofs.Graph.WellFormed
import Patchbay.Proofs.Number.Numerals

/-!
# Fresh ids

The id that a graph proposes for a new node is valid and free (`uniqueId_fresh`). It is valid
because the marks of addresses are replaced and numbers have none (`isValidNodeId_uniqueId`). It is
free because numbered ids are told apart by their numbers, so that among one more candidates than
there are nodes not all can be taken (`exists_not_contains`). A new node can therefore be added
under it, and a whole list of nodes can be taken in one after the other, each under an id of its
own (`exists_adoptNodes`).
-/

namespace Patchbay.GraphState

variable {s : GraphState} {stem : String} {i j : Nat}

/-! ### Valid ids -/

theorem isValidNodeId_idStem (base : String) : isValidNodeId (idStem base) = true := by
  rw [isValidNodeId_iff, idStem]
  split
  · exact ⟨by decide, by decide, by decide⟩
  · rename_i hne
    refine ⟨by simpa using hne, ?_, ?_⟩
    all_goals
      rw [String.toList_map, List.mem_map]
      rintro ⟨c, -, hc⟩
      split at hc
      · exact absurd hc (by decide)
      · rename_i hmarks
        simp [hc] at hmarks

theorem isValidNodeId_numberedId (h : isValidNodeId stem = true) (n : Nat) :
    isValidNodeId (numberedId stem n) = true := by
  have hdigit : ∀ c ∈ n.repr.toList, c.isDigit = true :=
    fun c hc => isDigit_of_mem_numeral (Nat.toList_repr ▸ hc)
  obtain ⟨hne, hcolon, hslash⟩ := isValidNodeId_iff.mp h
  rw [isValidNodeId_iff, numberedId]
  refine ⟨fun hempty => hne ?_, ?_, ?_⟩
  · simpa using congrArg String.toList hempty
  all_goals
    intro hmem
    simp only [String.toList_append, List.mem_append] at hmem
    rcases hmem with (hmem | hmem) | hmem
    · contradiction
    · exact absurd hmem (by decide)
    · exact absurd (hdigit _ hmem) (by decide)

/-! ### Free ids -/

/-- Numbered ids are told apart by their numbers, since the stem and the separator are the same. -/
theorem numberedId_inj (h : numberedId stem i = numberedId stem j) : i = j :=
  append_repr_injective _ h

/-- The ids that are tried for a new node, in this order: the stem, and then the stem with numbers.
-/
def candidateId (stem : String) : Nat → String
  | 0 => stem
  | n + 1 => numberedId stem (n + 1)

theorem ne_numberedId (stem : String) (n : Nat) : stem ≠ numberedId stem n := by
  intro h
  have hlength := congrArg String.length h
  simp only [numberedId, String.length_append] at hlength
  have hmark : "_".length = 1 := rfl
  omega

theorem candidateId_injective (stem : String) : Function.Injective (candidateId stem) := by
  intro i j h
  cases i with
  | zero =>
    cases j with
    | zero => rfl
    | succ j => exact absurd h (ne_numberedId stem _)
  | succ i =>
    cases j with
    | zero => exact absurd h.symm (ne_numberedId stem _)
    | succ j => exact numberedId_inj h

/-- Of one more ids than there are nodes not all are taken. This is the pigeonhole that bounds the
search. -/
theorem exists_not_contains (s : GraphState) {f : Nat → String} (hf : Function.Injective f) :
    ∃ i ≤ s.nodes.length, s.contains (f i) = false := by
  by_contra hall
  push Not at hall
  have hsub : (Finset.range (s.nodes.length + 1)).image f ⊆ (s.nodes.map (·.id)).toFinset := by
    intro id hid
    obtain ⟨i, hi, rfl⟩ := Finset.mem_image.mp hid
    have htaken := hall i (Nat.le_of_lt_succ (Finset.mem_range.mp hi))
    rw [Bool.ne_false_iff, contains_iff] at htaken
    exact List.mem_toFinset.mpr htaken
  have hcard := Finset.card_le_card hsub
  rw [Finset.card_image_of_injective _ hf, Finset.card_range] at hcard
  have hle := List.toFinset_card_le (s.nodes.map (·.id))
  rw [List.length_map] at hle
  omega

/-- The search ends at the first free id, if there is a free one among so many. -/
theorem firstFree_spec (fuel i : Nat)
    (h : ∃ k, i ≤ k ∧ k < i + fuel ∧ s.contains (numberedId stem k) = false) :
    ∃ k, i ≤ k ∧ s.firstFree stem fuel i = numberedId stem k ∧ s.contains (numberedId stem k) =
    false ∧ ∀ j, i ≤ j → j < k → s.contains (numberedId stem j) = true := by
  induction fuel generalizing i with
  | zero =>
    obtain ⟨k, hle, hlt, -⟩ := h
    omega
  | succ fuel ih =>
    rw [firstFree]
    split
    · rename_i htaken
      obtain ⟨k, hle, hlt, hfree⟩ := h
      -- the free candidate is another one than the taken one, so the rest of the fuel still
      -- reaches it
      have hne : k ≠ i := by
        rintro rfl
        exact absurd htaken (by simp [hfree])
      obtain ⟨m, him, hm, hfree', hbefore⟩ := ih (i + 1) ⟨k, by omega, by omega, hfree⟩
      refine ⟨m, by omega, hm, hfree', fun j hij hjm => ?_⟩
      rcases Nat.eq_or_lt_of_le hij with rfl | hij
      · exact htaken
      · exact hbefore j hij hjm
    · rename_i hfree
      exact ⟨i, Nat.le_refl i, rfl, by simpa using hfree,
        fun j hij hji => absurd hij (Nat.not_le.mpr hji)⟩

/-- The proposed id is the first candidate that is free (`candidateId`), and that is found among
one more candidates than there are nodes. -/
theorem uniqueId_spec (s : GraphState) (base : String) :
    ∃ k ≤ s.nodes.length, s.uniqueId base = candidateId (idStem base) k ∧
      s.contains (candidateId (idStem base) k) = false ∧
      ∀ j < k, s.contains (candidateId (idStem base) j) = true := by
  obtain ⟨m, hm, hfree⟩ := s.exists_not_contains (candidateId_injective (idStem base))
  rw [uniqueId]
  split
  · rename_i htaken
    cases m with
    | zero => exact absurd htaken (by simpa [candidateId] using hfree)
    | succ m =>
      obtain ⟨k, hk, hfound, hfree', hbefore⟩ :=
        firstFree_spec (s.nodes.length + 1) 1 ⟨m + 1, by omega, by omega, hfree⟩
      obtain ⟨k, rfl⟩ := Nat.exists_eq_add_of_le' hk
      have hle : k + 1 ≤ m + 1 := by
        by_contra hlt
        have htaken' := hbefore (m + 1) (by omega) (by omega)
        exact absurd htaken' (by simpa [candidateId] using hfree)
      refine ⟨k + 1, hle.trans hm, hfound, hfree', fun j hj => ?_⟩
      cases j with
      | zero => exact htaken
      | succ j => exact hbefore (j + 1) (by omega) hj
  · rename_i hfree'
    exact ⟨0, Nat.zero_le _, rfl, by simpa [candidateId] using hfree',
      fun j hj => absurd hj (Nat.not_lt_zero j)⟩

/-- The proposed id is free. -/
theorem contains_uniqueId (s : GraphState) (base : String) :
    s.contains (s.uniqueId base) = false := by
  obtain ⟨k, -, hk, hfree, -⟩ := s.uniqueId_spec base
  rw [hk, hfree]

/-- The proposed id is valid: the stem has its marks replaced (`idStem`), and numbers have none. -/
theorem isValidNodeId_uniqueId (s : GraphState) (base : String) :
    isValidNodeId (s.uniqueId base) = true := by
  obtain ⟨k, -, hk, -⟩ := s.uniqueId_spec base
  rw [hk]
  cases k with
  | zero => exact isValidNodeId_idStem base
  | succ k => exact isValidNodeId_numberedId (isValidNodeId_idStem base) _

/-- A node can be added under the proposed id. -/
theorem addNode_uniqueId (s : GraphState) (e : NodeEntry) (base : String) :
    s.addNode { e with id := s.uniqueId base } =
      .ok { s with nodes := s.nodes ++ [{ e with id := s.uniqueId base }] } := by
  rw [addNode, if_neg (by simp [isValidNodeId_uniqueId]), if_neg (by simp [contains_uniqueId])]

/-! ### Taking nodes in -/

/-- An id that a new node can have: it is valid (`isValidNodeId`), and no node has it. -/
structure Fresh (s : GraphState) (id : String) : Prop where
  ne_empty : id ≠ ""
  colon_notMem : ':' ∉ id.toList
  slash_notMem : '/' ∉ id.toList
  free : s.contains id = false

theorem fresh_uniqueId (s : GraphState) (base : String) : s.Fresh (s.uniqueId base) := by
  obtain ⟨hne, hcolon, hslash⟩ := isValidNodeId_iff.mp (s.isValidNodeId_uniqueId base)
  exact ⟨hne, hcolon, hslash, s.contains_uniqueId base⟩

/-- Whatever nodes are taken in, they get fresh ids (`Fresh`) that differ from each other, each in
the graph with those before it. -/
theorem exists_adoptNodes (s : GraphState) (nodes : List NodeEntry) :
    ∃ ids : List String, ids.length = nodes.length ∧
      s.adoptNodes nodes = .ok
        ({ s with nodes := s.nodes ++ nodes.zipWith (fun e id => { e with id := id }) ids },
          (nodes.map (·.id)).zip ids) ∧
      (∀ id ∈ ids, s.Fresh id) ∧ ids.Nodup := by
  induction nodes generalizing s with
  | nil =>
    refine ⟨[], rfl, ?_, by simp, List.nodup_nil⟩
    cases s
    simp [adoptNodes]
  | cons e rest ih =>
    obtain ⟨ids, hlength, hdone, hfresh, hnd⟩ :=
      ih { s with nodes := s.nodes ++ [{ e with id := s.uniqueId e.id }] }
    -- what is fresh beside the first node is fresh without it, and is not its id
    have hrest : ∀ id ∈ ids, s.Fresh id ∧ id ≠ s.uniqueId e.id := by
      intro id hid
      obtain ⟨hne, hcolon, hslash, hfree⟩ := hfresh id hid
      simp only [contains, List.any_append, Bool.or_eq_false_iff, List.any_cons, List.any_nil,
        Bool.or_false, beq_eq_false_iff_ne] at hfree
      exact ⟨⟨hne, hcolon, hslash, hfree.1⟩, hfree.2.symm⟩
    refine ⟨s.uniqueId e.id :: ids, by simp [hlength], ?_, ?_, ?_⟩
    · rw [adoptNodes, addNode_uniqueId]
      simp only [bind, Except.bind]
      rw [hdone]
      simp
    · exact List.forall_mem_cons.mpr ⟨s.fresh_uniqueId e.id, fun id hid => (hrest id hid).1⟩
    · exact List.nodup_cons.mpr ⟨fun hmem => (hrest _ hmem).2 rfl, hnd⟩

/-- The proposed id is found in time, valid and free (`GraphState.Fresh`), so that a node can be
added under it; and nodes that are taken in one after the other (`GraphState.adoptNodes`) get ids
of this kind, all of them different. -/
theorem uniqueId_fresh (s : GraphState) (base : String) :
    (∃ k ≤ s.nodes.length, s.uniqueId base = candidateId (idStem base) k ∧
      ∀ j < k, s.contains (candidateId (idStem base) j) = true) ∧
    s.Fresh (s.uniqueId base) ∧
    (∀ e : NodeEntry, s.addNode { e with id := s.uniqueId base } =
      .ok { s with nodes := s.nodes ++ [{ e with id := s.uniqueId base }] }) ∧
    ∀ nodes : List NodeEntry, ∃ ids : List String, ids.length = nodes.length ∧
      s.adoptNodes nodes = .ok
        ({ s with nodes := s.nodes ++ nodes.zipWith (fun e id => { e with id := id }) ids },
          (nodes.map (·.id)).zip ids) ∧
      (∀ id ∈ ids, s.Fresh id) ∧ ids.Nodup := by
  obtain ⟨k, hk, hfound, -, hbefore⟩ := s.uniqueId_spec base
  exact ⟨⟨k, hk, hfound, hbefore⟩, s.fresh_uniqueId base, fun e => s.addNode_uniqueId e base,
    s.exists_adoptNodes⟩

end Patchbay.GraphState
