import Patchbay.Graph.State
import Mathlib.Data.List.Sort

/-!
# The table of links

The links of a graph stand in the order of their sinks, no two of them at one sink (`Ordered`).
Putting in, taking out and renaming links keeps the order, and an ordered table is determined by
the links it holds (`Ordered.eq_of_mem_iff`).
-/

namespace Patchbay

/-! ### The order of addresses -/

namespace PadRef

variable {p q r : PadRef}

theorem lt_iff : p.lt q = true ↔ p.node < q.node ∨ p.node = q.node ∧ p.pad < q.pad := by
  simp [lt]

theorem lt_irrefl (p : PadRef) : ¬ p.lt p = true := by
  simp [lt_iff]

theorem lt_trans (h : p.lt q = true) (h' : q.lt r = true) : p.lt r = true := by
  rw [lt_iff] at *
  rcases h with h | ⟨h, hp⟩ <;> rcases h' with h' | ⟨h', hp'⟩
  · exact .inl (String.lt_trans h h')
  · exact .inl (h' ▸ h)
  · exact .inl (h ▸ h')
  · exact .inr ⟨h.trans h', String.lt_trans hp hp'⟩

theorem ne_of_lt (h : p.lt q = true) : p ≠ q := by
  rintro rfl
  exact lt_irrefl p h

theorem lt_asymm (h : p.lt q = true) : ¬ q.lt p = true := fun h' => lt_irrefl p (lt_trans h h')

theorem lt_or_eq_or_gt (p q : PadRef) : p.lt q = true ∨ p = q ∨ q.lt p = true := by
  rw [lt_iff, lt_iff]
  rcases Std.lt_trichotomy p.node q.node with h | h | h
  · exact .inl (.inl h)
  · rcases Std.lt_trichotomy p.pad q.pad with h' | h' | h'
    · exact .inl (.inr ⟨h, h'⟩)
    · exact .inr (.inl (by cases p; cases q; simp_all))
    · exact .inr (.inr (.inr ⟨h.symm, h'⟩))
  · exact .inr (.inr (.inl h))

end PadRef

/-! ### Ordered tables -/

namespace GraphState

/-- The links stand in the order of their sinks, and no two have the same sink. So a sink has at
most one feeder. -/
def Ordered (links : List Link) : Prop := links.Pairwise fun k l => k.sink.lt l.sink = true

variable {l k : Link} {links : List Link}

theorem mem_insertLink (h : k ∈ insertLink l links) : k = l ∨ k ∈ links := by
  induction links with
  | nil => simpa [insertLink] using h
  | cons m rest ih =>
    simp only [insertLink] at h
    split at h
    · simpa using h
    · split at h
      · rcases List.mem_cons.mp h with h | h
        · exact .inl h
        · exact .inr (List.mem_cons_of_mem _ h)
      · rcases List.mem_cons.mp h with h | h
        · exact .inr (h ▸ List.mem_cons_self)
        · exact (ih h).imp_right (List.mem_cons_of_mem _)

theorem mem_insertLink_self (l : Link) (links : List Link) : l ∈ insertLink l links := by
  induction links with
  | nil => simp [insertLink]
  | cons m rest ih =>
    simp only [insertLink]
    split
    · exact List.mem_cons_self
    · split
      · exact List.mem_cons_self
      · exact List.mem_cons_of_mem _ ih

/-- The other links stay. -/
theorem mem_insertLink_of_ne (h : k ∈ links) (hne : k.sink ≠ l.sink) :
    k ∈ insertLink l links := by
  induction links with
  | nil => simp at h
  | cons m rest ih =>
    simp only [insertLink]
    split
    · exact List.mem_cons_of_mem _ h
    · split
      · rename_i heq
        rcases List.mem_cons.mp h with rfl | h
        · exact absurd heq.symm hne
        · exact List.mem_cons_of_mem _ h
      · rcases List.mem_cons.mp h with rfl | h
        · exact List.mem_cons_self
        · exact List.mem_cons_of_mem _ (ih h)

/-- Putting in a link keeps the order: it takes the place of the one that had its sink, or the
place of its sink (`insertLink`). -/
theorem ordered_insertLink (h : Ordered links) (l : Link) : Ordered (insertLink l links) := by
  induction links with
  | nil => exact List.pairwise_singleton _ _
  | cons m rest ih =>
    obtain ⟨hm, hrest⟩ := List.pairwise_cons.mp h
    simp only [insertLink]
    split
    · rename_i hlt
      refine List.pairwise_cons.mpr ⟨fun k hk => ?_, h⟩
      rcases List.mem_cons.mp hk with rfl | hk
      · exact hlt
      · exact PadRef.lt_trans hlt (hm k hk)
    · rename_i hnlt
      split
      · rename_i heq
        refine List.pairwise_cons.mpr ⟨fun k hk => ?_, hrest⟩
        rw [heq]
        exact hm k hk
      · rename_i hne
        refine List.pairwise_cons.mpr ⟨fun k hk => ?_, ih hrest⟩
        rcases mem_insertLink hk with rfl | hk
        · exact ((PadRef.lt_or_eq_or_gt k.sink m.sink).resolve_left hnlt).resolve_left hne
        · exact hm k hk

theorem Ordered.filter (h : Ordered links) (p : Link → Bool) : Ordered (links.filter p) :=
  List.Pairwise.filter p h

/-- Putting in links one after the other keeps the order. -/
theorem ordered_foldl_insertLink (new : List Link) (h : Ordered links) :
    Ordered (new.foldl (fun acc l => insertLink l acc) links) := by
  induction new generalizing links with
  | nil => exact h
  | cons l rest ih => exact ih (ordered_insertLink h l)

theorem ordered_renameLinks (old new : String) (links : List Link) :
    Ordered (renameLinks old new links) :=
  ordered_foldl_insertLink _ List.Pairwise.nil

/-- Two links of an ordered table with the same sink are one. -/
theorem Ordered.eq_of_sink_eq (h : Ordered links) (hk : k ∈ links) (hl : l ∈ links)
    (hs : k.sink = l.sink) : k = l := by
  induction links with
  | nil => simp at hk
  | cons m rest ih =>
    obtain ⟨hm, hrest⟩ := List.pairwise_cons.mp h
    rcases List.mem_cons.mp hk with hk' | hk' <;> rcases List.mem_cons.mp hl with hl' | hl'
    · exact hk'.trans hl'.symm
    · exact absurd hs (hk' ▸ PadRef.ne_of_lt (hm l hl'))
    · exact absurd hs.symm (hl' ▸ PadRef.ne_of_lt (hm k hk'))
    · exact ih hrest hk' hl'

/-- Tables in order that hold the same links are equal, as lists. So a table is determined by what
it says. -/
theorem Ordered.eq_of_mem_iff {links' : List Link} (h : Ordered links) (h' : Ordered links')
    (hmem : ∀ l, l ∈ links ↔ l ∈ links') : links = links' := by
  have hirrefl : Std.Irrefl fun k l : Link => k.sink.lt l.sink = true :=
    ⟨fun l => PadRef.lt_irrefl l.sink⟩
  have hantisymm : Std.Antisymm fun k l : Link => k.sink.lt l.sink = true :=
    ⟨fun _ _ hkl hlk => absurd hlk (PadRef.lt_asymm hkl)⟩
  exact List.Pairwise.eq_of_mem_iff h h' hmem

end GraphState

end Patchbay
