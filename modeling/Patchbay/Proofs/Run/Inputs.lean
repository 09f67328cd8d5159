import Patchbay.Proofs.Number.Numerals
import Patchbay.Run.Process

/-!
# Numbered inputs in order

A node takes its numbered sinks out in the order of their ids: shorter ids first, equally long ones
letter by letter (`precedes`). For ids that end in decimal numerals that is the order of the
numbers (`precedes_numbered`), so whatever order the sinks are kept in, they come out by number,
and the other sinks stay (`takeSinks_numbered`).
-/

namespace Patchbay.NodeProcess

variable {a b c stem : String} {i j n : Nat}

/-! ### The order of ids -/

theorem precedes_iff :
    precedes a b = true ↔ a.utf8ByteSize < b.utf8ByteSize ∨ a.utf8ByteSize = b.utf8ByteSize ∧
    a ≤ b := by
  simp [precedes]

theorem precedes_total (a b : String) : (precedes a b || precedes b a) = true := by
  rw [Bool.or_eq_true, precedes_iff, precedes_iff]
  rcases Nat.lt_trichotomy a.utf8ByteSize b.utf8ByteSize with hlt | heq | hgt
  · exact .inl (.inl hlt)
  · exact (String.le_total a b).imp (fun h => .inr ⟨heq, h⟩) fun h => .inr ⟨heq.symm, h⟩
  · exact .inr (.inl hgt)

theorem precedes_trans (hab : precedes a b = true) (hbc : precedes b c = true) :
    precedes a c = true := by
  rw [precedes_iff] at *
  rcases hab with hab | ⟨hab, hle⟩
  · exact .inl (hbc.elim (Nat.lt_trans hab) fun h => h.1 ▸ hab)
  · exact hbc.imp (fun h => hab ▸ h) fun h => ⟨hab.trans h.1, String.le_trans hle h.2⟩

theorem precedes_antisymm (hab : precedes a b = true) (hba : precedes b a = true) : a = b := by
  rw [precedes_iff] at *
  rcases hab with hab | ⟨hab, hle⟩
  · rcases hba with hba | ⟨hba, -⟩ <;> omega
  · rcases hba with hba | ⟨-, hle'⟩
    · omega
    · exact String.le_antisymm hle hle'

/-- Numbered ids are in the order of their numbers: a shorter numeral is a smaller number, and of
equally long ones the first digit that differs decides. -/
theorem precedes_numbered (stem : String) (h : i ≤ j) : precedes (stem ++ i.repr)
    (stem ++ j.repr) = true := by
  have hsize : ∀ k : Nat, (stem ++ k.repr).utf8ByteSize = stem.utf8ByteSize +
      (Nat.toDigits 10 k).length := by
    intro k
    rw [String.utf8ByteSize_append, Nat.repr_eq_ofList_toDigits,
      utf8ByteSize_ofList fun _ => isDigit_of_mem_numeral]
  rw [precedes_iff, hsize, hsize]
  rcases Nat.lt_or_eq_of_le (length_toDigits_mono h) with hlt | heq
  · exact .inl (Nat.add_lt_add_left hlt _)
  -- equally long ids have the stem in common, so their numerals decide
  · refine .inr ⟨congrArg _ heq, String.not_lt.mp fun hgreater => ?_⟩
    rw [String.lt_iff, String.toList_append, String.toList_append, Nat.toList_repr,
      Nat.toList_repr] at hgreater
    exact List.not_lt.mpr (List.append_left_le (List.not_lt.mp (not_toDigits_lt h heq))) hgreater

/-! ### Taking sinks out -/

/-- Ids that are in order already are what sorting makes of them. -/
theorem mergeSort_eq_of_perm {ids sorted : List String} (hperm : ids.Perm sorted)
    (hsorted : sorted.Pairwise fun a b => precedes a b = true) : ids.mergeSort precedes = sorted :=
  ((List.mergeSort_perm ids precedes).trans hperm).eq_of_pairwise
    (fun _ _ _ _ => precedes_antisymm)
    (List.pairwise_mergeSort (fun a b c => precedes_trans (a := a) (b := b) (c := c))
      precedes_total ids) hsorted

/-- A test that tells two lists apart takes their members out of what they were shuffled into. -/
theorem filter_perm_of_perm_append {α : Type} {test : α → Bool} {l yes no : List α}
    (h : l.Perm (yes ++ no))
    (hyes : ∀ x ∈ yes, test x = true) (hno : ∀ x ∈ no, test x = false) :
    (l.filter test).Perm yes ∧ (l.filter fun x => !test x).Perm no := by
  have hin : (yes ++ no).filter test = yes := by
    rw [List.filter_append, List.filter_eq_self.mpr hyes,
      List.filter_eq_nil_iff (l := no).mpr fun x hx => by simp [hno x hx], List.append_nil]
  have hout : (yes ++ no).filter (fun x => !test x) = no := by
    rw [List.filter_append, List.filter_eq_nil_iff (l := yes).mpr fun x hx => by simp [hyes x hx],
      List.filter_eq_self.mpr fun x hx => by simp [hno x hx], List.nil_append]
  exact ⟨hin ▸ h.filter test, hout ▸ h.filter fun x => !test x⟩

/-- The numbered sinks come out in the order of their numbers, and the others stay
(`NodeProcess.takeSinks`), whatever order they were kept in. -/
theorem takeSinks_numbered {p : NodeProcess} {others : List String}
    (hsinks : p.sinks.Perm ((List.range n).map (fun i => stem ++ i.repr) ++ others))
    (hothers : ∀ id ∈ others, ¬ stem.toList <+: id.toList) :
    ∃ rest, rest.Perm others ∧
      p.takeSinks stem = ((List.range n).map (fun i => stem ++ i.repr),
        { p with sinks := rest }) := by
  have hnumbered : ∀ id ∈ (List.range n).map (fun i => stem ++ i.repr),
      stem.toList.isPrefixOf id.toList = true := by
    intro id hid
    obtain ⟨i, -, rfl⟩ := List.mem_map.mp hid
    rw [List.isPrefixOf_iff_prefix, String.toList_append]
    exact List.prefix_append _ _
  have hother : ∀ id ∈ others, stem.toList.isPrefixOf id.toList = false :=
    fun id hid => Bool.eq_false_iff.mpr (mt List.isPrefixOf_iff_prefix.mp (hothers id hid))
  obtain ⟨htaken, hleft⟩ := filter_perm_of_perm_append hsinks hnumbered hother
  refine ⟨_, hleft, ?_⟩
  rw [takeSinks, mergeSort_eq_of_perm htaken]
  exact List.pairwise_map.mpr (List.pairwise_lt_range.imp fun h => precedes_numbered stem
    (Nat.le_of_lt h))

end Patchbay.NodeProcess
