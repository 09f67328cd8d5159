import Patchbay.Node.Builtin.Compare
import Patchbay.Proofs.Number.Rounding

/-!
# Comparing whole numbers

A compare takes its operands for doubles. Two whole numbers that go to different doubles are in the
order of these, so that every operator has the exact outcome. Two that go to one double are taken
for equal (`Compare.evaluate_integers`).
-/

namespace Patchbay.Compare

/-- The exact outcome of an operator on whole numbers. -/
def exact (operator : String) (a b : Int) : Bool :=
  match operator with
  | "==" => a == b
  | "!=" => !(a == b)
  | "<" => decide (a < b)
  | "<=" => decide (a ≤ b)
  | ">" => decide (b < a)
  | _ => decide (b ≤ a)

/-- Two whole numbers go to one double. -/
def Merged (a b : Int64) : Prop := (Double.ofInt a.toInt).same (Double.ofInt b.toInt) = true

instance (a b : Int64) : Decidable (Merged a b) := inferInstanceAs (Decidable (_ = true))

theorem natAbs_toInt_le (a : Int64) : a.toInt.natAbs ≤ 2 ^ 63 := by
  have hlow := a.le_toInt
  have hhigh := a.toInt_lt
  omega

/-- Numbers that go to different doubles are in the order of these. -/
theorem lt_toInt_iff {a b : Int64} (h : ¬ Merged a b) :
    (Double.ofInt a.toInt).rank < (Double.ofInt b.toInt).rank ↔ a.toInt < b.toInt := by
  have hne : (Double.ofInt a.toInt).rank ≠ (Double.ofInt b.toInt).rank :=
    fun heq => h (Double.same_iff.mpr heq)
  constructor
  · intro hlt
    by_contra hge
    exact absurd (Double.rank_ofInt_mono (natAbs_toInt_le b) (natAbs_toInt_le a) (by omega))
      (by omega)
  · intro hlt
    have hle := Double.rank_ofInt_mono (natAbs_toInt_le a) (natAbs_toInt_le b) (Int.le_of_lt hlt)
    omega

theorem merged_comm {a b : Int64} : Merged a b ↔ Merged b a := by
  rw [Merged, Merged, Double.same_iff, Double.same_iff, eq_comm]

/-- An operator that is offered for whole numbers takes those of one double for equal; on others it
is exact. -/
theorem evaluate_eq_exact (a b : Int64) {op : String} (hop : op ∈ operatorsFor .integer) :
    evaluate op (.int a.toInt) (.int b.toInt) =
      some (exact op a.toInt (if Merged a b then a.toInt else b.toInt)) := by
  have hops : op = "==" ∨ op = "!=" ∨ op = "<" ∨ op = "<=" ∨ op = ">" ∨ op = ">=" := by
    simpa [operatorsFor] using hop
  by_cases h : Merged a b
  · have heq := Double.same_iff.mp h
    rw [if_pos h]
    rcases hops with rfl | rfl | rfl | rfl | rfl | rfl <;>
      simp [evaluate, equal, numeric, Json.double?, exact, Double.same, Double.lt, Double.le, heq]
  · have hab := lt_toInt_iff h
    have hba := lt_toInt_iff fun h' => h (merged_comm.mp h')
    have hne : a.toInt ≠ b.toInt :=
      fun heq => h (by rw [Merged, heq]; exact Double.same_iff.mpr rfl)
    have hrank : (Double.ofInt a.toInt).rank ≠ (Double.ofInt b.toInt).rank :=
      fun heq => h (Double.same_iff.mpr heq)
    have hle : (Double.ofInt a.toInt).rank ≤ (Double.ofInt b.toInt).rank ↔ a.toInt ≤ b.toInt := by
      rw [← not_lt, ← not_lt, hba]
    have hge : (Double.ofInt b.toInt).rank ≤ (Double.ofInt a.toInt).rank ↔ b.toInt ≤ a.toInt := by
      rw [← not_lt, ← not_lt, hab]
    rw [if_neg h]
    rcases hops with rfl | rfl | rfl | rfl | rfl | rfl <;>
      simp [evaluate, equal, numeric, Json.double?, exact, Double.same, Double.lt, Double.le, hab,
        hba, hle, hge, hne, hrank]

/-- Different whole numbers that go to one double are large and near each other. -/
theorem near_of_merged {a b : Int64} (h : Merged a b) : a = b ∨
    2 ^ 53 ≤ a.toInt.natAbs ∧ 2 ^ 53 ≤ b.toInt.natAbs ∧ (a.toInt - b.toInt).natAbs ≤ 1024 := by
  have hrank := Double.same_iff.mp h
  rcases lt_trichotomy a.toInt b.toInt with hlt | heq | hlt
  · have hnear := Double.near_of_rank_ofInt_eq (natAbs_toInt_le a) (natAbs_toInt_le b) hlt hrank
    exact .inr ⟨hnear.1, hnear.2.1, by omega⟩
  · exact .inl (Int64.toInt_inj.mp heq)
  · have hnear := Double.near_of_rank_ofInt_eq (natAbs_toInt_le b)
      (natAbs_toInt_le a) hlt hrank.symm
    exact .inr ⟨hnear.2.1, hnear.1, by omega⟩

/-- On whole numbers of 64 bits every operator has an outcome, the exact one (`Compare.exact`)
unless different numbers go to one double (`Compare.Merged`); then they are taken for equal. Such
numbers are past `2 ^ 53` and at most `1024` apart. -/
theorem evaluate_integers (a b : Int64) :
    (∀ op ∈ operatorsFor .integer, evaluate op (.int a.toInt) (.int b.toInt) =
      some (exact op a.toInt (if Merged a b then a.toInt else b.toInt))) ∧
    ((∀ op ∈ operatorsFor .integer, evaluate op (.int a.toInt) (.int b.toInt) =
      some (exact op a.toInt b.toInt)) ↔ (Merged a b → a = b)) ∧
    (Merged a b → a = b ∨
      2 ^ 53 ≤ a.toInt.natAbs ∧ 2 ^ 53 ≤ b.toInt.natAbs ∧ (a.toInt - b.toInt).natAbs ≤ 1024) := by
  refine ⟨fun op hop => evaluate_eq_exact a b hop,
    ⟨fun hexact hmerged => ?_, fun hmerged op hop => ?_⟩, near_of_merged⟩
  · have heq := hexact "==" (by decide)
    rw [evaluate_eq_exact a b (by decide), if_pos hmerged, Option.some_inj] at heq
    have hbeq : (a.toInt == a.toInt) = (a.toInt == b.toInt) := heq
    exact Int64.toInt_inj.mp (eq_of_beq (hbeq.symm.trans (beq_self_eq_true _)))
  · rw [evaluate_eq_exact a b hop]
    split
    · rw [hmerged ‹_›]
    · rfl

/-- Two neighbours past `2 ^ 53` are taken for equal. -/
theorem evaluate_neighbours :
    evaluate "==" (.int 9007199254740993) (.int 9007199254740992) = some true ∧
    evaluate ">" (.int 9007199254740993) (.int 9007199254740992) = some false := by
  have hmerged : Merged 9007199254740993 9007199254740992 := by decide +kernel
  have heval := (evaluate_integers 9007199254740993 9007199254740992).1
  rw [if_pos hmerged] at heval
  exact ⟨heval "==" (by decide), heval ">" (by decide)⟩

end Patchbay.Compare
