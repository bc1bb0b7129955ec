import Mathlib.Data.List.Pairwise
import Mathlib.Order.Compare
import PatchTriage.Proofs.Listings
import PatchTriage.Ranking.Score

/-!
# The order of scored patches

Measures are compared by their bit patterns, so that also a NaN has its place. The order is that of
the fields of a pattern (`Measure.TotalOrder`), and distances are compared by one field after the
other (`Distances.NotAfter`). Ranking is therefore a stable sort for a linear order, whatever the
measures are (`Scored.rank_stable`).
-/

namespace PatchTriage

open SortedList Distances

/-! ## Sorting by a linear preorder -/

namespace SortedList

variable {α : Type} {cmp : α → α → Ordering} [Std.TransCmp cmp]

theorem filter_sort {p : α → Bool} (hp : ∀ a b, p a = true → p b = true → (cmp a b).isLE = true)
    (l : List α) : (sort cmp l).filter p = l.filter p :=
  filter_mergeSort bne_gt_trans bne_gt_total (by simpa only [bne_gt_iff] using hp) l

theorem sort_sort (l : List α) : sort cmp (sort cmp l) = sort cmp l :=
  List.mergeSort_of_pairwise (by simpa only [bne_gt_iff] using pairwise_sort l)

/-- Elements of which no two are equal in the order come out in one order, however they came in. -/
theorem sort_eq_of_perm {l l' : List α} (h : l.Perm l')
    (hne : l.Pairwise fun a b => cmp a b ≠ .eq) : sort cmp l = sort cmp l' := by
  have hsymm : Std.Symm fun a b => cmp a b ≠ .eq := by
    constructor
    intro a b hab hba
    exact hab (Std.OrientedCmp.eq_symm hba)
  refine List.Perm.eq_of_pairwise ?_ (pairwise_sort l) (pairwise_sort l')
    ((perm_sort l).trans (h.trans (perm_sort l').symm))
  intro a b ha hb hab hba
  by_contra hdiffer
  have ha : a ∈ l := (perm_sort l).mem_iff.1 ha
  have hb : b ∈ l := h.mem_iff.2 ((perm_sort l').mem_iff.1 hb)
  exact hne.forall ha hb hdiffer (Std.OrientedCmp.isLE_antisymm hab hba)

end SortedList

/-! ## The order of measures -/

namespace Measure

def exponent (m : Measure) : Nat := m.bits.toNat / Nat.pow 2 52 % 2048

def fraction (m : Measure) : Nat := m.bits.toNat % Nat.pow 2 52

def Within (a b : Measure) : Prop :=
  a.exponent < b.exponent ∨ a.exponent = b.exponent ∧ a.fraction ≤ b.fraction

/-- The total order of binary64 numbers. Negative ones come first, those farther from zero before
those nearer to it, and negative zero before zero. The greatest exponent is that of the infinities
and, with a fraction, of NaNs. -/
def TotalOrder (a b : Measure) : Prop :=
  if Decimal.isNegative a.bits then Decimal.isNegative b.bits → b.Within a
  else ¬Decimal.isNegative b.bits ∧ a.Within b

theorem rank_le_iff {a b : Measure} : a.rank ≤ b.rank ↔ a.TotalOrder b := by
  have ha := a.bits.toNat_lt
  have hb := b.bits.toNat_lt
  simp only [rank, TotalOrder, Within, exponent, fraction, Decimal.isNegative,
    show Nat.pow 2 63 = 9223372036854775808 from rfl,
    show Nat.pow 2 52 = 4503599627370496 from rfl, decide_eq_true_eq]
  by_cases hna : 9223372036854775808 ≤ a.bits.toNat <;>
    by_cases hnb : 9223372036854775808 ≤ b.bits.toNat <;> simp [hna, hnb] <;> omega

theorem rank_injective : Function.Injective rank := by
  intro a b h
  have ha := a.bits.toNat_lt
  have hb := b.bits.toNat_lt
  have hbits : a.bits.toNat = b.bits.toNat := by
    simp only [rank, show Nat.pow 2 63 = 9223372036854775808 from rfl] at h
    split at h <;> split at h <;> omega
  exact congrArg Measure.mk (UInt64.toNat.inj hbits)

theorem compare_eq_compareOn : Measure.compare = compareOn rank := by
  funext a b
  exact cmp_eq_compare a.rank b.rank

theorem compare_eq_iff {a b : Measure} : a.compare b = .eq ↔ a = b := by
  rw [compare_eq_compareOn, compareOn, Std.compare_eq_iff_eq, rank_injective.eq_iff]

theorem isLE_compare {a b : Measure} : (a.compare b).isLE = true ↔ a.TotalOrder b := by
  rw [compare_eq_compareOn, compareOn, Std.isLE_compare, rank_le_iff]

end Measure

/-! ## The order of distances -/

namespace Distances

theorem compare_eq_compareLex : compare = compareLex
      (compareLex (compareOn fun d => d.trace.rank) (compareOn fun d => d.coverage.rank))
      (compareOn edit) := by
  funext a b
  rw [compare, Measure.compare_eq_compareOn]
  exact congrArg _ (cmp_eq_compare a.edit b.edit)

instance : Std.TransCmp compare := by
  rw [compare_eq_compareLex]
  infer_instance

theorem compare_eq_iff {a b : Distances} : a.compare b = .eq ↔ a = b := by
  obtain ⟨trace, coverage, edit⟩ := a
  obtain ⟨trace', coverage', edit'⟩ := b
  simp only [compare_eq_compareLex, compareLex, compareOn, Ordering.then_eq_eq,
    Std.compare_eq_iff_eq, Measure.rank_injective.eq_iff, mk.injEq, and_assoc]

/-- The traces decide; between equal ones the coverage does, and then the edits. -/
def NotAfter (a b : Distances) : Prop :=
  if a.trace ≠ b.trace then a.trace.TotalOrder b.trace
  else if a.coverage ≠ b.coverage then a.coverage.TotalOrder b.coverage
  else a.edit ≤ b.edit

theorem isLE_compare {a b : Distances} : (a.compare b).isLE = true ↔ a.NotAfter b := by
  have hedit : (if a.edit < b.edit then .lt else if b.edit < a.edit then .gt else .eq) =
      Ord.compare a.edit b.edit := cmp_eq_compare _ _
  rw [compare, NotAfter, hedit]
  simp only [ne_eq, ← Measure.compare_eq_iff, ← Measure.isLE_compare, ite_not]
  cases a.trace.compare b.trace <;> cases a.coverage.compare b.coverage <;>
    simp [Std.isLE_compare]

end Distances

/-! ## Ranking -/

namespace Scored

instance : Std.TransCmp fun a b : Scored => a.distances.compare b.distances where
  eq_swap := Std.OrientedCmp.eq_swap
  isLE_trans := Std.TransCmp.isLE_trans

/-- **Ranking is a stable sort for a linear order.**  Distances are ordered by their fields, each
measure by its bit pattern, NaNs, infinities and negative zero included. The patches come out
ascending, those with equal distances in the order they came in. Ranking again changes nothing, and
where all distances differ, the order the patches came in does not matter. -/
theorem rank_stable :
    Std.TransCmp Distances.compare ∧
    (∀ a b : Distances, ((a.compare b).isLE = true ↔ a.NotAfter b) ∧
      (a.compare b = .eq ↔ a = b)) ∧
    ∀ patches : List Scored,
      (rank patches).Perm patches ∧
      (rank patches).Pairwise (fun a b => (a.distances.compare b.distances).isLE = true) ∧
      (∀ d, (rank patches).filter (fun p => p.distances.compare d == .eq) =
        patches.filter fun p => p.distances.compare d == .eq) ∧
      rank (rank patches) = rank patches ∧
      ∀ others, patches.Perm others →
        patches.Pairwise (fun a b => a.distances.compare b.distances ≠ .eq) →
        rank patches = rank others := by
  refine ⟨inferInstance, fun a b => ⟨Distances.isLE_compare, Distances.compare_eq_iff⟩,
    fun patches => ⟨perm_sort _, pairwise_sort _, fun d => ?_,
      sort_sort _, fun others => sort_eq_of_perm⟩⟩
  apply filter_sort
  intro a b ha hb
  rw [beq_iff_eq, Distances.compare_eq_iff] at ha hb
  rw [ha, hb]
  exact Std.ReflCmp.isLE_rfl

theorem rank_patterns :
    rank [⟨['n'], ⟨⟨0x7FF8000000000000⟩, ⟨0⟩, 0⟩⟩, ⟨['z'], ⟨⟨0⟩, ⟨0⟩, 0⟩⟩,
        ⟨['i'], ⟨⟨0x7FF0000000000000⟩, ⟨0⟩, 9⟩⟩, ⟨['m'], ⟨⟨0x8000000000000000⟩, ⟨0⟩, 9⟩⟩] =
      [⟨['m'], ⟨⟨0x8000000000000000⟩, ⟨0⟩, 9⟩⟩, ⟨['z'], ⟨⟨0⟩, ⟨0⟩, 0⟩⟩,
        ⟨['i'], ⟨⟨0x7FF0000000000000⟩, ⟨0⟩, 9⟩⟩, ⟨['n'], ⟨⟨0x7FF8000000000000⟩, ⟨0⟩, 0⟩⟩] :=
  ((rank_stable.2.2 _).2.2.2.2 _ (by decide) (by decide)).trans
    (List.mergeSort_of_pairwise (by decide))

end Scored

end PatchTriage
