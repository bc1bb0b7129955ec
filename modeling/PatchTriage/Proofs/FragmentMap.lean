import PatchTriage.Patch.Fragment
import PatchTriage.Proofs.FileTree

/-!
# Fragments as a map

The fragments of a patch are a list in the order of their break points. What matters of it is which
fragment is found at which break point.
-/

namespace PatchTriage

open List Text SortedList Fragment Std.LawfulEqCmp BreakPoint

/-! ## The orders -/

namespace BreakPoint

theorem compare_eq_compareLex : compare =
      compareLex (fun a b => Text.compare a.file b.file) (compareOn line) := by
  funext a b
  rw [compare, compareLex, compareOn]
  congr 1
  split
  · exact (Std.compare_eq_lt.2 ‹_›).symm
  · split
    · exact (Std.compare_eq_gt.2 ‹_›).symm
    · exact (Std.compare_eq_iff_eq.2 (by omega)).symm

instance : Std.TransCmp compare := by
  have hfile : Std.TransCmp fun a b : BreakPoint => Text.compare a.file b.file :=
    { eq_swap := Std.OrientedCmp.eq_swap, isLE_trans := Std.TransCmp.isLE_trans }
  rw [compare_eq_compareLex]
  infer_instance

instance : Std.LawfulEqCmp compare where
  eq_of_compare {a b} h := by
    rw [compare_eq_compareLex, compareLex, Ordering.then_eq_eq, compareOn,
      Std.LawfulEqCmp.compare_eq_iff_eq, Std.compare_eq_iff_eq] at h
    obtain ⟨file, line⟩ := a
    exact (mk.injEq ..).mpr h

end BreakPoint

/-! ## Lists in order -/

namespace SortedList

variable {κ ν : Type} {cmp : κ → κ → Ordering} {join : ν → ν → ν} {m m' : List (κ × ν)}

def Ascending (cmp : κ → κ → Ordering) (m : List (κ × ν)) : Prop :=
  m.Pairwise fun a b => cmp a.1 b.1 = .lt

theorem find?_cons (k k' : κ) (v : ν) (m : List (κ × ν)) :
    find? cmp k ((k', v) :: m) = if cmp k k' = .eq then some v else find? cmp k m := rfl

theorem mem_keys_insertWith {k : κ} {v : ν} {e : κ × ν} (he : e ∈ insertWith cmp join k v m) :
    e.1 = k ∨ ∃ e' ∈ m, e'.1 = e.1 := by
  induction m with
  | nil =>
    rw [insertWith, mem_singleton] at he
    exact .inl (by rw [he])
  | cons first m ih =>
    obtain ⟨k₀, v₀⟩ := first
    rw [insertWith] at he
    cases hk : cmp k k₀ with
    | lt =>
      rw [hk, mem_cons] at he
      rcases he with rfl | he
      · exact .inl rfl
      · exact .inr ⟨e, he, rfl⟩
    | eq =>
      rw [hk, mem_cons] at he
      rcases he with rfl | he
      · exact .inr ⟨(k₀, v₀), mem_cons_self, rfl⟩
      · exact .inr ⟨e, mem_cons_of_mem _ he, rfl⟩
    | gt =>
      rw [hk, mem_cons] at he
      rcases he with rfl | he
      · exact .inr ⟨(k₀, v₀), mem_cons_self, rfl⟩
      · rcases ih he with hself | ⟨e', he', hkey⟩
        · exact .inl hself
        · exact .inr ⟨e', mem_cons_of_mem _ he', hkey⟩

section Lawful

variable [Std.TransCmp cmp]

theorem Ascending.insertWith (h : Ascending cmp m) (join : ν → ν → ν) (k : κ) (v : ν) :
    Ascending cmp (insertWith cmp join k v m) := by
  induction m with
  | nil => exact pairwise_singleton _ _
  | cons first m ih =>
    obtain ⟨k₀, v₀⟩ := first
    obtain ⟨hfirst, hrest⟩ := pairwise_cons.1 h
    rw [SortedList.insertWith]
    cases hk : cmp k k₀ with
    | lt =>
      refine pairwise_cons.2 ⟨fun e he => ?_, h⟩
      rcases mem_cons.1 he with rfl | he
      · exact hk
      · exact Std.TransCmp.lt_trans hk (hfirst e he)
    | eq => exact pairwise_cons.2 ⟨hfirst, hrest⟩
    | gt =>
      refine pairwise_cons.2 ⟨fun e he => ?_, ih hrest⟩
      rcases mem_keys_insertWith he with hself | ⟨e', he', hkey⟩
      · rw [hself]
        exact Std.OrientedCmp.gt_iff_lt.1 hk
      · rw [← hkey]
        exact hfirst e' he'

theorem find?_eq_none_of_lt {k : κ} (h : Ascending cmp m) (hk : ∀ e ∈ m.head?, cmp k e.1 = .lt) :
    find? cmp k m = none := by
  induction m with
  | nil => rfl
  | cons first m ih =>
    obtain ⟨k₀, v₀⟩ := first
    obtain ⟨hfirst, hrest⟩ := pairwise_cons.1 h
    have hlt : cmp k k₀ = .lt := hk (k₀, v₀) rfl
    rw [find?_cons, if_neg (by simp [hlt])]
    refine ih hrest fun e he => ?_
    exact Std.TransCmp.lt_trans hlt (hfirst e (mem_of_head? he))

/-- **What is found after an entry was added.** -/
theorem find?_insertWith [Std.LawfulEqCmp cmp] (h : Ascending cmp m) (join : ν → ν → ν)
    (k : κ) (v : ν) :
    find? cmp k (insertWith cmp join k v m) = Option.merge join (find? cmp k m) (some v) := by
  have hself : cmp k k = .eq := Std.ReflCmp.compare_self
  induction m with
  | nil => simp [insertWith, find?_cons, hself, find?]
  | cons first m ih =>
    obtain ⟨k₀, v₀⟩ := first
    obtain ⟨hfirst, hrest⟩ := pairwise_cons.1 h
    rw [insertWith]
    cases hk : cmp k k₀ with
    | lt =>
      have hnone : find? cmp k ((k₀, v₀) :: m) = none := by
        refine find?_eq_none_of_lt h ?_
        rintro e ⟨⟩
        exact hk
      rw [hnone]
      simp [find?_cons, hself]
    | eq => simp [find?_cons, hk]
    | gt => simp [find?_cons, hk, ih hrest]

end Lawful

theorem eq_nil_iff_find? [Std.ReflCmp cmp] : m = [] ↔ ∀ k, find? cmp k m = none := by
  constructor
  · rintro rfl k
    rfl
  · intro h
    cases m with
    | nil => rfl
    | cons first m =>
      obtain ⟨k₀, v₀⟩ := first
      exact absurd (h k₀) (by simp [find?_cons, Std.ReflCmp.compare_self])

theorem mem_iff_find? [Std.TransCmp cmp] [Std.LawfulEqCmp cmp] (h : Ascending cmp m)
    {k : κ} {v : ν} : (k, v) ∈ m ↔ find? cmp k m = some v := by
  induction m with
  | nil => simp [find?]
  | cons first m ih =>
    obtain ⟨k₀, v₀⟩ := first
    obtain ⟨hfirst, hrest⟩ := pairwise_cons.1 h
    rw [find?_cons, mem_cons, ih hrest]
    by_cases hk : k = k₀
    · subst hk
      have hself : cmp k k = .eq := Std.ReflCmp.compare_self
      have hnot : find? cmp k m ≠ some v :=
        fun hfind => by simpa [hself] using hfirst _ ((ih hrest).2 hfind)
      simp [hself, hnot, eq_comm]
    · have hoff : cmp k k₀ ≠ .eq := fun heq => hk (eq_of_compare heq)
      simp [hoff, hk]

/-! ## Sets in order -/

section Sets

variable {α : Type} {cmp : α → α → Ordering} [Std.LawfulEqCmp cmp] {a x : α} {set l l' : List α}

theorem mem_add_iff : x ∈ add cmp a set ↔ x = a ∨ x ∈ set := by
  induction set with
  | nil => simp [add]
  | cons b set ih =>
    rw [add]
    cases hab : cmp a b with
    | lt => simp
    | eq =>
      obtain rfl := eq_of_compare hab
      simp
    | gt => simp [ih, or_left_comm]

theorem mem_distinct_iff : x ∈ distinct cmp l ↔ x ∈ l := by
  have hfold : ∀ set, x ∈ l.foldl (fun set a => add cmp a set) set ↔ x ∈ set ∨ x ∈ l := by
    induction l with
    | nil => simp
    | cons a l ih =>
      intro set
      rw [foldl_cons, ih, mem_add_iff, mem_cons, or_comm (a := x = a), or_assoc]
  simpa [distinct] using hfold []

variable [Std.TransCmp cmp]

theorem pairwise_add (h : set.Pairwise (cmp · · = .lt)) :
    (add cmp a set).Pairwise (cmp · · = .lt) := by
  induction set with
  | nil => exact pairwise_singleton _ _
  | cons b set ih =>
    obtain ⟨hb, hset⟩ := pairwise_cons.1 h
    rw [add]
    cases hab : cmp a b with
    | lt =>
      refine pairwise_cons.2 ⟨fun x hx => ?_, h⟩
      rcases mem_cons.1 hx with rfl | hx
      · exact hab
      · exact Std.TransCmp.lt_trans hab (hb x hx)
    | eq => exact h
    | gt =>
      refine pairwise_cons.2 ⟨fun x hx => ?_, ih hset⟩
      rcases mem_add_iff.1 hx with rfl | hx
      · exact Std.OrientedCmp.gt_iff_lt.1 hab
      · exact hb x hx

theorem pairwise_distinct (l : List α) : (distinct cmp l).Pairwise (cmp · · = .lt) := by
  have hfold : ∀ set, set.Pairwise (cmp · · = .lt) →
      (l.foldl (fun set a => add cmp a set) set).Pairwise (cmp · · = .lt) := by
    induction l with
    | nil => exact fun set h => h
    | cons a l ih => exact fun set h => ih _ (pairwise_add h)
  exact hfold [] .nil

theorem nodup_distinct (l : List α) : (distinct cmp l).Nodup := by
  refine (pairwise_distinct l).imp fun {a b} hab heq => ?_
  simp [heq, Std.ReflCmp.compare_self] at hab

/-- A set is put in order in one way, in whatever order and however often its elements are given. -/
theorem distinct_congr (h : ∀ x, x ∈ l ↔ x ∈ l') : distinct cmp l = distinct cmp l' := by
  refine Perm.eq_of_pairwise ?_ (pairwise_distinct l) (pairwise_distinct l') ?_
  · intro a b _ _ hab hba
    have hself := Std.TransCmp.lt_trans hab hba
    simp [Std.ReflCmp.compare_self] at hself
  · rw [perm_ext_iff_of_nodup (nodup_distinct l) (nodup_distinct l')]
    simp [mem_distinct_iff, h]

end Sets

end SortedList

/-! ## Fragments -/

instance : Std.Associative merge where
  assoc f g h := by simp [Fragment.merge, append_assoc, Option.or_assoc]

namespace Fragments

def at? (fs : Fragments) (b : BreakPoint) : Option Fragment := find? BreakPoint.compare b fs

/-- In the order of their break points, each of which has one fragment. -/
def Ascending (fs : Fragments) : Prop := SortedList.Ascending BreakPoint.compare fs

variable {fs gs : Fragments}

theorem Ascending.add (h : fs.Ascending) (b : BreakPoint) (f : Fragment) :
    (Fragments.add b f fs).Ascending :=
  h.insertWith _ b f

theorem at?_add (h : fs.Ascending) (b : BreakPoint) (f : Fragment) (b' : BreakPoint) :
    (add b f fs).at? b' =
      if b' = b then Option.merge merge (fs.at? b) (some f) else fs.at? b' := by
  by_cases hb : b' = b
  · rw [if_pos hb, hb]
    exact SortedList.find?_insertWith h _ b f
  · rw [if_neg hb]
    exact find?_insertWith_of_ne hb _ f fs

theorem eq_nil_iff_at? : fs = [] ↔ ∀ b, fs.at? b = none := eq_nil_iff_find?

/-- `fs.IsUnion gs hs`: at each break point `fs` has what `gs` and `hs` have there, merged if both
of them have something. -/
def IsUnion (fs gs hs : Fragments) : Prop :=
  ∀ b, fs.at? b = Option.merge merge (gs.at? b) (hs.at? b)

theorem isUnion_nil (fs : Fragments) : fs.IsUnion fs [] := by
  intro b
  cases hb : fs.at? b <;> rfl

/-- An edit that is added to the second of two maps is added to their union. -/
theorem IsUnion.add {us : Fragments} (h : us.IsUnion fs gs) (hus : us.Ascending)
    (hgs : gs.Ascending)
    (b : BreakPoint) (f : Fragment) : (Fragments.add b f us).IsUnion fs (Fragments.add b f gs) := by
  intro b'
  rw [at?_add hus, at?_add hgs]
  by_cases hb : b' = b
  · rw [if_pos hb, if_pos hb, hb, h b]
    exact Std.Associative.assoc (fs.at? b) (gs.at? b) (some f)
  · rw [if_neg hb, if_neg hb]
    exact h b'

theorem IsUnion.eq_nil_iff {us : Fragments} (h : us.IsUnion fs gs) :
    us = [] ↔ fs = [] ∧ gs = [] := by
  simp only [eq_nil_iff_at?, h _, Option.merge_eq_none_iff, forall_and]

end Fragments

end PatchTriage
