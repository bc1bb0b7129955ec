import Mathlib
import PatchTriage.Proofs.FragmentMap
import PatchTriage.Ranking.Coverage
import PatchTriage.Ranking.Distance

/-!
# What the distances of a ranking measure

Two of the three distances are computed row by row. `along` says what a row holds, so that one step
from row to row is one unfolding of the recursion that the distance is defined by.
-/

namespace PatchTriage.Distance

open List

variable {α : Type}

/-! ## Rows -/

/-- The values of `f` at the beginnings of `right` that are not empty, each in front of `past`. What
was passed last comes first. -/
def along (f : List α → Nat) : (past right : List α) → List Nat
  | _, [] => []
  | past, b :: right => f (b :: past) :: along f (b :: past) right

theorem getElem?_along (f : List α → Nat) (past right : List α) :
    (f past :: along f past right)[right.length]? = some (f (right.reverse ++ past)) := by
  induction right generalizing past with
  | nil => rfl
  | cons b right ih =>
    rw [along, length_cons, getElem?_cons_succ, ih, reverse_cons, append_assoc]
    rfl

theorem length_along (f : List α → Nat) (past right : List α) :
    (along f past right).length = right.length := by
  induction right generalizing past with
  | nil => rfl
  | cons b right ih => rw [along, length_cons, ih, length_cons]

theorem getD_of_toList {row : Array Nat} {before after : List Nat} {v : Nat}
    (h : row.toList = before ++ v :: after) : row.getD before.length 0 = v := by
  rw [Array.getD_eq_getD_getElem?, ← Array.getElem?_toList, h]
  simp

section Loops

variable {f g : List α → Nat} {previous current : Array Nat} {right : List α}

/-- **One row.** It is filled with the values of `g` if the row above has those of `f`, whatever the
cells ahead have been left with. -/
theorem toList_fillRow {cell : Nat → Nat → Nat → α → Nat}
    (hcell : ∀ past b, cell (g past) (f (b :: past)) (f past) b = g (b :: past)) (past : List α)
    (above before : List Nat) {stale : List Nat}
    (hprevious : previous.toList = above ++ f past :: along f past right)
    (habove : above.length = past.length) (hcurrent : current.toList = before ++ g past :: stale)
    (hbefore : before.length = past.length) (hstale : stale.length = right.length) :
    (fillRow cell previous past.length right current).toList =
      before ++ g past :: along g past right := by
  induction right generalizing past current above before stale with
  | nil => rw [fillRow, hcurrent, length_eq_zero_iff.1 hstale, along]
  | cons b right ih =>
    obtain ⟨s, stale, rfl⟩ := exists_cons_of_length_eq_add_one hstale
    have hleft : current.getD past.length 0 = g past := hbefore ▸ getD_of_toList hcurrent
    have hdiagonal : previous.getD past.length 0 = f past := habove ▸ getD_of_toList hprevious
    have hup : previous.getD (past.length + 1) 0 = f (b :: past) := by
      rw [along, append_cons] at hprevious
      simpa [habove] using getD_of_toList hprevious
    have hwritten : (current.setIfInBounds (past.length + 1) (g (b :: past))).toList =
        (before ++ [g past]) ++ g (b :: past) :: stale := by
      rw [Array.toList_setIfInBounds, hcurrent, ← hbefore]
      simp
    rw [fillRow, hleft, hup, hdiagonal, hcell, along, append_cons]
    refine ih (b :: past) (above ++ [f past]) (before ++ [g past]) ?_ ?_ hwritten ?_ ?_
    · rw [hprevious, along, append_cons]
    · simp [habove]
    · simp [hbefore]
    · simpa using hstale

/-- A function of two lists that is computed in two rows, whose first cells are among `Q`. -/
structure Computes (start : Nat → Array Nat → Array Nat) (cell : α → Nat → Nat → Nat → α → Nat)
    (f : List α → List α → Nat) (Q : Nat → Prop) : Prop where
  zero : Q 0
  first : ∀ l, Q (f l [])
  start_eq : ∀ l a row c stale, Q c → row.toList = c :: stale →
    (start l.length row).toList = f (a :: l) [] :: stale
  cell_eq : ∀ a l past b,
    cell a (f (a :: l) past) (f l (b :: past)) (f l past) b = f (a :: l) (b :: past)

namespace Computes

variable {f : List α → List α → Nat} {Q : Nat → Prop} {start : Nat → Array Nat → Array Nat}
  {cell : α → Nat → Nat → Nat → α → Nat}

/-- **All rows.** The one that is given up next has any values but for its first cell. -/
theorem toList_lastRow (h : Computes start cell f Q) (past left : List α) {c : Nat}
    {stale : List Nat} (hprevious : previous.toList = f past [] :: along (f past) [] right)
    (hc : Q c) (hcurrent : current.toList = c :: stale) (hstale : stale.length = right.length) :
    (lastRow start cell right past.length left previous current).toList =
      f (left.reverse ++ past) [] :: along (f (left.reverse ++ past)) [] right := by
  induction left generalizing past previous current c stale with
  | nil => exact hprevious
  | cons a left ih =>
    have hrow := toList_fillRow (h.cell_eq a past) [] [] [] hprevious rfl
      (h.start_eq past a current c stale hc hcurrent) rfl hstale
    rw [lastRow, reverse_cons, append_assoc]
    exact ih (a :: past) hrow (h.first past) hprevious (length_along _ _ _)

theorem getD_lastRow (h : Computes start cell f Q) (left : List α)
    (hfirst : previous.toList = f [] [] :: along (f []) [] right) :
    (lastRow start cell right 0 left previous (Array.replicate (right.length + 1) 0)).getD
      right.length 0 = f left.reverse right.reverse := by
  have hlast := h.toList_lastRow [] left hfirst h.zero
    (Array.toList_replicate.trans replicate_succ) length_replicate
  rw [length_nil, append_nil] at hlast
  rw [Array.getD_eq_getD_getElem?, ← Array.getElem?_toList, hlast, getElem?_along, append_nil,
    Option.getD_some]

end Computes

end Loops

variable [DecidableEq α]

/-! ## The number of edits -/

def editsFrom : List α → List α → Nat
  | [], right => right.length
  | _ :: left, [] => left.length + 1
  | a :: left, b :: right =>
    min (min (editsFrom (a :: left) right + 1) (editsFrom left (b :: right) + 1))
      (editsFrom left right + if a = b then 0 else 1)
termination_by left right => left.length + right.length

@[simp]
theorem editsFrom_nil (left : List α) : editsFrom left [] = left.length := by
  cases left with
  | nil => rw [editsFrom]
  | cons a left => rw [editsFrom, length_cons]

theorem along_length (past right : List α) :
    along (editsFrom []) past right = range' (past.length + 1) right.length := by
  induction right generalizing past with
  | nil => rfl
  | cons b right ih => rw [along, ih, editsFrom, length_cons, length_cons, range'_succ]

theorem editsFrom_self (l : List α) : editsFrom l l = 0 := by
  induction l with
  | nil => simp
  | cons a l ih => simp [editsFrom, ih]

variable (left right : List α)

theorem computes_editsFrom :
    Computes (α := α) (fun i row => row.setIfInBounds 0 (i + 1)) editCell editsFrom
      fun _ => True where
  zero := trivial
  first _ := trivial
  start_eq l a row c stale _ h := by simp [Array.toList_setIfInBounds, h]
  cell_eq a l past b := by rw [editsFrom, editCell]

theorem edits_eq : edits left right = editsFrom left.reverse right.reverse := by
  have hfirst : (Array.range (right.length + 1)).toList =
      editsFrom ([] : List α) [] :: along (editsFrom []) [] right := by
    rw [along_length, Array.toList_range, range_eq_range', range'_succ, editsFrom_nil]
    rfl
  rw [edits]
  split
  · rename_i heq
    rw [heq, editsFrom_self]
  · exact computes_editsFrom.getD_lastRow left hfirst

/-! ## Edits of lists -/

section Edits

omit [DecidableEq α]

inductive Edit : List α → List α → Prop where
  | insert (s t : List α) (c : α) : Edit (s ++ t) (s ++ c :: t)
  | delete (s t : List α) (c : α) : Edit (s ++ c :: t) (s ++ t)
  | substitute (s t : List α) (a b : α) : Edit (s ++ a :: t) (s ++ b :: t)

/-- So many edits, one after the other, turn one list into the other. -/
inductive TurnsInto : Nat → List α → List α → Prop where
  | refl (l : List α) : TurnsInto 0 l l
  | step {n : Nat} {l m r : List α} : Edit l m → TurnsInto n m r → TurnsInto (n + 1) l r

variable {l m r : List α} {n k : Nat}

theorem Edit.symm (h : Edit l r) : Edit r l := by
  cases h with
  | insert s t c => exact .delete s t c
  | delete s t c => exact .insert s t c
  | substitute s t a b => exact .substitute s t b a

theorem Edit.cons (h : Edit l r) (x : α) : Edit (x :: l) (x :: r) := by
  cases h with
  | insert s t c => exact .insert (x :: s) t c
  | delete s t c => exact .delete (x :: s) t c
  | substitute s t a b => exact .substitute (x :: s) t a b

theorem Edit.reverse (h : Edit l r) : Edit l.reverse r.reverse := by
  cases h with
  | insert s t c => simpa using Edit.insert t.reverse s.reverse c
  | delete s t c => simpa using Edit.delete t.reverse s.reverse c
  | substitute s t a b => simpa using Edit.substitute t.reverse s.reverse a b

namespace TurnsInto

theorem map {f : List α → List α} (hf : ∀ {l r : List α}, Edit l r → Edit (f l) (f r))
    (h : TurnsInto n l r) : TurnsInto n (f l) (f r) := by
  induction h with
  | refl l => exact .refl _
  | step hedit _ ih => exact .step (hf hedit) ih

theorem trans (h : TurnsInto n l m) (h' : TurnsInto k m r) : TurnsInto (n + k) l r := by
  induction h with
  | refl l => rwa [Nat.zero_add]
  | step hedit _ ih =>
    rw [Nat.succ_add]
    exact .step hedit (ih h')

theorem symm (h : TurnsInto n l r) : TurnsInto n r l := by
  induction h with
  | refl l => exact .refl l
  | step hedit _ ih => exact ih.trans (.step hedit.symm (.refl _))

theorem zero_iff : TurnsInto 0 l r ↔ l = r := by
  constructor
  · rintro ⟨⟩
    rfl
  · rintro rfl
    exact .refl l

theorem insertAll (r : List α) : TurnsInto r.length [] r := by
  induction r with
  | nil => exact .refl []
  | cons b r ih => exact ih.trans (.step (.insert [] r b) (.refl _))

end TurnsInto

end Edits

theorem turnsInto_editsFrom : TurnsInto (editsFrom left right) left right := by
  fun_induction editsFrom left right with
  | case1 right => exact .insertAll right
  | case2 a left => exact (TurnsInto.insertAll (a :: left)).symm
  | case3 a left b right hinsert hdelete hkeep =>
    have hinserted : TurnsInto (editsFrom (a :: left) right + 1) (a :: left) (b :: right) :=
      hinsert.trans (.step (.insert [] right b) (.refl _))
    have hdeleted : TurnsInto (editsFrom left (b :: right) + 1) (a :: left) (b :: right) :=
      .step (.delete [] left a) hdelete
    have hkept : TurnsInto (editsFrom left right + if a = b then 0 else 1) (a :: left)
        (b :: right) := by
      have hbehind := hkeep.map fun h => h.cons b
      split
      · rename_i hab
        exact hab ▸ hbehind
      · exact .step (.substitute [] left a b) hbehind
    rcases min_choice (min (editsFrom (a :: left) right + 1) (editsFrom left (b :: right) + 1))
      (editsFrom left right + if a = b then 0 else 1) with h | h
    · rw [h]
      rcases min_choice (editsFrom (a :: left) right + 1)
        (editsFrom left (b :: right) + 1) with h | h
      · rwa [h]
      · rwa [h]
    · rwa [h]

/-! What one edit changes: the number of edits that are left drops by one at most. -/

theorem editsFrom_cons_le (a : α) (left right : List α) :
    editsFrom (a :: left) right ≤ editsFrom left right + 1 := by
  cases right with
  | nil => simp
  | cons b right =>
    rw [editsFrom]
    omega

theorem editsFrom_le_cons (a : α) (left right : List α) :
    editsFrom left right ≤ editsFrom (a :: left) right + 1 := by
  have hright (b : α) (right : List α) :
      editsFrom left (b :: right) ≤ editsFrom left right + 1 := by
    cases left with
    | nil => simp [editsFrom]
    | cons c left =>
      rw [editsFrom]
      omega
  induction right with
  | nil => simp; omega
  | cons b right ih =>
    have hb := hright b right
    rw [editsFrom]
    omega

theorem editsFrom_cons_cons_le (a b : α) (left right : List α) :
    editsFrom (a :: left) right ≤ editsFrom (b :: left) right + 1 := by
  induction right with
  | nil => simp
  | cons c right ih =>
    rw [editsFrom, editsFrom]
    split <;> split <;> omega

theorem editsFrom_behind {l r : List α}
    (h : ∀ right, editsFrom l right ≤ editsFrom r right + 1) (a : α)
    (right : List α) : editsFrom (a :: l) right ≤ editsFrom (a :: r) right + 1 := by
  induction right with
  | nil => simpa using h []
  | cons b right ih =>
    have hb := h (b :: right)
    have hright := h right
    rw [editsFrom, editsFrom]
    omega

/-- One edit brings two lists no more than one step closer. -/
theorem Edit.editsFrom_le {l r : List α} (h : Edit l r) (right : List α) :
    editsFrom l right ≤ editsFrom r right + 1 := by
  have hahead {l r : List α} (h : ∀ right, editsFrom l right ≤ editsFrom r right + 1)
      (s right : List α) :
      editsFrom (s ++ l) right ≤ editsFrom (s ++ r) right + 1 := by
    induction s generalizing right with
    | nil => exact h right
    | cons a s ih => exact editsFrom_behind ih a right
  cases h with
  | insert s t c => exact hahead (editsFrom_le_cons c t) s right
  | delete s t c => exact hahead (editsFrom_cons_le c t) s right
  | substitute s t a b => exact hahead (editsFrom_cons_cons_le a b t) s right

theorem TurnsInto.editsFrom_le {n : Nat} {l r : List α} (h : TurnsInto n l r) :
    editsFrom l r ≤ n := by
  induction h with
  | refl l => rw [editsFrom_self]
  | step hedit _ ih => exact (hedit.editsFrom_le _).trans (Nat.add_le_add_right ih 1)

theorem turnsInto_edits : TurnsInto (edits left right) left right := by
  rw [edits_eq]
  simpa using (turnsInto_editsFrom left.reverse right.reverse).map Edit.reverse

theorem TurnsInto.edits_le {n : Nat} {left right : List α} (h : TurnsInto n left right) :
    edits left right ≤ n := by
  rw [edits_eq]
  exact (h.map Edit.reverse).editsFrom_le

/-- **The distance of two texts** is the least number of edits that turn one into the other, and
hence a metric. -/
theorem edits_isLeast (left right : List α) :
    IsLeast {n | TurnsInto n left right} (edits left right) ∧
      (edits left right = 0 ↔ left = right) ∧
      edits left right = edits right left ∧
      ∀ middle, edits left right ≤ edits left middle + edits middle right := by
  refine ⟨⟨turnsInto_edits left right, fun n h => h.edits_le⟩, ⟨fun h => ?_, ?_⟩, ?_,
    fun middle => ?_⟩
  · exact TurnsInto.zero_iff.1 (h ▸ turnsInto_edits left right)
  · rintro rfl
    exact Nat.le_zero.1 (TurnsInto.refl left).edits_le
  · exact (turnsInto_edits right left).symm.edits_le.antisymm
      (turnsInto_edits left right).symm.edits_le
  · exact ((turnsInto_edits left middle).trans (turnsInto_edits middle right)).edits_le

example : edits ("kitten" : Text) "sitting" = 3 := by decide +kernel

/-! ## Common subsequences -/

/-- The length of a longest common subsequence, by what is done with the first elements. -/
def commonFrom : List α → List α → Nat
  | [], _ | _ :: _, [] => 0
  | a :: left, b :: right =>
    if a = b then commonFrom left right + 1
    else max (commonFrom (a :: left) right) (commonFrom left (b :: right))
termination_by left right => left.length + right.length

@[simp]
theorem commonFrom_nil (left : List α) : commonFrom left [] = 0 := by
  cases left with
  | nil | cons a left => rw [commonFrom]

theorem computes_commonFrom :
    Computes (α := α) (fun _ row => row) commonCell commonFrom (· = 0) where
  zero := rfl
  first := commonFrom_nil
  start_eq l a row c stale hc h := by rw [h, hc, commonFrom_nil]
  cell_eq a l past b := by rw [commonFrom, commonCell]

theorem common_eq : common left right = commonFrom left.reverse right.reverse := by
  have hzeros (past right : List α) :
      along (commonFrom []) past right = replicate right.length 0 := by
    induction right generalizing past with
    | nil => rfl
    | cons b right ih => rw [along, ih, commonFrom, length_cons, replicate_succ]
  refine computes_commonFrom.getD_lastRow left ?_
  rw [hzeros, commonFrom_nil, Array.toList_replicate, replicate_succ]

theorem exists_commonFrom :
    ∃ s : List α, s.Sublist left ∧ s.Sublist right ∧ s.length = commonFrom left right := by
  fun_induction commonFrom left right with
  | case1 right | case2 a left => exact ⟨[], nil_sublist _, nil_sublist _, rfl⟩
  | case3 left b right ih =>
    obtain ⟨s, hleft, hright, hlength⟩ := ih
    exact ⟨b :: s, hleft.cons_cons b, hright.cons_cons b, by rw [length_cons, hlength]⟩
  | case4 a left b right hab ihright ihleft =>
    obtain ⟨s, hleft, hright, hlength⟩ := ihright
    obtain ⟨s', hleft', hright', hlength'⟩ := ihleft
    rcases max_choice (commonFrom (a :: left) right) (commonFrom left (b :: right)) with h | h
    · exact ⟨s, hleft, hright.cons b, by rw [h, hlength]⟩
    · exact ⟨s', hleft'.cons a, hright', by rw [h, hlength']⟩

theorem length_le_commonFrom {s left right : List α} (hleft : s.Sublist left)
    (hright : s.Sublist right) :
    s.length ≤ commonFrom left right := by
  fun_induction commonFrom left right generalizing s with
  | case1 right => simp [sublist_nil.1 hleft]
  | case2 a left => simp [sublist_nil.1 hright]
  | case3 left b right ih =>
    -- Where the first elements agree it does no harm to take them: what follows the first element
    -- of `s` is common to what follows them.
    have htail := ih hleft.tail hright.tail
    rw [length_tail] at htail
    omega
  | case4 a left b right hab ihright ihleft =>
    rcases sublist_cons_iff.1 hleft with hskip | ⟨s', rfl, -⟩
    · exact (ihleft hskip hright).trans (le_max_right _ _)
    · rcases sublist_cons_iff.1 hright with hskip | ⟨s', heq, -⟩
      · exact (ihright hleft hskip).trans (le_max_left _ _)
      · exact absurd (cons.inj heq).1 hab

theorem isGreatest_common :
    IsGreatest {n | ∃ s : List α, s.Sublist left ∧ s.Sublist right ∧
      s.length = n} (common left right) := by
  rw [common_eq]
  constructor
  · obtain ⟨s, hleft, hright, hlength⟩ := exists_commonFrom left.reverse right.reverse
    exact ⟨s.reverse, by simpa using hleft.reverse, by simpa using hright.reverse,
      by simpa using hlength⟩
  · rintro _ ⟨s, hleft, hright, rfl⟩
    simpa using length_le_commonFrom hleft.reverse hright.reverse

theorem common_comm : common left right = common right left := by
  have hle (left right : List α) : common left right ≤ common right left := by
    obtain ⟨s, hleft, hright, hlength⟩ := (isGreatest_common left right).1
    exact (isGreatest_common right left).2 ⟨s, hright, hleft, hlength⟩
  exact (hle left right).antisymm (hle right left)

theorem common_le : common left right ≤ min left.length right.length := by
  obtain ⟨s, hleft, hright, hlength⟩ := (isGreatest_common left right).1
  rw [← hlength]
  exact le_min hleft.length_le hright.length_le

theorem common_eq_max_iff {left right : List α} :
    common left right = max left.length right.length ↔ left = right := by
  obtain ⟨s, hleft, hright, hlength⟩ := (isGreatest_common left right).1
  constructor
  · intro h
    rw [h] at hlength
    have hl : s = left := hleft.eq_of_length_le (by omega)
    have hr : s = right := hright.eq_of_length_le (by omega)
    rw [← hl, hr]
  · rintro rfl
    have hself := (isGreatest_common left left).2 ⟨left, .refl left, .refl left, rfl⟩
    have hle := common_le left left
    omega

def share (patched unpatched : List α) : ℚ := shareIn Nat.cast patched unpatched

theorem share_eq (h : max left.length right.length ≠ 0) :
    share left right = 1 - (common left right : ℚ) / (max left.length right.length : ℕ) := by
  rw [share, shareIn, if_neg h, Nat.cast_one]

theorem share_nil : share ([] : List α) [] = 0 := by simp [share, shareIn]

/-- **The common part of two traces** is as long as a longest subsequence of both, and the exact
distance lies between zero, for equal traces only, and one. -/
theorem common_isGreatest (left right : List α) :
    IsGreatest {n | ∃ s : List α, s.Sublist left ∧ s.Sublist right ∧
      s.length = n} (common left right) ∧
      common left right = common right left ∧
      common left right ≤ min left.length right.length ∧
      (common left right = max left.length right.length ↔ left = right) ∧
      share left right ∈ Set.Icc 0 1 ∧
      (share left right = 0 ↔ left = right) := by
  refine ⟨isGreatest_common left right, common_comm left right, common_le left right,
    common_eq_max_iff, ?_⟩
  by_cases hlong : max left.length right.length = 0
  · obtain ⟨rfl, rfl⟩ : left = [] ∧ right = [] := by
      simpa using hlong
    simp [share_nil]
  · have hne : ((max left.length right.length : ℕ) : ℚ) ≠ 0 := Nat.cast_ne_zero.2 hlong
    have hle : common left right ≤ max left.length right.length :=
      (common_le left right).trans min_le_max
    have hfraction : (common left right : ℚ) / (max left.length right.length : ℕ) ≤ 1 :=
      div_le_one_of_le₀ (Nat.cast_le.2 hle) (Nat.cast_nonneg _)
    rw [share_eq left right hlong]
    refine ⟨⟨sub_nonneg.2 hfraction, sub_le_self _ (by positivity)⟩, ?_⟩
    rw [sub_eq_zero, eq_comm, div_eq_one_iff_eq hne, Nat.cast_inj, common_eq_max_iff]

example : common [1, 2, 3, 5] [1, 3, 4, 5] = 3 := by decide

end PatchTriage.Distance

namespace PatchTriage

/-! ## Coverages -/

theorem Word.bound_eq : bound = 2 ^ 64 := rfl

theorem Word.foldlM_add {ι : Type} (term : ι → Nat) (l : List ι) {sum : Nat} (h : sum < bound) :
    l.foldlM (fun sum i => add sum (term i)) sum =
      if sum + (l.map term).sum < bound then .ok (sum + (l.map term).sum) else .error .add := by
  induction l generalizing sum with
  | nil => simp [h, pure, Except.pure]
  | cons i l ih =>
    rw [List.foldlM_cons, add, List.map_cons, List.sum_cons, ← Nat.add_assoc]
    by_cases hi : sum + term i < bound
    · rw [if_pos hi]
      exact ih hi
    · rw [if_neg hi, if_neg (by omega)]
      rfl

namespace Coverage

variable {a b c : Coverage}

def support (a : Coverage) : Finset Text := (a.map Prod.fst).toFinset

def exactDistance (a b : Coverage) : Nat :=
  ∑ edge ∈ a.support ∪ b.support, ((count a edge : ℤ) - count b edge).natAbs

theorem count_eq_zero {edge : Text} (h : edge ∉ a.support) : count a edge = 0 := by
  have hnone : SortedList.find? Text.compare edge a = none := by
    induction a with
    | nil => rfl
    | cons e a ih =>
      obtain ⟨hne, hrest⟩ : edge ≠ e.1 ∧ edge ∉ support a := by simpa [support] using h
      rw [SortedList.find?, if_neg (mt Std.LawfulEqCmp.eq_of_compare hne), ih hrest]
  rw [count, hnone, Option.getD_none]

theorem exactDistance_eq_sum {s : Finset Text} (h : a.support ∪ b.support ⊆ s) :
    exactDistance a b = ∑ edge ∈ s, ((count a edge : ℤ) - count b edge).natAbs := by
  refine Finset.sum_subset h fun edge _ hedge => ?_
  rw [Finset.notMem_union] at hedge
  rw [count_eq_zero hedge.1, count_eq_zero hedge.2]
  rfl

theorem sum_edges (a b : Coverage) :
    ((edges a b).map fun edge => gap (count a edge) (count b edge)).sum = exactDistance a b := by
  have hgap (m n : Nat) : gap m n = ((m : ℤ) - n).natAbs := by
    rw [gap]
    split <;> omega
  have hedges : (edges a b).toFinset = a.support ∪ b.support := by
    ext edge
    simp [edges, support, SortedList.mem_distinct_iff]
  have hnodup : (edges a b).Nodup := SortedList.nodup_distinct _
  rw [exactDistance, ← hedges, List.sum_toFinset _ hnodup]
  simp only [hgap]

theorem distance_eq (a b : Coverage) :
    distance a b = if exactDistance a b < 2 ^ 64 then .ok (exactDistance a b) else .error .add := by
  rw [distance, Word.foldlM_add _ _ (by decide), sum_edges, Nat.zero_add, Word.bound_eq]

theorem exactDistance_comm (a b : Coverage) : exactDistance a b = exactDistance b a := by
  rw [exactDistance, exactDistance, Finset.union_comm]
  exact Finset.sum_congr rfl fun edge _ => by omega

theorem exactDistance_eq_zero_iff :
    exactDistance a b = 0 ↔ ∀ edge, count a edge = count b edge := by
  rw [exactDistance, Finset.sum_eq_zero_iff]
  constructor
  · intro h edge
    by_cases hedge : edge ∈ a.support ∪ b.support
    · have hgap := h edge hedge
      omega
    · rw [Finset.notMem_union] at hedge
      rw [count_eq_zero hedge.1, count_eq_zero hedge.2]
  · intro h edge _
    rw [h edge, sub_self]
    rfl

theorem exactDistance_triangle (a b c : Coverage) :
    exactDistance a c ≤ exactDistance a b + exactDistance b c := by
  -- All three sums are taken over the edges of all three coverages.
  have hsum {x y : Coverage} (hx : x.support ⊆ a.support ∪ b.support ∪ c.support)
      (hy : y.support ⊆ a.support ∪ b.support ∪ c.support) :=
        exactDistance_eq_sum (Finset.union_subset hx hy)
  have ha : a.support ⊆ a.support ∪ b.support ∪ c.support := by grind
  have hb : b.support ⊆ a.support ∪ b.support ∪ c.support := by grind
  have hc : c.support ⊆ a.support ∪ b.support ∪ c.support := by grind
  rw [hsum ha hc, hsum ha hb, hsum hb hc, ← Finset.sum_add_distrib]
  exact Finset.sum_le_sum fun edge _ => by omega

/-- **The distance of two coverages** is the exact sum of the differences of their counts; only one
that is no word is an overflow. Where it is defined it is a metric, up to counts of zero. -/
theorem distance_exact (a b c : Coverage) :
    (distance a b = .error .add ↔ 2 ^ 64 ≤ exactDistance a b) ∧
      (∀ n, distance a b = .ok n ↔ n = exactDistance a b ∧ exactDistance a b < 2 ^ 64) ∧
      distance a b = distance b a ∧
      (distance a b = .ok 0 ↔ ∀ edge, count a edge = count b edge) ∧
      ∀ x y z, distance a c = .ok x → distance a b = .ok y → distance b c = .ok z → x ≤ y + z := by
  have hok (a b : Coverage) (n : Nat) :
      distance a b = .ok n ↔ n = exactDistance a b ∧ exactDistance a b < 2 ^ 64 := by
    rw [distance_eq]
    split <;> simp_all [eq_comm]
  refine ⟨?_, hok a b, ?_, ?_, ?_⟩
  · rw [distance_eq]
    split <;> simp_all
  · rw [distance_eq, distance_eq, exactDistance_comm]
  · rw [hok, ← exactDistance_eq_zero_iff]
    omega
  · intro x y z hx hy hz
    obtain ⟨rfl, -⟩ := (hok a c x).1 hx
    obtain ⟨rfl, -⟩ := (hok a b y).1 hy
    obtain ⟨rfl, -⟩ := (hok b c z).1 hz
    exact exactDistance_triangle a b c

theorem distance_exact_extremes :
    let full : Coverage := [("a", 18446744073709551615)]
    distance full [] = .ok 18446744073709551615 ∧
      distance full [("a", 1)] = .ok 18446744073709551614 ∧ distance [("a", 1)] [] = .ok 1 ∧
      18446744073709551615 ≤ 18446744073709551614 + 1 := by
  intro full
  have hfar : distance full [] = .ok 18446744073709551615 := by decide +kernel
  have hnear : distance full [("a", 1)] = .ok 18446744073709551614 := by decide +kernel
  have hone : distance [("a", 1)] [] = .ok 1 := by decide +kernel
  exact ⟨hfar, hnear, hone, (distance_exact full [("a", 1)] []).2.2.2.2 _ _ _ hfar hnear hone⟩

end Coverage

end PatchTriage
