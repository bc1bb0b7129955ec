import Mathlib.Data.List.Zip
import PatchTriage.Proofs.StateEffects

/-!
# Differences seen from the other side

The difference of two images consists of lines of three kinds (`Snapshot.Line`). Where it can be
told, so can the difference in the other direction, and each of its lines is the mirror image of the
line in the same place (`Snapshot.diff_mirrors`). The six cases of the comparison of sections are
mirror images of each other in pairs (`Snapshot.diffSections_reflects`).
-/

namespace PatchTriage.Snapshot

open List Image

/-! ## Lines and their mirror images -/

inductive Line where
  | size (old new : Nat)
  | oneSided (isNew : Bool) (s : Section)
  | window (c : Change)

def Change.mirror (c : Change) : Change :=
  ⟨c.addr, c.deltas.map fun d => .ofNat ((256 - d.toNat) % 256)⟩

namespace Line

def render : Line → Text
  | size old new => "size " ++ Text.ofNat old ++ ' ' :: Text.ofNat new ++ ['\n']
  | oneSided isNew s => renderOneSided (if isNew then '+' else '-') s
  | window c => c.line

def mirror : Line → Line
  | size old new => size new old
  | oneSided isNew s => oneSided (!isNew) s
  | window c => window c.mirror

end Line

/-- Two texts consist of lines of which each is the mirror image of the other in its place. -/
def Mirrors (t t' : Text) : Prop :=
  ∃ lines : List Line, t = lines.flatMap Line.render ∧
    t' = (lines.map Line.mirror).flatMap Line.render

theorem Mirrors.append {s s' t t' : Text} (hs : Mirrors s s') (ht : Mirrors t t') :
    Mirrors (s ++ t) (s' ++ t') := by
  obtain ⟨lines, rfl, rfl⟩ := hs
  obtain ⟨more, rfl, rfl⟩ := ht
  exact ⟨lines ++ more, by simp, by simp⟩

theorem mirrors_line (l : Line) : Mirrors l.render l.mirror.render := ⟨[l], by simp, by simp⟩

/-- Whenever the first gives a text, the second gives its mirror image. -/
def Reflects (x y : Except Overflow Text) : Prop := ∀ t, x = .ok t → ∃ t', y = .ok t' ∧ Mirrors t t'

namespace Reflects

variable {x x' y y' : Except Overflow Text}

theorem ok {t t' : Text} (h : Mirrors t t') : Reflects (.ok t) (.ok t') := by
  rintro _ ⟨⟩
  exact ⟨t', rfl, h⟩

theorem append (hx : Reflects x x') (hy : Reflects y y') :
    Reflects (x.bind fun s => y.map (s ++ ·)) (x'.bind fun s => y'.map (s ++ ·)) := by
  intro t ht
  cases x with
  | error e => cases ht
  | ok s =>
    cases y with
    | error e => cases ht
    | ok u =>
      obtain ⟨s', rfl, hs⟩ := hx s rfl
      obtain ⟨u', rfl, hu⟩ := hy u rfl
      cases ht
      exact ⟨_, rfl, hs.append hu⟩

theorem line (l : Line) (h : Reflects x y) :
    Reflects (x.map (l.render ++ ·)) (y.map (l.mirror.render ++ ·)) :=
  (ok (mirrors_line l)).append h

end Reflects

/-! ## The comparison -/

theorem isEqual_swap (w : Window) : (w.map Prod.swap).isEqual = w.isEqual := by
  rw [Window.isEqual, Window.isEqual, Window.map, all_map]
  congr 1
  funext p
  exact Bool.beq_comm

theorem change_swap (w : Window) : (w.map Prod.swap).change = w.change.mirror := by
  have hdelta (a b : UInt8) : .ofNat ((256 - (b - a).toNat) % 256) = a - b := by
    apply UInt8.toNat.inj
    have ha := a.toNat_lt
    have hb := b.toNat_lt
    rw [UInt8.toNat_ofNat', UInt8.toNat_sub, UInt8.toNat_sub]
    omega
  simp [Window.change, Window.map, Change.mirror, hdelta]

theorem changes_swap (base : Nat) (old new : Bytes) :
    changes (windowsFrom base [] (new.zip old)) =
      (changes (windowsFrom base [] (old.zip new))).map Change.mirror := by
  have hwindows := @windowsFrom_map base [] (old.zip new) Prod.swap
  rw [map_nil, zip_swap] at hwindows
  rw [hwindows, changes, changes, filter_map]
  simp [Function.comp_def, isEqual_swap, change_swap]

theorem diffBytes_reflects (base : Nat) (old new : Bytes) :
    Reflects (diffBytes base old new) (diffBytes base new old) := by
  intro t ht
  rw [diffBytes_eq] at ht ⊢
  split_ifs at ht with hfits
  cases ht
  have hfits' : ∀ c ∈ changes (windowsFrom base [] (new.zip old)), c.addr < Word.bound := by
    rw [changes_swap]
    simpa [Change.mirror] using hfits
  rw [if_pos hfits', changes_swap]
  refine ⟨_, rfl, (changes (windowsFrom base [] (old.zip new))).map .window, ?_, ?_⟩
  · rw [flatMap_map]
    rfl
  · rw [map_map, flatMap_map, flatMap_map]
    rfl

theorem diffSections_nil_right (old : List Section) :
    diffSections old [] = .ok (old.flatMap (renderOneSided '-')) := by
  induction old with
  | nil => rfl
  | cons a old ih =>
    rw [diffSections_nil, ih]
    rfl

theorem mirrors_oneSided (isNew : Bool) (list : List Section) :
    Mirrors (list.flatMap (renderOneSided (if isNew then '+' else '-')))
      (list.flatMap (renderOneSided (if !isNew then '+' else '-'))) := by
  refine ⟨list.map (.oneSided isNew), ?_, ?_⟩
  · rw [flatMap_map]
    rfl
  · rw [map_map, flatMap_map]
    rfl

/-- A section that one side has alone is so in the other direction too, and at one address the same
two sections meet. -/
theorem diffSections_reflects (old new : List Section) :
    Reflects (diffSections old new) (diffSections new old) := by
  induction old generalizing new with
  | nil =>
    rw [diffSections_nil_right, diffSections]
    exact .ok (mirrors_oneSided true new)
  | cons a old ih =>
    induction new with
    | nil =>
      rw [diffSections_nil_right, diffSections]
      exact .ok (mirrors_oneSided false (a :: old))
    | cons b new ihnew =>
      rcases Nat.lt_trichotomy a.addr b.addr with h | h | h
      · rw [diffSections_of_gt h, diffSections_of_lt h]
        exact (ih (b :: new)).line (.oneSided false a)
      · rw [diffSections_of_eq h, diffSections_of_eq h.symm, h]
        exact (diffBytes_reflects b.addr a.data b.data).append (ih new)
      · rw [diffSections_of_lt h, diffSections_of_gt h]
        exact ihnew.line (.oneSided true b)

theorem diffRaw_reflects (x y : Bytes) : Reflects (diffRaw x y) (diffRaw y x) := by
  have hsize : Mirrors (sizeLine x.length y.length) (sizeLine y.length x.length) := by
    by_cases h : x.length = y.length
    · rw [h, sizeLine, if_pos rfl]
      exact ⟨[], rfl, rfl⟩
    · rw [sizeLine, sizeLine, if_neg h, if_neg (Ne.symm h)]
      exact mirrors_line (.size x.length y.length)
  rw [diffRaw_eq, diffRaw_eq]
  exact (Reflects.ok hsize).append (diffBytes_reflects 0 x y)

theorem diff_reflects (x y : Bytes) : Reflects (diff x y) (diff y x) := by
  cases hx : sections? x with
  | error o =>
    intro t ht
    rw [diff, hx] at ht
    cases ht
  | ok a =>
    cases hy : sections? y with
    | error o =>
      intro t ht
      rw [diff, hx, hy] at ht
      cases ht
    | ok b =>
      by_cases h : a = none ∨ b = none
      · rw [diff_of_raw hx hy h, diff_of_raw hy hx h.symm]
        exact diffRaw_reflects x y
      · obtain ⟨⟨a, rfl⟩, b, rfl⟩ : (∃ s, a = some s) ∧ ∃ s, b = some s := by
          simpa [Option.ne_none_iff_exists'] using h
        rw [diff_of_sections hx hy, diff_of_sections hy hx]
        exact diffSections_reflects a b

theorem Mirrors.isEmpty_eq {t t' : Text} (h : Mirrors t t') : t.isEmpty = t'.isEmpty := by
  obtain ⟨lines, rfl, rfl⟩ := h
  have hline (l : Line) : l.render ≠ [] := by
    cases l <;> exact append_ne_nil_of_right_ne_nil _ (cons_ne_nil _ _)
  rw [Bool.eq_iff_iff]
  cases lines <;> simp [hline]

/-- **A difference and its mirror image.**  An image that can be read has no difference from itself.
Where the difference of two images can be told, it can be told in the other direction, and line by
line the sizes are exchanged, what was only there is only here, and every byte changes back. So it
does not matter which of two dumps comes first when it is asked whether they hold the same state. -/
theorem diff_mirrors :
    (∀ x found, sections? x = .ok found → diff x x = .ok []) ∧
    (∀ x y t, diff x y = .ok t → ∃ lines : List Line, t = lines.flatMap Line.render ∧
      diff y x = .ok ((lines.map Line.mirror).flatMap Line.render)) ∧
    ∀ (p q : Path) (host : Host) (w w' : World) (b : Bool),
      (Dump.sameState p q).run host w = (.ok b, w') ↔
        (Dump.sameState q p).run host w = (.ok b, w') := by
  refine ⟨fun x found hx => ?_, fun x y t ht => ?_, fun p q host w w' b => ?_⟩
  · exact diff_eq_nil_iff.2 ⟨_, _, State.of_eq hx, State.of_eq hx, .refl _⟩
  · obtain ⟨_, hback, lines, rfl, rfl⟩ := diff_reflects x y t ht
    exact ⟨lines, rfl, hback⟩
  · have hback (p q : Path) (h : (Dump.sameState p q).run host w = (.ok b, w')) :
        (Dump.sameState q p).run host w = (.ok b, w') := by
      rw [Dump.sameState_eq, Dump.run_onDiff] at h ⊢
      refine h.imp_right (Or.imp ?_ ?_)
      · exact And.imp_right fun hfiles => by rw [Bool.and_comm, hfiles]
      · rintro ⟨x, y, t, hx, hy, ht, rfl⟩
        obtain ⟨t', hback, hmirrors⟩ := diff_reflects x y t ht
        exact ⟨y, x, t', hy, hx, hback, hmirrors.isEmpty_eq⟩
    exact ⟨hback p q, hback q p⟩

/-- Images with their differences forth and back: one for each kind of line. -/
def samples : List (Bytes × Bytes × Text × Text) :=
  [(single [1], single [3], "0000000000001000 02\n", "0000000000001000 fe\n"),
    (single [1], ofSections [], "- 0000000000001000 01\n", "+ 0000000000001000 01\n"),
    ([1], [3, 4], "size 1 2\n0000000000000000 02\n", "size 2 1\n0000000000000000 fe\n")]

theorem diff_mirrors_samples :
    sections? (single [1]) = .ok (some [⟨0x1000, [1]⟩]) ∧ diff (single [1]) (single [1]) = .ok [] ∧
    ∀ s ∈ samples, diff s.1 s.2.1 = .ok s.2.2.1 ∧ diff s.2.1 s.1 = .ok s.2.2.2 ∧
      ∃ lines : List Line, s.2.2.1 = lines.flatMap Line.render ∧
        diff s.2.1 s.1 = .ok ((lines.map Line.mirror).flatMap Line.render) := by
  have hread : sections? (single [1]) = .ok (some [⟨0x1000, [1]⟩]) := by decide +kernel
  have hforth : ∀ s ∈ samples, diff s.1 s.2.1 = .ok s.2.2.1 := by decide +kernel
  have hback : ∀ s ∈ samples, diff s.2.1 s.1 = .ok s.2.2.2 := by decide +kernel
  obtain ⟨hrefl, hmirrors, -⟩ := diff_mirrors
  exact ⟨hread, hrefl _ _ hread, fun s hs =>
    ⟨hforth s hs, hback s hs, hmirrors _ _ _ (hforth s hs)⟩⟩

end PatchTriage.Snapshot
