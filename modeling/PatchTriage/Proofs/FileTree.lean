import Mathlib.Data.List.Basic
import PatchTriage.World.FileTree

/-!
# Laws of file trees

What is at a place after a change is given by `FileTree.node?_put` and `FileTree.node?_erase`; all
other facts come from these.
-/

namespace PatchTriage

open List Text PatchTriage.Path SortedList Std.LawfulEqCmp

/-! ## Comparisons -/

theorem Text.compare_eq_compareLex :
    Text.compare = List.compareLex (compareOn fun c : Char => c.val) := by
  funext s t
  induction s generalizing t with
  | nil => cases t <;> rfl
  | cons a s ih =>
    cases t with
    | nil => rfl
    | cons b t =>
      rw [compare, List.compareLex_cons_cons, ← ih, compareOn]
      by_cases hlt : a.val < b.val
      · rw [if_pos hlt, Std.compare_eq_lt.2 hlt]
        rfl
      · by_cases hgt : b.val < a.val
        · rw [if_neg hlt, if_pos hgt, Std.compare_eq_gt.2 hgt]
          rfl
        · have heq : a.val = b.val := UInt32.le_antisymm (UInt32.not_lt.1 hgt) (UInt32.not_lt.1 hlt)
          rw [if_neg hlt, if_neg hgt, Std.compare_eq_iff_eq.2 heq]
          rfl

instance : Std.TransCmp Text.compare := by
  rw [compare_eq_compareLex]
  infer_instance

instance : Std.LawfulEqCmp Text.compare := by
  have hchar : Std.LawfulEqCmp (compareOn fun c : Char => c.val) :=
    ⟨fun h => Char.ext (Std.compare_eq_iff_eq.1 h)⟩
  rw [compare_eq_compareLex]
  infer_instance

namespace SortedList

variable {κ ν α : Type}

theorem compareLists_eq_compareLex (cmp : α → α → Ordering) :
    compareLists cmp = List.compareLex cmp := by
  funext s t
  induction s generalizing t with
  | nil => cases t <;> rfl
  | cons a s ih =>
    cases t with
    | nil => rfl
    | cons b t => rw [compareLists, List.compareLex_cons_cons, ih]

variable {cmp : κ → κ → Ordering} [Std.LawfulEqCmp cmp] {k k' : κ}

theorem find?_insert_self (k : κ) (v : ν) (m : List (κ × ν)) :
    find? cmp k (insert cmp k v m) = some v := by
  have hrefl : cmp k k = .eq := Std.ReflCmp.compare_self
  induction m with
  | nil => simp [insert, insertWith, find?, hrefl]
  | cons e m ih =>
    obtain ⟨k', v'⟩ := e
    rw [insert, insertWith]
    cases hk : cmp k k' with
    | lt => simp [find?, hrefl]
    | eq => simp [find?, hk]
    | gt => simpa [find?, hk, insert] using ih

theorem find?_insertWith_of_ne (hne : k' ≠ k) (join : ν → ν → ν) (v : ν) (m : List (κ × ν)) :
    find? cmp k' (insertWith cmp join k v m) = find? cmp k' m := by
  have hoff : cmp k' k ≠ .eq := mt eq_of_compare hne
  induction m with
  | nil => simp [insertWith, find?, hoff]
  | cons first m ih =>
    obtain ⟨k₀, v₀⟩ := first
    rw [insertWith]
    cases hk : cmp k k₀ with
    | lt => simp [find?, hoff]
    | eq =>
      obtain rfl : k = k₀ := eq_of_compare hk
      simp [find?, hoff]
    | gt => simp [find?, ih]

theorem find?_insert_of_ne (hne : k' ≠ k) (v : ν) (m : List (κ × ν)) :
    find? cmp k' (insert cmp k v m) = find? cmp k' m :=
  find?_insertWith_of_ne hne _ v m

end SortedList

namespace FileTree

instance : Std.LawfulEqCmp comparePlaces := by
  have hlists : Std.LawfulEqCmp (compareLists Text.compare) := by
    rw [compareLists_eq_compareLex]
    infer_instance
  exact hlists

/-! ## What is at a place -/

@[simp] theorem node?_root (t : FileTree) : t.node? [] = some .dir := rfl

theorem node?_put_self {k : Place} (hk : k ≠ []) (t : FileTree) (n : Node) :
    (t.put k n).node? k = some n := by
  simp only [node?, put, List.isEmpty_iff, hk, if_false]
  exact find?_insert_self k n t

theorem node?_put_of_ne {k k' : Place} (hne : k' ≠ k) (t : FileTree) (n : Node) :
    (t.put k n).node? k' = t.node? k' := by
  by_cases hk : k = []
  · simp [put, hk]
  · by_cases hk' : k' = []
    · simp [hk']
    · simp only [node?, put, List.isEmpty_iff, hk, hk', if_false]
      exact find?_insert_of_ne hne n t

theorem node?_put {k : Place} (hk : k ≠ []) (t : FileTree) (n : Node) (k' : Place) :
    (t.put k n).node? k' = if k' = k then some n else t.node? k' := by
  by_cases h : k' = k
  · rw [if_pos h, h, node?_put_self hk]
  · rw [if_neg h, node?_put_of_ne h]

theorem node?_erase {k' : Place} (hk' : k' ≠ []) (k : Place) (t : FileTree) :
    (t.erase k).node? k' = if k' = k then none else t.node? k' := by
  simp only [node?, List.isEmpty_iff, hk', if_false, erase]
  induction t with
  | nil => simp [SortedList.find?]
  | cons e t ih =>
    obtain ⟨k₀, n⟩ := e
    have hoff (hne : k' ≠ k₀) : comparePlaces k' k₀ ≠ .eq := mt eq_of_compare hne
    rw [List.filter_cons]
    by_cases hk₀ : k₀ = k
    · by_cases hk : k' = k <;> simp_all [SortedList.find?]
    · by_cases hk : k' = k₀ <;> simp_all [SortedList.find?]

theorem node?_erase_of_ne {k k' : Place} (hne : k' ≠ k) (t : FileTree) :
    (t.erase k).node? k' = t.node? k' := by
  by_cases hk' : k' = []
  · simp [hk']
  · rw [node?_erase hk', if_neg hne]

/-! ## Ways through a tree -/

section Ways

variable {t : FileTree} {mayEnter : Place → Bool} {last : Bool}

def Enters (t : FileTree) (mayEnter : Place → Bool) (k : Place) : Prop :=
  t.node? k = some .dir ∧ mayEnter k = true

structure IsName (piece : Text) : Prop where
  ne_here : piece ≠ ['.']
  ne_up : piece ≠ ['.', '.']
  short : byteLength piece ≤ maxNameLength

/-- `Leads t mayEnter last n k ps r`: the pieces `ps` lead from the place `k` to the place `r`,
through at most `n` symbolic links. A link at the very end is followed only if `last`. -/
inductive Leads (t : FileTree) (mayEnter : Place → Bool) (last : Bool) :
    Nat → Place → List Text → Place → Prop
  | nil {n : Nat} {k : Place} : Leads t mayEnter last n k [] k
  | here {n : Nat} {k r : Place} {rest : List Text} :
    Enters t mayEnter k → Leads t mayEnter last n k rest r →
      Leads t mayEnter last n k (['.'] :: rest) r
  | up {n : Nat} {k r : Place} {rest : List Text} :
      Enters t mayEnter k → Leads t mayEnter last n k.dropLast rest r →
      Leads t mayEnter last n k (['.', '.'] :: rest) r
  | name {n : Nat} {k r : Place} {piece : Text} {rest : List Text} :
    Enters t mayEnter k → IsName piece →
      (∀ target, t.node? (k ++ [piece]) ≠ some (.link target)) →
      Leads t mayEnter last n (k ++ [piece]) rest r → Leads t mayEnter last n k (piece :: rest) r
  | link {n : Nat} {k : Place} {piece target : Text} :
      Enters t mayEnter k → IsName piece → t.node? (k ++ [piece]) = some (.link target) →
      last = false → Leads t mayEnter last n k [piece] (k ++ [piece])
  | follow {n : Nat} {k r : Place} {piece target : Text} {rest : List Text} :
      Enters t mayEnter k → IsName piece → t.node? (k ++ [piece]) = some (.link target) →
      (rest.isEmpty && !last) = false →
      Leads t mayEnter last n (if isAbsolute target then [] else k) (pieces target ++ rest) r →
      Leads t mayEnter last (n + 1) k (piece :: rest) r

variable {jump : Place → List Text → Except IoError Place} {n : Nat} {k r : Place} {ps : List Text}

theorem walkWith_of_not_enters {piece : Text} {rest : List Text} (hk : ¬ Enters t mayEnter k) :
    t.walkWith mayEnter last jump k (piece :: rest) ≠ .ok r := by
  rw [walkWith]
  split
  · simp
  · rename_i hdir
    have hmay : mayEnter k = false := by
      cases h : mayEnter k with
      | false => rfl
      | true => exact absurd ⟨hdir, h⟩ hk
    simp [hmay]
  · simp

theorem walkWith_of_enters {piece : Text} {rest : List Text} (hk : Enters t mayEnter k) :
    t.walkWith mayEnter last jump k (piece :: rest) =
      if piece = ['.'] then t.walkWith mayEnter last jump k rest
      else if piece = ['.', '.'] then t.walkWith mayEnter last jump k.dropLast rest
      else if maxNameLength < byteLength piece then .error .invalidFilename
      else match t.node? (k ++ [piece]) with
        | some (.link target) =>
          if rest.isEmpty && !last then .ok (k ++ [piece])
          else jump (if isAbsolute target then [] else k) (pieces target ++ rest)
        | _ => t.walkWith mayEnter last jump (k ++ [piece]) rest := by
  have henter : ¬ (!mayEnter k) = true := by simp [hk.2]
  rw [walkWith, hk.1]
  exact if_neg henter

/-- A way, as far as the first symbolic link that is followed, is a way if `jump` goes on with
one. -/
theorem leads_of_walkWith
    (hjump : ∀ {k ps r}, jump k ps = .ok r → ∃ m, n = m + 1 ∧ Leads t mayEnter last m k ps r) :
    ∀ {k r : Place}, t.walkWith mayEnter last jump k ps = .ok r →
      Leads t mayEnter last n k ps r := by
  induction ps with
  | nil => intro k r hw; cases hw; exact .nil
  | cons piece rest ih =>
    intro k r hw
    by_cases hk : Enters t mayEnter k
    · rw [walkWith_of_enters hk] at hw
      by_cases hdot : piece = ['.']
      · subst hdot; exact .here hk (ih hw)
      by_cases hup : piece = ['.', '.']
      · subst hup; exact .up hk (ih hw)
      by_cases hlong : maxNameLength < byteLength piece
      · simp [hdot, hup, hlong] at hw
      have hname : IsName piece := ⟨hdot, hup, Nat.not_lt.1 hlong⟩
      rw [if_neg hdot, if_neg hup, if_neg hlong] at hw
      split at hw
      · rename_i target hlink
        by_cases hend : (rest.isEmpty && !last) = true
        · rw [if_pos hend] at hw
          cases hw
          obtain ⟨hrest, hlast⟩ := by simpa using hend
          subst hrest
          exact .link hk hname hlink hlast
        · rw [if_neg hend] at hw
          obtain ⟨m, rfl, hm⟩ := hjump hw
          exact .follow hk hname hlink (by simpa using hend) hm
      · rename_i hlink
        exact .name hk hname hlink (ih hw)
    · exact absurd hw (walkWith_of_not_enters hk)

/-- **The rules of ways are the ones that `walk` follows.** -/
theorem walk_eq_ok_iff : t.walk mayEnter last n k ps = .ok r ↔ Leads t mayEnter last n k ps r := by
  constructor
  · intro hw
    induction n generalizing k ps r with
    | zero => exact leads_of_walkWith (fun h => by cases h) hw
    | succ n ih => exact leads_of_walkWith (fun h => ⟨n, rfl, ih h⟩) hw
  · intro hl
    induction hl with
    | @nil n k => cases n <;> rfl
    | @here n k r rest hk _ ih =>
      cases n <;> (rw [walk, walkWith_of_enters hk, if_pos rfl]; exact ih)
    | @up n k r rest hk _ ih =>
      cases n <;> (rw [walk, walkWith_of_enters hk, if_neg (by simp), if_pos rfl]; exact ih)
    | @name n k r piece rest hk hname hlink _ ih =>
      cases n <;>
      · rw [walk, walkWith_of_enters hk, if_neg hname.ne_here, if_neg hname.ne_up,
          if_neg (Nat.not_lt.2 hname.short)]
        split
        · rename_i target ht; exact absurd ht (hlink target)
        · exact ih
    | @link n k piece target hk hname hlink hlast =>
      cases n <;> (rw [walk, walkWith_of_enters hk, if_neg hname.ne_here, if_neg hname.ne_up,
          if_neg (Nat.not_lt.2 hname.short), hlink]; simp [hlast])
    | follow hk hname hlink hgoes _ ih =>
      rw [walk, walkWith_of_enters hk, if_neg hname.ne_here, if_neg hname.ne_up,
        if_neg (Nat.not_lt.2 hname.short), hlink]
      simp only [hgoes]
      exact ih

theorem Leads.unique {r' : Place} (h : Leads t mayEnter last n k ps r)
    (h' : Leads t mayEnter last n k ps r') : r = r' := by
  have hr := walk_eq_ok_iff.2 h
  rw [walk_eq_ok_iff.2 h'] at hr
  exact (Except.ok.inj hr).symm

/-- A way on which the last link is not followed, and that does not end at a link, is a way on which
it is. -/
theorem Leads.follows (h : Leads t mayEnter false n k ps r)
    (hr : ∀ target, t.node? r ≠ some (.link target)) :
    Leads t mayEnter true n k ps r := by
  induction h with
  | nil => exact .nil
  | here hk _ ih => exact .here hk (ih hr)
  | up hk _ ih => exact .up hk (ih hr)
  | name hk hname hlink _ ih => exact .name hk hname hlink (ih hr)
  | link hk hname hlink _ => exact absurd hlink (hr _)
  | follow hk hname hlink _ _ ih => exact .follow hk hname hlink (by simp) (ih hr)

theorem Leads.of_free (h : Leads t mayEnter last n k ps r) (hr : t.node? r = none) :
    Leads t mayEnter true n k ps r := by
  cases last with
  | true => exact h
  | false => exact h.follows fun target ht => by rw [hr] at ht; cases ht

/-- Where a path leads somewhere with its last link followed, it leads to the same place, or to that
link, without. -/
theorem Leads.stops (h : Leads t mayEnter true n k ps r) : Leads t mayEnter false n k ps r ∨
      ∃ r' target, Leads t mayEnter false n k ps r' ∧ t.node? r' = some (.link target) := by
  induction h with
  | nil => exact .inl .nil
  | here hk _ ih =>
    rcases ih with ih | ⟨r', target, hl, hr'⟩
    · exact .inl (.here hk ih)
    · exact .inr ⟨r', target, .here hk hl, hr'⟩
  | up hk _ ih =>
    rcases ih with ih | ⟨r', target, hl, hr'⟩
    · exact .inl (.up hk ih)
    · exact .inr ⟨r', target, .up hk hl, hr'⟩
  | name hk hname hlink _ ih =>
    rcases ih with ih | ⟨r', target, hl, hr'⟩
    · exact .inl (.name hk hname hlink ih)
    · exact .inr ⟨r', target, .name hk hname hlink hl, hr'⟩
  | link _ _ _ hlast => cases hlast
  | @follow n k r piece target rest hk hname hlink _ _ ih =>
    by_cases hrest : rest = []
    · subst hrest
      exact .inr ⟨_, _, .link hk hname hlink rfl, hlink⟩
    · have hgoes : (rest.isEmpty && !false) = false := by simp [hrest]
      rcases ih with ih | ⟨r', target', hl, hr'⟩
      · exact .inl (.follow hk hname hlink hgoes ih)
      · exact .inr ⟨r', target', .follow hk hname hlink hgoes hl, hr'⟩

end Ways

/-! ## Where a path leads -/

structure Usable (p : Path) : Prop where
  noNul : '\x00' ∉ p
  nonempty : p ≠ []
  short : byteLength p ≤ maxPathLength

def Entry.of (p : Path) (k : Place) : Entry :=
  let named := match (pieces p).getLast? with
    | none => false
    | some piece => piece ≠ ['.'] && piece ≠ ['.', '.']
  { place := k, named, closed := named && p.getLast? == some '/' }

def startOf (cwd : Place) (p : Path) : Place := if isAbsolute p then [] else cwd

variable {t : FileTree} {cwd : Place} {p : Path} {kn : Place × Node}

variable {mayEnter : Place → Bool}

open Entry

theorem locateBy_eq_ok_iff {follow : Bool} {e : Entry} :
    t.locateBy mayEnter follow cwd p = .ok e ↔ Usable p ∧
      ∃ k, Leads t mayEnter (follow || p.getLast? == some '/') maxLinks (startOf cwd p)
        (pieces p) k ∧
        e = of p k := by
  simp only [← walk_eq_ok_iff, startOf]
  rw [locateBy]
  by_cases hnul : '\x00' ∈ p
  · rw [if_pos hnul]
    exact ⟨nofun, fun h => absurd hnul h.1.noNul⟩
  rw [if_neg hnul]
  by_cases hempty : p.isEmpty = true
  · rw [if_pos hempty]
    exact ⟨nofun, fun h => absurd (isEmpty_iff.1 hempty) h.1.nonempty⟩
  rw [if_neg hempty]
  by_cases hlong : maxPathLength < byteLength p
  · rw [if_pos hlong]
    exact ⟨nofun, fun h => absurd h.1.short (Nat.not_le.2 hlong)⟩
  rw [if_neg hlong]
  have husable : Usable p := ⟨hnul, fun h => hempty (isEmpty_iff.2 h), Nat.not_lt.1 hlong⟩
  cases hw : t.walk mayEnter (follow || p.getLast? == some '/') maxLinks
      (if isAbsolute p then [] else cwd) (pieces p) with
  | error e' =>
    simp only [reduceCtorEq, false_and, exists_false, and_false, iff_false]
    simp only [bind, Except.bind, hw]
    exact nofun
  | ok k =>
    simp only [bind, Except.bind, hw]
    constructor
    · intro h; cases h; exact ⟨husable, k, rfl, rfl⟩
    · rintro ⟨-, k', hk, rfl⟩; cases hk; rfl

theorem stat_eq_ok_iff :
    t.stat cwd p = .ok kn ↔ ∃ e, t.locateBy (fun _ => true) true cwd p = .ok e ∧
      e.node t = .ok kn := by
  rw [stat, locate]
  cases he : t.locateBy (fun _ => true) true cwd p with
  | error e | ok e => simp [bind, Except.bind]

theorem lstat_eq_ok_iff : t.lstat cwd p = .ok kn ↔
      ∃ e, t.locateBy (fun _ => true) false cwd p = .ok e ∧ e.node t = .ok kn := by
  rw [lstat]
  cases he : t.locateBy (fun _ => true) false cwd p with
  | error e | ok e => simp [bind, Except.bind]

theorem Entry.node_eq_ok_iff {e : Entry} : e.node t = .ok kn ↔
      kn.1 = e.place ∧ t.node? e.place = some kn.2 ∧ (e.closed = true → kn.2 = .dir) := by
  obtain ⟨k, n⟩ := kn
  rw [node]
  cases hk : t.node? e.place with
  | none => simp
  | some m =>
    by_cases hclosed : (e.closed && decide (m ≠ .dir)) = true
    · simp only [hclosed, if_true]
      simp only [Bool.and_eq_true, decide_eq_true_eq] at hclosed
      constructor
      · nofun
      · rintro ⟨-, hm, hdir⟩
        cases hm
        exact absurd (hdir hclosed.1) hclosed.2
    · simp only [hclosed]
      simp only [Bool.and_eq_true, decide_eq_true_eq, not_and, not_not] at hclosed
      constructor
      · intro h; cases h; exact ⟨rfl, rfl, hclosed⟩
      · rintro ⟨rfl, hm, -⟩; cases hm; rfl

/-- Whether a path ends with a name and a separator, so that only a directory can be meant. -/
def closes (p : Path) : Bool := (of p []).closed

def Node.IsFile : Node → Prop
  | .file _ _ | .tool _ => True
  | _ => False

theorem isFile_iff : t.isFile cwd p = true ↔ Usable p ∧ closes p = false ∧
      ∃ k n, Leads t (fun _ => true) true maxLinks (startOf cwd p) (pieces p) k ∧
        t.node? k = some n ∧ Node.IsFile n := by
  have hstat : t.isFile cwd p = true ↔ ∃ k n, t.stat cwd p = .ok (k, n) ∧ Node.IsFile n := by
    rw [isFile]
    cases hs : t.stat cwd p with
    | error e => simp
    | ok kn =>
      obtain ⟨k, n⟩ := kn
      cases n <;> simp [Node.IsFile]
  rw [hstat]
  constructor
  · rintro ⟨k, n, hs, hn⟩
    obtain ⟨e, he, hen⟩ := stat_eq_ok_iff.1 hs
    obtain ⟨hp, k', hl, rfl⟩ := locateBy_eq_ok_iff.1 he
    obtain ⟨-, hk, hdir⟩ := node_eq_ok_iff.1 hen
    refine ⟨hp, ?_, k', n, hl, hk, hn⟩
    -- were the path closed, there would be a directory
    cases hc : closes p with
    | false => rfl
    | true => rw [show n = .dir from hdir hc] at hn; exact hn.elim
  · rintro ⟨hp, hopen, k, n, hl, hk, hn⟩
    refine ⟨k, n, stat_eq_ok_iff.2 ⟨.of p k, locateBy_eq_ok_iff.2 ⟨hp, k, hl, rfl⟩, ?_⟩, hn⟩
    exact node_eq_ok_iff.2 ⟨rfl, hk, fun hc => absurd (hopen.symm.trans hc) (by simp)⟩

/-- The place that a path leads to, where a symbolic link at its end is not followed. -/
abbrev LeadsTo (t : FileTree) (cwd : Place) (p : Path) (k : Place) : Prop :=
  Leads t (fun _ => true) (p.getLast? == some '/') maxLinks (startOf cwd p) (pieces p) k

/-- There is something where a path leads, be it only a symbolic link. -/
def Occupied (t : FileTree) (cwd : Place) (p : Path) : Prop := ∃ kn, t.lstat cwd p = .ok kn

theorem occupied_iff : t.Occupied cwd p ↔ Usable p ∧
      ∃ k n, t.LeadsTo cwd p k ∧ t.node? k = some n ∧ (closes p = true → n = .dir) := by
  constructor
  · rintro ⟨⟨k, n⟩, hs⟩
    obtain ⟨e, he, hen⟩ := lstat_eq_ok_iff.1 hs
    obtain ⟨hp, k', hl, rfl⟩ := locateBy_eq_ok_iff.1 he
    obtain ⟨-, hk, hdir⟩ := node_eq_ok_iff.1 hen
    exact ⟨hp, k', n, hl, hk, hdir⟩
  · rintro ⟨hp, k, n, hl, hk, hdir⟩
    exact ⟨(k, n), lstat_eq_ok_iff.2 ⟨.of p k, locateBy_eq_ok_iff.2 ⟨hp, k, hl, rfl⟩,
      node_eq_ok_iff.2 ⟨rfl, hk, hdir⟩⟩⟩

theorem occupied_of_isFile (h : t.isFile cwd p = true) : t.Occupied cwd p := by
  obtain ⟨hp, hopen, k, n, hl, hk, hn⟩ := isFile_iff.1 h
  have hdir (m : Node) : closes p = true → m = .dir :=
    fun hc => absurd (hopen.symm.trans hc) (by simp)
  simp only [occupied_iff, LeadsTo]
  cases hend : p.getLast? == some '/' with
  | true => exact ⟨hp, k, n, hl, hk, hdir n⟩
  | false =>
    rcases hl.stops with hl | ⟨r, target, hl, hr⟩
    · exact ⟨hp, k, n, hl, hk, hdir n⟩
    · exact ⟨hp, r, .link target, hl, hr, hdir _⟩

/-! ## Trees that only grow -/

/-- The directories of `t` are directories of `t'`, and both have the same symbolic links. -/
structure KeepsWays (t t' : FileTree) : Prop where
  dirs : ∀ k, t.node? k = some .dir → t'.node? k = some .dir
  links : ∀ k target, t'.node? k = some (.link target) ↔ t.node? k = some (.link target)

/-- A way through a tree is the same way through a tree that keeps ways. -/
theorem KeepsWays.leads {t' : FileTree} (h : KeepsWays t t') {mayEnter : Place → Bool}
    {last : Bool} {n : Nat}
    {k r : Place} {ps : List Text} (hl : Leads t mayEnter last n k ps r) :
    Leads t' mayEnter last n k ps r := by
  have henters {k : Place} (hk : Enters t mayEnter k) : Enters t' mayEnter k :=
    ⟨h.dirs k hk.1, hk.2⟩
  induction hl with
  | nil => exact .nil
  | here hk _ ih => exact .here (henters hk) ih
  | up hk _ ih => exact .up (henters hk) ih
  | name hk hname hlink _ ih =>
    exact .name (henters hk) hname (fun target ht => hlink target ((h.links _ _).1 ht)) ih
  | link hk hname hlink hlast => exact .link (henters hk) hname ((h.links _ _).2 hlink) hlast
  | follow hk hname hlink hgoes _ ih =>
    exact .follow (henters hk) hname ((h.links _ _).2 hlink) hgoes ih

/-- Everything in `t` is still there in `t'`, and what is new in `t'` is no symbolic link. -/
structure Extends (t t' : FileTree) : Prop where
  keeps : ∀ k n, t.node? k = some n → t'.node? k = some n
  noLink : ∀ k target, t'.node? k = some (.link target) → t.node? k = some (.link target)

namespace Extends

variable {t' t'' : FileTree}

theorem refl (t : FileTree) : Extends t t := ⟨fun _ _ h => h, fun _ _ h => h⟩

theorem trans (h : Extends t t') (h' : Extends t' t'') : Extends t t'' :=
  ⟨fun k n hn => h'.keeps k n (h.keeps k n hn),
    fun k target hl => h.noLink k target (h'.noLink k target hl)⟩

theorem put {k : Place} {n : Node} (hk : t.node? k = none) (hn : ∀ target, n ≠ .link target) :
    Extends t (t.put k n) := by
  have hroot : k ≠ [] := by rintro rfl; simp at hk
  constructor
  · intro k' m hm
    have hne : k' ≠ k := by rintro rfl; rw [hk] at hm; cases hm
    rwa [node?_put_of_ne hne]
  · intro k' target hl
    rw [node?_put hroot] at hl
    split at hl
    · exact absurd (Option.some.inj hl) (hn target)
    · exact hl

theorem keepsWays (h : Extends t t') : KeepsWays t t' :=
  ⟨fun k => h.keeps k _, fun k target => ⟨h.noLink k target, h.keeps k _⟩⟩

theorem leads (h : Extends t t') {mayEnter : Place → Bool} {last : Bool} {n : Nat} {k r : Place}
    {ps : List Text} (hl : Leads t mayEnter last n k ps r) : Leads t' mayEnter last n k ps r :=
  h.keepsWays.leads hl

/-- **A file stays a file.** -/
theorem isFile (h : Extends t t') (hf : t.isFile cwd p = true) : t'.isFile cwd p = true := by
  obtain ⟨hp, hopen, k, n, hl, hk, hn⟩ := isFile_iff.1 hf
  exact isFile_iff.2 ⟨hp, hopen, k, n, h.leads hl, h.keeps _ _ hk, hn⟩

theorem occupied (h : Extends t t') (ho : t.Occupied cwd p) : t'.Occupied cwd p := by
  obtain ⟨hp, k, n, hl, hk, hdir⟩ := occupied_iff.1 ho
  exact occupied_iff.2 ⟨hp, k, n, h.leads hl, h.keeps _ _ hk, hdir⟩

end Extends

/-! ## New files -/

theorem walkWith_ne_alreadyExists {last : Bool} {jump : Place → List Text → Except IoError Place}
    (hjump : ∀ k ps, jump k ps ≠ .error .alreadyExists) {ps : List Text} :
    ∀ {k : Place}, t.walkWith mayEnter last jump k ps ≠ .error .alreadyExists := by
  induction ps with
  | nil => intro k; simp [walkWith]
  | cons piece rest ih =>
    intro k
    rw [walkWith]
    repeat' split
    all_goals first | exact ih | exact hjump _ _ | simp

theorem walk_ne_alreadyExists {last : Bool} {n : Nat}
    {k : Place} {ps : List Text} : t.walk mayEnter last n k ps ≠ .error .alreadyExists := by
  induction n generalizing k ps with
  | zero => exact walkWith_ne_alreadyExists (by simp)
  | succ n ih => exact walkWith_ne_alreadyExists fun _ _ => ih

theorem locateBy_ne_alreadyExists {follow : Bool} :
    t.locateBy mayEnter follow cwd p ≠ .error .alreadyExists := by
  rw [locateBy]
  split
  · simp
  split
  · simp
  split
  · simp
  intro h
  simp only [bind, Except.bind] at h
  split at h
  · rename_i e hw
    cases h
    exact walk_ne_alreadyExists hw
  · cases h

section NewFile

variable {t' : FileTree} {bytes : Bytes}

theorem createNew_of_leads {k : Place} (hp : Usable p)
    (hl : t.LeadsTo cwd p k) : t.createNew cwd p bytes =
      if closes p then .error .isADirectory
      else match t.node? k with
        | none => .ok (t.put k (.file bytes false))
        | some _ => .error .alreadyExists := by
  have he : t.locateBy (fun _ => true) false cwd p = .ok (.of p k) :=
    locateBy_eq_ok_iff.2 ⟨hp, k, hl, rfl⟩
  rw [createNew, he]
  simp only [bind, Except.bind]
  by_cases hc : closes p = true
  · rw [if_pos hc, if_pos (show (of p k).closed = true from hc)]
    rfl
  · rw [if_neg hc, if_neg (show ¬ (of p k).closed = true from hc)]
    rfl

/-- **New files.**  Either the path leads somewhere, and what is there decides, or it is refused for
leading nowhere. -/
theorem createNew_cases (t : FileTree) (cwd : Place) (p : Path) (bytes : Bytes) :
    (Usable p ∧ ∃ k, t.LeadsTo cwd p k) ∨
      ∃ e, t.createNew cwd p bytes = .error e ∧ e ≠ .alreadyExists := by
  cases he : t.locateBy (fun _ => true) false cwd p with
  | ok e =>
    obtain ⟨hp, k, hl, -⟩ := locateBy_eq_ok_iff.1 he
    exact .inl ⟨hp, k, hl⟩
  | error e =>
    refine .inr ⟨e, ?_, ?_⟩
    · rw [createNew, he]
      rfl
    · rintro rfl
      exact locateBy_ne_alreadyExists he

theorem createNew_eq_ok (h : t.createNew cwd p bytes = .ok t') : Usable p ∧ closes p = false ∧
    ∃ k, t.LeadsTo cwd p k ∧ t.node? k = none ∧ t' = t.put k (.file bytes false) := by
  obtain ⟨hp, k, hl⟩ | ⟨e, he, -⟩ := createNew_cases t cwd p bytes
  · rw [createNew_of_leads hp hl] at h
    cases hc : closes p with
    | true => rw [hc] at h; cases h
    | false =>
      rw [hc] at h
      cases hk : t.node? k with
      | some n => rw [hk] at h; cases h
      | none => rw [hk] at h; exact ⟨hp, rfl, k, hl, hk, (Except.ok.inj h).symm⟩
  · rw [he] at h
    cases h

/-- **A new file is there, and nothing else has changed.** -/
theorem createNew_spec (h : t.createNew cwd p bytes = .ok t') :
    ¬ t.Occupied cwd p ∧ Extends t t' ∧ t'.isFile cwd p = true := by
  obtain ⟨hp, hc, k, hl, hk, rfl⟩ := createNew_eq_ok h
  have hroot : k ≠ [] := by rintro rfl; simp at hk
  have hext : Extends t (t.put k (.file bytes false)) := .put hk nofun
  refine ⟨?_, hext, isFile_iff.2 ⟨hp, hc, k, _, hext.leads (hl.of_free hk),
    node?_put_self hroot .., trivial⟩⟩
  intro ho
  obtain ⟨-, k', n, hl', hk', -⟩ := occupied_iff.1 ho
  rw [← hl.unique hl', hk] at hk'
  cases hk'

theorem occupied_of_createNew (h : t.createNew cwd p bytes = .error .alreadyExists) :
    t.Occupied cwd p := by
  obtain ⟨hp, k, hl⟩ | ⟨e, he, hne⟩ := createNew_cases t cwd p bytes
  · rw [createNew_of_leads hp hl] at h
    cases hc : closes p with
    | true => rw [hc] at h; cases h
    | false =>
      rw [hc] at h
      cases hk : t.node? k with
      | none => rw [hk] at h; cases h
      | some n => exact occupied_iff.2 ⟨hp, k, n, hl, hk, fun h => by rw [hc] at h; cases h⟩
  · rw [he] at h
    exact absurd (Except.error.inj h) hne

end NewFile

/-! ## New directories -/

section NewDirectory

variable {t' : FileTree}

theorem createDir_eq_ok (h : t.createDir cwd p = .ok t') : Usable p ∧
    ∃ k, t.LeadsTo cwd p k ∧ t.node? k = none ∧ t' = t.put k .dir := by
  rw [createDir] at h
  cases he : t.locateBy (fun _ => true) false cwd p with
  | error e => rw [he] at h; cases h
  | ok e =>
    obtain ⟨hp, k, hl, rfl⟩ := locateBy_eq_ok_iff.1 he
    rw [he] at h
    simp only [bind, Except.bind] at h
    split at h
    · cases h
    · rename_i hfree
      simp only [Bool.or_eq_true, not_or, Bool.not_eq_true] at hfree
      exact ⟨hp, k, hl, by simpa [of] using hfree.2, (Except.ok.inj h).symm⟩

section Preserved

variable {I : FileTree → Prop} {M : Path → Prop}
  (hI : ∀ t t' p', M p' → I t → t.createDir cwd p' = .ok t' → I t')

include hI

theorem createTopmost_induction {ps : List Path} :
    ∀ {missing : List Path} {r : List Path × FileTree},
    (∀ p' ∈ ps, M p') → (∀ p' ∈ missing, M p') → I t →
      createTopmost cwd t missing ps = .ok r → (∀ p' ∈ r.1, M p') ∧ I r.2 := by
  induction ps with
  | nil =>
    intro missing r _ hmissing ht h
    cases h
    exact ⟨hmissing, ht⟩
  | cons p' ps ih =>
    intro missing r hps hmissing ht h
    obtain ⟨hp', hps⟩ := forall_mem_cons.1 hps
    rw [createTopmost] at h
    split at h
    · rename_i t' hmade
      cases h
      exact ⟨hmissing, hI _ _ _ hp' ht hmade⟩
    · exact ih hps (forall_mem_cons.2 ⟨hp', hmissing⟩) ht h
    · split at h
      · cases h
        exact ⟨hmissing, ht⟩
      · cases h
    · cases h

theorem createEach_induction {ps : List Path} : ∀ {t : FileTree}, (∀ p' ∈ ps, M p') → I t →
    I (createEach cwd t ps).2 := by
  induction ps with
  | nil => intro t _ ht; exact ht
  | cons p' ps ih =>
    intro t hps ht
    obtain ⟨hp', hps⟩ := forall_mem_cons.1 hps
    rw [createEach]
    split
    · rename_i t' hmade
      exact ih hps (hI _ _ _ hp' ht hmade)
    · split
      · exact ih hps ht
      · exact ht

/-- **Making directories one at a time.**  What every single directory that is made on the way to a
path keeps, making them all keeps. -/
theorem createDirs_induction (hp : ∀ p' ∈ p :: above p, M p') (ht : I t) :
    I (t.createDirs cwd p).2 := by
  rw [createDirs]
  split
  · exact ht
  · rename_i missing t' htop
    have hsteps : ∀ p' ∈ (p :: above p).filter fun p => (parent? p).isSome, M p' :=
      fun p' hp' => hp p' (mem_of_mem_filter hp')
    obtain ⟨hmissing, ht'⟩ := createTopmost_induction hI hsteps (by simp) ht htop
    exact createEach_induction hI hmissing ht'

end Preserved

theorem extends_createDirs : Extends t (t.createDirs cwd p).2 := by
  refine createDirs_induction (I := Extends t) (M := fun _ => True) ?_ (by simp) (.refl t)
  intro t₁ t₂ p' _ h₁ h
  obtain ⟨-, k, -, hk, rfl⟩ := createDir_eq_ok h
  exact h₁.trans (.put hk nofun)

end NewDirectory

end FileTree

end PatchTriage
