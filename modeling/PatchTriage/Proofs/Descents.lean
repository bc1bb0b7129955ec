import Mathlib.Data.List.Induction
import PatchTriage.Proofs.Listings

/-!
# Paths that go down

A path without `..` stays below the directories on its way. What it stands for depends on the place
that it means and on these directories alone, so that it is the same in two trees that agree there.
-/

namespace PatchTriage.FileTree

open List

/-- The path `p` means the place `q` below `R`, and goes down all the way. -/
structure Descends (R : Place) (p : Path) (q : Place) : Prop where
  stands : Stands R p q
  down : ['.', '.'] ∉ pieces p

section Descends

variable {R : Place} {p : Path} {q : Place} {t t' : FileTree} {last : Bool} {n : Nat}

theorem Descends.ne_nil (h : Descends R p q) : p ≠ [] := by
  rintro rfl
  exact absurd h.stands.1 (by decide)

theorem Descends.join_name {name : Text} (h : Descends R p q) (hname : IsComponent name) :
    Descends R (Path.join p name) (q ++ [name]) := by
  refine ⟨h.stands.join_name hname, ?_⟩
  rw [pieces_join hname.isAbsolute, hname.pieces, mem_append, mem_singleton, not_or]
  exact ⟨h.down, Ne.symm hname.ne_up⟩

theorem Descends.descend {names : List Text} (h : Descends R p q)
    (hnames : ∀ name ∈ names, IsComponent name) : Descends R (Path.descend p names)
      (q ++ names) := by
  induction names generalizing p q with
  | nil =>
    rw [append_nil]
    exact h
  | cons name names ih =>
    obtain ⟨hname, hnames⟩ := forall_mem_cons.1 hnames
    have hrest := ih (h.join_name hname) hnames
    rwa [append_assoc] at hrest

theorem prefix_of_resolve {ps : List Text} (hdown : ['.', '.'] ∉ ps) {q q' : Place}
    (h : resolve q ps = some q') : q <+: q' := by
  induction ps generalizing q with
  | nil => cases h; exact prefix_refl _
  | cons piece rest ih =>
    rw [mem_cons, not_or] at hdown
    rw [resolve, if_neg (Ne.symm hdown.1)] at h
    split_ifs at h
    · exact ih hdown.2 h
    · exact (prefix_append q [piece]).trans (ih hdown.2 h)

theorem Descends.leads {cwd cwd' k : Place} (hp : Descends R p q) (ht : Rooted R t)
    (ht' : Rooted R t')
    (hdirs : ∀ q₀, q₀ <+: q → t.node? (R ++ q₀) = some .dir → t'.node? (R ++ q₀) = some .dir)
    (h : Leads t (fun _ => true) last n (startOf cwd p) (pieces p) k) :
    k = R ++ q ∧ Leads t' (fun _ => true) last n (startOf cwd' p) (pieces p) k := by
  refine ⟨hp.stands.leads ht h, ?_⟩
  obtain ⟨⟨habs, ps, hps, hq⟩, hdown⟩ := hp
  rw [hps, mem_append, not_or] at hdown
  rw [startOf_of_isAbsolute habs, hps, ht.leads_iff (nil_append R)] at h
  rw [startOf_of_isAbsolute habs, hps, ht'.leads_iff (nil_append R)]
  refine (h.of_dirs ht.noLinks ht'.noLinks (append_nil R).symm hq fun q₁ ps₁ hps₁ hq₁ => ?_).2
  exact hdirs q₁ (prefix_of_resolve (fun hup => hdown.2 (hps₁.subset hup)) hq₁)

/-- A file stays while it stays where its path means, and the directories above it stay. -/
theorem Descends.isFile {cwd cwd' : Place} (hp : Descends R p q) (ht : Rooted R t)
    (ht' : Rooted R t')
    (hfile : ∀ n, Node.IsFile n → t.node? (R ++ q) = some n → t'.node? (R ++ q) = some n)
    (hdirs : ∀ q₀, q₀ <+: q → t.node? (R ++ q₀) = some .dir → t'.node? (R ++ q₀) = some .dir)
    (h : t.isFile cwd p = true) : t'.isFile cwd' p = true := by
  obtain ⟨hu, hopen, k, n, hl, hk, hn⟩ := isFile_iff.1 h
  obtain ⟨rfl, hl'⟩ := hp.leads ht ht' hdirs hl
  exact isFile_iff.2 ⟨hu, hopen, _, n, hl', hfile n hn hk, hn⟩

/-- In a tree where nothing lies outside a directory, all is a directory above a thing. -/
theorem Housed.dir_of_prefix (ht : t.Housed) {k k' : Place} {node : Node} (hpre : k <+: k')
    (hne : k ≠ k') (hk' : t.node? k' = some node) : t.node? k = some .dir := by
  obtain ⟨rest, rfl⟩ := hpre
  induction rest using reverseRecOn generalizing node with
  | nil => exact absurd (append_nil k).symm hne
  | append_singleton rest name ih =>
    rw [← append_assoc] at hk'
    have hdir := ht _ _ _ hk'
    by_cases hrest : rest = []
    · rw [hrest, append_nil] at hdir
      exact hdir
    · exact ih (by simpa using hrest) hdir

theorem Descends.place_of_stat {cwd k : Place} {node : Node} (hp : Descends R p q)
    (ht : Rooted R t) (h : t.stat cwd p = .ok (k, node)) :
    k = R ++ q ∧ t.node? (R ++ q) = some node := by
  obtain ⟨e, he, hnode⟩ := stat_eq_ok_iff.1 h
  exact hp.stands.of_entry ht he hnode

/-- **What a path stands for in a tree that agrees on it.** -/
theorem Descends.stat_of_same {cwd cwd' k : Place} {node : Node} (hp : Descends R p q)
    (ht : Rooted R t) (ht' : Rooted R t') (hhoused : t'.Housed)
    (hsame : t'.node? (R ++ q) = t.node? (R ++ q)) (h : t.stat cwd p = .ok (k, node)) :
    t'.stat cwd' p = .ok (R ++ q, node) := by
  obtain ⟨-, hk⟩ := hp.place_of_stat ht h
  have hdirs (q₀ : Place) (hpre : q₀ <+: q) (hq₀ : t.node? (R ++ q₀) = some .dir) :
      t'.node? (R ++ q₀) = some .dir := by
    by_cases hne : q₀ = q
    · rw [hne] at hq₀ ⊢
      rw [hsame]
      exact hq₀
    · exact hhoused.dir_of_prefix ((prefix_append_right_inj R).2 hpre)
        (fun heq => hne (append_cancel_left heq)) (hsame.trans hk)
  obtain ⟨e, he, hnode⟩ := stat_eq_ok_iff.1 h
  obtain ⟨hu, k', hl, rfl⟩ := locateBy_eq_ok_iff.1 he
  obtain ⟨-, -, hclosed⟩ := Entry.node_eq_ok_iff.1 hnode
  have hl' : k' = R ++ q ∧ Leads t' (fun _ => true) true maxLinks (startOf cwd' p) (pieces p) k' :=
    hp.leads ht ht' hdirs hl
  refine stat_eq_ok_iff.2 ⟨.of p (R ++ q), locateBy_eq_ok_iff.2 ⟨hu, _, hl'.1 ▸ hl'.2, rfl⟩, ?_⟩
  exact Entry.node_eq_ok_iff.2 ⟨rfl, hsame.trans hk, hclosed⟩

theorem Descends.isDir_of_same {cwd cwd' : Place} (hp : Descends R p q) (ht : Rooted R t)
    (ht' : Rooted R t') (hhoused : t'.Housed) (hsame : t'.node? (R ++ q) = t.node? (R ++ q))
    (h : t.isDir cwd p = true) : t'.isDir cwd' p = true := by
  obtain ⟨k, hk⟩ := isDir_iff.1 h
  exact isDir_iff.2 ⟨_, hp.stat_of_same ht ht' hhoused hsame hk⟩

end Descends

/-! ## Going down in two trees -/

section Below

variable {R : Place} {t t' : FileTree} {cwd cwd' : Place} {enter : Text → Bool} {dir : Path}
  {name : Text} {names : List Text} {pre : Place}

theorem Holds.nodes (hdir : Descends R dir pre) (ht : Rooted R t) (h : Holds t cwd dir name) :
    t.node? (R ++ pre) = some .dir ∧ (t.node? (R ++ (pre ++ [name]))).isSome := by
  obtain ⟨k, hk, hname⟩ := h
  obtain ⟨rfl, hnode⟩ := hdir.place_of_stat ht hk
  rw [append_assoc] at hname
  exact ⟨hnode, hname⟩

theorem Holds.of_same (hdir : Descends R dir pre) (ht : Rooted R t) (ht' : Rooted R t')
    (hhoused : t'.Housed) (h : Holds t cwd dir name)
    (hthere : (t'.node? (R ++ (pre ++ [name]))).isSome) : Holds t' cwd' dir name := by
  obtain ⟨node, hnode⟩ := Option.isSome_iff_exists.1 hthere
  have hdir' : t'.node? (R ++ pre) = some .dir := by
    rw [← append_assoc] at hnode
    exact hhoused _ _ _ hnode
  have hsame : t'.node? (R ++ pre) = t.node? (R ++ pre) := hdir'.trans (h.nodes hdir ht).1.symm
  obtain ⟨k, hk, -⟩ := h
  refine ⟨R ++ pre, ?_, by rwa [append_assoc]⟩
  exact hdir.stat_of_same ht ht' hhoused hsame hk

theorem Below.occupied (h : Below t cwd enter dir names) (hsound : t.Sound) (ht : Rooted R t) :
    ∀ {pre : Place}, Descends R dir pre → (t.node? (R ++ (pre ++ names))).isSome := by
  induction h with
  | last hname _ =>
    intro pre hdir
    exact (hname.nodes hdir ht).2
  | @step dir name names hname _ _ _ ih =>
    intro pre hdir
    have hrest := ih (hdir.join_name (hname.isComponent hsound))
    rwa [append_assoc] at hrest

theorem Below.ne_nil (h : Below t cwd enter dir names) : names ≠ [] := by
  cases h <;> exact cons_ne_nil _ _

/-- **What is found in the one tree is found in the other**, if there is something there, and no
directory instead of a file. -/
theorem Below.of_occupied (h : Below t cwd enter dir names) (hsound : t.Sound) (ht : Rooted R t)
    (ht' : Rooted R t') (hhoused : t'.Housed) : ∀ {pre : Place}, Descends R dir pre →
      (t'.node? (R ++ (pre ++ names))).isSome →
      (t'.node? (R ++ (pre ++ names)) = some .dir → t.node? (R ++ (pre ++ names)) = some .dir) →
      Below t' cwd' enter dir names := by
  induction h with
  | @last dir name hname hfile =>
    intro pre hdir hthere hkind
    have hdown := hdir.join_name (hname.isComponent hsound)
    refine .last (hname.of_same hdir ht ht' hhoused hthere) ?_
    rw [Bool.eq_false_iff] at hfile ⊢
    intro hdir'
    obtain ⟨k, hk⟩ := isDir_iff.1 hdir'
    have hnode := (hdown.place_of_stat ht' hk).2
    exact hfile (hdown.isDir_of_same ht' ht hsound.housed ((hkind hnode).trans hnode.symm) hdir')
  | @step dir name names hname hisDir henter hrest ih =>
    intro pre hdir hthere hkind
    have hdown := hdir.join_name (hname.isComponent hsound)
    have hassoc : pre ++ name :: names = (pre ++ [name]) ++ names := by simp
    rw [hassoc] at hthere hkind
    -- what is found lies further down, so that there is a directory in the other tree as well
    obtain ⟨node, hnode⟩ := Option.isSome_iff_exists.1 hthere
    have hdir' : t'.node? (R ++ (pre ++ [name])) = some .dir := by
      refine hhoused.dir_of_prefix ?_ ?_ hnode
      · exact (prefix_append_right_inj R).2 (prefix_append _ _)
      · simpa using hrest.ne_nil
    obtain ⟨k, hk⟩ := isDir_iff.1 hisDir
    have hagree : t'.node? (R ++ (pre ++ [name])) = t.node? (R ++ (pre ++ [name])) :=
      hdir'.trans (hdown.place_of_stat ht hk).2.symm
    refine .step (hname.of_same hdir ht ht' hhoused (by simp [hdir'])) ?_ henter
      (ih hdown hthere hkind)
    exact hdown.isDir_of_same ht ht' hhoused hagree hisDir

end Below

end PatchTriage.FileTree
