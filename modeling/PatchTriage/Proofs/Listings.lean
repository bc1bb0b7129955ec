import PatchTriage.Backend.SourceTree
import PatchTriage.Patch.Population
import PatchTriage.Proofs.FragmentMap
import PatchTriage.Proofs.WorldRuns

/-!
# The files below a directory

Two parts of the engine list the files below a directory: the patches to be loaded, and what
patching leaves behind. Both come to the same list of paths (`FileTree.filesBelow`). In trees as
file systems have them (`FileTree.Proper`) it holds every file that is found by going down, however
deep (`FileTree.mem_filesBelow`), since long paths are refused, and every one of them once
(`FileTree.nodup_filesBelow`). Lists of paths are put in order by their components
(`SortedList.pairwise_sort`).
-/

namespace PatchTriage

open List Text Job FileTree SortedList Std.LawfulEqCmp PatchTriage.Path

/-! ## The order of paths -/

namespace Path

/-- Which components come first: the root, then `.`, then `..`, then names. -/
def Component.rank : Component → Nat
  | .root => 0
  | .here => 1
  | .up => 2
  | .name _ => 3

theorem Component.compare_eq_compareLex : Component.compare =
      compareLex (compareOn Component.rank) (fun a b => Text.compare a.text b.text) := by
  funext a b
  cases a <;> cases b <;> rfl

instance : Std.TransCmp Component.compare := by
  have htext : Std.TransCmp fun a b : Component => Text.compare a.text b.text :=
    { eq_swap := Std.OrientedCmp.eq_swap, isLE_trans := Std.TransCmp.isLE_trans }
  rw [Component.compare_eq_compareLex]
  infer_instance

instance : Std.TransCmp compare := by
  have hlists : Std.TransCmp (compareLists Component.compare) := by
    rw [compareLists_eq_compareLex]
    infer_instance
  exact { eq_swap := hlists.eq_swap, isLE_trans := hlists.isLE_trans }

end Path

namespace SortedList

variable {α : Type} {cmp : α → α → Ordering}

theorem perm_sort (l : List α) : (sort cmp l).Perm l := mergeSort_perm l _

/-- A stable sort keeps the order of elements of which each may come before each. -/
theorem filter_mergeSort {le : α → α → Bool} (htrans : ∀ a b c, le a b = true → le b c = true →
    le a c = true)
    (htotal : ∀ a b, (le a b || le b a) = true) {p : α → Bool}
    (hp : ∀ a b, p a = true → p b = true → le a b = true) (l : List α) :
    (l.mergeSort le).filter p = l.filter p := by
  have hsame : (l.filter p).Pairwise fun a b => le a b = true :=
    pairwise_of_forall_mem_list fun a ha b hb => hp a b (mem_filter.1 ha).2 (mem_filter.1 hb).2
  have hsub := (sublist_mergeSort htrans htotal hsame filter_sublist).filter p
  simp only [filter_filter, Bool.and_self] at hsub
  exact (hsub.eq_of_length ((mergeSort_perm l _).filter _).length_eq.symm).symm

theorem bne_gt_iff (a b : α) : (cmp a b != .gt) = true ↔ (cmp a b).isLE = true := by
  cases cmp a b <;> simp

variable [Std.TransCmp cmp]

theorem bne_gt_trans (a b c : α) (hab : (cmp a b != .gt) = true)
    (hbc : (cmp b c != .gt) = true) : (cmp a c != .gt) = true := by
  rw [bne_gt_iff] at *
  exact Std.TransCmp.isLE_trans hab hbc

theorem bne_gt_total (a b : α) : ((cmp a b != .gt) || (cmp b a != .gt)) = true := by
  have hswap : cmp b a = (cmp a b).swap := Std.OrientedCmp.eq_swap
  rw [hswap]
  cases cmp a b <;> rfl

theorem pairwise_sort (l : List α) : (sort cmp l).Pairwise fun a b => (cmp a b).isLE = true :=
  (pairwise_mergeSort bne_gt_trans bne_gt_total l).imp (bne_gt_iff _ _).1

end SortedList

/-! ## Longer paths -/

namespace Text

theorem byteLength_append (s t : Text) : byteLength (s ++ t) = byteLength s + byteLength t := by
  induction s with
  | nil => simp [byteLength]
  | cons c s ih =>
    have hcons (t : Text) : byteLength (c :: t) = c.utf8Size + byteLength t := rfl
    rw [cons_append, hcons, hcons, ih, Nat.add_assoc]

theorem byteLength_pos {t : Text} (h : t ≠ []) : 0 < byteLength t := by
  obtain ⟨c, t, rfl⟩ := exists_cons_of_ne_nil h
  exact Nat.add_pos_left (Char.utf8Size_pos c) _

end Text

namespace Path

def descend (dir : Path) (names : List Text) : Path := names.foldl join dir

theorem descend_cons (dir : Path) (n : Text) (names : List Text) :
    descend dir (n :: names) = descend (join dir n) names := rfl

end Path

namespace FileTree

theorem byteLength_lt_join {p : Path} {n : Text} (hp : p ≠ []) (hn : IsComponent n) :
    byteLength p < byteLength (Path.join p n) := by
  have hpos := byteLength_pos hn.nonempty
  rw [Path.join, hn.isAbsolute]
  simp only [Bool.false_eq_true, if_false, List.isEmpty_iff, hp]
  split
  · rw [byteLength_append]
    omega
  · rw [byteLength_append]
    have := byteLength_pos (List.cons_ne_nil '/' n)
    omega

theorem pieces_descend {dir : Path} {names : List Text} (h : ∀ n ∈ names, IsComponent n) :
    pieces (descend dir names) = pieces dir ++ names := by
  induction names generalizing dir with
  | nil => exact (append_nil _).symm
  | cons n names ih =>
    obtain ⟨hn, hnames⟩ := forall_mem_cons.1 h
    rw [descend_cons, ih hnames, pieces_join hn.isAbsolute, hn.pieces, append_assoc]
    rfl

theorem fileName?_of_getLast? {p : Path} {x : Text} (h : (pieces p).getLast? = some x)
    (hhere : x ≠ ['.'])
    (hup : x ≠ ['.', '.']) : fileName? p = some x := by
  have hbody : (Text.splitOn '/' p).filterMap pieceComponent? =
      (pieces p).filterMap pieceComponent? := by
    rw [pieces, filterMap_filter]
    refine filterMap_congr fun piece _ => ?_
    cases piece <;> simp [pieceComponent?]
  obtain ⟨init, hinit⟩ := getLast?_eq_some_iff.1 h
  have hne : x ≠ [] := by
    have hmem : x ∈ pieces p := mem_of_getLast? h
    simpa using (mem_filter.1 hmem).2
  have hx : pieceComponent? x = some (.name x) := by
    rw [pieceComponent?, if_neg (by simpa using hne), if_neg hhere, if_neg hup]
  have hlast : ((pieces p).filterMap pieceComponent?).getLast? = some (.name x) := by
    simp [hinit, hx]
  have hcomponents : (components p).getLast? = some (.name x) := by
    rw [components]
    simp only [hbody]
    split_ifs
    · rw [getLast?_cons, hlast]
      rfl
    · rw [getLast?_cons, hlast]
      rfl
    · exact hlast
  rw [fileName?, hcomponents]

/-! ## Trees as file systems have them -/

def Housed (t : FileTree) : Prop :=
  ∀ k name n, t.node? (k ++ [name]) = some n → t.node? k = some .dir

/-- A tree as a file system has it: its places are made of names, there is one thing at a place, and
everything is in a directory. -/
structure Proper (t : FileTree) : Prop where
  names : ∀ e ∈ t, ∀ n ∈ e.1, IsComponent n
  once : (t.map Prod.fst).Nodup
  housed : t.Housed

section Children

variable {t : FileTree} {k : Place} {name : Text}

theorem below?_eq_some_iff {dir place rest : Place} :
    below? dir place = some rest ↔ place = dir ++ rest := by
  induction dir generalizing place with
  | nil => simp [below?]
  | cons d dir ih =>
    cases place with
    | nil => simp [below?]
    | cons p place =>
      rw [below?]
      split_ifs with hd
      · rw [ih, hd, cons_append, cons.injEq]
        simp
      · simp [Ne.symm hd]

theorem child_eq_some_iff {place : Place} {n : Node} {child : Text × Node} :
    (match below? k place with
      | some [name] => some (name, n)
      | _ => none) = some child ↔ place = k ++ [child.1] ∧ n = child.2 := by
  obtain ⟨name, m⟩ := child
  rw [← below?_eq_some_iff]
  split
  · rename_i name' hbelow
    simp [hbelow]
  · rename_i hnot
    simp only [reduceCtorEq, false_iff, not_and]
    exact fun h => absurd h (hnot name)

theorem mem_children_iff {n : Node} : (name, n) ∈ t.children k ↔ (k ++ [name], n) ∈ t := by
  rw [children, mem_filterMap]
  constructor
  · rintro ⟨⟨place, m⟩, hmem, hchild⟩
    obtain ⟨rfl, rfl⟩ := child_eq_some_iff.1 hchild
    exact hmem
  · intro hmem
    exact ⟨_, hmem, child_eq_some_iff.2 ⟨rfl, rfl⟩⟩

theorem mem_of_node? {n : Node} (hk : k ≠ []) (h : t.node? k = some n) : (k, n) ∈ t := by
  rw [node?, if_neg (by simpa using hk)] at h
  induction t with
  | nil => cases h
  | cons e t ih =>
    obtain ⟨k₀, n₀⟩ := e
    rw [SortedList.find?] at h
    split_ifs at h with heq
    · obtain rfl := eq_of_compare heq
      cases h
      exact mem_cons_self
    · exact mem_cons_of_mem _ (ih h)

theorem isSome_node?_iff (hk : k ≠ []) : (t.node? k).isSome ↔ ∃ n, (k, n) ∈ t := by
  rw [node?, if_neg (by simpa using hk)]
  induction t with
  | nil => simp [SortedList.find?]
  | cons e t ih =>
    obtain ⟨k₀, n₀⟩ := e
    rw [SortedList.find?]
    split_ifs with heq
    · obtain rfl := eq_of_compare heq
      exact ⟨fun _ => ⟨n₀, mem_cons_self⟩, fun _ => rfl⟩
    · have hne : k ≠ k₀ := fun h => heq (h ▸ Std.ReflCmp.compare_self)
      simp [ih, hne]

/-- What paths rely on: places are made of names, and everything is in a directory. -/
structure Sound (t : FileTree) : Prop where
  names : ∀ k n, t.node? k = some n → ∀ name ∈ k, IsComponent name
  housed : t.Housed

theorem Proper.sound (ht : t.Proper) : t.Sound := by
  refine ⟨fun k n hk name hname => ?_, ht.housed⟩
  obtain ⟨n', hmem⟩ := (isSome_node?_iff (ne_nil_of_mem hname)).1 (Option.isSome_of_mem hk)
  exact ht.names _ hmem name hname

theorem proper_iff : t.Proper ↔ (∀ e ∈ t, ∀ n ∈ e.1, IsComponent n) ∧ (t.map Prod.fst).Nodup ∧
    ∀ e ∈ t, e.1 ≠ [] → t.node? e.1.dropLast = some .dir := by
  constructor
  · rintro ⟨hnames, honce, hhoused⟩
    refine ⟨hnames, honce, fun e he hne => ?_⟩
    obtain ⟨n, hn⟩ := Option.isSome_iff_exists.1 ((isSome_node?_iff hne).2 ⟨e.2, he⟩)
    rw [← dropLast_append_getLast hne] at hn
    exact hhoused _ _ n hn
  · rintro ⟨hnames, honce, hhoused⟩
    refine ⟨hnames, honce, fun k name n hn => ?_⟩
    obtain ⟨m, hm⟩ := (isSome_node?_iff (append_ne_nil_of_right_ne_nil k (cons_ne_nil name []))).1
      (Option.isSome_of_mem hn)
    simpa using hhoused _ hm

instance (n : Text) : Decidable (IsComponent n) :=
  decidable_of_iff (n ≠ [] ∧ '/' ∉ n ∧ n ≠ ['.'] ∧ n ≠ ['.', '.'])
    ⟨fun ⟨h₁, h₂, h₃, h₄⟩ => ⟨h₁, h₂, h₃, h₄⟩, fun ⟨h₁, h₂, h₃, h₄⟩ => ⟨h₁, h₂, h₃, h₄⟩⟩

instance (t : FileTree) : Decidable t.Proper := decidable_of_iff _ proper_iff.symm

instance (n : Text) : Decidable (IsName n) :=
  decidable_of_iff (n ≠ ['.'] ∧ n ≠ ['.', '.'] ∧ byteLength n ≤ maxNameLength)
    ⟨fun ⟨h₁, h₂, h₃⟩ => ⟨h₁, h₂, h₃⟩, fun ⟨h₁, h₂, h₃⟩ => ⟨h₁, h₂, h₃⟩⟩

def Node.isLink : Node → Bool
  | .link _ => true
  | _ => false

theorem rooted_of_entries {R : Place} (hnames : ∀ n ∈ R, IsComponent n ∧ IsName n)
    (hdirs : ∀ i < R.length + 1, t.node? (R.take i) = some .dir)
    (hlinks : ∀ e ∈ t, Node.isLink e.2 = false) :
    Rooted R t := by
  refine ⟨⟨hnames, fun k hk => ?_⟩, fun q target hl => ?_⟩
  · rw [prefix_iff_eq_take.1 hk]
    exact hdirs k.length (Nat.lt_succ_of_le hk.length_le)
  by_cases hroot : R ++ q = []
  · rw [hroot, node?_root] at hl
    cases hl
  · exact absurd (hlinks _ (mem_of_node? hroot hl)) (by simp [Node.isLink])

theorem mem_names_children_iff : name ∈ (t.children k).map Prod.fst ↔
    (t.node? (k ++ [name])).isSome := by
  rw [isSome_node?_iff (by simp), mem_map]
  constructor
  · rintro ⟨⟨name, n⟩, hmem, rfl⟩
    exact ⟨n, mem_children_iff.1 hmem⟩
  · rintro ⟨n, hmem⟩
    exact ⟨(name, n), mem_children_iff.2 hmem, rfl⟩

theorem nodup_names_children (ht : (t.map Prod.fst).Nodup) :
    ((t.children k).map Prod.fst).Nodup := by
  rw [Nodup, pairwise_map] at ht ⊢
  refine Pairwise.filterMap _ (fun e e' hne child hchild child' hchild' heq => ?_) ht
  obtain ⟨hplace, -⟩ := child_eq_some_iff.1 hchild
  obtain ⟨hplace', -⟩ := child_eq_some_iff.1 hchild'
  exact hne (by rw [hplace, hplace', heq])

end Children

/-! ## Going down -/

section Below

variable {t : FileTree} {cwd : Place} {enter : Text → Bool} {keep : Path → Bool} {dir p : Path}
  {name : Text} {depth : Nat}

/-- The directory that a path stands for has something with the given name in it. -/
def Holds (t : FileTree) (cwd : Place) (dir : Path) (name : Text) : Prop :=
  ∃ k, t.stat cwd dir = .ok (k, .dir) ∧ (t.node? (k ++ [name])).isSome

/-- `Below t cwd enter dir names`: the names lead from the directory `dir` to something that is no
directory, through directories whose names `enter` allows. -/
inductive Below (t : FileTree) (cwd : Place) (enter : Text → Bool) : Path → List Text → Prop
  | last {dir : Path} {name : Text} : Holds t cwd dir name →
      t.isDir cwd (join dir name) = false → Below t cwd enter dir [name]
  | step {dir : Path} {name : Text} {names : List Text} : Holds t cwd dir name →
      t.isDir cwd (join dir name) = true → enter name = true →
      Below t cwd enter (join dir name) names → Below t cwd enter dir (name :: names)

/-- What is listed for one name in a directory, where `below` lists what is below it. -/
def filesAt (enter : Text → Bool) (keep : Path → Bool) (below : Path → List Path) (dir : Path)
    (e : Text × Bool) : List Path :=
  let path := join dir e.1
  if e.2 then if enter e.1 then below path else []
  else if keep path then [path] else []

/-- The files below a directory that `keep` accepts, at most `depth` directories down, through
directories whose names `enter` allows. -/
def filesBelow (t : FileTree) (cwd : Place) (enter : Text → Bool) (keep : Path → Bool) :
    (depth : Nat) → (dir : Path) → List Path
  | 0, _ => []
  | depth + 1, dir =>
    match t.list cwd dir with
    | .error _ => []
    | .ok entries => entries.flatMap (filesAt enter keep (filesBelow t cwd enter keep depth) dir)

theorem mem_filesAt {below : Path → List Path} {e : Text × Bool} :
    p ∈ filesAt enter keep below dir e ↔
      (e.2 = false ∧ keep p = true ∧ p = join dir e.1) ∨
        (e.2 = true ∧ enter e.1 = true ∧ p ∈ below (join dir e.1)) := by
  rw [filesAt]
  split_ifs with hdir henter hkeep
  · simp [hdir, henter]
  · simp [hdir, henter]
  · rw [mem_singleton]
    constructor
    · rintro rfl
      exact .inl ⟨by simpa using hdir, hkeep, rfl⟩
    · rintro (⟨-, -, rfl⟩ | ⟨h, -⟩)
      · rfl
      · exact absurd h hdir
  · simp only [not_mem_nil, false_iff, not_or, not_and]
    exact ⟨fun _ hp heq => hkeep (heq ▸ hp), fun h => absurd h hdir⟩

theorem list_eq_ok_iff {entries : List (Text × Bool)} :
    t.list cwd dir = .ok entries ↔ ∃ k, t.stat cwd dir = .ok (k, .dir) ∧
      entries = (t.children k).map fun e => (e.1, t.isDir cwd (Path.join dir e.1)) := by
  rw [list]
  cases hs : t.stat cwd dir with
  | error e => simp [bind, Except.bind]
  | ok kn =>
    obtain ⟨k, n⟩ := kn
    cases n with
    | dir => simp [bind, Except.bind, pure, Except.pure, eq_comm]
    | file _ _ | tool _ | device _ | link _ =>
      simp [bind, Except.bind, throw, throwThe, MonadExceptOf.throw]

theorem holds_iff : Holds t cwd dir name ↔
    ∃ entries, t.list cwd dir = .ok entries ∧ (name, t.isDir cwd (join dir name)) ∈ entries := by
  constructor
  · rintro ⟨k, hk, hname⟩
    obtain ⟨e, he, rfl⟩ := mem_map.1 (mem_names_children_iff.2 hname)
    exact ⟨_, list_eq_ok_iff.2 ⟨k, hk, rfl⟩, mem_map.2 ⟨e, he, rfl⟩⟩
  · rintro ⟨entries, hlist, hmem⟩
    obtain ⟨k, hk, rfl⟩ := list_eq_ok_iff.1 hlist
    obtain ⟨e, he, heq⟩ := mem_map.1 hmem
    obtain rfl : e.1 = name := congrArg Prod.fst heq
    exact ⟨k, hk, mem_names_children_iff.1 (mem_map.2 ⟨e, he, rfl⟩)⟩

theorem isDir_iff : t.isDir cwd p = true ↔ ∃ k, t.stat cwd p = .ok (k, .dir) := by
  rw [isDir]
  split
  · rename_i k hk
    exact ⟨fun _ => ⟨k, hk⟩, fun _ => rfl⟩
  · rename_i hdir
    exact ⟨fun h => absurd h Bool.false_ne_true, fun ⟨k, hk⟩ => absurd hk (hdir k)⟩

theorem isFile_of_isDir (h : t.isDir cwd p = true) : t.isFile cwd p = false := by
  obtain ⟨k, hk⟩ := isDir_iff.1 h
  rw [isFile, hk]

theorem usable_of_stat {kn : Place × Node} (h : t.stat cwd p = .ok kn) : Usable p := by
  obtain ⟨e, he, -⟩ := stat_eq_ok_iff.1 h
  exact (locateBy_eq_ok_iff.1 he).1

theorem Holds.isDir (h : Holds t cwd dir name) : t.isDir cwd dir = true := by
  obtain ⟨k, hk, -⟩ := h
  exact isDir_iff.2 ⟨k, hk⟩

theorem Holds.usable (h : Holds t cwd dir name) : Usable dir := by
  obtain ⟨k, hk, -⟩ := h
  exact usable_of_stat hk

theorem Holds.isComponent (ht : t.Sound) (h : Holds t cwd dir name) : IsComponent name := by
  obtain ⟨k, -, hname⟩ := h
  obtain ⟨n, hn⟩ := Option.isSome_iff_exists.1 hname
  exact ht.names _ n hn name (by simp)

theorem Below.isComponent {names : List Text} (ht : t.Sound) (h : Below t cwd enter dir names) :
    ∀ n ∈ names, IsComponent n := by
  induction h with
  | last hname _ => simpa using hname.isComponent ht
  | step hname _ _ _ ih => exact forall_mem_cons.2 ⟨hname.isComponent ht, ih⟩

theorem mem_filesBelow_succ : p ∈ t.filesBelow cwd enter keep (depth + 1) dir ↔
    ∃ name, Holds t cwd dir name ∧ p ∈ filesAt enter keep (t.filesBelow cwd enter keep depth) dir
      (name, t.isDir cwd (join dir name)) := by
  rw [filesBelow]
  split
  · rename_i e hlist
    simp only [not_mem_nil, false_iff, not_exists, not_and]
    intro name hname
    obtain ⟨entries, hok, -⟩ := holds_iff.1 hname
    rw [hlist] at hok
    cases hok
  · rename_i entries hlist
    rw [mem_flatMap]
    constructor
    · rintro ⟨e, hmem, hp⟩
      obtain ⟨k, hk, rfl⟩ := list_eq_ok_iff.1 hlist
      obtain ⟨child, -, rfl⟩ := mem_map.1 hmem
      exact ⟨child.1, holds_iff.2 ⟨_, hlist, hmem⟩, hp⟩
    · rintro ⟨name, hname, hp⟩
      obtain ⟨entries', hlist', hmem⟩ := holds_iff.1 hname
      cases hlist.symm.trans hlist'
      exact ⟨_, hmem, hp⟩

theorem below_of_mem_filesBelow (h : p ∈ t.filesBelow cwd enter keep depth dir) :
    ∃ names, Below t cwd enter dir names ∧ p = descend dir names ∧ keep p = true := by
  induction depth generalizing dir with
  | zero => cases h
  | succ depth ih =>
    obtain ⟨name, hname, hp⟩ := mem_filesBelow_succ.1 h
    obtain ⟨hdir, hkeep, rfl⟩ | ⟨hdir, henter, hp⟩ := mem_filesAt.1 hp
    · exact ⟨[name], .last hname hdir, rfl, hkeep⟩
    · obtain ⟨names, hnames, rfl, hkeep⟩ := ih hp
      exact ⟨name :: names, .step hname hdir henter hnames, rfl, hkeep⟩

/-- What is found by going down is listed, if `depth` leaves room for every path that is not
refused. -/
theorem mem_filesBelow_of_below {names : List Text} (ht : t.Sound)
    (h : Below t cwd enter dir names) (hkeep : keep (descend dir names) = true)
    (hdepth : maxPathLength < depth + byteLength dir) :
    descend dir names ∈ t.filesBelow cwd enter keep depth dir := by
  induction h generalizing depth with
  | last hname hdir =>
    cases depth with
    | zero => exact absurd hname.usable.short (by omega)
    | succ depth => exact mem_filesBelow_succ.2 ⟨_, hname, mem_filesAt.2 (.inl ⟨hdir, hkeep, rfl⟩)⟩
  | @step dir name _ hname hdir henter _ ih =>
    cases depth with
    | zero => exact absurd hname.usable.short (by omega)
    | succ depth =>
      have hlonger := byteLength_lt_join hname.usable.nonempty (hname.isComponent ht)
      have hroom : maxPathLength < depth + byteLength (join dir name) := by omega
      have hmem := ih hkeep hroom
      exact mem_filesBelow_succ.2 ⟨_, hname, mem_filesAt.2 (.inr ⟨hdir, henter, hmem⟩)⟩

/-- **Every file is listed.** -/
theorem mem_filesBelow (ht : t.Sound) (hdir : dir ≠ []) :
    p ∈ t.filesBelow cwd enter keep maxPathLength dir ↔
      ∃ names, Below t cwd enter dir names ∧ p = descend dir names ∧ keep p = true := by
  constructor
  · exact below_of_mem_filesBelow
  · rintro ⟨names, hnames, rfl, hkeep⟩
    exact mem_filesBelow_of_below ht hnames hkeep (Nat.lt_add_of_pos_right (byteLength_pos hdir))

theorem pieces_of_mem_filesAt {e : Text × Bool} (ht : t.Sound) (he : IsComponent e.1)
    (h : p ∈ filesAt enter keep (t.filesBelow cwd enter keep depth) dir e) :
    ∃ names, pieces p = pieces dir ++ e.1 :: names := by
  have hjoin : pieces (join dir e.1) = pieces dir ++ [e.1] := by
    rw [pieces_join he.isAbsolute, he.pieces]
  obtain ⟨-, -, rfl⟩ | ⟨-, -, hp⟩ := mem_filesAt.1 h
  · exact ⟨[], hjoin⟩
  · obtain ⟨names, hnames, rfl, -⟩ := below_of_mem_filesBelow hp
    refine ⟨names, ?_⟩
    rw [pieces_descend (hnames.isComponent ht), hjoin, append_assoc]
    rfl

/-- **Every file is listed once.** -/
theorem nodup_filesBelow (ht : t.Proper) : (t.filesBelow cwd enter keep depth dir).Nodup := by
  induction depth generalizing dir with
  | zero => exact nodup_nil
  | succ depth ih =>
    rw [filesBelow]
    split
    · exact nodup_nil
    · rename_i entries hlist
      obtain ⟨k, hk, rfl⟩ := list_eq_ok_iff.1 hlist
      have hname : ∀ e ∈ t.children k, IsComponent e.1 := fun e he =>
        Holds.isComponent ht.sound ⟨k, hk, mem_names_children_iff.1 (mem_map.2 ⟨e, he, rfl⟩)⟩
      rw [flatMap_map]
      refine nodup_flatMap.2 ⟨fun e _ => ?_, ?_⟩
      · rw [filesAt]
        split_ifs
        · exact ih
        · exact nodup_nil
        · exact nodup_singleton _
        · exact nodup_nil
      · -- files that are listed for different names have different paths
        refine (pairwise_map.1 (nodup_names_children ht.once)).imp_of_mem ?_
        intro e e' he he' hne p hp hp'
        obtain ⟨names, hnames⟩ := pieces_of_mem_filesAt ht.sound (hname e he) hp
        obtain ⟨names', hnames'⟩ := pieces_of_mem_filesAt ht.sound (hname e' he') hp'
        have hcons := append_cancel_left (hnames.symm.trans hnames')
        exact hne (cons.inj hcons).1

end Below

end FileTree

/-! ## The two listings -/

variable {host : Host} {w w' : World}

/-- Files of the source tree are looked for outside hidden directories. -/
theorem SourceTree.run_filesUpTo (keep : Path → Bool) (depth : Nat) (dir : Path) :
    (filesUpTo keep depth dir).run host w =
      (.ok (w.tree.filesBelow w.cwd (fun name => !isHidden name) keep depth dir), w) := by
  induction depth generalizing dir with
  | zero => rfl
  | succ depth ih =>
    have hlooks : (Op.list dir).perform host w = (w.tree.list w.cwd dir, w) := rfl
    rw [filesUpTo, run_op_bind, hlooks, filesBelow]
    cases w.tree.list w.cwd dir with
    | error e => rfl
    | ok entries =>
      refine run_bind_of_ok (run_mapM_of_forall fun e _ => ?_)
      obtain ⟨name, isDir⟩ := e
      cases isDir with
      | false => rfl
      | true =>
        cases hname : isHidden name with
        | true => simp [filesAt, hname, run_pure]
        | false => simpa [filesAt, hname] using ih _

theorem Population.run_collect {depth : Nat} {dir : Path} {files : List Path}
    (h : (collect depth dir).run host w = (.ok files, w')) :
    files = w.tree.filesBelow w.cwd (fun _ => true) (w.tree.isFile w.cwd) depth dir ∧ w' = w := by
  induction depth generalizing dir files w' with
  | zero =>
    cases h
    exact ⟨rfl, rfl⟩
  | succ depth ih =>
    rw [collect] at h
    obtain ⟨entries, w₁, hentries, hrest⟩ := run_bind_eq_ok_iff.1 h
    have hlooks : (Op.list dir).perform host w = (w.tree.list w.cwd dir, w) := rfl
    rw [run_explain_eq_ok_iff, run_op_bind, hlooks, run_reply_eq_ok_iff] at hentries
    obtain ⟨hlist : w.tree.list w.cwd dir = .ok entries, rfl⟩ := hentries
    obtain ⟨found, w₂, hfound, hflat⟩ := run_bind_eq_ok_iff.1 hrest
    obtain ⟨rfl, rfl⟩ := eq_map_of_run_mapM (g := filesAt (fun _ => true) (w₁.tree.isFile w₁.cwd)
      (w₁.tree.filesBelow w₁.cwd (fun _ => true) (w₁.tree.isFile w₁.cwd) depth) dir) (by
        rintro ⟨name, isDir⟩ - paths w₃ hpaths
        cases isDir with
        | false =>
          cases hpaths
          exact ⟨rfl, rfl⟩
        | true => exact ih hpaths) hfound
    cases hflat
    rw [filesBelow, hlist]
    exact ⟨rfl, rfl⟩

end PatchTriage
