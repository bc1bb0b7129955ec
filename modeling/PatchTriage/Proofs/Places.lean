import PatchTriage.Proofs.FileTree

/-!
# Places below a directory

Below a directory with no symbolic links in it, what a path stands for depends on its text alone, up
to failure: `Stands R p q` says that the path `p` means the place `q` below the directory `R`.
-/

namespace PatchTriage

open List Text
open PatchTriage.Path hiding join

/-! ## Texts cut in pieces -/

namespace Text

theorem splitOn_ne_nil (c : Char) (t : Text) : splitOn c t ≠ [] := by
  cases t with
  | nil => simp [splitOn]
  | cons a t =>
    rw [splitOn]
    split
    · simp
    · split <;> simp

theorem splitOn_cons_of_ne {c a : Char} (h : a ≠ c) (t : Text) :
    ∃ piece rest, splitOn c t = piece :: rest ∧ splitOn c (a :: t) = (a :: piece) :: rest := by
  cases hs : splitOn c t with
  | nil => exact absurd hs (splitOn_ne_nil c t)
  | cons piece rest => exact ⟨piece, rest, rfl, by rw [splitOn, if_neg h, hs]⟩

theorem splitOn_append (c : Char) (s t : Text) :
    splitOn c (s ++ c :: t) = splitOn c s ++ splitOn c t := by
  induction s with
  | nil => simp [splitOn]
  | cons a s ih =>
    by_cases ha : a = c
    · simp [splitOn, ha, ih]
    · obtain ⟨piece, rest, hs, has⟩ := splitOn_cons_of_ne ha s
      rw [has, cons_append, splitOn, if_neg ha, ih, hs]
      rfl

theorem splitOn_of_not_mem {c : Char} {t : Text} (h : c ∉ t) : splitOn c t = [t] := by
  induction t with
  | nil => rfl
  | cons a t ih =>
    rw [mem_cons, not_or] at h
    rw [splitOn, if_neg (Ne.symm h.1), ih h.2]

theorem not_mem_of_mem_splitOn {c : Char} {t piece : Text} (h : piece ∈ splitOn c t) :
    c ∉ piece := by
  induction t generalizing piece with
  | nil => simp only [splitOn, mem_singleton] at h; simp [h]
  | cons a t ih =>
    by_cases ha : a = c
    · rw [splitOn, if_pos ha, mem_cons] at h
      rcases h with rfl | h
      · simp
      · exact ih h
    · obtain ⟨first, rest, hs, has⟩ := splitOn_cons_of_ne ha t
      rw [has, mem_cons] at h
      rcases h with rfl | h
      · have hfirst : c ∉ first := ih (by rw [hs]; exact mem_cons_self ..)
        simp [Ne.symm ha, hfirst]
      · exact ih (by rw [hs]; exact mem_cons_of_mem _ h)

end Text

namespace FileTree

variable {R q q' : Place} {p p' : Path} {n : Text} {ps : List Text}

theorem pieces_nil : pieces [] = [] := rfl

theorem pieces_append (p q : Path) : pieces (p ++ '/' :: q) = pieces p ++ pieces q := by
  rw [pieces, splitOn_append, filter_append]
  rfl

theorem pieces_of_not_mem (h : '/' ∉ n) : pieces n = if n = [] then [] else [n] := by
  rw [pieces, splitOn_of_not_mem h]
  cases n <;> simp

theorem pieces_slash (p : Path) : pieces ('/' :: p) = pieces p := pieces_append [] p

theorem pieces_join {q : Path} (hq : isAbsolute q = false) :
    pieces (Path.join p q) = pieces p ++ pieces q := by
  rw [Path.join, hq]
  simp only [Bool.false_eq_true, if_false]
  by_cases hp : p = []
  · simp [hp, pieces_nil]
  · rw [if_neg (by simpa using hp)]
    by_cases hend : p.getLast? = some '/'
    · obtain ⟨p', rfl⟩ := getLast?_eq_some_iff.1 hend
      rw [if_pos hend, append_assoc, singleton_append, pieces_append, pieces_append,
        pieces_nil, append_nil]
    · rw [if_neg hend, pieces_append]

theorem isAbsolute_join {q : Path} (hp : isAbsolute p = true) :
    isAbsolute (Path.join p q) = true := by
  rw [Path.join]
  cases p with
  | nil => simp [isAbsolute] at hp
  | cons a p =>
    have ha : a = '/' := by simpa [isAbsolute] using hp
    by_cases hq : isAbsolute q = true
    · rw [if_pos hq]; exact hq
    · simp only [hq, Bool.false_eq_true, if_false, isEmpty_cons]
      split <;> simp [isAbsolute, ha]

theorem isAbsolute_of_not_mem (h : '/' ∉ n) : isAbsolute n = false := by
  cases n with
  | nil => rfl
  | cons a n =>
    have ha : a ≠ '/' := fun ha => h (by simp [ha])
    simpa [isAbsolute] using ha

theorem pieces_intercalate {l : List Text} (h : ∀ n ∈ l, '/' ∉ n) :
    pieces (join ['/'] l) = l.filter (!·.isEmpty) := by
  induction l with
  | nil => rfl
  | cons n l ih =>
    obtain ⟨hn, hl⟩ := forall_mem_cons.1 h
    cases l with
    | nil =>
      rw [show join ['/'] [n] = n by simp [join, intercalate], pieces_of_not_mem hn]
      cases n <;> simp
    | cons m l =>
      have hjoin : join ['/'] (n :: m :: l) = n ++ '/' :: join ['/'] (m :: l) := by
        simp [join, intercalate]
      rw [hjoin, pieces_append, ih hl, pieces_of_not_mem hn]
      cases n <;> simp

/-! ### The paths above a path -/

theorem dropVoid_suffix (relative : Bool) (l : List Text) : dropVoid relative l <:+ l := by
  induction l with
  | nil => exact suffix_refl _
  | cons n l ih =>
    rw [dropVoid]
    split
    · exact suffix_refl _
    · exact ih.trans (suffix_cons ..)

theorem pieces_parent {parent : Path} (hp : isAbsolute p = true) (h : parent? p = some parent) :
    isAbsolute parent = true ∧ pieces parent <+: pieces p := by
  cases p with
  | nil => simp [isAbsolute] at hp
  | cons a p =>
    obtain rfl : a = '/' := by simpa [isAbsolute] using hp
    have hbody : body ('/' :: p) = Text.splitOn '/' p := by simp [body, hp, Text.splitOn]
    rw [parent?, hp, hbody] at h
    simp only [Bool.not_true] at h
    split at h
    · cases h
    · rename_i last rest hlast
      have hparent := (Option.some.inj h).symm
      simp only [ofBody, if_true] at hparent
      -- what is left of the reversed pieces is a part of their end
      have hsuffix : dropVoid false rest <:+ (Text.splitOn '/' p).reverse :=
        (dropVoid_suffix false rest).trans
          ((suffix_cons last rest).trans (hlast ▸ dropVoid_suffix false _))
      have hfront : (dropVoid false rest).reverse <+: Text.splitOn '/' p := by
        rw [← reverse_suffix]
        simpa using hsuffix
      have hclean : ∀ n ∈ (dropVoid false rest).reverse, '/' ∉ n :=
        fun n hn => not_mem_of_mem_splitOn (hfront.subset hn)
      rw [hparent]
      refine ⟨rfl, ?_⟩
      rw [pieces_slash, pieces_slash, pieces_intercalate hclean]
      exact hfront.filter _

theorem join_splitOn (t : Text) : Text.join ['/'] (Text.splitOn '/' t) = t := by
  induction t with
  | nil => rfl
  | cons a t ih =>
    cases hs : Text.splitOn '/' t with
    | nil => exact absurd hs (splitOn_ne_nil '/' t)
    | cons piece rest =>
      rw [hs] at ih
      by_cases ha : a = '/'
      · rw [Text.splitOn, if_pos ha, hs]
        simpa [join, intercalate, ha] using ih
      · rw [Text.splitOn, if_neg ha, hs]
        cases rest with
        | nil | cons _ _ => simpa [join, intercalate] using ih

theorem ofBody_body (hp : isAbsolute p = true) : ofBody true (body p) = p := by
  cases p with
  | nil => simp [isAbsolute] at hp
  | cons a p =>
    obtain rfl : a = '/' := by simpa [isAbsolute] using hp
    rw [body, if_pos hp]
    simp [ofBody, Text.splitOn, join_splitOn]

theorem body_append (hp : isAbsolute (p ++ '/' :: n) = true)
    (hn : '/' ∉ n) : body (p ++ '/' :: n) = (Text.splitOn '/' p).tail ++ [n] := by
  rw [body, if_pos hp, splitOn_append, splitOn_of_not_mem hn,
    tail_append_of_ne_nil (Text.splitOn_ne_nil '/' p)]

theorem pieces_aboveUpTo {fuel : Nat} (hp : isAbsolute p = true)
    (h : p' ∈ aboveUpTo fuel p) : isAbsolute p' = true ∧ pieces p' <+: pieces p := by
  induction fuel generalizing p with
  | zero => cases h
  | succ fuel ih =>
    rw [aboveUpTo] at h
    split at h
    · cases h
    · rename_i parent hparent
      obtain ⟨habs, hpre⟩ := pieces_parent hp hparent
      rcases mem_cons.1 h with rfl | h
      · exact ⟨habs, hpre⟩
      · obtain ⟨habs', hpre'⟩ := ih habs h
        exact ⟨habs', hpre'.trans hpre⟩

theorem pieces_above (hp : isAbsolute p = true) (h : p' ∈ p :: above p) :
    isAbsolute p' = true ∧ pieces p' <+: pieces p := by
  rcases mem_cons.1 h with rfl | h
  · exact ⟨hp, prefix_refl _⟩
  · exact pieces_aboveUpTo hp h

/-! ## Places that texts mean -/

structure IsComponent (n : Text) : Prop where
  nonempty : n ≠ []
  noSlash : '/' ∉ n
  ne_here : n ≠ ['.']
  ne_up : n ≠ ['.', '.']

/-- The place that pieces lead to from a place below some directory, if all goes well; none if they
leave the directory. -/
def resolve : Place → List Text → Option Place
  | q, [] => some q
  | q, piece :: rest =>
    if piece = ['.'] then resolve q rest
    else if piece = ['.', '.'] then if q = [] then none else resolve q.dropLast rest
    else resolve (q ++ [piece]) rest

theorem resolve_append {ps' : List Text} : ∀ {q : Place},
    resolve q (ps ++ ps') = (resolve q ps).bind fun q' => resolve q' ps' := by
  induction ps with
  | nil => intro q; rfl
  | cons piece rest ih =>
    intro q
    rw [cons_append, resolve, resolve]
    split_ifs with hdot hup hq
    · exact ih
    · rfl
    · exact ih
    · exact ih

theorem resolve_name (hn : IsComponent n) (q : Place) (rest : List Text) :
    resolve q (n :: rest) = resolve (q ++ [n]) rest := by
  rw [resolve, if_neg hn.ne_here, if_neg hn.ne_up]

theorem length_resolve_le :
    ∀ {q q' : Place}, resolve q ps = some q' → q'.length ≤ q.length + ps.length := by
  induction ps with
  | nil => intro q q' h; cases h; simp
  | cons piece rest ih =>
    intro q q' h
    rw [resolve] at h
    split_ifs at h
    · have := ih h
      simp only [length_cons]
      omega
    · have := ih h
      simp only [length_dropLast, length_cons] at this ⊢
      omega
    · have := ih h
      simp only [length_append, length_cons, length_nil] at this ⊢
      omega

theorem resolve_below {b : Place} : ∀ {q q' : Place},
    resolve q ps = some q' → resolve (b ++ q) ps = some (b ++ q') := by
  induction ps with
  | nil => intro q q' h; cases h; rfl
  | cons piece rest ih =>
    intro q q' h
    rw [resolve] at h ⊢
    split_ifs at h ⊢ with hdot hup hbq hq
    · exact ih h
    · exact absurd (append_eq_nil_iff.1 hbq).2 hq
    · rw [dropLast_append_of_ne_nil ‹_›]
      exact ih h
    · rw [append_assoc]
      exact ih h

def Stands (R : Place) (p : Path) (q : Place) : Prop :=
  isAbsolute p = true ∧ ∃ ps, pieces p = R ++ ps ∧ resolve [] ps = some q

theorem Stands.unique (h : Stands R p q) (h' : Stands R p q') : q = q' := by
  obtain ⟨-, ps, hps, hq⟩ := h
  obtain ⟨-, ps', hps', hq'⟩ := h'
  obtain rfl : ps = ps' := append_cancel_left (hps.symm.trans hps')
  exact Option.some.inj (hq.symm.trans hq')

theorem pieces_pathOf (hR : ∀ n ∈ R, IsComponent n) : pieces (pathOf R) = R := by
  rw [pathOf, pieces_slash, pieces_intercalate fun n hn => (hR n hn).noSlash, filter_eq_self]
  intro n hn
  simpa using (hR n hn).nonempty

theorem stands_pathOf (hR : ∀ n ∈ R, IsComponent n) : Stands R (pathOf R) [] :=
  ⟨rfl, [], by rw [pieces_pathOf hR, append_nil], rfl⟩

theorem Stands.join {n : Path} (h : Stands R p q)
    (hn : isAbsolute n = false) (hq : resolve q (pieces n) = some q') :
    Stands R (Path.join p n) q' := by
  obtain ⟨habs, ps, hps, hq₀⟩ := h
  refine ⟨isAbsolute_join habs, ps ++ pieces n, ?_, ?_⟩
  · rw [pieces_join hn, hps, append_assoc]
  · rw [resolve_append, hq₀]
    exact hq

theorem IsComponent.pieces (hn : IsComponent n) : FileTree.pieces n = [n] := by
  rw [pieces_of_not_mem hn.noSlash, if_neg hn.nonempty]

theorem IsComponent.isAbsolute (hn : IsComponent n) : isAbsolute n = false :=
  isAbsolute_of_not_mem hn.noSlash

theorem Stands.join_name (h : Stands R p q) (hn : IsComponent n) :
    Stands R (Path.join p n) (q ++ [n]) := by
  refine h.join hn.isAbsolute ?_
  rw [hn.pieces, resolve_name hn]
  rfl

theorem IsComponent.isSignificant (hn : IsComponent n) (start : Bool) :
    isSignificant start n = true := by
  have hne := hn.nonempty
  have hdot := hn.ne_here
  cases n with
  | nil => exact absurd rfl hne
  | cons a n => simp [isSignificant, hdot]

theorem exists_join_eq (hp : isAbsolute p = true) (hn : '/' ∉ n) :
    ∃ p', Path.join p n = p' ++ '/' :: n ∧ (p.getLast? ≠ some '/' → p' = p) := by
  rw [Path.join, isAbsolute_of_not_mem hn]
  have hne : p.isEmpty = false := by cases p <;> simp_all [isAbsolute]
  simp only [Bool.false_eq_true, if_false, hne]
  by_cases hend : p.getLast? = some '/'
  · obtain ⟨p', rfl⟩ := getLast?_eq_some_iff.1 hend
    exact ⟨p', by simp, fun h => absurd hend h⟩
  · exact ⟨p, by simp [hend], fun _ => rfl⟩

theorem getLast?_join (hp : isAbsolute p = true) (hn : IsComponent n) :
    (Path.join p n).getLast? ≠ some '/' := by
  obtain ⟨p', hp', -⟩ := exists_join_eq hp hn.noSlash
  rw [hp', getLast?_append, getLast?_cons, Option.some_or]
  intro h
  have hlast : n.getLast?.getD '/' = '/' := Option.some.inj h
  cases hl : n.getLast? with
  | none => exact hn.nonempty (getLast?_eq_none_iff.1 hl)
  | some c =>
    rw [hl, Option.getD_some] at hlast
    exact hn.noSlash (hlast ▸ mem_of_getLast? hl)

theorem parent?_join {r : Path} {a : Text} (hr : isAbsolute r = true) (ha : IsComponent a)
    (hn : IsComponent n) : parent? (Path.join (Path.join r a) n) = some (Path.join r a) := by
  have hp : isAbsolute (Path.join r a) = true := isAbsolute_join hr
  obtain ⟨r', hr', -⟩ := exists_join_eq hr ha.noSlash
  obtain ⟨p', hp', hend⟩ := exists_join_eq hp hn.noSlash
  obtain rfl := hend (getLast?_join hr ha)
  have hbody : body (Path.join r a) = (Text.splitOn '/' r').tail ++ [a] := by
    rw [hr'] at hp ⊢
    exact body_append hp ha.noSlash
  have hbody' : body (Path.join (Path.join r a) n) = body (Path.join r a) ++ [n] := by
    have habs := isAbsolute_join (q := n) hp
    rw [hp'] at habs ⊢
    rw [body_append habs hn.noSlash, body, if_pos hp]
  rw [parent?, isAbsolute_join hp, hbody', hbody]
  simp only [reverse_append, reverse_cons, reverse_nil, nil_append,
    singleton_append, dropVoid, hn.isSignificant, ha.isSignificant, if_true,
    reverse_reverse]
  rw [← hbody, ofBody_body hp]

/-- The paths above a path below a directory lie above the directory, or have the first of its
pieces there. -/
theorem pieces_above_below (hp : isAbsolute p = true) (hps : pieces p = R ++ ps)
    (hp' : p' ∈ p :: above p) :
    isAbsolute p' = true ∧ (pieces p' <+: R ∨ ∃ ps', ps' <+: ps ∧ pieces p' = R ++ ps') := by
  obtain ⟨habs, hpre⟩ := pieces_above hp hp'
  refine ⟨habs, ?_⟩
  rw [hps] at hpre
  rcases prefix_or_prefix_of_prefix hpre (prefix_append R ps) with hR | ⟨ps', hps'⟩
  · exact .inl hR
  · rw [← hps'] at hpre
    exact .inr ⟨ps', (prefix_append_right_inj R).1 hpre, hps'.symm⟩

/-! ## Trees with such a directory -/

structure HasDir (R : Place) (t : FileTree) : Prop where
  names : ∀ n ∈ R, IsComponent n ∧ IsName n
  dirs : ∀ k, k <+: R → t.node? k = some .dir

/-- `R` is a directory of the tree, and there are no symbolic links in it. -/
structure Rooted (R : Place) (t : FileTree) : Prop extends HasDir R t where
  noLinks : ∀ q target, t.node? (R ++ q) ≠ some (.link target)

section Rooted

variable {t : FileTree} {last : Bool} {n : Nat} {cwd : Place}

theorem HasDir.upTo {P : Place} (ht : HasDir R t) (hP : P <+: R) : HasDir P t :=
  ⟨fun n hn => ht.names n (hP.subset hn), fun k hk => ht.dirs k (hk.trans hP)⟩

theorem HasDir.leads_iff {r : Place} (ht : HasDir R t) : ∀ {k rest : Place}, k ++ rest = R →
    (Leads t (fun _ => true) last n k (rest ++ ps) r ↔ Leads t (fun _ => true) last n R ps r) := by
  intro k rest
  induction rest generalizing k with
  | nil =>
    intro hR
    rw [append_nil] at hR
    rw [hR, nil_append]
  | cons a rest ih =>
    intro hR
    have hcut : (k ++ [a]) ++ rest = R := by simpa using hR
    have hdir : t.node? (k ++ [a]) = some .dir := ht.dirs _ ⟨rest, hcut⟩
    have ha := ht.names a (by rw [← hR]; simp)
    rw [← ih hcut, cons_append]
    generalize rest ++ ps = more
    constructor
    · intro h
      cases h with
      | here => exact absurd rfl ha.1.ne_here
      | up => exact absurd rfl ha.1.ne_up
      | name _ _ _ h => exact h
      | link _ _ hlink | follow _ _ hlink => rw [hdir] at hlink; cases hlink
    · intro h
      exact .name ⟨ht.dirs k ⟨a :: rest, hR⟩,
        rfl⟩ ha.2 (fun target hl => by rw [hdir] at hl; cases hl) h

/-- **Ways below a directory without symbolic links.**  Pieces lead where they mean to, and they
lead there in every tree that has the directories on the way. -/
theorem Leads.of_dirs {B q' : Place} {t' : FileTree}
    (hno : ∀ q target, t.node? (B ++ q) ≠ some (.link target))
    (hno' : ∀ q target, t'.node? (B ++ q) ≠ some (.link target)) {k r : Place}
    (h : Leads t (fun _ => true) last n k ps r) : ∀ {q : Place}, k = B ++ q →
      resolve q ps = some q' →
      (∀ q₁ ps₁, ps₁ <:+ ps → resolve q₁ ps₁ = some q' →
        t.node? (B ++ q₁) = some .dir → t'.node? (B ++ q₁) = some .dir) →
      r = B ++ q' ∧ Leads t' (fun _ => true) last n k ps r := by
  induction h with
  | nil =>
    rintro q rfl hq -
    cases hq
    exact ⟨rfl, .nil⟩
  | here hk _ ih =>
    rintro q rfl hq hdirs
    have hdir := hdirs q _ suffix_rfl hq hk.1
    rw [resolve, if_pos rfl] at hq
    obtain ⟨hr, hl⟩ := ih rfl hq fun q₁ ps₁ hps₁ => hdirs q₁ ps₁ (hps₁.trans (suffix_cons ..))
    exact ⟨hr, .here ⟨hdir, rfl⟩ hl⟩
  | up hk _ ih =>
    rintro q rfl hq hdirs
    have hdir := hdirs q _ suffix_rfl hq hk.1
    rw [resolve, if_neg (by simp), if_pos rfl] at hq
    split_ifs at hq with hne
    obtain ⟨hr, hl⟩ := ih (dropLast_append_of_ne_nil hne) hq
      fun q₁ ps₁ hps₁ => hdirs q₁ ps₁ (hps₁.trans (suffix_cons ..))
    exact ⟨hr, .up ⟨hdir, rfl⟩ hl⟩
  | name hk hname _ _ ih =>
    rintro q rfl hq hdirs
    have hdir := hdirs q _ suffix_rfl hq hk.1
    rw [resolve, if_neg hname.ne_here, if_neg hname.ne_up] at hq
    obtain ⟨hr, hl⟩ :=
      ih (append_assoc ..) hq fun q₁ ps₁ hps₁ => hdirs q₁ ps₁ (hps₁.trans (suffix_cons ..))
    refine ⟨hr, .name ⟨hdir, rfl⟩ hname (fun target hlink => ?_) hl⟩
    rw [append_assoc] at hlink
    exact hno' _ _ hlink
  | link _ _ hlink _ | follow _ _ hlink _ _ _ =>
    rintro q rfl - -
    rw [append_assoc] at hlink
    exact absurd hlink (hno _ _)

theorem startOf_of_isAbsolute (hp : isAbsolute p = true) : startOf cwd p = [] := by
  rw [startOf, if_pos hp]

/-- **Paths lead where they mean to.** -/
theorem Stands.leads {r : Place} (hp : Stands R p q) (ht : Rooted R t)
    (h : Leads t (fun _ => true) last n (startOf cwd p) (pieces p) r) : r = R ++ q := by
  obtain ⟨habs, ps, hps, hq⟩ := hp
  rw [startOf_of_isAbsolute habs, hps, ht.leads_iff (nil_append R)] at h
  exact (h.of_dirs ht.noLinks ht.noLinks (append_nil R).symm hq fun _ _ _ _ hdir => hdir).1

theorem Stands.of_entry {follow : Bool} {e : Entry} {k : Place} {node : Node} (hp : Stands R p q)
    (ht : Rooted R t) (he : t.locateBy (fun _ => true) follow cwd p = .ok e)
    (hnode : e.node t = .ok (k, node)) : k = R ++ q ∧ t.node? (R ++ q) = some node := by
  obtain ⟨-, k', hl, rfl⟩ := locateBy_eq_ok_iff.1 he
  obtain ⟨rfl, hk, -⟩ := Entry.node_eq_ok_iff.1 hnode
  have hplace := hp.leads ht hl
  exact ⟨hplace, hplace ▸ hk⟩

theorem Stands.node_of_isFile (hp : Stands R p q) (ht : Rooted R t) (h : t.isFile cwd p = true) :
    ∃ n, t.node? (R ++ q) = some n ∧ Node.IsFile n := by
  obtain ⟨-, -, k, n, hl, hk, hn⟩ := isFile_iff.1 h
  exact ⟨n, hp.leads ht hl ▸ hk, hn⟩

theorem Stands.isFile_of_occupied (hp : Stands R p q)
    (ht : Rooted R t) (hfile : ∀ n, t.node? (R ++ q) = some n → Node.IsFile n)
    (h : t.Occupied cwd p) : t.isFile cwd p = true := by
  obtain ⟨hu, k, n, hl, hk, hdir⟩ := occupied_iff.1 h
  have hn : Node.IsFile n := hfile n (hp.leads ht hl ▸ hk)
  have hopen : closes p = false := by
    cases hclosed : closes p with
    | false => rfl
    | true => rw [hdir hclosed] at hn; exact hn.elim
  refine isFile_iff.2 ⟨hu, hopen, k, n, ?_, hk, hn⟩
  cases hend : p.getLast? == some '/' with
  | true => rw [LeadsTo, hend] at hl; exact hl
  | false =>
    rw [LeadsTo, hend] at hl
    refine hl.follows fun target hlink => ?_
    rw [hlink] at hk
    cases hk
    exact hn

end Rooted

/-! ## Changes at a place -/

/-- Nothing but what is at the place `k` has changed; a directory there has stayed, and no symbolic
link has come. -/
structure Touches (t t' : FileTree) (k : Place) : Prop where
  elsewhere : ∀ k', k' ≠ k → t'.node? k' = t.node? k'
  keepsDir : t.node? k = some .dir → t'.node? k = some .dir
  noLink : ∀ target, t'.node? k = some (.link target) → t.node? k = some (.link target)

section Touches

variable {t t' : FileTree} {k cwd : Place} {bytes : Bytes}

theorem Touches.refl (t : FileTree) (k : Place) : Touches t t k :=
  ⟨fun _ _ => rfl, fun h => h, fun _ h => h⟩

theorem Touches.put {n : Node} (hk : t.node? k ≠ some .dir) (hn : ∀ target, n ≠ .link target) :
    Touches t (t.put k n) k := by
  have hroot : k ≠ [] := by rintro rfl; exact hk (node?_root t)
  refine ⟨fun k' hne => node?_put_of_ne hne .., fun h => absurd h hk, fun target h => ?_⟩
  rw [node?_put_self hroot] at h
  exact absurd (Option.some.inj h) (hn target)

theorem Touches.erase (hk : t.node? k ≠ some .dir) : Touches t (t.erase k) k := by
  have hroot : k ≠ [] := by rintro rfl; exact hk (node?_root t)
  refine ⟨fun k' hne => node?_erase_of_ne hne t, fun h => absurd h hk, fun target h => ?_⟩
  rw [node?_erase hroot, if_pos rfl] at h
  cases h

theorem Touches.rooted (h : Touches t t' k) (ht : Rooted R t) : Rooted R t' := by
  refine ⟨⟨ht.names, fun k' hk' => ?_⟩, fun q target hl => ?_⟩
  · by_cases hne : k' = k
    · subst hne; exact h.keepsDir (ht.dirs _ hk')
    · rw [h.elsewhere _ hne]; exact ht.dirs _ hk'
  · by_cases hne : R ++ q = k
    · exact ht.noLinks q target (hne ▸ h.noLink target (hne ▸ hl))
    · rw [h.elsewhere _ hne] at hl
      exact ht.noLinks q target hl

theorem touches_modifyAt {f : Bytes → Bytes} (h : t.modifyAt k f = .ok t') : Touches t t' k := by
  rw [modifyAt] at h
  cases hk : t.node? k with
  | none =>
    rw [hk] at h
    cases h
    exact .put (by simp [hk]) nofun
  | some n =>
    rw [hk] at h
    cases n with
    | file bytes executable => cases h; exact .put (by simp [hk]) nofun
    | dir | tool tool => cases h
    | device d => cases d <;> first | cases h; exact .refl t k | cases h
    | link target => cases h; exact .refl t k

theorem locateFile_eq_ok (h : t.locateFile cwd p = .ok k) : Usable p ∧ closes p = false ∧
    Leads t (fun _ => true) true maxLinks (startOf cwd p) (pieces p) k := by
  rw [locateFile, locate] at h
  cases he : t.locateBy (fun _ => true) true cwd p with
  | error e => rw [he] at h; cases h
  | ok e =>
    obtain ⟨hu, k', hl, rfl⟩ := locateBy_eq_ok_iff.1 he
    rw [he] at h
    simp only [bind, Except.bind] at h
    split at h
    · cases h
    · rename_i hopen
      cases h
      exact ⟨hu, Bool.eq_false_iff.2 hopen, hl⟩

variable (hp : Stands R p q) (ht : Rooted R t)

include hp ht

theorem Stands.touches_modify {f : Bytes → Bytes}
    (h : (do t.modifyAt (← t.locateFile cwd p) f) = .ok t') : Touches t t' (R ++ q) := by
  cases hk : t.locateFile cwd p with
  | error e => rw [hk] at h; cases h
  | ok k =>
    rw [hk] at h
    have hmodify : t.modifyAt k f = .ok t' := h
    exact hp.leads ht (locateFile_eq_ok hk).2.2 ▸ touches_modifyAt hmodify

theorem Stands.touches_setExecutable (h : t.setExecutable cwd p = .ok t') :
    Touches t t' (R ++ q) := by
  rw [setExecutable] at h
  cases hs : t.stat cwd p with
  | error e => rw [hs] at h; cases h
  | ok kn =>
    obtain ⟨k, n⟩ := kn
    obtain ⟨e, he, hen⟩ := stat_eq_ok_iff.1 hs
    obtain ⟨rfl, hk⟩ := hp.of_entry ht he hen
    rw [hs] at h
    cases n with
    | file _ _ => cases h; exact .put (by simp [hk]) nofun
    | dir | tool _ | device _ | link _ => cases h; exact .refl t _

theorem Stands.removeFile (h : t.removeFile cwd p = .ok t') :
    t.node? (R ++ q) ≠ some .dir ∧ t' = t.erase (R ++ q) := by
  rw [FileTree.removeFile] at h
  cases hs : t.lstat cwd p with
  | error e => rw [hs] at h; cases h
  | ok kn =>
    obtain ⟨k, n⟩ := kn
    obtain ⟨e, he, hen⟩ := lstat_eq_ok_iff.1 hs
    obtain ⟨rfl, hk⟩ := hp.of_entry ht he hen
    rw [hs] at h
    cases n with
    | dir => cases h
    | file _ _ | tool _ | device _ | link _ => cases h; exact ⟨by simp [hk], rfl⟩

theorem Stands.createNew (h : t.createNew cwd p bytes = .ok t') :
    t.node? (R ++ q) = none ∧ t' = t.put (R ++ q) (.file bytes false) := by
  obtain ⟨-, -, k, hl, hk⟩ := createNew_eq_ok h
  exact hp.leads ht hl ▸ hk

end Touches

/-- Nothing has changed but that directories have been made, at places of `S`. -/
def AddsDirs (S : Place → Prop) (t t' : FileTree) : Prop :=
  ∀ k, t'.node? k = t.node? k ∨ t.node? k = none ∧ t'.node? k = some .dir ∧ S k

section AddsDirs

variable {S : Place → Prop} {t t' t'' : FileTree}

theorem AddsDirs.refl (S : Place → Prop) (t : FileTree) : AddsDirs S t t := fun _ => .inl rfl

theorem AddsDirs.trans (h : AddsDirs S t t') (h' : AddsDirs S t' t'') : AddsDirs S t t'' := by
  intro k
  rcases h' k with hk' | ⟨hk', hd', hS⟩
  · rw [hk']; exact h k
  · rcases h k with hk | ⟨_, hd, _⟩
    · exact .inr ⟨hk ▸ hk', hd', hS⟩
    · rw [hd] at hk'; cases hk'

theorem AddsDirs.put {k : Place} (hk : t.node? k = none) (hS : S k) :
    AddsDirs S t (t.put k .dir) := by
  have hroot : k ≠ [] := by rintro rfl; simp at hk
  intro k'
  by_cases hne : k' = k
  · subst hne; exact .inr ⟨hk, node?_put_self hroot .., hS⟩
  · exact .inl (node?_put_of_ne hne ..)

theorem AddsDirs.keeps (h : AddsDirs S t t') {k : Place} {n : Node} (hk : t.node? k = some n) :
    t'.node? k = some n := by
  rcases h k with hk' | ⟨hnone, _⟩
  · rw [hk', hk]
  · rw [hk] at hnone; cases hnone

theorem AddsDirs.rooted (h : AddsDirs S t t') (ht : Rooted R t) : Rooted R t' := by
  refine ⟨⟨ht.names, fun k hk => h.keeps (ht.dirs k hk)⟩, fun q target hl => ?_⟩
  rcases h (R ++ q) with hk | ⟨-, hd, -⟩
  · rw [hk] at hl; exact ht.noLinks q target hl
  · rw [hd] at hl; cases hl

/-- **Making directories below a directory.**  They are made where the path, and those above it,
mean. -/
theorem addsDirs_createDirs {cwd : Place} (ht : Rooted R t)
    (hp : isAbsolute p = true) (hps : pieces p = R ++ ps) (hq : resolve [] ps = some q) :
    AddsDirs (fun k => ∃ ps' q', ps' <+: ps ∧ resolve [] ps' = some q' ∧ k = R ++ q') t
      (t.createDirs cwd p).2 := by
  refine (createDirs_induction (M := fun p' => p' ∈ p :: above p)
    (I := fun t' => AddsDirs _ t t' ∧ Rooted R t') ?_ (fun _ h => h) ⟨.refl _ t, ht⟩).1
  rintro t₁ t₂ p' hp' ⟨hadds, ht₁⟩ hmade
  obtain ⟨-, k, hl, hk, rfl⟩ := createDir_eq_ok hmade
  obtain ⟨habs, hR | ⟨ps', hpre, hps'⟩⟩ := pieces_above_below hp hps hp'
  · -- the path is one above the directory, where there is a directory already
    have hdir := ht₁.toHasDir.upTo hR
    rw [LeadsTo, startOf_of_isAbsolute habs, ← append_nil (pieces p'),
      hdir.leads_iff (nil_append _)] at hl
    cases hl
    rw [hdir.dirs _ (prefix_refl _)] at hk
    cases hk
  · obtain ⟨ps'', rfl⟩ := hpre
    rw [resolve_append] at hq
    obtain ⟨q', hq', -⟩ := Option.bind_eq_some_iff.1 hq
    obtain rfl := Stands.leads (q := q') ⟨habs, ps', hps', hq'⟩ ht₁ hl
    have hput : AddsDirs (fun k => ∃ ps₁ q₁, ps₁ <+: ps' ++ ps'' ∧
        resolve [] ps₁ = some q₁ ∧ k = R ++ q₁)
        t₁ (t₁.put (R ++ q') .dir) :=
      .put hk ⟨ps', q', prefix_append .., hq', rfl⟩
    exact ⟨hadds.trans hput, hput.rooted ht₁⟩

end AddsDirs

end FileTree

end PatchTriage
