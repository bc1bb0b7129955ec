import PatchTriage.Proofs.Listings

/-!
# Patches loaded from files

Every file that is found becomes a patch, or it is set aside as empty, unreadable or unhandled, or
it is beyond a limit.
-/

namespace PatchTriage.Population

open Job List Population State

open SortedList

/-! ## Files within the limit of their tool -/

section Admitted

variable {α : Type} {limit : Option Nat} {key : α → Text}

/-- Whether a limit leaves a file before which `n` others have been met. -/
def admits (limit : Option Nat) (n : Nat) : Bool := limit.all (n < ·)

/-- The files that the limit leaves of each key, where `before` are the keys met already. -/
def admitted (limit : Option Nat) (key : α → Text) : (before : List Text) → List α → List α
  | _, [] => []
  | before, f :: files =>
    if admits limit (before.count (key f)) then f :: admitted limit key (key f :: before) files
    else admitted limit key (key f :: before) files

theorem admitted_sublist (before : List Text) (files : List α) :
    (admitted limit key before files).Sublist files := by
  induction files generalizing before with
  | nil => exact .slnil
  | cons f files ih =>
    rw [admitted]
    split_ifs
    · exact (ih _).cons_cons f
    · exact (ih _).cons f

theorem admitted_none (before : List Text) (files : List α) :
    admitted none key before files = files := by
  induction files generalizing before with
  | nil => rfl
  | cons f files ih =>
    have hadmits : admits none (before.count (key f)) = true := rfl
    rw [admitted, if_pos hadmits, ih]

theorem admitted_map {β : Type} (g : β → α) (before : List Text) (files : List β) :
    admitted limit key before (files.map g) = (admitted limit (key ∘ g) before files).map g := by
  induction files generalizing before with
  | nil => rfl
  | cons f files ih =>
    rw [map_cons, admitted, admitted, ih, Function.comp_apply]
    split_ifs <;> rfl

/-- **The first files of every key are admitted.** -/
theorem filter_admitted (n : Nat) (k : Text) (before : List Text) (files : List α) :
    (admitted (some n) key before files).filter (key · = k) =
      (files.filter (key · = k)).take (n - before.count k) := by
  induction files generalizing before with
  | nil => simp [admitted]
  | cons f files ih =>
    rw [admitted, filter_cons]
    by_cases hk : key f = k
    · subst hk
      have hcount : (key f :: before).count (key f) = before.count (key f) + 1 := count_cons_self
      by_cases hlt : before.count (key f) < n
      · -- one more is left to be taken
        obtain ⟨m, hm⟩ : ∃ m, n - before.count (key f) = m + 1 :=
          ⟨n - before.count (key f) - 1, by omega⟩
        have hadmits : admits (some n) (before.count (key f)) = true := by simpa [admits] using hlt
        have hrest : n - (before.count (key f) + 1) = m := by omega
        rw [if_pos hadmits, filter_cons, ih, hcount, hrest, hm]
        simp
      · have hover : ¬ admits (some n) (before.count (key f)) = true := by simpa [admits] using hlt
        have hnone : n - before.count (key f) = 0 := by omega
        have hrest : n - (before.count (key f) + 1) = 0 := by omega
        rw [if_neg hover, ih, hcount, hrest, hnone, take_zero, take_zero]
    · have hcount : (key f :: before).count k = before.count k := count_cons_of_ne hk
      have hoff : ¬ (decide (key f = k) = true) := by simpa using hk
      rw [if_neg hoff]
      split_ifs
      · rw [filter_cons, if_neg hoff, ih, hcount]
      · rw [ih, hcount]

end Admitted

/-! ## What becomes of files -/

def idOf (base path : Path) : Text := patchId (tool? base path) path

def toolName (base path : Path) : Text := (tool? base path).getD []

/-- What becomes of files, each under its id, where the ids in `seen` have been met already. -/
def fates (opts : Diff.Options) (base : Path) :
    (seen : List Text) → List (Path × Option Bytes) → List (Text × Fate)
  | _, [] => []
  | seen, f :: files =>
    let id := idOf base f.1
    if id ∈ seen then (id, .unhandled) :: fates opts base seen files
    else (id, fate opts (tool? base f.1) f.1 f.2) :: fates opts base (id :: seen) files

def Fate.patch? : Fate → Option Patch
  | loaded p => some p
  | _ => none

def patchesIn (l : List (Text × Fate)) : List Patch := l.filterMap fun e => e.2.patch?

def idsWith (x : Fate) (l : List (Text × Fate)) : List Text :=
  (l.filter fun e => e.2 = x).map Prod.fst

theorem length_eq_sum (l : List (Text × Fate)) :
    l.length = (patchesIn l).length + (idsWith .empty l).length + (idsWith .unreadable l).length
      + (idsWith .unhandled l).length := by
  induction l with
  | nil => rfl
  | cons e l ih =>
    obtain ⟨id, x⟩ := e
    rw [length_cons, ih]
    cases x <;> simp [patchesIn, idsWith, Fate.patch?] <;> omega

section Fates

variable {opts : Diff.Options} {base : Path}

theorem map_fst_fates (opts : Diff.Options) (base : Path) (seen : List Text)
    (files : List (Path × Option Bytes)) :
    (fates opts base seen files).map Prod.fst = files.map fun f => idOf base f.1 := by
  induction files generalizing seen with
  | nil => rfl
  | cons f files ih =>
    rw [fates]
    split_ifs <;> simp [ih]

theorem fate_eq_loaded {tool : Option Text} {path : Path} {bytes : Option Bytes} {p : Patch}
    (h : fate opts tool path bytes = .loaded p) : p.id = patchId tool path ∧ p.path = path := by
  rw [fate.eq_def] at h
  split at h
  · cases h
  · cases h
  · split at h
    · cases h
    · split at h
      · rename_i hp
        cases h
        rw [Patch.ofDiff?.eq_def] at hp
        split at hp <;> cases hp <;> exact ⟨rfl, rfl⟩
      · cases h

theorem patchesIn_fates_cons (opts : Diff.Options) (base : Path) (seen : List Text)
    (f : Path × Option Bytes)
    (files : List (Path × Option Bytes)) :
    (∃ seen', seen ⊆ seen' ∧
      patchesIn (fates opts base seen (f :: files)) = patchesIn (fates opts base seen' files)) ∨
    ∃ p, p.id = idOf base f.1 ∧ p.path = f.1 ∧ p.id ∉ seen ∧
      patchesIn (fates opts base seen (f :: files)) =
        p :: patchesIn (fates opts base (p.id :: seen) files) := by
  rw [fates]
  by_cases hseen : idOf base f.1 ∈ seen
  · rw [if_pos hseen]
    exact .inl ⟨seen, Subset.refl _, rfl⟩
  · rw [if_neg hseen]
    cases hfate : fate opts (tool? base f.1) f.1 f.2 with
    | loaded p =>
      obtain ⟨hid, hpath⟩ := fate_eq_loaded hfate
      refine .inr ⟨p, hid, hpath, hid ▸ hseen, ?_⟩
      rw [hid]
      rfl
    | empty | unreadable | unhandled => exact .inl ⟨_, subset_cons_self _ _, rfl⟩

/-- **No two patches have the same id.** -/
theorem nodup_ids_fates (seen : List Text) (files : List (Path × Option Bytes)) :
    ((patchesIn (fates opts base seen files)).map Patch.id).Nodup ∧
      ∀ p ∈ patchesIn (fates opts base seen files), p.id ∉ seen := by
  induction files generalizing seen with
  | nil => exact ⟨nodup_nil, by simp [fates, patchesIn]⟩
  | cons f files ih =>
    obtain ⟨seen', hsub, heq⟩ | ⟨p, -, -, hseen, heq⟩ := patchesIn_fates_cons opts base seen f files
    · rw [heq]
      exact ⟨(ih seen').1, fun p hp hmem => (ih seen').2 p hp (hsub hmem)⟩
    · obtain ⟨hnodup, hfresh⟩ := ih (p.id :: seen)
      rw [heq]
      refine ⟨nodup_cons.2 ⟨fun hmem => ?_, hnodup⟩, forall_mem_cons.2 ⟨hseen, ?_⟩⟩
      · obtain ⟨q, hq, hid⟩ := mem_map.1 hmem
        exact hfresh q hq (hid ▸ mem_cons_self)
      · exact fun q hq hmem => hfresh q hq (mem_cons_of_mem _ hmem)

theorem paths_fates_sublist (seen : List Text) (files : List (Path × Option Bytes)) :
    ((patchesIn (fates opts base seen files)).map Patch.path).Sublist (files.map Prod.fst) := by
  induction files generalizing seen with
  | nil => exact .slnil
  | cons f files ih =>
    obtain ⟨seen', -, heq⟩ | ⟨p, -, hpath, -, heq⟩ := patchesIn_fates_cons opts base seen f files
    · rw [heq]
      exact (ih seen').cons _
    · rw [heq, map_cons, map_cons, hpath]
      exact (ih _).cons_cons _

theorem id_of_mem_fates {seen : List Text} {files : List (Path × Option Bytes)} {p : Patch}
    (hp : p ∈ patchesIn (fates opts base seen files)) : p.id = idOf base p.path := by
  induction files generalizing seen with
  | nil => cases hp
  | cons f files ih =>
    obtain ⟨seen', -, heq⟩ | ⟨q, hid, hpath, -, heq⟩ := patchesIn_fates_cons opts base seen f files
    · exact ih (heq ▸ hp)
    · rw [heq] at hp
      rcases mem_cons.1 hp with rfl | hp
      · rw [hid, hpath]
      · exact ih hp

end Fates

/-! ## The loop over the files -/

def placed (r : Population) (l : List (Text × Fate)) : Population :=
  { r with
    patches := r.patches ++ patchesIn l
    empty := r.empty ++ idsWith .empty l
    unreadable := r.unreadable ++ idsWith .unreadable l
    unhandled := r.unhandled ++ idsWith .unhandled l }

theorem placed_nil (r : Population) : r.placed [] = r := by simp [placed, patchesIn, idsWith]

theorem placed_cons (r : Population) (id : Text) (x : Fate) (l : List (Text × Fate)) :
    r.placed ((id, x) :: l) = (r.note id x).placed l := by
  cases x <;> simp [placed, note, patchesIn, idsWith, Fate.patch?]

section Loop

variable {opts : Options} {base : Path} {s : State} {f : Path × Option Bytes} {before : List Text}

def State.countFor (s : State) (base path : Path) : Nat :=
  (find? Text.compare (toolName base path) s.counts).getD 0

def State.met (s : State) (base path : Path) : State :=
  { s with
    report.initial := s.report.initial + 1
    counts := insert Text.compare (toolName base path) (s.countFor base path + 1) s.counts }

/-- The state after a file whose contents are known. -/
def State.add (opts : Options) (base : Path) (s : State) (f : Path × Option Bytes) : State :=
  (s.meet opts base f.1).elim id (· f.2)

theorem State.add_eq (opts : Options) (base : Path) (s : State) (f : Path × Option Bytes) :
    s.add opts base f =
      if admits opts.perDirLimit (s.countFor base f.1) then
        if idOf base f.1 ∈ s.seen then
          { s.met base f.1 with report := (s.met base f.1).report.note (idOf base f.1) .unhandled }
        else
          { s.met base f.1 with
            seen := idOf base f.1 :: s.seen
            report := (s.met base f.1).report.note (idOf base f.1)
              (fate opts.diff (tool? base f.1) f.1 f.2) }
      else { s.met base f.1 with report.overLimit := s.report.overLimit + 1 } := by
  have hover : opts.perDirLimit.any (· < s.countFor base f.1 + 1) =
      !admits opts.perDirLimit (s.countFor base f.1) := by
    cases opts.perDirLimit with
    | none => rfl
    | some limit =>
      rw [admits, Option.any_some, Option.all_some, ← decide_not, decide_eq_decide]
      omega
  show Sum.elim id _ (if opts.perDirLimit.any (· < s.countFor base f.1 + 1) = true then _
    else if idOf base f.1 ∈ s.seen then _ else _) = _
  rw [hover]
  cases admits opts.perDirLimit (s.countFor base f.1) with
  | false => rfl
  | true =>
    by_cases hseen : idOf base f.1 ∈ s.seen
    · rw [if_pos hseen, if_pos rfl, if_pos hseen]
      rfl
    · rw [if_neg hseen, if_pos rfl, if_neg hseen]
      rfl

def State.Counts (s : State) (before : List Text) : Prop :=
  ∀ name, (find? Text.compare name s.counts).getD 0 = before.count name

theorem State.Counts.add (h : s.Counts before) (opts : Options) (base : Path)
    (f : Path × Option Bytes) : (s.add opts base f).Counts (toolName base f.1 :: before) := by
  have hcounts : (s.add opts base f).counts = (s.met base f.1).counts := by
    rw [add_eq]
    split_ifs <;> rfl
  intro name
  rw [hcounts, met]
  by_cases hname : name = toolName base f.1
  · rw [hname, find?_insert_self, Option.getD_some, count_cons_self, countFor, h]
  · rw [find?_insert_of_ne hname, h name, count_cons_of_ne (Ne.symm hname)]

theorem State.add_of_over (hover : ¬ admits opts.perDirLimit (s.countFor base f.1) = true) :
    (s.add opts base f).seen = s.seen ∧ (s.add opts base f).report =
        { s.report with initial := s.report.initial + 1, overLimit := s.report.overLimit + 1 } := by
  rw [add_eq, if_neg hover]
  exact ⟨rfl, rfl⟩

/-- A file within the limit of its tool is put in the place of its fate. -/
theorem State.add_of_admitted (hadmits : admits opts.perDirLimit (s.countFor base f.1) = true)
    (files : List (Path × Option Bytes)) :
    ∃ x, fates opts.diff base s.seen (f :: files) =
        (idOf base f.1, x) :: fates opts.diff base (s.add opts base f).seen files ∧
      (s.add opts base f).report =
        { s.report.note (idOf base f.1) x with initial := s.report.initial + 1 } := by
  have hnote (x : Fate) : (s.met base f.1).report.note (idOf base f.1) x =
      { s.report.note (idOf base f.1) x with initial := s.report.initial + 1 } := by
    cases x <;> rfl
  rw [add_eq, if_pos hadmits, fates]
  by_cases hmem : idOf base f.1 ∈ s.seen
  · rw [if_pos hmem, if_pos hmem]
    exact ⟨.unhandled, rfl, hnote .unhandled⟩
  · rw [if_neg hmem, if_neg hmem]
    exact ⟨_, rfl, hnote (fate opts.diff (tool? base f.1) f.1 f.2)⟩

/-- **The report on a list of files.** -/
theorem report_foldl_add (opts : Options) (base : Path) (files : List (Path × Option Bytes))
    (h : s.Counts before) :
    (files.foldl (add opts base) s).report =
      let taken := admitted opts.perDirLimit (fun f => toolName base f.1) before files
      { s.report.placed (fates opts.diff base s.seen taken) with
        initial := s.report.initial + files.length
        overLimit := s.report.overLimit + (files.length - taken.length) } := by
  induction files generalizing s before with
  | nil => simp [admitted, fates, placed_nil]
  | cons f files ih =>
    have hcount : s.countFor base f.1 = before.count (toolName base f.1) := h _
    have hlength : (admitted opts.perDirLimit (fun f => toolName base f.1)
        (toolName base f.1 :: before) files).length ≤ files.length :=
      (admitted_sublist _ _).length_le
    rw [foldl_cons, ih (h.add opts base f), admitted, ← hcount]
    dsimp only
    split_ifs with hadmits
    · obtain ⟨x, hfates, hreport⟩ := add_of_admitted hadmits
        (admitted opts.perDirLimit (fun f => toolName base f.1) (toolName base f.1 :: before) files)
      rw [hfates, placed_cons, hreport]
      have hover : (s.report.note (idOf base f.1) x).overLimit = s.report.overLimit := by
        cases x <;> rfl
      simp only [placed, hover, length_cons, mk.injEq, true_and]
      omega
    · obtain ⟨hseen, hreport⟩ := add_of_over hadmits
      rw [hseen, hreport]
      simp only [placed, length_cons, mk.injEq, true_and]
      omega

end Loop

/-! ## The report -/

def considered (opts : Options) (files : List Path) : List Path :=
  (opts.limit.map fun n => files.take n).getD files

/-- What a report says about the files found, where `read` gives their contents and `taken` are the
files that no limit has kept out. -/
structure Accounts (opts : Options) (base : Path) (read : Path → Option Bytes)
    (files taken : List Path) (r : Population) : Prop where
  conserved : files.length =
    r.patches.length + r.empty.length + r.unreadable.length + r.unhandled.length + r.overLimit
  initial : r.initial = (opts.limit.map (min · files.length)).getD files.length
  ordered : (r.patches.map Patch.path).Sublist files
  distinct : (r.patches.map Patch.id).Nodup
  /-- Of each tool, the first files considered are taken, and of these all that its limit leaves. -/
  first : ∀ n, opts.perDirLimit = some n → ∀ tool, taken.filter (tool? base · = tool) =
      ((considered opts files).filter (tool? base · = tool)).take n
  all : opts.perDirLimit = none → taken = considered opts files
  within : taken.Sublist (considered opts files)
  /-- The files taken are those in the lists of the report, each in the place of its fate. -/
  lists : ∃ l, l = fates opts.diff base [] (taken.map fun p => (p, read p)) ∧
    l.map Prod.fst = taken.map (idOf base) ∧
    r.patches = patchesIn l ∧ r.empty = idsWith .empty l ∧ r.unreadable = idsWith .unreadable l ∧
      r.unhandled = idsWith .unhandled l

theorem tool?_ne_some_nil (base path : Path) : tool? base path ≠ some [] := by
  intro h
  simp only [tool?, Option.bind_eq_bind, Option.bind_eq_some_iff] at h
  obtain ⟨parent, -, relative, -, h⟩ := h
  split_ifs at h with hempty
  exact hempty (by simpa using h)

theorem toolName_eq_iff {base path : Path} {tool : Option Text} (htool : tool ≠ some []) :
    toolName base path = tool.getD [] ↔ tool? base path = tool := by
  have hne := tool?_ne_some_nil base path
  rw [toolName]
  cases hpath : tool? base path <;> cases tool <;> simp_all

theorem length_considered (opts : Options) (files : List Path) :
    (considered opts files).length = (opts.limit.map (min · files.length)).getD files.length := by
  rw [considered]
  cases opts.limit with
  | none => rfl
  | some n => exact length_take

theorem considered_sublist (opts : Options) (files : List Path) :
    (considered opts files).Sublist files := by
  rw [considered]
  cases opts.limit with
  | none => exact Sublist.refl _
  | some n => exact take_sublist n files

section Report

variable (opts : Options) (base : Path) (read : Path → Option Bytes) (files : List Path)

def taken : List Path := admitted opts.perDirLimit (toolName base) [] (considered opts files)

/-- The report on files whose contents are known. -/
def ofFiles (opts : Options) (base : Path) (files : List (Path × Option Bytes)) : Population :=
  let considered := (opts.limit.map fun n => files.take n).getD files
  let r := (considered.foldl (State.add opts base) {}).report
  { r with overLimit := r.overLimit + (files.length - considered.length) }

theorem ofFiles_eq : ofFiles opts base (files.map fun p => (p, read p)) =
    { placed {} (fates opts.diff base [] ((taken opts base files).map fun p => (p, read p))) with
      initial := (considered opts files).length
      overLimit := files.length - (taken opts base files).length } := by
  have hconsidered : (opts.limit.map fun n => (files.map fun p => (p, read p)).take n).getD
      (files.map fun p => (p, read p)) = (considered opts files).map fun p => (p, read p) := by
    rw [considered]
    cases opts.limit with
    | none => rfl
    | some n => exact (map_take).symm
  have hcounts : State.Counts {} [] := fun _ => rfl
  have htaken : (taken opts base files).length ≤ (considered opts files).length :=
    (admitted_sublist _ _).length_le
  have hle := (considered_sublist opts files).length_le
  rw [ofFiles, hconsidered, report_foldl_add opts base _ hcounts, admitted_map]
  simp only [placed, length_map, mk.injEq, Nat.zero_add, true_and]
  refine ⟨rfl, rfl, rfl, rfl, ?_⟩
  show (considered opts files).length - (taken opts base files).length
    + (files.length - (considered opts files).length) = _
  omega

/-- **Sorting files out accounts for each of them.** -/
theorem accounts_ofFiles : Accounts opts base read files (taken opts base files)
    (ofFiles opts base (files.map fun p => (p, read p))) := by
  have hwithin : (taken opts base files).Sublist (considered opts files) := admitted_sublist _ _
  have hfiles := hwithin.trans (considered_sublist opts files)
  have hnames := map_fst_fates opts.diff base [] ((taken opts base files).map fun p => (p, read p))
  have hlength := congrArg length hnames
  rw [length_map, length_map, length_map, length_eq_sum] at hlength
  rw [ofFiles_eq]
  refine
    { conserved := ?_
      initial := length_considered opts files
      ordered := ?_
      distinct := (nodup_ids_fates _ _).1
      first := ?_
      all := ?_
      within := hwithin
      lists := ⟨_, rfl, ?_, rfl, rfl, rfl, rfl⟩ }
  · show files.length = (patchesIn _).length + (idsWith .empty _).length
      + (idsWith .unreadable _).length + (idsWith .unhandled _).length
      + (files.length - (taken opts base files).length)
    have := hfiles.length_le
    omega
  · refine (paths_fates_sublist _ _).trans ?_
    rw [map_map]
    exact (map_id _).symm ▸ hfiles
  · intro n hn tool
    by_cases htool : tool = some []
    · have hnone (l : List Path) : l.filter (tool? base · = tool) = [] := by
        simpa [htool] using fun p _ => tool?_ne_some_nil base p
      rw [hnone, hnone, take_nil]
    · simp only [← toolName_eq_iff htool]
      rw [taken, hn, filter_admitted]
      rfl
  · intro hnone
    rw [taken, hnone, admitted_none]
  · rw [hnames, map_map]
    rfl

end Report

/-! ## The files of a location -/

def baseOf (t : FileTree) (cwd : Place) (location : Path) : Path :=
  if t.isDir cwd location then location else (Path.parent? location).getD []

/-- The files that a location stands for: itself, or those below it, in order. -/
structure Found (t : FileTree) (cwd : Place) (location : Path) (files : List Path) : Prop where
  sorted : files.Pairwise fun p q => (Path.compare p q).isLE = true
  once : files.Nodup
  mem_iff : ∀ p, p ∈ files ↔ t.isFile cwd p = true ∧ (p = location ∨
    ∃ names, FileTree.Below t cwd (fun _ => true) location names ∧ p = Path.descend location names)

section Load

variable {host : Host} {w : World} {location : Path} {opts : Options} {r : Population}

theorem State.run_take (host : Host) (w : World) (opts : Options) (base : Path) (s : State)
    (path : Path) : (s.take opts base path).run host w =
      (.ok (s.add opts base (path, (w.tree.read w.cwd path).toOption)), w) := by
  rw [take, add]
  cases s.meet opts base path with
  | inl s' => rfl
  | inr taken => exact run_op_bind ..

/-- Files are read into the same report as if the contents of all of them were known. -/
theorem run_loadFiles (host : Host) (w : World) (opts : Options) (base : Path) (files : List Path) :
    (loadFiles opts base files).run host w =
      (.ok (ofFiles opts base (files.map fun p => (p, (w.tree.read w.cwd p).toOption))), w) := by
  rw [loadFiles, run_bind_of_ok (run_foldlM (State.run_take host w opts base) _ _), ofFiles]
  cases opts.limit with
  | none => simp [foldl_map, run_pure]
  | some n => simp [foldl_map, ← map_take, run_pure]

theorem found_of_isDir (ht : w.tree.Proper) (hdir : w.tree.isDir w.cwd location = true) :
    Found w.tree w.cwd location (sort Path.compare
      (w.tree.filesBelow w.cwd (fun _ => true) (w.tree.isFile w.cwd) FileTree.maxPathLength
        location)) where
  sorted := pairwise_sort _
  once := (perm_sort _).nodup_iff.2 (FileTree.nodup_filesBelow ht)
  mem_iff p := by
    obtain ⟨k, hk⟩ := FileTree.isDir_iff.1 hdir
    rw [(perm_sort _).mem_iff,
      FileTree.mem_filesBelow ht.sound (FileTree.usable_of_stat hk).nonempty]
    constructor
    · rintro ⟨names, hnames, hp, hfile⟩
      exact ⟨hfile, .inr ⟨names, hnames, hp⟩⟩
    · rintro ⟨hfile, rfl | ⟨names, hnames, hp⟩⟩
      · rw [FileTree.isFile_of_isDir hdir] at hfile
        cases hfile
      · exact ⟨names, hnames, hp, hfile⟩

theorem found_of_isFile (hdir : ¬ w.tree.isDir w.cwd location = true)
    (hfile : w.tree.isFile w.cwd location = true) : Found w.tree w.cwd location [location] where
  sorted := pairwise_singleton _ _
  once := nodup_singleton _
  mem_iff p := by
    rw [mem_singleton]
    constructor
    · rintro rfl
      exact ⟨hfile, .inl rfl⟩
    · rintro ⟨-, hp | ⟨names, hnames, -⟩⟩
      · exact hp
      · cases hnames with
        | last hname _ | step hname _ _ _ => exact absurd hname.isDir hdir

theorem run_load_of_isDir {files : List Path} (hdir : w.tree.isDir w.cwd location = true)
    (hfiles : (collect FileTree.maxPathLength location).run host w = (.ok files, w)) :
    (load location opts).run host w = (.ok (ofFiles opts location ((sort Path.compare files).map
        fun p => (p, (w.tree.read w.cwd p).toOption))), w) := by
  have hisDir : (Op.isDir location).perform host w = (true, w) := congrArg (·, w) hdir
  rw [load, isDir, run_op_bind, hisDir]
  dsimp only
  rw [if_pos rfl, run_bind_of_ok hfiles, run_loadFiles]

/-- What is loaded from a location is what is sorted out of its files. -/
theorem eq_ofFiles_of_run_load (ht : w.tree.Proper)
    (h : ((load location opts).run host w).1 = .ok r) :
    ∃ files, Found w.tree w.cwd location files ∧ r = ofFiles opts (baseOf w.tree w.cwd location)
        (files.map fun p => (p, (w.tree.read w.cwd p).toOption)) := by
  rw [baseOf]
  cases hdir : w.tree.isDir w.cwd location with
  | true =>
    have hisDir : (Op.isDir location).perform host w = (true, w) := congrArg (·, w) hdir
    cases hfiles : (collect FileTree.maxPathLength location).run host w with
    | mk answer w₁ =>
      cases answer with
      | ok files =>
        obtain ⟨rfl, rfl⟩ := run_collect hfiles
        rw [run_load_of_isDir hdir hfiles] at h
        cases h
        exact ⟨_, found_of_isDir ht hdir, rfl⟩
      | error e =>
        rw [load, isDir, run_op_bind, hisDir] at h
        dsimp only at h
        rw [if_pos rfl, run_bind_of_error hfiles] at h
        cases h
  | false =>
    have hisDir : (Op.isDir location).perform host w = (false, w) := congrArg (·, w) hdir
    have hisFile : (Op.isFile location).perform host w = (w.tree.isFile w.cwd location, w) := rfl
    rw [load, isDir, run_op_bind, hisDir] at h
    dsimp only at h
    rw [if_neg Bool.false_ne_true, isFile, run_op_bind, hisFile] at h
    dsimp only at h
    split_ifs at h with hfile
    · rw [run_loadFiles] at h
      cases h
      exact ⟨_, found_of_isFile (by simp [hdir]) hfile, rfl⟩
    · cases h

/-- **Every file that is found is accounted for.** -/
theorem load_accounts (ht : w.tree.Proper) (h : ((load location opts).run host w).1 = .ok r) :
    ∃ files taken, Found w.tree w.cwd location files ∧
      Accounts opts (baseOf w.tree w.cwd location) (fun p => (w.tree.read w.cwd p).toOption)
        files taken r ∧
      (r.patches.map Patch.path).Pairwise fun p q => (Path.compare p q).isLE = true := by
  obtain ⟨files, hfound, rfl⟩ := eq_ofFiles_of_run_load ht h
  have haccounts := accounts_ofFiles opts (baseOf w.tree w.cwd location)
    (fun p => (w.tree.read w.cwd p).toOption) files
  exact ⟨files, _, hfound, haccounts, hfound.sorted.sublist haccounts.ordered⟩

/-- Two tools that propose a patch under one id, an empty file, a file too many for its tool, and
one too many for all. -/
def shelf : World where
  tree :=
    [ (["p"], .dir), (["p", "a"], .dir), (["p", "a", "b:1"], .file shelfDiff false),
      (["p", "a", "c"], .file [] false),
      (["p", "a", "d"], .file [] false),
      (["p", "a:b"], .dir),
      (["p", "a:b", "1"], .file shelfDiff false),
      (["p", "z"], .file [] false) ]
  cwd := []
where
  shelfDiff : Bytes := Utf8.encode "--- f.c\n+++ f.c\n@@ -3,1 +3,1 @@\n+x = 1;\n"

def shelfFiles : List Path := ["/p/a/b:1", "/p/a/c", "/p/a/d", "/p/a:b/1", "/p/z"]

theorem load_accounts_shelf :
    let opts : Options := { limit := some 4, perDirLimit := some 2 }
    shelf.tree.Proper ∧ ∃ r, ((load "/p" opts).run .bare shelf).1 = .ok r ∧
      r.patches.length = 1 ∧ r.empty = ["a:c"] ∧ r.unhandled = ["a:b:1"] ∧
      r.initial = 4 ∧ r.overLimit = 2 ∧
      ∃ files taken, Found shelf.tree shelf.cwd "/p" files ∧
        Accounts opts (baseOf shelf.tree shelf.cwd "/p")
          (fun p => (shelf.tree.read shelf.cwd p).toOption) files taken r ∧
        (r.patches.map Patch.path).Pairwise fun p q => (Path.compare p q).isLE = true := by
  intro opts
  have hproper : shelf.tree.Proper := by decide +kernel
  have hcollect : (collect FileTree.maxPathLength "/p").run .bare shelf =
      (.ok shelfFiles, shelf) := by
    rfl
  have hsort : sort Path.compare shelfFiles = shelfFiles :=
    mergeSort_of_pairwise (by decide +kernel)
  have hload : ((load "/p" opts).run .bare shelf).1 = .ok _ :=
    congrArg Prod.fst (run_load_of_isDir (by decide +kernel) hcollect)
  rw [hsort] at hload
  refine ⟨hproper, _, hload, ?_, ?_, ?_, ?_, ?_, load_accounts hproper hload⟩
  all_goals decide +kernel

end Load

end PatchTriage.Population
