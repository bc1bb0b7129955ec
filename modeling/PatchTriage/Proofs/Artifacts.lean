import PatchTriage.Proofs.CachedRuns
import PatchTriage.Proofs.LoadedPatches
import PatchTriage.Proofs.QuietWork

/-!
# Files of one patch

A run keeps files for every patch: a debugger script with the command that runs the program under
it, dumps, a log of failures, an edited binary, and coverage. They are named by the id of the patch,
made safe. So the files of two patches are at different places exactly if their ids made safe are
different (`Population.artifacts_apart_iff`); then work on the one changes nothing of the other
(`Op.WritesAt`).
-/

namespace PatchTriage

open PatchTriage.Path List Job Layout

open FileTree

/-! ## Names of files -/

namespace Text

theorem pathSafe_eq_dots {t : Text} (h : ∀ c ∈ pathSafe t, c = '.') : pathSafe t = t := by
  refine pathSafe_eq_self fun c hc => ?_
  by_contra hunsafe
  have hscore : '_' ∈ pathSafe t := mem_map.2 ⟨c, hc, if_neg hunsafe⟩
  exact absurd (h _ hscore) (by decide)

theorem isComponent_pathSafe {t : Text} (hne : t ≠ []) (hhere : t ≠ ['.']) (hup : t ≠ ['.', '.']) :
    IsComponent (pathSafe t) := by
  refine ⟨by simpa [pathSafe] using hne, slash_not_mem_pathSafe t, fun h => hhere ?_,
    fun h => hup ?_⟩
  · exact (pathSafe_eq_dots (by simp [h])).symm.trans h
  · exact (pathSafe_eq_dots (by simp [h])).symm.trans h

end Text

namespace FileTree

variable {t : FileTree} {cwd : Place} {p : Path} {last : Bool} {n : Nat}

theorem Leads.dir_of_dots (ht : t.Housed) {k r : Place} {ps : List Text}
    (h : Leads t (fun _ => true) last n k ps r) {piece : Text} (hlast : ps.getLast? = some piece)
    (hdots : piece = ['.'] ∨ piece = ['.', '.']) : t.node? r = some .dir := by
  have hnot {x : Text} (hx : IsName x) : x ≠ piece := by
    rintro rfl
    exact hdots.elim hx.ne_here hx.ne_up
  induction h with
  | nil => cases hlast
  | @here _ k r rest hk hrest ih =>
    cases rest with
    | nil => cases hrest; exact hk.1
    | cons a rest => exact ih (by simpa using hlast)
  | @up _ k r rest hk hrest ih =>
    cases rest with
    | nil =>
      cases hrest
      by_cases hroot : k = []
      · rw [hroot]
        exact node?_root t
      · have hdir := hk.1
        rw [← dropLast_append_getLast hroot] at hdir
        exact ht _ _ _ hdir
    | cons a rest => exact ih (by simpa using hlast)
  | @name _ k r x rest _ hx _ _ ih =>
    cases rest with
    | nil => exact absurd (by simpa using hlast) (hnot hx)
    | cons a rest => exact ih (by simpa using hlast)
  | link _ hx _ _ => exact absurd (by simpa using hlast) (hnot hx)
  | @follow _ k r x target rest _ hx _ _ _ ih =>
    cases rest with
    | nil => exact absurd (by simpa using hlast) (hnot hx)
    | cons a rest =>
      refine ih ?_
      rw [getLast?_append]
      simp only [getLast?_cons_cons] at hlast
      rw [hlast]
      rfl

theorem pieces_ne_nil_of_relative (hp : p ≠ []) (hrel : isAbsolute p = false) : pieces p ≠ [] := by
  obtain ⟨c, rest, rfl⟩ := exists_cons_of_ne_nil hp
  have hc : c ≠ '/' := by
    rintro rfl
    cases hrel
  obtain ⟨piece, more, -, hsplit⟩ := Text.splitOn_cons_of_ne hc rest
  rw [pieces, hsplit]
  simp

/-- **A file has a name.** -/
theorem exists_fileName? (ht : t.Housed) (h : t.isFile cwd p = true) :
    ∃ x, fileName? p = some x ∧ IsComponent x := by
  obtain ⟨hu, -, k, node, hl, hk, hfile⟩ := isFile_iff.1 h
  have hdir : t.node? k ≠ some .dir := by
    rw [hk]
    rintro ⟨⟩
    exact hfile
  cases hlast : (pieces p).getLast? with
  | none =>
    rw [getLast?_eq_none_iff] at hlast
    cases habs : isAbsolute p with
    | true =>
      rw [hlast, startOf_of_isAbsolute habs] at hl
      cases hl
      exact absurd (node?_root t) hdir
    | false => exact absurd hlast (pieces_ne_nil_of_relative hu.nonempty habs)
  | some x =>
    have hhere : x ≠ ['.'] := fun h => hdir (hl.dir_of_dots ht hlast (.inl h))
    have hup : x ≠ ['.', '.'] := fun h => hdir (hl.dir_of_dots ht hlast (.inr h))
    obtain ⟨hsplit, hne⟩ := mem_filter.1 (mem_of_getLast? hlast)
    exact ⟨x, fileName?_of_getLast? hlast hhere hup,
      ⟨by simpa using hne, Text.not_mem_of_mem_splitOn hsplit, hhere, hup⟩⟩

end FileTree

namespace Population

variable {host : Host} {w : World} {location : Path} {opts : Options} {r : Population} {p : Patch}

theorem isComponent_idOf {base path : Path} {n : Text} (hname : fileName? path = some n)
    (hn : IsComponent n) : IsComponent (Text.pathSafe (idOf base path)) := by
  cases htool : tool? base path with
  | none =>
    have hid : idOf base path = n := by simp [idOf, patchId, htool, hname]
    rw [hid]
    exact Text.isComponent_pathSafe hn.nonempty hn.ne_here hn.ne_up
  | some tool =>
    have hid : idOf base path = tool ++ ':' :: n := by simp [idOf, patchId, htool, hname]
    have hcolon : ':' ∈ idOf base path := by simp [hid]
    have hne {t : Text} (ht : ':' ∉ t) : idOf base path ≠ t := fun h => ht (h ▸ hcolon)
    exact Text.isComponent_pathSafe (hne (by decide)) (hne (by decide)) (hne (by decide))

/-- **The id of a patch that was loaded, made safe, names a file.** -/
theorem isComponent_id (ht : w.tree.Proper) (h : ((load location opts).run host w).1 = .ok r)
    (hp : p ∈ r.patches) : IsComponent (Text.pathSafe p.id) := by
  obtain ⟨files, hfound, rfl⟩ := eq_ofFiles_of_run_load ht h
  have haccounts := accounts_ofFiles opts (baseOf w.tree w.cwd location)
    (fun p => (w.tree.read w.cwd p).toOption) files
  have hpath : p.path ∈ files := haccounts.ordered.subset (mem_map_of_mem hp)
  obtain ⟨n, hname, hn⟩ := exists_fileName? ht.housed ((hfound.mem_iff p.path).1 hpath).1
  obtain ⟨l, rfl, -, hpatches, -⟩ := haccounts.lists
  rw [hpatches] at hp
  rw [id_of_mem_fates hp]
  exact isComponent_idOf hname hn

end Population

/-! ## Places of artifacts -/

inductive Artifact where
  | script | frontend | snapshots | errorLog | edited | coverage
  deriving DecidableEq

namespace Artifact

def path (s : Setup) (test id : Text) : Artifact → Path
  | script => Layout.script s.layout.scripts (Text.pathSafe id)
  | frontend => Layout.frontend s.layout.scripts (Text.pathSafe id)
  | snapshots => s.layout.patchSnapshots id
  | errorLog => s.layout.errorLog id
  | edited => join s.layout.edited (Text.pathSafe id)
  | coverage => Evidence.coveragePath s id test

/-- Where the directory of the scripts is below the output directory. The name of a tag leads on
from `scripts` as that of a test does from its partition. -/
def scriptsPlace (l : Layout) : Place :=
  match l.tag with
  | none => ["scripts"]
  | some tag => Verdicts.pairPlace "scripts" tag

/-- Where the directory of an artifact is below the output directory. -/
def dir (l : Layout) : Artifact → Place
  | script | frontend => scriptsPlace l
  | snapshots => ["snapshots"]
  | errorLog => ["errors"]
  | edited => ["rewritten"]
  | coverage => ["coverage"]

def name (test safe : Text) : Artifact → Text
  | script => safe ++ ".gdb"
  | frontend => safe ++ ".frontend.sh"
  | snapshots | edited => safe
  | errorLog => 'p' :: safe ++ ".err"
  | coverage => safe ++ "-t" ++ Text.pathSafe test ++ ".coverage"

def place (l : Layout) (test id : Text) (a : Artifact) : Place :=
  a.dir l ++ [a.name test (Text.pathSafe id)]

variable {s : Setup} {l : Layout} {R : Place} {test id id' safe safe' : Text} {a b : Artifact}

theorem name_injective (h : a.name test safe = a.name test safe') : safe = safe' := by
  cases a with
  | script | frontend => exact append_cancel_right h
  | snapshots | edited => exact h
  | errorLog => exact append_cancel_right (cons.inj h).2
  | coverage => exact append_cancel_right (append_cancel_right (append_cancel_right h))

theorem name_script_ne_name_frontend : script.name test safe ≠ frontend.name test safe' := by
  intro h
  have hlast := congrArg getLast? h
  simp [name] at hlast

theorem scriptsPlace_eq (l : Layout) :
    scriptsPlace l = [] ∨ ∃ rest, scriptsPlace l = "scripts".toList :: rest := by
  rw [scriptsPlace]
  split
  · exact .inr ⟨[], rfl⟩
  · rw [Verdicts.pairPlace]
    split_ifs
    · exact .inr ⟨[], rfl⟩
    · exact .inl rfl
    · exact .inr ⟨_, rfl⟩

theorem scriptsPlace_ne {d : Text} (hd : d ≠ "scripts") (rest : Place) :
    scriptsPlace l ≠ d :: rest := by
  rcases scriptsPlace_eq l with h | ⟨rest', h⟩
  · rw [h]
    exact (cons_ne_nil _ _).symm
  · rw [h]
    exact fun heq => hd (cons.inj heq).1.symm

/-- In one directory are artifacts of one kind, or scripts with the commands that run them. -/
theorem eq_or_of_dir_eq (h : a.dir l = b.dir l) :
    a = b ∨ (a = script ∧ b = frontend) ∨ (a = frontend ∧ b = script) := by
  have hscripts {d : Text} (hd : d ≠ "scripts") : scriptsPlace l ≠ [d] := scriptsPlace_ne hd []
  cases a <;> cases b <;> simp_all [dir]
  all_goals exact absurd h.symm (hscripts (by decide))

/-- **The place of an artifact tells its kind and the id made safe.** -/
theorem eq_of_place_eq (h : a.place l test id = b.place l test id') :
    a = b ∧ Text.pathSafe id = Text.pathSafe id' := by
  obtain ⟨hdir, hname⟩ := append_inj' h rfl
  have hname' := (cons.inj hname).1
  rcases eq_or_of_dir_eq hdir with rfl | ⟨rfl, rfl⟩ | ⟨rfl, rfl⟩
  · exact ⟨rfl, name_injective hname'⟩
  · exact absurd hname' name_script_ne_name_frontend
  · exact absurd hname'.symm name_script_ne_name_frontend

/-- The directories that are made for scripts and logs are no artifacts. -/
theorem place_ne_of_dir {x : Place} (hx : x = [] ∨ x = ["scripts"] ∨ x = ["errors"] ∨
    x = scriptsPlace l) :
    a.place l test id ≠ x := by
  have hshort {n d : Text} (hdot : '.' ∈ n) (hd : '.' ∉ d) : scriptsPlace l ++ [n] ≠ [d] := by
    intro h
    have hn := (append_inj' (show scriptsPlace l ++ [n] = [] ++ [d] from h) rfl).2
    exact hd ((cons.inj hn).1 ▸ hdot)
  have hscripts {n : Text} (hdot : '.' ∈ n) : scriptsPlace l ++ [n] ≠ x := by
    rcases hx with rfl | rfl | rfl | rfl
    · simp
    · exact hshort hdot (by decide)
    · exact hshort hdot (by decide)
    · simp
  have hother {d n : Text} (hd : d ≠ "scripts") : [d, n] ≠ x := by
    rcases hx with rfl | rfl | rfl | rfl
    · simp
    · simp
    · simp
    · exact (scriptsPlace_ne hd [n]).symm
  cases a with
  | script | frontend => exact hscripts (by simp [name])
  | snapshots | errorLog | edited | coverage => exact hother (by decide)

theorem stands_scripts (hl : l.At R) : Stands R l.scripts (scriptsPlace l) := by
  have hdir : Stands R (join l.root "scripts") ["scripts"] :=
    hl.stands_dir (by constructor <;> decide)
  rw [scripts, scriptsPlace]
  split
  · rename_i tag htag
    rw [htag]
    exact hdir.join (isAbsolute_of_not_mem (Text.slash_not_mem_pathSafe tag))
      (Verdicts.resolve_pathSafe [] "scripts" tag)
  · rename_i htag
    rw [htag]
    exact hdir

theorem isComponent_name (hsafe : IsComponent safe) (test : Text) (a : Artifact) :
    IsComponent (a.name test safe) := by
  cases a with
  | snapshots | edited => exact hsafe
  | script =>
    refine (isComponent_of_dot (c := 'g') ?_ ?_ ?_ (by decide)).1 <;> simp [name, hsafe.noSlash]
  | frontend =>
    refine (isComponent_of_dot (c := 'f') ?_ ?_ ?_ (by decide)).1 <;> simp [name, hsafe.noSlash]
  | errorLog =>
    refine (isComponent_of_dot (c := 'p') ?_ ?_ ?_ (by decide)).1 <;> simp [name, hsafe.noSlash]
  | coverage =>
    refine (isComponent_of_dot (c := 'c') ?_ ?_ ?_ (by decide)).1 <;>
      simp [name, hsafe.noSlash, Text.slash_not_mem_pathSafe]

/-- **Where the artifacts are.** -/
theorem stands_path (hl : s.layout.At R) (hid : IsComponent (Text.pathSafe id)) (a : Artifact) :
    Stands R (a.path s test id) (a.place s.layout test id) := by
  have hdir {d : Text} (hd : IsComponent d) := hl.stands_dir hd
  have hname := isComponent_name hid test a
  cases a with
  | script | frontend => exact (stands_scripts hl).join_name hname
  | snapshots | errorLog | edited | coverage =>
    exact (hdir (by constructor <;> decide)).join_name hname

end Artifact

/-! ## Work for another patch -/

namespace Artifact

variable {s : Setup} {R : Place} {p q : Patch} {test : Text}

def IsFolder (l : Layout) (x : Place) : Prop :=
  x = [] ∨ x = ["scripts"] ∨ x = ["errors"] ∨ x = scriptsPlace l

theorem isFolder_of_prefix {l : Layout} {d : Text} {more : List Text} {x : Place}
    (hd : IsComponent d)
    (hfolder : IsFolder l [d]) (hmore : more.length ≤ 1) (hx : resolve [] (d :: more) = some x)
    (hend : IsFolder l x) {ps : List Text} {y : Place} (hps : ps <+: d :: more)
    (hy : resolve [] ps = some y) : IsFolder l y := by
  rcases prefix_cons_iff.1 hps with rfl | ⟨ps, rfl, hrest⟩
  · cases hy
    exact .inl rfl
  · by_cases hnil : ps = []
    · rw [hnil, resolve_name hd] at hy
      cases hy
      exact hfolder
    · have hpos := length_pos_of_ne_nil hnil
      have hle := hrest.length_le
      obtain rfl := hrest.eq_of_length (by omega)
      exact Option.some.inj (hy.symm.trans hx) ▸ hend

variable {S : Place → Prop}

theorem pieces_dir {l : Layout} {d : Text} (hl : l.At R) (hd : IsComponent d) :
    pieces (join l.root d) = R ++ [d] := by
  rw [hl.root, pieces_join hd.isAbsolute, pieces_pathOf hl.names, hd.pieces]

theorem writesAt_scripts (hl : s.layout.At R) :
    Op.WritesAt R S (IsFolder s.layout) (.createDirs s.layout.scripts) := by
  have hd : IsComponent "scripts" := by constructor <;> decide
  have hpieces : ∃ more : List Text, more.length ≤ 1 ∧
      pieces s.layout.scripts = R ++ "scripts".toList :: more := by
    rw [scripts]
    split
    · rename_i tag _
      refine ⟨pieces (Text.pathSafe tag), ?_, ?_⟩
      · rw [Text.pieces_pathSafe]
        split_ifs <;> simp
      · rw [pieces_join (isAbsolute_of_not_mem (Text.slash_not_mem_pathSafe tag)), pieces_dir hl hd,
          append_assoc]
        rfl
    · exact ⟨[], Nat.zero_le 1, pieces_dir hl hd⟩
  obtain ⟨habs, ps, hps, hx⟩ := stands_scripts hl
  obtain ⟨more, hmore, hpieces⟩ := hpieces
  obtain rfl := append_cancel_left (hps.symm.trans hpieces)
  exact ⟨habs, _, _, hps, hx, fun ps' y hpre hy =>
    isFolder_of_prefix hd (.inr (.inl rfl)) hmore hx (.inr (.inr (.inr rfl))) hpre hy⟩

theorem writesAt_errors (hl : s.layout.At R) :
    Op.WritesAt R S (IsFolder s.layout) (.createDirs s.layout.errors) := by
  have hd : IsComponent "errors" := by constructor <;> decide
  have hx : resolve [] ["errors"] = some (["errors"] : Place) := resolve_name hd [] []
  have hfolder : IsFolder s.layout ["errors"] := .inr (.inr (.inl rfl))
  have hmore : ([] : List Text).length ≤ 1 := Nat.zero_le 1
  obtain ⟨habs, -⟩ := hl.stands_dir hd
  exact ⟨habs, _, _, pieces_dir hl hd, hx, fun ps' y hpre hy =>
    isFolder_of_prefix hd hfolder hmore hx hfolder hpre hy⟩

/-- Making a patch ready writes its script, and the command that runs it. -/
theorem uses_stage (hl : s.layout.At R) (hq : IsComponent (Text.pathSafe q.id)) :
    Uses (Op.WritesAt R (fun x => ∃ a : Artifact, x = a.place s.layout test q.id)
      (IsFolder s.layout)) (UnderDebugger.stage s q) := by
  have hwrite (a : Artifact) : ∃ x, Stands R (a.path s test q.id) x ∧
      ∃ a : Artifact, x = a.place s.layout test q.id := ⟨_, stands_path hl hq a, a, rfl⟩
  refine .ite (uses_fail_bind _ _) <| .ite (uses_pure _) <| .bind ?_ fun _ => uses_pure _
  refine (uses_ensureDir (writesAt_scripts hl)).bind fun _ =>
    (uses_writeText (hwrite script)).bind fun _ => ?_
  cases s.config.binary with
  | none => exact uses_pure _
  | some binary =>
    refine Uses.bind ?_ fun _ => uses_pure _
    exact (uses_writeText (hwrite frontend)).bind fun _ =>
      .explain _ ((uses_op.2 (hwrite frontend)).bind uses_reply)

theorem uses_record (hl : s.layout.At R) (hq : IsComponent (Text.pathSafe q.id)) (context : Text)
    (o : Output) :
    Uses (Op.WritesAt R (fun x => ∃ a : Artifact, x = a.place s.layout test q.id)
      (IsFolder s.layout)) (FailureLog.record s.layout q.id context o) := by
  refine FailureLog.uses_record (fun p hp => ?_) fun bytes =>
    ⟨_, stands_path hl hq errorLog, errorLog, rfl⟩
  rw [hl.parent?_errorLog] at hp
  cases hp
  exact writesAt_errors hl

/-- Work for a patch leaves the artifacts of another one as they were. -/
theorem same_of_uses {host : Host} {w : World} {α : Type} {work : Job α}
    (hne : Text.pathSafe p.id ≠ Text.pathSafe q.id)
    (hwork : Uses (Op.WritesAt R (fun x => ∃ b : Artifact, x = b.place s.layout test q.id)
      (IsFolder s.layout)) work) (hw : Rooted R w.tree) (a : Artifact) :
    (work.run host w).2.tree.node? (R ++ a.place s.layout test p.id) =
      w.tree.node? (R ++ a.place s.layout test p.id) := by
  refine (hwork.apart hw).same _ ?_ fun hfolder => place_ne_of_dir hfolder rfl
  rintro ⟨b, hb⟩
  exact hne (eq_of_place_eq hb).2

end Artifact

namespace Population

variable {host : Host} {w : World} {location : Path} {opts : Options} {r : Population} {p q : Patch}
  {s : Setup} {R : Place}

/-- **The artifacts of two patches are apart exactly if their ids made safe are different.**  Then
making the one ready, or logging its failures, changes no artifact of the other. -/
theorem artifacts_apart_iff (hl : s.layout.At R) (ht : w.tree.Proper)
    (h : ((load location opts).run host w).1 = .ok r) (hp : p ∈ r.patches) (hq : q ∈ r.patches)
    (test : Text) :
    (∀ a : Artifact, Stands R (a.path s test p.id) (a.place s.layout test p.id) ∧
      Stands R (a.path s test q.id) (a.place s.layout test q.id)) ∧
    (Text.pathSafe p.id ≠ Text.pathSafe q.id ↔
      ∀ a b : Artifact, a.place s.layout test p.id ≠ b.place s.layout test q.id) ∧
    (Text.pathSafe p.id ≠ Text.pathSafe q.id →
      ∀ (host' : Host) (w' : World), Rooted R w'.tree → ∀ a : Artifact,
        ((UnderDebugger.stage s q).run host' w').2.tree.node? (R ++ a.place s.layout test p.id) =
          w'.tree.node? (R ++ a.place s.layout test p.id) ∧
        ∀ context o, ((FailureLog.record s.layout q.id context o).run host' w').2.tree.node?
            (R ++ a.place s.layout test p.id) =
              w'.tree.node? (R ++ a.place s.layout test p.id)) := by
  have hpid := isComponent_id ht h hp
  have hqid := isComponent_id ht h hq
  refine ⟨fun a => ⟨a.stands_path hl hpid, a.stands_path hl hqid⟩, ⟨fun hne a b hab => ?_, ?_⟩, ?_⟩
  · exact hne (Artifact.eq_of_place_eq hab).2
  · intro hapart heq
    refine hapart .script .script ?_
    rw [Artifact.place, Artifact.place, heq]
  · intro hne host' w' hw' a
    exact ⟨a.same_of_uses hne (Artifact.uses_stage hl hqid) hw',
      fun context o => a.same_of_uses hne (Artifact.uses_record hl hqid context o) hw'⟩

/-- Three patches, two of which have names that are made safe in the same way. -/
def rack : World where
  tree :=
    [ (["out"], .dir), (["p"], .dir), (["p", "a b"], .file rackDiff false),
      (["p", "a_b"], .file rackDiff false),
      (["p", "c"], .file rackDiff false) ]
  cwd := []
where
  rackDiff : Bytes := Utf8.encode "--- f.c\n+++ f.c\n@@ -3,1 +3,1 @@\n+x = 1;\n"

def rackFiles : List Path := ["/p/a b", "/p/a_b", "/p/c"]

def rackReport : Population :=
  ofFiles {} "/p" (rackFiles.map fun p => (p, (rack.tree.read rack.cwd p).toOption))

def rackPatch (name : Text) : Patch where
  id := name
  path := "/p/" ++ name
  sourceFile := "f.c"
  fragments := [(⟨"f.c", 3⟩, { inserted := ["x = 1"] })]

theorem load_rack : ((load "/p" {}).run .bare rack).1 = .ok rackReport := by
  have hcollect : (collect FileTree.maxPathLength "/p").run .bare rack = (.ok rackFiles, rack) := by
    rfl
  have hsort : SortedList.sort compare rackFiles = rackFiles :=
    mergeSort_of_pairwise (by decide +kernel)
  have hload : (load "/p" {}).run .bare rack = _ := run_load_of_isDir (by decide +kernel) hcollect
  rw [hsort] at hload
  exact congrArg Prod.fst hload

theorem patches_rackReport :
    rackReport.patches = [rackPatch "a b", rackPatch "a_b", rackPatch "c"] := by
  decide +kernel

def rackSetup : Setup := .ofConfig { outputDir := "/out" }

def rackOut : Place := ["out"]

theorem artifacts_apart_rack :
    ((load "/p" {}).run .bare rack).1 = .ok rackReport ∧
    rackPatch "c" ∈ rackReport.patches ∧ rackPatch "a_b" ∈ rackReport.patches ∧
    (∀ a b : Artifact,
      a.place rackSetup.layout "1" (rackPatch "c").id ≠
        b.place rackSetup.layout "1" (rackPatch "a_b").id) ∧
    ∀ a : Artifact, ((UnderDebugger.stage rackSetup (rackPatch "a_b")).run .bare rack).2.tree.node?
        (rackOut ++ a.place rackSetup.layout "1" (rackPatch "c").id) =
      rack.tree.node? (rackOut ++ a.place rackSetup.layout "1" (rackPatch "c").id) := by
  have hl : rackSetup.layout.At rackOut := ⟨by decide +kernel, by decide +kernel⟩
  have hrooted : Rooted rackOut rack.tree :=
    rooted_of_entries (by decide +kernel) (by decide +kernel) (by decide +kernel)
  have hp : rackPatch "c" ∈ rackReport.patches := by simp [patches_rackReport]
  have hq : rackPatch "a_b" ∈ rackReport.patches := by simp [patches_rackReport]
  have hne : Text.pathSafe (rackPatch "c").id ≠ Text.pathSafe (rackPatch "a_b").id := by
    decide +kernel
  obtain ⟨-, hapart, hwork⟩ := artifacts_apart_iff hl (by decide +kernel) load_rack hp hq "1"
  exact ⟨load_rack, hp, hq, hapart.1 hne, fun a => (hwork hne .bare rack hrooted a).1⟩

/-- Two patches with different ids that have all their artifacts in common. -/
theorem ids_share_artifacts :
    ((load "/p" {}).run .bare rack).1 = .ok rackReport ∧
    rackPatch "a b" ∈ rackReport.patches ∧ rackPatch "a_b" ∈ rackReport.patches ∧
    (rackPatch "a b").id ≠ (rackPatch "a_b").id ∧
    ∀ a : Artifact, a.path rackSetup "1" (rackPatch "a b").id =
      a.path rackSetup "1" (rackPatch "a_b").id := by
  refine ⟨load_rack, by simp [patches_rackReport], by simp [patches_rackReport], by decide, ?_⟩
  have hsafe : Text.pathSafe (rackPatch "a b").id = Text.pathSafe (rackPatch "a_b").id := by
    decide +kernel
  intro a
  cases a <;> simp only [Artifact.path, patchSnapshots, errorLog, Evidence.coveragePath, hsafe]

end Population

end PatchTriage
