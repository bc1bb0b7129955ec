import PatchTriage.Proofs.Artifacts
import PatchTriage.Proofs.RunRecords

/-!
# Exported patches

At its end a run copies the file of every patch into the directory of its class, under the names of
the tool and the file, joined by a dash. So the patches `a/b` and `a-b` both become `a-b`.
-/

namespace PatchTriage

open List Job PatchTriage.Path FileTree

theorem Patch.isComponent_exportName {p : Patch} {n : Text} (hname : fileName? p.path = some n)
    (hn : IsComponent n) : IsComponent p.exportName := by
  have hfile : p.fileName = n := by rw [Patch.fileName, hname, Option.getD_some]
  rw [Patch.exportName, hfile]
  cases p.tool with
  | none => exact hn
  | some tool =>
    show IsComponent (Text.replace ['/'] ['-'] tool ++ '-' :: n)
    rw [Text.replace_char]
    have hne {t : Text} (ht : '-' ∉ t) :
        (tool.map fun c => if c = '/' then '-' else c) ++ '-' :: n ≠ t :=
      fun h => ht (h ▸ by simp)
    refine ⟨hne (by decide), ?_, hne (by decide), hne (by decide)⟩
    simp only [mem_append, mem_map, mem_cons, hn.noSlash]
    grind

/-! ## Copies in a tree -/

namespace FileTree

variable {R q k cwd : Place} {t t' : FileTree} {p p' : Path} {n : Node} {bytes : Bytes} {x : Bool}

def Node.isData : Node → Bool
  | .file _ _ => true
  | _ => false

theorem KeepsWays.refl (t : FileTree) : KeepsWays t t := ⟨fun _ h => h, fun _ _ => Iff.rfl⟩

theorem KeepsWays.trans {t'' : FileTree} (h : KeepsWays t t') (h' : KeepsWays t' t'') :
    KeepsWays t t'' :=
  ⟨fun k hk => h'.dirs k (h.dirs k hk), fun k target =>
    (h'.links k target).trans (h.links k target)⟩

theorem KeepsWays.put_file (hk : k ≠ []) (hold : (t.node? k).all Node.isData = true) :
    KeepsWays t (t.put k (.file bytes x)) := by
  constructor
  · intro k' hdir
    rw [node?_put_of_ne, hdir]
    rintro rfl
    rw [hdir] at hold
    cases hold
  · intro k' target
    rw [node?_put hk]
    split
    · subst k'
      refine ⟨nofun, fun hlink => ?_⟩
      rw [hlink] at hold
      cases hold
    · rfl

theorem KeepsWays.stat (h : KeepsWays t t') (hs : t.stat cwd p = .ok (k, n))
    (hk : t'.node? k = some n) :
    t'.stat cwd p = .ok (k, n) := by
  obtain ⟨e, he, hen⟩ := stat_eq_ok_iff.1 hs
  obtain ⟨hu, k', hl, rfl⟩ := locateBy_eq_ok_iff.1 he
  obtain ⟨hplace, -, hclosed⟩ := Entry.node_eq_ok_iff.1 hen
  obtain rfl : k = k' := hplace
  exact stat_eq_ok_iff.2 ⟨.of p k, locateBy_eq_ok_iff.2 ⟨hu, k, h.leads hl, rfl⟩,
    Entry.node_eq_ok_iff.2 ⟨rfl, hk, hclosed⟩⟩

theorem stat_of_mem {e : Place × Node} (h : e ∈ (t.stat cwd p).toOption) :
    t.stat cwd p = .ok e := by
  cases hs : t.stat cwd p with
  | error e => rw [hs] at h; cases h
  | ok e => rw [hs] at h; exact congrArg _ (Option.some.inj h)

theorem node?_of_stat (hs : t.stat cwd p = .ok (k, n)) : t.node? k = some n := by
  obtain ⟨e, -, hen⟩ := stat_eq_ok_iff.1 hs
  obtain ⟨rfl, hnode, -⟩ := Entry.node_eq_ok_iff.1 hen
  exact hnode

theorem read_eq_of_stat {k' cwd' : Place} (hs : t.stat cwd p = .ok (k, n))
    (hs' : t'.stat cwd' p' = .ok (k', n)) : t.read cwd p = t'.read cwd' p' := by
  rw [read, read, hs, hs']
  cases n <;> rfl

/-- **A copy in a directory.** -/
theorem Stands.copy (hp : Stands R p' q) (ht : Rooted R t)
    (hs : t.stat cwd p = .ok (k, .file bytes x))
    (hk : k ≠ R ++ q) (hold : (t.node? (R ++ q)).all Node.isData = true) (h :
      t.copy cwd p p' = .ok t') :
    KeepsWays t t' ∧ Touches t t' (R ++ q) ∧ t'.stat cwd p' = .ok (R ++ q, .file bytes x) := by
  have hdir : t.node? (R ++ q) ≠ some .dir := fun hdir => by rw [hdir] at hold; cases hold
  have hroot : R ++ q ≠ [] := fun hnil => hdir (hnil ▸ node?_root t)
  rw [FileTree.copy, hs] at h
  cases hl : t.locateFile cwd p' with
  | error e => simp [bind, Except.bind, hl] at h
  | ok k' =>
    obtain ⟨hu, hopen, hleads⟩ := locateFile_eq_ok hl
    obtain rfl := hp.leads ht hleads
    have hput : t' = t.put (R ++ q) (.file bytes x) := by
      simp only [bind, Except.bind, hl, if_neg hk] at h
      cases hnode : t.node? (R ++ q) with
      | none => rw [hnode] at h; exact (Except.ok.inj h).symm
      | some n =>
        rw [hnode] at h hold
        cases n with
        | file b x' => exact (Except.ok.inj h).symm
        | dir | link | tool | device => cases hold
    subst hput
    have hways : KeepsWays t (t.put (R ++ q) (.file bytes x)) := .put_file hroot hold
    refine ⟨hways, .put hdir nofun, stat_eq_ok_iff.2 ⟨.of p' (R ++ q),
      locateBy_eq_ok_iff.2 ⟨hu, _, hways.leads hleads, rfl⟩, Entry.node_eq_ok_iff.2 ⟨rfl, ?_, ?_⟩⟩⟩
    · exact node?_put_self hroot ..
    · exact fun hclosed => absurd (hopen.symm.trans hclosed) Bool.false_ne_true

end FileTree

/-- **From steps to loops.** `I l` holds of the world before `l` is gone through. -/
theorem Job.run_forIn {α : Type} {host : Host} {f : α → Job PUnit} {l : List α}
    {w w' : World} {u : PUnit}
    {I : List α → World → Prop}
    (hstep : ∀ a ∈ l, ∀ l w w', I (a :: l) w → (f a).run host w = (.ok ⟨⟩, w') →
      I l w') (hw : I l w)
    (h : (forIn l PUnit.unit fun a _ => do f a; pure (ForInStep.yield PUnit.unit)).run host w =
      (.ok u, w')) : I [] w' := by
  induction l generalizing w with
  | nil => cases h; exact hw
  | cons a l ih =>
    obtain ⟨ha, hl⟩ := forall_mem_cons.1 hstep
    rw [forIn_cons, bind_assoc, run_bind_eq_ok_iff] at h
    obtain ⟨⟨⟩, w₁, hfirst, hrest⟩ := h
    exact ih hl (ha l w w₁ hw hfirst) hrest

namespace Report

open Run

variable {l : Layout} {R : Place} {records : List Record} {host : Host} {w w' w₁ w₂ : World}
    {r r' : Record}

def exportPath (l : Layout) (r : Record) : Path := join (l.classDir r.cls.dirName) r.exportName

/-- Where the copy of a patch is below the output directory. -/
def exportPlace (r : Record) : Place := [r.cls.dirName, r.exportName]

theorem exportPath_congr (h : exportPlace r = exportPlace r') :
    exportPath l r = exportPath l r' := by
  obtain ⟨hdir, hname⟩ : r.cls.dirName = r'.cls.dirName ∧ r.exportName = r'.exportName := by
    simpa [exportPlace] using h
  rw [exportPath, exportPath, hdir, hname]

/-- The copy of a patch has the contents of its file. -/
abbrev Kept (l : Layout) (w w' : World) (r : Record) : Prop :=
  w'.tree.read w'.cwd (exportPath l r) = w.tree.read w.cwd r.path

/-- The patch of a record is a file, and not one that a copy replaces. -/
def Source (R : Place) (records : List Record) (w : World) (r : Record) : Prop :=
  ∃ e ∈ (w.tree.stat w.cwd r.path).toOption, Node.isData e.2 = true ∧
    ∀ r' ∈ records, e.1 ≠ R ++ exportPlace r'

/-- The world `w'` while patches are exported that are as in `w`, with the records still to come. -/
structure Exporting (l : Layout) (R : Place) (records : List Record) (w : World)
    (rest : List Record)
    (w' : World) : Prop where
  cwd : w'.cwd = w.cwd
  rooted : Rooted R w'.tree
  ways : KeepsWays w.tree w'.tree
  kept : ∀ k n, (∀ r ∈ records, k ≠ R ++ exportPlace r) → w.tree.node? k = some n →
    w'.tree.node? k = some n
  data : ∀ r ∈ records, (w'.tree.node? (R ++ exportPlace r)).all Node.isData = true
  copied : ∀ r ∈ records, r ∈ rest ∨ ∃ r' ∈ records, exportPlace r' = exportPlace r ∧
    ∃ k n, w.tree.stat w.cwd r'.path = .ok (k, n) ∧
      w'.tree.stat w.cwd (exportPath l r) = .ok (R ++ exportPlace r, n)

theorem isComponent_dirName (c : Class) : IsComponent c.dirName := by
  cases c <;> exact ⟨by decide, by decide, by decide, by decide⟩

theorem Source.isComponent {p : Patch} {result : PatchResult} (hhoused : w.tree.Housed)
    (h : Source R records w (recordOf p result)) : IsComponent p.exportName := by
  obtain ⟨⟨k, n⟩, hstat, hdata, -⟩ := h
  have hfile : w.tree.isFile w.cwd p.path = true := by
    have hs : w.tree.stat w.cwd p.path = .ok (k, n) := stat_of_mem hstat
    rw [FileTree.isFile, hs]
    cases n <;> first | rfl | cases hdata
  obtain ⟨n, hname, hn⟩ := exists_fileName? hhoused hfile
  exact p.isComponent_exportName hname hn

variable (hl : l.At R)

include hl

/-- **A directory is made for a class.** -/
theorem Exporting.ensureDir {c : Class} (h : Exporting l R records w records w₁)
    (hrun : (ensureDir (l.classDir c.dirName)).run host w₁ = (.ok (), w₂)) :
    Exporting l R records w records w₂ := by
  rw [Job.ensureDir, run_explain_eq_ok_iff, run_op_bind, run_reply_eq_ok_iff] at hrun
  obtain rfl := hrun.2
  have hc := isComponent_dirName c
  have hps : pieces (l.classDir c.dirName) = R ++ [c.dirName] := by
    rw [Layout.classDir, hl.root, pieces_join hc.isAbsolute, pieces_pathOf hl.names, hc.pieces]
  have hadds : AddsDirs _ w₁.tree (w₁.tree.createDirs w₁.cwd (l.classDir c.dirName)).2 :=
    addsDirs_createDirs h.rooted (hl.stands_dir hc).1 hps (resolve_name hc [] [])
  have hext : Extends w₁.tree (w₁.tree.createDirs w₁.cwd (l.classDir c.dirName)).2 :=
    extends_createDirs
  refine ⟨h.cwd, hadds.rooted h.rooted, h.ways.trans hext.keepsWays,
    fun k n hk hn => hext.keeps k n (h.kept k n hk hn), fun r hr => ?_, fun r hr => .inl hr⟩
  rcases hadds (R ++ exportPlace r) with hsame | ⟨-, -, ps, q, hpre, hq, heq⟩
  · exact hsame.symm ▸ h.data r hr
  · -- what is made is no deeper than the directory, and copies are in it
    have hdeep := length_resolve_le hq
    rw [← append_cancel_left heq] at hdeep
    have hshort := hpre.length_le
    simp [exportPlace] at hdeep hshort
    omega

/-- **The next patch is copied.** -/
theorem Exporting.copy {a : Record} {rest : List Record} (ha : a ∈ records)
    (hname : IsComponent a.exportName) (hsource : Source R records w a)
    (h : Exporting l R records w (a :: rest) w₁)
    (hrun : (explain (.copy a.path (exportPath l a))
      (do reply (← op (.copy a.path (exportPath l a))))).run host w₁ = (.ok (), w₂)) :
    Exporting l R records w rest w₂ := by
  rw [run_explain_eq_ok_iff, run_op_bind, run_reply_eq_ok_iff] at hrun
  obtain ⟨hok, rfl⟩ := hrun
  obtain ⟨⟨k, n⟩, hstat, hdata, hk⟩ := hsource
  have hs := stat_of_mem hstat
  have hs₁ := h.ways.stat hs (h.kept k n hk (node?_of_stat hs))
  obtain ⟨bytes, x, rfl⟩ : ∃ bytes x, n = .file bytes x := by
    cases n with
    | file bytes x => exact ⟨bytes, x, rfl⟩
    | dir | link | tool | device => cases hdata
  obtain ⟨t, hcopy, hw₂⟩ : ∃ t, w₁.tree.copy w₁.cwd a.path (exportPath l a) = .ok t ∧
      (Op.perform host w₁ (.copy a.path (exportPath l a))).2 = { w₁ with tree := t } := by
    rw [Op.perform] at hok ⊢
    cases hcopy : w₁.tree.copy w₁.cwd a.path (exportPath l a) with
    | error e => rw [hcopy] at hok; cases hok
    | ok t => exact ⟨t, rfl, rfl⟩
  rw [hw₂]
  rw [h.cwd] at hcopy
  obtain ⟨hways, htouches, hthere⟩ := ((hl.stands_dir (isComponent_dirName _)).join_name hname).copy
    h.rooted hs₁ (hk a ha) (h.data a ha) hcopy
  have helse {r : Record} (hne : exportPlace r ≠ exportPlace a) :
      t.node? (R ++ exportPlace r) = w₁.tree.node? (R ++ exportPlace r) :=
    htouches.elsewhere _ fun heq => hne (append_cancel_left heq)
  refine ⟨h.cwd, htouches.rooted h.rooted, h.ways.trans hways,
    fun k n hk hn => (htouches.elsewhere k (hk a ha)).trans (h.kept k n hk hn), fun r hr => ?_,
      fun r hr => ?_⟩
  · by_cases heq : exportPlace r = exportPlace a
    · rw [heq]
      exact (node?_of_stat hthere).symm ▸ rfl
    · exact (helse heq).symm ▸ h.data r hr
  · by_cases heq : exportPlace r = exportPlace a
    · refine .inr ⟨a, ha, heq.symm, k, _, hs, ?_⟩
      rw [exportPath_congr heq, heq]
      exact hthere
    · refine (h.copied r hr).imp (fun hmem => (mem_cons.1 hmem).resolve_left ?_) ?_
      · rintro rfl
        exact heq rfl
      · rintro ⟨r', hr', hsame, k', n', hs', hcopied⟩
        exact ⟨r', hr', hsame, k', n', hs',
          hways.stat hcopied ((helse heq).trans (node?_of_stat hcopied))⟩

/-- **When no patch is lost.** The copies of patches that have been worked on replace nothing but
files, and none of the patches. If the export succeeds, then every copy has the contents of its
patch exactly if patches whose copies are in one directory and have one name have the same contents.
-/
theorem exports_kept_iff (hrecords : ∀ r ∈ records, ∃ p result, r = recordOf p result)
    (hhoused : w.tree.Housed) (hroot : Rooted R w.tree) (hsources :
      ∀ r ∈ records, Source R records w r)
    (hdata : ∀ r ∈ records, (w.tree.node? (R ++ exportPlace r)).all Node.isData = true)
    (hrun : (exportPatches l records).run host w = (.ok (), w')) :
    (∀ r ∈ records, Kept l w w' r) ↔
      ∀ r ∈ records, ∀ r' ∈ records, exportPlace r = exportPlace r' →
        w.tree.read w.cwd r.path = w.tree.read w.cwd r'.path := by
  have hnames : ∀ r ∈ records, IsComponent r.exportName := by
    intro r hr
    obtain ⟨p, result, rfl⟩ := hrecords r hr
    exact (hsources _ hr).isComponent hhoused
  have hstart : Exporting l R records w records w :=
    ⟨rfl, hroot, .refl _, fun _ _ _ h => h, hdata, fun r hr => .inl hr⟩
  obtain ⟨_, w₁, hdirs, hcopies⟩ := run_bind_eq_ok_iff.1 hrun
  obtain ⟨_, w₂, hcopies, hlast⟩ := run_bind_eq_ok_iff.1 hcopies
  cases hlast
  have hmade := run_forIn (I := fun _ => Exporting l R records w records)
    (fun c _ _ _ _ h hc => h.ensureDir hl hc) hstart hdirs
  have hdone : Exporting l R records w [] w' := run_forIn
    (fun r hr _ _ _ h hc => h.copy hl hr (hnames r hr) (hsources r hr) hc) hmade hcopies
  constructor
  · intro hkept r hr r' hr' heq
    rw [← hkept r hr, exportPath_congr heq]
    exact hkept r' hr'
  · intro hsame r hr
    obtain ⟨r', hr', heq, k, n, hs, hcopied⟩ := (hdone.copied r hr).resolve_left not_mem_nil
    rw [Kept, hdone.cwd, read_eq_of_stat hcopied hs]
    exact hsame r' hr' r hr heq

omit hl

/-- Three patches, two of which have one name as copies. -/
def tray : World where
  tree :=
    [ (["out"], .dir), (["p"], .dir), (["p", "a"], .dir),
      (["p", "a", "b"], .file (diff "x = 1;\n") false),
      (["p", "a-b"], .file (diff "x = 2;\n") false), (["p", "c"], .file (diff "x = 3;\n") false) ]
  cwd := []
where
  diff (line : Text) : Bytes := Utf8.encode ("--- f.c\n+++ f.c\n@@ -3,1 +3,1 @@\n+" ++ line)

/-- The records of patches that are loaded from files and fail a test. -/
def trayRecords (files : List Path) : List Record :=
  (Population.ofFiles {} "/p" (files.map fun p =>
    (p, (tray.tree.read tray.cwd p).toOption))).patches.map
    (recordOf · { cls := .incorrect })

def trayRun (files : List Path) : Except Stop Unit × World :=
  (exportPatches { root := "/out" } (trayRecords files)).run .bare tray

def apart : List Path := ["/p/a/b", "/p/c"]

theorem exports_kept_tray : (trayRun apart).1 = .ok () ∧
    ∀ r ∈ trayRecords apart, Kept { root := "/out" } tray (trayRun apart).2 r := by
  have hok : (trayRun apart).1 = .ok () := by decide +kernel
  have hrun : trayRun apart = (.ok (), (trayRun apart).2) := by rw [← hok]
  have hrecords : ∀ r ∈ trayRecords apart, ∃ p result, r = recordOf p result := by
    intro r hr
    obtain ⟨p, -, rfl⟩ := mem_map.1 hr
    exact ⟨p, _, rfl⟩
  have hroot : Rooted (["out"] : Place) tray.tree :=
    rooted_of_entries (by decide +kernel) (by decide +kernel) (by decide +kernel)
  have hsources : ∀ r ∈ trayRecords apart, Source (["out"] : Place) (trayRecords apart) tray r := by
    unfold Source
    decide +kernel
  have hproper : tray.tree.Proper := by decide +kernel
  exact ⟨hok, (exports_kept_iff ⟨by decide +kernel,
    by decide +kernel⟩ hrecords hproper.housed hroot hsources
    (by decide +kernel) hrun).2 (by decide +kernel)⟩

def together : List Path := ["/p/a/b", "/p/a-b"]

/-- One of two patches with different ids is lost. -/
theorem copies_share_name : (trayRun together).1 = .ok () ∧
    (trayRecords together).map Record.patchId = ["a:b", "a-b"] ∧
    ∃ r ∈ trayRecords together, ¬ Kept { root := "/out" } tray (trayRun together).2 r :=
  ⟨by decide +kernel, by decide +kernel, by decide +kernel⟩

end Report

end PatchTriage
