import Mathlib.Data.List.ReduceOption
import PatchTriage.Proofs.Listings
import PatchTriage.Proofs.TestCommands

/-!
# What checking settings leaves behind

`Config.resolve` checks the settings of all sources together, and makes the output directory on the
way.
-/

namespace PatchTriage

open List FileTree Layer Option

/-! ## Directories that have been made -/

namespace FileTree

variable {t t' : FileTree} {cwd : Place} {p : Path}

theorem Extends.isDir (h : Extends t t') (hp : t.isDir cwd p = true) : t'.isDir cwd p = true := by
  obtain ⟨k, hk⟩ := isDir_iff.1 hp
  obtain ⟨e, he, hen⟩ := stat_eq_ok_iff.1 hk
  obtain ⟨husable, k', hl, rfl⟩ := locateBy_eq_ok_iff.1 he
  obtain ⟨hplace, hnode, hdir⟩ := Entry.node_eq_ok_iff.1 hen
  refine isDir_iff.2 ⟨k,
    stat_eq_ok_iff.2 ⟨.of p k', locateBy_eq_ok_iff.2 ⟨husable, k', h.leads hl, rfl⟩, ?_⟩⟩
  exact Entry.node_eq_ok_iff.2 ⟨hplace, h.keeps _ _ hnode, hdir⟩

theorem extends_of_createDir (h : t.createDir cwd p = .ok t') : Extends t t' := by
  obtain ⟨-, k, -, hk, rfl⟩ := createDir_eq_ok h
  exact .put hk (by simp)

theorem isDir_of_createDir (h : t.createDir cwd p = .ok t') : t'.isDir cwd p = true := by
  have hext := extends_of_createDir h
  obtain ⟨husable, k, hl, hk, rfl⟩ := createDir_eq_ok h
  have hroot : k ≠ [] := by rintro rfl; simp at hk
  refine isDir_iff.2 ⟨k, stat_eq_ok_iff.2
    ⟨.of p k, locateBy_eq_ok_iff.2 ⟨husable, k, hext.leads (hl.of_free hk), rfl⟩, ?_⟩⟩
  exact Entry.node_eq_ok_iff.2 ⟨rfl, node?_put_self hroot .., fun _ => rfl⟩

theorem isDir_of_createEach {ps : List Path} (h : createEach cwd t ps = (.ok (), t')) :
    Extends t t' ∧ ∀ p ∈ ps, t'.isDir cwd p = true := by
  induction ps generalizing t with
  | nil =>
    cases h
    exact ⟨.refl _, by simp⟩
  | cons p ps ih =>
    rw [createEach] at h
    split at h
    · rename_i made hmade
      obtain ⟨hext, hps⟩ := ih h
      exact ⟨(extends_of_createDir hmade).trans hext,
        forall_mem_cons.2 ⟨hext.isDir (isDir_of_createDir hmade), hps⟩⟩
    · split at h
      · rename_i hthere
        obtain ⟨hext, hps⟩ := ih h
        have hp : t.isDir cwd p = true := ((Bool.and_eq_true _ _).mp hthere).2
        exact ⟨hext, forall_mem_cons.2 ⟨hext.isDir hp, hps⟩⟩
      · cases h

/-- The first of the directories is still to be made, or it is there. -/
theorem createTopmost_spec {missing ps : List Path} {r : List Path × FileTree}
    (h : createTopmost cwd t missing ps = .ok r) :
    missing ⊆ r.1 ∧ ∀ p ∈ ps.head?, p ∈ r.1 ∨ r.2.isDir cwd p = true := by
  induction ps generalizing missing with
  | nil =>
    cases h
    exact ⟨Subset.refl _, by simp⟩
  | cons p ps ih =>
    rw [createTopmost] at h
    split at h
    · rename_i made hmade
      cases h
      exact ⟨Subset.refl _, by simpa using .inr (isDir_of_createDir hmade)⟩
    · obtain ⟨hsub, -⟩ := ih h
      obtain ⟨hp, hmissing⟩ := cons_subset.1 hsub
      exact ⟨hmissing, by simpa using .inl hp⟩
    · split at h
      · rename_i hthere
        cases h
        exact ⟨Subset.refl _, by simpa using .inr hthere⟩
      · cases h
    · cases h

/-- **A directory that has been made is there**, if there was anything to make. -/
theorem isDir_of_createDirs (h : t.createDirs cwd p = (.ok (), t')) :
    t' = t ∨ t'.isDir cwd p = true := by
  rw [createDirs] at h
  cases hparent : Path.parent? p with
  | none =>
    have habove : Path.above p = [] := by
      rw [Path.above]
      cases p.length with
      | zero => rfl
      | succ n => rw [Path.aboveUpTo, hparent]
    rw [habove, filter_cons_of_neg (by simp [hparent]), filter_nil] at h
    cases h
    exact .inl rfl
  | some parent =>
    rw [filter_cons_of_pos (by simp [hparent])] at h
    split at h
    · cases h
    · rename_i missing top htop
      obtain ⟨hext, hmissing⟩ := isDir_of_createEach h
      rcases (createTopmost_spec htop).2 p rfl with hp | hp
      · exact .inr (hmissing p hp)
      · exact .inr (hext.isDir hp)

theorem canonical_of_isDir (h : t.isDir cwd p = true) : ∃ q, t.canonical cwd p = .ok q := by
  obtain ⟨k, hk⟩ := isDir_iff.1 h
  exact ⟨pathOf k, by rw [canonical, hk]; rfl⟩

theorem canonical_of_isFile (h : t.isFile cwd p = true) : ∃ q, t.canonical cwd p = .ok q := by
  cases hs : t.stat cwd p with
  | error e => rw [isFile, hs] at h; cases h
  | ok kn => exact ⟨pathOf kn.1, by rw [canonical, hs]; rfl⟩

theorem isDir_eq_of_canonical {p' q : Path} (ht : t.Proper) (h : t.canonical cwd p = .ok q)
    (h' : t.canonical cwd p' = .ok q) : t.isDir cwd p = t.isDir cwd p' := by
  have hstat {p : Path} (h : t.canonical cwd p = .ok q) :
      ∃ k n, t.stat cwd p = .ok (k, n) ∧ t.node? k = some n ∧ k = pieces q := by
    cases hs : t.stat cwd p with
    | error e => rw [canonical, hs] at h; cases h
    | ok kn =>
      rw [canonical, hs] at h
      cases h
      obtain ⟨e, -, hen⟩ := stat_eq_ok_iff.1 hs
      obtain ⟨hplace, hnode, -⟩ := Entry.node_eq_ok_iff.1 hen
      rw [← hplace] at hnode
      refine ⟨kn.1, kn.2, rfl, hnode, (pieces_pathOf fun n hn => ?_).symm⟩
      have hne : kn.1 ≠ [] := ne_nil_of_mem hn
      obtain ⟨m, hm⟩ := (isSome_node?_iff hne).1 (isSome_of_mem hnode)
      exact ht.names _ hm n hn
  obtain ⟨k, n, hs, hnode, rfl⟩ := hstat h
  obtain ⟨k', n', hs', hnode', rfl⟩ := hstat h'
  rw [hnode] at hnode'
  cases hnode'
  rw [isDir, isDir, hs, hs']

end FileTree

/-! ## Work that begins with checks -/

namespace Job

variable {α β : Type} {host : Host} {w : World} {P Q : Prop} {R : α →
    Prop} {M : Except Stop β × World → Prop}

/-- Work that is refused unless `P`, and then leaves the world as it was. What comes of it under `P`
is told by `M`. -/
structure Admits (host : Host) (w : World) (P : Prop) (M : Except Stop α × World → Prop)
    (work : Job α) : Prop where
  passes : P → M (work.run host w)
  refuses : ¬ P → ∃ f, work.run host w = (.error (.failure f), w)

abbrev Checks (host : Host) (w : World) (P : Prop) (R : α → Prop) (work : Job α) : Prop :=
  Admits host w P (fun r => ∃ a, R a ∧ r = (.ok a, w)) work

theorem Admits.congr {work : Job β} (h : Admits host w P M work) (hPQ : P ↔ Q) :
    Admits host w Q M work :=
  ⟨fun hQ => h.passes (hPQ.2 hQ), fun hQ => h.refuses (mt hPQ.1 hQ)⟩

theorem Admits.of_run {work work' : Job β} (h : Admits host w P M work)
    (hrun : work'.run host w = work.run host w) : Admits host w P M work' :=
  ⟨fun hP => hrun ▸ h.passes hP, fun hP => hrun ▸ h.refuses hP⟩

/-- **A check comes first.** -/
theorem Admits.bind {work : Job α} {f : α → Job β} (hwork : Checks host w P R work)
    (hf : ∀ a, R a → Admits host w Q M (f a)) : Admits host w (P ∧ Q) M (work >>= f) := by
  by_cases hP : P
  · obtain ⟨a, ha, hrun⟩ := hwork.passes hP
    have hrest : (work >>= f).run host w = (f a).run host w := run_bind_of_ok hrun
    exact ⟨fun h => hrest ▸ (hf a ha).passes h.2,
      fun h => hrest ▸ (hf a ha).refuses fun hQ => h ⟨hP, hQ⟩⟩
  · obtain ⟨e, hrun⟩ := hwork.refuses hP
    exact ⟨fun h => absurd h.1 hP, fun _ => ⟨e, run_bind_of_error hrun⟩⟩

theorem run_fail_bind (e : Failure) (f : α → Job β) :
    (fail e >>= f).run host w = (.error (.failure e), w) :=
  run_bind_of_error rfl

theorem Admits.unless {c : Prop} [Decidable c] {p : Problem} {f : α → Job β} {rest : Job β}
    (h : Admits host w Q M rest) : Admits host w (¬ c ∧
      Q) M (if c then refuse p >>= f else rest) := by
  by_cases hc : c
  · rw [if_pos hc]
    exact ⟨fun h => absurd hc h.1, fun _ => ⟨_, run_fail_bind _ f⟩⟩
  · rw [if_neg hc]
    exact h.congr ⟨fun hQ => ⟨hc, hQ⟩, fun hQ => hQ.2⟩

theorem run_explain_op {o : Op} {r : o.Reply → Except IoError α} {p : Problem} {e : IoError}
    (h : r (o.perform host w).1 = .error e) :
    (explain p (op o >>= fun x => reply (r x))).run host w =
      (.error (.failure ((Failure.of (.io e)).within p)), (o.perform host w).2) := by
  have hfails : (op o >>= fun x => reply (r x)).run host w =
      (.error (.failure (.of (.io e))), (o.perform host w).2) := by
    rw [run_op_bind, h]
    rfl
  rw [explain, run_tryCatch_of_error hfails]
  rfl

end Job

def Layer.files (l : Layer) : List Path :=
  [l.binary, l.testOracle, l.testSuite, l.pubTestScript, l.pvtTestScript, l.advTestScript,
    l.patchScript, l.resetScript, l.buildScript, l.configScript].reduceOption

namespace Config

variable {α : Type} {host : Host} {w : World} {l : Layer}

open Job

/-! ## The checks -/

theorem run_absolute_of_ok {p q : Path} (h : w.tree.canonical w.cwd p = .ok q) :
    (absolute p).run host w = (.ok q, w) := by
  rw [absolute, run_explain_eq_ok_iff, run_op_bind, run_reply_eq_ok_iff]
  exact ⟨h, rfl⟩

theorem run_absolute_of_error (host : Host) {p : Path} {e : IoError}
    (h : w.tree.canonical w.cwd p = .error e) :
    ∃ f, (absolute p).run host w = (.error (.failure f), w) :=
  ⟨_, run_explain_op h⟩

def modeSet (parse : Text → Except Failure α) (default : α) (o : Option Text) : α :=
  (o.bind fun value => (parse value).toOption).getD default

theorem checks_modeOf (parse : Text → Except Failure α) (default : α) (o : Option Text) :
    Checks host w (∀ value ∈ o, ∃ mode, parse value = .ok mode) (· = modeSet parse default o)
      (modeOf parse default o) := by
  cases o with
  | none => exact ⟨fun _ => ⟨default, rfl, rfl⟩, fun h => absurd (by simp) h⟩
  | some value =>
    cases hvalue : parse value with
    | ok mode =>
      refine ⟨fun _ => ⟨mode, by simp [modeSet, hvalue, Except.toOption], ?_⟩, fun h => ?_⟩
      · rw [modeOf, hvalue]
        rfl
      · exact absurd (by simp [hvalue]) h
    | error e =>
      refine ⟨fun h => ?_, fun _ => ⟨e, by rw [modeOf, hvalue]; rfl⟩⟩
      obtain ⟨mode, hmode⟩ := h value rfl
      rw [hvalue] at hmode
      cases hmode

theorem run_isFile_bind {p : Path} {f : Bool → Job α} :
    (isFile p >>= f).run host w = (f (w.tree.isFile w.cwd p)).run host w :=
  run_op_bind

theorem run_isDir_bind {p : Path} {f : Bool → Job α} :
    (isDir p >>= f).run host w = (f (w.tree.isDir w.cwd p)).run host w :=
  run_op_bind

theorem checks_found {found : Bool} {p : Path} {problem : Problem}
    (hfound : found = true → ∃ q, w.tree.canonical w.cwd p = .ok q) :
    Checks host w (found = true) (·.isNone = false)
      (if found = true then do return some (← absolute p) else refuse problem) := by
  cases found with
  | true =>
    obtain ⟨q, hq⟩ := hfound rfl
    exact ⟨fun _ => ⟨some q, rfl, run_bind_of_ok (run_absolute_of_ok hq)⟩, fun h => absurd rfl h⟩
  | false => exact ⟨fun h => absurd h (by decide), fun _ => ⟨_, rfl⟩⟩

theorem checks_existingFile (key : Text) (o : Option Path) :
    Checks host w (∀ p ∈ o, w.tree.isFile w.cwd p = true) (·.isNone = o.isNone)
      (existingFile key o) := by
  cases o with
  | none => exact ⟨fun _ => ⟨none, rfl, rfl⟩, fun h => absurd (by simp) h⟩
  | some p => exact ((checks_found canonical_of_isFile).of_run run_isFile_bind).congr (by simp)

theorem checks_existingDir (key : Text) (o : Option Path) :
    Checks host w (∀ p ∈ o, w.tree.isDir w.cwd p = true) (·.isNone = o.isNone)
      (existingDir key o) := by
  cases o with
  | none => exact ⟨fun _ => ⟨none, rfl, rfl⟩, fun h => absurd (by simp) h⟩
  | some p => exact ((checks_found canonical_of_isDir).of_run run_isDir_bind).congr (by simp)

/-- Where the patches are: the directory, if it is one, or else the file, if it is one. -/
def patches? (w : World) (dir file : Option Path) : Option Path :=
  dir.filter (w.tree.isDir w.cwd ·) <|> file.filter (w.tree.isFile w.cwd ·)

theorem run_patchLocationOf (host : Host) (w : World) (dir file : Option Path) :
    ∃ problem, (patchLocationOf dir file).run host w =
      ((patches? w dir file).elim (refuse problem) absolute).run host w := by
  cases dir with
  | none =>
    cases file with
    | none => exact ⟨_, rfl⟩
    | some f =>
      refine ⟨.patchFileMissing f, ?_⟩
      rw [patchLocationOf, run_isFile_bind]
      cases hf : w.tree.isFile w.cwd f <;> simp [patches?, Option.filter, hf]
  | some d =>
    refine ⟨.patchDirMissing d, ?_⟩
    rw [patchLocationOf, run_isDir_bind]
    cases hd : w.tree.isDir w.cwd d with
    | true => simp [patches?, Option.filter, hd]
    | false =>
      cases file with
      | none => simp [patches?, Option.filter, hd]
      | some f =>
        rw [if_neg (by decide), run_isFile_bind]
        cases hf : w.tree.isFile w.cwd f <;> simp [patches?, Option.filter, hd, hf]

theorem canonical_of_patches? {dir file : Option Path} {p : Path}
    (h : patches? w dir file = some p) :
    ∃ q, w.tree.canonical w.cwd p = .ok q := by
  rcases (orElse_eq_some _ _ _).1 h with hdir | ⟨-, hfile⟩
  · exact canonical_of_isDir (filter_eq_some_iff.1 hdir).2
  · exact canonical_of_isFile (filter_eq_some_iff.1 hfile).2

theorem checks_patchLocationOf (dir file : Option Path) :
    Checks host w ((patches? w dir file).isSome = true)
      (fun location => ∀ p ∈ patches? w dir file, w.tree.canonical w.cwd p = .ok location)
      (patchLocationOf dir file) := by
  obtain ⟨problem, hrun⟩ := run_patchLocationOf host w dir file
  cases hp : patches? w dir file with
  | none =>
    rw [hp] at hrun
    exact ⟨by simp, fun _ => ⟨_, hrun⟩⟩
  | some p =>
    obtain ⟨q, hq⟩ := canonical_of_patches? hp
    rw [hp] at hrun
    refine ⟨fun _ => ⟨q, ?_, hrun.trans (run_absolute_of_ok hq)⟩, by simp⟩
    simpa using hq

theorem lacking?_congr {mode : PatchMode} {b b' o o' s s' d d' : Option Path}
    (hb : b.isNone = b'.isNone) (ho : o.isNone = o'.isNone) (hs : s.isNone = s'.isNone)
    (hd : d.isNone = d'.isNone) : lacking? mode b o s d = lacking? mode b' o' s' d' := by
  simp only [lacking?, hb, ho, hs, hd]

/-- What is checked before the output directory is made. -/
structure Accepts (w : World) (l : Layer) : Prop where
  patchMode : ∀ value ∈ l.patchMode, ∃ mode, PatchMode.parse value = .ok mode
  execMode : ∀ value ∈ l.execMode, ∃ mode, ExecMode.parse value = .ok mode
  files : ∀ p ∈ l.files, w.tree.isFile w.cwd p = true
  sourceDir : ∀ p ∈ l.sourceDir, w.tree.isDir w.cwd p = true
  patches : (patches? w l.patchDir l.patchFile).isSome = true
  testIds : l.testIds.getD [] ≠ []
  sufficient : lacking? (modeSet PatchMode.parse .debugger l.patchMode) l.binary
    l.testOracle l.testSuite
    l.sourceDir = none

def conclude (l : Layer) (finish : Option Nat → Option Path → Config) : Job Config := do
  let budget ← checked (budgetOf l.timeoutMinutes)
  let pluginDir ← existingDir "e9_plugin_dir" l.pluginDir
  return finish budget pluginDir

/-- What is done after the first checks: the output directory is made, and there are the last
checks. -/
def make (l : Layer) (finish : Path → Option Nat → Option Path → Config) : Job Config := do
  let dir := l.outputDir.getD defaultOutputDir
  explain (.createOutputDir dir) (do reply (← op (.createDirs dir)))
  conclude l (finish (← absolute dir))

def Locates (w : World) (l : Layer) (finish : Path → Option Nat → Option Path → Config) : Prop :=
  ∀ dir budget plugins, ∀ p ∈ patches? w l.patchDir l.patchFile,
    w.tree.canonical w.cwd p = .ok (finish dir budget plugins).patchLocation

theorem runs_of_lacking? {mode : PatchMode} {b o s d : Option Path}
    (h : lacking? mode b o s d = none) :
    s ≠ none ∨ o ≠ none := by
  have hsufficient : Sufficient
      { outputDir := [], patchMode := mode, binary := b, testOracle := o, testSuite := s,
        sourceDir := d } := h
  exact hsufficient.runsTests.symm

theorem forall_mem_files {Q : Path → Prop} :
    (∀ p ∈ l.files, Q p) ↔ (∀ p ∈ l.binary, Q p) ∧ (∀ p ∈ l.testOracle, Q p) ∧
      (∀ p ∈ l.testSuite, Q p) ∧ (∀ p ∈ l.pubTestScript, Q p) ∧ (∀ p ∈ l.pvtTestScript, Q p) ∧
      (∀ p ∈ l.advTestScript, Q p) ∧ (∀ p ∈ l.patchScript, Q p) ∧ (∀ p ∈ l.resetScript, Q p) ∧
      (∀ p ∈ l.buildScript, Q p) ∧ ∀ p ∈ l.configScript, Q p := by
  simp only [files, reduceOption_mem_iff, mem_cons, not_mem_nil, or_false, or_imp,
    forall_and, mem_def, @eq_comm _ (some _)]

theorem admits_resolve (host : Host) (w : World) (l : Layer) : Admits host w (Accepts w l)
    (fun r => ∃ finish, Locates w l finish ∧ r = (make l finish).run host w) (resolve l) := by
  refine Admits.congr (.bind (checks_modeOf _ _ _) fun patchMode hmode =>
    .bind (checks_modeOf _ _ _) fun execMode _ =>
    .bind (checks_existingFile _ _) fun binary hbinary =>
    .bind (checks_existingFile _ _) fun testOracle horacle =>
    .bind (checks_existingFile _ _) fun testSuite hsuite =>
    .bind (checks_existingDir _ _) fun sourceDir hsource =>
    .bind (checks_existingFile _ _) fun pub hpub =>
    .bind (checks_existingFile _ _) fun pvt _ =>
    .bind (checks_existingFile _ _) fun adversarial _ =>
    .bind (checks_existingFile _ _) fun patchScript _ =>
    .bind (checks_existingFile _ _) fun resetScript _ =>
    .bind (checks_existingFile _ _) fun buildScript _ =>
    .bind (checks_existingFile _ _) fun configScript _ =>
    .bind (checks_patchLocationOf _ _) fun location hlocation =>
    .unless (Q := ¬ (l.testSuite.isNone && l.pubTestScript.isNone && l.binary.isNone
        && l.testOracle.isNone) = true ∧
      lacking? (modeSet PatchMode.parse .debugger l.patchMode) l.binary l.testOracle l.testSuite
        l.sourceDir = none) ?_) ?_
  · rw [← hmode, ← hbinary, ← horacle, ← hsuite, ← hpub,
      ← lacking?_congr hbinary horacle hsuite hsource]
    apply Admits.unless
    cases lacking? patchMode binary testOracle testSuite sourceDir with
    | some problem => exact ⟨by simp, fun _ => ⟨_, run_fail_bind _ _⟩⟩
    | none => exact ⟨fun _ => ⟨_, fun _ _ _ => hlocation, rfl⟩, fun h => absurd rfl h⟩
  · constructor
    · rintro ⟨hpatch, hexec, hbinary, horacle, hsuite, hsource, hpub, hpvt, hadv, hp, hr,
        hb, hc, hplace,
        hids, -, hsufficient⟩
      exact ⟨hpatch, hexec,
        forall_mem_files.2 ⟨hbinary, horacle, hsuite, hpub, hpvt, hadv, hp, hr, hb, hc⟩,
        hsource, hplace, by simpa using hids, hsufficient⟩
    · intro h
      obtain ⟨hbinary, horacle, hsuite, hpub, hpvt, hadv, hp, hr, hb, hc⟩ :=
        forall_mem_files.1 h.files
      refine ⟨h.patchMode, h.execMode, hbinary, horacle, hsuite, h.sourceDir, hpub, hpvt, hadv,
        hp, hr, hb, hc,
        h.patches, by simpa using h.testIds, ?_, h.sufficient⟩
      have hruns := runs_of_lacking? h.sufficient
      simp only [Bool.and_eq_true, isNone_iff_eq_none]
      grind

/-! ## After the checks -/

/-- What comes of making the output directory, and the tree after it. -/
def made (w : World) (l : Layer) : Except IoError Unit × FileTree :=
  w.tree.createDirs w.cwd (l.outputDir.getD defaultOutputDir)

def Landed (w : World) (l : Layer) : Prop :=
  (made w l).1 = .ok () ∧
    ∃ q, (made w l).2.canonical w.cwd (l.outputDir.getD defaultOutputDir) = .ok q

def InBounds (l : Layer) : Prop :=
  ∀ minutes ∈ l.timeoutMinutes, minutes * secondsPerMinute < Word.bound

/-- The directory of plugins is there, after the output directory has been made. -/
def Plugged (w : World) (l : Layer) : Prop := ∀ p ∈ l.pluginDir, (made w l).2.isDir w.cwd p = true

theorem budgetOf_of_inBounds (h : InBounds l) :
    ∃ budget, budgetOf l.timeoutMinutes = .ok budget := by
  rw [InBounds] at h
  cases hminutes : l.timeoutMinutes with
  | none => exact ⟨none, rfl⟩
  | some minutes =>
    cases minutes with
    | zero => exact ⟨none, rfl⟩
    | succ n =>
      refine ⟨some ((n + 1) * secondsPerMinute), ?_⟩
      rw [budgetOf, Word.mul, if_pos (h _ hminutes)]
      · rfl
      · simp

theorem budgetOf_of_not_inBounds (h : ¬ InBounds l) :
    ∃ o, budgetOf l.timeoutMinutes = .error o := by
  simp only [InBounds, not_forall] at h
  obtain ⟨minutes, hminutes, hbound⟩ := h
  obtain rfl | hpos := Nat.eq_zero_or_pos minutes
  · exact absurd (by decide) hbound
  · refine ⟨.mul, ?_⟩
    rw [hminutes, budgetOf, Word.mul, if_neg hbound]
    · rfl
    · omega

theorem run_createOutputDir_of_ok (h : (made w l).1 = .ok ()) :
    (explain (.createOutputDir (l.outputDir.getD defaultOutputDir))
      (op (.createDirs (l.outputDir.getD defaultOutputDir)) >>= fun r => reply r)).run host w =
      (.ok (), { w with tree := (made w l).2 }) := by
  rw [run_explain_eq_ok_iff, run_op_bind, run_reply_eq_ok_iff]
  exact ⟨h, rfl⟩

theorem run_createOutputDir_of_error (host : Host) {e : IoError} (h : (made w l).1 = .error e) :
    ∃ f, (explain (.createOutputDir (l.outputDir.getD defaultOutputDir))
      (op (.createDirs (l.outputDir.getD defaultOutputDir)) >>= fun r => reply r)).run host w =
      (.error (.failure f), { w with tree := (made w l).2 }) :=
  ⟨_, run_explain_op h⟩

/-- An output directory that cannot be made, or has no path, ends the work. -/
theorem run_make_of_not_landed (host : Host) (finish : Path → Option Nat → Option Path → Config)
    (h : ¬ Landed w l) :
    ∃ f, (make l finish).run host w = (.error (.failure f), { w with tree := (made w l).2 }) := by
  cases hmade : (made w l).1 with
  | error e =>
    obtain ⟨f, hf⟩ := run_createOutputDir_of_error host hmade
    exact ⟨f, run_bind_of_error hf⟩
  | ok u =>
    cases hplace : (made w l).2.canonical w.cwd (l.outputDir.getD defaultOutputDir) with
    | ok q => exact absurd ⟨hmade, q, hplace⟩ h
    | error e =>
      obtain ⟨f, hf⟩ := run_absolute_of_error host (w := { w with tree := (made w l).2 }) hplace
      exact ⟨f, (run_bind_of_ok (run_createOutputDir_of_ok hmade)).trans (run_bind_of_error hf)⟩

theorem run_make_of_landed (host : Host) (finish : Path → Option Nat → Option Path → Config)
    (h : Landed w l) :
    ∃ q, (make l finish).run host w =
      (conclude l (finish q)).run host { w with tree := (made w l).2 } := by
  obtain ⟨hmade, q, hq⟩ := h
  exact ⟨q, (run_bind_of_ok (run_createOutputDir_of_ok hmade)).trans
    (run_bind_of_ok (run_absolute_of_ok (w := { w with tree := (made w l).2 }) hq))⟩

theorem run_conclude_of_not_inBounds (host : Host) (w : World)
    (finish : Option Nat → Option Path → Config) (h : ¬ InBounds l) :
    ∃ o, (conclude l finish).run host w = (.error (.overflow o), w) := by
  obtain ⟨o, ho⟩ := budgetOf_of_not_inBounds h
  have hstops : (checked (budgetOf l.timeoutMinutes)).run host w = (.error (.overflow o), w) := by
    rw [ho]
    rfl
  exact ⟨o, run_bind_of_error hstops⟩

theorem checks_conclude {finish : Option Nat → Option Path → Config} (h : InBounds l) :
    Checks host w (∀ p ∈ l.pluginDir, w.tree.isDir w.cwd p = true)
      (fun c => ∃ budget plugins, c = finish budget plugins) (conclude l finish) := by
  obtain ⟨budget, hbudget⟩ := budgetOf_of_inBounds h
  have hrun : (checked (budgetOf l.timeoutMinutes)).run host w = (.ok budget, w) := by
    rw [hbudget]
    rfl
  have hrest : Checks host w (∀ p ∈ l.pluginDir, w.tree.isDir w.cwd p = true)
      (fun c => ∃ budget plugins, c = finish budget plugins)
      (existingDir "e9_plugin_dir" l.pluginDir >>= fun plugins => pure (finish budget plugins)) :=
    (Admits.bind (Q := True) (checks_existingDir _ _) fun plugins _ =>
      ⟨fun _ => ⟨_, ⟨budget, plugins, rfl⟩, rfl⟩, fun h => absurd trivial h⟩).congr (by simp)
  exact hrest.of_run (run_bind_of_ok hrun)

/-- **What comes after the first checks**, and how it ends; the output directory stays in any case.
-/
theorem run_make_cases (host : Host) (w : World) (l : Layer)
    (finish : Path → Option Nat → Option Path → Config) :
    ∃ result, (make l finish).run host w = (result, { w with tree := (made w l).2 }) ∧
      ((¬ Landed w l ∧ ∃ f, result = .error (.failure f)) ∨
        (Landed w l ∧ ¬ InBounds l ∧ ∃ o, result = .error (.overflow o)) ∨
        (Landed w l ∧ InBounds l ∧ ¬ Plugged w l ∧ ∃ f, result = .error (.failure f)) ∨
        (Landed w l ∧ InBounds l ∧ Plugged w l ∧
          ∃ dir budget plugins, result = .ok (finish dir budget plugins))) := by
  by_cases hlanded : Landed w l
  · obtain ⟨q, hrun⟩ := run_make_of_landed host finish hlanded
    rw [hrun]
    by_cases hbounds : InBounds l
    · have hcheck : Checks host { w with tree := (made w l).2 } (Plugged w l) _
          (conclude l (finish q)) :=
        checks_conclude hbounds
      by_cases hplugged : Plugged w l
      · obtain ⟨c, ⟨budget, plugins, rfl⟩, hc⟩ := hcheck.passes hplugged
        exact ⟨_, hc, .inr (.inr (.inr ⟨hlanded, hbounds, hplugged, q, budget, plugins, rfl⟩))⟩
      · obtain ⟨f, hf⟩ := hcheck.refuses hplugged
        exact ⟨_, hf, .inr (.inr (.inl ⟨hlanded, hbounds, hplugged, f, rfl⟩))⟩
    · obtain ⟨o, ho⟩ :=
        run_conclude_of_not_inBounds host { w with tree := (made w l).2 } (finish q) hbounds
      exact ⟨_, ho, .inr (.inl ⟨hlanded, hbounds, o, rfl⟩)⟩
  · obtain ⟨f, hf⟩ := run_make_of_not_landed host finish hlanded
    exact ⟨_, hf, .inl ⟨hlanded, f, rfl⟩⟩

/-! ## Where the patches are -/

/-- Settings that come of the checks have their patches where they are. -/
theorem patchLocation_of_run {c : Config} {w' : World} (h : (resolve l).run host w = (.ok c, w')) :
    ∃ p ∈ patches? w l.patchDir l.patchFile, w.tree.canonical w.cwd p = .ok c.patchLocation := by
  by_cases haccepts : Accepts w l
  · obtain ⟨finish, hlocates, hrun⟩ := (admits_resolve host w l).passes haccepts
    obtain ⟨dir, budget, plugins, rfl⟩ : ∃ dir budget plugins, c = finish dir budget plugins := by
      obtain ⟨result, hmake, hcases⟩ := run_make_cases host w l finish
      obtain rfl : result = .ok c := congrArg Prod.fst (hmake.symm.trans (hrun.symm.trans h))
      have hdone : Landed w l ∧ InBounds l ∧ Plugged w l ∧
          ∃ dir budget plugins, c = finish dir budget plugins := by simpa using hcases
      exact hdone.2.2.2
    obtain ⟨p, hp⟩ := isSome_iff_exists.1 haccepts.patches
    exact ⟨p, hp, hlocates dir budget plugins p hp⟩
  · obtain ⟨f, hf⟩ := (admits_resolve host w l).refuses haccepts
    rw [hf] at h
    cases h

/-- **Which patches a file on the command line stands for.**  A file of patches that is set last of
all is where the patches are, if no source before it names a directory of patches that is there;
otherwise they are in that directory. -/
theorem patchLocation_of_file {metadata settings cli : Layer} {file : Path}
    {c : Config} {w' : World}
    (hfile : cli.patchFile = some file) (hdir : cli.patchDir = none)
    (hexists : w.tree.isFile w.cwd file = true)
    (h : (resolve ((metadata.overlay settings).overlay cli)).run host w = (.ok c, w')) :
    ((∀ dir ∈ settings.patchDir <|> metadata.patchDir, w.tree.isDir w.cwd dir = false) →
      w.tree.canonical w.cwd file = .ok c.patchLocation) ∧
    ∀ dir ∈ settings.patchDir <|> metadata.patchDir, w.tree.isDir w.cwd dir = true →
      w.tree.canonical w.cwd dir = .ok c.patchLocation ∧
        (w.tree.Proper → w.tree.canonical w.cwd file ≠ .ok c.patchLocation) := by
  have hpatches : patches? w ((metadata.overlay settings).overlay cli).patchDir
      ((metadata.overlay settings).overlay cli).patchFile =
      ((settings.patchDir <|> metadata.patchDir).filter (w.tree.isDir w.cwd ·) <|> some file) := by
    simp [patches?, overlay, hfile, hdir, Option.filter, hexists]
  obtain ⟨p, hp, hlocation⟩ := patchLocation_of_run h
  rw [hpatches] at hp
  constructor
  · intro hnone
    have hlower : (settings.patchDir <|> metadata.patchDir).filter
        (w.tree.isDir w.cwd ·) = none := by
      simpa [Option.filter_eq_none_iff] using hnone
    rw [hlower] at hp
    obtain rfl : file = p := by simpa using hp
    exact hlocation
  · intro dir hset hthere
    have hlower : (settings.patchDir <|> metadata.patchDir).filter
        (w.tree.isDir w.cwd ·) = some dir :=
      Option.filter_eq_some_iff.2 ⟨hset, hthere⟩
    rw [hlower] at hp
    obtain rfl : dir = p := by simpa using hp
    refine ⟨hlocation, fun ht hcanonical => ?_⟩
    -- The file would be the directory.
    have hsame := isDir_eq_of_canonical ht hcanonical hlocation
    rw [isFile_of_isDir (hsame.trans hthere)] at hexists
    cases hexists

def bureau : World where
  tree := [(["a.patch"], .file [] false), (["patches"], .dir), (["suite"], .file [] false)]
  cwd := []

def bureauSettings : Layer where
  patchFile := some "/a.patch"
  testSuite := some "/suite"
  testIds := some ["1"]
  outputDir := some "/out"

theorem patchLocation_bureau :
    ∃ c w', (resolve ((overlay { patchDir := some "/missing" } {}).overlay bureauSettings)).run
        .bare bureau = (.ok c, w') ∧
      bureau.tree.canonical bureau.cwd "/a.patch" = .ok c.patchLocation := by
  have hok : ((resolve ((overlay { patchDir := some "/missing" } {}).overlay
      bureauSettings)).run .bare bureau).1.isOk = true := by decide +kernel
  rcases hrun : (resolve ((overlay { patchDir := some "/missing" } {}).overlay
      bureauSettings)).run .bare bureau with ⟨e | c, w'⟩
  · rw [hrun] at hok
    cases hok
  · exact ⟨c, w', rfl, (patchLocation_of_file rfl rfl (by decide +kernel) hrun).1
      (by decide +kernel)⟩

/-- A directory of patches that an earlier source names counts before the file. -/
theorem earlier_directory_counts :
    bureau.tree.isFile bureau.cwd "/a.patch" = true ∧
    ((resolve ((overlay { patchDir := some "/patches" } {}).overlay bureauSettings)).run
      .bare bureau).1.map Config.patchLocation = .ok "/patches" := by
  decide +kernel

/-! ## All or nothing -/

/-- There are settings in the end, or a refusal that leaves the world as it was. -/
def AllOrNothing (w : World) (r : Except Stop Config × World) : Prop :=
  (∃ c, r.1 = .ok c) ∨ ∃ f, r = (.error (.failure f), w)

theorem allOrNothing_of_failure {f : Failure} {t : FileTree} :
    AllOrNothing w (.error (.failure f), { w with tree := t }) ↔ t = w.tree := by
  simp only [AllOrNothing, reduceCtorEq, exists_false, false_or, Prod.mk.injEq, exists_and_right]
  constructor
  · rintro ⟨-, h⟩
    exact congrArg World.tree h
  · rintro rfl
    exact ⟨⟨f, rfl⟩, rfl⟩

theorem not_allOrNothing_of_overflow {o : Overflow} {w' : World} :
    ¬ AllOrNothing w (.error (.overflow o), w') := by
  simp [AllOrNothing]

/-- Making the output directory is all or nothing exactly if what follows it does not fail. -/
theorem make_allOrNothing_iff {finish : Path → Option Nat → Option Path → Config} :
    AllOrNothing w ((make l finish).run host w) ↔
      (Landed w l → InBounds l) ∧
        ((made w l).2 ≠ w.tree → (made w l).1 = .ok () ∧ Plugged w l) := by
  obtain ⟨result, hrun, hcases⟩ := run_make_cases host w l finish
  rw [hrun]
  obtain ⟨hlanded, f, rfl⟩ | ⟨hlanded, hbounds, o, rfl⟩ | ⟨hlanded, hbounds, hplugged, f, rfl⟩ |
    ⟨hlanded, hbounds, hplugged, dir, budget, plugins, rfl⟩ := hcases
  · rw [allOrNothing_of_failure]
    refine ⟨fun h => ⟨fun h' => absurd h' hlanded, fun hne => absurd h hne⟩,
      fun h => not_not.1 fun hne => ?_⟩
    -- What has been made is there, so that it has an absolute path.
    have hmade := (h.2 hne).1
    rcases isDir_of_createDirs (Prod.ext hmade rfl) with hsame | hdir
    · exact hne hsame
    · exact hlanded ⟨hmade, canonical_of_isDir hdir⟩
  · exact ⟨fun h => absurd h not_allOrNothing_of_overflow, fun h => absurd (h.1 hlanded) hbounds⟩
  · rw [allOrNothing_of_failure]
    exact ⟨fun h => ⟨fun _ => hbounds, fun hne => absurd h hne⟩,
      fun h => not_not.1 fun hne => hplugged (h.2 hne).2⟩
  · exact ⟨fun _ => ⟨fun _ => hbounds, fun _ => ⟨hlanded.1, hplugged⟩⟩, fun _ => .inl ⟨_, rfl⟩⟩

/-- **Checking settings is all or nothing**, exactly if the checks that come after the output
directory do not fail: the time in seconds is a word, and, if a directory is made at all, all of it
can be made and the directory of plugins is there. -/
theorem resolve_allOrNothing_iff (host : Host) (w : World) (l : Layer) :
    AllOrNothing w ((resolve l).run host w) ↔
      (Accepts w l → (Landed w l → InBounds l) ∧
        ((made w l).2 ≠ w.tree → (made w l).1 = .ok () ∧ Plugged w l)) := by
  by_cases haccepts : Accepts w l
  · obtain ⟨finish, -, hrun⟩ := (admits_resolve host w l).passes haccepts
    rw [hrun, make_allOrNothing_iff]
    simp [haccepts]
  · obtain ⟨f, hf⟩ := (admits_resolve host w l).refuses haccepts
    rw [hf]
    exact ⟨fun _ h => absurd h haccepts, fun _ => .inr ⟨f, rfl⟩⟩

/-- A refusal that leaves the output directory behind, and a time that is no word. -/
theorem refusal_leaves_directory :
    let refused := (resolve { bureauSettings with pluginDir := some "/missing" }).run .bare bureau
    let stopped :=
      (resolve { bureauSettings with timeoutMinutes := some (Word.bound - 1) }).run .bare bureau
    refused.1 = .error (.failure (.of (.missingDir "e9_plugin_dir" "/missing"))) ∧
      bureau.tree.isDir bureau.cwd "/out" = false ∧
      refused.2.tree.isDir bureau.cwd "/out" = true ∧
      stopped.1 = .error (.overflow .mul) := by
  decide +kernel

end Config

end PatchTriage
