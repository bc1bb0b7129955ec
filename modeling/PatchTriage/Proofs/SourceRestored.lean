import PatchTriage.Proofs.Descents
import PatchTriage.Proofs.QuietWork

/-!
# The source tree after a patch

A patch that is built from source changes the source tree, which all patches share. With commands to
apply a patch and to reset the tree, it is put back by a reset that succeeds
(`FromSource.stage_restores`). But no reset follows a patch command that fails.
-/

namespace PatchTriage

open Job SourceTree Template

open FileTree

def FileTree.Agrees (S : Place) (W : Place → Prop) (t t' : FileTree) : Prop :=
  ∀ x, ¬ W x → t'.node? (S ++ x) = t.node? (S ++ x)

theorem FileTree.Agrees.trans {S : Place} {W : Place → Prop} {t t' t'' : FileTree}
    (h : Agrees S W t t') (h' : Agrees S W t' t'') : Agrees S W t t'' :=
  fun x hx => (h' x hx).trans (h x hx)

/-! ## Files with an extension -/

namespace SourceTree

variable {host : Host} {w : World} {t t' : FileTree} {cwd cwd' : Place} {dir : Path}
  {extension : Text} {path : Path}

def found (t : FileTree) (cwd : Place) (dir : Path) (extension : Text) : List Path :=
  SortedList.sort Path.compare (t.filesBelow cwd (fun name => !isHidden name)
    (fun p => Path.extension? p = some extension) maxPathLength dir)

def artifactsIn (w : World) (dir : Path) : Artifacts where
  backups := found w.tree w.cwd dir backupExtension
  rejects := found w.tree w.cwd dir rejectExtension

theorem run_withExtension : (withExtension dir extension).run host w =
    (.ok (found w.tree w.cwd dir extension), w) :=
  run_bind_of_ok (run_filesUpTo _ _ _)

theorem run_artifacts : (artifacts dir).run host w = (.ok (artifactsIn w dir), w) := by
  rw [artifacts, run_bind_of_ok run_withExtension, run_bind_of_ok run_withExtension]
  rfl

theorem mem_found (ht : t.Sound) (hdir : dir ≠ []) : path ∈ found t cwd dir extension ↔
    ∃ names, Below t cwd (fun name => !isHidden name) dir names ∧ path = Path.descend dir names ∧
      Path.extension? path = some extension := by
  rw [found, (SortedList.perm_sort _).mem_iff, mem_filesBelow ht hdir]
  simp

variable {S : Place} {W : Place → Prop}

/-- **What is found only in the one tree** is not in the other, or a directory there. -/
theorem found_only (hdir : Descends S dir []) (ht : t.Sound) (hroot : Rooted S t) (ht' : t'.Sound)
    (hroot' : Rooted S t') (hnew : path ∈ found t' cwd' dir extension)
    (hold : path ∉ found t cwd dir extension) :
    ∃ x, Stands S path x ∧ path = Path.descend dir x ∧ Path.extension? path = some extension ∧
      (t'.node? (S ++ x)).isSome ∧
      ∀ n, t.node? (S ++ x) = some n → n = .dir ∧ t'.node? (S ++ x) ≠ some .dir := by
  obtain ⟨x, hbelow, rfl, hext⟩ := (mem_found ht' hdir.ne_nil).1 hnew
  refine ⟨x, (hdir.descend (hbelow.isComponent ht')).stands, rfl, hext,
    hbelow.occupied ht' hroot' hdir, fun n hn => ?_⟩
  -- were there a file, or a directory in both trees, it would have been found before
  by_contra hnot
  refine hold ((mem_found ht hdir.ne_nil).2 ⟨x, ?_, rfl, hext⟩)
  refine hbelow.of_occupied ht' hroot' hroot ht.housed hdir (Option.isSome_of_mem hn) fun hd => ?_
  by_contra hd'
  exact hnot ⟨Option.some.inj (hn.symm.trans hd), hd'⟩

theorem agrees_removeNew (hdir : Descends S dir []) (ht : t.Proper) (hroot : Rooted S t)
    (hw : w.tree.Proper) (hwroot : Rooted S w.tree) (hagrees : Agrees S W t w.tree) :
    Agrees S W t ((removeNew dir extension (found t cwd dir extension)).run host w).2.tree := by
  have hremoves : ∀ path ∈ found w.tree w.cwd dir extension, ∀ u : PUnit, Job.Uses
      (Op.WritesAt S W fun _ => False) (do
        unless path ∈ found t cwd dir extension do removeStale path
        pure (ForInStep.yield u)) := by
    intro path hnew u
    by_cases hold : path ∈ found t cwd dir extension
    · rw [if_pos hold]
      exact uses_pure _
    · rw [if_neg hold]
      obtain ⟨x, hpath, -, -, hthere, hgone⟩ :=
        found_only hdir ht.sound hroot hw.sound hwroot hnew hold
      refine (uses_removeStale ⟨x, hpath, ?_⟩).bind fun _ => uses_pure _
      by_contra hx
      obtain ⟨n, hn⟩ := Option.isSome_iff_exists.1 hthere
      obtain ⟨rfl, hfile⟩ := hgone n ((hagrees x hx).symm.trans hn)
      exact hfile hn
  rw [removeNew, run_bind_of_ok run_withExtension]
  refine hagrees.trans fun x hx => ?_
  exact (Job.Uses.apart ((uses_forIn hremoves _).bind fun _ => uses_pure _) hwroot).same
    x hx not_false

end SourceTree

/-! ## Configured commands -/

def World.locked (w : World) : World := { w with clock := max w.clock w.sourceFreeAt }

namespace FromSource

variable {host : Host} {s : Setup} {p : Patch} {dir : Path} {w w' : World} {o : Output}
  {template : Option Text} {script : Option Path}

/-- A command that is configured as `template` or `script` is run in the source tree, from `w` to
`w'`, with the output `o`. -/
def Runs (host : Host) (s : Setup) (p : Patch) (template : Option Text) (script : Option Path)
    (limit : Nat) (cancellable : Bool) (w : World) (o : Output) (w' : World) : Prop :=
  ∃ c, (configured? template script p).run host w = (.ok (some c), w) ∧
    (runInTree s c limit cancellable).run host w = (.ok o, w')

def PatchRuns (host : Host) (s : Setup) (p : Patch) (w : World) (o : Output) (w' : World) : Prop :=
  Runs host s p s.config.sourceCommands.patchCommand s.config.sourceCommands.patchScript s.testLimit
    true w o w'

def ResetRuns (host : Host) (s : Setup) (p : Patch) (w : World) (o : Output) (w' : World) : Prop :=
  Runs host s p s.config.sourceCommands.resetCommand s.config.sourceCommands.resetScript s.taskLimit
    false w o w'

def Unreset (host : Host) (s : Setup) (p : Patch) (w : World) : Prop :=
  ∀ o w', ResetRuns host s p w o w' → o.success = false

/-- A patch for the source tree `S`, which is `t` before it. A command is configured to apply the
patch, and whenever the command that is configured to reset the tree succeeds, the tree is `t` again
but at places of `W`. -/
structure Resettable (host : Host) (s : Setup) (p : Patch) (dir : Path) (S : Place)
    (W : Place → Prop) (t : FileTree) : Prop where
  sourceDir : s.config.sourceDir = some dir
  descends : Descends S dir []
  proper : t.Proper
  rooted : Rooted S t
  patches : s.config.sourceCommands.patchCommand.isSome ∨ s.config.sourceCommands.patchScript.isSome
  restores : ∀ w o w', ResetRuns host s p w o w' → o.success = true →
    w'.tree.Proper ∧ Rooted S w'.tree ∧ Agrees S W t w'.tree

theorem run_configured? (h : template.isSome ∨ script.isSome) :
    (∃ e, (configured? template script p).run host w = (.error e, w)) ∨
      ∃ c, (configured? template script p).run host w = (.ok (some c), w) := by
  cases template with
  | some template =>
    show (∃ e, (lift (instantiate template p.path) >>= _).run host w = (.error e, w)) ∨
      ∃ c, (lift (instantiate template p.path) >>= _).run host w = (.ok (some c), w)
    cases instantiate template p.path with
    | ok words => exact .inr ⟨_, rfl⟩
    | error f => exact .inl ⟨_, rfl⟩
  | none =>
    cases script with
    | none => simp at h
    | some script =>
      obtain ⟨c, hc⟩ : ∃ c, (scriptCommand script).run host w = (.ok c, w) := by
        rw [scriptCommand, run_op_bind]
        split <;> exact ⟨_, rfl⟩
      exact .inr ⟨_, run_bind_of_ok hc⟩

theorem runInTree_eq (hdir : s.config.sourceDir = some dir) (c : Invocation) (limit : Nat)
    (cancellable : Bool) :
    runInTree s c limit cancellable = command { c with dir := some dir } limit cancellable := by
  rw [runInTree, sourceDir, hdir]
  rfl

/-! ## Releasing a program -/

variable {S : Place} {W : Place → Prop}

theorem run_revert (h : ResetRuns host s p w o w') (ho : o.success = true) (unified : Bool) :
    (revert s p unified).run host w = (.ok true, w') := by
  obtain ⟨c, hc, hrun⟩ := h
  rw [revert, run_bind_of_ok hc]
  show (runInTree s c s.taskLimit false >>= _).run host w = _
  rw [run_bind_of_ok hrun, ho]
  rfl

/-- **To release a program puts the source tree back**, if it can be reset. -/
theorem agrees_release (h : Resettable host s p dir S W w.tree) (unified : Bool) (w₁ : World) :
    Agrees S W w.tree ((release s p dir unified (artifactsIn w dir)).run host w₁).2.tree ∨
      Unreset host s p w₁ := by
  by_cases hreset : ∃ o w₂, ResetRuns host s p w₁ o w₂ ∧ o.success = true
  · obtain ⟨o, w₂, hruns, ho⟩ := hreset
    obtain ⟨hproper, hrooted, hagrees⟩ := h.restores w₁ o w₂ hruns ho
    refine .inl ?_
    rw [release, run_bind_of_ok (run_attempt_of_ok (run_revert hruns ho unified))]
    show Agrees S W w.tree ((removeNew _ _ _ >>= fun _ => op .unlockSource).run host w₂).2.tree
    rw [tree_run_bind fun _ _ => rfl]
    exact agrees_removeNew h.descends h.proper h.rooted hproper hrooted hagrees
  · refine .inr fun o w₂ hruns => ?_
    rw [← Bool.not_eq_true]
    exact fun ho => hreset ⟨o, w₂, hruns, ho⟩

/-! ## Staging -/

theorem run_apply_cases (hdir : s.config.sourceDir = some dir)
    (hpatch : s.config.sourceCommands.patchCommand.isSome ∨
      s.config.sourceCommands.patchScript.isSome) (w : World) :
    (∃ e, (apply s p).run host w = (.error e, w)) ∨ ∃ o w₁, PatchRuns host s p w o w₁ ∧
        (o.success = true ∧ (apply s p).run host w = (.ok (some true), w₁) ∨
          o.success = false ∧ (apply s p).run host w =
            (.ok none, ((FailureLog.record s.layout p.id "apply" o).run host w₁).2)) := by
  rw [apply]
  obtain ⟨e, he⟩ | ⟨c, hc⟩ := run_configured? hpatch
  · exact .inl ⟨e, run_bind_of_error he⟩
  · rw [run_bind_of_ok hc]
    show (∃ e, (runInTree s c s.testLimit true >>= _).run host w = _) ∨ ∃ o w₁, _ ∧
      (_ ∧ (runInTree s c s.testLimit true >>= _).run host w = _ ∨
        _ ∧ (runInTree s c s.testLimit true >>= _).run host w = _)
    rcases hrun : (runInTree s c s.testLimit true).run host w with ⟨e | o, w₁⟩
    · rw [run_bind_of_error hrun]
      rw [runInTree_eq hdir] at hrun
      rw [eq_of_run_command_error hrun]
      exact .inl ⟨e, rfl⟩
    · rw [run_bind_of_ok hrun]
      refine .inr ⟨o, w₁, ⟨c, hc, hrun⟩, ?_⟩
      cases ho : o.success with
      | true => exact .inl ⟨rfl, rfl⟩
      | false =>
        obtain ⟨u, hu⟩ := FailureLog.sure_record.run host w₁
        exact .inr ⟨rfl, run_bind_of_ok hu⟩

inductive Stages (host : Host) (s : Setup) (p : Patch) (dir : Path) (w : World) :
    Except Stop Staged × World → Prop
  | unstarted {e : Stop} {w' : World} : w'.tree = w.tree → Stages host s p dir w (.error e, w')
  | unapplied {reason : Text} {o : Output} {w₁ w' : World} : PatchRuns host s p w.locked o w₁ →
      o.success = false →
      w'.tree = ((FailureLog.record s.layout p.id "apply" o).run host w₁).2.tree →
      Stages host s p dir w (.ok (.applyFailed reason), w')
  | unbuilt {x : Except Stop Staged} {o : Output} {w₁ w' : World} :
      PatchRuns host s p w.locked o w₁ → o.success = true →
      (∀ program, x ≠ .ok (.ready program)) →
      w'.tree = ((release s p dir true (artifactsIn w dir)).run host
        ((build s p).run host w₁).2).2.tree →
      Stages host s p dir w (x, w')
  | ready {program : Program} {w' : World} :
    program.release = release s p dir true (artifactsIn w dir) →
      Stages host s p dir w (.ok (.ready program), w')

/-- **The ways in which staging ends.** -/
theorem stages_stage (hdir : s.config.sourceDir = some dir)
    (hpatch : s.config.sourceCommands.patchCommand.isSome ∨
      s.config.sourceCommands.patchScript.isSome) (w : World) :
    Stages host s p dir w ((stage s p).run host w) := by
  have hsource : (sourceDir s).run host w = (.ok dir, w) := by
    rw [sourceDir, hdir]
    rfl
  rw [stage, run_bind_of_ok hsource, run_op_bind]
  show Stages host s p dir w ((artifacts dir >>= _).run host w.locked)
  rw [run_bind_of_ok run_artifacts]
  obtain ⟨e, he⟩ | ⟨o, w₁, hruns, ⟨ho, happly⟩ | ⟨ho, happly⟩⟩ :=
    run_apply_cases hdir hpatch w.locked
  · obtain ⟨e', he'⟩ := run_orElseAfter_of_error (op .unlockSource) he
    rw [run_bind_of_error he']
    exact .unstarted rfl
  · rw [run_bind_of_ok (run_orElseAfter_of_ok happly)]
    rcases hbuild : (build s p).run host w₁ with ⟨e | reason, w₂⟩
    · obtain ⟨e', he'⟩ :=
        run_orElseAfter_of_error (release s p dir true (artifactsIn w.locked dir)) hbuild
      rw [run_bind_of_error he']
      exact .unbuilt hruns ho (by simp) (by rw [hbuild]; rfl)
    · rw [run_bind_of_ok (run_orElseAfter_of_ok hbuild)]
      cases reason with
      | none => exact .ready rfl
      | some reason =>
        rcases hrelease : (release s p dir true (artifactsIn w dir)).run host w₂ with
          ⟨e | u, w₃⟩
        · refine (run_bind_of_error hrelease : (release s p dir true _ >>= _).run host w₂ = _) ▸ ?_
          exact .unbuilt hruns ho (by simp) (by rw [hbuild, hrelease])
        · refine (run_bind_of_ok hrelease : (release s p dir true _ >>= _).run host w₂ = _) ▸ ?_
          exact .unbuilt hruns ho (by simp) (by rw [hbuild, hrelease])
  · rw [run_bind_of_ok (run_orElseAfter_of_ok happly)]
    exact .unapplied hruns ho rfl

def isReady : Except Stop Staged → Bool
  | .ok (.ready _) => true
  | _ => false

theorem isReady_iff {x : Except Stop Staged} :
    isReady x = true ↔ ∃ program, x = .ok (.ready program) := by
  rcases x with e | (reason | reason | program) <;> simp [isReady]

/-! ## The tree after staging -/

/-- **The source tree is put back, unless the patch command fails.**  A program that is ready puts
it back when it is released, whatever has been done by then; if none is ready, the tree is put back
already. In both cases it is left otherwise if the reset does not succeed. But after a patch command
that fails no reset is run: the tree is as the command has left it, with the failure logged. -/
theorem stage_restores (h : Resettable host s p dir S W w.tree) :
    (∀ program, ((stage s p).run host w).1 = .ok (.ready program) → ∀ w₁,
      Agrees S W w.tree (program.release.run host w₁).2.tree ∨ Unreset host s p w₁) ∧
    ((∀ program, ((stage s p).run host w).1 ≠ .ok (.ready program)) →
      Agrees S W w.tree ((stage s p).run host w).2.tree ∨
      ∃ o w₁, PatchRuns host s p w.locked o w₁ ∧
        (o.success = true ∧ Unreset host s p ((build s p).run host w₁).2 ∨
          o.success = false ∧ (∃ reason, ((stage s p).run host w).1 = .ok (.applyFailed reason)) ∧
            ((stage s p).run host w).2.tree =
              ((FailureLog.record s.layout p.id "apply" o).run host w₁).2.tree)) := by
  have hstages : Stages host s p dir w ((stage s p).run host w) :=
    stages_stage h.sourceDir h.patches w
  generalize (stage s p).run host w = staged at hstages ⊢
  cases hstages with
  | unstarted htree => exact ⟨by simp, fun _ => .inl fun x _ => by rw [htree]⟩
  | unapplied hruns ho htree =>
    exact ⟨by simp, fun _ => .inr ⟨_, _, hruns, .inr ⟨ho, ⟨_, rfl⟩, htree⟩⟩⟩
  | unbuilt hruns ho hnot htree =>
    refine ⟨fun program hready => absurd hready (hnot program), fun _ => ?_⟩
    rw [htree]
    exact (agrees_release h true _).imp_right fun hunreset => ⟨_, _, hruns, .inl ⟨ho, hunreset⟩⟩
  | ready hrelease =>
    refine ⟨fun program hready w₁ => ?_, fun hnot => absurd rfl (hnot _)⟩
    cases hready
    rw [hrelease]
    exact agrees_release h true w₁

def bench : World where
  tree :=
    [ (["src"], .dir), (["src", "f.c"], .file [] false), (["src", "f.c.orig"], .file [] false) ]
  cwd := []

def benchSetup : Setup := .ofConfig {
  sourceDir := some "/src"
  outputDir := "/out"
  sourceCommands := { patchCommand := some "edit PATCH_FILE", resetCommand := some "reset" } }

def benchDir : Place := ["src"]

def benchProduct : Place := ["g.orig"]

/-- The tree that a reset leaves, where what the build has made stays. -/
def benchReset : FileTree := bench.tree.put (benchDir ++ benchProduct) (.file [] false)

/-- A host where the patch command changes the file and exits with `code`. -/
def benchHost (code : Nat) : Host := fun start t =>
  if start.program = "edit" then
    .ok { tree := t.put ["src", "f.c"] (.file [120] false), exit := some (.code code) }
  else if start.program = "reset" then .ok { tree := benchReset, exit := some (.code 0) }
  else .ok { tree := t, exit := some (.code 0) }

def benchPatch : Patch := { id := "p", path := "/p" }

theorem run_configured?_bench (host : Host) (w : World) :
    (configured? (some "reset") none benchPatch).run host w =
      (.ok (some { program := "reset" }), w) := by
  have hwords : instantiate "reset" benchPatch.path = .ok ("reset", []) := by decide +kernel
  show (lift (instantiate "reset" benchPatch.path) >>= _).run _ _ = _
  rw [hwords]
  rfl

theorem resettable_bench (code : Nat) : Resettable (benchHost code) benchSetup benchPatch "/src"
    benchDir (· = benchProduct) bench.tree where
  sourceDir := rfl
  descends := ⟨⟨by decide, [], by decide, rfl⟩, by decide⟩
  proper := by decide +kernel
  rooted := rooted_of_entries (by decide +kernel) (by decide +kernel) (by decide +kernel)
  patches := .inl rfl
  restores := by
    rintro w o w' ⟨c, hc, hrun⟩ -
    cases (run_configured?_bench _ w).symm.trans hc
    have hcommand : runInTree benchSetup { program := "reset" } benchSetup.taskLimit false =
        command { program := "reset", dir := some "/src" } benchSetup.taskLimit false :=
      runInTree_eq rfl _ _ _
    rw [hcommand, run_command_eq_ok_iff] at hrun
    obtain ⟨start, r, hprogram, hr, htree⟩ := World.tree_of_runCommand hrun
    have hleft : benchHost code start w.tree =
        .ok { tree := benchReset, exit := some (.code 0) } := by
      rw [benchHost, hprogram]
      rfl
    obtain rfl := Except.ok.inj (hleft.symm.trans hr)
    rw [htree]
    refine ⟨by decide +kernel, ?_, ?_⟩
    · exact rooted_of_entries (by decide +kernel) (by decide +kernel) (by decide +kernel)
    · intro x hx
      exact node?_put_of_ne (fun heq => hx (List.append_cancel_left heq)) ..

def benchStaged : Except Stop Staged × World :=
  (stage benchSetup benchPatch).run (benchHost 0) bench

theorem stage_restores_bench :
    Resettable (benchHost 0) benchSetup benchPatch "/src" benchDir (· = benchProduct)
      bench.tree ∧
    ∃ program, benchStaged.1 = .ok (.ready program) ∧
      ¬ Unreset (benchHost 0) benchSetup benchPatch benchStaged.2 ∧
      Agrees benchDir (· = benchProduct) bench.tree
        (program.release.run (benchHost 0) benchStaged.2).2.tree := by
  obtain ⟨program, hready⟩ := isReady_iff.1 (by decide +kernel : isReady benchStaged.1 = true)
  have hreset : ¬ Unreset (benchHost 0) benchSetup benchPatch benchStaged.2 := by
    have hsuccess : ((runInTree benchSetup { program := "reset" } benchSetup.taskLimit false).run
        (benchHost 0) benchStaged.2).1.toOption.any Output.success = true := by
      decide +kernel
    rcases hrun : (runInTree benchSetup { program := "reset" } benchSetup.taskLimit false).run
      (benchHost 0) benchStaged.2 with ⟨e | o, w'⟩ <;> rw [hrun] at hsuccess
    · cases hsuccess
    · intro h
      have hfails := h o w' ⟨_, run_configured?_bench _ _, hrun⟩
      exact Bool.false_ne_true (hfails.symm.trans hsuccess)
  refine ⟨resettable_bench 0, program, hready, hreset, ?_⟩
  exact ((stage_restores (resettable_bench 0)).1 program hready benchStaged.2).resolve_right hreset

/-- What a patch command has changed stays if it fails, though a reset would put it back: there is
no program to be released. -/
theorem failed_patch_stays :
    Resettable (benchHost 1) benchSetup benchPatch "/src" benchDir (· = benchProduct)
      bench.tree ∧
    isReady ((stage benchSetup benchPatch).run (benchHost 1) bench).1 = false ∧
    ¬ Agrees benchDir (· = benchProduct) bench.tree
      ((stage benchSetup benchPatch).run (benchHost 1) bench).2.tree := by
  refine ⟨resettable_bench 1, by decide +kernel, fun h => ?_⟩
  exact absurd (h ["f.c"] (by decide)) (by decide +kernel)

end FromSource

end PatchTriage
