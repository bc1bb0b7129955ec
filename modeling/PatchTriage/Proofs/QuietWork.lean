import PatchTriage.Proofs.FileWork
import PatchTriage.Run

/-!
# Work that notes no stage

How far the validation of a patch has got is noted by `Op.enter`, and only `Run.validatePatch` does
so.
-/

namespace PatchTriage

open Oracle SourceTree FailureLog List

def Op.isQuiet : Op → Bool
  | .enter _ _ => false
  | _ => true

/-- Whether a problem is one of the settings, found only when a patch is worked on. -/
def Problem.isBelated : Problem → Bool
  | notForDebugger _ | notForEditor _ | noSourceConfigured _ | noSourceDir | noBinary | noOracle =>
    true
  | _ => false

def Stop.isBelated : Stop → Bool
  | failure f => f.chain.any Problem.isBelated
  | overflow _ => false

namespace Job

variable {α β : Type} {P : Op → Prop} {work : Job α}

theorem uses_fail_bind (f : Failure) (next : α → Job β) : Uses P (fail f >>= next) := trivial

theorem Gives.ite {Q : α → Prop} {c : Prop} [Decidable c] {work' : Job α} (h : Gives Q work)
    (h' : Gives Q work') : Gives Q (if c then work else work') := by
  split
  · exact h
  · exact h'

theorem gives_fail {Q : α → Prop} (f : Failure) : Gives Q (fail f) :=
  fun _ _ ha => absurd ha not_ends_fail

theorem gives_fail_bind {Q : β → Prop} (f : Failure) (next : α → Job β) :
    Gives Q (fail f >>= next) :=
  gives_fail f

theorem uses_lift (x : Except Failure α) : Uses P (lift x) := by cases x <;> trivial

theorem Uses.attempt (h : Uses P work) : Uses P (attempt work) := by
  refine Action.Uses.bind (h.bind fun a => uses_pure (Except.ok a)) fun x => ?_
  rcases x with (f | o) | a <;> trivial

theorem Uses.orElseAfter {cleanup : Job Unit} (hc : Uses P cleanup) (h : Uses P work) :
    Uses P (orElseAfter cleanup work) := by
  refine Action.Uses.bind h fun x => ?_
  cases x with
  | ok a => trivial
  | error e => exact hc.bind fun _ => trivial

theorem uses_foldlM {f : β → α → Job β} (h : ∀ b a, Uses P (f b a)) (l : List α) (b : β) :
    Uses P (l.foldlM f b) := by
  induction l generalizing b with
  | nil => exact uses_pure _
  | cons a l ih =>
    rw [foldlM_cons]
    exact (h b a).bind ih

theorem uses_forIn {f : α → β → Job (ForInStep β)} {l : List α} (h : ∀ a ∈ l, ∀ b, Uses P (f a b))
    (b : β) : Uses P (forIn l b f) := by
  induction l generalizing b with
  | nil => exact uses_pure _
  | cons a l ih =>
    obtain ⟨ha, hl⟩ := forall_mem_cons.1 h
    rw [forIn_cons]
    refine (ha b).bind fun next => ?_
    cases next with
    | done b => exact uses_pure _
    | yield b => exact ih hl b

/-- Whatever the answers are, the work notes no stage. -/
abbrev Quiet (work : Job α) : Prop := Uses (fun o => o.isQuiet = true) work

theorem OnFiles.quiet (h : OnFiles work) : Quiet work :=
  h.mono fun o ho => by cases o <;> first | rfl | cases ho

/-- A property of work that goes over from the parts to the whole. Operations that note no stage
have it, and so have failures that are not problems of the settings. -/
structure Inherited (P : (α : Type) → Job α → Prop) : Prop where
  pure {α : Type} (a : α) : P α (pure a)
  op {o : Op} (ho : o.isQuiet = true) : P _ (op o)
  fail {α : Type} {f : Failure} (hf : (Stop.failure f).isBelated = false) : P α (fail f)
  bind {α β : Type} {work : Job α} {next : α → Job β} (hw : P α work) (hnext : ∀ a, P β (next a)) :
    P β (work >>= next)
  explain {α : Type} {p : Problem} {work : Job α} (hp : p.isBelated = false) (hw : P α work) :
    P α (explain p work)
  attempt {α : Type} {work : Job α} (hw : P α work) : P _ (attempt work)
  orElseAfter {α : Type} {cleanup : Job Unit} {work : Job α} (hcleanup : P _ cleanup)
    (hw : P α work) :
    P α (orElseAfter cleanup work)
  onFiles {α : Type} {work : Job α} (hw : OnFiles work) (hsure : Sure work) : P α work

theorem inherited_quiet : Inherited @Quiet where
  pure _ := trivial
  op ho := uses_op.2 ho
  fail _ := uses_fail _
  bind hw hnext := hw.bind hnext
  explain _ hw := .explain _ hw
  attempt hw := hw.attempt
  orElseAfter hcleanup hw := hcleanup.orElseAfter hw
  onFiles hw _ := hw.quiet

theorem quiet_pure (a : α) : Quiet (pure a) := trivial

theorem quiet_op {o : Op} (h : o.isQuiet = true) : Quiet (op o) := uses_op.2 h

section Operations

variable {P : (α : Type) → Job α → Prop} (h : Inherited P) {p : Path}

theorem inherited_ite {c : Prop} [Decidable c] {work work' : Job α} (hw : P α work)
    (hw' : P α work') :
    P α (if c then work else work') := by
  split
  · exact hw
  · exact hw'

include h

theorem inherited_mapM {f : α → Job β} (hf : ∀ a, P β (f a)) (l : List α) : P _ (l.mapM f) := by
  induction l with
  | nil => exact h.pure _
  | cons a l ih =>
    rw [mapM_cons]
    exact h.bind (hf a) fun _ => h.bind ih fun _ => h.pure _

theorem inherited_forIn {f : α → β → Job (ForInStep β)} (hf : ∀ a b, P _ (f a b))
    (l : List α) (b : β) :
    P _ (forIn l b f) := by
  induction l generalizing b with
  | nil => exact h.pure _
  | cons a l ih =>
    rw [forIn_cons]
    refine h.bind (hf a b) fun next => ?_
    cases next with
    | done b => exact h.pure _
    | yield b => exact ih b

theorem inherited_op_reply {o : Op} (ho : o.isQuiet = true) {f : o.Reply → Except IoError α} :
    P _ (op o >>= fun r => reply (f r)) := by
  refine h.bind (h.op ho) fun r => ?_
  cases f r with
  | ok a => exact h.pure a
  | error e => exact h.fail rfl

theorem inherited_isFile : P _ (isFile p) := h.op (o := .isFile p) rfl

theorem inherited_readText : P _ (readText p) := by
  refine h.bind (inherited_op_reply h rfl) fun bytes => ?_
  split
  · exact h.pure _
  · exact h.fail rfl

theorem inherited_writeText (t : Text) : P _ (writeText p t) :=
  h.explain rfl (inherited_op_reply h rfl)

theorem inherited_ensureDir : P _ (ensureDir p) := h.explain rfl (inherited_op_reply h rfl)

theorem inherited_removeStale : P _ (removeStale p) := h.bind (h.op rfl) fun _ => h.pure _

theorem inherited_command {c : Invocation} {limit : Nat} {cancellable : Bool} :
    P _ (command c limit cancellable) := h.explain rfl (inherited_op_reply h rfl)

theorem inherited_scriptCommand : P _ (scriptCommand p) := by
  refine h.bind (h.op rfl) fun isExecutable => ?_
  cases isExecutable with
  | true | false => exact h.pure _

theorem inherited_record {l : Layout} {patchId context : Text} {o : Output} :
    P _ (record l patchId context o) :=
  h.onFiles onFiles_record sure_record

end Operations

section Operations

variable {p : Path}

theorem quiet_isFile : Quiet (isFile p) := inherited_isFile inherited_quiet

theorem quiet_readText : Quiet (readText p) := inherited_readText inherited_quiet

theorem quiet_ensureDir : Quiet (ensureDir p) := inherited_ensureDir inherited_quiet

theorem quiet_removeStale : Quiet (removeStale p) := inherited_removeStale inherited_quiet

theorem quiet_command {c : Invocation} {limit : Nat} {cancellable : Bool} :
    Quiet (command c limit cancellable) := inherited_command inherited_quiet

theorem quiet_scriptCommand : Quiet (scriptCommand p) := inherited_scriptCommand inherited_quiet

end Operations

end Job

/-! ## What is done with files and commands -/

open Job

namespace Oracle

variable {s : Setup} {patchId test : Text} {env : List (Text × Text)} {cancellable : Bool}
    {binary out : Path}

section

variable {P : (α : Type) → Job α → Prop} (h : Inherited P) (hlack : P Invocation (refuse .noOracle))

include h

theorem inherited_writeWrapper (p : Path) (commandLine : Text) : P _ (writeWrapper p commandLine) :=
  h.bind (inherited_writeText h _) fun _ => h.explain rfl (inherited_op_reply h rfl)

theorem inherited_instrument : P _ (instrument s binary out) := by
  have hrefuse {α : Type} (p : Problem) (hp : p.isBelated = false) (next : PUnit → Job α) :
      P α (refuse p >>= next) :=
        h.fail (f := .of p) (by simpa [Stop.isBelated, Failure.of] using hp)
  have hmade : P _ (explain .runInstrumenter
      (command { program := "e9afl", args := [binary, "-o", out] } s.taskLimit false)) :=
    h.explain rfl (inherited_command h)
  rw [instrument]
  split
  · exact h.bind (inherited_ensureDir h) fun _ => h.bind hmade fun _ =>
      inherited_ite (hrefuse _ rfl _) <| h.bind (inherited_isFile h) fun _ =>
        inherited_ite (hrefuse _ rfl _) (h.pure _)
  · exact h.bind hmade fun _ =>
      inherited_ite (hrefuse _ rfl _) <| h.bind (inherited_isFile h) fun _ =>
        inherited_ite (hrefuse _ rfl _) (h.pure _)

include hlack

theorem inherited_run (program : Option Path) : P _ (run s test program env cancellable) := by
  refine h.bind ?_ fun _ => inherited_command h
  rw [invocation]
  split
  · exact h.bind (inherited_scriptCommand h) fun _ => h.pure _
  · exact h.bind (inherited_scriptCommand h) fun _ => h.pure _
  · exact hlack

theorem inherited_binaryCoverage (inner : Text) :
    P _ (binaryCoverage s patchId test inner out cancellable) :=
  h.bind (inherited_ensureDir h) fun _ => h.bind (inherited_writeWrapper h _ _) fun _ =>
    h.bind (inherited_removeStale h) fun _ => h.bind (inherited_run h hlack _) fun _ =>
      inherited_isFile h

theorem inherited_suiteCoverage : P _ (suiteCoverage s test env out cancellable) :=
  h.bind (inherited_removeStale h) fun _ => h.bind (inherited_run h hlack _) fun _ =>
    inherited_isFile h

end

theorem quiet_run (program : Option Path) : Quiet (run s test program env cancellable) :=
  inherited_run inherited_quiet (uses_fail _) program

theorem quiet_binaryCoverage (inner : Text) :
    Quiet (binaryCoverage s patchId test inner out cancellable) :=
  inherited_binaryCoverage inherited_quiet (uses_fail _) inner

theorem quiet_suiteCoverage : Quiet (suiteCoverage s test env out cancellable) :=
  inherited_suiteCoverage inherited_quiet (uses_fail _)

theorem quiet_instrument? : Quiet (instrument? s binary out) :=
  (inherited_instrument inherited_quiet).attempt.bind fun _ => quiet_pure _

theorem quiet_instrumentedBinary? : Quiet (instrumentedBinary? s) := by
  refine (quiet_op rfl).bind fun known => ?_
  split
  · exact quiet_pure _
  · split
    · exact (quiet_pure _).bind fun _ => (quiet_op rfl).bind fun _ => quiet_pure _
    · exact quiet_instrument?.bind fun _ => (quiet_op rfl).bind fun _ => quiet_pure _

end Oracle

/-! ## Staged programs -/

structure Program.Quiet (p : Program) : Prop where
  runTest : ∀ test, Job.Quiet (p.runTest test)
  coverage : ∀ test out, Job.Quiet (p.coverage test out)
  trace : ∀ test patched unpatched, Job.Quiet (p.trace test patched unpatched)
  release : Job.Quiet p.release

def Staged.Quiet : Staged → Prop
  | .ready p => p.Quiet
  | _ => True

namespace UnderDebugger

variable {s : Setup} {p : Patch} {compiled : List Compiled} {scripts : ScriptSet} {test : Text}

theorem quiet_invoke : Quiet (invoke s p test scripts) := by
  rw [invoke]
  split
  · exact quiet_run _
  · exact quiet_run _

theorem quiet_runPlain : Quiet (runPlain s p scripts test) :=
  quiet_invoke.bind fun _ => onFiles_settle.quiet

theorem quiet_runForSignature : Quiet (runForSignature s p compiled test) :=
  quiet_ensureDir.bind fun _ => quiet_removeStale.bind fun _ => quiet_removeStale.bind fun _ =>
    quiet_removeStale.bind fun _ => (onFiles_write _ _).quiet.bind fun _ =>
      quiet_invoke.bind fun _ => Dump.uses_signature (fun _ => rfl) (fun _ => rfl) _ _

theorem quiet_runCached {c : Verdicts} {partition : Text} :
    Quiet (runCached s p compiled scripts c partition test) := by
  refine quiet_isFile.bind fun _ => .ite quiet_runPlain ?_
  refine quiet_runForSignature.bind fun signature => ?_
  cases signature with
  | none => exact quiet_runPlain
  | some signature =>
    refine Verdicts.onFiles_lookup.quiet.bind fun verdict => ?_
    cases verdict with
    | some verdict => exact quiet_pure _
    | none =>
      have hlocation : Quiet (runForLocation s p compiled test) :=
        (onFiles_write _ _).quiet.bind fun _ => quiet_invoke
      refine hlocation.bind fun o => onFiles_settle.quiet.bind fun outcome => ?_
      exact .ite (quiet_pure _) (onFiles_recordVerdict.quiet.bind fun _ => quiet_pure _)

theorem quiet_runTest : Quiet (runTest s p compiled scripts test) := by
  rw [runTest]
  split
  · exact quiet_runCached
  · exact quiet_runPlain

theorem quiet_coverage {out : Path} : Quiet (coverage s p scripts test out) := by
  refine .ite quiet_suiteCoverage ?_
  refine quiet_instrumentedBinary?.bind fun binary => ?_
  cases binary with
  | none => exact quiet_pure _
  | some binary => exact quiet_binaryCoverage _

theorem quiet_trace {patched unpatched : Path} :
    Quiet (trace s p compiled scripts test patched unpatched) := by
  refine .ite (quiet_pure _) ?_
  refine Uses.bind (uses_forIn (fun _ _ _ => ?_) _) fun _ => ?_
  · exact quiet_removeStale.bind fun _ => (onFiles_write _ _).quiet.bind fun _ =>
      quiet_invoke.bind fun _ => quiet_pure _
  · exact quiet_isFile.bind fun _ => .ite (quiet_pure _) quiet_isFile

theorem inherited_stage {P : (α : Type) → Job α → Prop} (h : Inherited P)
    (hlack : p.requiresRecompilation = true → P Staged (refuse (.notForDebugger p.id))) :
    P _ (stage s p) := by
  have hwrite (stem text : Text) : P _ (ScriptSet.write s stem text) := by
    refine h.bind (inherited_ensureDir h) fun _ => h.bind (inherited_writeText h _) fun _ => ?_
    split
    · exact h.pure _
    · exact h.bind (inherited_writeWrapper h _ _) fun _ => h.pure _
  rw [stage]
  split
  · exact hlack ‹_›
  · dsimp only
    split
    · exact h.pure _
    · exact h.bind (hwrite _ _) fun _ => h.pure _

theorem gives_stage : Gives Staged.Quiet (stage s p) :=
  .ite (gives_fail_bind _ _) <| .ite (gives_pure trivial) <| .bind fun _ => gives_pure
    { runTest := fun _ => quiet_runTest
      coverage := fun _ _ => quiet_coverage
      trace := fun _ _ _ => quiet_trace
      release := quiet_pure _ }

end UnderDebugger

namespace InBinary

variable {s : Setup} {p : Patch} {binary out : Path} {test : Text}

theorem quiet_runTest : Quiet (runTest s p binary test) :=
  (quiet_run _).bind fun _ => onFiles_settle.quiet

theorem quiet_coverage : Quiet (coverage s p binary test out) :=
  quiet_isFile.bind fun _ => .ite
    (quiet_instrument?.bind fun _ => .ite (quiet_pure _) (quiet_binaryCoverage _))
    (quiet_binaryCoverage _)

theorem quiet_program (out : Path) : Program.Quiet {
    runTest := runTest s p out
    candidate := { path := out, env := [(patchIdVariable, p.id)] }
    coverage := coverage s p out } where
  runTest _ := quiet_runTest
  coverage _ _ := quiet_coverage
  trace _ _ _ := quiet_pure _
  release := quiet_pure _

theorem inherited_stage {P : (α : Type) → Job α → Prop} (h : Inherited P)
    (hlack : p.requiresRecompilation = true → P Staged (refuse (.notForEditor p.id)))
    (hbinary : s.config.binary = none → P Staged (refuse .noBinary)) : P _ (stage s p) := by
  have hcommand (q : Problem) (hq : q.isBelated = false) {c : Invocation} {limit : Nat} :
      P _ (explain q (command c limit true)) := h.explain hq (inherited_command h)
  have hmade (made : Bool) (o : Output) (staged : Staged) : P _ (
      if !made then do
        record s.layout p.id "rewrite" o
        return .buildFailed ("e9tool failed: " ++ Text.trim o.excerpt)
      else pure staged) :=
    inherited_ite (h.bind (inherited_record h) fun _ => h.pure _) (h.pure _)
  rw [stage]
  split
  · exact hlack ‹_›
  · dsimp only
    split
    · split
      · refine h.bind (h.bind (hcommand _ rfl) fun _ => h.pure _) fun address => ?_
        split
        · exact h.bind (inherited_ensureDir h) fun _ => h.bind (hcommand _ rfl) fun _ =>
            inherited_ite (h.bind (inherited_isFile h) fun _ => hmade _ _ _)
              (h.bind (h.pure _) fun _ => hmade _ _ _)
        · exact h.pure _
      · rename_i hnone
        exact hbinary (Option.eq_none_iff_forall_not_mem.2 hnone)
    · exact h.pure _

theorem gives_stage : Gives Staged.Quiet (stage s p) := by
  refine .ite (gives_fail_bind _ _) ?_
  split
  · split
    · refine .bind fun address => ?_
      split
      · have hmade (made : Bool) (o : Output) {program : Program} (h : program.Quiet) :
            Gives Staged.Quiet (
              if !made then do
                record s.layout p.id "rewrite" o
                return .buildFailed ("e9tool failed: " ++ Text.trim o.excerpt)
              else pure (.ready program)) :=
          .ite (.bind fun _ => gives_pure trivial) (gives_pure h)
        exact .bind fun _ => .bind fun _ =>
          .ite (.bind fun _ => hmade _ _ (quiet_program _))
            (.bind fun _ => hmade _ _ (quiet_program _))
      · exact gives_pure trivial
    · exact gives_fail _
  · exact gives_pure trivial

end InBinary

namespace SourceTree

variable {P : (α : Type) → Job α → Prop} (h : Inherited P) {dir : Path}

include h

theorem inherited_filesUpTo (keep : Path → Bool) (depth : Nat) (dir : Path) :
    P _ (filesUpTo keep depth dir) := by
  induction depth generalizing dir with
  | zero => exact h.pure _
  | succ depth ih =>
    refine h.bind (h.op rfl) fun entries => ?_
    cases entries with
    | error e => exact h.pure _
    | ok entries =>
      refine h.bind (inherited_mapM h (fun (name, isDir) => ?_) entries) fun _ => h.pure _
      exact inherited_ite (inherited_ite (h.pure _) (ih _)) (h.pure _)

theorem inherited_files (keep : Path → Bool) : P _ (files dir keep) :=
  h.bind (inherited_filesUpTo h keep _ dir) fun _ => h.pure _

theorem inherited_artifacts : P _ (artifacts dir) :=
  h.bind (inherited_files h _) fun _ => h.bind (inherited_files h _) fun _ => h.pure _

theorem inherited_removeNew (extension : Text) (before : List Path) :
    P _ (removeNew dir extension before) :=
  h.bind (inherited_files h _) fun _ => h.bind (inherited_forIn h (fun _ _ =>
      inherited_ite (h.pure _) (h.bind (inherited_removeStale h) fun _ => h.pure _)) _ _)
    fun _ => h.pure _

theorem inherited_restore (before : Artifacts) : P _ (restore dir before) :=
  h.bind (inherited_files h _) fun _ => h.bind
    (inherited_forIn h (fun _ _ =>
      inherited_ite (h.pure _) (h.bind (h.op rfl) fun _ => h.pure _)) _ _)
    fun _ => inherited_removeNew h _ _

end SourceTree

namespace FromSource

variable {s : Setup} {p : Patch} {test : Text}

section

variable {P : (α : Type) → Job α → Prop} (h : Inherited P)
  (hlack : s.config.sourceDir = none → P Path (refuse .noSourceDir))

include h

theorem inherited_configured? (template : Option Text) (script : Option Path) :
    P _ (configured? template script p) := by
  rw [configured?.eq_def]
  split
  · rename_i template _
    refine h.bind ?_ fun _ => h.pure _
    rw [Template.instantiate.eq_def]
    split
    · exact h.fail rfl
    · split
      · exact h.fail rfl
      · exact h.pure _
  · exact h.bind (inherited_scriptCommand h) fun _ => h.pure _
  · exact h.pure _

include hlack

theorem inherited_sourceDir : P _ (sourceDir s) := by
  rw [sourceDir]
  split
  · exact h.pure _
  · exact hlack ‹_›

theorem inherited_runInTree {c : Invocation} {limit : Nat} {cancellable : Bool} :
    P _ (runInTree s c limit cancellable) :=
  h.bind (inherited_sourceDir h hlack) fun _ => inherited_command h

theorem inherited_targetFile? : P _ (targetFile? s p) := by
  refine h.bind (inherited_sourceDir h hlack) fun dir => ?_
  split
  · exact h.pure _
  · split
    · exact h.bind (inherited_files h _) fun _ => h.pure _
    · exact h.pure _

theorem inherited_diffPatch (reverse unified cancellable : Bool) :
    P _ (diffPatch s p reverse unified cancellable) :=
  h.bind (inherited_sourceDir h hlack) fun _ => h.bind (inherited_artifacts h) fun _ =>
    h.bind (inherited_targetFile? h hlack) fun _ => h.bind (inherited_runInTree h hlack) fun _ =>
      inherited_ite (h.pure _) <| h.bind (inherited_record h) fun _ =>
        h.bind (inherited_restore h _) fun _ => h.pure _

theorem inherited_apply : P _ (apply s p) := by
  refine h.bind (inherited_configured? h _ _) fun command => ?_
  split
  · exact h.bind (inherited_runInTree h hlack) fun _ =>
      inherited_ite (h.pure _) (h.bind (inherited_record h) fun _ => h.pure _)
  · exact h.bind (inherited_diffPatch h hlack _ _ _) fun _ => inherited_ite (h.pure _) <|
      h.bind (inherited_diffPatch h hlack _ _ _) fun _ => inherited_ite (h.pure _) (h.pure _)

theorem inherited_revert (unified : Bool) : P _ (revert s p unified) := by
  refine h.bind (inherited_configured? h _ _) fun command => ?_
  split
  · exact h.bind (inherited_runInTree h hlack) fun _ =>
      inherited_ite (h.pure _) (h.bind (inherited_record h) fun _ => h.pure _)
  · exact h.bind (inherited_diffPatch h hlack _ _ _) fun _ =>
      inherited_ite (h.pure _) (inherited_diffPatch h hlack _ _ _)

theorem inherited_buildCommand : P _ (buildCommand s) := by
  rw [buildCommand]
  split
  · exact h.bind (inherited_scriptCommand h) fun _ => h.bind (inherited_sourceDir h hlack)
      fun _ => h.pure _
  · split
    · exact h.bind (h.pure _) fun _ => h.pure _
    · exact h.bind (inherited_sourceDir h hlack) fun _ => h.pure _

theorem inherited_configure : P _ (configure s) := by
  rw [configure]
  split
  · exact h.bind (h.op rfl) fun _ =>
      inherited_ite (h.pure _) <| h.bind (inherited_scriptCommand h) fun _ =>
        h.bind (inherited_runInTree h hlack) fun _ => h.op (o := .setConfigured) rfl
  · exact h.pure _

theorem inherited_build : P _ (build s p) :=
  h.bind (inherited_configure h hlack) fun _ => h.bind (inherited_buildCommand h hlack) fun _ =>
    h.bind (h.explain rfl (inherited_command h)) fun _ => inherited_ite (h.pure _) <|
      h.bind (inherited_record h) fun _ => h.pure _

theorem inherited_release {dir : Path} {unified : Bool} {before : Artifacts} :
    P _ (release s p dir unified before) := by
  refine h.bind (h.attempt (inherited_revert h hlack unified)) fun reverted => ?_
  split
  · exact h.bind (inherited_removeNew h _ _) fun _ => h.op (o := .unlockSource) rfl
  · exact h.op (o := .unlockSource) rfl

theorem inherited_stage : P _ (stage s p) := by
  refine h.bind (inherited_sourceDir h hlack) fun dir =>
    h.bind (h.op (o := .lockSource) rfl) fun _ =>
    h.bind (inherited_artifacts h) fun before =>
      h.bind (h.orElseAfter (h.op (o := .unlockSource) rfl) (inherited_apply h hlack))
        fun applied => ?_
  cases applied with
  | none => exact h.bind (h.op (o := .unlockSource) rfl) fun _ => h.pure _
  | some unified =>
    have hrelease : P _ (release s p dir unified before) := inherited_release h hlack
    refine h.bind (h.orElseAfter hrelease (inherited_build h hlack)) fun built => ?_
    cases built with
    | some reason => exact h.bind hrelease fun _ => h.pure _
    | none => exact h.pure _

end

theorem quiet_runTest : Quiet (runTest s p test) := (quiet_run _).bind fun _ => onFiles_settle.quiet

theorem quiet_coverage {out : Path} : Quiet (coverage s p test out) := by
  rw [coverage]
  split
  · exact quiet_suiteCoverage
  · exact quiet_isFile.bind fun _ => .ite
      (quiet_instrument?.bind fun _ => .ite (quiet_pure _) (quiet_binaryCoverage _))
      (quiet_binaryCoverage _)

theorem gives_stage : Gives Staged.Quiet (stage s p) := by
  refine .bind fun dir => .bind fun _ => .bind fun before => .bind fun applied => ?_
  cases applied with
  | none => exact .bind fun _ => gives_pure trivial
  | some unified =>
    refine .bind fun built => ?_
    cases built with
    | some reason => exact .bind fun _ => gives_pure trivial
    | none =>
      exact gives_pure
        { runTest := fun _ => quiet_runTest
          coverage := fun _ _ => quiet_coverage
          trace := fun _ _ _ => quiet_pure _
          release := inherited_release inherited_quiet fun _ => uses_fail _ }

end FromSource

/-! ## Gates and evidence -/

theorem Validation.quiet_runTests {tests : List (Job TestOutcome)} (h : ∀ test ∈ tests, Quiet test)
    (results : TestResults) : Quiet (runTests results tests) := by
  induction tests generalizing results with
  | nil => exact quiet_pure _
  | cons test tests ih =>
    rw [forall_mem_cons] at h
    exact (quiet_op rfl).bind fun _ => .ite (quiet_pure _) <| h.1.bind fun _ =>
      .ite (ih h.2 _) (quiet_pure _)

theorem Validation.quiet_run {staged : Staged} (h : staged.Quiet) (tests : List Text) :
    Quiet (run staged tests) := by
  cases staged with
  | applyFailed reason | buildFailed reason => exact quiet_pure _
  | ready p =>
    have htests : ∀ test ∈ tests.map p.runTest, Quiet test := by
      simpa using fun test _ => h.runTest test
    exact (h.release.orElseAfter (quiet_runTests htests _)).bind fun _ => quiet_pure _

theorem Validation.gives_run {staged : Staged} (h : staged.Quiet) (tests : List Text) :
    Gives (fun v => ∀ p, v.program = some p → p.Quiet) (run staged tests) := by
  cases staged with
  | applyFailed reason | buildFailed reason => exact gives_pure nofun
  | ready p =>
    refine .bind fun _ => gives_pure ?_
    rintro _ ⟨⟩
    exact h

namespace Gate

variable {s : Setup} {patchId : Text} {p : Program}

theorem quiet_runTier {tier : Tier} : Quiet (runTier s patchId tier p) := by
  rw [runTier]
  split
  · exact quiet_scriptCommand.bind fun _ => quiet_command.bind fun _ =>
      .ite (quiet_pure _) (onFiles_record.quiet.bind fun _ => quiet_pure _)
  · exact quiet_pure _

theorem quiet_throughTiers (tiers : List Tier) : Quiet (throughTiers s patchId p tiers) := by
  induction tiers with
  | nil => exact quiet_pure _
  | cons tier tiers ih => exact quiet_runTier.bind fun _ => .ite ih (quiet_pure _)

theorem quiet_classify {v : Validation} (h : ∀ p, v.program = some p → p.Quiet) (count : Nat) :
    Quiet (classify s patchId count v) := by
  rw [classify]
  split
  · exact quiet_pure _
  · exact quiet_pure _
  · exact quiet_pure _
  · rename_i p _ hp
    have hrelease := (h p hp).release
    exact .ite ((hrelease.orElseAfter (quiet_throughTiers _)).bind fun _ => quiet_pure _)
      (hrelease.bind fun _ => quiet_pure _)

theorem gives_classify {v : Validation} (h : ∀ p, v.program = some p → p.Quiet) (count : Nat) :
    Gives (fun c => ∀ p, c.program = some p → p.Quiet) (classify s patchId count v) := by
  rw [classify]
  split
  · exact gives_pure nofun
  · exact gives_pure nofun
  · exact gives_pure nofun
  · rename_i p _ hp
    refine .ite (.bind fun _ => gives_pure ?_) (.bind fun _ => gives_pure nofun)
    rintro _ ⟨⟩
    exact h p hp

end Gate

namespace Evidence

variable {s : Setup} {p : Patch} {program : Program}

theorem quiet_coverages {record : Text → Path → Job Bool} (h : ∀ test out, Quiet (record test out))
    (id : Text) (tests : List Text) : Quiet (coverages s id record tests) := by
  refine uses_foldlM (fun found test => ?_) _ _
  have hread (out : Path) : Quiet (readCoverage (record test out) out) :=
    ((h test out).bind fun _ =>
      .ite (quiet_readText.bind fun _ => quiet_pure _) (quiet_pure _)).attempt.bind
        fun _ => quiet_pure _
  refine (hread _).bind fun c => ?_
  split
  · exact quiet_pure _
  · exact quiet_pure _

theorem quiet_readTraces (h : program.Quiet) (test : Text) : Quiet (readTraces s p program test) :=
  ((h.trace _ _ _).bind fun _ =>
    .ite (quiet_readText.bind fun _ => quiet_readText.bind fun _ => quiet_pure _)
    (quiet_pure _)).attempt.bind fun _ => quiet_pure _

theorem quiet_collect (h : program.Quiet) : Quiet (collect s p program) := by
  refine quiet_ensureDir.attempt.bind fun made => ?_
  split
  · refine (quiet_coverages h.coverage _ _).bind fun _ => .ite ?_ (quiet_pure _)
    refine quiet_ensureDir.attempt.bind fun made => ?_
    split
    · refine (uses_foldlM (fun found test => ?_) _ _).bind fun _ => quiet_pure _
      refine (quiet_readTraces h test).bind fun t => ?_
      split
      · exact quiet_pure _
      · exact quiet_pure _
    · exact quiet_pure _
  · exact quiet_pure _

end Evidence

namespace Run

variable {s : Setup} {p : Patch}

theorem quiet_stage (mode : PatchMode) : Quiet (stage s p mode) := by
  cases mode with
  | debugger => exact UnderDebugger.inherited_stage inherited_quiet fun _ => uses_fail _
  | editor =>
    exact InBinary.inherited_stage inherited_quiet (fun _ => uses_fail _) fun _ => uses_fail _
  | compiler => exact FromSource.inherited_stage inherited_quiet fun _ => uses_fail _

/-- **Staging gives quiet programs.** -/
theorem gives_stage (mode : PatchMode) : Gives Staged.Quiet (stage s p mode) := by
  cases mode with
  | debugger => exact UnderDebugger.gives_stage
  | editor => exact InBinary.gives_stage
  | compiler => exact FromSource.gives_stage

theorem quiet_evidence? {c : Classified} (h : ∀ program, c.program = some program → program.Quiet) :
    Quiet (evidence? s p c) := by
  rw [evidence?]
  split
  · rename_i program hprogram
    have hquiet := h program hprogram
    refine (hquiet.release.orElseAfter (.ite ?_ (quiet_pure _))).bind fun _ =>
      hquiet.release.bind fun _ => quiet_pure _
    exact (Evidence.quiet_collect hquiet).bind fun _ => quiet_pure _
  · exact quiet_pure _

end Run

end PatchTriage
