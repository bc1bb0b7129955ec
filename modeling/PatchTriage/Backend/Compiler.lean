import PatchTriage.Backend.Oracle
import PatchTriage.Backend.SourceTree
import PatchTriage.Patch.Basic
import PatchTriage.Template

/-!
# Patches compiled from source

The patch is applied to the source tree, and the program is built from it. The tree is kept for the
patch from then on until the program is released, which undoes the patch.
-/

namespace PatchTriage.FromSource

open Job SourceTree

variable (s : Setup)

def sourceDir (s : Setup) : Job Path :=
  match s.config.sourceDir with
  | some dir => return dir
  | none => refuse .noSourceDir

def runInTree (c : Invocation) (limit : Nat) (cancellable : Bool) : Job Output := do
  command { c with dir := some (← sourceDir s) } limit cancellable

/-- The configured command for a patch, if there is one: a template counts before a script. -/
def configured? (template : Option Text) (script : Option Path) (p : Patch) :
    Job (Option Invocation) := do
  match template, script with
  | some template, _ =>
    let (program, args) ← lift (Template.instantiate template p.path)
    return some { program, args }
  | none, some script =>
    let c ← scriptCommand script
    return some { c with args := c.args ++ [p.path] }
  | none, none => return none

variable (p : Patch)

def targetFile? : Job (Option Path) := do
  let dir ← sourceDir s
  if let some file := s.config.sourceFile then return some (Path.join dir file)
  match Path.fileName? p.sourceFile with
  | some name => findFile? dir name
  | none => return none

def patchArgs (reverse unified : Bool) (target : Option Path) : List Text :=
  let always : List Text := ["--ignore-whitespace", "-b", "-f"]
  let unifiedFlag : List Text := if unified then ["-u"] else []
  let reverseFlag : List Text := if reverse then ["-R"] else []
  always ++ unifiedFlag ++ reverseFlag ++ [target.getD "-p1", "-i", p.path]

/-- Applies or undoes a patch; what a failed attempt changed is put back. -/
def diffPatch (reverse unified cancellable : Bool) : Job Bool := do
  let dir ← sourceDir s
  let before ← artifacts dir
  let target ← targetFile? s p
  let o ← runInTree s { program := "patch", args := patchArgs p reverse unified target }
    s.testLimit cancellable
  if o.success then return true
  FailureLog.record s.layout p.id (if reverse then "revert" else "apply") o
  restore dir before
  return false

/-- Applies a patch, and tells whether it was read as a unified diff; none if it does not fit. -/
def apply (s : Setup) (p : Patch) : Job (Option Bool) := do
  let commands := s.config.sourceCommands
  if let some c ← configured? commands.patchCommand commands.patchScript p then
    let o ← runInTree s c s.testLimit true
    unless o.success do FailureLog.record s.layout p.id "apply" o
    return if o.success then some true else none
  if ← diffPatch s p false true true then return some true
  if ← diffPatch s p false false true then return some false
  return none

def revert (s : Setup) (p : Patch) (unified : Bool) : Job Bool := do
  let commands := s.config.sourceCommands
  if let some c ← configured? commands.resetCommand commands.resetScript p then
    let o ← runInTree s c s.taskLimit false
    unless o.success do FailureLog.record s.layout p.id "revert" o
    return o.success
  if ← diffPatch s p true unified false then return true
  diffPatch s p true (!unified) false

def buildCommand : Job Invocation := do
  match s.config.sourceCommands.buildScript with
  | some script =>
    let c ← scriptCommand script
    return { c with dir := some (← sourceDir s) }
  | none =>
    let dir ← match s.config.binary.bind Path.parent? with
      | some dir => pure dir
      | none => sourceDir s
    return { program := "make", dir := some dir }

/-- Configures the source tree before its first build. That it fails is no reason to stop. -/
def configure : Job Unit := do
  if let some script := s.config.sourceCommands.configScript then
    unless ← op .isConfigured do
      let _ ← runInTree s (← scriptCommand script) s.taskLimit true
      op .setConfigured

def build (s : Setup) (p : Patch) : Job (Option Text) := do
  configure s
  let c ← buildCommand s
  let o ← explain .runBuild (command c s.taskLimit true)
  if o.success then return none
  FailureLog.record s.layout p.id "build" o
  return some (if o.timedOut then "build timed out"
    else "build failed with exit code " ++ o.exitText)

def release (dir : Path) (unified : Bool) (before : Artifacts) : Job Unit := do
  if let .ok true ← attempt (revert s p unified) then removeNew dir backupExtension before.backups
  op .unlockSource

def runTest (test : Text) : Job TestOutcome := do
  let o ← Oracle.run s test s.config.binary [(patchIdVariable, p.id)] true
  Oracle.settle s p.id test o.success o

def coverage (test : Text) (out : Path) : Job Bool := do
  match s.config.binary with
  | none => Oracle.suiteCoverage s test [(patchIdVariable, p.id)] out true
  | some binary =>
    let counting := Path.join s.layout.instrumented (Text.pathSafe p.id)
    if !(← isFile counting) then
      if (← Oracle.instrument? s binary counting).isNone then return false
    Oracle.binaryCoverage s p.id test (Text.shellQuote counting) out true

def candidate : Candidate :=
  { path := (s.config.binary.or s.config.sourceDir).getD [], env := [(patchIdVariable, p.id)] }

def stage : Job Staged := do
  let dir ← sourceDir s
  op .lockSource
  let before ← artifacts dir
  match ← orElseAfter (op .unlockSource) (apply s p) with
  | none =>
    op .unlockSource
    return .applyFailed "patch does not apply to the source tree"
  | some unified =>
    let release := release s p dir unified before
    match ← orElseAfter release (build s p) with
    | some reason =>
      release
      return .buildFailed reason
    | none =>
      return .ready {
        runTest := runTest s p
        candidate := candidate s p
        coverage := coverage s p
        release }

end PatchTriage.FromSource
