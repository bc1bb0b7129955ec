import PatchTriage.Settings.Layer
import PatchTriage.Settings.Mode
import PatchTriage.World.Action

/-!
# Settings of a run

`Config.resolve` checks the settings of all sources together, before any patch is touched: the files
and directories named must exist, and the mode must have what it needs. The output directory is made
on the way.
-/

namespace PatchTriage

open Job

structure Tiers where
  pub : Option Path := none
  pvt : Option Path := none
  adversarial : Option Path := none
  deriving DecidableEq

structure SourceCommands where
  patchCommand : Option Text := none
  patchScript : Option Path := none
  resetCommand : Option Text := none
  resetScript : Option Path := none
  buildScript : Option Path := none
  configScript : Option Path := none
  deriving DecidableEq

structure Config where
  binary : Option Path := none
  sourceFile : Option Text := none
  sourceDir : Option Path := none
  outputDir : Path
  patchLocation : Path := []
  testIds : List Text := []
  testOracle : Option Path := none
  testSuite : Option Path := none
  tiers : Tiers := {}
  sourceCommands : SourceCommands := {}
  patchMode : PatchMode := .debugger
  execMode : ExecMode := .parallel
  budget : Option Nat := none
  testTimeout : Nat := 30
  taskTimeout : Nat := 600
  limit : Option Nat := none
  perDirLimit : Option Nat := none
  tag : Option Text := none
  debug : Bool := false
  partition : Bool := false
  onlyValidate : Bool := false
  traceDistance : Bool := false
  pluginDir : Option Path := none
  deriving DecidableEq

namespace Config

def defaultTestTimeout : Nat := 30

def defaultTaskTimeout : Nat := 600

def defaultOutputDir : Path := "output"

def secondsPerMinute : Nat := 60

def absolute (p : Path) : Job Path := explain (.resolvePath p) (do reply (← op (.canonical p)))

def existingFile (key : Text) : Option Path → Job (Option Path)
  | none => return none
  | some p => do if ← isFile p then return some (← absolute p) else refuse (.missingFile key p)

def existingDir (key : Text) : Option Path → Job (Option Path)
  | none => return none
  | some p => do if ← isDir p then return some (← absolute p) else refuse (.missingDir key p)

def patchLocationOf (dir file : Option Path) : Job Path := do
  if let some d := dir then if ← isDir d then return ← absolute d
  if let some f := file then if ← isFile f then return ← absolute f
  match dir, file with
  | some d, _ => refuse (.patchDirMissing d)
  | none, some f => refuse (.patchFileMissing f)
  | none, none => refuse .noPatchLocation

def lacking? (mode : PatchMode) (binary oracle suite sourceDir : Option Path) : Option Problem :=
  match mode with
  | .debugger =>
    if suite.isNone && (binary.isNone || oracle.isNone) then some .debuggerLacksTests else none
  | .editor => if binary.isNone || oracle.isNone then some .editorLacksTests else none
  | .compiler =>
    if sourceDir.isNone then some .compilerLacksSource
    else if oracle.isNone && suite.isNone then some .compilerLacksTests
    else none

def budgetOf : Option Nat → Except Overflow (Option Nat)
  | none => .ok none
  | some 0 => .ok none
  | some minutes => (Word.mul minutes secondsPerMinute).map some

def modeOf {α : Type} (parse : Text → Except Failure α) (default : α) : Option Text → Job α
  | none => return default
  | some value => lift (parse value)

def resolve (l : Layer) : Job Config := do
  let patchMode ← modeOf PatchMode.parse .debugger l.patchMode
  let execMode ← modeOf ExecMode.parse .parallel l.execMode
  let binary ← existingFile "binary" l.binary
  let testOracle ← existingFile "test_oracle" l.testOracle
  let testSuite ← existingFile "test_suite" l.testSuite
  let sourceDir ← existingDir "source_dir" l.sourceDir
  let pub ← existingFile "pub_test_script" l.pubTestScript
  let pvt ← existingFile "pvt_test_script" l.pvtTestScript
  let adversarial ← existingFile "adv_test_script" l.advTestScript
  let patchScript ← existingFile "patch_script" l.patchScript
  let resetScript ← existingFile "reset_script" l.resetScript
  let buildScript ← existingFile "build_script" l.buildScript
  let configScript ← existingFile "config_script" l.configScript
  let patchLocation ← patchLocationOf l.patchDir l.patchFile
  let testIds := l.testIds.getD []
  if testIds.isEmpty then refuse .noTestIds
  if testSuite.isNone && pub.isNone && binary.isNone && testOracle.isNone then refuse .nothingToRun
  if let some problem := lacking? patchMode binary testOracle testSuite sourceDir then
    refuse problem
  let dir := l.outputDir.getD defaultOutputDir
  explain (.createOutputDir dir) (do reply (← op (.createDirs dir)))
  let outputDir ← absolute dir
  let budget ← checked (budgetOf l.timeoutMinutes)
  let pluginDir ← existingDir "e9_plugin_dir" l.pluginDir
  return {
    binary, sourceFile := l.sourceFile, sourceDir, outputDir, patchLocation, testIds, testOracle
    testSuite
    tiers := { pub, pvt, adversarial }
    sourceCommands :=
      { patchCommand := l.patchCommand, patchScript, resetCommand := l.resetCommand, resetScript
        buildScript, configScript }
    patchMode, execMode, budget
    testTimeout := l.testTimeoutSecs.getD defaultTestTimeout
    taskTimeout := l.taskTimeoutSecs.getD defaultTaskTimeout
    limit := l.limit.filter (0 < ·)
    perDirLimit := l.perDirLimit.filter (0 < ·)
    tag := l.tag.filter fun t => !Text.isBlankText t
    debug := l.debug.getD false
    partition := l.partition.getD false
    onlyValidate := l.onlyValidate.getD false
    traceDistance := l.traceDistance.getD false
    pluginDir }

def canRecompile (c : Config) : Bool := c.sourceDir.isSome

def tools (c : Config) : List Text :=
  let forMode : List Text :=
    match c.patchMode with
    | .debugger => ["gdb"]
    | .editor => ["gdb", "e9tool"]
    | .compiler => []
  let forSource : List Text :=
    if c.sourceDir.isSome && c.sourceCommands.patchCommand.isNone then ["patch"] else []
  let forRanking : List Text :=
    if !c.onlyValidate && c.binary.isSome then ["e9afl", "afl-showmap"] else []
  forMode ++ forSource ++ forRanking

def missingTools (c : Config) : Job (List Text) :=
  c.tools.filterM fun tool => do return !(← op (.hasProgram tool))

end Config

end PatchTriage
