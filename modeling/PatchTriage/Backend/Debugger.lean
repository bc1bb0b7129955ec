import PatchTriage.Backend.Oracle
import PatchTriage.Debugger.Script
import PatchTriage.Debugger.Transcript
import PatchTriage.Patch.Basic
import PatchTriage.Snapshot.Dump
import PatchTriage.Verdicts

/-!
# Patches under the debugger

The patch never touches the binary: a debugger script does what the inserted statements would do.
With verdicts recorded by signature, a test is first run only for the change of state at the patch;
if the verdict for that change is known, the test need not be run to its end.
-/

namespace PatchTriage.UnderDebugger

open Text Job Script Oracle

variable (s : Setup)

/-- A debugger script, and the command that runs the binary under it, if there is a binary. -/
structure ScriptSet where
  script : Path
  frontend : Option Path := none
  deriving DecidableEq

def scriptVariable : Text := "VALKYRIE_GDB_SCRIPT"

def ScriptSet.write (stem text : Text) : Job ScriptSet := do
  let dir := s.layout.scripts
  ensureDir dir
  let script := Layout.script dir stem
  writeText script text
  match s.config.binary with
  | none => return { script }
  | some binary =>
    let frontend := Layout.frontend dir stem
    writeWrapper frontend (CommandLine.debugger script binary)
    return { script, frontend := some frontend }

variable (p : Patch)

def suiteEnv (scripts : ScriptSet) : List (Text × Text) :=
  [(patchIdVariable, p.id), (scriptVariable, scripts.script)]

def invoke (test : Text) (scripts : ScriptSet) : Job Output :=
  match scripts.frontend with
  | some frontend => run s test (some frontend) [(patchIdVariable, p.id)] true
  | none => run s test none (suiteEnv p scripts) true

/-- The outcome of a test. A test passes only if the script could be applied. -/
def finish (test : Text) (o : Output) : Job TestOutcome :=
  settle s p.id test (o.success && !Transcript.hasSymbolErrors o.combinedText) o

def runPlain (scripts : ScriptSet) (test : Text) : Job TestOutcome := do
  finish s p test (← invoke s p test scripts)

/-- The files for the states of a program in a test: before and after the patch, and at the patch in
the run that goes on to the end. -/
structure Dumps where
  before : Path
  after : Path
  location : Path
  deriving DecidableEq

def Dumps.of (test : Text) : Dumps :=
  let dump (kind : Text) : Path :=
    Path.join (s.layout.patchSnapshots p.id) (pathSafe test ++ '_' :: kind)
  { before := dump "before.core", after := dump "after.core", location := dump "location.core" }

def stem (test kind : Text) : Text := pathSafe p.id ++ '-' :: pathSafe test ++ '-' :: kind

/-- Runs a test for the change of state at the patch, and gives its signature; none if a dump is
missing. -/
def runForSignature (compiled : List Compiled) (test : Text) : Job (Option Text) := do
  let dumps := Dumps.of s p test
  ensureDir (s.layout.patchSnapshots p.id)
  removeStale dumps.before
  removeStale dumps.after
  removeStale dumps.location
  let scripts ← ScriptSet.write s (stem p test "signature")
    (render compiled (.signature dumps.before dumps.after))
  let _ ← invoke s p test scripts
  Dump.signature dumps.before dumps.after

def runForLocation (compiled : List Compiled) (test : Text) : Job Output := do
  let scripts ← ScriptSet.write s (stem p test "location")
    (render compiled (.location (Dumps.of s p test).location))
  invoke s p test scripts

/-- Records the verdict of a test that was run to its end, unless its state at the patch differs
from the one that gave the signature. -/
def recordVerdict (c : Verdicts) (partition test signature : Text) (after location : Path)
    (passed : Bool) : Job Unit := do
  if ← Dump.sameState after location then
    let digest ← Dump.digest after
    let verdict := Verdict.ofPassed passed
    match ← c.record partition test signature verdict digest with
    | .recorded => return
    | .observed v => unless v = verdict do c.markLoop partition test "recorded verdict disagrees"
    | .conflict => c.markLoop partition test "conflicting verdicts recorded"
  else c.markLoop partition test "continuation state differs from signature run"

/-- Runs a test, or takes its verdict from a patch with the same effect. -/
def runCached (compiled : List Compiled) (scripts : ScriptSet)
    (c : Verdicts) (partition test : Text) : Job TestOutcome := do
  if ← c.isLoop partition test then return ← runPlain s p scripts test
  let some signature ← runForSignature s p compiled test | runPlain s p scripts test
  if let some verdict ← c.lookup partition test signature then
    return { testId := test, passed := verdict.passed, cached := true }
  let o ← runForLocation s p compiled test
  let outcome ← finish s p test o
  unless o.timedOut || o.cancelled do
    let dumps := Dumps.of s p test
    recordVerdict c partition test signature dumps.after dumps.location outcome.passed
  return outcome

def runTest (compiled : List Compiled) (scripts : ScriptSet) (test : Text) : Job TestOutcome :=
  match s.config.partition, p.partition with
  | true, some partition => runCached s p compiled scripts ⟨s.layout.partitions⟩ partition test
  | _, _ => runPlain s p scripts test

def candidate (scripts : ScriptSet) : Candidate :=
  match scripts.frontend with
  | some frontend => { path := frontend, env := [(patchIdVariable, p.id)] }
  | none => { path := scripts.script, env := suiteEnv p scripts }

def coverage (scripts : ScriptSet) (test : Text) (out : Path) : Job Bool := do
  if scripts.frontend.isNone then return ← suiteCoverage s test (suiteEnv p scripts) out true
  let some binary ← instrumentedBinary? s | return false
  binaryCoverage s p.id test (CommandLine.debugger scripts.script binary) out true

def trace (s : Setup) (p : Patch) (compiled : List Compiled) (scripts : ScriptSet) (test : Text)
    (patched unpatched : Path) : Job Bool := do
  if scripts.frontend.isNone then return false
  let runs : List (Bool × Path × Text) :=
    [(true, patched, "patched"), (false, unpatched, "original")]
  for (apply, log, label) in runs do
    removeStale log
    let stem := pathSafe p.id ++ '-' :: pathSafe test ++ "-trace-" ++ label
    let _ ← invoke s p test (← ScriptSet.write s stem (renderTrace compiled apply log))
  if !(← isFile patched) then return false
  isFile unpatched

def stage : Job Staged := do
  if p.requiresRecompilation then refuse (.notForDebugger p.id)
  if p.fragments.isEmpty then return .applyFailed "patch has no fragments"
  let compiled := Compiled.ofFragments p.fragments
  let scripts ← ScriptSet.write s (pathSafe p.id) (render compiled .none)
  return .ready {
    runTest := runTest s p compiled scripts
    candidate := candidate p scripts
    coverage := coverage s p scripts
    trace := trace s p compiled scripts }

end PatchTriage.UnderDebugger
