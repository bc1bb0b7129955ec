import PatchTriage.Backend.FailureLog
import PatchTriage.Settings.Config
import PatchTriage.TestResult

/-!
# Staged programs and their tests

Staging makes a patch ready to be tested: by a debugger script, by an edit of the binary, or by a
build of the patched source. Whatever way was taken, the result is a `Program`.
-/

namespace PatchTriage

structure Setup where
  config : Config
  layout : Layout
  deriving DecidableEq

namespace Setup

def ofConfig (c : Config) : Setup := ⟨c, ⟨c.outputDir, c.tag⟩⟩

def testLimit (s : Setup) : Nat := s.config.testTimeout * 1000

def taskLimit (s : Setup) : Nat := s.config.taskTimeout * 1000

end Setup

/-- The program under test, as it is passed to the scripts of the tiers. -/
structure Candidate where
  path : Path
  env : List (Text × Text) := []
  deriving DecidableEq

structure Program where
  runTest : Text → Job TestOutcome
  candidate : Candidate
  /-- Writes the coverage of a test to a file; false if it cannot be had. -/
  coverage : Text → Path → Job Bool := fun _ _ => return false
  /-- Writes the traces of a test, with the patch and without, to two files; false if they cannot be
  had. -/
  trace : Text → Path → Path → Job Bool := fun _ _ _ => return false
  release : Job Unit := return

inductive Staged where
  | applyFailed (reason : Text)
  | buildFailed (reason : Text)
  | ready (p : Program)

def patchIdVariable : Text := "PATCH_ID"

end PatchTriage

/-!
## Running tests

A test is run by the oracle, which is given the test and the program, or by the test suite, which is
given the test alone and finds the program by itself. Either may also be used to record coverage.
-/

namespace PatchTriage.Oracle

open Job

/-- The variable that tells the test suite whether to record coverage. -/
def coverageVariable : Text := "COVERAGE"

def coverageFileVariable : Text := "VALKYRIE_COVERAGE_FILE"

variable (s : Setup)

def invocation (test : Text) (program : Option Path) : Job Invocation := do
  match s.config.testOracle, s.config.testSuite with
  | some oracle, _ =>
    let c ← scriptCommand oracle
    return { c with args := c.args ++ test :: program.toList }
  | none, some suite =>
    let c ← scriptCommand suite
    return { c with args := c.args ++ [test], env := [(coverageVariable, ['0'])] }
  | none, none => refuse .noOracle

def run (test : Text) (program : Option Path) (env : List (Text × Text))
    (cancellable : Bool) : Job Output := do
  let c ← invocation s test program
  command { c with env := c.env ++ env, dir := s.config.sourceDir } s.testLimit cancellable

/-- The outcome of a test that was run; the output of a failed one is kept. -/
def settle (patchId test : Text) (passed : Bool) (o : Output) : Job TestOutcome := do
  unless passed do FailureLog.record s.layout patchId ("test " ++ test) o
  return { testId := test, passed, timedOut := o.timedOut }

def writeWrapper (p : Path) (commandLine : Text) : Job Unit := do
  writeText p (CommandLine.wrapper commandLine)
  explain (.chmod p) (do reply (← op (.setExecutable p)))

/-- Records in `out` the coverage of a test of a program that counts it. -/
def binaryCoverage (patchId test inner : Text) (out : Path) (cancellable : Bool) : Job Bool := do
  let dir := s.layout.scripts
  ensureDir dir
  let wrapper :=
    Path.join dir (Text.pathSafe patchId ++ '-' :: Text.pathSafe test ++ ".coverage.sh")
  writeWrapper wrapper (CommandLine.edgeMap out inner)
  removeStale out
  let _ ← run s test (some wrapper) [(patchIdVariable, patchId)] cancellable
  isFile out

def suiteCoverage (test : Text) (env : List (Text × Text)) (out : Path) (cancellable : Bool) :
    Job Bool := do
  removeStale out
  let _ ← run s test none (env ++ [(coverageVariable, ['1']), (coverageFileVariable, out)])
    cancellable
  isFile out

def instrument (binary out : Path) : Job Path := do
  if let some parent := Path.parent? out then ensureDir parent
  let o ← explain .runInstrumenter
    (command { program := "e9afl", args := [binary, "-o", out] } s.taskLimit false)
  if !o.success then refuse (.instrumenterFailed binary o.excerpt)
  if !(← isFile out) then refuse (.instrumenterFailed binary o.excerpt)
  return out

def instrument? (binary out : Path) : Job (Option Path) := do
  return (← attempt (instrument s binary out)).toOption

/-- The copy of the configured binary that counts coverage; it is made when it is first asked for.
-/
def instrumentedBinary? : Job (Option Path) := do
  if let some known ← op .instrumented then return known
  let made ← match s.config.binary with
    | none => pure none
    | some binary => instrument? s binary (Path.join s.layout.instrumented "original")
  op (.setInstrumented made)
  return made

end PatchTriage.Oracle
