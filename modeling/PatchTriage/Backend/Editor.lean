import PatchTriage.Backend.Oracle
import PatchTriage.Debugger.Transcript
import PatchTriage.Patch.Plan

/-!
# Patches put into the binary

A patch that inserts a single assignment or call is put into a copy of the binary, at the address of
its line.
-/

namespace PatchTriage.InBinary

def address? (s : Setup) (binary : Path) (b : BreakPoint) : Job (Option Nat) := do
  let line := "info line " ++ b.render
  let o ← Job.explain .runInfoLine
    (Job.command { program := "gdb", args := ["-batch", "-ex", line, binary] } s.testLimit true)
  return Transcript.address? o.combinedText

def runTest (s : Setup) (p : Patch) (binary : Path) (test : Text) : Job TestOutcome := do
  let o ← Oracle.run s test (some binary) [(patchIdVariable, p.id)] true
  Oracle.settle s p.id test o.success o

/-- Records the coverage of a test, of a copy of the binary made for it. -/
def coverage (s : Setup) (p : Patch) (binary : Path) (test : Text) (out : Path) : Job Bool := do
  let counting := Path.join s.layout.instrumented (Text.pathSafe p.id)
  if !(← Job.isFile counting) then
    if (← Oracle.instrument? s binary counting).isNone then return false
  Oracle.binaryCoverage s p.id test (Text.shellQuote counting) out true

def stage (s : Setup) (p : Patch) : Job Staged := do
  if p.requiresRecompilation then Job.refuse (.notForEditor p.id)
  let some plan := Plan.ofPatch? p
    | return .applyFailed "edit cannot be expressed as a binary rewrite"
  let some binary := s.config.binary | Job.refuse .noBinary
  let some address ← address? s binary plan.breakPoint
    | return .applyFailed ("no instruction address for " ++ plan.breakPoint.render)
  let dir := s.layout.edited
  Job.ensureDir dir
  let out := Path.join dir (Text.pathSafe p.id)
  let o ← Job.explain .runEditor (Job.command
      { program := "e9tool", args := Plan.editorArgs binary out address plan.expression
        dir := s.config.pluginDir } s.taskLimit true)
  let made ← if o.success then Job.isFile out else pure false
  if !made then
    FailureLog.record s.layout p.id "rewrite" o
    return .buildFailed ("e9tool failed: " ++ Text.trim o.excerpt)
  return .ready {
    runTest := runTest s p out
    candidate := { path := out, env := [(patchIdVariable, p.id)] }
    coverage := coverage s p out }

end PatchTriage.InBinary
