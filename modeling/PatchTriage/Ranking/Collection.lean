import PatchTriage.Backend.Oracle
import PatchTriage.Debugger.Transcript
import PatchTriage.Ranking.Score

/-!
# Collecting evidence

What the ranking needs is recorded while the program is still staged. What cannot be recorded is
left out.
-/

namespace PatchTriage.Evidence

/-- The id under which the coverage of the unpatched program is recorded. -/
def unpatchedId : Text := "original"

variable (s : Setup)

def coveragePath (id test : Text) : Path :=
  Path.join s.layout.coverage (Text.pathSafe id ++ "-t" ++ Text.pathSafe test ++ ".coverage")

def readCoverage (record : Job Bool) (out : Path) : Job (Option Coverage) := do
  let read ← Job.attempt do
    if ← record then return some (Coverage.parse (← Job.readText out)) else return none
  return read.toOption.join

def coverages (id : Text) (record : Text → Path → Job Bool) (tests : List Text) :
    Job (List (Text × Coverage)) :=
  tests.foldlM (fun found test => do
    let out := coveragePath s id test
    match ← readCoverage (record test out) out with
    | some c => return SortedList.insert Text.compare test c found
    | none => return found) []

def readTraces (p : Patch) (program : Program) (test : Text) :
    Job (Option (List Text × List Text)) := do
  let stem := Text.pathSafe p.id ++ "-t" ++ Text.pathSafe test
  let patched := Path.join s.layout.traces (stem ++ ".patched.trace")
  let unpatched := Path.join s.layout.traces (stem ++ ".original.trace")
  let read ← Job.attempt do
    if ← program.trace test patched unpatched then
      return some (Transcript.trace (← Job.readText patched),
        Transcript.trace (← Job.readText unpatched))
    else return none
  return read.toOption.join

def collect (p : Patch) (program : Program) : Job Evidence := do
  let tests := s.config.testIds
  let .ok _ ← Job.attempt (Job.ensureDir s.layout.coverage) | return {}
  let coverage ← coverages s p.id program.coverage tests
  unless s.config.traceDistance do return { coverage }
  let .ok _ ← Job.attempt (Job.ensureDir s.layout.traces) | return { coverage }
  let traces ← tests.foldlM (fun found test => do
    match ← readTraces s p program test with
    | some t => return SortedList.insert Text.compare test t found
    | none => return found) []
  return { coverage, traces }

def unpatchedCoverage : Job (List (Text × Coverage)) := do
  let tests := s.config.testIds
  let .ok _ ← Job.attempt (Job.ensureDir s.layout.coverage) | return []
  if s.config.binary.isNone then
    return ← coverages s unpatchedId
      (fun test out => Oracle.suiteCoverage s test [(patchIdVariable, unpatchedId)] out false) tests
  let some binary ← Oracle.instrumentedBinary? s | return []
  coverages s unpatchedId (fun test out =>
      Oracle.binaryCoverage s unpatchedId test (Text.shellQuote binary) out false) tests

end PatchTriage.Evidence
