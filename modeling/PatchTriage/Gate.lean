import PatchTriage.Backend.Oracle

/-!
# Gates

A patch goes through gates in a fixed order and stops at the first one it fails, so a patch in a
class has passed every gate below it: it must apply, build, make the failing tests pass, and then
pass the public, the private and the adversarial tests.
-/

namespace PatchTriage

inductive StageOutcome where
  | applyFailed (reason : Text)
  | buildFailed (reason : Text)
  | ready
  deriving DecidableEq

structure Validation where
  stage : StageOutcome
  results : TestResults := {}
  program : Option Program := none

namespace Validation

/-- Runs tests in order, up to the first that fails, or until the work is cancelled. -/
def runTests (results : TestResults) : List (Job TestOutcome) → Job TestResults
  | [] => return results
  | test :: tests => do
    if ← Job.op .isCancelled then return results
    let o ← test
    let results := results.push o
    if o.passed then runTests results tests else return results

def run (staged : Staged) (tests : List Text) : Job Validation := do
  match staged with
  | .applyFailed reason => return { stage := .applyFailed reason }
  | .buildFailed reason => return { stage := .buildFailed reason }
  | .ready p =>
    let results ← Job.orElseAfter p.release (runTests {} (tests.map p.runTest))
    return { stage := .ready, results, program := some p }

end Validation

inductive Tier where
  | pub
  | pvt
  | adversarial
  deriving DecidableEq

namespace Tier

def all : List Tier := [pub, pvt, adversarial]

def name : Tier → Text
  | pub => "public"
  | pvt => "private"
  | adversarial => "adversarial"

def script : Tier → Tiers → Option Path
  | pub, t => t.pub
  | pvt, t => t.pvt
  | adversarial, t => t.adversarial

def failureClass : Tier → Class
  | pub => .fixFailingFailed
  | pvt => .plausibleFix
  | adversarial => .correct

end Tier

structure Classified where
  cls : Class
  results : TestResults
  reason : Option Text := none
  program : Option Program := none

namespace Gate

def programVariable : Text := "VALKYRIE_BINARY"

def runTier (s : Setup) (patchId : Text) (tier : Tier) (p : Program) : Job Bool := do
  let some script := tier.script s.config.tiers | return false
  let c ← Job.scriptCommand script
  let path := p.candidate.path
  let o ← Job.command { c with
      args := c.args ++ [path]
      env := (patchIdVariable, patchId) :: (programVariable, path) :: p.candidate.env
      dir := s.config.sourceDir } s.taskLimit true
  unless o.success do FailureLog.record s.layout patchId (tier.name ++ " tests") o
  return o.success

def throughTiers (s : Setup) (patchId : Text) (p : Program) : List Tier → Job Class
  | [] => return .highQuality
  | tier :: tiers => do
    if ← runTier s patchId tier p then throughTiers s patchId p tiers
    else return tier.failureClass

def allRunAndPassed (count : Nat) (r : TestResults) : Bool :=
  decide (count ≤ r.outcomes.length) && r.allPassed

def classify (s : Setup) (patchId : Text) (count : Nat) (v : Validation) : Job Classified := do
  let results := v.results
  match v.stage, v.program with
  | .applyFailed reason, _ => return { cls := .invalidApply, results, reason := some reason }
  | .buildFailed reason, _ => return { cls := .invalidBuild, results, reason := some reason }
  | .ready, none => return { cls := .invalidApply, results, reason := some "no staged program" }
  | .ready, some p =>
    if allRunAndPassed count results then
      let cls ← Job.orElseAfter p.release (throughTiers s patchId p Tier.all)
      return { cls, results, program := some p }
    else
      p.release
      let reason : Text :=
        if results.anyTimedOut then "failing test timed out" else "failing test still fails"
      return { cls := .incorrect, results, reason := some reason }

end Gate

end PatchTriage
