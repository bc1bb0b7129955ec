import PatchTriage.Text.Basic

/-!
# Results of tests

The outcomes of the tests of one patch, in the order in which they were run.
-/

namespace PatchTriage

structure TestOutcome where
  testId : Text
  passed : Bool
  /-- The verdict was recorded before; the test did not run to its end. -/
  cached : Bool := false
  timedOut : Bool := false
  deriving DecidableEq

structure TestResults where
  outcomes : List TestOutcome := []
  executed : Nat := 0
  cached : Nat := 0
  deriving DecidableEq

namespace TestResults

def push (r : TestResults) (o : TestOutcome) : TestResults where
  outcomes := r.outcomes ++ [o]
  executed := if o.cached then r.executed else r.executed + 1
  cached := if o.cached then r.cached + 1 else r.cached

def allPassed (r : TestResults) : Bool := r.outcomes.all (·.passed)

def anyTimedOut (r : TestResults) : Bool := r.outcomes.any (·.timedOut)

end TestResults

end PatchTriage
