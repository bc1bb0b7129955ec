import PatchTriage.World.Action

/-!
# Recorded verdicts

The verdict of a test is recorded by partition, test and signature of the state change, so that a
patch with the same effect need not be run to its end. A verdict is recorded by a marker file:

* `<partition>/<test>/<signature>/PASS` or `FAIL` holds a verdict;
* `<partition>/<test>/LOOP` says that verdicts of the test are not to be trusted.

Markers are only ever created where there was nothing, and never changed, so the first writer counts
and later ones see what it wrote.
-/

namespace PatchTriage

open PatchTriage.Path Job

inductive Verdict where
  | pass
  | fail
  deriving DecidableEq

namespace Verdict

def ofPassed (passed : Bool) : Verdict := if passed then pass else fail

def passed : Verdict → Bool
  | pass => true
  | fail => false

def marker : Verdict → Text
  | pass => "PASS"
  | fail => "FAIL"

def opposite : Verdict → Verdict
  | pass => fail
  | fail => pass

end Verdict

inductive Recording where
  | recorded
  | observed (v : Verdict)
  | conflict
  deriving DecidableEq

structure Verdicts where
  root : Path
  deriving DecidableEq

namespace Verdicts

def loopMarker : Text := "LOOP"

variable (c : Verdicts) (partition test : Text)

def pairDir : Path := join (join c.root partition) (Text.pathSafe test)

variable (signature : Text)

def signatureDir : Path := join (c.pairDir partition test) (Text.pathSafe signature)

def createMarker (p : Path) (contents : Text) : Job Bool := do
  match ← op (.createNew p (Utf8.encode contents)) with
  | .ok _ => return true
  | .error .alreadyExists => return false
  | .error e => fail ⟨[.create p, .io e]⟩

def isLoop : Job Bool := isFile (join (c.pairDir partition test) loopMarker)

def markLoop (partition test reason : Text) : Job Unit := do
  let dir := c.pairDir partition test
  ensureDir dir
  let _ ← createMarker (join dir loopMarker) reason

def lookup : Job (Option Verdict) := do
  let dir := c.signatureDir partition test signature
  let pass ← isFile (join dir Verdict.pass.marker)
  let fail ← isFile (join dir Verdict.fail.marker)
  return match pass, fail with
    | true, false => some .pass
    | false, true => some .fail
    | _, _ => none

def record (v : Verdict) (digest : Text) : Job Recording := do
  let dir := c.signatureDir partition test signature
  ensureDir dir
  let other := join dir v.opposite.marker
  if ← isFile other then return .observed v.opposite
  if !(← createMarker (join dir v.marker) digest) then return .observed v
  if ← isFile other then return .conflict
  return .recorded

end Verdicts

end PatchTriage
