import PatchTriage.Digest.Sha256
import PatchTriage.Snapshot.Diff
import PatchTriage.World.Action

/-!
# Dumps of program states

What is read off the dump files of a run: the signature of the change between two states, whether
two states are the same, and the digest of a state.
-/

namespace PatchTriage.Dump

def read (p : Path) : Job Bytes := Job.explain (.read p) (Job.read p)

/-- The signature of the change between two states; none if a dump is missing. -/
def signature (before after : Path) : Job (Option Text) := do
  if !(← Job.isFile before) then return none
  if !(← Job.isFile after) then return none
  let old ← read before
  let new ← read after
  let diff ← Job.checked (Snapshot.diff old new)
  return some (Sha256.hex (Utf8.encode diff))

def sameState (left right : Path) : Job Bool := do
  if !(← Job.isFile left) then return false
  if !(← Job.isFile right) then return false
  let a ← read left
  let b ← read right
  return (← Job.checked (Snapshot.diff a b)).isEmpty

def digest (p : Path) : Job Text := do return Sha256.hex (← read p)

end PatchTriage.Dump
