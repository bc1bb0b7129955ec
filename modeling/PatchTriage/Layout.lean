import PatchTriage.Text.Quoting
import PatchTriage.World.Path

/-!
# The layout of the output directory

Every file that a run writes lies below one output directory, at a place given by what it holds.
-/

namespace PatchTriage

open PatchTriage.Path

/-- An output directory; several runs that share a host are told apart by a tag. -/
structure Layout where
  root : Path
  tag : Option Text := none
  deriving DecidableEq

namespace Layout

variable (l : Layout)

def result : Path := join l.root "result.json"

def score : Path := join l.root "patch-score"

def summary : Path := join l.root "run-summary.json"

def classDir (name : Text) : Path := join l.root name

def partitions : Path := join l.root "partitions"

def snapshots : Path := join l.root "snapshots"

def patchSnapshots (patchId : Text) : Path := join l.snapshots (Text.pathSafe patchId)

def errors : Path := join l.root "errors"

def errorLog (patchId : Text) : Path := join l.errors ('p' :: Text.pathSafe patchId ++ ".err")

def coverage : Path := join l.root "coverage"

def traces : Path := join l.root "traces"

def edited : Path := join l.root "rewritten"

def instrumented : Path := join l.root "instrumented"

def scripts : Path :=
  let dir := join l.root "scripts"
  match l.tag with
  | some tag => join dir (Text.pathSafe tag)
  | none => dir

def script (dir : Path) (stem : Text) : Path := join dir (stem ++ ".gdb")

/-- The command that runs the program under the debugger script with the given stem. -/
def frontend (dir : Path) (stem : Text) : Path := join dir (stem ++ ".frontend.sh")

end Layout

end PatchTriage
