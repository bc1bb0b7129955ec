import PatchTriage.Layout
import PatchTriage.World.Action

/-!
# Logs of failed commands

The output of every command that failed for a patch is kept in one file per patch.
-/

namespace PatchTriage.FailureLog

def header (context : Text) (o : Output) : Text :=
  "== " ++ context ++ " (exit " ++ o.exitText ++ ", timed_out "
    ++ (if o.timedOut then ("true" : Text) else ("false" : Text)) ++ ") ==\n"

def entry (context : Text) (o : Output) : Bytes :=
  Utf8.encode (header context o) ++ o.stdout ++ o.stderr

/-- Adds the output of a command to the log of a patch. That the log cannot be written is no reason
to stop. -/
def record (l : Layout) (patchId context : Text) (o : Output) : Job Unit := do
  let path := l.errorLog patchId
  if let some parent := Path.parent? path then
    if let .error _ ← Job.op (.createDirs parent) then return
  let _ ← Job.op (.append path (entry context o))

end PatchTriage.FailureLog
