import PatchTriage.World.Action

/-!
# The source tree

What patching leaves behind in the source tree: a backup `f.orig` of every file `f` that is changed,
and a file `f.rej` with the hunks that do not fit. Hidden directories are left alone.
-/

namespace PatchTriage.SourceTree

def backupExtension : Text := "orig"

def rejectExtension : Text := "rej"

def isHidden (name : Text) : Bool := name.head? == some '.'

/-- The files below a directory that `keep` accepts, at most `depth` directories down. -/
def filesUpTo (keep : Path → Bool) : (depth : Nat) → (dir : Path) → Job (List Path)
  | 0, _ => return []
  | depth + 1, dir => do
    match ← Job.op (.list dir) with
    | .error _ => return []
    | .ok entries =>
      let found ← entries.mapM fun (name, isDir) => do
        let path := Path.join dir name
        if isDir then if isHidden name then return [] else filesUpTo keep depth path
        else return if keep path then [path] else []
      return found.flatten

variable (dir : Path)

def files (keep : Path → Bool) : Job (List Path) := do
  -- No path goes down more directories than it has characters.
  return SortedList.sort Path.compare (← filesUpTo keep FileTree.maxPathLength dir)

def withExtension (extension : Text) : Job (List Path) :=
  files dir fun p => Path.extension? p = some extension

def findFile? (name : Text) : Job (Option Path) := do
  return (← files dir fun p => Path.fileName? p = some name).head?

structure Artifacts where
  backups : List Path
  rejects : List Path
  deriving DecidableEq

def artifacts : Job Artifacts := do
  return { backups := ← withExtension dir backupExtension
           rejects := ← withExtension dir rejectExtension }

def removeNew (extension : Text) (before : List Path) : Job Unit := do
  for path in ← withExtension dir extension do unless path ∈ before do Job.removeStale path

/-- Moves back the backups made since `before`, and removes the new rejects. -/
def restore (before : Artifacts) : Job Unit := do
  for backup in ← withExtension dir backupExtension do
    unless backup ∈ before.backups do let _ ← Job.op (.rename backup (Path.dropExtension backup))
  removeNew dir rejectExtension before.rejects

end PatchTriage.SourceTree
