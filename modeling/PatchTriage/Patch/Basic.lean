import PatchTriage.Patch.Diff
import PatchTriage.World.Path

/-!
# Patches

A candidate patch: where its file is, which tool proposed it, and the edits its diff makes.
-/

namespace PatchTriage

structure Patch where
  /-- The file name, after the tool's name and a colon where there is a tool. -/
  id : Text
  /-- The directories between the place patches are loaded from and the file. -/
  tool : Option Text := none
  path : Path
  sourceFile : Text := []
  fragments : Fragments := []
  requiresRecompilation : Bool := false
  partition : Option Text := none
  deriving DecidableEq

namespace Patch

def fileName (p : Patch) : Text := (Path.fileName? p.path).getD p.id

def exportName (p : Patch) : Text :=
  match p.tool with
  | some tool => Text.replace "/" "-" tool ++ '-' :: p.fileName
  | none => p.fileName

/-- The patch at `path` with the edits of a diff, unless the diff changes nothing. -/
def ofDiff? (id : Text) (tool : Option Text) (path : Path) : Diff.Outcome → Option Patch
  | .empty => none
  | .parsed sourceFile fragments => some { id, tool, path, sourceFile, fragments }
  | .requiresRecompilation sourceFile =>
    some { id, tool, path, sourceFile, requiresRecompilation := true }

end Patch

end PatchTriage
