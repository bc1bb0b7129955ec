import PatchTriage.Run
import PatchTriage.Shell.Host

/-!
# The command line

The outer layer of the program: it reads the directory that it is started in, does what the
arguments say, and writes back what has changed there. All decisions are made by `Arguments.parse`
and `Run.command`.
-/

namespace PatchTriage.Main

/-- Whether the contents of a file name the program that runs it. Such a file may be run. -/
def namesInterpreter : Bytes → Bool
  | 0x23 :: 0x21 :: _ => true
  | _ => false

def hostPath (k : Place) : String := String.ofList (FileTree.pathOf k)

/-- A tree with the entries of a directory of the host, and all that is below them; links are left
out. -/
partial def readEntries (dir : Place) (entries : Array IO.FS.DirEntry) (t : FileTree) :
    IO FileTree := do
  let mut t := t.putDir dir
  for entry in entries do
    let place := dir ++ [entry.fileName.toList]
    match (← entry.path.symlinkMetadata).type with
    | .dir => t ← readEntries place (← entry.path.readDir) t
    | .file =>
      let bytes := (← IO.FS.readBinFile entry.path).toList
      t := t.put place (.file bytes (namesInterpreter bytes))
    | _ => pure ()
  return t

/-- Makes what is below a directory of the host as it is in a new tree. -/
def writeBelow (dir : Place) (old new : FileTree) : IO Unit := do
  let isInside (k : Place) : Bool := (FileTree.below? dir k).isSome
  for (place, node) in old.reverse do
    if isInside place && (new.node? place).isNone then
      match node with
      | .dir => IO.FS.removeDir (hostPath place)
      | _ => IO.FS.removeFile (hostPath place)
  for (place, node) in new do
    if isInside place && old.node? place ≠ some node then
      match node with
      | .dir => IO.FS.createDirAll (hostPath place)
      | .file bytes _ => IO.FS.writeBinFile (hostPath place) ⟨bytes.toArray⟩
      | .tool _ | .device _ | .link _ => pure ()

def printError (message : Text) : IO Unit := do
  (← IO.getStderr).putStrLn (String.ofList ("error: " ++ message))

def runArguments (args : List Text) : IO UInt32 := do
  match Arguments.parse args with
  | .error .displayHelp | .error .displayVersion => return 0
  | .error r =>
    printError r.name
    return 2
  | .ok c =>
    let dir ← IO.currentDir
    let cwd := (Text.splitOn '/' dir.toString.toList).filter (!·.isEmpty)
    let tree ← readEntries cwd (← dir.readDir) Shell.Host.tree
    let (result, after) := Run.command Shell.Host.host c false
      { tree, cwd, env := Shell.Host.settings Shell.Host.searchPath }
    writeBelow cwd tree after.tree
    (← IO.getStdout).putStr (String.ofList after.printed)
    match result with
    | .ok _ => return 0
    | .error (.failure f) =>
      printError f.message
      return 1
    | .error (.overflow o) =>
      printError o.message.toList
      return 101

end PatchTriage.Main

def main (args : List String) : IO UInt32 := PatchTriage.Main.runArguments (args.map String.toList)
