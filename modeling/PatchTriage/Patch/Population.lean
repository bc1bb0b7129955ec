import PatchTriage.Patch.Basic
import PatchTriage.World.Action

/-!
# Loading patches

The patches to be validated are the files below a directory, or a single file. Each of them becomes
a patch, or is set aside for a reason that is counted, and only a file within the limits whose id is
new is read. The directories between the place of loading and a file name the tool that proposed the
patch.
-/

namespace PatchTriage

open PatchTriage.Path Job SortedList

namespace Population

structure Options where
  limit : Option Nat := none
  perDirLimit : Option Nat := none
  diff : Diff.Options := {}
  deriving DecidableEq

end Population

structure Population where
  patches : List Patch := []
  initial : Nat := 0
  empty : List Text := []
  unreadable : List Text := []
  unhandled : List Text := []
  overLimit : Nat := 0
  deriving DecidableEq

namespace Population

/-- The tool that proposed a patch: the directories between `base` and its file. -/
def tool? (base path : Path) : Option Text := do
  let parent ← parent? path
  let relative ← stripBase? base parent
  if relative.isEmpty then none else some relative

def patchId (tool : Option Text) (path : Path) : Text :=
  let name := (fileName? path).getD []
  match tool with
  | some tool => tool ++ ':' :: name
  | none => name

inductive Fate where
  | loaded (p : Patch)
  | empty
  | unreadable
  | unhandled
  deriving DecidableEq

/-- What becomes of a file with the given contents, if it can be read at all. -/
def fate (opts : Diff.Options) (tool : Option Text) (path : Path) : Option Bytes → Fate
  | none => .unreadable
  | some [] => .empty
  | some bytes =>
    match Utf8.strict? bytes with
    | none => .unreadable
    | some text =>
      match Patch.ofDiff? (patchId tool path) tool path (Diff.read opts text) with
      | some p => .loaded p
      | none => .unhandled

def note (r : Population) (id : Text) : Fate → Population
  | .loaded p => { r with patches := r.patches ++ [p] }
  | .empty => { r with empty := r.empty ++ [id] }
  | .unreadable => { r with unreadable := r.unreadable ++ [id] }
  | .unhandled => { r with unhandled := r.unhandled ++ [id] }

structure State where
  report : Population := {}
  counts : List (Text × Nat) := []
  seen : List Text := []
  deriving DecidableEq

/-- What a file makes of the state: at once, or as soon as its contents are known. -/
def State.meet (opts : Options) (base : Path) (s : State) (path : Path) :
    State ⊕ (Option Bytes → State) :=
  let tool := tool? base path
  let id := patchId tool path
  let key := tool.getD []
  let count := (find? Text.compare key s.counts).getD 0 + 1
  let s := { s with
    report.initial := s.report.initial + 1
    counts := insert Text.compare key count s.counts }
  if opts.perDirLimit.any (· < count) then
    .inl { s with report.overLimit := s.report.overLimit + 1 }
  else if id ∈ s.seen then .inl { s with report := s.report.note id .unhandled }
  else .inr fun bytes =>
    { s with
      seen := id :: s.seen
      report := s.report.note id (fate opts.diff tool path bytes) }

/-! ## From the file system -/

def collect : (depth : Nat) → (dir : Path) → Job (List Path)
  | 0, _ => return []
  | depth + 1, dir => do
    let entries ← explain (.readDir dir) (do reply (← op (.list dir)))
    let found ← entries.mapM fun (name, isDir) => do
      let path := join dir name
      if isDir then collect depth path
      else return if ← isFile path then [path] else []
    return found.flatten

def State.take (opts : Options) (base : Path) (s : State) (path : Path) : Job State := do
  match s.meet opts base path with
  | .inl s => return s
  | .inr taken => return taken (← op (.read path)).toOption

def loadFiles (opts : Options) (base : Path) (files : List Path) : Job Population := do
  let considered := (opts.limit.map fun n => files.take n).getD files
  let r := (← considered.foldlM (State.take opts base) {}).report
  return { r with overLimit := r.overLimit + (files.length - considered.length) }

def load (location : Path) (opts : Options) : Job Population := do
  if ← isDir location then
    -- No path goes down more directories than it has characters.
    let files ← collect FileTree.maxPathLength location
    loadFiles opts location (sort Path.compare files)
  else if ← isFile location then loadFiles opts ((parent? location).getD []) [location]
  else refuse (.locationMissing location)

end Population

end PatchTriage
