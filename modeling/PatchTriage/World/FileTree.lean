import PatchTriage.Problem
import PatchTriage.Text.Utf8

/-!
# File trees

The file system as a value: a finite map from names, counted from the root, to files and
directories. Every operation on it takes the working directory and a path, and either gives the tree
after it or says why it is refused.
-/

namespace PatchTriage

inductive Tool where
  | sh | cat | cp | grep | mkdir | rm | sleep | true | false | echo | printf | test | bracket
  deriving DecidableEq

inductive Device where
  | null
  | zero
  | full
  /-- Reads as bytes without end and without an order, and takes everything. -/
  | random
  | terminal
  /-- What a process has open under a descriptor, where that is no file. -/
  | descriptor (fd : Nat)
  deriving DecidableEq

inductive Node where
  | file (bytes : Bytes) (executable : Bool)
  | dir
  | tool (tool : Tool)
  | device (d : Device)
  | link (target : Text)
  deriving DecidableEq

abbrev Place := List Text

/-- The files and directories below the root, in ascending order of their places. -/
abbrev FileTree := List (Place × Node)

namespace FileTree

variable (t : FileTree)

def comparePlaces (a b : Place) : Ordering := SortedList.compareLists Text.compare a b

variable (k : Place)

def node? : Option Node := if k.isEmpty then some .dir else SortedList.find? comparePlaces k t

def put (n : Node) : FileTree := if k.isEmpty then t else SortedList.insert comparePlaces k n t

def erase : FileTree := t.filter fun (k', _) => k' ≠ k

def below? : (dir place : Place) → Option Place
  | [], place => some place
  | _ :: _, [] => none
  | d :: dir, p :: place => if d = p then below? dir place else none

def children (dir : Place) : List (Text × Node) :=
  t.filterMap fun (k, n) =>
    match below? dir k with
    | some [name] => some (name, n)
    | _ => none

def putDir : FileTree :=
  (List.range k.length).foldl (fun t n =>
      let above := k.take (n + 1)
      if (t.node? above).isSome then t else t.put above .dir) t

/-! ## Finding a place -/

def maxNameLength : Nat := 255

def maxPathLength : Nat := 4095

def maxLinks : Nat := 40

def pieces (p : Path) : List Text := (Text.splitOn '/' p).filter (!·.isEmpty)

/-- Follows the pieces of a path from a place. Every piece needs a directory to start from that
`mayEnter` allows. A symbolic link on the way is left to `jump`, which is given where it is followed
from and the pieces that come then; one that the last piece stands for is followed only if `last`.
-/
def walkWith (t : FileTree) (mayEnter : Place → Bool) (last : Bool)
    (jump : Place → List Text → Except IoError Place) (k : Place) :
    List Text → Except IoError Place
  | [] => .ok k
  | piece :: rest =>
    match t.node? k with
    | none => .error .notFound
    | some .dir =>
      if !mayEnter k then .error .permissionDenied
      else if piece = ['.'] then walkWith t mayEnter last jump k rest
      else if piece = ['.', '.'] then walkWith t mayEnter last jump k.dropLast rest
      else if maxNameLength < Text.byteLength piece then .error .invalidFilename
      else
        match t.node? (k ++ [piece]) with
        | some (.link target) =>
          if rest.isEmpty && !last then .ok (k ++ [piece])
          else jump (if Path.isAbsolute target then [] else k) (pieces target ++ rest)
        | _ => walkWith t mayEnter last jump (k ++ [piece]) rest
    | some _ => .error .notADirectory

/-- Follows the pieces of a path from a place, through at most `links` symbolic links. -/
def walk (t : FileTree) (mayEnter : Place → Bool) (last : Bool) :
    (links : Nat) → Place → List Text → Except IoError Place
  | 0 => walkWith t mayEnter last fun _ _ => .error .filesystemLoop
  | links + 1 => walkWith t mayEnter last (walk t mayEnter last links)

/-- Where a path leads. What is there need not exist, but the directory it is in does. -/
structure Entry where
  place : Place
  /-- Whether the path ends with a name: `.`, `..` and the root are none. -/
  named : Bool
  /-- Whether a separator follows the name, so that only a directory can be meant. -/
  closed : Bool
  deriving DecidableEq

/-- Where a path leads, seen from a working directory, through directories that `mayEnter` allows.
A symbolic link at the end is followed if `follow`, or if a separator comes after it. -/
def locateBy (mayEnter : Place → Bool) (follow : Bool) (cwd : Place) (p : Path) :
    Except IoError Entry :=
  if '\x00' ∈ p then .error .invalidInput
  else if p.isEmpty then .error .notFound
  else if maxPathLength < Text.byteLength p then .error .invalidFilename
  else do
    let ps := pieces p
    let isClosed := p.getLast? == some '/'
    let place ← walk t mayEnter (follow || isClosed) maxLinks
      (if Path.isAbsolute p then [] else cwd) ps
    let named := match ps.getLast? with
      | none => false
      | some piece => piece ≠ ['.'] && piece ≠ ['.', '.']
    return { place, named, closed := named && isClosed }

variable (cwd : Place)

def locate (p : Path) : Except IoError Entry := t.locateBy (fun _ => true) true cwd p

def Entry.node (e : Entry) : Except IoError (Place × Node) :=
  match t.node? e.place with
  | none => .error .notFound
  | some n => if e.closed && n ≠ .dir then .error .notADirectory else .ok (e.place, n)

def stat (p : Path) : Except IoError (Place × Node) := do (← t.locate cwd p).node t

def lstat (p : Path) : Except IoError (Place × Node) := do
  (← t.locateBy (fun _ => true) false cwd p).node t

/-- Where a path leads to a file that may be new. A path that ends with a separator is refused,
whatever is there. -/
def locateFile (p : Path) : Except IoError Place := do
  let e ← t.locate cwd p
  if e.closed then throw .isADirectory else return e.place

def isFile (p : Path) : Bool :=
  match t.stat cwd p with
  | .ok (_, .file _ _) | .ok (_, .tool _) => true
  | _ => false

def isDir (p : Path) : Bool :=
  match t.stat cwd p with
  | .ok (_, .dir) => true
  | _ => false

def isExecutable (p : Path) : Bool :=
  match t.stat cwd p with
  | .ok (_, .file _ executable) => executable
  | .ok (_, .device _) | .ok (_, .link _) => false
  | .ok _ => true
  | .error _ => false

def pathOf : Path := '/' :: Text.join ['/'] k

def canonical (p : Path) : Except IoError Path := do return pathOf (← t.stat cwd p).1

/-! ## Reading and writing -/

def read (p : Path) : Except IoError Bytes := do
  match ← t.stat cwd p with
  | (_, .file bytes _) => return bytes
  | (_, .dir) => throw .isADirectory
  | (_, .tool _) | (_, .device _) | (_, .link _) => return []

/-- The tree after the contents of what is at a place are changed by `f`; a new file starts
empty. -/
def modifyAt (f : Bytes → Bytes) : Except IoError FileTree :=
  match t.node? k with
  | none => .ok (t.put k (.file (f []) false))
  | some (.file bytes executable) => .ok (t.put k (.file (f bytes) executable))
  | some .dir => .error .isADirectory
  | some (.tool _) => .error .permissionDenied
  | some (.device .full) => .error .storageFull
  | some (.device .terminal) => .error .noSuchDevice
  | some (.device _) | some (.link _) => .ok t

def write (p : Path) (bytes : Bytes) : Except IoError FileTree := do
  t.modifyAt (← t.locateFile cwd p) fun _ => bytes

def append (p : Path) (bytes : Bytes) : Except IoError FileTree := do
  t.modifyAt (← t.locateFile cwd p) (· ++ bytes)

/-- The tree with a new file, where there was nothing. A symbolic link is something, wherever it
leads. -/
def createNew (p : Path) (bytes : Bytes) : Except IoError FileTree := do
  let e ← t.locateBy (fun _ => true) false cwd p
  if e.closed then throw .isADirectory
  match t.node? e.place with
  | none => return t.put e.place (.file bytes false)
  | some _ => throw .alreadyExists

def setExecutable (p : Path) : Except IoError FileTree := do
  match ← t.stat cwd p with
  | (k, .file bytes _) => return t.put k (.file bytes true)
  | _ => return t

def removeFile (p : Path) : Except IoError FileTree := do
  match ← t.lstat cwd p with
  | (_, .dir) => throw .isADirectory
  | (k, _) => return t.erase k

def rename (source target : Path) : Except IoError FileTree := do
  let (k, n) ← t.lstat cwd source
  let e ← t.locateBy (fun _ => true) false cwd target
  match n, t.node? e.place with
  | .dir, _ => throw .uncategorized
  | _, some .dir => throw .isADirectory
  | n, _ => if e.closed then throw .notADirectory else return (t.erase k).put e.place n

/-- The tree with a copy of a file, which may be run if the file may. A file copied to itself is
emptied first. -/
def copy (source target : Path) : Except IoError FileTree := do
  match ← t.stat cwd source with
  | (k, .file bytes executable) =>
    let k' ← t.locateFile cwd target
    match t.node? k' with
    | none | some (.file _ _) => return t.put k' (.file (if k = k' then [] else bytes) executable)
    | some _ => t.modifyAt k' fun _ => bytes
  | _ => throw .invalidInput

/-! ## Directories -/

def createDir (p : Path) : Except IoError FileTree := do
  let e ← t.locateBy (fun _ => true) false cwd p
  if !e.named || (t.node? e.place).isSome then throw .alreadyExists
  return t.put e.place .dir

/-- Makes the first directory of a list that can be made, each of them lying above the one before
it, and gives those before it. A directory that is there already need not be made. -/
def createTopmost (cwd : Place) (t : FileTree) (missing : List Path) :
    List Path → Except IoError (List Path × FileTree)
  | [] => .ok (missing, t)
  | p :: above =>
    match t.createDir cwd p with
    | .ok t => .ok (missing, t)
    | .error .notFound => createTopmost cwd t (p :: missing) above
    | .error .alreadyExists => if t.isDir cwd p then .ok (missing, t) else .error .alreadyExists
    | .error e => .error e

/-- Makes directories one after another, until one of them is refused. -/
def createEach (cwd : Place) (t : FileTree) : List Path → Except IoError Unit × FileTree
  | [] => (.ok (), t)
  | p :: ps =>
    match t.createDir cwd p with
    | .ok t => createEach cwd t ps
    | .error e => if e = .alreadyExists && t.isDir cwd p then createEach cwd t ps else (.error e, t)

/-- Makes a directory and the directories above it. If one of them is refused, those made before it
stay. -/
def createDirs (p : Path) : Except IoError Unit × FileTree :=
  let steps := (p :: Path.above p).filter fun p => (Path.parent? p).isSome
  match createTopmost cwd t [] steps with
  | .error e => (.error e, t)
  | .ok (missing, t) => createEach cwd t missing

/-- The names in a directory, each with whether it stands for a directory. -/
def list (p : Path) : Except IoError (List (Text × Bool)) := do
  match ← t.stat cwd p with
  | (k, .dir) => return (t.children k).map fun (name, _) => (name, t.isDir cwd (Path.join p name))
  | _ => throw .notADirectory

end FileTree

end PatchTriage
