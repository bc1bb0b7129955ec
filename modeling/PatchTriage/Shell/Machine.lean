import PatchTriage.Shell.Mode
import PatchTriage.World.Process

/-!
# The machine that commands run on

All processes of a command share a file tree, a clock and open files (`Machine`). A process sees the
file tree from its working directory, as far as the modes of directories let it.
-/

namespace PatchTriage.Shell

inductive Channel where
  | file (place : Place)
  | removed (contents : Bytes)
  | dir (place : Place)
  | device (d : Device)
  | pipe (number : Nat)
  | engine (stream : Nat)
  deriving DecidableEq

structure OpenFile where
  channel : Channel
  offset : Nat := 0
  append : Bool := false
  readable : Bool := true
  writable : Bool := true

structure Facts where
  mode : Nat
  isOwn : Bool := true
  modified : Nat
  identity : Option Nat := none

def Facts.initial : Node → Facts
  | .file _ executable => { mode := if executable then 493 else 420, modified := 1 }
  | .dir | .tool _ => { mode := 493, modified := 1 }
  | .device _ => { mode := 438, modified := 1 }
  | .link _ => { mode := 511, modified := 1 }

structure Limit where
  soft : Option Nat
  hard : Option Nat

structure Process where
  parent : Nat
  cwd : Place
  descriptors : List (Nat × Nat) := []
  exit : Option Exit := none
  ignored : List Nat := []
  caught : List Nat := []
  pending : List Nat := []
  fatal : Option Nat := none
  stopped : Bool := false
  limits : List (Char × Limit) := []

structure Machine where
  tree : FileTree
  facts : List (Place × Facts) := []
  now : Nat := 0
  processes : List (Nat × Process) := []
  files : List (Nat × OpenFile) := []
  pipes : List (Nat × Raw) := []
  collected : List (Nat × Raw) := []
  nextNumber : Nat
  rounds : Nat := 0

namespace Machine

variable (m : Machine)

/-! ## Signals -/

def killSignal : Nat := 9

def pipeSignal : Nat := 13

def sizeSignal : Nat := 25

def continueSignal : Nat := 18

def harmless : List Nat := [17, 18, 23, 28]

def stopping : List Nat := [19, 20, 21, 22]

/-! ## Processes -/

def process? (pid : Nat) : Option Process := m.processes.lookup pid

def isRunning (pid : Nat) : Bool := (m.process? pid).any (·.exit.isNone)

def onKey {α : Type} (key : Nat) (f : α → α) (entries : List (Nat × α)) : List (Nat × α) :=
  entries.map fun (k, x) => (k, if k = key then f x else x)

def onProcess (pid : Nat) (f : Process → Process) : Machine :=
  { m with processes := onKey pid f m.processes }

def cwd (pid : Nat) : Place := ((m.process? pid).map (·.cwd)).getD []

def descriptors (pid : Nat) : List (Nat × Nat) := ((m.process? pid).map (·.descriptors)).getD []

def fresh : Nat × Machine := (m.nextNumber, { m with nextNumber := m.nextNumber + 1 })

def heldFiles : List Nat :=
  m.processes.flatMap fun (_, p) => if p.exit.isNone then p.descriptors.map Prod.snd else []

def dropUnused : Machine :=
  let held := m.heldFiles
  let files := m.files.filter fun (k, _) => held.contains k
  let pipes := m.pipes.filter fun (k, _) => files.any fun (_, f) => f.channel = .pipe k
  { m with files, pipes }

def fork (pid : Nat) : Nat × Machine :=
  let (child, m) := m.fresh
  match m.process? pid with
  | none => (child, m)
  | some p =>
    let copy := { p with parent := pid, pending := [], fatal := none, stopped := false }
    (child, { m with processes := m.processes ++ [(child, copy)] })

def exit (m : Machine) (pid : Nat) (e : Exit) : Machine :=
  let m := m.onProcess pid fun p => { p with exit := some e, descriptors := [] }
  let processes := m.processes.filter fun (_, p) => !(p.parent = pid && p.exit.isSome)
  let processes :=
    processes.map fun (k, p) => (k, if p.parent = pid then { p with parent := 0 } else p)
  let processes := processes.filter fun (_, p) => !(p.parent = 0 && p.exit.isSome)
  { m with processes }.dropUnused

def reap? (pid : Nat) : Option (Exit × Machine) :=
  match m.process? pid with
  | some { exit := some e, .. } => some (e, { m with processes := m.processes.filter (·.1 ≠ pid) })
  | _ => none

def signal (pid number : Nat) : Machine :=
  m.onProcess pid fun p =>
    if p.exit.isSome || number = 0 then p
    else if number = killSignal then { p with fatal := some number }
    else
      let p := if number = continueSignal then { p with stopped := false } else p
      if p.ignored.contains number then p
      else if p.caught.contains number then
        if p.pending.contains number then p else { p with pending := p.pending ++ [number] }
      else if stopping.contains number then { p with stopped := true }
      else if harmless.contains number then p
      else { p with fatal := some (p.fatal.getD number) }

/-! ## Files -/

def tick : Nat := 4000

def stamp : Nat := 2 + m.now / tick

variable (k : Place)

def factsOf (n : Node) : Facts := (m.facts.lookup k).getD (Facts.initial n)

def allows (m : Machine) (k : Place) (n : Node) (bit : Nat) : Bool :=
  let f := m.factsOf k n
  Mode.allows f.mode f.isOwn bit

def mayEnter : Bool := m.allows k .dir Mode.enter

def setFacts (f : Facts) : Machine := { m with facts := (k, f) :: m.facts.filter (·.1 ≠ k) }

def touch : Machine :=
  match m.tree.node? k with
  | none => m
  | some n => m.setFacts k { m.factsOf k n with modified := m.stamp }

def names : List Place :=
  match (m.facts.lookup k).bind (·.identity) with
  | none => [k]
  | some n => m.facts.filterMap fun (k, f) => if f.identity = some n then some k else none

def isSame (a b : Place) : Bool := a = b || (m.names a).contains b

def create (n : Node) (mode : Nat) : Machine :=
  { m with tree := m.tree.put k n }.setFacts k { mode, modified := m.stamp } |>.touch k.dropLast

def setContents (contents : Bytes) : Machine :=
  (m.names k).foldl (fun m k =>
    match m.tree.node? k with
    | some (.file _ executable) =>
      { m with tree := m.tree.put k (.file contents executable) }.touch k
    | some (.tool _) => { m with tree := m.tree.put k (.file contents true) }.touch k
    | _ => m) m

def setMode (mode : Nat) : Machine :=
  (m.names k).foldl (fun m k =>
    match m.tree.node? k with
    | none => m
    | some n =>
      let m := m.setFacts k { m.factsOf k n with mode }
      match n with
      | .file contents _ =>
        { m with tree := m.tree.put k (.file contents (Mode.has mode (Mode.enter * Mode.owner))) }
      | _ => m) m

def link (k new : Place) : Machine :=
  match m.tree.node? k with
  | none => m
  | some n =>
    let f := m.factsOf k n
    let (number, m) := match f.identity with
      | some number => (number, m)
      | none => m.fresh
    let f := { f with identity := some number }
    { m.setFacts k f with tree := m.tree.put new n }.setFacts new f |>.touch new.dropLast

def mayChange (dir : Place) : Bool := m.allows dir .dir Mode.write && m.mayEnter dir

def mayRemove : Bool :=
  let dir := k.dropLast
  let isSticky := Mode.has (m.factsOf dir .dir).mode Mode.sticky
  let isOwn := (m.tree.node? k).all fun n => (m.factsOf k n).isOwn
  m.mayChange dir && (!isSticky || isOwn || (m.factsOf dir .dir).isOwn)

/-! ## Limits -/

def initialLimits : List (Char × Limit) :=
  [('s', ⟨some 8388608, none⟩), ('c', ⟨some 0, none⟩), ('l', ⟨some 8388608, some 8388608⟩),
    ('n', ⟨some 1024, some 1048576⟩), ('r', ⟨some 0, some 0⟩)]

def limit (pid : Nat) (letter : Char) : Limit :=
  (((m.process? pid).bind (·.limits.lookup letter)).orElse
    fun _ => initialLimits.lookup letter).getD ⟨none, none⟩

def setLimit (pid : Nat) (letter : Char) (l : Limit) : Machine :=
  m.onProcess pid fun p => { p with limits := (letter, l) :: p.limits.filter (·.1 ≠ letter) }

variable (pid fd : Nat)

def mayHave : Bool := (m.limit pid 'n').soft.all (fd < ·)

/-! ## Descriptors -/

def openFile? : Option (Nat × OpenFile) := do
  let number ← (m.descriptors pid).lookup fd
  return (number, ← m.files.lookup number)

def fileSize? (place : Place) : Option Nat :=
  match m.tree.node? place with
  | some (.file contents _) => some contents.length
  | _ => none

def isEndless : Bool :=
  match m.openFile? pid fd with
  | some (_, { channel := .device d, .. }) => d ≠ .null
  | _ => false

def freeDescriptor (pid start : Nat) : Nat :=
  let used := (m.descriptors pid).map Prod.fst
  ((List.range' start (used.length + 1)).find? (!used.contains ·)).getD start

def bindDescriptor (pid fd number : Nat) : Machine :=
  m.onProcess pid fun p => { p with descriptors := (fd, number) :: p.descriptors.filter (·.1 ≠ fd) }

def addFile (f : OpenFile) : Machine :=
  let (number, m) := m.fresh
  ({ m with files := (number, f) :: m.files }.bindDescriptor pid fd number).dropUnused

def closeDescriptor : Machine :=
  (m.onProcess pid fun p => { p with descriptors := p.descriptors.filter (·.1 ≠ fd) }).dropUnused

def duplicate (pid source target : Nat) : Bool × Machine :=
  match (m.descriptors pid).lookup source with
  | none => (false, m)
  | some number =>
    if source = target then (true, m) else (true, (m.bindDescriptor pid target number).dropUnused)

def setDescriptors (pid : Nat) (ds : List (Nat × Nat)) : Machine :=
  (m.onProcess pid fun p => { p with descriptors := ds }).dropUnused

def addPipe (pid readEnd writeEnd : Nat) : Machine :=
  let (number, m) := m.fresh
  let m := { m with pipes := (number, []) :: m.pipes }
  let (r, m) := m.fresh
  let (w, m) := m.fresh
  let reading : OpenFile := { channel := .pipe number, writable := false }
  let writing : OpenFile := { channel := .pipe number, readable := false }
  let m := { m with files := (r, reading) :: (w, writing) :: m.files }
  (m.bindDescriptor pid readEnd r).bindDescriptor pid writeEnd w

def hasEnd (pipe : Nat) (writing : Bool) : Bool :=
  let held := m.heldFiles
  m.files.any fun (k, f) =>
    f.channel = .pipe pipe && (if writing then f.writable else f.readable) && held.contains k

def feedsEngine : Bool :=
  let held := m.heldFiles
  m.files.any fun (k, f) => (f.channel matches .engine _) && held.contains k

/-! ## Reading and writing -/

def pipeCapacity : Nat := 65536

def onFile (number : Nat) (f : OpenFile → OpenFile) : Machine :=
  { m with files := onKey number f m.files }

def seek (pid fd offset : Nat) : Machine :=
  match m.openFile? pid fd with
  | some (number, { channel := .file _, .. }) | some (number, { channel := .removed _, .. }) =>
    m.onFile number fun f => { f with offset }
  | _ => m

def splice (old : Bytes) (offset : Nat) (new : Bytes) : Bytes :=
  if offset = old.length then old ++ new
  else
    let front := old.take offset
    front ++ List.replicate (offset - front.length) 0 ++ new ++ old.drop (offset + new.length)

inductive Written where
  | ok
  | partly (written pipe : Nat)
  | short (written : Nat)
  | broken
  | tooLarge
  | refused (message : Raw)

def write (t : Raw) : Written × Machine :=
  match (m.openFile? pid fd).filter (·.2.writable) with
  | none => (.refused "Bad file descriptor", m)
  | some (number, f) =>
    match f.channel with
    | .file place =>
      match m.tree.node? place with
      | some (.file old _) =>
        let offset := if f.append then old.length else f.offset
        let room := ((m.limit pid 'f').soft.map (· - offset)).getD t.length
        if room = 0 && !t.isEmpty then (.tooLarge, m)
        else
          let bytes := Raw.toBytes (t.take room)
          let m := m.setContents place (splice old offset bytes)
          (if t.length ≤ room then .ok else .short room,
            m.onFile number fun f => { f with offset := offset + bytes.length })
      | _ => (.ok, m)
    | .removed old =>
      let bytes := Raw.toBytes t
      let offset := if f.append then old.length else f.offset
      (.ok, m.onFile number fun f =>
        { f with channel := .removed (splice old offset bytes), offset := offset + bytes.length })
    | .dir _ => (.refused "Bad file descriptor", m)
    | .device .full => (.refused "No space left on device", m)
    | .device _ => (.ok, m)
    | .pipe pipe =>
      if !m.hasEnd pipe false then (.broken, m)
      else
        let held := (m.pipes.lookup pipe).getD []
        let room := pipeCapacity - held.length
        let now := t.take room
        let m := { m with pipes := onKey pipe (· ++ now) m.pipes }
        if t.length ≤ room then (.ok, m) else (.partly now.length pipe, m)
    | .engine stream => (.ok, { m with collected := (stream, t) :: m.collected })

def zeros : Nat := 65536

inductive Got where
  | bytes (t : Raw)
  | empty (pipe : Nat)
  | refused (message : Raw)

inductive Portion where
  | atMost (count : Nat)
  | line

def Portion.of {α : Type} (p : Portion) (isEnd : α → Bool) (t : List α) : List α :=
  match p with
  | .atMost count => t.take count
  | .line => t.take ((t.takeWhile (!isEnd ·)).length + 1)

def readPortion (p : Portion) : Got × Machine :=
  let pick (t : Raw) : Raw := p.of (· = '\n') t
  match (m.openFile? pid fd).filter (·.2.readable) with
  | none => (.refused "Bad file descriptor", m)
  | some (number, f) =>
    let from' (contents : Bytes) : Got × Machine :=
      let got := Raw.ofBytes (p.of (· = 10) (contents.drop f.offset))
      (.bytes got, m.onFile number fun f => { f with offset := f.offset + got.length })
    match f.channel with
    | .file place =>
      match m.tree.node? place with
      | some (.file contents _) => from' contents
      | _ => (.bytes [], m)
    | .removed contents => from' contents
    | .dir _ => (.refused "Is a directory", m)
    | .device .null => (.bytes [], m)
    | .device _ => (.bytes (pick (List.replicate zeros '\x00')), m)
    | .pipe pipe =>
      match m.pipes.lookup pipe with
      | none | some [] => if m.hasEnd pipe true then (.empty pipe, m) else (.bytes [], m)
      | some held =>
        let got := pick held
        (.bytes got, { m with pipes := onKey pipe (·.drop got.length) m.pipes })
    | .engine _ => (.refused "Bad file descriptor", m)

def read (pid fd count : Nat) : Got × Machine := m.readPortion pid fd (.atMost count)

def readLine : Got × Machine := m.readPortion pid fd .line

def output (stream : Nat) : Bytes :=
  let parts := m.collected.reverse.filterMap fun (k, t) => if k = stream then some t else none
  Raw.toBytes parts.flatten

def remove (place : Place) : Machine :=
  let isBelow (k : Place) : Bool := (FileTree.below? place k).isSome
  let detach (f : OpenFile) : OpenFile :=
    match f.channel with
    | .file k =>
      if !isBelow k then f
      else
        match (m.names k).find? (!isBelow ·), m.tree.node? k with
        | some other, _ => { f with channel := .file other }
        | none, some (.file contents _) => { f with channel := .removed contents }
        | none, _ => { f with channel := .removed [] }
    | _ => f
  let m := { m with
    tree := m.tree.filter fun (k, _) => !isBelow k
    facts := m.facts.filter fun (k, _) => !isBelow k
    files := m.files.map fun (k, f) => (k, detach f) }
  m.touch place.dropLast

end Machine

/-! ## What paths lead to -/

structure OpenMode where
  read : Bool := false
  write : Bool := false
  create : Bool := false
  truncate : Bool := false
  append : Bool := false
  exclusive : Bool := false

def descriptorDir : Place := ["proc", "self", "fd"]

def ownDescriptor? (place : Place) : Option Nat :=
  match FileTree.below? descriptorDir place with
  | some [name] => (Text.readNat? name).filter fun n => Text.ofNat n = name
  | _ => none

namespace Machine

variable (m : Machine)

def locate (pid : Nat) (follow : Bool) (p : Path) : Except IoError FileTree.Entry :=
  m.tree.locateBy m.mayEnter follow (m.cwd pid) p

def stat (pid : Nat) (follow : Bool) (p : Path) : Except IoError (Place × Node) := do
  let entry ← m.locate pid follow p
  match ownDescriptor? entry.place with
  | none => entry.node m.tree
  | some fd =>
    match m.openFile? pid fd with
    | none => throw .notFound
    | some (_, f) =>
      if !follow then return (entry.place, .link [])
      match f.channel with
      | .file k =>
        match m.tree.node? k with
        | some n => return (k, n)
        | none => throw .notFound
      | .dir k => return (k, .dir)
      | .device d => return (entry.place, .device d)
      | .removed _ | .pipe _ | .engine _ => return (entry.place, .device (.descriptor fd))

def isDir (pid : Nat) (p : Path) : Bool := m.stat pid true p matches .ok (_, .dir)

def list (pid : Nat) (place : Place) : Except IoError (List (Text × Node)) :=
  if !m.allows place .dir Mode.read then .error .permissionDenied
  else if place = descriptorDir then
    let used := m.freeDescriptor pid 0 :: (m.descriptors pid).map Prod.fst
    .ok (used.map fun fd => (Text.ofNat fd, .link []))
  else .ok (m.tree.children place)

def openPlace (mode : OpenMode) (newMode : Nat) (place : Place) :
    Except IoError (OpenFile × Machine) :=
  let base : OpenFile :=
    { channel := .device .null, append := mode.append, readable := mode.read,
      writable := mode.write }
  match m.tree.node? place with
  | none =>
    if !mode.create then .error .notFound
    else if !m.mayChange place.dropLast then .error .permissionDenied
    else
      let executable := Mode.has newMode (Mode.enter * Mode.owner)
      .ok ({ base with channel := .file place }, m.create place (.file [] executable) newMode)
  | some n =>
    let isAllowed := (!mode.read || m.allows place n Mode.read)
      && (!mode.write || m.allows place n Mode.write)
    if mode.exclusive then .error .alreadyExists
    else if n = .dir && mode.write then .error .isADirectory
    else if !isAllowed then .error .permissionDenied
    else
      match n with
      | .dir => .ok ({ base with channel := .dir place }, m)
      | .file _ _ | .tool _ =>
        .ok ({ base with channel := .file place },
          if mode.truncate then m.setContents place [] else m)
      | .device .terminal => .error .noSuchDevice
      | .device d => .ok ({ base with channel := .device d }, m)
      | .link _ => .error .filesystemLoop

def openPath (pid : Nat) (mode : OpenMode) (newMode : Nat) (p : Path) :
    Except IoError (OpenFile × Machine) := do
  if !m.mayHave pid (m.freeDescriptor pid 0) then throw .tooManyOpenFiles
  let entry ← m.locate pid (!mode.exclusive) p
  match ownDescriptor? entry.place with
  | some fd =>
    match m.openFile? pid fd with
    | none => throw .notFound
    | some (_, { channel := .file place, .. }) => m.openPlace mode newMode place
    | some (_, f) =>
      return ({ channel := f.channel, readable := mode.read, writable := mode.write }, m)
  | none =>
    if entry.closed then
      if mode.create then throw .isADirectory
      let _ ← entry.node m.tree
    m.openPlace mode newMode entry.place

end Machine

end PatchTriage.Shell
