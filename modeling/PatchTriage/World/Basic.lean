import PatchTriage.World.Action

/-!
# The world

Everything that operations act on, and what each of them does (`Op.perform`). What commands do is
left to a host, so that every statement about actions holds for all hosts.
-/

namespace PatchTriage

structure World where
  tree : FileTree
  cwd : Place
  env : List (Text × Text) := []
  cores : Nat := 1
  clock : Nat := 0
  cancelAt : Option Nat := none
  printed : Text := []
  stages : List (Text × Stage) := []
  sourceFreeAt : Nat := 0
  configured : Bool := false
  instrumented : Option (Option Path) := none
  deriving DecidableEq

namespace World

def searchVariable : Text := "PATH"

def searchDirs (env : List (Text × Text)) : List Path :=
  match env.lookup searchVariable with
  | some dirs => (Text.splitOn ':' dirs).map fun d => if d.isEmpty then ['.'] else d
  | none => []

/-- Variables with others put over them; the last one with a name counts. -/
def overrideEnv (base extra : List (Text × Text)) : List (Text × Text) :=
  extra.foldl (fun env (k, v) => SortedList.insert Text.compare k v env) base

def hasProgram (w : World) (name : Text) : Bool :=
  (searchDirs w.env).any fun dir =>
    let p := Path.join dir name
    w.tree.isFile w.cwd p && w.tree.isExecutable w.cwd p

/-- The world after a change to its tree, if the change is not refused. -/
def change (w : World) : Except IoError FileTree → Except IoError Unit × World
  | .ok t => (.ok (), { w with tree := t })
  | .error e => (.error e, w)

def commandDir (w : World) (command : Invocation) : Except IoError Place :=
  match command.dir with
  | none => .ok w.cwd
  | some d =>
    match w.tree.stat w.cwd d with
    | .ok (k, .dir) => .ok k
    | .ok _ => .error .notADirectory
    | .error e => .error e

def isPassable (command : Invocation) : Bool :=
  let settings := command.env.flatMap fun (name, value) => [name, value]
  (command.program :: command.args ++ settings ++ command.dir.toList).all ('\x00' ∉ ·)

def runCommand (host : Host) (w : World) (command : Invocation) (limit : Option Nat)
    (cancellable : Bool) : Except IoError Output × World :=
  let cancel := if cancellable then w.cancelAt.map (· - w.clock) else none
  let stop := Process.deadline limit cancel
  let started : Except IoError Ran := do
    unless isPassable command do throw .invalidInput
    let cwd ← w.commandDir command
    host
      { program := command.program, args := command.args
        env := overrideEnv w.env command.env, cwd, allowance := stop.map Prod.fst } w.tree
  match started with
  | .error e => (.error e, w)
  | .ok r =>
    let (output, time) := Process.observe stop r
    (.ok output, { w with tree := r.tree, clock := w.clock + time })

end World

def Op.perform (host : Host) (w : World) : (o : Op) → o.Reply × World
  | isFile p => (w.tree.isFile w.cwd p, w)
  | isDir p => (w.tree.isDir w.cwd p, w)
  | isExecutable p => (w.tree.isExecutable w.cwd p, w)
  | read p => (w.tree.read w.cwd p, w)
  | write p bytes => w.change (w.tree.write w.cwd p bytes)
  | append p bytes => w.change (w.tree.append w.cwd p bytes)
  | createNew p bytes => w.change (w.tree.createNew w.cwd p bytes)
  | setExecutable p => w.change (w.tree.setExecutable w.cwd p)
  | removeFile p => w.change (w.tree.removeFile w.cwd p)
  | rename source target => w.change (w.tree.rename w.cwd source target)
  | copy source target => w.change (w.tree.copy w.cwd source target)
  | createDirs p =>
    let (r, t) := w.tree.createDirs w.cwd p
    (r, { w with tree := t })
  | list p => (w.tree.list w.cwd p, w)
  | canonical p => (w.tree.canonical w.cwd p, w)
  | hasProgram name => (w.hasProgram name, w)
  | run command limit cancellable => w.runCommand host command limit cancellable
  | print t => ((), { w with printed := w.printed ++ t })
  | isCancelled => ((w.cancelAt.map (decide <| · ≤ w.clock)).getD false, w)
  | cancel => ((), { w with cancelAt := some (min w.clock (w.cancelAt.getD w.clock)) })
  | enter patchId s => ((), { w with stages := SortedList.insert Text.compare patchId s w.stages })
  | lockSource => ((), { w with clock := max w.clock w.sourceFreeAt })
  | unlockSource => ((), { w with sourceFreeAt := w.clock })
  | isConfigured => (w.configured, w)
  | setConfigured => ((), { w with configured := true })
  | instrumented => (w.instrumented, w)
  | setInstrumented p => ((), { w with instrumented := some p })

def Action.run {α : Type} (host : Host) : Action α → World → α × World
  | done a, w => (a, w)
  | step o next, w =>
    let (r, w') := o.perform host w
    run host (next r) w'

def Job.run {α : Type} (host : Host) (work : Job α) (w : World) : Except Stop α × World :=
  Action.run host (ExceptT.run work) w

end PatchTriage
