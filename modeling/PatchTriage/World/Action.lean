import PatchTriage.Class
import PatchTriage.CommandLine
import PatchTriage.Overflow
import PatchTriage.World.Process

/-!
# Actions

What the engine does to the world is a sequence of operations (`Op`), each of which is answered
before the next one is chosen. An `Action` is such a sequence as a value: it can be run on a world
by itself (`Action.run`), or one operation at a time between the operations of others.
-/

namespace PatchTriage

inductive Stage where
  | staging
  | testing
  | gating
  | classified (c : Class)
  deriving DecidableEq

inductive Op where
  | isFile (p : Path)
  | isDir (p : Path)
  | isExecutable (p : Path)
  | read (p : Path)
  | write (p : Path) (bytes : Bytes)
  | append (p : Path) (bytes : Bytes)
  | createNew (p : Path) (bytes : Bytes)
  | setExecutable (p : Path)
  | removeFile (p : Path)
  | rename (source target : Path)
  | copy (source target : Path)
  | createDirs (p : Path)
  | list (p : Path)
  | canonical (p : Path)
  | hasProgram (name : Text)
  /-- Runs a command for at most `limit` milliseconds. Only a cancellable one is stopped when the
  work at hand is cancelled. -/
  | run (command : Invocation) (limit : Option Nat) (cancellable : Bool)
  | print (t : Text)
  | isCancelled
  | cancel
  | enter (patchId : Text) (s : Stage)
  | lockSource
  | unlockSource
  | isConfigured
  | setConfigured
  /-- Asks for the binary that counts coverage, if it has been sought before. -/
  | instrumented
  | setInstrumented (p : Option Path)
  deriving DecidableEq

abbrev Op.Reply : Op → Type
  | isFile _ | isDir _ | isExecutable _ | hasProgram _ | isCancelled | isConfigured => Bool
  | read _ => Except IoError Bytes
  | write _ _ | append _ _ | createNew _ _ | setExecutable _ | removeFile _ | rename _ _
  | copy _ _ | createDirs _ => Except IoError Unit
  | list _ => Except IoError (List (Text × Bool))
  | canonical _ => Except IoError Path
  | run _ _ _ => Except IoError Output
  | print _ | cancel | enter _ _ | lockSource | unlockSource | setConfigured
  | setInstrumented _ => Unit
  | instrumented => Option (Option Path)

inductive Action (α : Type) where
  | done (a : α)
  | step (o : Op) (next : o.Reply → Action α)

namespace Action

variable {α β : Type}

def bind : Action α → (α → Action β) → Action β
  | done a, f => f a
  | step o next, f => step o fun r => bind (next r) f

instance : Monad Action where
  pure := done
  bind := bind

def op (o : Op) : Action o.Reply := step o done

end Action

inductive Stop where
  | failure (f : Failure)
  | overflow (o : Overflow)
  deriving DecidableEq

abbrev Job := ExceptT Stop Action

namespace Job

variable {α : Type}

def op (o : Op) : Job o.Reply := ExceptT.lift (Action.op o)

def fail (f : Failure) : Job α := throw (.failure f)

def refuse (p : Problem) : Job α := fail (.of p)

def lift : Except Failure α → Job α
  | .ok a => pure a
  | .error f => fail f

def checked : Except Overflow α → Job α
  | .ok a => pure a
  | .error o => throw (.overflow o)

def reply : Except IoError α → Job α
  | .ok a => pure a
  | .error e => refuse (.io e)

def explain (p : Problem) (work : Job α) : Job α :=
  tryCatch work fun
    | .failure f => fail (f.within p)
    | .overflow o => throw (.overflow o)

def attempt (work : Job α) : Job (Except Failure α) :=
  tryCatch (do return .ok (← work)) fun
    | .failure f => return .error f
    | .overflow o => throw (.overflow o)

def orElseAfter (cleanup : Job Unit) (work : Job α) : Job α :=
  tryCatch work fun s => do
    cleanup
    throw s

def command (c : Invocation) (limit : Nat) (cancellable : Bool) : Job Output :=
  explain (.spawn (CommandLine.render c.program c.args))
    (do reply (← op (.run c (some limit) cancellable)))

/-- The command that runs a script: the script itself if it may be run, or else the shell on it. -/
def scriptCommand (p : Path) : Job Invocation := do
  if ← op (.isExecutable p) then return { program := p }
  return { program := "sh", args := [p] }

def isFile (p : Path) : Job Bool := op (.isFile p)

def isDir (p : Path) : Job Bool := op (.isDir p)

def read (p : Path) : Job Bytes := do reply (← op (.read p))

def readText (p : Path) : Job Text := do
  match Utf8.strict? (← read p) with
  | some t => return t
  | none => refuse (.io .invalidData)

def write (p : Path) (bytes : Bytes) : Job Unit := do
  explain (.write p) (do reply (← op (.write p bytes)))

def writeText (p : Path) (t : Text) : Job Unit := write p (Utf8.encode t)

def ensureDir (p : Path) : Job Unit := do explain (.create p) (do reply (← op (.createDirs p)))

def removeStale (p : Path) : Job Unit := do let _ ← op (.removeFile p)

end Job

end PatchTriage
