import PatchTriage.Shell.Arithmetic
import PatchTriage.Shell.Grammar
import PatchTriage.Shell.Machine

/-!
# Threads and the state of a shell

A process runs until it has to wait; what it does afterwards is a function of the machine it finds
then (`Thread`). `Proc` is the monad of its steps. It complains with the script, the line and the
command at work.
-/

namespace PatchTriage.Shell

inductive Wait where
  | until (time : Nat)
  | input (pipe : Nat) (interruptible : Bool)
  | output (pipe : Nat)
  | child (pids : List Nat) (interruptible : Bool)

inductive Thread where
  | ended (m : Machine)
  | wait (w : Wait) (m : Machine) (next : Machine → Thread)
  | fork (pid : Nat) (m : Machine) (child next : Machine → Thread)

structure Task where
  pid : Nat
  wait : Wait
  next : Machine → Thread

structure Schedule where
  machine : Machine
  tasks : List Task
  first : Nat
  ended : Option Nat := none
  timeUp : Bool := false

namespace Schedule

def forkTime : Nat := 80

def startTime : Nat := 150

def readyAt (m : Machine) (t : Task) : Option Nat :=
  match m.process? t.pid with
  | none => none
  | some p =>
    if p.stopped then none
    else
      let holds : Option Nat := some m.now
      match t.wait with
      | .until time => some (max time m.now)
      | .input pipe interruptible =>
        let isEmpty := ((m.pipes.lookup pipe).getD []).isEmpty
        let signalled := interruptible && !p.pending.isEmpty
        if !isEmpty || signalled || !m.hasEnd pipe true then holds else none
      | .output pipe =>
        let held := ((m.pipes.lookup pipe).getD []).length
        if held < Machine.pipeCapacity || !m.hasEnd pipe false then holds else none
      | .child pids interruptible =>
        if pids.any (!m.isRunning ·) || (interruptible && !p.pending.isEmpty) then holds else none

def next? (m : Machine) (tasks : List Task) : Option (Nat × Task) :=
  tasks.foldl (fun best t =>
    match readyAt m t, best with
    | none, _ => best
    | some time, none => some (time, t)
    | some time, some (earliest, _) => if time < earliest then some (time, t) else best) none

def endSignalled (s : Schedule) : Schedule :=
  let hit := s.machine.processes.filterMap fun (pid, p) =>
    if p.exit.isNone then p.fatal.map (pid, ·) else none
  if hit.isEmpty then s
  else
    { s with
      machine := hit.foldl (fun m (pid, n) => m.exit pid (.signal n)) s.machine
      tasks := s.tasks.filter fun t => !hit.any (·.1 = t.pid) }

def noteEnd (s : Schedule) : Schedule :=
  if s.ended.isNone && !s.machine.isRunning s.first then { s with ended := some s.machine.now }
  else s

def advance (s : Schedule) (time : Nat) (t : Task) : Schedule :=
  let others := s.tasks.filter (·.pid ≠ t.pid)
  match t.next { s.machine with now := time } with
  | .ended m => { s with machine := m, tasks := others }
  | .wait wait m next => { s with machine := m, tasks := others ++ [{ pid := t.pid, wait, next }] }
  | .fork pid m child next =>
    let parent : Task := { pid := t.pid, wait := .until (m.now + forkTime), next }
    { s with
      machine := m
      tasks := others ++ [parent, { pid, wait := .until (m.now + startTime), next := child }] }

def run (deadline : Option Nat) : (fuel : Nat) → Schedule → Schedule
  | 0, s => { s with timeUp := s.ended.isNone }
  | fuel + 1, s =>
    if s.ended.isSome && !s.machine.feedsEngine then s
    else
      match next? s.machine s.tasks with
      | none => { s with timeUp := s.ended.isNone }
      | some (time, t) =>
        let isLate := s.ended.isNone && ((deadline.map (decide <| · ≤ time)).getD false)
        if isLate then { s with timeUp := true }
        else run deadline fuel (s.advance time t).endSignalled.noteEnd

def maxSteps : Nat := 1000000000000

end Schedule

/-!
## The state of a shell

What a shell keeps for itself: variables, functions, options, the position in its script, and the
processes it has started.
-/

structure Variable where
  value : Option Raw := none
  exported : Bool := false
  readOnly : Bool := false

structure JobEntry where
  number : Nat
  pids : List Nat
  ended : List (Nat × Exit) := []
  waited : Bool := false

def JobEntry.isDone (j : JobEntry) : Bool := j.pids.all fun pid => (j.ended.lookup pid).isSome

def JobEntry.exit? (j : JobEntry) : Option Exit :=
  j.pids.getLast?.bind fun pid => j.ended.lookup pid

structure OptionCursor where
  index : Nat := 1
  offset : Option Nat := none

structure Scope where
  vars : List (Raw × Option Variable) := []
  options : Option (List Char) := none

structure State where
  pid : Nat
  rootPid : Nat
  name : Raw
  args : List Raw := []
  vars : List (Raw × Variable) := []
  functions : List (Raw × Command) := []
  aliases : List (Raw × Raw) := []
  options : List Char := []
  status : Nat := 0
  substituted : Nat := 0
  lastBackground : Option Nat := none
  jobs : List JobEntry := []
  line : Nat := 1
  reached : Nat := 1
  commandName : Option Raw := none
  loops : Nat := 0
  functionDepth : Nat := 0
  scopes : List Scope := []
  traps : List (Nat × Raw) := []
  ignoredAtStart : List Nat := []
  cursor : OptionCursor := {}
  documents : List (Nat × Word) := []
  nextDocument : Nat := 0
  mask : Nat := 18
  here : Raw := ['/']
  hashed : List (Raw × Nat) := []
  stale : List Raw := []
  unwritten : Option Raw := none
  trapStatus : Option Nat := none

inductive Halt where
  | exit
  | mistake
  | leaveLoops (count : Nat)
  | nextRound (count : Nat)
  | leaveFunction (explicit : Bool)
  deriving DecidableEq

namespace State

variable (s : State)

def has (option : Char) : Bool := s.options.contains option

def value? (name : Raw) : Option Raw := (s.vars.lookup name).bind (·.value)

def setVariable (name : Raw) (v : Variable) : State :=
  { s with vars := (name, v) :: s.vars.filter (·.1 ≠ name) }

def fixedVariables : List Raw := ["IFS", "MAIL", "MAILPATH", "OPTIND", "PATH", "PS1", "PS2", "PS4"]

def dropVariable (name : Raw) : State :=
  match s.vars.lookup name with
  | none => s
  | some v =>
    if fixedVariables.contains name then s.setVariable name { v with value := none }
    else { s with vars := s.vars.filter (·.1 ≠ name) }

def isReadOnly (name : Raw) : Bool := ((s.vars.lookup name).map (·.readOnly)).getD false

def environment : List (Raw × Raw) :=
  s.vars.filterMap fun (name, v) => if v.exported then v.value.map (name, ·) else none

def separators? : Option Raw := s.value? "IFS"

end State

/-! ## What processes do -/

def Proc (α : Type) : Type := State → Machine → (Except Halt α → State → Machine → Thread) → Thread

namespace Proc

variable {α β : Type}

instance : Monad Proc where
  pure a := fun s m next => next (.ok a) s m
  bind step f := fun s m next => step s m fun r s m =>
    match r with
    | .ok a => f a s m next
    | .error h => next (.error h) s m

def get : Proc State := fun s m next => next (.ok s) s m

def modify (f : State → State) : Proc Unit := fun s m next => next (.ok ()) (f s) m

def machine : Proc Machine := fun s m next => next (.ok m) s m

def onMachine (f : (pid : Nat) → Machine → Machine) : Proc Unit := fun s m next =>
  next (.ok ()) s (f s.pid m)

def onProcess (f : Process → Process) : Proc Unit := onMachine fun pid m => m.onProcess pid f

def close (fd : Nat) : Proc Unit := onMachine fun pid m => m.closeDescriptor pid fd

def moveDescriptor (fd target : Nat) : Proc Unit :=
  onMachine fun pid m => (m.duplicate pid fd target).2.closeDescriptor pid fd

def call (f : (pid : Nat) → Machine → α × Machine) : Proc α := fun s m next =>
  let (a, m) := f s.pid m
  next (.ok a) s m

def halt (h : Halt) : Proc α := fun s m next => next (.error h) s m

def attempt (body : Proc α) : Proc (Except Halt α) :=
  fun s m next => body s m fun r s m => next (.ok r) s m

def ofExcept : Except Halt α → Proc α
  | .ok a => pure a
  | .error h => halt h

def finally' (body : Proc α) (cleanup : Proc Unit) : Proc α := do
  let r ← attempt body
  cleanup
  ofExcept r

def wait (w : Wait) : Proc Unit := fun s m next => .wait w m fun m => next (.ok ()) s m

def spend (time : Nat) : Proc Unit := do wait (.until ((← machine).now + time))

def maxSteps : Nat := 1000000000000

def repeatUpTo {σ : Type} (onEnd : Proc α) (step : σ → Proc (σ ⊕ α)) : (fuel : Nat) → σ → Proc α
  | 0, _ => onEnd
  | fuel + 1, x => fun s m next =>
    step x s m fun r s m =>
      match r with
      | .ok (.inl x) => repeatUpTo onEnd step fuel x s m next
      | .ok (.inr a) => next (.ok a) s m
      | .error h => next (.error h) s m

def iterate {σ : Type} (start : σ) (step : σ → Proc (σ ⊕ α)) : Proc α :=
  repeatUpTo (halt .exit) step maxSteps start

def forEach {σ : Type} (xs : List σ) (step : σ → Proc Unit) : Proc Unit :=
  match xs with
  | [] => pure ()
  | x :: xs => do
    step x
    forEach xs step

def collect {σ : Type} (xs : List σ) (step : σ → Proc α) : Proc (List α) :=
  match xs with
  | [] => pure []
  | x :: xs => do
    let a ← step x
    return a :: (← collect xs step)

/-! ## Processes -/

def exitOf (status : Nat) : Exit := .code (status % 256)

def toEnd (body : Proc Unit) (s : State) (m : Machine) : Thread :=
  body s m fun _ s m => .ended (m.exit s.pid (exitOf s.status))

def fork (child : Proc Unit) : Proc Nat := fun s m next =>
  let (pid, m) := m.fork s.pid
  .fork pid m (toEnd child { s with pid }) fun m => next (.ok pid) s m

def die (signal : Nat) : Proc α := do
  onProcess fun p => { p with fatal := some signal }
  spend 0
  halt .exit

def cwd : Proc Place := fun s m next => next (.ok (m.cwd s.pid)) s m

def tree : Proc FileTree := fun s m next => next (.ok m.tree) s m

/-! ## Input and output -/

def outlives (signal : Nat) : Proc Bool :=
  call fun pid m =>
    match m.process? pid with
    | some p =>
      if p.caught.contains signal then (true, m.signal pid signal)
      else (p.ignored.contains signal, m)
    | none => (false, m)

def write (fd : Nat) (t : Raw) : Proc (Except Raw Unit) := do
  if t.isEmpty then return .ok ()
  iterate t fun t => do
    match ← call fun pid m => m.write pid fd t with
    | .ok => return .inr (.ok ())
    | .partly written pipe =>
      wait (.output pipe)
      return .inl (t.drop written)
    | .short written => return .inl (t.drop written)
    | .broken =>
      if !(← outlives Machine.pipeSignal) then die Machine.pipeSignal
      return .inr (.error "Broken pipe")
    | .tooLarge =>
      if !(← outlives Machine.sizeSignal) then die Machine.sizeSignal
      return .inr (.error "File too large")
    | .refused message => return .inr (.error message)

def writeError (t : Raw) : Proc Unit := do let _ ← write 2 t

def endlessTime : Nat := 10000

def spendOnEndless (fd : Nat) : Proc Bool := do
  let isEndless ← call fun pid m => (m.isEndless pid fd, m)
  if isEndless then spend endlessTime
  return isEndless

def read (fd count : Nat) : Proc (Except Raw Raw) := do
  let _ ← spendOnEndless fd
  iterate () fun _ => do
    match ← call fun pid m => m.read pid fd count with
    | .bytes t => return .inr (.ok t)
    | .refused message => return .inr (.error message)
    | .empty pipe =>
      wait (.input pipe false)
      return .inl ()

def isSignalled : Proc Bool := fun s m next =>
  next (.ok (((m.process? s.pid).map (!·.pending.isEmpty)).getD false)) s m

def readLine (fd : Nat) : Proc (Except Raw Raw) := do
  let _ ← spendOnEndless fd
  iterate () fun _ => do
    match ← call fun pid m => m.readLine pid fd with
    | .bytes t => return .inr (.ok t)
    | .refused message => return .inr (.error message)
    | .empty pipe =>
      if ← isSignalled then return .inr (.error "Interrupted system call")
      wait (.input pipe true)
      return .inl ()

def blockSize : Nat := 65536

def readAll (fd : Nat) : Proc (Except Raw Raw) :=
  iterate ([] : List Raw) fun parts => do
    if ← spendOnEndless fd then return .inl []
    match ← read fd blockSize with
    | .ok [] => return .inr (.ok parts.reverse.flatten)
    | .ok t => return .inl (t :: parts)
    | .error message => return .inr (.error message)

def newFileMode : Proc Nat := do return Mode.without 438 (← get).mask

def openAt (fd : Nat) (mode : OpenMode) (p : Raw) : Proc (Except IoError Unit) := do
  let newMode ← newFileMode
  call fun pid m =>
    match m.openPath pid mode newMode (Raw.toText p) with
    | .ok (f, m) => (.ok (), m.addFile pid fd f)
    | .error e => (.error e, m)

def stat (p : Raw) (follow : Bool := true) : Proc (Except IoError (Place × Node)) :=
  call fun pid m => (m.stat pid follow (Raw.toText p), m)

end Proc

end PatchTriage.Shell

namespace PatchTriage.Shell.Proc

/-! ## Variables and mistakes -/

variable {α : Type}

def setStatus (n : Nat) : Proc Unit := modify fun s => { s with status := n }

def complain (message : Raw) : Proc Unit := do
  let s ← get
  let place := s.name ++ ": " ++ Text.ofNat s.line ++ ": "
  let command := match s.commandName with
    | some name => name ++ ": "
    | none => []
  writeError (place ++ command ++ message ++ ['\n'])

def fail (message : Raw) : Proc α := do
  setStatus 2
  complain message
  halt .mistake

def badNumber (t : Raw) : Proc α := fail ("Illegal number: " ++ t)

def number (t : Raw) : Proc Nat :=
  match Number.whole? 10 t with
  | some n => if 0 ≤ n && n ≤ 2147483647 then pure n.toNat else badNumber t
  | none => badNumber t

def value? (name : Raw) : Proc (Option Raw) := do return (← get).value? name

variable (name : Raw)

def value : Proc Raw := do return ((← get).value? name).getD []

def refuseReadOnly : Proc Unit := do if (← get).isReadOnly name then fail (name ++ ": is read only")

def noteChange (value : Raw) : Proc Unit := do
  if name = ("PATH" : Raw) then modify fun s => { s with hashed := [] }
  if name = ("OPTIND" : Raw) then
    let n ← number value
    modify fun s => { s with cursor := { index := max n 1 } }

def assign (name value : Raw) : Proc Unit := do
  refuseReadOnly name
  noteChange name value
  let s ← get
  let old := (s.vars.lookup name).getD {}
  modify (·.setVariable name
    { old with value := some value, exported := old.exported || s.has 'a' })

def checkedName (t : Raw) : Proc Raw := do
  let name := t.takeWhile (· ≠ '=')
  if isName name then return name else fail (name ++ ": bad variable name")

def setVariable (name value : Raw) : Proc Unit := do assign (← checkedName name) value

def mark (f : Variable → Variable) : Proc Unit :=
  modify fun s => s.setVariable name (f ((s.vars.lookup name).getD {}))

def unsetVariable : Proc Unit := do
  let name ← checkedName name
  refuseReadOnly name
  noteChange name []
  modify (·.dropVariable name)

/-! ## Local variables -/

def beginScope : Proc Unit := modify fun s => { s with scopes := {} :: s.scopes }

def onScope (f : Scope → Scope) : Proc Unit :=
  modify fun s =>
    match s.scopes with
    | [] => s
    | scope :: scopes => { s with scopes := f scope :: scopes }

def makeLocal (text : Raw) (exported : Bool) : Proc Unit := do
  let name ← checkedName text
  let old := (← get).vars.lookup name
  onScope fun scope => { scope with vars := (name, old) :: scope.vars }
  if '=' ∈ text then assign name (text.drop (name.length + 1))
  else if old.isNone then modify (·.setVariable name {})
  if exported then mark name fun v => { v with exported := true }

def makeOptionsLocal : Proc Unit := do
  let options := (← get).options
  onScope fun scope => { scope with options := scope.options <|> some options }

def State.restoreVariable (s : State) (name : Raw) (old : Option Variable) : State :=
  let s := if name = ("PATH" : Raw) then { s with hashed := [] } else s
  match old with
  | none => { s with vars := s.vars.filter (·.1 ≠ name) }
  | some v =>
    match name = ("OPTIND" : Raw) && v.value.isSome, Number.whole? 10 (v.value.getD []) with
    | true, some n => { s.setVariable name v with cursor := { index := max n.toNat 1 } }
    | _, _ => s.setVariable name v

def State.endScope (s : State) : State :=
  match s.scopes with
  | [] => s
  | scope :: scopes =>
    let s := scope.vars.foldl (fun s (name, old) => State.restoreVariable s name old) s
    { s with scopes, options := scope.options.getD s.options }

def endScopes (depth : Nat) : Proc Unit :=
  modify fun s => (List.range (s.scopes.length - depth)).foldl (fun s _ => State.endScope s) s

def arithmetic (expression : Raw) : Proc Int := do
  let s ← get
  let (result, assigned) := Arithmetic.evaluate s.value? s.isReadOnly expression
  forEach assigned.reverse fun (name, value) => assign name value
  match result with
  | .ok n => return n
  | .error (.mistake message) =>
    fail ("arithmetic expression: " ++ message ++ ": \"" ++ expression ++ ['"'])
  | .error (.noNumber t) => badNumber t
  | .error (.readOnly name) => fail (name ++ ": is read only")
  | .error .trap => die 8

end PatchTriage.Shell.Proc
