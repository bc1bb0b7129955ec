import PatchTriage.Shell.Proc

/-!
# Signals and scripts

The meanings of signals. A script is read and run line by line.
-/

/-! ## Signals -/

namespace PatchTriage.Shell.Signal

def count : Nat := 65

def plainNames : List String :=
  ["EXIT", "HUP", "INT", "QUIT", "ILL", "TRAP", "ABRT", "BUS", "FPE", "KILL", "USR1", "SEGV",
    "USR2", "PIPE", "ALRM", "TERM", "16", "CHLD", "CONT", "STOP", "TSTP", "TTIN", "TTOU", "URG",
    "XCPU", "XFSZ", "VTALRM", "PROF", "WINCH", "IO", "PWR", "SYS", "32", "33"]

def firstRealTime : Nat := 34

def lastRealTime : Nat := 64

def middleRealTime : Nat := 50

def name (n : Nat) : Raw :=
  match plainNames[n]? with
  | some s => s.toList
  | none =>
    if n = firstRealTime then "RTMIN"
    else if n < middleRealTime then "RTMIN+" ++ Text.ofNat (n - firstRealTime)
    else if n < lastRealTime then "RTMAX-" ++ Text.ofNat (lastRealTime - n)
    else "RTMAX"

def ofNumber? (t : Raw) : Option Nat :=
  if t.isEmpty || !t.all Char.isDigit then none
  else
    let n := Text.digitsValue 0 t
    if n < count then some n else none

def ofText? (least : Nat) (t : Raw) : Option Nat :=
  (ofNumber? t).orElse fun _ =>
    (List.range' least (count - least)).find? fun n =>
      (name n).map Char.toUpper = t.map Char.toUpper

def meanings : List String :=
  ["Hangup", "Interrupt", "Quit", "Illegal instruction", "Trace/breakpoint trap", "Aborted",
    "Bus error", "Floating point exception", "Killed", "User defined signal 1",
    "Segmentation fault", "User defined signal 2", "Broken pipe", "Alarm clock", "Terminated",
    "Stack fault", "Child exited", "Continued", "Stopped (signal)", "Stopped",
    "Stopped (tty input)", "Stopped (tty output)", "Urgent I/O condition",
    "CPU time limit exceeded", "File size limit exceeded", "Virtual timer expired",
    "Profiling timer expired", "Window changed", "I/O possible", "Power failure", "Bad system call"]

def meaning (n : Nat) : Raw :=
  match meanings[n - 1]? with
  | some s => s.toList
  | none =>
    if n < firstRealTime then "Unknown signal " ++ Text.ofNat n
    else "Real-time signal " ++ Text.ofNat (n - firstRealTime)

def interrupt : Nat := 2

def quit : Nat := 3

def brokenPipe : Nat := 13

def terminate : Nat := 15

end PatchTriage.Shell.Signal

/-!
## Jobs

A job is what a shell has started for one command: one process, or those of a pipeline.
-/

namespace PatchTriage.Shell

open Proc

namespace Jobs

def statusOf : Exit → Nat
  | .code n => n
  | .signal n => 128 + n

def complaint? : Exit → Option Raw
  | .code _ => none
  | .signal n =>
    if n = Signal.interrupt || n = Signal.brokenPipe then none else some (Signal.meaning n)

def note (s : State) (pid : Nat) (e : Exit) : State :=
  { s with
    jobs :=
      s.jobs.map fun j => if pid ∈ j.pids then { j with ended := j.ended ++ [(pid, e)] } else j }

def learn : Proc (List (Nat × Exit)) := do
  let dead : List (Nat × Exit) ← call fun self m =>
    let dead :=
      m.processes.filterMap fun (pid, p) => if p.parent = self then p.exit.map (pid, ·) else none
    (dead, dead.foldl (fun m (pid, _) => ((m.reap? pid).map Prod.snd).getD m) m)
  modify fun s => dead.foldl (fun s (pid, e) => note s pid e) s
  return dead

def tell (ends : List (Nat × Exit)) : Proc Unit :=
  forEach ends fun (_, e) => do
    if let some t := complaint? e then writeError (t ++ ['\n'])

def add (s : State) (pids : List Nat) : Nat × State :=
  let inUse := s.jobs.filter fun j => !(j.isDone && j.waited)
  let used := inUse.map (·.number)
  let number := ((List.range' 1 (used.length + 1)).find? (!used.contains ·)).getD 1
  let others := s.jobs.filter (·.number ≠ number)
  (number, { s with jobs := { number, pids } :: others })

def remove (s : State) (number : Nat) : State :=
  { s with jobs := s.jobs.filter (·.number ≠ number) }

def find? (s : State) (number : Nat) : Option JobEntry := s.jobs.find? (·.number = number)

def await (number : Nat) (interruptible : Bool) : Proc Bool :=
  iterate () fun _ => do
    match find? (← get) number with
    | none => return .inr true
    | some j =>
      if j.isDone then return .inr true
      if ← (if interruptible then isSignalled else pure false) then return .inr false
      let running := j.pids.filter fun pid => (j.ended.lookup pid).isNone
      wait (.child running interruptible)
      tell ((← learn).filter fun (pid, _) => pid ∈ j.pids)
      return .inl ()

def foreground (pids : List Nat) : Proc Nat := do
  let (number, s) := add (← get) pids
  modify fun _ => s
  let _ ← await number false
  let e := (find? (← get) number).bind (·.exit?)
  modify (remove · number)
  return (e.map statusOf).getD 127

def background (pids : List Nat) : Proc Unit :=
  modify fun s => { (add s pids).2 with lastBackground := pids.getLast? <|> s.lastBackground }

/-! ## Naming jobs -/

def named (t : Raw) : Proc JobEntry := do
  let jobs := (← get).jobs
  let orFail (j : Option JobEntry) (message : Raw) : Proc JobEntry :=
    match j with
    | some j => return j
    | none => fail message
  let unknown := ("No such job: " : Raw) ++ t
  match t with
  | ['%'] | ['%', '+'] | ['%', '%'] => orFail jobs.head? "No current job"
  | ['%', '-'] => orFail jobs[1]? "No previous job"
  | '%' :: name =>
    if !name.isEmpty && name.all Char.isDigit then
      orFail (jobs.find? (·.number = Text.digitsValue 0 name)) unknown
    else fail unknown
  | _ => fail unknown

/-! ## Showing jobs -/

def commandColumn : Nat := 33

def stateText (j : JobEntry) : Raw :=
  if !j.isDone then "Running"
  else
    match j.exit? with
    | some (.code 0) | none => "Done"
    | some (.code n) => ("Done(" : Raw) ++ Text.ofNat n ++ [')']
    | some (.signal n) => Signal.meaning n

def line (s : State) (withPid : Bool) (j : JobEntry) : Raw :=
  let mark : Char :=
    if s.jobs.head?.map (·.number) = some j.number then '+'
    else if s.jobs[1]?.map (·.number) = some j.number then '-'
    else ' '
  let pid (p : Nat) : Raw := if withPid then Text.ofNat p ++ [' '] else []
  let front := '[' :: Text.ofNat j.number ++ [']', ' ', mark, ' ']
  let padded (t : Raw) : Raw := t ++ List.replicate (max 1 (commandColumn - t.length)) ' '
  let first := padded (front ++ pid (j.pids.headD 0) ++ stateText j)
  let rest := (j.pids.drop 1).flatMap fun p =>
    if withPid then (" |\n" : Raw) ++ padded (List.replicate front.length ' ' ++ pid p)
    else " | "
  first ++ rest ++ ['\n']

def showAll (withPid : Bool) : List Nat → State → Raw × State
  | [], s => ([], s)
  | number :: numbers, s =>
    match find? s number with
    | none => showAll withPid numbers s
    | some j =>
      let text := line s withPid j
      let (rest, s) := showAll withPid numbers (if j.isDone then remove s number else s)
      (text ++ rest, s)

end Jobs

end PatchTriage.Shell

namespace PatchTriage.Shell

/-! ## Scripts -/

open Proc

structure Flags where
  tested : Bool := false
  exit : Bool := false

abbrev Runner := Flags → Command → Proc Unit

namespace Script

structure Line where
  command : Option Command
  rest : Reader
  isLast : Bool

def line? (s : State) (r : Reader) : Except Stop (Option Line) :=
  let r := { r with aliases := s.aliases, nextDocument := s.nextDocument, documents := [] }
  match Grammar.line.run r with
  | .error e => .error e
  | .ok (none, _) => .ok none
  | .ok (some command, rest) => .ok (some { command, rest, isLast := Grammar.atEnd rest })

def accept : Except Stop (Option Line) → Proc (Option Line)
  | .error (.mistake e) => do
    modify fun s => { s with line := e.line }
    fail e.message
  | .error .starved | .ok none => return none
  | .ok (some l) => do
    modify fun s =>
      { s with
        documents := l.rest.documents ++ s.documents, nextDocument := l.rest.nextDocument
        reached := l.rest.line }
    return some l

def nested {α : Type} (body : Proc α) : Proc α := do
  let reached := (← get).reached
  finally' body (modify fun s => { s with reached })

variable (run : Runner)

def runText (flags : Flags) (text : Raw) : Proc Nat :=
  nested <| iterate (({ input := text } : Reader), 0) fun (r, status) => do
    match ← accept (line? (← get) r) with
    | none => return .inr status
    | some l =>
      match l.command with
      | none => return .inl (l.rest, status)
      | some c =>
        run { flags with exit := flags.exit && l.isLast } c
        return .inl (l.rest, (← get).status)

/-! ## Traps -/

def hasTraps (s : State) : Bool := s.traps.any fun (_, action) => !action.isEmpty

/-- The first signal that has come and for which there is something to do; it counts as dealt with.
-/
def takeSignal : Proc (Option Nat) :=
  call fun pid m =>
    match (m.process? pid).bind (·.pending.min?) with
    | none => (none, m)
    | some n => (some n, m.onProcess pid fun p => { p with pending := p.pending.filter (· ≠ n) })

/-- Runs the actions for the signals that have come. The exit status is as before, unless they leave
a function with another one. -/
def runTraps : Proc Unit :=
  iterate () fun _ => do
    match ← takeSignal with
    | none => return .inr ()
    | some n =>
      let s ← get
      match s.traps.lookup n with
      | none => return .inl ()
      | some action =>
        let before := s.trapStatus
        let status := before.getD s.status
        modify fun s => { s with trapStatus := some status }
        let r ← attempt (runText run {} action)
        match r with
        | .error .exit | .error .mistake | .error (.leaveFunction true) => pure ()
        | _ => setStatus status
        modify fun s => { s with trapStatus := before }
        let _ ← ofExcept r
        return .inl ()

/-- Runs the action for the end of a shell. The exit status is as before, unless it ends the shell
itself. -/
def runExitTrap : Proc Unit := do
  let s ← get
  match s.traps.lookup 0 with
  | none => return ()
  | some action =>
    modify fun s => { s with
      traps := s.traps.filter (·.1 ≠ 0), trapStatus := some s.status, loops := 0 }
    match ← attempt (runText run {} action) with
    | .error .exit | .error .mistake => return ()
    | _ => setStatus s.status

def untilExit (body : Proc Unit) : Proc Unit := do
  let _ ← attempt body
  runExitTrap run

/-! ## Files -/

def takeLines : Nat → Raw → Raw × Raw
  | 0, t => ([], t)
  | _ + 1, [] => ([], [])
  | n + 1, c :: t =>
    let (front, rest) := takeLines (if c = '\n' then n else n + 1) t
    (c :: front, rest)

structure Source where
  reader : Reader
  text : Raw

def Source.readLines (source : Source) : Except Stop (Option Line) → Raw × Raw
  | .error (.mistake e) => takeLines (e.line + 1 - source.reader.line) source.text
  | .error .starved => ([], source.text)
  | .ok none => (source.text, [])
  | .ok (some l) =>
    if l.isLast then (source.text, []) else takeLines (l.rest.line - source.reader.line) source.text

def blockSize : Nat := 8192

def Source.readMore (source : Source) (fd : Nat) : Proc Source := do
  match ← read fd blockSize with
  | .ok [] | .error _ => return { source with reader := source.reader.feed none }
  | .ok t =>
    let t := t.filter (· ≠ '\x00')
    return { reader := source.reader.feed (some t), text := source.text ++ t }

/-- Runs the script that a descriptor gives and gives the status of its last command. No block of it
is read before it is needed, since commands may read on, or write more of it. -/
def runFile (fd : Nat) : Proc Nat := nested do
  let start : Source := { reader := { input := [], hasMore := true }, text := [] }
  iterate (start, 0) fun (source, status) => do
    let s ← get
    let found := line? s source.reader
    if found matches .error .starved then return .inl (← source.readMore fd, status)
    let (shown, text) := source.readLines found
    if s.has 'v' then writeError shown
    match ← accept found with
    | none => return .inr status
    | some l =>
      let source : Source := { reader := l.rest, text }
      match l.command with
      | none => return .inl (source, status)
      | some c =>
        match ← attempt (run {} c) with
        | .ok () => return .inl (source, (← get).status)
        | .error (.leaveFunction _) => return .inr (← get).status
        | .error h => halt h

end Script

end PatchTriage.Shell
