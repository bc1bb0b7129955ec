import PatchTriage.Shell.Builtins.Basic

/-!
# Processes and signals

The commands `wait`, `jobs`, `kill` and `trap`, and those on limits: `umask`, `ulimit` and `times`.
-/

namespace PatchTriage.Shell.Builtins

open Proc Signal Jobs

variable (args : List Raw)

/-! ## Jobs -/

def interruptedStatus : Proc Nat := do
  let s ← get
  let pending := (((← machine).process? s.pid).map (·.pending)).getD []
  return 128 + pending.getLastD 0

def waitForAll : Proc Bool :=
  iterate () fun _ => do
    let s ← get
    match s.jobs.find? (!·.isDone) with
    | none =>
      modify fun s => { s with jobs := s.jobs.map fun j => { j with waited := true } }
      return .inr true
    | some _ =>
      if ← isSignalled then return .inr false
      let running := s.jobs.flatMap fun j => j.pids.filter fun pid => (j.ended.lookup pid).isNone
      wait (.child running true)
      let _ ← learn
      return .inl ()

def waitedJob? (t : Raw) : Proc (Option JobEntry) := do
  if t.head? == some '%' then return some (← named t)
  let pid ← number t
  return (← get).jobs.find? (·.pids.getLast? = some pid)

def wait : Proc Result := do
  let (_, args) ← options "" "" args
  if args.isEmpty then if ← waitForAll then done 0 else done (← interruptedStatus)
  else
    let status ← iterate (args, 127) fun (args, status) => do
      match args with
      | [] => return .inr status
      | t :: args =>
        match ← waitedJob? t with
        | none => return .inl (args, status)
        | some j =>
          if !(← await j.number true) then return .inr (← interruptedStatus)
          let e := (find? (← get) j.number).bind (·.exit?)
          let mark (k : JobEntry) : JobEntry :=
            if k.number = j.number then { k with waited := true } else k
          modify fun s => { s with jobs := s.jobs.map mark }
          return .inl (args, (e.map statusOf).getD status)
    done status

def jobs : Proc Result := do
  let (os, args) ← options "lp" "" args
  let _ ← learn
  let numbers ← if args.isEmpty then pure ((← get).jobs.map (·.number))
    else collect args fun t => do return (← named t).number
  match os.getLast? with
  | some ('p', _) =>
    let s ← get
    let lines := numbers.filterMap fun n => (find? s n).bind (·.pids.head?)
    return { output := lines.flatMap fun pid => Text.ofNat pid ++ ['\n'] }
  | mode =>
    let (output, s) := showAll mode.isSome numbers (← get)
    modify fun _ => s
    return { output }

def continueJob : Proc Result := do
  let (_, args) ← options "" "" args
  let t := args.headD ['%']
  let _ ← named t
  let shown : Raw := if args.isEmpty then "(null)" else t
  fail ("job " ++ shown ++ " not created under job control")

/-! ## Signals -/

def targets (m : Machine) (first : Nat) (n : Int) : List Nat :=
  let running := (m.processes.filter fun (_, p) => p.exit.isNone).map Prod.fst
  if n = 0 || n = -(first : Int) then running
  else (m.processes.filter fun (pid, _) => (pid : Int) = n).map Prod.fst

def send (n : Int) (signal : Nat) : Proc Bool := do
  let s ← get
  let first := ((← machine).processes.head?.map Prod.fst).getD s.pid
  let parent := (s.value? "PPID").bind Text.readNat?
  let found ← call fun _ m =>
    let pids := targets m first n
    (!pids.isEmpty, pids.foldl (fun m pid => m.signal pid signal) m)
  spend 0
  return found || (signal = 0 && parent.map Int.ofNat = some n)

def killUsage : Raw :=
  "Usage: kill [-s sigspec | -signum | -sigspec] [pid | job]... or\nkill -l [exitstatus]"

def signalName (t : Raw) : Proc Result := do
  let n ← number t
  let n := if 128 < n then n - 128 else n
  if 0 < n && n < count then return { output := name n ++ ['\n'] }
  fail ("invalid signal number or exit status: " ++ t)

def target (t : Raw) : Proc Int := do
  match t with
  | '%' :: _ =>
    let j ← named t
    return -((j.pids.headD 0 : Nat) : Int)
  | '-' :: t => return -((← number t : Nat) : Int)
  | t => return (← number t : Nat)

def sendAll (signal : Nat) (args : List Raw) : Proc Result := do
  let results ← collect args fun t => do
    let found ← send (← target t) signal
    if !found then complain "No such process\n"
    return found
  done (if results.all id then 0 else 1)

def kill : Proc Result := do
  let direct : Option Nat := match args with
    | ('-' :: t) :: _ => ofText? 1 t
    | _ => none
  match direct, args with
  | _, [] => fail killUsage
  | some signal, _ :: rest => if rest.isEmpty then fail killUsage else sendAll signal rest
  | none, args =>
    let (os, rest) ← options "l" "s" args
    let named ← collect (os.filter (·.1 = 's')) fun (_, t) => do
      match ofText? 1 t with
      | some n => pure n
      | none => fail ("invalid signal number or name: " ++ t)
    let lists := os.any (·.1 = 'l')
    match lists, rest with
    | true, [] =>
      let names := (List.range' 1 (count - 1)).flatMap fun n => name n ++ ['\n']
      return { output := "0\n" ++ names }
    | true, t :: _ => if named.isEmpty then signalName t else fail killUsage
    | false, [] => fail killUsage
    | false, rest => sendAll (named.getLastD terminate) rest

def takeSignal (signal : Nat) (action : Option Raw) : Proc Unit := do
  let s ← get
  let traps := s.traps.filter (·.1 ≠ signal)
  let traps := match action with
    | some t => (signal, t) :: traps
    | none => traps
  modify fun s => { s with traps }
  if signal ≠ 0 && !s.ignoredAtStart.contains signal then
    onProcess fun p =>
      let ignored := p.ignored.filter (· ≠ signal)
      let caught := p.caught.filter (· ≠ signal)
      match action with
      | none => { p with ignored, caught }
      | some [] => { p with ignored := signal :: ignored, caught }
      | some _ => { p with ignored, caught := signal :: caught }

def trap (args : List Raw) : Proc Result := do
  let (_, args) ← options "" "" args
  match args with
  | [] =>
    let s ← get
    let lines := (List.range count).flatMap fun n =>
      match s.traps.lookup n with
      | some t => ("trap -- " : Raw) ++ quoted t ++ [' '] ++ name n ++ ['\n']
      | none => []
    return { output := lines }
  | first :: rest =>
    let resets := rest.isEmpty || (ofNumber? first).isSome
    let action : Option Raw := if resets || first = (['-'] : Raw) then none else some first
    let status ← iterate (if resets then args else rest) fun signals => do
      match signals with
      | [] => return .inr 0
      | t :: signals =>
        match ofText? 0 t with
        | some n =>
          takeSignal n action
          return .inl signals
        | none =>
          writeError ("trap: " ++ t ++ ": bad trap\n")
          return .inr 1
    done status

/-! ## Limits -/

def symbolicMask (mask : Nat) : Raw :=
  let allowed (weight : Nat) : Raw :=
    ([('r', 4), ('w', 2), ('x', 1)] : List (Char × Nat)).filterMap fun (c, bit) =>
      if Mode.has mask (bit * weight) then none else some c
  "u=" ++ allowed 64 ++ ",g=" ++ allowed 8 ++ ",o=" ++ allowed 1 ++ ['\n']

def umask : Proc Result := do
  let (os, args) ← options "S" "" args
  let mask := (← get).mask
  match args with
  | [] =>
    return { output := if os.isEmpty then Mode.digits 4 mask ++ ['\n'] else symbolicMask mask }
  | t :: _ =>
    let new ← if t.head?.any Char.isDigit then
        if t.all Mode.isDigit then pure (Mode.ofDigits t % 512) else badNumber t
      else
        match Mode.changed? t (Mode.without Mode.permissions mask) with
        | some mode => pure (Mode.without Mode.permissions mode)
        | none => fail ("Illegal mode: " ++ t)
    modify fun s => { s with mask := new }
    done 0

structure LimitName where
  letter : Char
  title : String
  unit : Nat

def limitNames : List LimitName :=
  [⟨'t', "time(seconds)", 1⟩, ⟨'f', "file(blocks)", 512⟩, ⟨'d', "data(kbytes)", 1024⟩,
    ⟨'s', "stack(kbytes)", 1024⟩, ⟨'c', "coredump(blocks)", 512⟩, ⟨'m', "memory(kbytes)", 1024⟩,
    ⟨'l', "locked memory(kbytes)", 1024⟩, ⟨'p', "process", 1⟩, ⟨'n', "nofiles", 1⟩,
    ⟨'v', "vmemory(kbytes)", 1024⟩, ⟨'w', "locks", 1⟩, ⟨'r', "rtprio", 1⟩]

def noLimit : Nat := 18446744073709551615

def limitValue? (unit : Nat) (t : Raw) : Option (Option Nat) :=
  if t = ("unlimited" : Raw) then some none
  else if !t.all Char.isDigit then none
  else
    let n := (Number.digits 10 t).1 * unit % (noLimit + 1)
    some (if n = noLimit then none else some n)

def limitText (unit : Nat) : Option Nat → Raw
  | none => "unlimited\n"
  | some n => Number.render (Number.wrap (n / unit)) ++ ['\n']

def checkLimit (old new : Limit) : Except IoError Unit :=
  let exceeds : Option Nat → Option Nat → Bool
    | none, some _ => true
    | some a, some b => b < a
    | _, none => false
  if exceeds new.soft new.hard then .error .invalidInput
  else if exceeds new.hard old.hard then .error .notPermitted
  else .ok ()

def ulimit : Proc Result := do
  let (os, args) ← options "HSatfdscmlpnvwr" "" args
  let letters := os.map Prod.fst
  let how := (letters.filter fun c => c = 'H' || c = 'S').getLast?
  let name := letters.foldl (fun name c => (limitNames.find? (·.letter = c)).getD name)
    ⟨'f', "file(blocks)", 512⟩
  let all := 'a' ∈ letters
  let m ← machine
  let pid := (← get).pid
  let shown (name : LimitName) : Raw :=
    let l := m.limit pid name.letter
    limitText name.unit (if how = some 'H' then l.hard else l.soft)
  match args with
  | [] =>
    if all then
      return { output := limitNames.flatMap fun name =>
        name.title.toList ++ List.replicate (20 - name.title.length) ' ' ++ ' ' :: shown name }
    else return { output := shown name }
  | t :: rest =>
    if all || !rest.isEmpty then fail "too many arguments"
    match limitValue? name.unit t with
    | none => fail "bad number"
    | some value =>
      let old := m.limit pid name.letter
      let new : Limit :=
        { soft := if how = some 'H' then old.soft else value
          hard := if how = some 'S' then old.hard else value }
      match checkLimit old new with
      | .error e => fail ("error setting limit (" ++ Redirection.systemMessage e ++ [')'])
      | .ok () =>
        onMachine fun _ m => m.setLimit pid name.letter new
        done 0

def times : Proc Result := return { output := "0m0.000000s 0m0.000000s\n0m0.000000s 0m0.000000s\n" }

end PatchTriage.Shell.Builtins
