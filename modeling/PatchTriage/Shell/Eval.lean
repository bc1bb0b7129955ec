import PatchTriage.Shell.Builtins

/-!
# Running commands

A shell takes variables from its environment, and options and script from its arguments: a text
after `-c`, a file, or the standard input (`Startup`). `Eval.run` runs a command.
-/

namespace PatchTriage.Shell.Startup

/-! ## How a shell starts -/

open Shell.Script Proc

def defaults : List (Raw × Raw) :=
  [("IFS", Expansion.defaultSeparators), ("OPTIND", "1"), ("PATH", Builtins.standardPath),
    ("PS1", "$ "), ("PS2", "> "), ("PS4", "+ ")]

def forced : List Raw := ["IFS", "OPTIND"]

def withDefaults (env : List (Raw × Variable)) : List (Raw × Variable) :=
  let given := env.filter fun (name, _) => isName name
  defaults.foldl (fun vars (name, value) =>
    match vars.lookup name with
    | none => (name, { value := some value }) :: vars
    | some v =>
      if forced.contains name then
        (name, { v with value := some value }) :: vars.filter (·.1 ≠ name)
      else vars) given

def workingDirectory (s : State) (m : Machine) : Raw :=
  let cwd := m.cwd s.pid
  let named : Option Raw := do
    let t ← s.value? "PWD"
    if t.head? != some '/' then none
    match m.stat s.pid true (Raw.toText t) with
    | .ok (place, _) => if place = cwd then some t else none
    | .error _ => none
  named.getD (Raw.ofText (FileTree.pathOf cwd))

def prepare (name : Raw) : Proc Unit := do
  let m ← machine
  modify fun s =>
    let s := { s with name, line := 0, vars := withDefaults s.vars }
    let here := workingDirectory s m
    let parent := ((m.process? s.pid).map (·.parent)).getD 0
    let s := s.setVariable "PPID" { value := some (Text.ofNat parent) }
    { s.setVariable "PWD" { value := some here, exported := true } with here }

inductive Input where
  | text (t : Raw) (andMore : Bool)
  | standard
  | descriptor (fd : Nat)

def arguments (args : List Raw) : Proc Input := do
  let o ← Builtins.setOptions { atStart := true } args
  let setArgs (name : Option Raw) (args : List Raw) : Proc Unit :=
    modify fun s => { s with name := name.getD s.name, args }
  if o.rest.isEmpty then
    if o.asText then fail "-c requires an argument"
    modify (Builtins.setOption · 's' true)
  let fromInput := (← get).has 's'
  let input ← match o.asText, fromInput, o.rest with
    | true, more, t :: rest =>
      setArgs rest.head? (rest.drop 1)
      pure (Input.text t more)
    | false, false, file :: rest =>
      let fd ← Builtins.openScript file
      setArgs (some file) rest
      pure (Input.descriptor fd)
    | _, _, rest =>
      setArgs none rest
      pure Input.standard
  Builtins.refuseMonitor
  return input

def main (run : Runner) (name : Raw) (args : List Raw) : Proc Unit :=
  untilExit run do
    prepare name
    match ← arguments args with
    | .text t andMore =>
      setStatus (← runText run { exit := !andMore } t)
      if andMore then setStatus (← runFile run 0)
    | .standard => setStatus (← runFile run 0)
    | .descriptor fd => setStatus (← runFile run fd)

end PatchTriage.Shell.Startup

namespace PatchTriage.Shell

open Proc Redirection

open Builtins (Core Meaning)

namespace Eval

variable (core : Core)

/-! ## Processes -/

def enterChild : Proc Unit := do
  modify fun s => { s with traps := s.traps.filter (·.2.isEmpty), jobs := [] }
  onProcess fun p => { p with caught := [] }

/-- Prepares a process in the background: it is not interrupted from the keyboard, and the first one
of a job has no input. -/
def enterBackground (isFirst : Bool) : Proc Unit := do
  let deaf := [Signal.interrupt, Signal.quit]
  modify fun s => { s with ignoredAtStart := deaf ++ s.ignoredAtStart }
  onProcess fun p => { p with ignored := deaf ++ p.ignored }
  if isFirst then
    onMachine fun pid m => m.addFile pid 0 { channel := .device .null, writable := false }

def forkShell (body : Proc Unit) : Proc Nat :=
  fork do
    enterChild
    Script.untilExit core.run body

def freePair (m : Machine) (pid : Nat) : Nat × Nat :=
  let used := (m.descriptors pid).map Prod.fst
  match (List.range' firstSaved (used.length + 2)).filter (!used.contains ·) with
  | a :: b :: _ => (a, b)
  | _ => (firstSaved, firstSaved + 1)

def makePipe : Proc (Nat × Nat) :=
  call fun pid m =>
    let (readEnd, writeEnd) := freePair m pid
    ((readEnd, writeEnd), m.addPipe pid readEnd writeEnd)

def substitute : Expand.Substitution
  | none => return []
  | some c => do
    let (readEnd, writeEnd) ← makePipe
    let pid ← forkShell core do
      close readEnd
      moveDescriptor writeEnd 1
      core.run { exit := true } c
    close writeEnd
    let output ← readAll readEnd
    close readEnd
    let status ← Jobs.foreground [pid]
    modify fun s => { s with substituted := status }
    return output.toOption.getD []

def startPipeline (core : Core) (flags : Flags) (background : Bool) :
    (input : Option Nat) → List Command → Proc (List Nat)
  | _, [] => return []
  | input, c :: rest => do
    let pipe ← if rest.isEmpty then pure none else some <$> makePipe
    let pid ← forkShell core do
      if background then enterBackground input.isNone
      if let some (readEnd, _) := pipe then close readEnd
      if let some fd := input then moveDescriptor fd 0
      if let some (_, writeEnd) := pipe then moveDescriptor writeEnd 1
      core.run { flags with exit := true } c
    if let some fd := input then close fd
    if let some (_, writeEnd) := pipe then close writeEnd
    return pid :: (← startPipeline core flags background (pipe.map Prod.fst) rest)

variable (flags : Flags)

def pipeline (background : Bool) (cs : List Command) : Proc Unit := do
  let pids ← startPipeline core flags background none cs
  if background then
    Jobs.background pids
    setStatus 0
  else setStatus (← Jobs.foreground pids)

def subshell (background : Bool) (line : Nat) (c : Command) (redirects : List Redirect) :
    Proc Unit := do
  modify fun s => { s with line }
  let ready ← prepare (substitute core) redirects
  let flagsInside : Flags := { tested := flags.tested && !background, exit := true }
  let body : Proc Unit := do
    let (applied, _) ← apply (substitute core) false ready []
    ofExcept applied
    core.run flagsInside c
  if !background && flags.exit && !Script.hasTraps (← get) then body
  else
    let pid ← forkShell core do
      if background then enterBackground true
      body
    if background then
      Jobs.background [pid]
      setStatus 0
    else setStatus (← Jobs.foreground [pid])

/-! ## Loops -/

/-- How many rounds of loops go by quickly; afterwards each takes `slowRound`, for loops that never
end.
-/
def quickRounds : Nat := 400000

def slowRound : Nat := 10000

def countRound : Proc Unit := do
  onMachine fun _ m => { m with rounds := m.rounds + 1 }
  if quickRounds < (← machine).rounds then spend slowRound

inductive AfterPart where
  | goOn
  | nextRound
  | leave (outer : Option Halt)

def afterPart (r : Except Halt Unit) : Proc AfterPart :=
  match r with
  | .ok () => return .goOn
  | .error (.leaveLoops n) => return .leave (if n ≤ 1 then none else some (.leaveLoops (n - 1)))
  | .error (.nextRound n) => return if n ≤ 1 then .nextRound else .leave (some (.nextRound (n - 1)))
  | .error (.leaveFunction explicit) => return .leave (some (.leaveFunction explicit))
  | .error h => halt h

def inLoop {σ : Type} (start : σ) (round : σ → Proc (σ ⊕ (Nat × Option Halt))) : Proc Unit := do
  modify fun s => { s with loops := s.loops + 1 }
  let r ← attempt (iterate start fun x => do
    countRound
    round x)
  modify fun s => { s with loops := s.loops - 1 }
  let (status, outer) ← ofExcept r
  setStatus status
  if let some h := outer then halt h

def loopBody {σ : Type} (body : Command) (next : (status : Nat) → σ) :
    Proc (σ ⊕ (Nat × Option Halt)) := do
  let r ← attempt (core.run { tested := flags.tested } body)
  let status := (← get).status
  match ← afterPart r with
  | .leave outer => return .inr (status, outer)
  | _ => return .inl (next status)

def whileLoop (inverted : Bool) (condition body : Command) : Proc Unit :=
  inLoop 0 fun status => do
    let r ← attempt (core.run { tested := true } condition)
    let found := (← get).status
    match ← afterPart r with
    | .nextRound => return .inl status
    | .leave outer =>
      return .inr (if outer = some (.leaveFunction true) then found else status, outer)
    | .goOn =>
      if (found = 0) = inverted then return .inr (status, none)
      loopBody core flags body id

def forLoop (line : Nat) (var : Raw) (words : List Word) (body : Command) : Proc Unit := do
  modify fun s => { s with line }
  let fields ← Expand.allFields (substitute core) words
  inLoop (fields, 0) fun (fields, status) => do
    match fields with
    | [] => return .inr (status, none)
    | field :: fields =>
      setVariable var field
      loopBody core flags body (fields, ·)

/-! ## Choices -/

def anyAccepts (core : Core) (t : Raw) : List Word → Proc Bool
  | [] => return false
  | w :: ws => do
    if (← Expand.pattern (substitute core) w).accepts t then return true
    anyAccepts core t ws

def choose (core : Core) (flags : Flags) (t : Raw) : List (List Word × Option Command) → Proc Unit
  | [] => setStatus 0
  | (patterns, body) :: arms => do
    if ← anyAccepts core t patterns then
      match body with
      | some c => core.run flags c
      | none => setStatus 0
    else choose core flags t arms

/-! ## Simple commands -/

structure Call where
  shown : List Raw := []
  argv : List Raw := []
  left : List Word
  builtin : Option Builtin := none
  isSpecial : Option Bool := none
  skipsFunctions : Bool := false
  path : Option Raw := none

def nextFields (core : Core) : List Word → Proc (List Raw × List Word)
  | [] => return ([], [])
  | w :: ws => do
    match ← Expand.fields (substitute core) w with
    | [] => nextFields core ws
    | fields => return (fields, ws)

def Call.more (c : Call) : Proc (List Raw × Call) := do
  let (fields, left) ← nextFields core c.left
  return (fields, { c with shown := c.shown ++ fields, argv := c.argv ++ fields, left })

def Call.skipCommand (c : Call) : Proc (Call × Bool) :=
  iterate (c.argv.drop 1, c, (none : Option Raw)) fun (after, c, path) => do
    let calls (argv : List Raw) (c : Call) :=
      ({ c with argv, path := path <|> c.path, skipsFunctions := true }, true)
    match after with
    | [] =>
      let (fields, c) ← c.more core
      if fields.isEmpty then return .inr (c, false) else return .inl (fields, c, path)
    | t :: rest =>
      if t = (['-', '-'] : Raw) then
        if !rest.isEmpty then return .inr (calls rest c)
        let (fields, c) ← c.more core
        return .inr (if fields.isEmpty then (c, false) else calls fields c)
      match t with
      | '-' :: letter :: letters =>
        if (letter :: letters).all (· = 'p') then return .inl (rest, c, some Builtins.standardPath)
        else return .inr (c, false)
      | _ => return .inr (calls after c)

def Call.locate (c : Call) : Proc Call :=
  iterate c fun c => do
    let s ← get
    let name := c.argv.headD []
    if !c.skipsFunctions && (s.functions.lookup name).isSome then return .inr c
    match ← Builtins.builtinFirst? none name with
    | none => return .inr { c with builtin := none }
    | some b =>
      let c := { c with builtin := some b, isSpecial := c.isSpecial <|> some b.isSpecial }
      if b ≠ .command then return .inr c
      match ← c.skipCommand core with
      | (c, true) => return .inl c
      | (c, false) => return .inr c

def Call.complete (c : Call) : Proc Call := do
  let takesAssignments := (c.builtin.map (·.takesAssignments)).getD false
  let fields ← collect c.left fun w => do
    if takesAssignments && w.isAssignment then
      return [← Expand.text (substitute core) { tilde := true, assignment := true } w]
    else Expand.fields (substitute core) w
  return { c with shown := c.shown ++ fields.flatten, argv := c.argv ++ fields.flatten, left := [] }

def call (words : List Word) : Proc Call := do
  let (fields, c) ← Call.more core { left := words }
  if fields.isEmpty then return c
  let c ← c.locate core
  c.complete core

def assignments (isLocal exported : Bool) (ws : List Word) : Proc (List Raw) :=
  collect ws fun w => do
    let t ← Expand.text (substitute core) { tilde := true, assignment := true } w
    if isLocal then makeLocal t true
    else
      let name ← checkedName t
      assign name (t.drop (name.length + 1))
      if exported then mark name fun v => { v with exported := true }
    return t

def trace (saved : List Saved) (words : List Raw) : Proc Unit := do
  let s ← get
  let text := (s.value? "PS4").getD []
  let reader : Reader := { input := text, aliases := s.aliases }
  let front ← match Grammar.prompt.run reader with
    | .ok (w, _) => Expand.text (substitute core) { quoted := true } w
    | .error _ => pure text
  let fd := match saved.find? (·.fd = 2) with
    | some kept => kept.keptAt.getD 2
    | none => 2
  let _ ← write fd (front ++ Text.join [' '] words ++ ['\n'])

def maxFunctionDepth : Nat := 1000

def callFunction (body : Command) (args : List Raw) : Proc Unit := do
  let s ← get
  if maxFunctionDepth ≤ s.functionDepth then
    fail ("Maximum function recursion depth (" ++ Text.ofNat maxFunctionDepth ++ ") reached")
  modify fun s => { s with args, cursor := {}, loops := 0, functionDepth := s.functionDepth + 1 }
  let r ← attempt (core.run { tested := flags.tested } body)
  modify fun now =>
    { now with
      args := s.args, cursor := s.cursor, loops := s.loops, functionDepth := s.functionDepth }
  match r with
  | .error (.leaveFunction _) => return ()
  | r => ofExcept r

def callProgram (path : Option Raw) (index : Nat) (argv : List Raw) : Proc Unit := do
  let searchPath ← path.elim Builtins.searchPath pure
  let body : Proc Unit := Programs.exec core.shell searchPath index argv
  if flags.exit && !Script.hasTraps (← get) then body
  else setStatus (← Jobs.foreground [← fork body])

def perform (c : Call) : Proc Unit := do
  let name := c.argv.headD []
  let args := c.argv.drop 1
  let carryOut (b : Builtin) : Proc Unit := do
    match ← attempt (Builtins.run core flags b name args) with
    | .error .mistake => if c.isSpecial = some true then halt .mistake
    | r => ofExcept r
  -- The assignments in front of the call may have changed the search path.
  match c.builtin.filter (·.isStandard) with
  | some b => carryOut b
  | none =>
    match ← Builtins.find core.run (!c.skipsFunctions) c.path name with
    | .function body => callFunction core flags body args
    | .builtin b => carryOut b
    | .program index => callProgram core flags c.path index c.argv
    | .missing e =>
      setStatus 127
      complain (Builtins.missingText name e)

def simple (line : Nat) (assigns words : List Word) (redirects : List Redirect) : Proc Unit := do
  modify fun s => { s with line, substituted := 0 }
  let c ← call core words
  let depth := (← get).scopes.length
  let isLocal := !c.argv.isEmpty && c.isSpecial ≠ some true
  let isExec : Bool := c.builtin = some .exec
  if isLocal then beginScope
  let ready ← prepare (substitute core) redirects
  let (applied, saved) ← apply (substitute core) true ready []
  let body : Proc Unit := do
    match applied with
    | .error .mistake =>
      setStatus 2
      if c.isSpecial = some true then halt .mistake
    | .error h => halt h
    | .ok () =>
      let set ← assignments core isLocal (isExec && 1 < c.argv.length) assigns
      if (← get).has 'x' then trace core saved (set ++ c.shown)
      if c.argv.isEmpty then
        spend Builtins.time
        setStatus (← get).substituted
      else perform core flags c
  let r ← attempt body
  match r, isExec with
  | .ok (), true => forget saved
  | _, _ => restore saved
  match r with
  | .error .exit | .error .mistake => pure ()
  | _ => endScopes depth
  ofExcept r

/-! ## All commands -/

def redirected (line : Nat) (c : Command) (redirects : List Redirect) : Proc Unit := do
  modify fun s => { s with line }
  let ready ← prepare (substitute core) redirects
  let (applied, saved) ← apply (substitute core) true ready []
  let body : Proc Unit := do
    match applied with
    | .error .mistake =>
      setStatus 2
      if (← get).has 'e' && !flags.tested then halt .exit
    | .error h => halt h
    | .ok () => core.run { tested := flags.tested } c
  finally' body (restore saved)

def body (core : Core) (flags : Flags) : Command → Proc Unit
  | .simple line assigns words redirects => simple core flags line assigns words redirects
  | .redirected line c redirects => redirected core flags line c redirects
  | .pipeline background cs => pipeline core flags background cs
  | .subshell line c redirects => subshell core flags false line c redirects
  | .background line c redirects => subshell core flags true line c redirects
  | .negate c => do
    core.run { tested := true } c
    modify fun s => { s with status := if s.status = 0 then 1 else 0 }
  | .both left right => do
    core.run { tested := true } left
    if (← get).status = 0 then core.run flags right
  | .either left right => do
    core.run { tested := true } left
    if (← get).status ≠ 0 then core.run flags right
  | .seq left right => do
    core.run { tested := flags.tested } left
    core.run flags right
  | .ifThen condition yes no => do
    core.run { tested := true } condition
    if (← get).status = 0 then core.run flags yes
    else
      match no with
      | some c => core.run flags c
      | none => setStatus 0
  | .loop inverted condition body => whileLoop core flags inverted condition body
  | .forEach line var words body => forLoop core flags line var words body
  | .caseOf line subject arms => do
    modify fun s => { s with line }
    choose core flags (← Expand.text (substitute core) { tilde := true } subject) arms
  | .define _ name body => do
    modify fun s => { s with functions := (name, body) :: s.functions.filter (·.1 ≠ name) }
    setStatus 0

def endsOnError : Command → Bool
  | .simple .. | .subshell .. | .background .. | .pipeline .. => true
  | _ => false

/-- Runs a command. Signals that have come are dealt with, and the shell ends if its options say so.
-/
def node (c : Command) : Proc Unit := do
  if (← get).has 'n' then
    if flags.exit then halt .exit
    return ()
  Script.runTraps core.run
  let r ← attempt (body core flags c)
  match r with
  | .error .exit | .error .mistake => ofExcept r
  | .ok () => Script.runTraps core.run
  | _ => pure ()
  let s ← get
  let fails := s.has 'e' && endsOnError c && !flags.tested && s.status ≠ 0
  if fails || flags.exit then halt .exit
  ofExcept r

def maxDepth : Nat := 1000000

def run : (depth : Nat) → Flags → Command → Proc Unit
  | 0, _, _ => halt .exit
  | depth + 1, flags, c =>
    let inner : Runner := fun flags c => run depth flags c
    node { run := inner, shell := Startup.main inner } flags c

def shell : Programs.ShellMain := Startup.main (run maxDepth)

end Eval

end PatchTriage.Shell
