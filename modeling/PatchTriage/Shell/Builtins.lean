import PatchTriage.Shell.Builtins.Flow
import PatchTriage.Shell.Builtins.Processes
import PatchTriage.Shell.Builtins.Settings

/-!
# Running the commands of the shell itself

`Builtins.run` carries out a command of the shell and sets the exit status.
-/

namespace PatchTriage.Shell.Builtins

/-! ## Printing, testing and the working directory -/

open Proc

def echo (args : List Raw) : Proc Result := return { output := Format.echo args }

def printf (args : List Raw) : Proc Result := do
  let (_, args) ← options "" "" args
  match args with
  | [] => fail "usage: printf format [arg ...]"
  | format :: args =>
    let p := Format.printf format args
    forEach p.complaints.reverse complain
    let output := p.text.reverse
    match p.mistake with
    | none => return { status := if p.complaints.isEmpty then 0 else 1, output }
    | some message =>
      complain message
      return { status := 2, output }

def test (name : Raw) (args : List Raw) : Proc Result := do
  let files : Test.Files := { machine := ← machine, pid := (← get).pid }
  let words ← if name = (['['] : Raw) then
      if (args.getLast?.bind List.head?) == some ']' then pure args.dropLast else fail "missing ]"
    else pure args
  match Test.holds files words with
  | .ok b => done (if b then 0 else 1)
  | .error message => fail message

/-! ## The working directory -/

def dropPiece : List Raw → List Raw
  | [] => []
  | _ :: pieces => pieces

def resolve (here dir : Raw) : Raw :=
  let isAbsolute := dir.head? == some '/'
  let start := if isAbsolute then dir else here
  let root : Raw := match start with
    | '/' :: '/' :: c :: _ => if c = '/' then ['/'] else ['/', '/']
    | ['/', '/'] => ['/', '/']
    | _ => ['/']
  let front := if isAbsolute then [] else (Text.splitOn '/' here).filter (!·.isEmpty)
  let step (done : List Raw) (piece : Raw) : List Raw :=
    if piece.isEmpty || piece = (['.'] : Raw) then done
    else if piece = (['.', '.'] : Raw) then dropPiece done
    else piece :: done
  let pieces := (Text.splitOn '/' dir).foldl step front.reverse
  root ++ Text.join ['/'] pieces.reverse

def isPhysical (os : List (Char × Raw)) : Bool := (os.getLast?.map Prod.fst) == some 'P'

def goTo (physical : Bool) (dir : Raw) : Proc Bool := do
  let s ← get
  let target := if physical then dir else resolve s.here dir
  match ← stat target with
  | .ok (place, .dir) =>
    if !(← machine).mayEnter place then return false
    onProcess fun p => { p with cwd := place }
    let here := if physical then Raw.ofText (FileTree.pathOf place) else target
    let record (name value : Raw) : Proc Unit := do
      assign name value
      mark name fun v => { v with exported := true }
    record "OLDPWD" s.here
    modify fun s => { s with here, stale := s.hashed.map Prod.fst }
    record "PWD" here
    return true
  | _ => return false

def isExplicit (dir : Raw) : Bool :=
  match Text.splitOn '/' dir with
  | piece :: _ => piece.isEmpty && !dir.isEmpty || piece = ['.'] || piece = ['.', '.']
  | [] => false

def cd (args : List Raw) : Proc Result := do
  let (os, args) ← options "LP" "" args
  let s ← get
  let (dest, printed) ← match args with
    | [] => pure ((s.value? "HOME").getD [], false)
    | ['-'] :: _ => pure ((s.value? "OLDPWD").getD [], true)
    | dir :: _ => pure (dir, false)
  let fail {α : Type} : Proc α := fail ("can't cd to " ++ dest)
  let finish (dir : Raw) (printed : Bool) : Proc Result := do
    if !(← goTo (isPhysical os) dir) then fail
    let here := (← get).here
    return { output := if printed then here ++ ['\n'] else [] }
  if isExplicit dest then finish dest printed
  else
    let dest := if dest.isEmpty then ['.'] else dest
    let dirs := match s.value? "CDPATH" with
      | some t => Text.splitOn ':' t
      | none => []
    let m ← machine
    let found := dirs.find? fun dir => m.isDir s.pid (Raw.toText (Programs.pathIn dir dest))
    match found with
    | some dir => finish (Programs.pathIn dir dest) (printed || !dir.isEmpty)
    | none => finish dest printed

def pwd (args : List Raw) : Proc Result := do
  let (os, _) ← options "LP" "" args
  let here ← if isPhysical os then do pure (Raw.ofText (FileTree.pathOf (← cwd)))
    else do pure (← get).here
  return { output := here ++ ['\n'] }

/-! ## All commands -/

def perform (core : Core) (flags : Flags) (b : Builtin) (name : Raw) (args : List Raw) :
    Proc Result :=
  match b with
  | .defineAlias => defineAlias args
  | .background | .foreground => continueJob args
  | .break => leaveLoops .leaveLoops args
  | .continue => leaveLoops .nextRound args
  | .cd => cd args
  | .colon | .true => done 0
  | .false => done 1
  | .command => command core.run args
  | .dot => dot core args
  | .echo => echo args
  | .eval => eval core flags args
  | .exec => exec core args
  | .exit => exit args
  | .export => exportVariables args
  | .readonly => freezeVariables args
  | .local => localVariables args
  | .getopts => getopts args
  | .hash => hash core.run args
  | .jobs => jobs args
  | .kill => kill args
  | .printf => printf args
  | .pwd => pwd args
  | .read => read args
  | .return => leaveFunction args
  | .set => set args
  | .shift => shift args
  | .test => test name args
  | .times => times
  | .trap => trap args
  | .type => type core.run args
  | .ulimit => ulimit args
  | .umask => umask args
  | .unalias => unalias args
  | .unset => unset args
  | .wait => wait args

def run (core : Core) (flags : Flags) (b : Builtin) (name : Raw) (args : List Raw) : Proc Unit := do
  Proc.spend time
  let outer := (← Proc.get).commandName
  Proc.modify fun s => { s with commandName := some name }
  let body : Proc Unit := do
    let r ← perform core flags b name args
    let status ← match ← Proc.write 1 r.output with
      | .ok () => pure r.status
      | .error _ => do
        Proc.complain (name ++ ": I/O error")
        pure (r.status ||| 1)
    Proc.setStatus status
  Proc.finally' body (Proc.modify fun s => { s with commandName := outer })

end PatchTriage.Shell.Builtins
