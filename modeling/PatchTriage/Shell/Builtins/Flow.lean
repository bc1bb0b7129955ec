import PatchTriage.Shell.Builtins.Basic

/-!
# What the name of a command means, and the flow of a script

A name is looked for among functions, then commands of the shell, then in the search path, which may
put commands of the shell later and hold files that define functions. Other commands leave loops,
functions and the shell, or run a text, a file, or a program in the place of the shell.
-/

namespace PatchTriage.Shell.Builtins

section

open Proc Programs

/-! ## Finding commands -/

inductive Meaning where
  | function (body : Command)
  | builtin (b : Builtin)
  | program (index : Nat)
  | missing (e : IoError)

def standardPath : Raw := "/usr/local/sbin:/usr/local/bin:/usr/sbin:/usr/bin:/sbin:/bin"

def searchPath : Proc Raw := value "PATH"

def remember (name : Raw) (index : Nat) : Proc Unit :=
  modify fun s =>
    let hashed := if s.hashed.any (·.1 = name) then
        s.hashed.map fun (n, i) => (n, if n = name then index else i)
      else (name, index) :: s.hashed
    { s with hashed, stale := s.stale.filter (· ≠ name) }

inductive Finding where
  | builtin (b : Builtin)
  | program (index : Nat)
  | definition (path : Raw)

/-- Looks for a name in a search path from `index` on; `last` is why it was refused elsewhere. The
program at the position `known` need not be there any more. -/
def search (m : Machine) (pid : Nat) (functions : Bool) (builtin : Option Builtin)
    (known : Option Nat) (name : Raw) :
    (index : Nat) → (last : IoError) → List PathPart → Except IoError Finding
  | _, last, [] => .error last
  | index, last, part :: parts =>
    let path := pathIn part.dir name
    let goOn (e : IoError) : Except IoError Finding :=
      search m pid functions builtin known name (index + 1) (if isMissing e then last else e) parts
    match part.kind, builtin with
    | .builtins, some b => .ok (.builtin b)
    | .builtins, none => goOn .notFound
    | .functions, _ =>
      if !functions then goOn .notFound
      else
        match m.stat pid true (Raw.toText path) with
        | .ok (_, .file ..) | .ok (_, .tool _) => .ok (.definition path)
        | .ok _ => goOn .permissionDenied
        | .error e => goOn e
    | .programs, _ =>
      let known := known.filter fun _ => path.head? = some '/'
      if known.any (index < ·) then goOn .notFound
      else if known = some index then .ok (.program index)
      else
        match runnable m pid path with
        | .ok _ => .ok (.program index)
        | .error e => goOn e

variable (run : Runner)

def define (name path : Raw) : Proc Meaning := do
  let _ ← runScript run (← openScript path)
  match (← get).functions.lookup name with
  | some body => return .function body
  | none => fail (name ++ " not defined in " ++ path)

/-- Looks for a name in a search path. Where a program was found once counts even if it is gone;
only directories below the working directory may come in front of that once it has changed. -/
def findInPath (functions : Bool) (builtin : Option Builtin) (path : Option Raw)
    (name : Raw) : Proc Meaning := do
  let s ← get
  let known := if path.isNone then s.hashed.lookup name else none
  if let (some index, false) := (known, s.stale.contains name) then return .program index
  let parts := pathParts (← path.elim searchPath pure)
  match search (← machine) s.pid functions builtin known name 0 .notFound parts with
  | .ok (.builtin b) => return .builtin b
  | .ok (.program index) =>
    if path.isNone then remember name index
    return .program index
  | .ok (.definition file) => define run name file
  | .error e => return .missing e

def builtinFirst? (path : Option Raw) (name : Raw) : Proc (Option Builtin) := do
  match Builtin.ofName? name with
  | none => return none
  | some b =>
    if b.isStandard || path.isSome || !putsBuiltinsLate (← searchPath) then return some b
    else return none

def find (functions : Bool) (path : Option Raw) (name : Raw) : Proc Meaning := do
  if '/' ∈ name then return .program 0
  let s ← get
  match (if functions then s.functions.lookup name else none), ← builtinFirst? path name with
  | some body, _ => return .function body
  | none, some b => return .builtin b
  | none, none => findInPath run functions (Builtin.ofName? name) path name

def missingText (name : Raw) (e : IoError) : Raw :=
  let why : Raw := if isMissing e then "not found" else Redirection.systemMessage e
  name ++ ": " ++ why

/-! ## Tables by name -/

def placeInTable (size : Nat) (name : Raw) : Nat :=
  let sum := name.foldl (fun n c => n + c.toNat) ((name.headD '\x00').toNat * 16)
  sum % 32768 % size

def inTableOrder {α : Type} (size : Nat) (entries : List (Raw × α)) : List (Raw × α) :=
  (List.range size).flatMap fun place =>
    entries.filter fun (name, _) => placeInTable size name = place

/-! ## Aliases -/

def aliasText (name value : Raw) : Raw := name ++ ['='] ++ quoted value ++ ['\n']

def aliasTableSize : Nat := 39

def aliasParts? : Raw → Option (Raw × Raw)
  | [] => none
  | c :: t =>
    let front := t.takeWhile (· ≠ '=')
    if front.length < t.length then some (c :: front, t.drop (front.length + 1)) else none

def setAlias (aliases : List (Raw × Raw)) (name value : Raw) : List (Raw × Raw) :=
  if aliases.any (·.1 = name) then aliases.map fun (k, old) => (k, if k = name then value else old)
  else aliases ++ [(name, value)]

def joined (results : List Result) : Result :=
  { status := (results.map (·.status)).foldl max 0, output := results.flatMap (·.output) }

def defineAlias (args : List Raw) : Proc Result := do
  if args.isEmpty then
    let entries := inTableOrder aliasTableSize (← get).aliases
    return { output := entries.flatMap fun (name, value) => aliasText name value }
  let results ← collect args fun t => do
    match aliasParts? t with
    | some (name, value) =>
      modify fun s => { s with aliases := setAlias s.aliases name value }
      return ({} : Result)
    | none =>
      match (← get).aliases.lookup t with
      | some value => return { output := aliasText t value }
      | none =>
        writeError ("alias: " ++ t ++ " not found\n")
        return { status := 1 }
  return joined results

def unalias (args : List Raw) : Proc Result := do
  let (os, names) ← options "a" "" args
  if !os.isEmpty then
    modify fun s => { s with aliases := [] }
    done 0
  else
    let found ← collect names fun name => do
      let isThere := (← get).aliases.any (·.1 = name)
      modify fun s => { s with aliases := s.aliases.filter (·.1 ≠ name) }
      if !isThere then writeError ("unalias: " ++ name ++ " not found\n")
      return isThere
    done (if found.all id then 0 else 1)

/-! ## Programs that are known -/

def commandTableSize : Nat := 31

def programPath (path name : Raw) (index : Nat) : Raw :=
  if '/' ∈ name then name
  else pathIn (((pathParts path)[index]?.map (·.dir)).getD []) name

def hash (args : List Raw) : Proc Result := do
  let (os, names) ← options "r" "" args
  if !os.isEmpty then
    modify fun s => { s with hashed := [], stale := [] }
    done 0
  else if names.isEmpty then
    let path ← searchPath
    let s ← get
    let entries := inTableOrder commandTableSize s.hashed.reverse
    return { output := entries.flatMap fun (name, index) =>
      programPath path name index ++ (if s.stale.contains name then ['*', '\n'] else ['\n']) }
  else
    let found ← collect names fun name => do
      modify fun s => { s with
        hashed := s.hashed.filter (·.1 ≠ name), stale := s.stale.filter (· ≠ name) }
      match ← find run true none name with
      | .missing e =>
        complain (missingText name e)
        return false
      | _ => return true
    done (if found.all id then 0 else 1)

/-! ## Describing commands -/

def describe (verbose : Bool) (path : Option Raw) (name : Raw) : Proc Result := do
  let s ← get
  let say (words : Raw) : Proc Result :=
    return { output := (if verbose then name ++ words else name) ++ ['\n'] }
  let absent : Proc Result :=
    return { status := 127, output := if verbose then name ++ ": not found\n" else [] }
  if (Keyword.table.lookup name).isSome then return ← say " is a shell keyword"
  match s.aliases.lookup name with
  | some value =>
    if verbose then say (" is an alias for " ++ value)
    else return { output := "alias " ++ aliasText name value }
  | none =>
    let place := if path.isNone then s.hashed.lookup name else none
    let known := place.isSome
    let isProgram := (s.functions.lookup name).isNone
    let meaning ← match isProgram, place with
      | true, some index => pure (Meaning.program index)
      | _, _ => find run true path name
    match meaning with
    | .function _ => say " is a shell function"
    | .builtin b =>
      say (if b.isSpecial then " is a special shell builtin" else " is a shell builtin")
    | .missing _ => absent
    | .program index =>
      let isThere := '/' ∉ name || (← stat name).toOption.isSome
      if !isThere then return ← absent
      let place := programPath (← path.elim searchPath pure) name index
      if verbose then
        let front : Raw := if known then " is a tracked alias for " else " is "
        return { output := name ++ front ++ place ++ ['\n'] }
      else return { output := place ++ ['\n'] }

def type (names : List Raw) : Proc Result := do
  return joined (← collect names (describe run true none))

def command (args : List Raw) : Proc Result := do
  let (os, names) ← options "pvV" "" args
  let letters := os.map Prod.fst
  let path := if 'p' ∈ letters then some standardPath else none
  match names with
  | name :: _ =>
    if 'V' ∈ letters then describe run true path name
    else if 'v' ∈ letters then describe run false path name
    else done 0
  | [] => done 0

end

/-! ## The flow of a script -/

open Proc

structure Core where
  run : Runner
  shell : Programs.ShellMain

def loopCount (args : List Raw) : Proc Nat := do
  let n ← match args with
    | [] => pure 1
    | t :: _ => do
      let n ← number t
      if n = 0 then badNumber t else pure n
  return min n (← get).loops

def leaveLoops (halt : Nat → Halt) (args : List Raw) : Proc Result := do
  match ← loopCount args with
  | 0 => done 0
  | n =>
    setStatus 0
    Proc.halt (halt n)

def leaveFunction (args : List Raw) : Proc Result := do
  match args with
  | [] => halt (.leaveFunction false)
  | t :: _ =>
    setStatus (← number t)
    halt (.leaveFunction true)

def exit (args : List Raw) : Proc Result := do
  let s ← get
  let status ← match args with
    | [] => pure (s.trapStatus.getD s.status)
    | t :: _ => number t
  setStatus status
  halt .exit

def eval (core : Core) (flags : Flags) (args : List Raw) : Proc Result := do
  done (← Script.runText core.run { tested := flags.tested } (Text.join [' '] args))

def sourceFile (name : Raw) : Proc Raw := do
  if '/' ∈ name then return name
  let m ← machine
  let pid := (← get).pid
  let parts := (Programs.pathParts (← searchPath)).filter (·.kind ≠ .builtins)
  let paths := parts.map fun part => Programs.pathIn part.dir name
  let isFile (p : Raw) : Bool := match m.stat pid true (Raw.toText p) with
    | .ok (_, .file _ _) | .ok (_, .tool _) => true
    | _ => false
  match paths.find? isFile with
  | some p => return p
  | none => fail (name ++ ": not found")

def dot (core : Core) (args : List Raw) : Proc Result := do
  let (_, args) ← options "" "" args
  match args with
  | [] => done 0
  | name :: _ =>
    let path ← sourceFile name
    let fd ← openScript path
    modify fun s => { s with commandName := some path }
    done (← runScript core.run fd)

def exec (core : Core) (args : List Raw) : Proc Result := do
  let (_, argv) ← options "" "" args
  if argv.isEmpty then done 0 else Programs.exec core.shell (← searchPath) 0 argv

end PatchTriage.Shell.Builtins
