import PatchTriage.Shell.Tools.Copy

/-!
# The program `rm`

Removes files, and directories with all that is in them.
-/

namespace PatchTriage.Shell.Tools.Remove

open Proc

def askings : Choices :=
  ⟨"--interactive", [["never", "no", "none"], ["once"], ["always", "yes"]], false⟩

def specs : List OptionSpec :=
  readSpecs "f:force i I"
    ++ [⟨'\x01', ["interactive"], .optional (some askings)⟩]
    ++ readSpecs "\x02:one-file-system \x03:no-preserve-root \x04?preserve-root r:recursive R d:dir
    v:verbose" ++ Arguments.common

inductive Asking where
  | never
  | once
  | always
  deriving DecidableEq

structure Plan where
  program : Raw
  force : Bool
  asking : Asking
  recursive : Bool
  emptyDirs : Bool
  verbose : Bool

def Plan.ofArguments (program : Raw) (a : Arguments) : Plan :=
  let step (p : Bool × Asking) (o : Char × Raw) : Bool × Asking :=
    match o with
    | ('f', _) => (true, .never)
    | ('i', _) => (false, .always)
    | ('I', _) => (false, .once)
    | ('\x01', value) =>
      if value = ("never" : Raw) then (p.1, .never)
      else if value = ("once" : Raw) then (false, .once)
      else (false, .always)
    | _ => p
  let (force, asking) := a.options.foldl step (false, .never)
  { program, force, asking, recursive := a.has 'r' || a.has 'R', emptyDirs := a.has 'd'
    verbose := a.has 'v' }

inductive Outcome where
  | removed | declined | skipped | failed
  deriving DecidableEq

def Outcome.keepsAbove (o : Outcome) : Bool := o = .skipped || o = .failed

def refuse (plan : Plan) (file : Raw) (e : IoError) : Proc Outcome := do
  complain plan.program ("cannot remove " ++ Message.name file ++ ": "
    ++ Redirection.systemMessage e)
  return .failed

def kind : Node → Raw
  | .dir => "directory"
  | .file [] _ => "regular empty file"
  | .file _ _ | .tool _ => "regular file"
  | .device (.descriptor _) => "fifo"
  | .device _ => "character special file"
  | .link _ => "symbolic link"

def isProtected (place : Place) (n : Node) : Proc Bool := do
  match n with
  | .link _ => return false
  | n => return !(← machine).allows place n Mode.write

def agreed (plan : Plan) (what : String) (noun : Raw) (file : Raw) (place : Place)
    (n : Node) : Proc Bool := do
  if plan.asking ≠ .always then return true
  let guard : Raw := if ← isProtected place n then "write-protected " else []
  Copy.asks plan.program ((what.toList ++ guard ++ noun ++ [' '] : Raw) ++ Message.name file)

def erase (plan : Plan) (file : Raw) (place : Place) (n : Node) (whyLeft : IoError) :
    Proc Outcome := do
  if !(← agreed plan "remove " (kind n) file place n) then return .declined
  let refusal : Option IoError ← call fun _ m =>
    if !(m.tree.children place).isEmpty then (some whyLeft, m)
    else if !m.mayRemove place then (some .permissionDenied, m)
    else (none, m.remove place)
  match refusal with
  | some e => refuse plan file e
  | none =>
    if plan.verbose then
      let what : Raw := if n = .dir then "removed directory " else "removed "
      tell (what ++ Message.name file ++ ['\n'])
    return .removed

def list (place : Place) : Proc (Except IoError (List (Text × Node))) :=
  call fun pid m => (m.list pid place, m)

def removeUpTo (plan : Plan) : (fuel : Nat) → Raw → Place → Node → Proc Outcome
  | 0, _, _, _ => return .failed
  | fuel + 1, file, place, n => do
    if n ≠ .dir then return ← erase plan file place n .directoryNotEmpty
    let listed ← list place
    if listed.toOption.any List.isEmpty then
      match ← erase plan file place n .directoryNotEmpty with
      | .declined => return .skipped
      | o => return o
    else if !plan.recursive then refuse plan file .directoryNotEmpty
    else
      if !(← agreed plan "descend into " "directory" file place n) then return .skipped
      let outcomes ← collect (listed.toOption.getD []) fun (name, n) =>
        removeUpTo plan fuel (Text.dropEndWhile (· = '/') file ++ '/' :: Raw.ofText name)
          (place ++ [name]) n
      let worst : Outcome :=
        if outcomes.contains .failed then .failed
        else if outcomes.contains .skipped then .skipped
        else .removed
      if worst.keepsAbove then return worst
      erase plan file place .dir
        (if listed.toOption.isSome then .directoryNotEmpty else .permissionDenied)

def isDots (file : Raw) : Bool :=
  let base := (Text.splitOn '/' (Text.dropEndWhile (· = '/') file)).getLast?
  base = some ['.'] || base = some ['.', '.']

def removeOperand (plan : Plan) (file : Raw) : Proc Outcome := do
  match ← stat file false with
  | .error e =>
    if plan.force && (e = .notFound || e = .notADirectory) then return .removed
    else refuse plan file e
  | .ok (place, .dir) =>
    let isEmpty := (← list place).toOption.any List.isEmpty
    if !plan.recursive && !(plan.emptyDirs && isEmpty) then
      refuse plan file (if plan.emptyDirs then .directoryNotEmpty else .isADirectory)
    else if isDots file then
      complain plan.program ("refusing to remove '.' or '..' directory: skipping "
        ++ Message.name file)
      return .failed
    else if place.isEmpty then
      complain plan.program ("it is dangerous to operate recursively on '/'")
      complain plan.program ("use --no-preserve-root to override this failsafe")
      return .failed
    else
      let bare := Text.dropEndWhile (· = '/') file
      removeUpTo plan Copy.maxDepth (if bare.length < file.length then bare ++ ['/'] else file)
        place .dir
  | .ok (place, n) => erase plan file place n .directoryNotEmpty

def run (program : Raw) (args : List Raw) : Proc Unit := do
  let a ← Arguments.ofProcess specs args
  let plan := Plan.ofArguments program a
  match a.problem with
  | some e => misuse program e
  | none =>
    let isKnown (o : Char × Raw) : Bool := o.1 ≠ '\x04' || o.2.isEmpty || o.2 = ("all" : Raw)
    if let some (_, t) := a.options.find? (!isKnown ·) then
      complain program ("unrecognized --preserve-root argument: " ++ Message.name t)
      setStatus 1
    else if a.asksAbout then setStatus 0
    else if a.has '\x03' && !args.contains "--no-preserve-root" then
      complain program "you may not abbreviate the --no-preserve-root option"
      setStatus 1
    else if a.operands.isEmpty then
      if plan.force then setStatus 0 else misuse program "missing operand"
    else
      let count := a.operands.length
      let asksOnce := plan.asking = .once && (plan.recursive || 3 < count)
      let noun : Raw := if count = 1 then " argument" else " arguments"
      let how : Raw := if plan.recursive then " recursively" else []
      let agreed ← if asksOnce then Copy.asks program ("remove " ++ Text.ofNat count ++ noun ++ how)
        else pure true
      if agreed then forAll a.operands fun file => do return (← removeOperand plan file) ≠ .failed
      else setStatus 0

end PatchTriage.Shell.Tools.Remove
