import PatchTriage.Shell.Script
import PatchTriage.Shell.Tools

/-!
# Commands of the shell itself

What a shell does without a program.
-/

namespace PatchTriage.Shell

inductive Builtin where
  | defineAlias | background | break | cd | colon | command | continue | dot | echo | eval | exec
  | exit | export | false | foreground | getopts | hash | jobs | kill | local | printf | pwd | read
  | readonly | return | set | shift | test | times | trap | true | type | ulimit | umask | unalias
  | unset | wait
  deriving DecidableEq

namespace Builtin

def table : List (String × Builtin) :=
  [("alias", .defineAlias), ("bg", .background), ("break", .break), ("cd", .cd), ("chdir", .cd),
    (":", .colon), ("command", .command), ("continue", .continue), (".", .dot), ("echo", .echo),
    ("eval", .eval), ("exec", .exec), ("exit", .exit), ("export", .export), ("false", .false),
    ("fg", .foreground), ("getopts", .getopts), ("hash", .hash), ("jobs", .jobs), ("kill", .kill),
    ("local", .local), ("printf", .printf), ("pwd", .pwd), ("read", .read), ("readonly", .readonly),
    ("return", .return), ("set", .set), ("shift", .shift), ("test", .test), ("[", .test),
    ("times", .times), ("trap", .trap), ("true", .true), ("type", .type), ("ulimit", .ulimit),
    ("umask", .umask), ("unalias", .unalias), ("unset", .unset), ("wait", .wait)]

def ofName? (name : Raw) : Option Builtin := table.lookup (String.ofList name)

def isSpecial (b : Builtin) : Bool :=
  b ∈ [.break, .continue, .colon, .dot, .eval, .exec, .exit, .export, .local, .readonly, .return,
    .set, .shift, .times, .trap, .unset]

def isStandard (b : Builtin) : Bool := b ∉ [.echo, .hash, .printf, .test]

def takesAssignments (b : Builtin) : Bool := b ∈ [.defineAlias, .export, .local, .readonly]

end Builtin

namespace Builtins

structure Result where
  status : Nat := 0
  output : Raw := []

def done (status : Nat) : Proc Result := return { status }

def time : Nat := 3

/-! ## Scripts in files -/

def openScript (path : Raw) : Proc Nat := do
  let fd ← Proc.call fun pid m => (Redirection.freeDescriptor m pid, m)
  match ← Proc.openAt fd { read := true } path with
  | .ok () => return fd
  | .error e => Proc.fail ("cannot open " ++ path ++ ": " ++ Redirection.message "No such file" e)

def runScript (run : Runner) (fd : Nat) : Proc Nat :=
  Proc.finally' (Script.runFile run fd) (Proc.close fd)

/-! ## Options -/

def letters (plain valued : String) : (text : Raw) → (rest : List Raw) →
    Proc (List (Char × Raw) × List Raw)
  | [], rest => return ([], rest)
  | c :: cs, rest => do
    if c ∈ valued.toList then
      match cs, rest with
      | [], value :: rest => return ([(c, value)], rest)
      | [], [] => Proc.fail ("No arg for -" ++ [c] ++ " option")
      | cs, rest => return ([(c, cs)], rest)
    else if c ∈ plain.toList then
      let (more, rest) ← letters plain valued cs rest
      return ((c, []) :: more, rest)
    else Proc.fail ("Illegal option -" ++ [c])

def optionsUpTo (plain valued : String) : (fuel : Nat) → List Raw →
    Proc (List (Char × Raw) × List Raw)
  | 0, args => return ([], args)
  | fuel + 1, args =>
    match args with
    | ['-', '-'] :: rest => return ([], rest)
    | ('-' :: c :: cs) :: rest => do
      let (found, rest) ← letters plain valued (c :: cs) rest
      let (more, rest) ← optionsUpTo plain valued fuel rest
      return (found ++ more, rest)
    | args => return ([], args)

def options (plain valued : String) (args : List Raw) : Proc (List (Char × Raw) × List Raw) :=
  optionsUpTo plain valued (args.length + 1) args

/-! ## Values in quotes -/

def quoteRuns : Raw → List (Bool × Raw)
  | [] => []
  | c :: t =>
    let isQuote := c = '\''
    match quoteRuns t with
    | (kind, run) :: rest =>
      if kind = isQuote then (kind, c :: run) :: rest else (isQuote, [c]) :: (kind, run) :: rest
    | [] => [(isQuote, [c])]

def quoted (t : Raw) : Raw :=
  let part (isQuote : Bool) (run : Raw) : Raw :=
    if isQuote then '"' :: run ++ ['"'] else '\'' :: run ++ ['\'']
  let runs := (quoteRuns t).flatMap fun (isQuote, run) => part isQuote run
  match t with
  | [] | '\'' :: _ => '\'' :: '\'' :: runs
  | _ => runs

end Builtins

end PatchTriage.Shell
