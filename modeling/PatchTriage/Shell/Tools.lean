import PatchTriage.Shell.Tools.Condition
import PatchTriage.Shell.Tools.Grep
import PatchTriage.Shell.Tools.Printf
import PatchTriage.Shell.Tools.Remove

/-!
# Programs of the host

The programs of every host but the shell, and how they are started: a path comes down to a program
with arguments; a script names the program that reads it in its first line.
-/

namespace PatchTriage.Shell.Tools.MakeDirectory

/-! ## The program `mkdir` -/

def specs : List OptionSpec :=
  readSpecs "m=mode p:parents v:verbose Z \x01?context"
    ++ Arguments.common

structure Plan where
  program : Raw
  verbose : Bool
  mode : Nat
  modeAbove : Nat

def Plan.ofArguments? (program : Raw) (mask : Nat) (a : Arguments) : Option Plan := do
  let mode ← match a.last? 'm' with
    | some t => Mode.ofText? mask t
    | none => some (Mode.without Mode.permissions mask)
  let forOwner := (Mode.write + Mode.enter) * Mode.owner
  return { program, verbose := a.has 'v', mode
           modeAbove := Mode.without Mode.permissions (Mode.without mask forOwner) }

def make (plan : Plan) (mode : Nat) (dir : Raw) : Proc (Except IoError Unit) := do
  let result : Except IoError Unit ← Proc.call fun pid m =>
    match m.locate pid false (Raw.toText dir) with
    | .error e => (.error e, m)
    | .ok entry =>
      if !entry.named || (m.tree.node? entry.place).isSome then (.error .alreadyExists, m)
      else if !m.mayChange entry.place.dropLast then (.error .permissionDenied, m)
      else (.ok (), m.create entry.place .dir mode)
  if plan.verbose && result.toOption.isSome then
    tell (plan.program ++ ": created directory " ++ Message.name dir ++ ['\n'])
  return result

def steps (dir : Raw) : List Raw :=
  let bare := Text.dropEndWhile (· = '/') dir
  let ends := (List.range bare.length).filter fun i =>
    0 < i && bare[i]? == some '/' && bare[i - 1]? != some '/'
  (ends.map fun i => bare.take i) ++ [dir]

def refuse (plan : Plan) (dir : Raw) (e : IoError) : Proc Bool := do
  complain plan.program ("cannot create directory " ++ Message.word dir ++ ": "
    ++ Redirection.systemMessage e)
  return false

def makeAll (plan : Plan) (dir : Raw) : Proc Bool :=
  Proc.iterate (steps dir) fun paths => do
    match paths with
    | [] => return .inr true
    | path :: rest =>
      match ← make plan (if rest.isEmpty then plan.mode else plan.modeAbove) path with
      | .ok () => return .inl rest
      | .error e =>
        if ← Proc.call fun pid m => (m.isDir pid (Raw.toText path), m) then return .inl rest
        let reason : IoError := if e = .alreadyExists && !rest.isEmpty then .notADirectory else e
        return .inr (← refuse plan path reason)

def run (program : Raw) (args : List Raw) : Proc Unit := do
  let a ← Arguments.ofProcess specs args
  Proc.forEach (a.options.filter fun (c, t) => c = '\x01' && !t.isEmpty) fun _ =>
    complain program "warning: ignoring --context; it requires an SELinux/SMACK-enabled kernel"
  match a.problem with
  | some e => misuse program e
  | none =>
    if a.asksAbout then Proc.setStatus 0
    else if a.operands.isEmpty then misuse program "missing operand"
    else
      match Plan.ofArguments? program (← Proc.get).mask a with
      | none =>
        complain program ("invalid mode " ++ Message.word ((a.last? 'm').getD []))
        Proc.setStatus 1
      | some plan =>
        forAll a.operands fun dir => do
          if a.has 'p' then makeAll plan dir
          else
            match ← make plan plan.mode dir with
            | .ok () => return true
            | .error e => refuse plan dir e

end PatchTriage.Shell.Tools.MakeDirectory

/-! ## The program `sleep` -/

namespace PatchTriage.Shell.Tools.Sleep

def unit? : Raw → Option Nat
  | [] | ['s'] => some 1
  | ['m'] => some 60
  | ['h'] => some 3600
  | ['d'] => some 86400
  | _ => none

def longest : Nat := 1000000000000000

def microseconds? (t : Raw) : Option Nat := do
  let (n, rest) ← Format.numeral? t
  let u ← unit? rest
  match n.quantity with
  | .nan => none
  | .infinite => if n.negative then none else some longest
  | .exact r =>
    if n.negative && r.num ≠ 0 then none
    else some (min longest ((r.num * (u * 1000000) + (r.den - 1)) / r.den))

def run (program : Raw) (args : List Raw) : Proc Unit := do
  let a ← Arguments.ofProcess Arguments.common args
  match a.problem with
  | some e => misuse program e
  | none =>
    if a.asksAbout then Proc.setStatus 0
    else if a.operands.isEmpty then misuse program "missing operand"
    else
      let wrong := a.operands.filter fun t => (microseconds? t).isNone
      if wrong.isEmpty then
        Proc.spend ((a.operands.filterMap microseconds?).foldl (· + ·) 0)
        Proc.setStatus 0
      else
        Proc.forEach wrong.dropLast fun t =>
          complain program ("invalid time interval " ++ Message.word t)
        misuse program ("invalid time interval " ++ Message.word (wrong.getLastD []))

end PatchTriage.Shell.Tools.Sleep

/-! ## The program `echo` -/

namespace PatchTriage.Shell.Tools.Echo

structure Style where
  newline : Bool := true
  escapes : Bool := false

def options : Style → List Raw → Style × List Raw
  | s, [] => (s, [])
  | s, w :: ws =>
    match w with
    | '-' :: c :: cs =>
      if (c :: cs).all (· ∈ ['n', 'e', 'E']) then
        let set (s : Style) (c : Char) : Style :=
          if c = 'n' then { s with newline := false } else { s with escapes := c = 'e' }
        options ((c :: cs).foldl set s) ws
      else (s, w :: ws)
    | _ => (s, w :: ws)

/-- The character of an escape, after its backslash, and what follows it; none if it is no escape.
-/
def escape? (t : Raw) : Option (Char × Raw) :=
  match t with
  | 'x' :: h :: rest =>
    match Text.hexDigit? h, (rest.head?).bind Text.hexDigit? with
    | some a, some b => some (Char.ofNat (16 * a + b), rest.drop 1)
    | some a, none => some (Char.ofNat a, rest)
    | none, _ => none
  | '0' :: rest => some (Format.octalEscape rest)
  | c :: rest =>
    if Format.isOctal c then some (Format.octalEscape t)
    else (Format.escaped? c).map fun e => (e, rest)
  | [] => none

def unescape : (fuel : Nat) → Raw → Raw × Bool
  | 0, t => (t, false)
  | _ + 1, [] => ([], false)
  | fuel + 1, c :: t =>
    if c = '\\' && t.head? = some 'c' then ([], true)
    else
      let (c, rest) := if c = '\\' then (escape? t).getD (c, t) else (c, t)
      let (out, ended) := unescape fuel rest
      (c :: out, ended)

/-- What is written. A strict program knows options only after a first one that asks for no line
end. -/
def output (isStrict : Bool) (args : List Raw) : Raw :=
  let mayHaveOptions := !isStrict || args.head? = some ['-', 'n']
  let (s, args) := if mayHaveOptions then options {} args else ({}, args)
  let t := Text.join [' '] args
  let (t, ended) := if s.escapes || isStrict then unescape (t.length + 1) t else (t, false)
  if s.newline && !ended then t ++ ['\n'] else t

def run (program : Raw) (args : List Raw) : Proc Unit := do
  Proc.setStatus 0
  print program 1 (output ((← Proc.get).value? Arguments.strictVariable).isSome args)

end PatchTriage.Shell.Tools.Echo

namespace PatchTriage.Shell.Tools

def body (tool : Tool) (program : Raw) (args : List Raw) : Proc Unit :=
  match tool with
  | .cat => Cat.run program args
  | .cp => Copy.run program args
  | .grep => Grep.run program args
  | .mkdir => MakeDirectory.run program args
  | .rm => Remove.run program args
  | .sleep => Sleep.run program args
  | .true => Proc.setStatus 0
  | .false => Proc.setStatus 1
  | .echo => Echo.run program args
  | .printf => Printf.run program args
  | .test => Condition.run false program args
  | .bracket => Condition.run true program args
  | .sh => Proc.setStatus 0

def run (tool : Tool) (argv : List Raw) : Proc Unit := do
  let program := argv.headD []
  body tool program (argv.drop 1)
  if let some message := (← Proc.get).unwritten then
    complainOfOutput program message
    Proc.setStatus 1

end PatchTriage.Shell.Tools

namespace PatchTriage.Shell

namespace Programs

/-! ## Interpreters -/

def headLength : Nat := 256

def isBlank (c : Char) : Bool := c = ' ' || c = '\t'

/-- The program that a script names in its first line, if that is not cut off, and one argument for
it.
-/
def interpreter? (bytes : Bytes) : Option (Raw × List Raw) :=
  let head := Raw.ofBytes (bytes.take headLength)
  match head with
  | '#' :: '!' :: t =>
    let padded := t ++ List.replicate (headLength - head.length) '\x00'
    let line := padded.takeWhile fun c => c ≠ '\n' && c ≠ '\x00'
    let isWhole := (padded.drop line.length).head? == some '\n'
    let body := line.dropWhile isBlank
    let name := body.takeWhile (!isBlank ·)
    let rest := body.drop name.length
    -- A line that reaches beyond the head is cut off.
    let isLong := !isWhole && line.length + 2 = headLength
    let isCut := isLong && rest.isEmpty
    if name.isEmpty || isCut then none
    else
      let arg := Text.dropEndWhile isBlank (rest.dropWhile isBlank)
      let arg := if isWhole then arg else (if isLong then rest.dropLast else rest).dropWhile isBlank
      -- In a line without an end, blanks after the name stand before an empty argument.
      some (name, if rest.isEmpty || (isWhole && arg.isEmpty) then [] else [arg])
  | _ => none

structure Image where
  tool : Tool
  argv : List Raw

def maxInterpreters : Nat := 5

def runnable (m : Machine) (pid : Nat) (path : Raw) : Except IoError Node := do
  let (place, n) ← m.stat pid true (Raw.toText path)
  match n with
  | .file _ _ | .tool _ => if m.allows place n Mode.enter then return n else throw .permissionDenied
  | _ => throw .permissionDenied

def load (m : Machine) (pid : Nat) : (fuel : Nat) → (path : Raw) → (argv : List Raw) →
    Except IoError Image
  | 0, _, _ => .error .uncategorized
  | fuel + 1, path, argv => do
    match ← runnable m pid path with
    | .tool tool => return { tool, argv }
    | .file bytes _ =>
      match interpreter? bytes with
      | none => throw .uncategorized
      | some (program, args) => load m pid fuel program ([program] ++ args ++ [path] ++ argv.drop 1)
    | _ => throw .permissionDenied

/-! ## Looking for programs -/

inductive PathKind where
  | programs
  | builtins
  | functions
  deriving DecidableEq

structure PathPart where
  dir : Raw
  kind : PathKind := .programs

def PathKind.ofText? (t : Raw) : Option (PathKind × Raw) :=
  let named (word : Raw) (kind : PathKind) : Option (PathKind × Raw) :=
    (Text.dropHead? word t).map fun rest =>
      (kind, if rest.head? = some '%' then rest.drop 1 else rest)
  named "builtin" .builtins <|> named "func" .functions

def PathPart.ofText (t : Raw) : PathPart :=
  let dir := t.takeWhile (· ≠ '%')
  match dir, PathKind.ofText? (t.drop (dir.length + 1)) with
  | _, none => { dir := t }
  | [], some (kind, rest) => if t.isEmpty then { dir := t } else { dir := rest, kind }
  | dir, some (kind, _) => { dir, kind }

def pathParts (searchPath : Raw) : List PathPart :=
  (Text.splitOn ':' searchPath).map PathPart.ofText

def putsBuiltinsLate (searchPath : Raw) : Bool :=
  match (Text.splitOn ':' searchPath).findIdx? fun t => (Text.dropHead? "%builtin" t).isSome with
  | some n => 0 < n
  | none => false

def pathIn (dir name : Raw) : Raw := if dir.isEmpty then name else dir ++ '/' :: name

def isMissing (e : IoError) : Bool := e = .notFound || e = .notADirectory

/-- The program that is looked for in directories one after another. A file of no known form is a
script. -/
def loadFrom (m : Machine) (pid : Nat) (argv : List Raw) :
    (last : IoError) → (paths : List Raw) → Except IoError Image
  | last, [] => .error last
  | last, path :: paths =>
    match load m pid maxInterpreters path argv with
    | .ok image => .ok image
    | .error .uncategorized => .ok { tool := .sh, argv := [("/bin/sh" : Raw), path] ++ argv.drop 1 }
    | .error e => loadFrom m pid argv (if isMissing e then last else e) paths

def loadNamed (m : Machine) (pid : Nat) (searchPath : Raw) (index : Nat)
    (argv : List Raw) : Except IoError Image :=
  let name := argv.headD []
  if '/' ∈ name then loadFrom m pid argv .notFound [name]
  else
    loadFrom m pid argv .notFound
      ((((pathParts searchPath).drop index).filter (·.kind = .programs)).map fun part =>
        pathIn part.dir name)

/-! ## Becoming a program -/

def loadTime : Nat := 500

abbrev ShellMain := (name : Raw) → (args : List Raw) → Proc Unit

def body (shell : ShellMain) (image : Image) : Proc Unit := do
  Proc.spend loadTime
  match image.tool with
  | .sh => shell (image.argv.headD []) (image.argv.drop 1)
  | tool => Tools.run tool image.argv

def become {α : Type} (shell : ShellMain) (env : List (Raw × Raw)) (image : Image) : Proc α :=
  fun s m _ =>
  let kept := (m.descriptors s.pid).filter (·.1 < Redirection.firstSaved)
  let m :=
    (m.setDescriptors s.pid kept).onProcess s.pid fun p => { p with caught := [], pending := [] }
  let ignored := ((m.process? s.pid).map (·.ignored)).getD []
  let vars :=
    env.map fun (name, value) => (name, ({ value := some value, exported := true } : Variable))
  Proc.toEnd (body shell image)
    { pid := s.pid, rootPid := s.pid, name := image.argv.headD [], vars, mask := s.mask
      ignoredAtStart := ignored } m

def refuse {α : Type} (name : Raw) (e : IoError) : Proc α := do
  let message := if isMissing e then ("not found" : Raw) else Redirection.systemMessage e
  Proc.setStatus (if isMissing e || e = .invalidFilename then 127 else 126)
  Proc.complain (name ++ ": " ++ message)
  Proc.halt .exit

def exec {α : Type} (shell : ShellMain) (searchPath : Raw) (index : Nat)
    (argv : List Raw) : Proc α := do
  let s ← Proc.get
  match loadNamed (← Proc.machine) s.pid searchPath index argv with
  | .ok image => become shell s.environment image
  | .error e => refuse (argv.headD []) e

end Programs

end PatchTriage.Shell
