import PatchTriage.Shell.Tools.Options

/-!
# The program `cat`

Copies files to the output, one after another, and shows what cannot be seen if it is asked to.
-/

namespace PatchTriage.Shell.Tools.Cat

open Proc

structure Style where
  numbers : Bool := false
  nonblankOnly : Bool := false
  squeeze : Bool := false
  ends : Bool := false
  tabs : Bool := false
  nonprinting : Bool := false
  deriving DecidableEq

def specs : List OptionSpec :=
  readSpecs "b:number-nonblank n:number s:squeeze-blank v:show-nonprinting E:show-ends
    T:show-tabs A:show-all e t u"
    ++ Arguments.common

def Style.ofArguments (a : Arguments) : Style :=
  { numbers := a.has 'n' || a.has 'b', nonblankOnly := a.has 'b', squeeze := a.has 's'
    ends := a.has 'E' || a.has 'e' || a.has 'A', tabs := a.has 'T' || a.has 't' || a.has 'A'
    nonprinting := a.has 'v' || a.has 'e' || a.has 't' || a.has 'A' }

structure Position where
  lineEnds : Option Nat := some 0
  lines : Nat := 0
  pendingReturn : Bool := false

def shown (s : Style) (c : Char) : Raw :=
  let n := c.toNat
  let caret (n : Nat) : Raw := ['^', Char.ofNat (n + 64)]
  let low (n : Nat) : Raw :=
    if n < 32 then caret n else if n = 127 then ['^', '?'] else [Char.ofNat n]
  if c = '\t' then (if s.tabs then ['^', 'I'] else ['\t'])
  else if !s.nonprinting then [c]
  else if n < 128 then low n
  else 'M' :: '-' :: low (n - 128)

def numberText (n : Nat) : Raw := Text.padLeft 6 ' ' (Text.ofNat n) ++ ['\t']

def step (s : Style) (p : Position) (c : Char) : Raw × Position :=
  let waiting : Raw := if !p.pendingReturn then [] else if c = '\n' then ['^', 'M'] else ['\r']
  let p := { p with pendingReturn := false }
  if c = '\n' then
    let count := match p.lineEnds with
      | none => 0
      | some n => min 2 (n + 1)
    let p' := { p with lineEnds := some count }
    if count = 2 && s.squeeze then (waiting, p')
    else
      let numbered := 0 < count && s.numbers && !s.nonblankOnly
      let lines := if numbered then p.lines + 1 else p.lines
      (waiting ++ (if numbered then numberText lines else [])
        ++ (if s.ends then ['$', '\n'] else ['\n']),
        { p' with lines })
  else
    let numbered := p.lineEnds.isSome && s.numbers
    let lines := if numbered then p.lines + 1 else p.lines
    let number := if numbered then numberText lines else []
    let held := c = '\r' && s.ends && !s.nonprinting
    (waiting ++ number ++ (if held then [] else shown s c),
      { p with lineEnds := none, lines, pendingReturn := held })

def render (s : Style) (t : Raw) (p : Position) : Raw × Position :=
  let (out, p) := t.foldl (fun (out, p) c =>
    let (more, p) := step s p c
    (more.reverse ++ out, p)) (([] : Raw), p)
  (out.reverse, p)

def fileDescriptor : Nat := 3

def readsOutput (m : Machine) (pid fd : Nat) : Bool :=
  match m.openFile? pid fd, m.openFile? pid 1 with
  | some (_, input), some (_, { channel := .file k, offset, append, .. }) =>
    input.channel = .file k
      && input.offset < (if append then (m.fileSize? k).getD 0 else offset)
  | _, _ => false

def copy (program : Raw) (s : Style) (isPlain : Bool) (name : Raw) (fd : Nat)
    (p : Position) : Proc (Bool × Position) :=
  iterate p fun p => do
    match ← read fd blockSize with
    | .error message =>
      complain program (Message.nameIfNeeded name ++ ": " ++ message)
      return .inr (false, p)
    | .ok [] => return .inr (true, p)
    | .ok t =>
      let (out, p) := if isPlain then (t, p) else render s t p
      print program 1 out
      spend 20
      return .inl p

def copyFile (program : Raw) (s : Style) (isPlain : Bool) (name : Raw) (p : Position) :
    Proc (Bool × Position) := do
  let fd ← if name = (['-'] : Raw) then pure (some 0)
    else do
      match ← openAt fileDescriptor { read := true } name with
      | .ok () => pure (some fileDescriptor)
      | .error e =>
        complain program (Message.nameIfNeeded name ++ ": " ++ Redirection.systemMessage e)
        pure none
  match fd with
  | none => return (false, p)
  | some fd =>
    let r ← if ← call fun pid m => (readsOutput m pid fd, m) then do
        complain program (Message.nameIfNeeded name ++ ": input file is output file")
        pure (false, p)
      else copy program s isPlain name fd p
    if fd ≠ 0 then close fd
    return r

def run (program : Raw) (args : List Raw) : Proc Unit := do
  let a ← Arguments.ofProcess specs args
  match a.problem with
  | some e => misuse program e
  | none =>
    if a.asksAbout then
      setStatus 0
      return ()
    let isOpen ← call fun pid m => ((m.openFile? pid 1).isSome, m)
    if !isOpen then
      complain program "standard output: Bad file descriptor"
      setStatus 1
      return ()
    let s := Style.ofArguments a
    let files := if a.operands.isEmpty then [['-']] else a.operands
    let (ok, p) ← iterate (files, true, ({} : Position)) fun (files, ok, p) => do
      match files with
      | [] => return .inr (ok, p)
      | file :: files =>
        let (copied, p) ← copyFile program s (s = {}) file p
        return .inl (files, ok && copied, p)
    if p.pendingReturn then print program 1 ['\r']
    let lostInput ← call fun pid m => (files.contains ['-'] && (m.openFile? pid 0).isNone, m)
    if lostInput then complain program "closing standard input: Bad file descriptor"
    setStatus (if ok && !lostInput then 0 else 1)

end PatchTriage.Shell.Tools.Cat
