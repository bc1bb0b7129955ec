import PatchTriage.Shell.Tools.Cat
import PatchTriage.Shell.Tools.Grep.Matching

/-!
# The program `grep`

Shows the lines of files that match patterns, as options say (`Search`).
-/

namespace PatchTriage.Shell.Tools.Grep

open Proc

variable (program : Raw)

/-- Whether a name matches a pattern for files; of an operand, what follows a slash may match too.
-/
def nameAccepts (isOperand : Bool) (pattern name : Raw) : Bool :=
  let pattern : Pattern := pattern.map fun c => ⟨c, false⟩
  let pieces := Text.splitOn '/' name
  let parts := (List.range' 1 (pieces.length - 1)).map fun n => Text.join ['/'] (pieces.drop n)
  pattern.accepts name || (isOperand && parts.any pattern.accepts)

variable (s : Search)

/-- Whether a file is passed over: the last pattern that matches says so, or else the first one, if
it is for files to include. -/
def Search.passes (isOperand : Bool) (name : Raw) : Bool :=
  match s.filters.reverse.find? fun (_, p) => nameAccepts isOperand p name with
  | some (includes, _) => !includes
  | none => s.filters.head?.any Prod.fst

def Search.passesDir (isOperand : Bool) (name : Raw) : Bool :=
  s.excludedDirs.any fun p => nameAccepts isOperand p name

structure Found where
  selected : Bool := false
  failed : Bool := false
  used : Bool := false

def searchEach {α : Type} (s : Search) (items : List α) (found : Found)
    (search : α → Found → Proc Found) : Proc Found :=
  iterate (items, found) fun (rest, found) => do
    match rest with
    | [] => return .inr found
    | item :: rest =>
      let found ← search item found
      if s.quiet && found.selected then return .inr found
      return .inl (rest, found)

def refuse (found : Found) (name message : Raw) : Proc Found := do
  if !s.silent then complain program (name ++ ": " ++ message)
  return { found with failed := true }

structure Input where
  isOpen : Bool
  isOutput : Bool
  size : Option Nat
  offset : Nat

def Input.of (m : Machine) (pid fd : Nat) : Input :=
  match m.openFile? pid fd with
  | some (_, { channel := .file a, offset, .. }) =>
    let isOutput := match m.openFile? pid 1 with
      | some (_, { channel := .file b, .. }) => a = b
      | _ => false
    { isOpen := true, isOutput, size := m.fileSize? a, offset }
  | some (_, f) => { isOpen := true, isOutput := false, size := none, offset := f.offset }
  | none => { isOpen := false, isOutput := false, size := none, offset := 0 }

def isUnseen (m : Machine) (pid : Nat) : Bool :=
  m.openFile? pid 1 matches some (_, { channel := .device .null, .. })

/-- How many characters a number takes before a tabulator: as many as the size of the file, if
known. -/
def Search.width (size : Option Nat) : Nat :=
  if !s.initialTab then 0
  else
    match size with
    | some n => (Text.ofNat (if s.numbered then n + 1 else n)).length
    | none => 19

inductive Ending where
  | atEnd
  | early
  | failed
  deriving DecidableEq

/-- Reads what a descriptor gives as far as it is needed, and how many bytes that were. A device
that has no end is not worth more than one block. -/
def readBlocks (ps : Patterns) (h : Heading) (name : Raw)
    (fd : Nat) (p : Progress) : Proc (Progress × Nat × Ending) :=
  iterate (p, 0) fun (p, size) => do
    if 0 < size then if ← spendOnEndless fd then return .inl (p, size)
    match ← read fd blockSize with
    | .error message =>
      if !s.silent then complain program (name ++ ": " ++ message)
      return .inr (p, size, .failed)
    | .ok [] => return .inr (s.close ps h p, size, .atEnd)
    | .ok t =>
      let p := s.feed ps h p t
      let size := size + t.length
      return if s.isDone p then .inr (p, size, .early) else .inl (p, size)

/-- Searches what a descriptor gives, as far as it can be read. Of the standard input, what follows
the last line that was asked for is left to others; if the search has ended for another reason, the
rest is read all the same. -/
def searchInput (ps : Patterns) (named : Bool) (name : Raw) (fd : Nat) (found : Found) :
    Proc Found := do
  let input ← call fun pid m => (Input.of m pid fd, m)
  if s.showsLines && 1 < s.limit.getD 2 && input.isOutput then
    return ← refuse program s found name "input file is also the output"
  if !input.isOpen then return ← refuse program s found name "Bad file descriptor"
  let h : Heading := { name := if named then some name else none, width := s.width input.size }
  let (p, size, ending) ← readBlocks program s ps h name fd { used := found.used }
  let r := s.report h name p
  print program 2 r.output
  if let some problem := r.problem then
    complain program (name ++ ": " ++ problem)
    setStatus 2
    halt .exit
  if r.isBinary then complain program (name ++ ": binary file matches")
  if fd = 0 && !s.quiet && (s.list.isNone || s.unseen) then
    match r.stop with
    | some n => onMachine fun pid m => m.seek pid fd (input.offset + min n size)
    | none => if ending = .early then let _ ← readAll fd
  return { selected := found.selected || 0 < r.count
           failed := found.failed || ending = .failed, used := r.used }

def withFile (shown path : Raw) (found : Found) (search : (fd : Nat) → Proc Found) :
    Proc Found := do
  match ← openAt Cat.fileDescriptor { read := true } path with
  | .error e => refuse program s found shown (Redirection.systemMessage e)
  | .ok () =>
    let r ← search Cat.fileDescriptor
    close Cat.fileDescriptor
    return r

def searchFile (ps : Patterns) (named : Bool) (shown path : Raw) (found : Found) : Proc Found :=
  withFile program s shown path found fun fd => searchInput program s ps named shown fd found

def maxDepth : Nat := 4096

inductive Below where
  | file (shown path : Raw)
  | refused (shown : Raw) (e : IoError)

/-- The files below a directory, as they are shown and by their paths, nested to at most `fuel`
directories. -/
def filesBelow (s : Search) (m : Machine) (pid : Nat) (place : Place) : (fuel : Nat) →
    (shown path : Raw) → List Below
  | 0, _, _ => []
  | fuel + 1, shown, path =>
    match m.list pid place with
    | .error e => [.refused shown e]
    | .ok children =>
      children.flatMap fun (name, n) =>
        let name' := Raw.ofText name
        let inside (dir : Raw) : Raw :=
          if dir.isEmpty || dir.getLast? = some '/' then dir ++ name' else dir ++ '/' :: name'
        let found : Option (Place × Node) := match n with
          | .link _ =>
            if s.followsLinks then (m.stat pid true (Raw.toText (inside path))).toOption else none
          | n => some (place ++ [name], n)
        match found with
        | some (k, .dir) =>
          if s.passesDir false name' then []
          else filesBelow s m pid k fuel (inside shown) (inside path)
        | some (_, .device _) | none => []
        | some _ => if s.passes false name' then [] else [.file (inside shown) (inside path)]

def searchBelow (ps : Patterns) (shown path : Raw) (place : Place) (found : Found) :
    Proc Found := do
  let files := filesBelow s (← machine) (← get).pid place maxDepth shown path
  searchEach s files found fun file found => do
    match file with
    | .file shown path => searchFile program s ps (s.named.getD true) shown path found
    | .refused shown e => refuse program s found shown (Redirection.systemMessage e)

def searchOperand (ps : Patterns) (several : Bool) (operand : Raw) (found : Found) :
    Proc Found := do
  let named := s.named.getD several
  if operand = (['-'] : Raw) then searchInput program s ps named s.label 0 found
  else
    withFile program s operand operand found fun fd => do
      match ← stat operand with
      | .ok (place, .dir) =>
        if s.skipDirs || s.passesDir true operand then return found
        if s.recursive then searchBelow program s ps operand operand place found
        else searchInput program s ps named operand fd found
      | .ok (_, n) =>
        let isDevice := n matches .device _
        if s.passes true operand || (s.skipDevices && isDevice) then return found
        searchInput program s ps named operand fd found
      | .error _ => searchInput program s ps named operand fd found

def searchAll (ps : Patterns) (operands : List Raw) : Proc Found :=
  searchEach s operands {} (searchOperand program s ps (1 < operands.length))

def usage : Proc Unit := do
  let name := ((Text.splitOn '/' program).getLast?).getD []
  writeError ("Usage: " ++ name ++ " [OPTION]... PATTERNS [FILE]...\nTry '" ++ name
    ++ " --help' for more information.\n")
  setStatus 2

def filterLines (t : Raw) : List Raw :=
  ((Text.splitOn '\n' t).map (Text.dropEndWhile Number.isSpace)).filter (!·.isEmpty)

def readNamed (program file : Raw) : Proc (Option Raw) := do
  let text ← if file = (['-'] : Raw) then readAll 0
    else do
      match ← openAt Cat.fileDescriptor { read := true } file with
      | .error e => pure (.error (Redirection.systemMessage e))
      | .ok () =>
        let t ← readAll Cat.fileDescriptor
        close Cat.fileDescriptor
        pure t
  match text with
  | .error message =>
    complain program (file ++ ": " ++ message)
    return none
  | .ok t => return some t

def addOption (o : Char × Raw) : Proc (Option Search) := do
  setStatus 2
  match o with
  | ('f', file) =>
    let text ← readNamed program file
    return text.map fun t =>
      let new := if t.isEmpty then []
        else patternLines (some file) (if t.getLast? = some '\n' then t.dropLast else t)
      { s with patterns := s.patterns ++ new, given := true }
  | ('\x07', file) =>
    let text ← readNamed program file
    return text.map fun t =>
      { s with filters := s.filters ++ (filterLines t).map fun p => (false, p) }
  | (letter, t) =>
    if letter = 'u' then complain program "warning: --unix-byte-offsets (-u) is obsolete"
    match s.option (letter, t) with
    | .ok s => return some s
    | .error e =>
      complain program e
      if letter = 'd' then
        usage program
        setStatus 1
      return none

def withPalette : Proc Search := do
  if !s.colored then return s
  let single ← value "GREP_COLOR"
  let all ← value "GREP_COLORS"
  if Palette.needsSingle single all then
    complain program ("warning: GREP_COLOR='" ++ single
      ++ "' is deprecated; use GREP_COLORS='mt=" ++ single ++ ['\''])
  return { s with palette := Palette.ofVariables single all }

def Search.distinct : Search :=
  let add (ps : List (Raw × Option (Raw × Nat))) (p : Raw × Option (Raw × Nat)) :
      List (Raw × Option (Raw × Nat)) :=
    if ps.any (·.1 = p.1) then ps else p :: ps
  { s with patterns := (s.patterns.foldl add []).reverse }

/-- Whether it is clear that nothing is selected: nothing is asked for, there is no pattern, or one
matches all and the other lines are asked for. Files without matches are listed all the same. -/
def Search.isVain : Bool :=
  let selectsNone :=
    if s.patterns.isEmpty then !s.inverted
    else s.inverted && !s.wholeLine && !s.wholeWord && s.patterns.map Prod.fst = [[]]
  (s.limit = some 0 || selectsNone) && (s.quiet || s.unseen || s.list ≠ some false)

def run (args : List Raw) : Proc Unit := do
  let a ← Arguments.ofProcess specs args
  let s ← iterate (a.options, ({ locale := ← locale } : Search)) fun (os, s) => do
    match os with
    | [] => return .inr (some s)
    | o :: os =>
      match ← addOption program s o with
      | some s => return .inl (os, s)
      | none => return .inr none
  match s, a.problem with
  | none, _ => return ()
  | some _, some e =>
    complain program e
    usage program
  | some s, none =>
    if a.asksAbout || a.has 'V' || s.isSenseless then
      setStatus 0
      return ()
    let s := { s with before := s.before <|> s.around, after := s.after <|> s.around }
    match s.given, a.operands with
    | false, [] => usage program
    | given, operands =>
      let s := if given then s else { s with patterns := patternLines none (operands.headD []) }
      let unseen ← call fun pid m => (isUnseen m pid, m)
      let s := { s.distinct with unseen }
      let files := if given then operands else operands.drop 1
      if s.isVain then
        setStatus 1
        return ()
      let s ← withPalette program s
      match s.compile with
      | .error errors =>
        forEach errors (complain program)
        setStatus 2
      | .ok (ps, warnings) =>
        forEach warnings fun w => complain program ("warning: " ++ w)
        let found ←
          if files.isEmpty && s.recursive then searchBelow program s ps [] ['.'] (← cwd) {}
          else searchAll program s ps (if files.isEmpty then [['-']] else files)
        setStatus (if s.quiet && found.selected then 0
            else if found.failed then 2
            else if found.selected then 0 else 1)

end PatchTriage.Shell.Tools.Grep
