import PatchTriage.Shell.Pattern
import PatchTriage.Shell.Proc

/-!
# Expansion of words

A word is expanded into items (`Expansion`): characters, quoted or not, and the places of quotes.
Redirections change descriptors for a command and put them back afterwards.
-/

namespace PatchTriage.Shell

/-- The users of the host, with their home directories. -/
def homes : List (Raw × Raw) :=
  [("root", "/root"), ("daemon", "/usr/sbin"), ("bin", "/bin"), ("sync", "/bin"), ("proxy", "/bin"),
    ("sys", "/dev"), ("games", "/usr/games"), ("man", "/var/cache/man"), ("lp", "/var/spool/lpd"),
    ("mail", "/var/mail"), ("news", "/var/spool/news"), ("uucp", "/var/spool/uucp"),
    ("www-data", "/var/www"), ("backup", "/var/backups"), ("list", "/var/list"),
    ("irc", "/run/ircd"), ("_apt", "/nonexistent"), ("nobody", "/nonexistent")]

inductive Item where
  | char (c : Char) (literal : Bool)
  | mark

def Item.isWild : Item → Bool
  | .char c literal => !literal && (c = '*' || c = '?' || c = '[')
  | .mark => false

/-- A stretch of items in which fields are divided; in a `strict` one only the end of an argument
divides. -/
structure Region where
  first : Nat
  stop : Nat
  strict : Bool

structure Expansion where
  items : Array Item := #[]
  regions : List Region := []

def argumentEnd : Char := Pattern.textEnd

namespace Expansion

def add (e : Expansion) (t : Raw) (literal : Bool) : Expansion :=
  { e with items := t.foldl (fun items c => items.push (.char c literal)) e.items }

def addMark (e : Expansion) : Expansion := { e with items := e.items.push .mark }

def addRegion (e : Expansion) (first : Nat) (strict : Bool) : Expansion :=
  { e with regions := ⟨first, e.items.size, strict⟩ :: e.regions }

def pattern (items : List Item) : Pattern :=
  items.filterMap fun
    | .char c literal => some ⟨c, literal⟩
    | .mark => none

def text (items : List Item) : Raw := (pattern items).map (·.char)

def defaultSeparators : Raw := [' ', '\t', '\n']

structure Cutting where
  fields : List (List Item) := []
  start : Nat := 0
  afterBlank : Bool := false
  left : Option Nat := none
  tail : Option Nat := none

def cut (separators : Raw) (items : Array Item) (strict afterStrict : Bool) (i : Nat) (c : Char)
    (s : Cutting) : Cutting :=
  let divides := c = argumentEnd || (!strict && c ∈ separators)
  let isBlank := divides && (c = argumentEnd || c ∈ defaultSeparators)
  if s.left = some 0 then
    if isBlank then { s with tail := s.tail <|> some i }
    else
      let tail := if divides && s.afterBlank then s.tail else none
      { s with tail, afterBlank := false }
  else
    let s' := if s.afterBlank then { s with start := if divides then i + 1 else i } else s
    if s.afterBlank && isBlank then s'
    else if divides && !s.afterBlank then
      let afterBlank := if afterStrict || strict then s'.afterBlank else isBlank
      if i = s'.start && afterBlank then { s' with start := i + 1, afterBlank := false }
      else
        let left := s'.left.map (· - 1)
        if left = some 0 then { s' with left, tail := some i, afterBlank }
        else
          let field := (items.extract s'.start i).toList
          { s' with fields := field :: s'.fields, start := i + 1, left, afterBlank }
    else { s' with afterBlank := false }

def cutRegion (separators : Raw) (items : Array Item) (afterStrict : Bool) (r : Region)
    (s : Cutting) : Cutting :=
  let step (s : Cutting) (i : Nat) : Cutting :=
    match items[i]? with
    | some (.char c _) => cut separators items r.strict afterStrict i c s
    | _ => s
  (List.range' r.first (r.stop - r.first)).foldl step { s with afterBlank := false }

def fields (separators : Option Raw) (limit : Option Nat) (e : Expansion) : List (List Item) :=
  let separators := separators.getD defaultSeparators
  let regions := e.regions.reverse
  let (s, strict) := regions.foldl
    (fun (s, afterStrict) r => (cutRegion separators e.items afterStrict r s, r.strict))
    (({ left := limit } : Cutting), false)
  let stop := if strict then e.items.size else s.tail.getD e.items.size
  let last := (e.items.extract s.start stop).toList
  let done := s.fields.reverse
  if strict || !last.isEmpty then done ++ [last] else done

end Expansion

structure ExpandMode where
  split : Bool := false
  quoted : Bool := false
  tilde : Bool := false
  assignment : Bool := false
  ofParam : Bool := false

namespace Expand

abbrev Substitution := Option Command → Proc Raw

def homeOf? (user : Raw) : Proc (Option Raw) :=
  if user.isEmpty then Proc.value? "HOME"
  else return homes.lookup user

def tildeUser? (assignment : Bool) : Word → Option (Raw × Word)
  | [] => some ([], [])
  | .char c :: w =>
    if c = '/' || (assignment && c = ':') then some ([], .char c :: w)
    else (tildeUser? assignment w).map fun (user, rest) => (c :: user, rest)
  | _ => none

def tilde (mode : ExpandMode) (w : Word) (e : Expansion) : Proc (Word × Expansion) := do
  match w with
  | .char '~' :: rest =>
    match tildeUser? mode.assignment rest with
    | none => return (w, e)
    | some (user, after) =>
      match ← homeOf? user with
      | none => return (w, e)
      | some home => return (after, e.add home true)
  | _ => return (w, e)

def optionLetters (s : State) : Raw :=
  let order : Raw := "pubaCEVvxsnmiIfe"
  order.filter s.has

def joined (s : State) (name : Char) (mode : ExpandMode) (quoted : Bool) : Raw :=
  let first : Option Char := match s.separators? with
    | none => some ' '
    | some t => t.head?
  let separator : Option Char :=
    if mode.split && (!quoted || name = '@') then
      if !quoted && s.separators?.isNone then some ' ' else some argumentEnd
    else first
  Text.join separator.toList s.args

def valueOf (name : Raw) (mode : ExpandMode) (quoted : Bool) : Proc (Option Raw) := do
  let s ← Proc.get
  match name with
  | ['$'] => return some (Text.ofNat s.rootPid)
  | ['?'] => return some (Text.ofNat s.status)
  | ['#'] => return some (Text.ofNat s.args.length)
  | ['!'] => return s.lastBackground.map Text.ofNat
  | ['-'] => return some (optionLetters s)
  | ['@'] => return some (joined s '@' mode quoted)
  | ['*'] => return some (joined s '*' mode quoted)
  | c :: _ =>
    if c.isDigit then
      let n := (Number.digits 10 name).1
      return if n = 0 then some s.name else s.args[n - 1]?
    else return s.value? name
  | [] => return none

def paramRegion (s : State) (name : Raw) (quoted : Bool) (first : Nat) (e : Expansion) :
    Expansion :=
  if quoted then if name = ['@'] && !s.args.isEmpty then e.addRegion first true else e
  else e.addRegion first false

def unset {α : Type} (name message : Raw) : Proc α := Proc.fail (name ++ ": " ++ message)

variable (nested : ExpandMode → Word → Expansion → Proc Expansion)

def plainText (mode : ExpandMode) (w : Word) : Proc Raw := do
  return Expansion.text (← nested mode w {}).items.toList

def param (mode : ExpandMode)
    (quoted : Bool) (name : Raw) (op : ParamOp) (e : Expansion) : Proc Expansion := do
  let add (value : Raw) : Proc Expansion := do
    return paramRegion (← Proc.get) name quoted e.items.size (e.add value quoted)
  let isCounted : Bool := op matches .length
  let value ← valueOf name { mode with split := mode.split && !isCounted } quoted
  let required : Proc Raw := do
    match value with
    | some v => return v
    | none => if (← Proc.get).has 'u' then unset name "parameter not set" else return []
  match op with
  | .senseless => Proc.fail "Bad substitution"
  | .value => add (← required)
  | .length => add (Text.ofNat (← required).length)
  | .default d orEmpty word =>
    let present := if orEmpty then value.filter (!·.isEmpty) else value
    let inner : ExpandMode := { mode with quoted, tilde := true, ofParam := true }
    match d, present with
    | .use, some v | .complain, some v | .assign, some v => add v
    | .use, none => nested inner word e
    | .useIfSet, some _ => nested inner word e
    | .useIfSet, none => return e
    | .complain, none =>
      let message ← plainText nested { tilde := true } word
      if word.isEmpty then
        unset name (if orEmpty then "parameter not set or null" else "parameter not set")
      else unset name message
    | .assign, none =>
      let v ← plainText nested { tilde := true } word
      Proc.setVariable name v
      add v
  | .trim atEnd longest word =>
    let v ← required
    -- The pattern counts only where there is something to cut.
    if value.isNone then return ← add []
    let pattern := Expansion.pattern (← nested { tilde := true } word {}).items.toList
    add (pattern.trim atEnd longest v)

structure Walk where
  quotes : Bool := false
  plainFrom : Option Nat := none
  passedEq : Bool := false

def endPlain (breaks : Bool) (walk : Walk) (e : Expansion) : Expansion :=
  match walk.plainFrom with
  | some first => if breaks && !walk.quotes then e.addRegion first false else e
  | none => e

def plainRun (goesOn : Char → Bool) : Word → Raw × Word
  | .char c :: w =>
    if goesOn c then
      let (t, rest) := plainRun goesOn w
      (c :: t, rest)
    else ([], .char c :: w)
  | w => ([], w)

def quotedRun : Word → Raw × Word
  | .quoted c :: w =>
    let (t, rest) := quotedRun w
    (c :: t, rest)
  | w => ([], w)

def parts (substitute : Substitution) (nested : ExpandMode → Word → Expansion → Proc Expansion)
    (mode : ExpandMode) : (fuel : Nat) → Word → Walk → Expansion → Proc Expansion
  | 0, _, _, e => return e
  | fuel + 1, w, walk, e => do
    let goOn := parts substitute nested mode fuel
    let quoted := mode.quoted || walk.quotes
    let closed := { walk with plainFrom := none }
    let ended := endPlain (mode.ofParam && !mode.quoted) walk e
    let adds (t : Raw) : Expansion :=
      let e := ended.add t quoted
      if quoted then e else e.addRegion ended.items.size false
    match w with
    | [] => return ended
    | .char c :: rest =>
      let walk := { walk with plainFrom := walk.plainFrom <|> some e.items.size }
      let e := e.add [c] false
      if mode.assignment && ((c = '=' && !walk.passedEq) || (c = ':' && walk.passedEq)) then
        let (rest, e) ← tilde mode rest e
        goOn rest { walk with passedEq := true } e
      else
        let goesOn (c : Char) : Bool := !mode.assignment || (c ≠ '=' && c ≠ ':')
        let (more, rest) := plainRun goesOn rest
        goOn rest walk (e.add more false)
    | .quoted c :: rest =>
      let (more, rest) := quotedRun rest
      goOn rest closed (ended.add (c :: more) true)
    | .mark :: rest =>
      match rest, walk.quotes with
      | .param ['@'] .value :: .mark :: after, false =>
        goOn after closed (← param nested mode true ['@'] .value ended)
      | _, _ => goOn rest { closed with quotes := !walk.quotes } ended.addMark
    | .param name op :: rest => goOn rest closed (← param nested mode quoted name op ended)
    | .command c :: rest =>
      goOn rest closed (adds (Text.dropEndWhile (· = '\n') (Text.without '\x00' (← substitute c))))
    | .arith expression :: rest =>
      let n ← Proc.arithmetic (← plainText nested {} expression)
      goOn rest closed (adds (Number.render n))

def maxNesting : Nat := 10000

def wordUpTo (substitute : Substitution) : (fuel : Nat) → ExpandMode → Word → Expansion →
    Proc Expansion
  | 0, _, _, e => return e
  | fuel + 1, mode, w, e => do
    let (w, e) ← if mode.tilde then tilde mode w e else pure (w, e)
    parts substitute (fun mode w e => wordUpTo substitute fuel mode w e)
      { mode with tilde := false }
      (w.length + 1) w {} e

def word (substitute : Substitution) (mode : ExpandMode) (w : Word) : Proc Expansion :=
  wordUpTo substitute maxNesting mode w {}

/-! ## Names of files -/

def names (m : Machine) (pid : Nat) (dir : Raw) : List Raw :=
  let found : Except IoError (List (Text × Node)) := do
    let (place, n) ← m.stat pid true (if dir.isEmpty then ['.'] else Raw.toText dir)
    if n ≠ .dir then throw .notADirectory
    m.list pid place
  match found with
  | .ok found => ("." : Raw) :: (".." : Raw) :: found.map fun (name, _) => Raw.ofText name
  | .error _ => []

def pieces : Pattern → List Pattern
  | [] => [[]]
  | ⟨'\\', false⟩ :: c :: p =>
    if c.char = '/' then [] :: pieces p else onFirst ([⟨'\\', false⟩, c] ++ ·) (pieces p)
  | c :: p => if c.char = '/' then [] :: pieces p else onFirst (c :: ·) (pieces p)
where
  onFirst (f : Pattern → Pattern) : List Pattern → List Pattern
    | [] => [f []]
    | piece :: rest => f piece :: rest

def paths (m : Machine) (pid : Nat) : (base : Raw) → List Pattern → List Raw
  | base, [] => [base]
  | base, piece :: rest =>
    let separator : Raw := if rest.isEmpty then [] else ['/']
    if piece.hasWildcards then
      let wantsHidden := (Pattern.unescaped piece).head? == some '.'
      let found := (names m pid base).filter fun name =>
        (wantsHidden || name.head? != some '.') && Pattern.accepts piece name
      found.flatMap fun name =>
        let path := base ++ name
        if rest.isEmpty then [path]
        else if m.isDir pid (Raw.toText path) then paths m pid (path ++ separator) rest
        else []
    else
      let path := base ++ Pattern.unescaped piece
      if rest.isEmpty then
        if (m.stat pid false (Raw.toText path)).toOption.isSome then [path] else []
      else paths m pid (path ++ separator) rest

def files (m : Machine) (pid : Nat) (items : List Item) : List Raw :=
  if !items.any Item.isWild then [Expansion.text items]
  else
    let ps := pieces (Expansion.pattern items)
    let found := if ps.any Pattern.hasWildcards then paths m pid [] ps else []
    if found.isEmpty then [Expansion.text items] else SortedList.sort Text.compare found

def fields (substitute : Substitution) (w : Word) : Proc (List Raw) := do
  let e ← word substitute { split := true, tilde := true } w
  let s ← Proc.get
  let found := e.fields s.separators? none
  if s.has 'f' then return found.map Expansion.text
  let m ← Proc.machine
  return found.flatMap (files m s.pid)

def allFields (substitute : Substitution) (ws : List Word) : Proc (List Raw) := do
  return (← Proc.collect ws (fields substitute)).flatten

def text (substitute : Substitution) (mode : ExpandMode) (w : Word) : Proc Raw := do
  return Expansion.text (← word substitute mode w).items.toList

def pattern (substitute : Substitution) (w : Word) : Proc Pattern := do
  return Expansion.pattern (← word substitute { tilde := true } w).items.toList

end Expand

/-! ## Redirections -/

namespace Redirection

open Proc

def firstSaved : Nat := 10

def systemMessage : IoError → Raw
  | .notFound => "No such file or directory"
  | .permissionDenied => "Permission denied"
  | .alreadyExists => "File exists"
  | .notADirectory => "Not a directory"
  | .isADirectory => "Is a directory"
  | .directoryNotEmpty => "Directory not empty"
  | .invalidFilename => "File name too long"
  | .storageFull => "No space left on device"
  | .fileTooLarge => "File too large"
  | .filesystemLoop => "Too many levels of symbolic links"
  | .notPermitted => "Operation not permitted"
  | .noSuchDevice => "No such device or address"
  | .tooManyOpenFiles => "Too many open files"
  | _ => "Invalid argument"

def message (missing : Raw) : IoError → Raw
  | .notFound | .notADirectory => missing
  | e => systemMessage e

structure Ready where
  fd : Nat
  kind : RedirectKind
  target : Raw

def isDescriptor : Raw → Bool
  | [c] => c.isDigit || c = '-'
  | _ => false

variable (substitute : Expand.Substitution)

def prepare (rs : List Redirect) : Proc (List Ready) :=
  collect rs fun
    | .mk fd kind target => do
      match kind with
      | .document number => return { fd, kind := .document number, target := [] }
      | kind =>
        let text ← Expand.text substitute { tilde := true } target
        if (kind = .duplicateInput || kind = .duplicateOutput) && !isDescriptor text then
          modify fun s => { s with line := s.reached }
          fail "Syntax error: Bad fd number"
        return { fd, kind, target := text }

def documentText (number : Nat) : Proc Raw := do
  let w := ((← get).documents.lookup number).getD []
  Expand.text substitute { quoted := true } w

inductive Source where
  | file (f : OpenFile)
  | descriptor (fd : Nat)
  | document (t : Raw)
  | nothing
  | unchanged

def openTarget (r : Ready) (mode : OpenMode) : Proc Source := do
  let (failing, missing) : Raw × Raw :=
    if mode.create then ("cannot create", "Directory nonexistent")
    else ("cannot open", "No such file")
  let newMode ← newFileMode
  let result : Except IoError OpenFile ← call fun pid m =>
    match m.openPath pid mode newMode (Raw.toText r.target) with
    | .ok (f, m) => (.ok f, m)
    | .error e => (.error e, m)
  match result with
  | .ok f => return .file f
  | .error e => fail (failing ++ [' '] ++ r.target ++ ": " ++ message missing e)

def source (r : Ready) : Proc Source := do
  match r.kind with
  | .input => openTarget r { read := true }
  | .inputOutput => openTarget r { read := true, write := true, create := true }
  | .append => openTarget r { write := true, create := true, append := true }
  | .overwrite => openTarget r { write := true, create := true, truncate := true }
  | .output =>
    if (← get).has 'C' then
      -- Only what is no file may be written to when it is there.
      let isOther := match ← stat r.target with
        | .ok (_, .file _ _) | .ok (_, .tool _) | .error _ => false
        | .ok _ => true
      if isOther then openTarget r { write := true }
      else openTarget r { write := true, create := true, exclusive := true }
    else openTarget r { write := true, create := true, truncate := true }
  | .duplicateInput | .duplicateOutput =>
    match r.target with
    | [d] =>
      if d = '-' then return .nothing
      let fd := d.toNat - '0'.toNat
      return if fd = r.fd then .unchanged else .descriptor fd
    | _ => return .nothing
  | .document number => return .document (← documentText substitute number)

structure Saved where
  fd : Nat
  keptAt : Option Nat

def freeDescriptor (m : Machine) (pid : Nat) : Nat := m.freeDescriptor pid firstSaved

def save (fd : Nat) : Proc Saved := do
  let saved : Option Saved ← call fun pid m =>
    let kept := freeDescriptor m pid
    let isOpen := (m.openFile? pid fd).isSome
    if isOpen && !m.mayHave pid kept then (none, m.closeDescriptor pid fd)
    else
      let (made, m) := m.duplicate pid fd kept
      (some { fd, keptAt := if made then some kept else none }, m)
  match saved with
  | some s => return s
  | none =>
    let isLow ← call fun pid m => (m.mayHave pid firstSaved, m)
    let why : Raw := if isLow then "Too many open files" else "Invalid argument"
    fail (Text.ofNat fd ++ ": " ++ why)

def bind (fd : Nat) : Source → Proc Unit
  | .unchanged => return ()
  | .nothing => close fd
  | .file f => onMachine fun pid m => if m.mayHave pid fd then m.addFile pid fd f else m
  | .document t =>
    onMachine fun pid m =>
      let spare := freeDescriptor m pid
      let m := m.addPipe pid fd spare
      let m := match m.openFile? pid fd with
        | some (_, { channel := .pipe number, .. }) =>
          { m with pipes := Machine.onKey number (fun _ => t) m.pipes }
        | _ => m
      m.closeDescriptor pid spare
  | .descriptor other => do
    let made ← call fun pid m => if m.mayHave pid fd then m.duplicate pid other fd else (false, m)
    if !made then fail (Text.ofNat other ++ ": Bad file descriptor")

/-- Carries out redirections one after another. Where `saved` is given, what they replace is kept.
-/
def apply (substitute : Expand.Substitution) (keep : Bool) :
    List Ready → List Saved → Proc (Except Halt Unit × List Saved)
  | [], saved => return (.ok (), saved)
  | r :: rs, saved => do
    match ← attempt (source substitute r) with
    | .error h => return (.error h, saved)
    | .ok .unchanged => apply substitute keep rs saved
    | .ok found =>
      let kept ← if keep && !saved.any (·.fd = r.fd) then attempt (do return (← save r.fd) :: saved)
        else pure (.ok saved)
      match kept with
      | .error h => return (.error h, saved)
      | .ok saved =>
        match ← attempt (bind r.fd found) with
        | .error h => return (.error h, saved)
        | .ok () => apply substitute keep rs saved

def restore (saved : List Saved) : Proc Unit :=
  forEach saved fun s =>
    match s.keptAt with
    | none => close s.fd
    | some kept => moveDescriptor kept s.fd

def forget (saved : List Saved) : Proc Unit :=
  forEach (saved.filterMap Saved.keptAt) close

end Redirection

end PatchTriage.Shell
