import PatchTriage.Shell.Tools.Options

/-!
# What `grep` is asked for

What lines are selected and how they are shown, as the options of `grep` say it.
-/

namespace PatchTriage.Shell.Tools.Grep

/-! ## Colors

A color is a list of numbers with semicolons between them. Variables may set colors, each under a
name of two letters (`Palette`). -/

structure Palette where
  selectedMatch : Raw := "01;31"
  contextMatch : Raw := "01;31"
  fileName : Raw := "35"
  lineNumber : Raw := "32"
  offset : Raw := "32"
  separator : Raw := "36"
  selectedLine : Raw := []
  contextLine : Raw := []
  isReversed : Bool := false
  clearsLine : Bool := true
  deriving DecidableEq

namespace Palette

variable (p : Palette)

def clearing : Raw := if p.clearsLine then ['\x1b', '[', 'K'] else []

def start (color : Raw) : Raw :=
  if color.isEmpty then [] else "\x1b[" ++ color ++ ['m'] ++ p.clearing

def stop (color : Raw) : Raw := if color.isEmpty then [] else "\x1b[m" ++ p.clearing

def paint (color t : Raw) : Raw := p.start color ++ t ++ p.stop color

def isColor (t : Raw) : Bool := t.all fun c => c = ';' || c.isDigit

def set (name : Raw) (color : Option Raw) : Palette :=
  match String.ofList name, color with
  | "rv", _ => { p with isReversed := true }
  | "ne", _ => { p with clearsLine := false }
  | "mt", none => { p with contextMatch := p.selectedMatch }
  | "mt", some c => { p with selectedMatch := c, contextMatch := c }
  | "ms", some c => { p with selectedMatch := c }
  | "mc", some c => { p with contextMatch := c }
  | "fn", some c => { p with fileName := c }
  | "ln", some c => { p with lineNumber := c }
  | "bn", some c => { p with offset := c }
  | "se", some c => { p with separator := c }
  | "sl", some c => { p with selectedLine := c }
  | "cx", some c => { p with contextLine := c }
  | _, _ => p

def setAll (p : Palette) : List Raw → Palette
  | [] => p
  | t :: ts =>
    let name := t.takeWhile (· ≠ '=')
    let color := t.drop (name.length + 1)
    if '=' ∉ t then (p.set name none).setAll ts
    else if name.isEmpty || !isColor color then p
    else (p.set name (some color)).setAll ts

def ofVariables (single all : Raw) : Palette :=
  let p : Palette := {}
  let p := if single.isEmpty || !isColor single then p else p.set "mt" (some single)
  if all.isEmpty then p else p.setAll (Text.splitOn ':' all)

/-- Whether the old variable has a part in the palette: whether another color there would change it.
-/
def needsSingle (single all : Raw) : Bool :=
  !single.isEmpty && isColor single && ofVariables single all ≠ ofVariables (';' :: single) all

end Palette

/-! ## Selection -/

inductive Matcher where
  | basic | extended | fixed | ordered
  deriving DecidableEq

inductive Binary where
  | tell | asText | skip
  deriving DecidableEq

structure Search where
  locale : Locale := .bytes
  patterns : List (Raw × Option (Raw × Nat)) := []
  given : Bool := false
  matcher : Option Matcher := none
  ignoreCase : Bool := false
  inverted : Bool := false
  wholeLine : Bool := false
  wholeWord : Bool := false
  count : Bool := false
  list : Option Bool := none
  quiet : Bool := false
  unseen : Bool := false
  silent : Bool := false
  numbered : Bool := false
  offsets : Bool := false
  onlyMatch : Bool := false
  initialTab : Bool := false
  limit : Option Int := none
  before : Option Nat := none
  after : Option Nat := none
  around : Option Nat := none
  separator : Option Raw := some ['-', '-']
  named : Option Bool := none
  nameEnd : Option Char := none
  label : Raw := "(standard input)"
  delimiter : Char := '\n'
  binary : Binary := .tell
  recursive : Bool := false
  followsLinks : Bool := false
  skipDirs : Bool := false
  skipDevices : Bool := false
  filters : List (Bool × Raw) := []
  excludedDirs : List Raw := []
  colored : Bool := false
  palette : Palette := {}
  isSenseless : Bool := false

/-! ## Options -/

def specs : List OptionSpec :=
  readSpecs "G:basic-regexp E:extended-regexp F:fixed-regexp:fixed-strings P:perl-regexp
    A=after-context B=before-context \x04=binary-files b:byte-offset C=context
    \x10?color:colour c:count D=devices d=directories \x06=exclude \x07=exclude-from
    \x08=exclude-dir f=file l:files-with-matches L:files-without-match \x0e=group-separator
    \x1e:help \x05=include i:ignore-case \x01:no-ignore-case T:initial-tab \x03=label
    \x02:line-buffered n:line-number x:line-regexp m=max-count h:no-filename
    \x0f:no-group-separator s:no-messages Z:null z:null-data o:only-matching q:quiet
    r:recursive R:dereference-recursive e=regexp v:invert-match q:silent a:text U:binary
    u:unix-byte-offsets V:version H:with-filename w:word-regexp y I"
    ++ "0123456789".toList.map fun c => ⟨c, [], .digits⟩

def number? (t : Raw) : Option Int :=
  match Number.signed? 10 t with
  | some (n, []) => some n
  | _ => none

def lineCount (t : Raw) : Except Message Nat :=
  match number? t with
  | some (.ofNat n) => .ok n
  | _ => .error (t ++ ": invalid context length argument")

def maxDigits : Nat := 21

def digitCount (ds : Raw) : Except Message Nat :=
  let ds := ds.dropWhile (· = '0')
  lineCount (if ds.length ≤ maxDigits then '0' :: ds else ds.take maxDigits ++ "...")

def patternLines (file : Option Raw) (t : Raw) : List (Raw × Option (Raw × Nat)) :=
  (Text.splitOn '\n' t).zipIdx.map fun (p, i) => (p, file.map fun f => (f, i + 1))

def Search.written (s : Search) (m : Matcher) : Except Message Search :=
  if s.matcher.getD m = m then .ok { s with matcher := some m }
  else .error "conflicting matchers specified"

def directoryUses : Choices := ⟨"--directories", [["read"], ["recurse"], ["skip"]], false⟩

/-- The search with an option that is never refused. -/
def Search.set (s : Search) (t : Raw) : Char → Search
  | 'e' => { s with patterns := s.patterns ++ patternLines none t, given := true }
  | 'i' | 'y' => { s with ignoreCase := true }
  | '\x01' => { s with ignoreCase := false }
  | 'w' => { s with wholeWord := true }
  | 'x' => { s with wholeLine := true }
  | 'z' => { s with delimiter := '\x00' }
  | 's' => { s with silent := true }
  | 'v' => { s with inverted := true }
  | 'b' => { s with offsets := true }
  | 'n' => { s with numbered := true }
  | 'H' => { s with named := some true }
  | 'h' => { s with named := some false }
  | '\x03' => { s with label := t }
  | 'o' => { s with onlyMatch := true }
  | 'q' => { s with quiet := true }
  | 'a' => { s with binary := .asText }
  | 'I' => { s with binary := .skip }
  | '\x10' =>
    if t.isEmpty || String.ofList t ∈ ["auto", "if-tty", "never", "no", "none", "tty"] then
      { s with colored := false }
    else if String.ofList t ∈ ["always", "force", "yes"] then { s with colored := true }
    else { s with isSenseless := true }
  | 'r' => { s with recursive := true, skipDirs := false }
  | 'R' => { s with recursive := true, skipDirs := false, followsLinks := true }
  | '\x05' => { s with filters := s.filters ++ [(true, t)] }
  | '\x06' => { s with filters := s.filters ++ [(false, t)] }
  | '\x08' => { s with excludedDirs := s.excludedDirs ++ [Text.dropEndWhile (· = '/') t] }
  | 'L' => { s with list := some false }
  | 'l' => { s with list := some true }
  | 'c' => { s with count := true }
  | 'T' => { s with initialTab := true }
  | 'Z' => { s with nameEnd := some '\x00' }
  | '\x0e' => { s with separator := some t }
  | '\x0f' => { s with separator := none }
  | _ => s

def Search.option (s : Search) (o : Char × Raw) : Except Message Search := do
  let (c, t) := o
  match c, String.ofList t with
  | 'E', _ => s.written .extended
  | 'F', _ => s.written .fixed
  | 'G', _ => s.written .basic
  | 'P', _ => s.written .ordered
  | 'm', _ =>
    match number? t with
    | some n => return { s with limit := some n }
    | none => .error "invalid max count"
  | '\x04', "binary" => return { s with binary := .tell }
  | '\x04', "text" => return { s with binary := .asText }
  | '\x04', "without-match" => return { s with binary := .skip }
  | '\x04', _ => .error "unknown binary-files type"
  | 'd', _ =>
    let use ← directoryUses.read t
    return { s with recursive := use = ("recurse" : Raw), skipDirs := use = ("skip" : Raw) }
  | 'D', "read" => return { s with skipDevices := false }
  | 'D', "skip" => return { s with skipDevices := true }
  | 'D', _ => .error "unknown devices method"
  | 'B', _ => return { s with before := some (← lineCount t) }
  | 'A', _ => return { s with after := some (← lineCount t) }
  | 'C', _ => return { s with around := some (← lineCount t) }
  | _, _ =>
    if c.isDigit then return { s with around := some (← digitCount (c :: t)) } else return s.set t c

end PatchTriage.Shell.Tools.Grep
