import PatchTriage.Shell.Expand
import PatchTriage.Shell.Locale

/-!
# Quoted names and options

Messages show names so that a shell reads them as they are, or between quotation marks.
-/

namespace PatchTriage.Shell.Tools

namespace Quoting

def letter? : Char → Option Char
  | '\x07' => some 'a'
  | '\x08' => some 'b'
  | '\x0c' => some 'f'
  | '\n' => some 'n'
  | '\r' => some 'r'
  | '\t' => some 't'
  | '\x0b' => some 'v'
  | _ => none

def escape (c : Char) : Raw :=
  match letter? c with
  | some e => ['\\', e]
  | none =>
    let digit (n : Nat) : Char := Char.ofNat ('0'.toNat + n % 8)
    ['\\', digit (c.toNat / 64), digit (c.toNat / 8), digit c.toNat]

def isSpecial (isFirst isOnly : Bool) (c : Char) : Bool :=
  if c = '\x7b' || c = '\x7d' then isOnly
  else if c = '#' || c = '~' then isFirst
  else c ∈ " !\"$&()*:;<=>[^\x60|'\\?".toList

def isAlike (l : Locale) (c : Char) : Bool :=
  c.isAlphanum || c ∈ " '%+,-./:]_".toList || (128 ≤ c.toNat && l.isPrinted c)

/-- The parts of a name: a quote stands outside of single quotes, and what cannot be shown between
`$'` and `'`, if `escaping` is open. -/
def singleParts (l : Locale) : (escaping : Bool) → Text → Raw
  | _, [] => []
  | escaping, c :: t =>
    let close : Raw := if escaping then ['\'', '\''] else []
    if c = '\'' then close ++ "'\\''" ++ singleParts l false t
    else if l.isPrinted c then close ++ l.encodeChar c ++ singleParts l false t
    else (if escaping then [] else ("'$'" : Raw)) ++ (l.encodeChar c).flatMap escape
      ++ singleParts l true t

def always (l : Locale) (t : Raw) : Raw :=
  let cs := l.decode t
  if '\'' ∈ cs && cs.all (isAlike l) then '"' :: t ++ ['"']
  else '\'' :: singleParts l false cs ++ ['\'']

def ifNeeded (l : Locale) (t : Raw) : Raw :=
  let isPlain := match l.decode t with
    | [] => false
    | c :: rest =>
      l.isPrinted c && !isSpecial true rest.isEmpty c
        && rest.all fun c => l.isPrinted c && !isSpecial false false c
  if isPlain then t else always l t

def marks : Locale → Char × Char
  | .bytes => ('\'', '\'')
  | .utf8 => ('‘', '’')

def word (l : Locale) (t : Raw) : Raw :=
  let (first, last) := marks l
  let char (c : Char) : Raw :=
    if c = last || c = '\\' then '\\' :: l.encodeChar c
    else if l.isPrinted c then l.encodeChar c
    else (l.encodeChar c).flatMap escape
  l.encodeChar first ++ (l.decode t).flatMap char ++ l.encodeChar last

end Quoting

inductive Piece where
  | plain (t : Raw)
  | name (t : Raw)
  | nameIfNeeded (t : Raw)
  | word (t : Raw)

structure Message where
  pieces : List Piece

namespace Message

def name (t : Raw) : Message := ⟨[.name t]⟩

def nameIfNeeded (t : Raw) : Message := ⟨[.nameIfNeeded t]⟩

def word (t : Raw) : Message := ⟨[.word t]⟩

def plain (t : Raw) : Message := ⟨[.plain t]⟩

instance : Coe Raw Message := ⟨plain⟩

instance : Coe String Message := ⟨fun t => plain t.toList⟩

instance : Append Message := ⟨fun a b => ⟨a.pieces ++ b.pieces⟩⟩

instance : HAppend Raw Message Message := ⟨fun a b => plain a ++ b⟩

instance : HAppend Message Raw Message := ⟨fun a b => a ++ plain b⟩

def render (l : Locale) (m : Message) : Raw :=
  m.pieces.flatMap fun
    | .plain t => t
    | .name t => Quoting.always l t
    | .nameIfNeeded t => Quoting.ifNeeded l t
    | .word t => Quoting.word l t

end Message

/-!
## Options of programs

Options are letters after a dash, or names after two, which may be cut short as long as they are
clear.
-/

open Proc

structure Choices where
  subject : String
  groups : List (List String)
  several : Bool := false

def Choices.choose (c : Choices) (t : Raw) : Except Message Raw :=
  let all : List (Raw × Raw) :=
    c.groups.flatMap fun g => g.map fun n => (n.toList, (g.headD "").toList)
  let refuse (what : String) : Except Message Raw :=
    let group (g : List String) : Message :=
      ⟨(g.map fun n => Piece.word n.toList).intersperse (.plain [',', ' '])⟩
    let shown := c.groups.foldl (fun m g => m ++ "\n  - " ++ group g) (Message.plain [])
    .error (what.toList ++ " argument " ++ Message.word t ++ " for "
      ++ Message.word c.subject.toList ++ "\nValid arguments are:" ++ shown)
  match all.find? (·.1 = t), all.filter fun (n, _) => Text.startsWith t n with
  | some (_, meaning), _ => .ok meaning
  | none, [] => refuse "invalid"
  | none, (_, meaning) :: others =>
    if others.all (·.2 = meaning) then .ok meaning else refuse "ambiguous"

def Choices.read (c : Choices) (t : Raw) : Except Message Raw :=
  if c.several then do
    let chosen ← (Text.splitOn ',' t).mapM c.choose
    return Text.join [','] chosen
  else c.choose t

inductive Takes where
  | nothing
  | argument (choices : Option Choices := none)
  | optional (choices : Option Choices := none)
  | digits

/-- An option with its letter, which may be one that cannot be written, and its names.
Specifications with one letter mean one option. -/
structure OptionSpec where
  letter : Char
  names : List String := []
  takes : Takes := .nothing

/-- Options from words: a letter, what it takes (`:` for nothing, `=` for an argument, `?` for one
that may be left out), and its names, with colons between them. -/
def readSpecs (s : String) : List OptionSpec :=
  (Text.words s.toList).map fun word =>
    let takes : Takes := match word[1]? with
      | some '=' => .argument
      | some '?' => .optional
      | _ => .nothing
    let names := (Text.splitOn ':' (word.drop 2)).filter fun n => !n.isEmpty
    ⟨word.headD ' ', names.map String.ofList, takes⟩

variable (specs : List OptionSpec)

def argument (choices : Option Choices) (t : Raw) : Except Message Raw :=
  choices.elim (.ok t) (·.read t)

structure Arguments where
  options : List (Char × Raw) := []
  operands : List Raw := []
  problem : Option Message := none

namespace Arguments

def has (a : Arguments) (letter : Char) : Bool := a.options.any (·.1 = letter)

def last? (a : Arguments) (letter : Char) : Option Raw :=
  (a.options.reverse.find? (·.1 = letter)).map Prod.snd

def helpLetter : Char := '\x1e'

def versionLetter : Char := '\x1f'

def common : List OptionSpec := readSpecs "\x1e:help \x1f:version"

def asksAbout (a : Arguments) : Bool := a.has helpLetter || a.has versionLetter

def quoted (t : Raw) : Raw := '\'' :: t ++ ['\'']

def named (name : Raw) : List (Raw × OptionSpec) :=
  let all : List (Raw × OptionSpec) := specs.flatMap fun s => s.names.map fun n => (n.toList, s)
  match all.find? (·.1 = name) with
  | some found => [found]
  | none => all.filter fun (n, _) => Text.startsWith name n

def long (text : Raw) (rest : List Raw) : Except Message ((Char × Raw) × List Raw) :=
  let name := text.takeWhile (· ≠ '=')
  let value : Option Raw := if '=' ∈ text then some (text.drop (name.length + 1)) else none
  let dashes : Raw := ['-', '-']
  match named specs name with
  | [] => .error ("unrecognized option " ++ quoted (dashes ++ name))
  | (full, s) :: others =>
    let different := others.filter (·.2.letter ≠ s.letter)
    if !different.isEmpty then
      let possibilities :=
        ((full, s) :: different).flatMap fun (n, _) => ' ' :: quoted (dashes ++ n)
      .error ("option " ++ quoted (dashes ++ name) ++ " is ambiguous; possibilities:"
        ++ possibilities)
    else
      let shown := "option " ++ quoted (dashes ++ full)
      match s.takes, value, rest with
      | .nothing, none, rest | .digits, none, rest | .optional _, none, rest =>
        .ok ((s.letter, []), rest)
      | .nothing, some _, _ | .digits, some _, _ => .error (shown ++ " doesn't allow an argument")
      | .argument c, some v, rest | .optional c, some v, rest | .argument c, none, v :: rest =>
        (argument c v).map fun v => ((s.letter, v), rest)
      | .argument _, none, [] => .error (shown ++ " requires an argument")

def short (specs : List OptionSpec) : (letters : Raw) → (rest : List Raw) →
    List (Char × Raw) × Except Message (List Raw)
  | [], rest => ([], .ok rest)
  | c :: cs, rest =>
    match specs.find? (·.letter = c) with
    | none => ([], .error ("invalid option -- " ++ quoted [c]))
    | some s =>
      match s.takes, cs, rest with
      | .nothing, cs, rest =>
        let (more, result) := short specs cs rest
        ((c, []) :: more, result)
      | .digits, cs, rest =>
        match short specs cs rest with
        | ((d, ds) :: more, result) =>
          if cs.head? = some d && d.isDigit then ((c, d :: ds) :: more, result)
          else ((c, []) :: (d, ds) :: more, result)
        | ([], result) => ([(c, [])], result)
      | .argument _, [], v :: rest => ([(c, v)], .ok rest)
      | .argument _, [], [] => ([], .error ("option requires an argument -- " ++ quoted [c]))
      | .argument _, cs, rest | .optional _, cs, rest => ([(c, cs)], .ok rest)

def readUpTo (specs : List OptionSpec) (strict : Bool) : (fuel : Nat) → List Raw →
    Arguments → Arguments
  | 0, _, a => a
  | _ + 1, [], a => a
  | fuel + 1, arg :: rest, a =>
    match arg with
    | ['-', '-'] => { a with operands := a.operands ++ rest }
    | '-' :: '-' :: text =>
      match long specs text rest with
      | .error e => { a with problem := some e }
      | .ok (o, rest) =>
        let a := { a with options := a.options ++ [o] }
        if a.asksAbout then a else readUpTo specs strict fuel rest a
    | '-' :: c :: cs =>
      match short specs (c :: cs) rest with
      | (os, .error e) => { a with options := a.options ++ os, problem := some e }
      | (os, .ok rest) => readUpTo specs strict fuel rest { a with options := a.options ++ os }
    | arg =>
      if strict then { a with operands := a.operands ++ arg :: rest }
      else readUpTo specs strict fuel rest { a with operands := a.operands ++ [arg] }

def read (strict : Bool) (args : List Raw) : Arguments :=
  readUpTo specs strict (args.length + 1) args {}

def strictVariable : Raw := "POSIXLY_CORRECT"

def ofProcess (args : List Raw) : Proc Arguments := do
  return read specs ((← get).value? strictVariable).isSome args

end Arguments

def locale : Proc Locale := do return Locale.of (← get).value?

def complain (program : Raw) (message : Message) : Proc Unit := do
  writeError (program ++ ": " ++ message.render (← locale) ++ ['\n'])

def misuse (program : Raw) (message : Message) : Proc Unit := do
  complain program message
  writeError ("Try '" ++ program ++ " --help' for more information.\n")
  setStatus 1

def forAll (operands : List Raw) (f : Raw → Proc Bool) : Proc Unit := do
  let results ← collect operands f
  setStatus (if results.all id then 0 else 1)

def complainOfOutput (program message : Raw) : Proc Unit :=
  complain program ("write error: " ++ message)

def print (program : Raw) (failure : Nat) (t : Raw) : Proc Unit := do
  match ← write 1 t with
  | .ok () => return ()
  | .error message =>
    complainOfOutput program message
    setStatus failure
    halt .exit

def tell (m : Message) : Proc Unit := do
  match ← write 1 (m.render (← locale)) with
  | .ok () => return ()
  | .error message => modify fun s => { s with unwritten := some message }

end PatchTriage.Shell.Tools
