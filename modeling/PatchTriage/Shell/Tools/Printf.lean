import PatchTriage.Shell.Format
import PatchTriage.Shell.Tools.Options

/-!
# The program `printf`

Writes arguments by a format.
-/

namespace PatchTriage.Shell.Tools.Printf

structure Printed where
  text : Raw := []
  args : List Raw
  complaints : List Message := []
  failed : Bool := false

structure Ended where
  printed : Printed
  failed : Bool

structure Setting where
  locale : Locale
  isStrict : Bool := false

abbrev Print := ReaderT Setting (StateT Printed (Except Ended))

def add (t : Raw) : Print Unit := modify fun p => { p with text := t.reverse ++ p.text }

def complainOf (m : Message) : Print Unit :=
  modify fun p => { p with complaints := m :: p.complaints }

def giveUp {α : Type} (m : Message) : Print α := do
  complainOf m
  throw { printed := ← get, failed := true }

def next? : Print (Option Raw) := do
  let p ← get
  set { p with args := p.args.drop 1 }
  return p.args.head?

/-! ## Escapes -/

def codePoint (n : Nat) : Print Unit := do
  match (← read).locale with
  | .utf8 => add (Locale.utf8.encodeChar (Char.ofNat n))
  | .bytes =>
    if n < 128 then add [Char.ofNat n]
    else
      let hex (width : Nat) : Raw := (Text.paddedHex width n).map Char.toUpper
      add (if n < 65536 then ['\\', 'u'] ++ hex 4 else ['\\', 'U'] ++ hex 8)

def hexDigits (n : Nat) (t : Raw) : Raw := (t.take n).takeWhile fun c => (Text.hexDigit? c).isSome

def hexValue (ds : Raw) : Nat := (Number.digits 16 ds).1

/-- Writes an escape, and gives what follows it. In an argument, a zero may stand before an octal
number. -/
def escape (inArgument : Bool) (t : Raw) : Print Raw := do
  let noDigits : Message := "missing hexadecimal number in escape"
  match t with
  | [] =>
    add ['\\']
    return []
  | c :: rest =>
    if c = 'x' then
      let ds := hexDigits 2 rest
      if ds.isEmpty then giveUp noDigits
      add [Char.ofNat (hexValue ds)]
      return rest.drop ds.length
    else if Format.isOctal c then
      let (e, rest) := Format.octalEscape (if inArgument && c = '0' then rest else t)
      add [e]
      return rest
    else if c = 'c' then throw { printed := ← get, failed := false }
    else if c = 'u' || c = 'U' then
      let size := if c = 'u' then 4 else 8
      let ds := hexDigits size rest
      if ds.length < size then giveUp noDigits
      let n := hexValue ds
      if (n ≤ 0x9f && n ∉ [0x24, 0x40, 0x60]) || (0xd800 ≤ n && n ≤ 0xdfff) then
        giveUp ("invalid universal character name \\" ++ c :: Text.paddedHex size n)
      codePoint n
      return rest.drop size
    else
      add (match Format.escaped? c with
        | some e => [e]
        | none => if c = '"' then ['"'] else ['\\', c])
      return rest

def unescaped : (fuel : Nat) → Raw → Print Unit
  | 0, _ => return ()
  | _ + 1, [] => return ()
  | fuel + 1, c :: t => do
    if c = '\\' then unescaped fuel (← escape true t)
    else
      add [c]
      unescaped fuel t

/-! ## Conversions -/

def check (arg rest : Raw) (inRange : Bool) : Print Unit := do
  let refuse (message : String) : Print Unit := do
    complainOf (Message.word arg ++ ": " ++ message.toList)
    modify fun p => { p with failed := true }
  if !inRange then refuse "Numerical result out of range"
  else if !rest.isEmpty then
    refuse (if rest.length = arg.length then "expected a numeric value"
      else "value not completely converted")

def quoted? (arg : Raw) : Print (Option Nat) := do
  match arg with
  | q :: c :: t =>
    if q ≠ '\'' && q ≠ '"' then return none
    let l := (← read).locale
    let first := ((l.decode (c :: t)).head?).getD c
    let (n, size) := if Locale.isStray first then (c.toNat, 1)
      else (first.toNat, (l.encodeChar first).length)
    let rest := (c :: t).drop size
    if !rest.isEmpty && !(← read).isStrict then
      complainOf ("warning: " ++ rest
        ++ ": character(s) following character constant have been ignored")
    return some n
  | _ => return none

def wholeOf (signed : Bool) (arg : Raw) : Print Int := do
  match ← quoted? arg with
  | some n => return n
  | none =>
    let (n, rest, inRange) := Format.wholeNumber signed arg
    check arg rest inRange
    return n

def numeralOf (arg : Raw) : Print Format.Numeral := do
  match ← quoted? arg with
  | some n => return .ofNat n
  | none =>
    match Format.numeral? arg with
    | none =>
      check arg arg true
      return .zero
    | some (n, rest) =>
      check arg rest (n.isInRange Decimal.binary80)
      return n

def greatestAmount : Int := 2147483647

def amount (name : String) (t : Raw) : Print (Option Int × Raw) := do
  match t with
  | '*' :: t =>
    match ← next? with
    | none => return (some 0, t)
    | some arg =>
      let n ← wholeOf true arg
      if greatestAmount < n || (n < -greatestAmount - 1 && name = "field width") then
        giveUp ("invalid " ++ name.toList ++ ": " ++ Message.word arg)
      return (some n, t)
  | t =>
    let ds := t.takeWhile Char.isDigit
    return (some (Text.digitsValue 0 ds), t.drop ds.length)

def letters (flags : Raw) (hasPrecision : Bool) : List Char :=
  let without (flag : Char) (cs all : List Char) : List Char :=
    if flag ∈ flags then all.filter (· ∉ cs) else all
  let all := "aAcdeEfFgGiosuxX".toList
  let all := if hasPrecision then all.filter (· ≠ 'c') else all
  without '#' "cdisu".toList (without '0' "cs".toList
    (without 'I' "aAceEosxX".toList (without '\'' "aAceEosxX".toList all)))

def longest : Nat := 4000000

def write (c : Format.Conversion) (arg : Raw) : Print Unit := do
  if c.letter = 's' then add (Format.padText c arg)
  else if c.letter = 'c' then add (Format.pad c [(arg.head?).getD '\x00'])
  else if c.letter ∈ ['d', 'i'] then add (Format.whole c (← wholeOf true arg))
  else if c.letter ∈ ['o', 'u', 'x', 'X'] then add (Format.whole c (← wholeOf false arg))
  else
    let n ← numeralOf arg
    add (Format.fraction c Decimal.binary80 n.negative (n.magnitude Decimal.binary80))

def convert (t : Raw) : Print Raw := do
  let start := t
  let flags := t.takeWhile (· ∈ ['\'', 'I', '-', '+', ' ', '#', '0'])
  let (width, t) ← amount "field width" (t.drop flags.length)
  let (precision, t) ← match t with
    | '.' :: t => amount "precision" t
    | t => pure (none, t)
  let width := width.getD 0
  let t := t.dropWhile (· ∈ ['l', 'L', 'h', 'j', 't', 'z'])
  let rest := t.drop 1
  let letter := (t.head?).getD '\x00'
  if letter ∉ letters flags precision.isSome then
    giveUp ('%' :: start.take (start.length - rest.length) ++ ": invalid conversion specification")
  let c := Format.Conversion.of flags width precision letter
  let c := { c with width := min longest c.width, precision := c.precision.map (min longest) }
  write c ((← next?).getD [])
  return rest

/-! ## Formats -/

def pass : (fuel : Nat) → Raw → Print Unit
  | 0, _ => return ()
  | _ + 1, [] => return ()
  | fuel + 1, '\\' :: t => do pass fuel (← escape false t)
  | fuel + 1, '%' :: '%' :: t => do
    add ['%']
    pass fuel t
  | fuel + 1, '%' :: 'b' :: t => do
    let arg := (← next?).getD []
    unescaped (arg.length + 1) arg
    pass fuel t
  | fuel + 1, '%' :: 'q' :: t => do
    if let some arg ← next? then add (Quoting.ifNeeded (← read).locale arg)
    pass fuel t
  | fuel + 1, '%' :: t => do pass fuel (← convert t)
  | fuel + 1, c :: t => do
    add [c]
    pass fuel t

def passes (format : Raw) : (fuel : Nat) → Print Unit
  | 0 => return ()
  | fuel + 1 => do
    let before := (← get).args.length
    pass (format.length + 1) format
    match (← get).args with
    | [] => return ()
    | arg :: args =>
      if args.length + 1 < before then passes format fuel
      else complainOf ("warning: ignoring excess arguments, starting with " ++ Message.word arg)

def printed (setting : Setting) (format : Raw) (args : List Raw) : Printed × Bool :=
  match StateT.run (ReaderT.run (passes format (args.length + 1)) setting) { args } with
  | .ok ((), p) => (p, p.failed)
  | .error e => (e.printed, e.failed)

def run (program : Raw) (args : List Raw) : Proc Unit := do
  let args := if args.head? = some ['-', '-'] then args.drop 1 else args
  match args with
  | [] => misuse program "missing operand"
  | format :: args =>
    let isStrict := ((← Proc.get).value? Arguments.strictVariable).isSome
    let (p, failed) := printed { locale := ← locale, isStrict } format args
    Proc.forEach p.complaints.reverse (complain program)
    Proc.setStatus (if failed then 1 else 0)
    print program 1 p.text.reverse

end PatchTriage.Shell.Tools.Printf
