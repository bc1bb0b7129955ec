import PatchTriage.Decimal
import PatchTriage.Shell.Arithmetic

/-!
# Printed texts

What `echo` and `printf` write: numbers under the conversions of a format, and what escapes stand
for. Numbers with a point and an exponent are read exactly, as quotients.
-/

namespace PatchTriage.Shell.Format

open Text

/-! ## Numerals with a point -/

inductive Quantity where
  | nan
  | infinite
  | exact (r : Decimal.Ratio)

structure Numeral where
  negative : Bool
  quantity : Quantity

namespace Numeral

def zero : Numeral := { negative := false, quantity := .exact ⟨0, 1⟩ }

def ofNat (n : Nat) : Numeral := { negative := false, quantity := .exact ⟨n, 1⟩ }

def magnitude (f : Decimal.Binary) (n : Numeral) : Decimal.Magnitude :=
  match n.quantity with
  | .nan => .nan
  | .infinite => .infinite
  | .exact r => f.nearest r

def isInRange (f : Decimal.Binary) (n : Numeral) : Bool :=
  match n.quantity with
  | .exact r => f.isInRange r
  | _ => true

end Numeral

/-- The whole number at the front of a text, cut to the range of 64 bits, `signed` or not, what
follows it, and whether it was in range. -/
def wholeNumber (signed : Bool) (t : Raw) : Int × Raw × Bool :=
  match Number.signed? 0 t with
  | none => (0, t, true)
  | some (n, rest) =>
    let bounded :=
      if signed then Number.clamp n else max (-18446744073709551615) (min 18446744073709551615 n)
    let value := if !signed && bounded ≠ n then 18446744073709551615 else bounded
    (value, rest, bounded = n)

def mostPlaces : Nat := 30000

/-- The quotient `m * base ^ e`, or another one that every format rounds to the same zero or
infinity.
-/
def scaled (base m : Nat) (e : Int) : Decimal.Ratio :=
  if m = 0 then ⟨0, 1⟩
  else
    let places := e + (Nat.toDigits base m).length
    if (mostPlaces : Int) < places then ⟨Nat.pow base mostPlaces, 1⟩
    else if places < -(mostPlaces : Int) then ⟨1, Nat.pow base mostPlaces⟩
    else if e < 0 then ⟨m, Nat.pow base e.natAbs⟩
    else ⟨m * Nat.pow base e.natAbs, 1⟩

def exponent? (t : Raw) : Option (Int × Raw) :=
  let (negative, t) := Number.sign t
  if !(t.head?.any Char.isDigit) then none
  else
    let (n, rest) := Number.digits 10 t
    some (if negative then -(n : Int) else n, rest)

/-- The digits at the front of a text, with a point among them: their value, how many are after the
point, and what follows. -/
def pointedDigits? (base : Nat) (t : Raw) : Option (Nat × Nat × Raw) :=
  let isDigit := Number.isDigitOf base
  let whole := t.takeWhile isDigit
  let (part, rest) : Raw × Raw := match t.drop whole.length with
    | '.' :: u => (u.takeWhile isDigit, u.dropWhile isDigit)
    | u => ([], u)
  if whole.isEmpty && part.isEmpty then none
  else some ((Number.digits base (whole ++ part)).1, part.length, rest)

def exponentAfter (letter : Char) (t : Raw) : Int × Raw :=
  match t with
  | x :: u => if x.toLower = letter then (exponent? u).getD (0, t) else (0, t)
  | [] => (0, [])

def decimal? (t : Raw) : Option (Decimal.Ratio × Raw) :=
  (pointedDigits? 10 t).map fun (m, places, rest) =>
    let (e, rest) := exponentAfter 'e' rest
    (scaled 10 m (e - places), rest)

def hexadecimal? (t : Raw) : Option (Decimal.Ratio × Raw) :=
  (pointedDigits? 16 t).map fun (m, places, rest) =>
    let (e, rest) := exponentAfter 'p' rest
    (scaled 2 m (e - 4 * places), rest)

def afterNan (t : Raw) : Raw :=
  match t with
  | '(' :: u =>
    match u.dropWhile fun c => c.isAlphanum || c = '_' with
    | ')' :: rest => rest
    | _ => t
  | t => t

def numeral? (t : Raw) : Option (Numeral × Raw) :=
  let (negative, t) := Number.sign (t.dropWhile Number.isSpace)
  let begins (name : Raw) : Bool := startsWith name (t.map Char.toLower)
  let found : Option (Quantity × Raw) :=
    if begins "infinity" then some (.infinite, t.drop 8)
    else if begins "inf" then some (.infinite, t.drop 3)
    else if begins "nan" then some (.nan, afterNan (t.drop 3))
    else
      let hexadecimal := if begins "0x" then hexadecimal? (t.drop 2) else none
      ((hexadecimal.orElse fun _ => decimal? t)).map fun (r, rest) => (.exact r, rest)
  found.map fun (quantity, rest) => ({ negative, quantity }, rest)

/-! ## Conversions -/

section

structure Conversion where
  left : Bool := false
  zero : Bool := false
  plus : Bool := false
  blank : Bool := false
  alternate : Bool := false
  width : Nat := 0
  precision : Option Nat := none
  letter : Char

def Conversion.of (flags : Raw) (width : Int) (precision : Option Int) (letter : Char) :
    Conversion :=
  { left := '-' ∈ flags || width < 0, zero := '0' ∈ flags, plus := '+' ∈ flags
    blank := ' ' ∈ flags, alternate := '#' ∈ flags, width := width.natAbs
    precision := (precision.filter (0 ≤ ·)).map Int.toNat, letter }

variable (c : Conversion)

def pad (t : Raw) : Raw :=
  let missing := List.replicate (c.width - t.length) ' '
  if c.left then t ++ missing else missing ++ t

def padText (t : Raw) : Raw := pad c (c.precision.elim t t.take)

def padNumber (zeros : Bool) (sign body : Raw) : Raw :=
  if zeros && c.zero && !c.left then
    sign ++ List.replicate (c.width - sign.length - body.length) '0' ++ body
  else pad c (sign ++ body)

def signOf (negative : Bool) : Raw :=
  if negative then ['-'] else if c.plus then ['+'] else if c.blank then [' '] else []

/-! ## Whole numbers -/

def wholeDigits (base n : Nat) : Raw :=
  let ds : Raw := if n = 0 && c.precision = some 0 then [] else Nat.toDigits base n
  List.replicate (c.precision.getD 0 - ds.length) '0' ++ ds

def whole (n : Int) : Raw :=
  let unsigned : Nat := (n % 18446744073709551616).toNat
  let zeros := c.precision.isNone
  match c.letter with
  | 'o' =>
    let ds := wholeDigits c 8 unsigned
    let ds := if c.alternate && ds.head? != some '0' then '0' :: ds else ds
    padNumber c zeros [] ds
  | 'u' => padNumber c zeros [] (wholeDigits c 10 unsigned)
  | 'x' =>
    padNumber c zeros (if c.alternate && unsigned ≠ 0 then ['0', 'x'] else [])
      (wholeDigits c 16 unsigned)
  | 'X' =>
    padNumber c zeros (if c.alternate && unsigned ≠ 0 then ['0', 'X'] else [])
      ((wholeDigits c 16 unsigned).map Char.toUpper)
  | _ => padNumber c zeros (signOf c (n < 0)) (wholeDigits c 10 n.natAbs)

/-! ## Fractions -/

def rounded (r : Decimal.Ratio) (places : Int) : Nat :=
  if 0 ≤ places then Decimal.roundQuotient (r.num * Nat.pow 10 places.toNat) r.den
  else Decimal.roundQuotient r.num (r.den * Nat.pow 10 places.natAbs)

def pointed (alternate : Bool) (places : Nat) (n : Nat) : Raw :=
  let ds := padLeft (places + 1) '0' (ofNat n)
  let front := ds.take (ds.length - places)
  if places = 0 then (if alternate then front ++ ['.'] else front)
  else front ++ '.' :: ds.drop (ds.length - places)

def exponentText (letter : Char) (e : Int) : Raw :=
  letter :: (if e < 0 then '-' else '+') :: padLeft 2 '0' (ofNat e.natAbs)

def scientificDigits (r : Decimal.Ratio) (places : Nat) : Nat × Int :=
  if r.num = 0 then (0, 0)
  else
    let e := r.leading
    let n := rounded r (places - e)
    if Nat.pow 10 (places + 1) ≤ n then (rounded r (places - e - 1), e + 1) else (n, e)

def scientific (alternate : Bool) (letter : Char) (places : Nat) (r : Decimal.Ratio) : Raw :=
  let (n, e) := scientificDigits r places
  pointed alternate places n ++ exponentText letter e

def dropZeros (t : Raw) : Raw :=
  if '.' ∈ t then
    let t := dropEndWhile (· = '0') t
    if t.getLast? = some '.' then t.dropLast else t
  else t

def general (alternate : Bool) (letter : Char) (precision : Nat) (r : Decimal.Ratio) : Raw :=
  let p := max precision 1
  let (n, e) := scientificDigits r (p - 1)
  if e < -4 || (p : Int) ≤ e then
    let front := pointed alternate (p - 1) n
    (if alternate then front else dropZeros front) ++ exponentText letter e
  else
    let places := ((p : Int) - 1 - e).toNat
    let t := pointed alternate places (rounded r places)
    if alternate then t else dropZeros t

/-- The number `m * 2 ^ q` in hexadecimal, without its mark: as many bits as the precision leaves
over stand before the point, four in each digit after it. -/
def hexadecimal (f : Decimal.Binary) (m : Nat) (q : Int) : Raw :=
  let places := (f.precision - 1) / 4
  let shown := c.precision.getD places
  let e : Int := if m = 0 then 0 else q + 4 * places
  let n := Decimal.roundQuotient m (Nat.pow 16 (places - shown))
  let kept := min shown places
  let (n, e) := if Nat.pow 16 (kept + 1) ≤ n then (n / 16, e + 4) else (n, e)
  let ds := paddedHex kept (n % Nat.pow 16 kept)
  let ds := if c.precision.isNone then dropEndWhile (· = '0') ds
    else (if kept = 0 then [] else ds) ++ List.replicate (shown - kept) '0'
  Nat.toDigits 16 (n / Nat.pow 16 kept) ++ (if ds.isEmpty && !c.alternate then [] else '.' :: ds) ++
    ['p', if e < 0 then '-' else '+'] ++ ofNat e.natAbs

def fraction (f : Decimal.Binary) (negative : Bool) (v : Decimal.Magnitude) :
    Raw :=
  let sign := signOf c negative
  let cased (t : Raw) : Raw := if c.letter.isUpper then t.map Char.toUpper else t
  match v with
  | .nan => pad c (sign ++ cased "nan")
  | .infinite => pad c (sign ++ cased "inf")
  | .finite m q =>
    let r := Decimal.Ratio.scale m q
    let p := c.precision.getD 6
    match c.letter.toLower with
    | 'f' => padNumber c true sign (pointed c.alternate p (rounded r p))
    | 'e' => padNumber c true sign (scientific c.alternate c.letter p r)
    | 'g' => padNumber c true sign (cased (general c.alternate 'e' p r))
    | _ => padNumber c true (sign ++ cased "0x") (cased (hexadecimal c f m q))

end

/-! ## Printed texts -/

def isOctal (c : Char) : Bool := '0' ≤ c && c ≤ '7'

def octal : (n : Nat) → Raw → Nat → Nat × Raw
  | 0, t, v => (v, t)
  | _ + 1, [], v => (v, [])
  | n + 1, c :: t, v =>
    if isOctal c then octal n t (v * 8 + (c.toNat - '0'.toNat)) else (v, c :: t)

def octalEscape (t : Raw) : Char × Raw :=
  let (v, rest) := octal 3 t 0
  (Char.ofNat (v % 256), rest)

def escaped? : Char → Option Char
  | 'a' => some '\x07'
  | 'b' => some '\x08'
  | 'e' => some '\x1b'
  | 'f' => some '\x0c'
  | 'n' => some '\n'
  | 'r' => some '\r'
  | 't' => some '\t'
  | 'v' => some '\x0b'
  | '\\' => some '\\'
  | _ => none

/-- The character of an escape, and what follows it. A backslash before any other character means
itself. -/
def escape (t : Raw) : Char × Raw :=
  match t with
  | [] => ('\\', [])
  | c :: rest =>
    if isOctal c then octalEscape t
    else
      match escaped? c with
      | some e => (e, rest)
      | none => ('\\', t)

def unescape : (fuel : Nat) → Raw → Raw × Bool
  | 0, t => (t, false)
  | _ + 1, [] => ([], false)
  | fuel + 1, '\\' :: t =>
    match t with
    | 'c' :: _ => ([], true)
    | _ =>
      let t := match t with
        | '0' :: d :: rest => if isOctal d then d :: rest else t
        | t => t
      let (c, rest) := escape t
      let (out, ended) := unescape fuel rest
      (c :: out, ended)
  | fuel + 1, c :: t =>
    let (out, ended) := unescape fuel t
    (c :: out, ended)

def unescaped (t : Raw) : Raw × Bool := unescape (t.length + 1) t

def echo (args : List Raw) : Raw :=
  match args with
  | ['-', 'n'] :: args => line args []
  | args => line args ['\n']
where
  line (args : List Raw) (finish : Raw) : Raw :=
    let (out, ended) := unescaped (join [' '] args)
    if ended then out else out ++ finish

/-! ## Formats -/

structure Printed where
  text : Raw := []
  args : List Raw
  complaints : List Raw := []
  mistake : Option Raw := none
  ended : Bool := false

namespace Printed

variable (p : Printed)

def add (t : Raw) : Printed := { p with text := t.reverse ++ p.text }

def next : Option Raw × Printed := (p.args.head?, { p with args := p.args.drop 1 })

def complain (arg : Raw) (message : String) : Printed :=
  { p with complaints := (arg ++ ": " ++ message.toList) :: p.complaints }

def check (arg rest : Raw) (inRange : Bool) : Printed :=
  if !rest.isEmpty then
    p.complain arg (if rest.length = arg.length then "expected numeric value"
      else "not completely converted")
  else if !inRange then p.complain arg "Numerical result out of range"
  else p

def nextWhole (signed : Bool) : Int × Printed :=
  match p.next with
  | (none, p) => (0, p)
  | (some arg, p) =>
    match arg with
    | '\'' :: rest | '"' :: rest => (((rest.head?.map Char.toNat).getD 0 : Nat), p)
    | _ =>
      let (n, rest, inRange) := wholeNumber signed arg
      (n, p.check arg rest inRange)

def nextNumeral : Numeral × Printed :=
  match p.next with
  | (none, p) => (.zero, p)
  | (some arg, p) =>
    match arg with
    | '\'' :: rest | '"' :: rest => (.ofNat ((rest.head?.map Char.toNat).getD 0), p)
    | _ =>
      match numeral? arg with
      | none => (.zero, p.check arg arg true)
      | some (n, rest) => (n, p.check arg rest (n.isInRange Decimal.binary64))

end Printed

def greatestAmount : Int := 2147483647

def longestNumber : Nat := 4000000

def amount (t : Raw) (p : Printed) : Int × Raw × Printed :=
  match t with
  | '*' :: t =>
    let (n, p) := p.nextWhole true
    (Int.bmod n 4294967296, t, p)
  | t =>
    let isPart (c : Char) : Bool := c.isDigit || c = '*'
    let ds := t.takeWhile isPart
    (digitsValue 0 (ds.filter Char.isDigit), t.drop ds.length, p)

def Printed.stop (p : Printed) (message : Raw) : Raw × Printed :=
  ([], { p with mistake := some message, ended := true })

def writeArgument (c : Conversion) (p : Printed) : Option Printed :=
  if c.letter = 's' then
    let (arg, p) := p.next
    some (p.add (padText c (arg.getD [])))
  else if c.letter = 'c' then
    let (arg, p) := p.next
    some (p.add (pad c [((arg.getD []).head?).getD '\x00']))
  else if c.letter = 'b' then
    let (arg, p) := p.next
    let (text, ended) := unescaped (arg.getD [])
    some { p.add (padText c text) with ended }
  else if c.letter ∈ ['d', 'i'] then
    let (n, p) := p.nextWhole true
    some (p.add (whole c n))
  else if c.letter ∈ ['o', 'u', 'x', 'X'] then
    let (n, p) := p.nextWhole false
    some (p.add (whole c n))
  else if c.letter ∈ ['a', 'A', 'e', 'E', 'f', 'F', 'g', 'G'] then
    let (n, p) := p.nextNumeral
    some (p.add (fraction c Decimal.binary64 n.negative (n.magnitude Decimal.binary64)))
  else none

def convert (t : Raw) (p : Printed) : Raw × Printed :=
  let start := t
  let isFlag (c : Char) : Bool := c ∈ ['#', '-', '+', ' ', '0']
  let flags := t.takeWhile isFlag
  let (width, t, p) := amount (t.drop flags.length) p
  let (precision, t, p) : Option Int × Raw × Printed := match t with
    | '.' :: t =>
      let (n, t, p) := amount t p
      (some n, t, p)
    | t => (none, t, p)
  match t with
  | [] => p.stop "missing format character"
  | letter :: rest =>
    let c := Conversion.of flags width precision letter
    let isShort := letter ∈ ['s', 'b', 'c']
    let tooLong := longestNumber < c.width || greatestAmount < precision.getD 0 ||
      (!isShort && longestNumber < c.precision.getD 0)
    match writeArgument (if tooLong then { letter } else c) p with
    | some written =>
      if tooLong then { written with text := p.text }.stop "xvsnprintf failed" else (rest, written)
    | none =>
      let directive := '%' :: start.take (start.length - rest.length)
      p.stop (directive ++ ": invalid directive")

def pass : (fuel : Nat) → Raw → Printed → Printed
  | 0, _, p => p
  | _ + 1, [], p => p
  | fuel + 1, '\\' :: t, p =>
    let (c, rest) := escape t
    pass fuel rest (p.add [c])
  | fuel + 1, '%' :: '%' :: t, p => pass fuel t (p.add ['%'])
  | fuel + 1, '%' :: t, p =>
    let (rest, p) := convert t p
    if p.ended then p else pass fuel rest p
  | fuel + 1, c :: t, p => pass fuel t (p.add [c])

def passes (format : Raw) : (fuel : Nat) → Printed → Printed
  | 0, p => p
  | fuel + 1, p =>
    let before := p.args.length
    let p := pass (format.length + 1) format p
    if p.ended || p.args.isEmpty || p.args.length = before then p else passes format fuel p

def printf (format : Raw) (args : List Raw) : Printed := passes format (args.length + 1) { args }

end PatchTriage.Shell.Format
