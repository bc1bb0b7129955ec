import PatchTriage.Decimal
import PatchTriage.Overflow
import PatchTriage.SortedList
import PatchTriage.Text.Utf8

/-!
# JSON

`Json` is a value as a reader meets it. A string or a number may be well formed and still stand for
nothing (a lone surrogate, a number that is too large); such a value is kept as `none`, since it
matters only where the value is used. The reader works on the characters `U+0000` to `U+00FF` that
stand for the bytes of a document, and accepts exactly the JSON grammar. Values are written either
on one line, without spaces (`Json.compact`), or with one item a line, indented by two spaces
(`Json.pretty`).
-/

namespace PatchTriage

inductive JsonNumber where
  | natural (n : Nat)
  | negative (n : Nat)
  | float (bits : UInt64)
  deriving DecidableEq

inductive Json where
  | null
  | bool (b : Bool)
  | number (n : Option JsonNumber)
  | string (t : Option Text)
  | array (items : List Json)
  | object (fields : List (Option Text × Json))

namespace Json

def text (t : Text) : Json := .string (some t)

def nat (n : Nat) : Json := .number (some (.natural n))

def fields (fs : List (Text × Json)) : Json := .object (fs.map fun (k, v) => (some k, v))

def depth : Json → Nat
  | array items => depthOfItems items + 1
  | object fields => depthOfFields fields + 1
  | _ => 0
where
  depthOfItems : List Json → Nat
    | [] => 0
    | v :: vs => max (depth v) (depthOfItems vs)
  depthOfFields : List (Option Text × Json) → Nat
    | [] => 0
    | (_, v) :: vs => max (depth v) (depthOfFields vs)

end Json

end PatchTriage

/-!
## JSON numbers

A number without fraction and exponent that fits into 64 bits is an integer; any other number is
read as a binary64. Reading takes the digits that fit into a word, drops the others, and then
multiplies or divides once by the power of ten, so the last bit may be off by one.

A binary64 is written with the shortest digits, positionally while its first digit stands for
10^-5 up to 10^15, else with an exponent.
-/

namespace PatchTriage.JsonNumber

/-! ## Reading -/

/-- Digits taken into a word: their value, how many did not fit, and whether all further digits are
dropped. -/
structure Significand where
  value : Nat := 0
  taken : Nat := 0
  dropped : Nat := 0
  deriving DecidableEq

/-- Takes one more digit; once a digit does not fit, no further one is taken. -/
def Significand.push (s : Significand) (c : Char) : Significand :=
  let v := 10 * s.value + (c.toNat - '0'.toNat)
  if s.dropped = 0 ∧ v < Word.bound then { s with value := v, taken := s.taken + 1 }
  else { s with dropped := s.dropped + 1 }

def Significand.pushAll (s : Significand) (ds : Text) : Significand := ds.foldl Significand.push s

def powerOfTen (n : Nat) : Float := Float.ofScientific 1 false n

def divide : (fuel : Nat) → Float → (n : Nat) → Float
  | 0, x, _ => x
  | fuel + 1, x, n =>
    if n ≤ 308 then x / powerOfTen n
    else if x == 0 then x
    else divide fuel (x / powerOfTen 308) (n - 308)

def scale? (value : Nat) (exponent : Int) : Option Float :=
  let x := Float.ofNat value
  if exponent < 0 then some (divide (exponent.natAbs + 1) x exponent.natAbs)
  else if 308 < exponent then (if x == 0 then some x else none)
  else
    let y := x * powerOfTen exponent.natAbs
    if y.isInf then none else some y

def signed (negative : Bool) (x : Float) : JsonNumber := .float (if negative then -x else x).toBits

def maxExponent : Nat := 2147483647

/-- The number with the given whole digits, digits after the point, and exponent. -/
def ofParts (negative : Bool) (whole : Text) (fraction : Option Text)
    (exponent : Option (Bool × Text)) : Option JsonNumber :=
  let w := Significand.pushAll {} whole
  match fraction, exponent with
  | none, none =>
    if w.dropped = 0 then
      if !negative then some (.natural w.value)
      else if 0 < w.value ∧ w.value ≤ Nat.pow 2 63 then some (.negative w.value)
      else some (signed true (Float.ofNat w.value))
    else (scale? w.value w.dropped).map (signed negative)
  | _, _ =>
    -- The digits after the point are taken as long as they fit.
    let f := Significand.pushAll { value := w.value } (fraction.getD [])
    let shift : Int := (w.dropped : Int) - f.taken
    match exponent with
    | none => (scale? f.value shift).map (signed negative)
    | some (down, ds) =>
      let e := Text.digitsValue 0 ds
      if maxExponent < e then if f.value ≠ 0 ∧ !down then none else some (signed negative 0)
      else (scale? f.value (if down then shift - e else shift + e)).map (signed negative)

/-! ## Writing -/

/-- A binary64 with the exponent of its first digit, in the form `d.ddde+NN`. -/
def scientific (digits : Text) (exponent : Int) : Text :=
  let mantissa :=
    match digits with
    | [] => []
    | [d] => [d]
    | d :: ds => d :: '.' :: ds
  mantissa ++ 'e' :: (if exponent < 0 then '-' else '+') :: Text.ofNat exponent.natAbs

def renderFloat (bits : UInt64) : Text :=
  let sign : Text := if Decimal.isNegative bits then ['-'] else []
  match Decimal.parts bits with
  | .nan | .infinite => "null"
  | .finite 0 _ _ => sign ++ "0.0"
  | .finite m q narrow =>
    let d := Decimal.shortest .toEven m q narrow
    let ds := Text.ofNat d.digits
    let leading := d.exponent + ds.length - 1
    if leading < -5 ∨ 15 < leading then sign ++ scientific ds leading
    else if 0 ≤ d.exponent then sign ++ Decimal.positional d ++ ['.', '0']
    else sign ++ Decimal.positional d

def render : JsonNumber → Text
  | natural n => Text.ofNat n
  | negative n => '-' :: Text.ofNat n
  | float bits => renderFloat bits

end PatchTriage.JsonNumber

namespace PatchTriage.Json

/-! ## Reading -/

def byteChars (bytes : Bytes) : Text := bytes.map fun b => Char.ofNat b.toNat

def skipSpace (t : Text) : Text := t.dropWhile fun c => c ∈ [' ', '\n', '\t', '\r']

def hexQuad? (a b c d : Char) : Option Nat := do
  return (((← Text.hexDigit? a) * 16 + (← Text.hexDigit? b)) * 16 + (← Text.hexDigit? c)) * 16
    + (← Text.hexDigit? d)

/-- A string read so far: its bytes, reversed; a high surrogate that waits for its low one; and
whether all of it stands for characters. -/
structure StringState where
  bytes : Bytes := []
  high : Option Nat := none
  valid : Bool := true
  deriving DecidableEq

namespace StringState

def pushByte (s : StringState) (b : Nat) : StringState where
  bytes := UInt8.ofNat b :: s.bytes
  valid := s.valid && s.high.isNone

def pushUnit (s : StringState) (n : Nat) : StringState :=
  let encode (c : Nat) := (String.utf8EncodeChar (Char.ofNat c)).reverse ++ s.bytes
  match s.high with
  | some h =>
    if 0xdc00 ≤ n ∧ n ≤ 0xdfff then
      { s with bytes := encode (0x10000 + (h - 0xd800) * 0x400 + (n - 0xdc00)), high := none }
    else { s with high := none, valid := false }
  | none =>
    if 0xdc00 ≤ n ∧ n ≤ 0xdfff then { s with valid := false }
    else if 0xd800 ≤ n ∧ n ≤ 0xdbff then { s with high := some n }
    else { s with bytes := encode n }

def text? (s : StringState) : Option Text :=
  if s.valid && s.high.isNone then Utf8.strict? s.bytes.reverse else none

end StringState

def escaped? (c : Char) : Option Char :=
  match c with
  | '"' => some '"'
  | '\\' => some '\\'
  | '/' => some '/'
  | 'b' => some '\x08'
  | 'f' => some '\x0c'
  | 'n' => some '\n'
  | 'r' => some '\r'
  | 't' => some '\t'
  | _ => none

def readString (s : StringState) : Text → Option (Option Text × Text)
  | '"' :: t => some (s.text?, t)
  | '\\' :: 'u' :: a :: b :: c :: d :: t =>
    match hexQuad? a b c d with
    | some n => readString (s.pushUnit n) t
    | none => none
  | '\\' :: c :: t =>
    match escaped? c with
    | some e => readString (s.pushByte e.toNat) t
    | none => none
  | c :: t => if c.toNat < 0x20 ∨ c = '\\' then none else readString (s.pushByte c.toNat) t
  | [] => none

def readDigitRow (t : Text) : Option (Text × Text) :=
  match t.takeWhile Char.isDigit with
  | [] => none
  | ds => some (ds, t.dropWhile Char.isDigit)

def readWhole : Text → Option (Text × Text)
  | '0' :: t => some (['0'], t)
  | t => readDigitRow t

def readFraction : Text → Option (Option Text × Text)
  | '.' :: t => (readDigitRow t).map fun (ds, t) => (some ds, t)
  | t => some (none, t)

/-- Reads an exponent, if there is one: whether it is negative, and its digits. -/
def readExponent : Text → Option (Option (Bool × Text) × Text)
  | c :: t =>
    if c = 'e' ∨ c = 'E' then
      let (down, t) :=
        match t with
        | '+' :: t => (false, t)
        | '-' :: t => (true, t)
        | t => (false, t)
      (readDigitRow t).map fun (ds, t) => (some (down, ds), t)
    else some (none, c :: t)
  | [] => some (none, [])

def readNumber (negative : Bool) (t : Text) : Option (Json × Text) := do
  let (whole, t) ← readWhole t
  let (fraction, t) ← readFraction t
  let (exponent, t) ← readExponent t
  return (.number (JsonNumber.ofParts negative whole fraction exponent), t)

mutual

def readValue : (fuel : Nat) → Text → Option (Json × Text)
  | 0, _ => none
  | fuel + 1, t =>
    match skipSpace t with
    | '"' :: t => (readString {} t).map fun (s, t) => (.string s, t)
    | '[' :: t =>
      match skipSpace t with
      | ']' :: t => some (.array [], t)
      | t => (readItems fuel t).map fun (vs, t) => (.array vs, t)
    | '\x7b' :: t =>
      match skipSpace t with
      | '\x7d' :: t => some (.object [], t)
      | t => (readFields fuel t).map fun (fs, t) => (.object fs, t)
    | '-' :: t => readNumber true t
    | t =>
      match Text.dropHead? "null" t, Text.dropHead? "true" t, Text.dropHead? "false" t with
      | some t, _, _ => some (.null, t)
      | _, some t, _ => some (.bool true, t)
      | _, _, some t => some (.bool false, t)
      | _, _, _ => readNumber false t

def readItems : (fuel : Nat) → Text → Option (List Json × Text)
  | 0, _ => none
  | fuel + 1, t =>
    match readValue fuel t with
    | none => none
    | some (v, t) =>
      match skipSpace t with
      | ',' :: t => (readItems fuel t).map fun (vs, t) => (v :: vs, t)
      | ']' :: t => some ([v], t)
      | _ => none

def readFields : (fuel : Nat) → Text → Option (List (Option Text × Json) × Text)
  | 0, _ => none
  | fuel + 1, t =>
    match skipSpace t with
    | '"' :: t =>
      match readString {} t with
      | none => none
      | some (k, t) =>
        match skipSpace t with
        | ':' :: t =>
          match readValue fuel t with
          | none => none
          | some (v, t) =>
            match skipSpace t with
            | ',' :: t => (readFields fuel t).map fun (fs, t) => ((k, v) :: fs, t)
            | '\x7d' :: t => some ([(k, v)], t)
            | _ => none
        | _ => none
    | _ => none

end

def parse? (bytes : Bytes) : Option Json :=
  let t := byteChars bytes
  match readValue (2 * t.length + 2) t with
  | some (v, rest) => if (skipSpace rest).isEmpty then some v else none
  | none => none

def parseText? (t : Text) : Option Json := parse? (Utf8.encode t)

/-! ## Writing -/

def stringChar (c : Char) : Text :=
  if c = '"' then ['\\', '"']
  else if c = '\\' then ['\\', '\\']
  else if c = '\n' then ['\\', 'n']
  else if c = '\r' then ['\\', 'r']
  else if c = '\t' then ['\\', 't']
  else if c = '\x08' then ['\\', 'b']
  else if c = '\x0c' then ['\\', 'f']
  else if c.toNat < 0x20 then ('\\' :: 'u' :: Text.paddedHex 4 c.toNat)
  else [c]

def renderString (t : Text) : Text := '"' :: t.flatMap stringChar ++ ['"']

def renderScalar : Json → Text
  | null => "null"
  | bool true => "true"
  | bool false => "false"
  | number (some n) => n.render
  | string (some t) => renderString t
  | _ => []

def compact : Json → Text
  | array items => '[' :: Text.join [','] (compactItems items) ++ [']']
  | object fields => '\x7b' :: Text.join [','] (compactFields fields) ++ ['\x7d']
  | v => renderScalar v
where
  compactItems : List Json → List Text
    | [] => []
    | v :: vs => compact v :: compactItems vs
  compactFields : List (Option Text × Json) → List Text
    | [] => []
    | (k, v) :: fs => (renderString (k.getD []) ++ ':' :: compact v) :: compactFields fs

def newline (level : Nat) : Text := '\n' :: List.replicate (2 * level) ' '

def block (level : Nat) (first last : Char) (pieces : List Text) : Text :=
  if pieces.isEmpty then [first, last]
  else
    first :: newline (level + 1) ++ Text.join (',' :: newline (level + 1)) pieces
      ++ newline level ++ [last]

def prettyAt (level : Nat) : Json → Text
  | array items => block level '[' ']' (prettyItems (level + 1) items)
  | object fields => block level '\x7b' '\x7d' (prettyFields (level + 1) fields)
  | v => renderScalar v
where
  prettyItems (level : Nat) : List Json → List Text
    | [] => []
    | v :: vs => prettyAt level v :: prettyItems level vs
  prettyFields (level : Nat) : List (Option Text × Json) → List Text
    | [] => []
    | (k, v) :: fs =>
      (renderString (k.getD []) ++ ':' :: ' ' :: prettyAt level v) :: prettyFields level fs

def pretty (v : Json) : Text := prettyAt 0 v

mutual

/-- The value with the fields of every object in the order of their keys, of which the last with a
key counts; none if a string or number in it stands for nothing. -/
def normal? : Json → Option Json
  | array items => (normalItems? items).map array
  | object fields =>
    (normalFields? fields).map fun fs => Json.fields (SortedList.ofEntries Text.compare fs)
  | number none => none
  | string none => none
  | v => some v

def normalItems? : List Json → Option (List Json)
  | [] => some []
  | v :: vs => do return (← normal? v) :: (← normalItems? vs)

def normalFields? : List (Option Text × Json) → Option (List (Text × Json))
  | [] => some []
  | (k, v) :: fs => do return (← k, ← normal? v) :: (← normalFields? fs)

end

def maxDepth : Nat := 127

def read? (v : Option Json) : Option Json := do
  let v ← v
  if v.depth ≤ maxDepth then normal? v else none

end PatchTriage.Json
