import PatchTriage.Text.Basic

/-!
# Decimals

A binary64 number is written with the fewest decimal digits that still read back as it
(`Decimal.shortest`), the nearest such decimal being taken: a bit pattern stands for `m * 2 ^ q`,
the reals that round to it form an interval around it, and for one, two, … digits the two neighbours
on that decimal grid are tried. A quotient is rounded to the nearest number of a binary format, a
half to the even neighbour (`Binary.nearest`). All of it is arithmetic on natural numbers.
-/

namespace PatchTriage.Decimal

/-! ## Shortest decimals -/

inductive Parts where
  | nan
  | infinite
  /-- The number `m * 2 ^ q`; `narrow` tells whether the gap below it is half the one above. -/
  | finite (m : Nat) (q : Int) (narrow : Bool)
  deriving DecidableEq

def isNegative (bits : UInt64) : Bool := Nat.pow 2 63 ≤ bits.toNat

def parts (bits : UInt64) : Parts :=
  let exponent : Nat := bits.toNat / Nat.pow 2 52 % 2048
  let fraction : Nat := bits.toNat % Nat.pow 2 52
  if exponent = 2047 then (if fraction = 0 then .infinite else .nan)
  else if exponent = 0 then .finite fraction (-1074) false
  else .finite (Nat.pow 2 52 + fraction) ((exponent : Int) - 1075) (fraction = 0 && 1 < exponent)

structure Ratio where
  num : Nat
  den : Nat
  deriving DecidableEq

def Ratio.scale (m : Nat) (q : Int) : Ratio :=
  if q < 0 then ⟨m, Nat.pow 2 q.natAbs⟩ else ⟨m * Nat.pow 2 q.natAbs, 1⟩

def Ratio.leading (r : Ratio) : Int :=
  if r.den ≤ r.num then ((Nat.toDigits 10 (r.num / r.den)).length : Int) - 1
  else
    let n := (Nat.toDigits 10 (r.den / r.num)).length
    if r.den = Nat.pow 10 (n - 1) * r.num then 1 - (n : Int) else -(n : Int)

structure Digits where
  digits : Nat
  exponent : Int
  deriving DecidableEq

inductive Tie where
  | up
  | toEven
  deriving DecidableEq

def compareScaled (c : Nat) (e : Int) (r : Ratio) : Ordering :=
  let (a, b) :=
    if e < 0 then (c * r.den, r.num * Nat.pow 10 e.natAbs)
    else (c * Nat.pow 10 e.natAbs * r.den, r.num)
  if a < b then .lt else if b < a then .gt else .eq

def interval (m : Nat) (q : Int) (narrow : Bool) : Ratio × Ratio :=
  (Ratio.scale (if narrow then 4 * m - 1 else 4 * m - 2) (q - 2), Ratio.scale (4 * m + 2) (q - 2))

/-- The best decimal with the unit `10 ^ e` that rounds to `m * 2 ^ q`. -/
def onGrid (tie : Tie) (m : Nat) (q : Int) (narrow : Bool) (e : Int) : Option Nat :=
  let value := Ratio.scale m q
  let (low, high) := interval m q narrow
  let below :=
    if e < 0 then value.num * Nat.pow 10 e.natAbs / value.den
    else value.num / (value.den * Nat.pow 10 e.natAbs)
  let fits (c : Nat) : Bool :=
    let l := compareScaled c e low
    let h := compareScaled c e high
    (l = .gt || (m % 2 = 0 && l = .eq)) && (h = .lt || (m % 2 = 0 && h = .eq))
  match fits below, fits (below + 1) with
  | false, false => none
  | true, false => some below
  | false, true => some (below + 1)
  | true, true =>
    -- Twice the value against the sum of the neighbours tells which one is nearer.
    match compareScaled (2 * below + 1) e ⟨2 * value.num, value.den⟩ with
    | .lt => some (below + 1)
    | .gt => some below
    | .eq => if tie = .up || below % 2 = 1 then some (below + 1) else some below

def stripZeros : (fuel : Nat) → Digits → Digits
  | 0, d => d
  | fuel + 1, d =>
    if d.digits ≠ 0 ∧ d.digits % 10 = 0 then stripZeros fuel ⟨d.digits / 10, d.exponent + 1⟩ else d

def search (tie : Tie) (m : Nat) (q : Int) (narrow : Bool) : (tries : Nat) → (e : Int) → Digits
  | 0, e => ⟨(onGrid tie m q narrow e).getD 0, e⟩
  | tries + 1, e =>
    match onGrid tie m q narrow e with
    | some c => stripZeros 20 ⟨c, e⟩
    | none => search tie m q narrow tries (e - 1)

/-- The shortest decimal that reads back as `m * 2 ^ q`, for a number that is not zero. -/
def shortest (tie : Tie) (m : Nat) (q : Int) (narrow : Bool) : Digits :=
  search tie m q narrow 17 (Ratio.scale m q).leading

def positional (d : Digits) : Text :=
  let ds := Text.ofNat d.digits
  if 0 ≤ d.exponent then ds ++ List.replicate d.exponent.natAbs '0'
  else
    let places := d.exponent.natAbs
    if places < ds.length then ds.take (ds.length - places) ++ '.' :: ds.drop (ds.length - places)
    else ('0' :: '.' :: List.replicate (places - ds.length) '0') ++ ds

/-! ## Nearest binary numbers -/

/-- The quotient of two numbers, rounded to the nearest one, and to the even one of two. -/
def roundQuotient (num den : Nat) : Nat :=
  let q := num / den
  let r := num % den
  if 2 * r < den then q else if den < 2 * r then q + 1 else q + q % 2

structure Binary where
  precision : Nat
  least : Int
  limit : Int
  deriving DecidableEq

def binary64 : Binary := { precision := 53, least := -1074, limit := 1024 }

def binary80 : Binary := { precision := 64, least := -16445, limit := 16384 }

inductive Magnitude where
  | nan
  | infinite
  | finite (m : Nat) (q : Int)
  deriving DecidableEq

def Ratio.inUnits (r : Ratio) (q : Int) : Nat :=
  if q < 0 then roundQuotient (r.num * Nat.pow 2 q.natAbs) r.den
  else roundQuotient r.num (r.den * Nat.pow 2 q.natAbs)

def Ratio.atLeast (r : Ratio) (e : Int) : Bool :=
  if e < 0 then r.den ≤ r.num * Nat.pow 2 e.natAbs else r.den * Nat.pow 2 e.natAbs ≤ r.num

def Ratio.log2 (r : Ratio) : Int :=
  let e : Int := (r.num.log2 : Int) - r.den.log2
  if r.atLeast e then e else e - 1

def Ratio.isScaled (r : Ratio) (m : Nat) (q : Int) : Bool :=
  if q < 0 then r.num * Nat.pow 2 q.natAbs = m * r.den else r.num = m * Nat.pow 2 q.natAbs * r.den

namespace Binary

def nearest (f : Binary) (r : Ratio) : Magnitude :=
  if r.num = 0 then .finite 0 f.least
  else
    let q := max (r.log2 - f.precision + 1) f.least
    let m := r.inUnits q
    let (m, q) := if m = Nat.pow 2 f.precision then (m / 2, q + 1) else (m, q)
    if f.limit < q + f.precision then .infinite else .finite m q

/-- Whether a positive quotient is below all the numbers with the full precision, after rounding to
that precision. -/
def isTiny (f : Binary) (r : Ratio) : Bool :=
  let e := r.log2
  let m := r.inUnits (e - f.precision + 1)
  let e := if m = Nat.pow 2 f.precision then e + 1 else e
  e < f.least + f.precision - 1

/-- Whether a quotient lies in the range of a format: its nearest number is finite, and is the
quotient itself if that is tiny. -/
def isInRange (f : Binary) (r : Ratio) : Bool :=
  match f.nearest r with
  | .finite m q => r.num = 0 || r.isScaled m q || !f.isTiny r
  | _ => false

end Binary

end PatchTriage.Decimal
