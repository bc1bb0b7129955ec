import PatchTriage.Decimal

/-!
# Measures and distances

A measure is a binary64 number, kept as its bit pattern, so that every pattern has its place in the
order of measures: negative ones come first, and a NaN lies outside the infinity of its sign.
-/

namespace PatchTriage

structure Measure where
  bits : UInt64
  deriving DecidableEq

namespace Measure

def ofFloat (x : Float) : Measure := ⟨x.toBits⟩

def toFloat (m : Measure) : Float := Float.ofBits m.bits

def rank (m : Measure) : Int :=
  let half := Nat.pow 2 63
  if m.bits.toNat < half then m.bits.toNat else (half : Int) - 1 - m.bits.toNat

def compare (a b : Measure) : Ordering :=
  if a.rank < b.rank then .lt else if b.rank < a.rank then .gt else .eq

/-- The text of a measure: the shortest decimal, never with an exponent. -/
def render (m : Measure) : Text :=
  let sign : Text := if Decimal.isNegative m.bits then ['-'] else []
  match Decimal.parts m.bits with
  | .nan => "NaN"
  | .infinite => sign ++ "inf"
  | .finite 0 _ _ => sign ++ ['0']
  | .finite m q narrow => sign ++ Decimal.positional (Decimal.shortest .up m q narrow)

def sum (ms : List Measure) : Float := ms.foldl (fun s m => s + m.toFloat) (-0.0)

def mean (ms : List Measure) : Measure :=
  if ms.isEmpty then ofFloat 0 else ofFloat (sum ms / Float.ofNat ms.length)

end Measure

end PatchTriage

/-!
## Distances of lists

The edit distance of two texts, and the length of the longest common subsequence of two lists. Both
are computed row by row: the row for a list on the left holds the value for every beginning of the
list on the right. Two rows take turns, so that a new row is written over the last but one.
-/

namespace PatchTriage.Distance

variable {α : Type} [DecidableEq α]

/-- Writes the row `current` from the cell `j + 1` on, by `cell` of the cells to the left, above and
above to the left, and of the element on the right. -/
def fillRow (cell : (left up diagonal : Nat) → α → Nat) (previous : Array Nat) :
    (j : Nat) → (right : List α) → (current : Array Nat) → Array Nat
  | _, [], current => current
  | j, b :: right, current =>
    let here := cell (current.getD j 0) (previous.getD (j + 1) 0) (previous.getD j 0) b
    fillRow cell previous (j + 1) right (current.setIfInBounds (j + 1) here)

/-- The row for the elements from number `i` on; `start` sets the first cell of a row. -/
def lastRow (start : Nat → Array Nat → Array Nat) (cell : α → (left up diagonal : Nat) → α → Nat)
    (right : List α) : (i : Nat) → (left : List α) → (previous current : Array Nat) → Array Nat
  | _, [], previous, _ => previous
  | i, a :: left, previous, current =>
    lastRow start cell right (i + 1) left
      (fillRow (cell a) previous 0 right (start i current)) previous

def editCell (a : α) (left up diagonal : Nat) (b : α) : Nat :=
  min (min (left + 1) (up + 1)) (diagonal + if a = b then 0 else 1)

/-- The number of insertions, deletions and substitutions that turn one list into the other. -/
def edits (left right : List α) : Nat :=
  if left = right then 0
  else
    let row := lastRow (fun i row => row.setIfInBounds 0 (i + 1)) editCell right 0 left
      (Array.range (right.length + 1)) (Array.replicate (right.length + 1) 0)
    row.getD right.length 0

def commonCell (a : α) (left up diagonal : Nat) (b : α) : Nat :=
  if a = b then diagonal + 1 else max left up

/-- The length of the longest common subsequence. -/
def common (left right : List α) : Nat :=
  let zeros := Array.replicate (right.length + 1) 0
  (lastRow (fun _ row => row) commonCell right 0 left zeros zeros).getD right.length 0

/-- The share of the longer trace that is not common to both, in numbers of some kind; zero for two
empty traces. -/
def shareIn {κ : Type} [Sub κ] [Div κ] (number : Nat → κ) (patched unpatched : List α) : κ :=
  let longest := max patched.length unpatched.length
  if longest = 0 then number 0
  else number 1 - number (common patched unpatched) / number longest

def traces (patched unpatched : List α) : Measure :=
  .ofFloat (shareIn Float.ofNat patched unpatched)

end PatchTriage.Distance
