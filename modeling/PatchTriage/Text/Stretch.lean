import PatchTriage.Text.Basic

/-!
# Tables of characters as texts

A large table of characters is kept as a text of numbers. The digits of a number are letters, from
`a` for 0 to `z` for 25, and all but the last are capital; a dash marks the number behind it. Two
numbers stand for a stretch of codes: how far the first code lies above the last one of the stretch
before, and how far the last code lies above the first. So `CnzDya` has all codes from 65 to 90 and
the code 192. With a mark at the second number only every second code belongs to the stretch. In a
table of images, a third number says how far the images lie above their codes, or below with a mark.
-/

namespace PatchTriage.Text

/-- Codes from a first to a last one, all of them or every second one. -/
structure Stretch where
  first : Nat
  last : Nat
  step : Nat := 1
  deriving DecidableEq

def Stretch.holds (s : Stretch) (n : Nat) : Bool :=
  s.first ≤ n && n ≤ s.last && (n - s.first) % s.step = 0

/-- Whether a character lies in one of the stretches, which are in ascending order. -/
def inStretches (c : Char) : List Stretch → Bool
  | [] => false
  | s :: ss => if c.toNat < s.first then false else s.holds c.toNat || inStretches c ss

/-- The numbers that a text is written for, and whether they are marked; the first continues `n`. -/
def numbersFrom (marked : Bool) (n : Nat) : Text → List (Bool × Nat)
  | [] => []
  | c :: t =>
    if c.isLower then (marked, n + (c.toNat - 'a'.toNat)) :: numbersFrom false 0 t
    else if c.isUpper then numbersFrom marked (26 * (n + (c.toNat - 'A'.toNat))) t
    else numbersFrom (marked || c = '-') n t

def Stretch.ofNumbers (after gap : Nat) (length : Bool × Nat) : Stretch :=
  ⟨after + gap, after + gap + length.2, if length.1 then 2 else 1⟩

def stretchesFrom (after : Nat) : List (Bool × Nat) → List Stretch
  | gap :: length :: numbers =>
    let s := Stretch.ofNumbers after gap.2 length
    s :: stretchesFrom s.last numbers
  | _ => []

def readStretches (s : String) : List Stretch := stretchesFrom 0 (numbersFrom false 0 s.toList)

def imagesFrom (after : Nat) : List (Bool × Nat) → List (Stretch × Int)
  | gap :: length :: (below, shift) :: numbers =>
    let s := Stretch.ofNumbers after gap.2 length
    (s, if below then -shift else shift) :: imagesFrom s.last numbers
  | _ => []

def readImages (s : String) : List (Stretch × Int) := imagesFrom 0 (numbersFrom false 0 s.toList)

/-- The image of a character; it is its own one if the table has no other. -/
def imageOf (c : Char) : List (Stretch × Int) → Char
  | [] => c
  | (s, shift) :: table =>
    if c.toNat < s.first then c
    else if s.holds c.toNat then Char.ofNat (c.toNat + shift).toNat
    else imageOf c table

/-- The characters whose image in a table a character is, but for itself. -/
def codesFor (c : Char) (table : List (Stretch × Int)) : List Char :=
  table.filterMap fun (s, shift) =>
    let n := (c.toNat - shift).toNat
    if s.holds n then some (Char.ofNat n) else none

end PatchTriage.Text
