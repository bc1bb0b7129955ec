/-!
# Texts

A text is the list of its characters, so that every rule of the library that looks at text is a
recursion on that list. This module holds the cuts and joins the other modules are written with.
-/

namespace PatchTriage

abbrev Text := List Char

/-- A string literal stands for its characters where a text is expected. -/
instance : Coe String Text := ⟨String.toList⟩

/-- Two texts compare as equal exactly if they are, so a text can be looked for in a list. -/
instance : LawfulBEq Text := inferInstance

namespace Text

/-! ## Beginnings and ends -/

def startsWith (head t : Text) : Bool := head.isPrefixOf t

def dropHead? : (head t : Text) → Option Text
  | [], t => some t
  | _ :: _, [] => none
  | h :: head, c :: t => if h = c then dropHead? head t else none

def dropTail? (tail t : Text) : Option Text := (dropHead? tail.reverse t.reverse).map List.reverse

def dropEndWhile (p : Char → Bool) (t : Text) : Text := (t.reverse.dropWhile p).reverse

def dropBothWhile (p : Char → Bool) (t : Text) : Text := dropEndWhile p (t.dropWhile p)

/-! ## Cutting at a character -/

/-- The pieces of a text between the occurrences of `sep`; never empty. -/
def splitOn (sep : Char) : Text → List Text
  | [] => [[]]
  | c :: t =>
    if c = sep then [] :: splitOn sep t
    else
      match splitOn sep t with
      | [] => [[c]]
      | piece :: pieces => (c :: piece) :: pieces

/-- What stands before and after the first `sep`, if there is one. -/
def cut? (sep : Char) : Text → Option (Text × Text)
  | [] => none
  | c :: t => if c = sep then some ([], t) else (cut? sep t).map fun (a, b) => (c :: a, b)

def cutLast? (sep : Char) (t : Text) : Option (Text × Text) :=
  (cut? sep t.reverse).map fun (b, a) => (a.reverse, b.reverse)

/-- What stands before the first `sep`; the whole text when there is none. -/
def before (sep : Char) (t : Text) : Text := t.takeWhile (· ≠ sep)

/-- What stands after the last `sep`; the whole text when there is none. -/
def afterLast (sep : Char) (t : Text) : Text := (before sep t.reverse).reverse

def without (c : Char) (t : Text) : Text := t.filter (· ≠ c)

/-! ## Searching for a text -/

/-- What stands before and after the first occurrence of `needle`, if there is one. -/
def breakOn? (needle : Text) : Text → Option (Text × Text)
  | [] => if needle.isEmpty then some ([], []) else none
  | c :: t =>
    match dropHead? needle (c :: t) with
    | some rest => some ([], rest)
    | none => (breakOn? needle t).map fun (a, b) => (c :: a, b)

def contains (needle t : Text) : Bool := (breakOn? needle t).isSome

/-- Exchange of occurrences while the next `skip` characters belong to one already exchanged. -/
def replaceFrom (needle new : Text) : (skip : Nat) → Text → Text
  | _, [] => []
  | skip + 1, _ :: t => replaceFrom needle new skip t
  | 0, c :: t =>
    if startsWith needle (c :: t) then new ++ replaceFrom needle new (needle.length - 1) t
    else c :: replaceFrom needle new 0 t

/-- `t` with every occurrence of the non-empty text `needle`, from the left and without overlap,
exchanged for `new`. -/
def replace (needle new t : Text) : Text := replaceFrom needle new 0 t

/-! ## Lines and joins -/

def dropReturn (line : Text) : Text :=
  match line.getLast? with
  | some '\r' => line.dropLast
  | _ => line

/-- The lines of a text. A line ends at a line feed, which takes a carriage return before it
along; the last line need not end and is dropped when it is empty. -/
def lines (t : Text) : List Text :=
  let pieces := splitOn '\n' t
  let ended := pieces.dropLast.map dropReturn
  match pieces.getLast? with
  | none | some [] => ended
  | some rest => ended ++ [rest]

def join (sep : Text) (pieces : List Text) : Text := sep.intercalate pieces

def padLeft (width : Nat) (c : Char) (t : Text) : Text := List.replicate (width - t.length) c ++ t

/-! ## Order and size -/

/-- Texts are ordered by code point, which is also the order of their UTF-8 bytes. -/
def compare : Text → Text → Ordering
  | [], [] => .eq
  | [], _ :: _ => .lt
  | _ :: _, [] => .gt
  | a :: s, b :: t => if a.val < b.val then .lt else if b.val < a.val then .gt else compare s t

def byteLength (t : Text) : Nat := t.foldr (fun c n => c.utf8Size + n) 0

/-- The longest beginning of `t` whose UTF-8 form has at most `limit` bytes. -/
def truncate (limit : Nat) : Text → Text
  | [] => []
  | c :: t => if c.utf8Size ≤ limit then c :: truncate (limit - c.utf8Size) t else []

/-- What stands from a byte offset on. -/
def fromByte (n : Nat) (t : Text) : Text := t.drop (truncate n t).length

/-!
## White space

The characters with the Unicode property `White_Space`, and the cuts at them: `Text.trim` removes
them at both ends, `Text.words` gives the runs between them.
-/

def isBlank (c : Char) : Bool :=
  let n := c.toNat
  (9 ≤ n && n ≤ 13) || n == 0x20 || n == 0x85 || n == 0xa0 || n == 0x1680 ||
    (0x2000 ≤ n && n ≤ 0x200a) || n == 0x2028 || n == 0x2029 || n == 0x202f || n == 0x205f ||
    n == 0x3000

def trimStart (t : Text) : Text := t.dropWhile isBlank

def trim (t : Text) : Text := dropBothWhile isBlank t

def isBlankText (t : Text) : Bool := t.all isBlank

def wordsFrom (word : Text) : Text → List Text
  | [] => if word.isEmpty then [] else [word]
  | c :: t =>
    if isBlank c then if word.isEmpty then wordsFrom [] t else word :: wordsFrom [] t
    else wordsFrom (word ++ [c]) t

def words (t : Text) : List Text := wordsFrom [] t

/-!
## Numerals

Natural numbers in decimal and hexadecimal. Reading takes an optional `+` and then at least one
digit, and nothing else; writing uses no leading zero.
-/

def digitsValue (n : Nat) (ds : Text) : Nat :=
  ds.foldl (fun n c => 10 * n + (c.toNat - '0'.toNat)) n

def readDigits? (t : Text) : Option Nat :=
  if !t.isEmpty && t.all Char.isDigit then some (digitsValue 0 t) else none

def readNat? : Text → Option Nat
  | '+' :: t => readDigits? t
  | t => readDigits? t

/-- The number below `bound` written by decimal digits after an optional `+`. -/
def readBelow? (bound : Nat) (t : Text) : Option Nat := (readNat? t).filter (· < bound)

def ofNat (n : Nat) : Text := Nat.toDigits 10 n

def hexOfNat (n : Nat) : Text := Nat.toDigits 16 n

/-- The hexadecimal digits of `n`, with leading zeros up to `width` digits. -/
def paddedHex (width n : Nat) : Text := padLeft width '0' (hexOfNat n)

def hexDigit? (c : Char) : Option Nat :=
  if '0' ≤ c ∧ c ≤ '9' then some (c.toNat - '0'.toNat)
  else if 'a' ≤ c ∧ c ≤ 'f' then some (c.toNat - 'a'.toNat + 10)
  else if 'A' ≤ c ∧ c ≤ 'F' then some (c.toNat - 'A'.toNat + 10)
  else none

def hexValue (n : Nat) (ds : Text) : Nat := ds.foldl (fun n c => 16 * n + (hexDigit? c).getD 0) n

end Text

end PatchTriage
