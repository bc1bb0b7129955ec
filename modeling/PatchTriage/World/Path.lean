import PatchTriage.SortedList
import PatchTriage.Text.Basic

/-!
# Paths

A path is kept as the text it was written as, since answers show it that way; what it means is
given by its components (`Path.components`). Repeated separators, and `.` anywhere but in front,
do not count as components. Every name of a file is a text: one that is not UTF-8 is not considered.
-/

namespace PatchTriage

abbrev Path := Text

namespace Path

inductive Component where
  | root
  | here
  | up
  | name (n : Text)
  deriving DecidableEq

variable (p : Path)

def isAbsolute : Bool := p.head? == some '/'

def pieceComponent? (piece : Text) : Option Component :=
  if piece.isEmpty then none
  else if piece = ['.'] then none
  else if piece = ['.', '.'] then some .up
  else some (.name piece)

def components : List Component :=
  let pieces := Text.splitOn '/' p
  let body := pieces.filterMap pieceComponent?
  if isAbsolute p then .root :: body
  else if pieces.head? = some ['.'] then .here :: body
  else body

def Component.text : Component → Text
  | .root => ['/']
  | .here => ['.']
  | .up => ['.', '.']
  | .name n => n

def Component.compare : Component → Component → Ordering
  | .name a, .name b => Text.compare a b
  | a, b =>
    let rank : Component → Nat
      | .root => 0
      | .here => 1
      | .up => 2
      | .name _ => 3
    if rank a < rank b then .lt else if rank b < rank a then .gt else .eq

def compare (p q : Path) : Ordering :=
  SortedList.compareLists Component.compare (components p) (components q)

/-- `p` continued by `q`: an absolute `q` replaces it, and a separator is added where `p` does not
end with one. -/
def join (p q : Path) : Path :=
  if isAbsolute q then q
  else if p.isEmpty then q
  else if p.getLast? = some '/' then p ++ q
  else p ++ '/' :: q

/-- The name of the file at the end of a path, unless the path ends with `..` or at the root. -/
def fileName? : Option Text :=
  match (components p).getLast? with
  | some (.name n) => some n
  | _ => none

/-- The extension of a file name: what follows the last dot, unless the dot is in front. -/
def extension? : Option Text :=
  match (fileName? p).bind (Text.cutLast? '.') with
  | some (_ :: _, ext) => some ext
  | _ => none

def dropExtension : Path :=
  match extension? p with
  | some ext => p.take (p.length - (ext.length + 1))
  | none => p

/-! ## Parts of a path -/

def body : List Text := if isAbsolute p then (Text.splitOn '/' p).tail else Text.splitOn '/' p

def ofBody (absolute : Bool) (pieces : List Text) : Path :=
  if absolute then '/' :: Text.join ['/'] pieces else Text.join ['/'] pieces

/-- Whether a piece is a component; a `.` is one only where a relative path starts. -/
def isSignificant (start : Bool) (piece : Text) : Bool :=
  !piece.isEmpty && (start || piece != ['.'])

/-- Drops the pieces at the end that are no components. The pieces are reversed; `relative` tells
whether the last of them starts a relative path. -/
def dropVoid (relative : Bool) : (reversed : List Text) → List Text
  | [] => []
  | piece :: rest =>
    if isSignificant (relative && rest.isEmpty) piece then piece :: rest
    else dropVoid relative rest

def parent? : Option Path :=
  let relative := !isAbsolute p
  match dropVoid relative (body p).reverse with
  | [] => none
  | _ :: rest => some (ofBody (isAbsolute p) (dropVoid relative rest).reverse)

/-- The paths above a path, at most `fuel` of them, the nearest first. -/
def aboveUpTo : (fuel : Nat) → Path → List Path
  | 0, _ => []
  | fuel + 1, p =>
    match parent? p with
    | none => []
    | some parent => parent :: aboveUpTo fuel parent

/-- The paths above a path, the nearest first; each is shorter than the one before it. -/
def above : List Path := aboveUpTo p.length p

/-- The pieces after the first `n` components; `start` tells whether they start a relative path. -/
def dropComponents : (n : Nat) → (start : Bool) → List Text → List Text
  | 0, _, pieces => pieces
  | _ + 1, _, [] => []
  | n + 1, start, piece :: pieces =>
    if isSignificant start piece then dropComponents n false pieces
    else dropComponents (n + 1) false pieces

def stripBase? (base p : Path) : Option Path :=
  let outer := components base
  if !outer.isPrefixOf (components p) then none
  else if outer.isEmpty then
    some (ofBody (isAbsolute p) (dropVoid (!isAbsolute p) (body p).reverse).reverse)
  else
    let n := if isAbsolute p then outer.length - 1 else outer.length
    let rest := (dropComponents n (!isAbsolute p) (body p)).dropWhile (!isSignificant false ·)
    some (ofBody false (dropVoid false rest.reverse).reverse)

/-- A path as shown to the user: relative to `base` if it lies below it. -/
def display (base : Option Path) (p : Path) : Text := (base.bind fun b => stripBase? b p).getD p

end Path

end PatchTriage
