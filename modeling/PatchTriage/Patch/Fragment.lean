import PatchTriage.SortedList
import PatchTriage.Text.Basic

/-!
# Break points and fragments

A break point is a line of a source file: the place where a debugger stops the program. Line
numbers are 32-bit, and moving past the last one stays there.
-/

namespace PatchTriage

structure BreakPoint where
  file : Text
  line : Nat
  deriving DecidableEq

namespace BreakPoint

def maxLine : Nat := 4294967295

def offset (b : BreakPoint) (delta : Nat) : BreakPoint :=
  { b with line := min (b.line + delta) maxLine }

def withLine (b : BreakPoint) (line : Nat) : BreakPoint := { b with line := line }

def render (b : BreakPoint) : Text := b.file ++ ':' :: Text.ofNat b.line

def compare (a b : BreakPoint) : Ordering :=
  (Text.compare a.file b.file).then
    (if a.line < b.line then .lt else if b.line < a.line then .gt else .eq)

end BreakPoint

/-!
## Fragments

A fragment is the edit a patch makes at one break point: the lines it inserts and the lines it
removes. After the inserted lines have run, execution resumes at `Fragment.continuation`. A patch
holds at most one fragment a break point, in the order of break points (`Fragments`).
-/

structure Fragment where
  inserted : List Text := []
  removed : List Text := []
  jumpLine : Option Nat := none
  deriving DecidableEq

namespace Fragment

def isEmpty (f : Fragment) : Bool := f.inserted.isEmpty && f.removed.isEmpty

/-- Where execution resumes after the fragment at `b`: the line the edit names, else past the
removed lines, and at least one line on. -/
def continuation (f : Fragment) (b : BreakPoint) : BreakPoint :=
  match f.jumpLine with
  | some line => b.withLine line
  | none => b.offset (min (max f.removed.length 1) BreakPoint.maxLine)

/-- Two edits at one break point, one after the other; the first named line counts. -/
def merge (f g : Fragment) : Fragment where
  inserted := f.inserted ++ g.inserted
  removed := f.removed ++ g.removed
  jumpLine := f.jumpLine <|> g.jumpLine

/-- The lines as one text, without tabs and line feeds and the white space around it. -/
def editText (lines : List Text) : Text :=
  Text.trim (lines.flatten.filter fun c => c ≠ '\t' && c ≠ '\n')

def removedText (f : Fragment) : Text := editText f.removed

def insertedText (f : Fragment) : Text := editText f.inserted

end Fragment

/-- The fragments of a patch, in ascending order of their break points. -/
abbrev Fragments := List (BreakPoint × Fragment)

namespace Fragments

def add (b : BreakPoint) (f : Fragment) (fs : Fragments) : Fragments :=
  SortedList.insertWith BreakPoint.compare Fragment.merge b f fs

def breakPoints (fs : Fragments) : List BreakPoint := fs.map Prod.fst

def removedText (fs : Fragments) : Text := (fs.map fun e => e.2.removedText).flatten

def insertedText (fs : Fragments) : Text := (fs.map fun e => e.2.insertedText).flatten

end Fragments

end PatchTriage
