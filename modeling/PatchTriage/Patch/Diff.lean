import PatchTriage.Patch.Fragment
import PatchTriage.Patch.Inserted

/-!
# Reading a diff

`Diff.read` goes through the lines of a unified diff and collects the edits by break point. Three
outcomes are possible: edits, no change at all, or an edit that adds a dependency, which only a
compiler can realise.

A file header is a line beginning with `--- ` directly before one beginning with `+++ `; it names
the source file of the hunks below it. A hunk begins at a line with `@@`, and its break point is
the first line of the old range. Lines beginning with `+` and `-` are edits of the open hunk.
-/

namespace PatchTriage.Diff

open Text

structure Options where
  sourceFile : Option Text := none
  keepDirs : Bool := false
  deriving DecidableEq

inductive Outcome where
  | parsed (sourceFile : Text) (fragments : Fragments)
  | empty
  | requiresRecompilation (sourceFile : Text)
  deriving DecidableEq

structure State where
  firstSource : Option Text := none
  /-- The source file of the last file header since a `diff --git` line. -/
  current : Option Text := none
  fragments : Fragments := []
  hunk : Option (BreakPoint × Fragment) := none
  deriving DecidableEq

/-! ## Headers -/

def isFileHeader (line : Text) (next : Option Text) : Bool :=
  startsWith "--- " line && (next.map (startsWith "+++ ")).getD false

/-- The name in a file header line that begins with `mark`, up to a tab. -/
def headerName (mark line : Text) : Text := trim (before '\t' ((dropHead? mark line).getD line))

def dropFirstOf : (heads : List Text) → Text → Text
  | [], t => t
  | head :: heads, t => (dropHead? head t).getD (dropFirstOf heads t)

/-- The source file that a header name stands for: without the comparison's own directories,
without the other directories unless they are kept, and without backup marks. -/
def sourceName (keepDirs : Bool) (name : Text) : Text :=
  let path := dropFirstOf ["a/src/", "b/src/", "a/", "b/"] name
  replace "_bk" [] (if keepDirs then path else afterLast '/' path)

/-- The source file of a file header: the old name, or the new one for an added file. -/
def headerSource (opts : Options) (old new : Text) : Text :=
  match opts.sourceFile with
  | some source => source
  | none =>
    let oldName := headerName "--- " old
    sourceName opts.keepDirs
      (if oldName = "/dev/null" then headerName "+++ " new else oldName)

def hunkStart? (header : Text) : Option Nat := do
  let range ← (words header).find? (startsWith "-")
  let start ← readBelow? (BreakPoint.maxLine + 1) (before ',' (range.dropWhile (· = '-')))
  return max start 1

/-! ## Edits -/

def addsDependency (content : Text) : Bool :=
  contains "#include" content || startsWith "import " (trimStart content)

def jumpMark? (content : Text) : Option Nat := do
  let (_, rest) ← breakOn? "/* jump:" content
  readBelow? (BreakPoint.maxLine + 1) ((trimStart rest).takeWhile Char.isDigit)

def edit (f : Fragment) : (line : Text) → Fragment
  | '+' :: content => { f with inserted := f.inserted ++ Inserted.split content }
  | '-' :: content =>
    { f with
      removed := f.removed ++ [content]
      jumpLine := jumpMark? content <|> f.jumpLine }
  | _ => f

def isDependency : (line : Text) → Bool
  | '+' :: content => !Text.startsWith "+++ " ('+' :: content) && addsDependency content
  | _ => false

namespace State

def close (s : State) : State :=
  match s.hunk with
  | none => s
  | some (b, f) =>
    { s with
      hunk := none
      fragments := if f.isEmpty then s.fragments else Fragments.add b f s.fragments }

def source (opts : Options) (s : State) : Text := (s.firstSource <|> opts.sourceFile).getD []

def openHunk (opts : Options) (header : Text) (s : State) : State :=
  let s := s.close
  { s with
    hunk :=
      (hunkStart? header).map fun start => (⟨(s.current <|> opts.sourceFile).getD [], start⟩, {}) }

def enterFile (name : Text) (s : State) : State :=
  { s.close with firstSource := s.firstSource <|> some name, current := some name }

def leaveFile (s : State) : State := { s.close with current := none }

def editHunk (line : Text) (s : State) : State :=
  { s with hunk := s.hunk.map fun (b, f) => (b, edit f line) }

def outcome (opts : Options) (s : State) : Outcome :=
  let s := s.close
  if s.fragments.isEmpty then .empty else .parsed (s.source opts) s.fragments

end State

def readLines (opts : Options) : List Text → State → Outcome
  | [], s => s.outcome opts
  | line :: lines, s =>
    if startsWith "diff --git" line then readLines opts lines s.leaveFile
    else
      match isFileHeader line lines.head?, lines with
      | true, next :: lines => readLines opts lines (s.enterFile (headerSource opts line next))
      | _, lines =>
        if startsWith "@@" line then readLines opts lines (s.openHunk opts line)
        else if isDependency line then .requiresRecompilation (s.source opts)
        else readLines opts lines (s.editHunk line)

def read (opts : Options) (text : Text) : Outcome := readLines opts (lines text) {}

end PatchTriage.Diff
