import PatchTriage.Text.Basic

/-!
# Names made safe

`Text.pathSafe` turns any name into a single component of a path. `Text.shellQuote` writes any
text so that a shell reads it as one word.
-/

namespace PatchTriage.Text

def isPathSafe (c : Char) : Bool := c.isAlphanum || c = '-' || c = '_' || c = '.'

/-- A name with every character that a path component does not keep exchanged for `_`. -/
def pathSafe (t : Text) : Text := t.map fun c => if isPathSafe c then c else '_'

def isShellSafe (c : Char) : Bool := c.isAlphanum || c ∈ ['_', '-', '.', '/', ':', '@', '+', '=']

/-- A character between single quotes; a single quote leaves them for a moment. -/
def quoteChar (c : Char) : Text := if c = '\'' then ['\'', '"', '\'', '"', '\''] else [c]

def shellQuote (t : Text) : Text :=
  if t.isEmpty then ['\'', '\'']
  else if t.all isShellSafe then t
  else '\'' :: t.flatMap quoteChar ++ ['\'']

end PatchTriage.Text
