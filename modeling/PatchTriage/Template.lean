import PatchTriage.Problem

/-!
# Command templates

A configured command is a line of words, quoted as for a shell, in which `PATCH_FILE` stands for the
path of the patch. `Template.split` cuts the line into words: blanks divide them, quotes and
backslashes protect characters, and a word beginning with `#` starts a comment.
-/

namespace PatchTriage.Template

inductive State where
  | between | betweenBackslash | plain | plainBackslash | single | double | doubleBackslash
  | comment
  deriving DecidableEq

def isDelimiter (c : Char) : Bool := c = ' ' || c = '\t' || c = '\n'

/-- What one character does: the state after it, the characters it adds to the word begun, and
whether that word is complete. -/
def step : State → Char → State × Text × Bool
  | .between, c =>
    if c = '\'' then (.single, [], false)
    else if c = '"' then (.double, [], false)
    else if c = '\\' then (.betweenBackslash, [], false)
    else if isDelimiter c then (.between, [], false)
    else if c = '#' then (.comment, [], false)
    else (.plain, [c], false)
  | .betweenBackslash, c => if c = '\n' then (.between, [], false) else (.plain, [c], false)
  | .plain, c =>
    if c = '\'' then (.single, [], false)
    else if c = '"' then (.double, [], false)
    else if c = '\\' then (.plainBackslash, [], false)
    else if isDelimiter c then (.between, [], true)
    else (.plain, [c], false)
  | .plainBackslash, c => if c = '\n' then (.plain, [], false) else (.plain, [c], false)
  | .single, c => if c = '\'' then (.plain, [], false) else (.single, [c], false)
  | .double, c =>
    if c = '"' then (.plain, [], false)
    else if c = '\\' then (.doubleBackslash, [], false)
    else (.double, [c], false)
  | .doubleBackslash, c =>
    if c = '\n' then (.double, [], false)
    else if c ∈ ['$', '\x60', '"', '\\'] then (.double, [c], false)
    else (.double, ['\\', c], false)
  | .comment, c => if c = '\n' then (.between, [], false) else (.comment, [], false)

/-- What the end of the line does to the word begun: no word, a word, or a quote left open. -/
def finish (word : Text) : State → Option (List Text)
  | .between | .comment => some []
  | .betweenBackslash | .plainBackslash => some [word ++ ['\\']]
  | .plain => some [word]
  | .single | .double | .doubleBackslash => none

/-- The words of the rest of a line, the first of which continues `word`. -/
def splitFrom (state : State) (word : Text) : Text → Option (List Text)
  | [] => finish word state
  | c :: t =>
    match step state c with
    | (next, added, true) => (splitFrom next [] t).map fun words => (word ++ added) :: words
    | (next, added, false) => splitFrom next (word ++ added) t

def split (line : Text) : Option (List Text) := splitFrom .between [] line

def placeholder : Text := "PATCH_FILE"

def instantiate (template : Text) (patchFile : Path) : Except Failure (Text × List Text) :=
  match split template with
  | none => .error ⟨[.parseCommand template, .unclosedQuote]⟩
  | some words =>
    match words.map (Text.replace placeholder patchFile) with
    | [] => .error (.of .emptyTemplate)
    | program :: args => .ok (program, args)

end PatchTriage.Template
