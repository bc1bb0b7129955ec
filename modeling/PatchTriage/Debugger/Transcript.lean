import PatchTriage.Overflow
import PatchTriage.Text.Category

/-!
# What a debugger prints

Three things are read off a debugger's output: whether it failed to resolve a name, the address of
a line, and the lines it stepped through.
-/

namespace PatchTriage.Transcript

open Text

/-- Whether the debugger complains about a symbol or a source file it does not know. -/
def hasSymbolErrors (output : Text) : Bool :=
  (lines output).any fun line => contains "No symbol" line || contains "No source" line

/-- The first hexadecimal number that follows the words `starts at address 0x`. -/
def addressDigits? : Text → Option Text
  | [] => none
  | c :: t =>
    match (dropHead? "starts at address 0x" (c :: t)).map
      (·.takeWhile fun d => (hexDigit? d).isSome) with
    | some (d :: ds) => some (d :: ds)
    | _ => addressDigits? t

def address? (output : Text) : Option Nat :=
  ((addressDigits? output).map (hexValue 0)).filter (· < Word.bound)

def locationHead? (t : Text) : Option Text :=
  let file := t.takeWhile fun c => !isBlank c && c != ':'
  match t.drop file.length with
  | ':' :: rest =>
    let line := rest.takeWhile isScriptDigit
    if file.isEmpty || line.isEmpty then none else some (file ++ ':' :: line)
  | _ => none

/-- The first location after the word `at` in a line; `inWord` tells whether a word character
stands before the text. -/
def locationFrom? (inWord : Bool) : Text → Option Text
  | [] => none
  | c :: t =>
    let found := if inWord then none else (dropHead? "at " (c :: t)).bind locationHead?
    found <|> locationFrom? (isWordChar c) t

/-- The locations that the debugger stepped through, one a line at most. -/
def trace (log : Text) : List Text := (lines log).filterMap (locationFrom? false)

end PatchTriage.Transcript
