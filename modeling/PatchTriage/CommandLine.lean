import PatchTriage.Text.Quoting
import PatchTriage.World.Path

/-!
# Command lines as text

The form in which commands are shown and put into wrapper scripts: every word quoted for a shell.
-/

namespace PatchTriage.CommandLine

/-- A word of a command as it is shown. One that holds a NUL cannot be passed to a program, and
only that is said of it. -/
def shown (word : Text) : Text := if '\x00' ∈ word then "<string-with-nul>" else word

def render (program : Text) (args : List Text) : Text :=
  Text.join [' '] ((program :: args).map fun word => Text.shellQuote (shown word))

/-- The command that runs `binary` under a debugger script; arguments may follow. -/
def debugger (script binary : Path) : Text :=
  "gdb -return-child-result -batch-silent -x " ++ Text.shellQuote script
    ++ " --args " ++ Text.shellQuote binary

def edgeMap (map : Path) (inner : Text) : Text :=
  "afl-showmap -q -o " ++ Text.shellQuote map ++ " -- " ++ inner

/-- A script that runs a command line with its own arguments appended. -/
def wrapper (commandLine : Text) : Text := "#!/bin/sh\nexec " ++ commandLine ++ " \"$@\"\n"

end PatchTriage.CommandLine
