import PatchTriage.Debugger.Statement
import PatchTriage.Patch.Fragment
import PatchTriage.World.Path

/-!
# Debugger commands

The commands a debugger runs when it stops at a break point, and their text.
-/

namespace PatchTriage

inductive Command where
  | setVar (lhs rhs : Text)
  | setExpr (expr : Text)
  | call (expr : Text)
  | jump (target : BreakPoint)
  | ifs (condition : Text)
  | elses
  | ends
  | continues
  | dumpCore (path : Path)
  | quit
  | raw (text : Text)
  deriving DecidableEq

namespace Command

def render : Command → Text
  | setVar lhs rhs => "set var " ++ lhs ++ '=' :: rhs
  | setExpr expr => "set var " ++ expr
  | call expr => "call " ++ expr
  | jump target => "jump " ++ target.render
  | ifs condition => "if " ++ condition
  | elses => "else"
  | ends => "end"
  | continues => "continue"
  | dumpCore path => "generate-core-file " ++ path
  | quit => "quit"
  | raw text => text

end Command

structure Block where
  location : BreakPoint
  temporary : Bool := false
  commands : List Command := []
  deriving DecidableEq

namespace Block

def render (b : Block) : Text :=
  (if b.temporary then ("tbreak " : Text) else "break ") ++ b.location.render
    ++ "\ncommands\nsilent\n"
    ++ (b.commands.map fun c => c.render ++ ['\n']).flatten
    ++ "end\n"

end Block

/-!
## Fragments as debugger commands

`Compiled.ofFragment` turns an edit into blocks of debugger commands: the program stops at the
fragment's break point, the debugger does what the inserted statements say, and execution resumes
at the continuation. A statement that transfers control itself, and a loop, leave out the final
jump. A loop with lines between its break point and its continuation gets a second block on the
last of them, where the condition is evaluated again.
-/

open Text

structure Compiled where
  breakPoint : BreakPoint
  /-- The block at the break point, then one for every loop with a body. -/
  blocks : List Block
  jumpTarget : BreakPoint
  isLoop : Bool
  deriving DecidableEq

namespace Compiled

/-- The debugger variable that lets the initialiser of a loop run once. -/
def initFlag : Text := "$valkyrie_init"

/-- The words in front of a declaration that are no part of the assignment. -/
def typeKeywords : List Text :=
  ["const", "unsigned", "signed", "register", "static", "short", "long", "int", "char",
    "size_t", "float", "double"]

def dropTypeWords : List Text → List Text
  | w :: w' :: ws => if w ∈ typeKeywords then dropTypeWords (w' :: ws) else w :: w' :: ws
  | ws => ws

def stripDeclaration (expr : Text) : Text := join [' '] (dropTypeWords (words expr))

def branch (condition : Text) (step target : BreakPoint) : List Command :=
  [.ifs condition, .jump step, .elses, .jump target, .ends]

def voidCall (expr : Text) : Command := .call ("(void)" ++ expr)

/-- The commands of an `if`. Where the branches lead to different lines the condition decides
between them; where they lead to the same line, what follows the condition is evaluated. -/
def lowerIf (header : Text) (step target : BreakPoint) : List Command :=
  let afterKeyword := (dropHead? "if" header).getD header
  if step ≠ target then branch (trim (without '{' afterKeyword)) step target
  else
    match Inserted.cutCondition? header with
    | none => branch (trim afterKeyword) step target
    | some (_, condition, rest) =>
      let rest := Statement.stripTerminators (rest.filter fun c => c ≠ '{' && c ≠ '}')
      let calls :=
        if rest.isEmpty then []
        else if Statement.hasCall rest then [voidCall rest]
        else [.call rest]
      .ifs condition :: calls ++ [.jump step, .elses, .jump target, .ends]

def lowerAssignment (text : Text) (compound : Bool) : Command :=
  if compound then .call text
  else
    match cut? '=' text with
    | none => .raw text
    | some (lhs, rhs) => .setVar ((words lhs).getLast?.getD lhs) (trim rhs)

/-- The block on the last line of a loop's body, if the body has lines. -/
def backEdge? (b target : BreakPoint) (increment : List Command) (condition : Text)
    (step : BreakPoint) : Option Block :=
  if b.line + 1 < target.line then
    some
      { location := target.withLine (target.line - 1)
        commands := increment ++ branch condition step target }
  else none

structure Step where
  commands : List Command := []
  block : Option Block := none
  transferred : Bool := false
  isLoop : Bool := false
  deriving DecidableEq

def initialise (init : Text) : List Command :=
  let parts := ((splitOn ',' init).map trim).filter fun part => !part.isEmpty
  .ifs initFlag :: parts.map (fun part => .setExpr (stripDeclaration part))
    ++ [.raw ("set " ++ initFlag ++ " = 0"), .ends]

/-- The step of one statement of the fragment at `b`, whose continuation is `target`. -/
def lower (b target : BreakPoint) : Statement → Step
  | .returns text => { commands := [.raw text, .continues], transferred := true }
  | .ifs header => { commands := lowerIf header (b.offset 1) target, transferred := true }
  | .whiles condition =>
    { commands := branch condition (b.offset 1) target
      block := backEdge? b target [] condition (b.offset 1)
      isLoop := true }
  | .fors init condition increment =>
    let guarded := '(' :: (if condition.isEmpty then ['1'] else condition) ++ [')']
    let advance := if increment.isEmpty then [] else [Command.setExpr increment]
    { commands := initialise init ++ branch guarded (b.offset 1) target
      block := backEdge? b target advance guarded (b.offset 1)
      isLoop := true }
  | .assignment text compound => { commands := [lowerAssignment text compound] }
  | .call expr => { commands := [voidCall expr] }
  | .other text =>
    let text := trim (text.filter fun c => c ∉ ['{', '}', ';'])
    if text.isEmpty then {}
    else if Statement.hasCall text then { commands := [.call text] }
    else { commands := [.raw text] }

def ofFragment (b : BreakPoint) (f : Fragment) : Compiled :=
  let target := f.continuation b
  let steps := (f.inserted.filterMap Statement.parse?).map (lower b target)
  let isLoop := steps.any Step.isLoop
  let leave := if steps.any Step.transferred || isLoop then [] else [Command.jump target]
  { breakPoint := b
    blocks :=
      { location := b, commands := (steps.map Step.commands).flatten ++ leave } ::
        steps.filterMap Step.block
    jumpTarget := target
    isLoop := isLoop }

def ofFragments (fs : Fragments) : List Compiled := fs.map fun (b, f) => ofFragment b f

end Compiled

end PatchTriage
