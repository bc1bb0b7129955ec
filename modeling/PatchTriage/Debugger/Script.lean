import PatchTriage.Debugger.Compile

/-!
# Debugger scripts

A script sets up the debugger, lists the blocks of every fragment and runs the program. Hooks add
core dumps around the edited region; a trace script logs every line executed from it on.
-/

namespace PatchTriage.Script

inductive Hooks where
  | none
  /-- Dump before the edited region runs and after it has run, then quit. -/
  | signature (before after : Path)
  | location (dump : Path)
  deriving DecidableEq

def prelude (fixedAddresses : Bool) (fragments : List Compiled) : Text :=
  ("set pagination off\nset confirm off\nset breakpoint pending on\n" : Text)
    ++ "set disable-randomization " ++ (if fixedAddresses then ("on\n" : Text) else "off\n")
    ++ (if fragments.any Compiled.isLoop then "set " ++ Compiled.initFlag ++ " = 1\n"
        else [])

def renderBlocks (blocks : List Block) : Text := (blocks.map Block.render).flatten

variable (fragments : List Compiled)

def allBlocks : List Block := (fragments.map Compiled.blocks).flatten

def Hooks.before : Hooks → List Block → List Block
  | signature before _, block :: blocks =>
    { block with commands := .dumpCore before :: block.commands } :: blocks
  | _, blocks => blocks

def Hooks.after? (target : BreakPoint) : Hooks → Option Block
  | none => Option.none
  | signature _ after =>
    some { location := target, temporary := true, commands := [.dumpCore after, .quit] }
  | location dump =>
    some { location := target, temporary := true, commands := [.dumpCore dump, .continues] }

def Hooks.fixesAddresses : Hooks → Bool
  | signature _ _ => true
  | _ => false

def render (hooks : Hooks) : Text :=
  let continuations := SortedList.distinct BreakPoint.compare (fragments.map Compiled.jumpTarget)
  prelude hooks.fixesAddresses fragments ++ renderBlocks (hooks.before (allBlocks fragments))
    ++ renderBlocks (continuations.filterMap fun target => hooks.after? target)
    ++ "run\n"

def traceBlock (start : BreakPoint) : Block where
  location := start
  temporary := true
  commands := [.raw "while 1", .raw "frame", .raw "step", .ends]

/-- The script that logs the lines executed from the fragments on, to `log`. Without
`applyPatch` the fragments only mark where logging starts. -/
def renderTrace (applyPatch : Bool) (log : Path) : Text :=
  "set logging file " ++ log
    ++ "\nset logging overwrite on\nset logging redirect on\nset logging enabled on\n"
    ++ prelude true fragments
    ++ (if applyPatch then renderBlocks (allBlocks fragments) else [])
    ++ renderBlocks (fragments.map fun c =>
      traceBlock (if applyPatch then c.jumpTarget else c.breakPoint))
    ++ "run\n"

end PatchTriage.Script
