import PatchTriage.Problem

/-!
# Modes

How a patch is applied (`PatchMode`) and how many patches are validated at a time (`ExecMode`).
-/

namespace PatchTriage

inductive PatchMode where
  | editor
  | compiler
  | debugger
  deriving DecidableEq

namespace PatchMode

def name : PatchMode → Text
  | editor => "rewrite"
  | compiler => "compile"
  | debugger => "gdb"

def parse (value : Text) : Except Failure PatchMode :=
  let value := Text.trim value
  match [editor, compiler, debugger].find? (·.name = value) with
  | some mode => .ok mode
  | none => .error (.of (.invalidPatchMode value))

end PatchMode

inductive ExecMode where
  | sequential
  | semiParallel
  | parallel
  deriving DecidableEq

namespace ExecMode

def name : ExecMode → Text
  | sequential => "sequential"
  | semiParallel => "semi-parallel"
  | parallel => "parallel"

def number : ExecMode → Text
  | sequential => "0"
  | semiParallel => "1"
  | parallel => "2"

def parse (value : Text) : Except Failure ExecMode :=
  let value := Text.trim value
  match [sequential, semiParallel, parallel].find?
    (fun mode => mode.name = value || mode.number = value) with
  | some mode => .ok mode
  | none => .error (.of (.invalidExecMode value))

def workers (mode : ExecMode) (cores : Nat) : Nat :=
  let cores := max cores 1
  match mode with
  | sequential => 1
  | semiParallel => max (cores / 2) 1
  | parallel => cores

end ExecMode

end PatchTriage
