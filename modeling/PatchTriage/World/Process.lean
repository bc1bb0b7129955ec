import PatchTriage.World.FileTree

/-!
# Processes

How a command is run to its end or stopped on the way. The engine looks after a running command
every 25 milliseconds: if it has ended, its output is taken; else, if the work it belongs to has
been cancelled, or it has run longer than it may, it is stopped. What a command does is the host's
affair (`Host`): the host is told how long the command may run, and gives what it has done by then.
-/

namespace PatchTriage

/-! ## What a command leaves behind -/

structure Output where
  exitCode : Option Int := none
  stdout : Bytes := []
  stderr : Bytes := []
  timedOut : Bool := false
  cancelled : Bool := false
  deriving DecidableEq

namespace Output

def success (o : Output) : Bool := !o.timedOut && !o.cancelled && o.exitCode == some 0

def combinedText (o : Output) : Text := Utf8.lenient o.stdout ++ Utf8.lenient o.stderr

def excerptLength : Nat := 2048

def excerpt (o : Output) : Text := Text.truncate excerptLength (Utf8.lenient o.stderr)

def exitText (o : Output) : Text :=
  match o.exitCode with
  | some (.ofNat n) => "Some(" ++ Text.ofNat n ++ [')']
  | some (.negSucc n) => "Some(-" ++ Text.ofNat (n + 1) ++ [')']
  | none => "None"

end Output

/-! ## Commands and hosts -/

structure Invocation where
  program : Text
  args : List Text := []
  /-- Variables in addition to those of the engine; a later one counts. -/
  env : List (Text × Text) := []
  dir : Option Path := none
  deriving DecidableEq

inductive Exit where
  | code (n : Nat)
  | signal (n : Nat)
  deriving DecidableEq

structure Start where
  program : Text
  args : List Text
  env : List (Text × Text)
  cwd : Place
  allowance : Option Nat
  deriving DecidableEq

structure Ran where
  tree : FileTree
  stdout : Bytes := []
  stderr : Bytes := []
  /-- How it ended; none if it was still running when its time was up. -/
  exit : Option Exit := none
  ended : Nat := 0
  /-- The milliseconds until nothing could write to its output any more. -/
  drained : Nat := 0
  deriving DecidableEq

abbrev Host := Start → FileTree → Except IoError Ran

namespace Process

def pollInterval : Nat := 25

def pollFrom (time : Nat) : Nat := (time + pollInterval - 1) / pollInterval * pollInterval

def pollAfter (time : Nat) : Nat := (time / pollInterval + 1) * pollInterval

inductive Reason where
  | timeout
  | cancel
  deriving DecidableEq

/-- When and why a command is stopped if it is still running: `limit` is how long it may run, and
`cancel` when its work is cancelled, both counted from its start. -/
def deadline (limit cancel : Option Nat) : Option (Nat × Reason) :=
  match limit.map pollFrom, cancel.map pollFrom with
  | none, none => none
  | some l, none => some (l, .timeout)
  | none, some c => some (c, .cancel)
  | some l, some c => if c ≤ l then some (c, .cancel) else some (l, .timeout)

def exitCode : Exit → Option Int
  | .code n => some n
  | .signal _ => none

/-- What the engine sees of a command, and how many milliseconds it was busy with it. -/
def observe (stop : Option (Nat × Reason)) (r : Ran) : Output × Nat :=
  let finished (e : Exit) : Output × Nat :=
    ({ exitCode := exitCode e, stdout := r.stdout, stderr := r.stderr },
      max (pollAfter r.ended) r.drained)
  let stopped (reason : Reason) (time : Nat) : Output × Nat :=
    ({ stdout := r.stdout, stderr := r.stderr,
       timedOut := reason = .timeout, cancelled := reason = .cancel }, time)
  match stop, r.exit with
  | none, some e => finished e
  | none, none => stopped .cancel r.ended
  | some (time, reason), some e => if r.ended < time then finished e else stopped reason time
  | some (time, reason), none => stopped reason time

end Process

end PatchTriage
