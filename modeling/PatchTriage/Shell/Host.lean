import PatchTriage.Shell.Eval
import PatchTriage.World.Basic

/-!
# The host

A command is one of a few programs, or a script for the shell. This is the host that `Main` runs
commands on; what is proved holds for every host.
-/

namespace PatchTriage.Shell.Host

open Programs

def programDir : Place := ["usr", "bin"]

def programs : List (Text × Tool) :=
  [("dash", .sh), ("cat", .cat), ("cp", .cp), ("grep", .grep), ("mkdir", .mkdir), ("rm", .rm),
    ("sleep", .sleep), ("true", .true), ("false", .false), ("echo", .echo), ("printf", .printf),
    ("test", .test), ("[", .bracket)]

def scripts : List (Text × String) :=
  [("egrep", "exec grep -E \"$@\""), ("fgrep", "exec grep -F \"$@\""),
    ("rgrep", "exec grep -r \"$@\"")]

def scriptFile (t : String) : Node := .file (Utf8.encode ("#!/bin/sh\n" ++ t.toList ++ ['\n'])) true

def devices : List (Text × Device) :=
  [("null", .null), ("zero", .zero), ("full", .full), ("random", .random), ("urandom", .random),
    ("tty", .terminal)]

def dirs : List Place :=
  [programDir, ["usr", "local", "bin"], ["usr", "local", "sbin"], ["usr", "sbin"], ["usr", "lib"],
    ["usr", "share"], ["boot"], ["dev"], ["etc"], ["home"], ["media"], ["mnt"], ["opt"],
    descriptorDir, ["root"], ["run"], ["srv"], ["sys"], ["tmp"], ["var", "tmp"]]

def links : List (Place × Text) :=
  [(["bin"], "usr/bin"), (["lib"], "usr/lib"), (["sbin"], "usr/sbin"),
    (["usr", "bin", "sh"], "dash"), (["dev", "fd"], "/proc/self/fd"),
    (["dev", "stdin"], "/proc/self/fd/0"), (["dev", "stdout"], "/proc/self/fd/1"),
    (["dev", "stderr"], "/proc/self/fd/2")]

def tree : FileTree :=
  let t := dirs.foldl FileTree.putDir []
  let t := programs.foldl (fun t (name, tool) => t.put (programDir ++ [name]) (.tool tool)) t
  let t :=
    scripts.foldl (fun t (name, script) => t.put (programDir ++ [name]) (scriptFile script)) t
  let t := devices.foldl (fun t (name, d) => t.put ["dev", name] (.device d)) t
  links.foldl (fun t (place, target) => t.put place (.link target)) t

def modes : List (Place × Nat) := [(["root"], 448), (["tmp"], 1023), (["var", "tmp"], 1023)]

def facts : List (Place × Facts) :=
  (([], .dir) :: tree).map fun (place, n) =>
    let usual := Facts.initial n
    (place, { usual with
      mode := (modes.lookup place).getD usual.mode, isOwn := false, modified := 0 })

def searchPath : Text := "/usr/local/bin:/usr/bin:/bin"

def settings (path : Text) : List (Text × Text) :=
  [(World.searchVariable, path), ("LANG", "C.UTF-8")]

/-! ## Starting a command -/

def environment (env : List (Text × Text)) : List (Raw × Variable) :=
  env.foldl (fun vars (k, v) =>
    let entry := Raw.ofText k ++ '=' :: Raw.ofText v
    let name := entry.takeWhile (· ≠ '=')
    let value := entry.drop (name.length + 1)
    (name, { value := some value, exported := true }) :: vars.filter (·.1 ≠ name)) []

def engineId : Nat := 100

def firstId : Nat := 101

def machine (s : Start) (t : FileTree) : Machine :=
  let stream (n : Nat) : OpenFile := { channel := .engine n, readable := false }
  let files : List (Nat × OpenFile) :=
    [(1, { channel := .device .null, writable := false }), (2, stream 1), (3, stream 2)]
  let first : Process :=
    { parent := engineId, cwd := s.cwd, descriptors := [(0, 1), (1, 2), (2, 3)] }
  { tree := t, facts, files, processes := [(firstId, first)], nextNumber := firstId + 1 }

def loadFirst (m : Machine) (argv : List Raw) : (last : IoError) → (paths : List Raw) →
    Except IoError Image
  | last, [] => .error last
  | last, path :: paths =>
    match load m firstId maxInterpreters path argv with
    | .ok image => .ok image
    | .error .permissionDenied => loadFirst m argv .permissionDenied paths
    | .error e => if isMissing e then loadFirst m argv last paths else .error e

def load (s : Start) (m : Machine) : Except IoError Image :=
  let argv := (s.program :: s.args).map Raw.ofText
  let paths : List Path :=
    if '/' ∈ s.program then [s.program]
    else if s.program.isEmpty then []
    else (World.searchDirs s.env).map fun dir => Path.join dir s.program
  loadFirst m argv .notFound (paths.map Raw.ofText)

def schedule (s : Start) (m : Machine) (image : Image) : Schedule :=
  let state : State :=
    { pid := firstId, rootPid := firstId, name := image.argv.headD [], vars := environment s.env }
  let begin' : Machine → Thread := Proc.toEnd (body Eval.shell image) state
  Schedule.run (s.allowance.map (· * 1000)) Schedule.maxSteps
    { machine := m, first := firstId
      tasks := [{ pid := firstId, wait := .until 0, next := begin' }] }

def exitOf (s : Schedule) : Option Exit :=
  if s.timeUp then none else (s.machine.process? firstId).bind (·.exit)

def host : Host := fun s t => do
  let m := machine s t
  let image ← load s m
  if s.allowance = some 0 then return { tree := t }
  let after := schedule s m image
  let m := after.machine
  return { tree := m.tree, stdout := m.output 1, stderr := m.output 2, exit := exitOf after
           ended := (after.ended.getD m.now) / 1000, drained := m.now / 1000 }

end PatchTriage.Shell.Host
