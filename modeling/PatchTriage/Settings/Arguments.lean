import PatchTriage.Settings.Layer

/-!
# Command line arguments

The command line names a command, `run` or `script`, and then options. An option `--name` takes the
next argument as its value, or what follows an equals sign; a flag takes none. Each may be given
once. A value is checked when the next option is met, or the end, so an unknown option in between
is reported first.
-/

namespace PatchTriage.Arguments

/-- Why a command line is refused, or shows a text instead of running. -/
inductive Refusal where
  | unknownArgument | invalidSubcommand | argumentConflict | valueValidation | invalidValue
  | tooManyValues | displayHelp | displayVersion | nothingGiven
  deriving DecidableEq

def Refusal.name : Refusal → Text
  | unknownArgument => "UnknownArgument"
  | invalidSubcommand => "InvalidSubcommand"
  | argumentConflict => "ArgumentConflict"
  | valueValidation => "ValueValidation"
  | invalidValue => "InvalidValue"
  | tooManyValues => "TooManyValues"
  | displayHelp => "DisplayHelp"
  | displayVersion => "DisplayVersion"
  | nothingGiven => "DisplayHelpOnMissingArgumentOrSubcommand"

structure Options where
  conf : Option Path := none
  metadata : Option Path := none
  testIdList : Option Text := none
  layer : Layer := {}
  snapshot : Bool := false
  deriving DecidableEq

inductive Command where
  | run (options : Options)
  | script (options : Options)
  deriving DecidableEq

inductive Kind where
  | path (set : Options → Path → Options)
  | text (set : Options → Text → Options)
  | number (set : Options → Nat → Options)
  | flag (set : Options → Options)

structure Spec where
  name : Text
  kind : Kind

def sharedSpecs : List Spec :=
  [⟨"conf", .path fun o v => { o with conf := some v }⟩,
    ⟨"meta", .path fun o v => { o with metadata := some v }⟩,
    ⟨"binary", .path fun o v => { o with layer.binary := some v }⟩,
    ⟨"source-file", .text fun o v => { o with layer.sourceFile := some v }⟩,
    ⟨"source-dir", .path fun o v => { o with layer.sourceDir := some v }⟩,
    ⟨"output-dir", .path fun o v => { o with layer.outputDir := some v }⟩,
    ⟨"patch-dir", .path fun o v => { o with layer.patchDir := some v }⟩,
    ⟨"patch-file", .path fun o v => { o with layer.patchFile := some v }⟩,
    ⟨"test-id-list", .text fun o v => { o with testIdList := some v }⟩,
    ⟨"test-oracle", .path fun o v => { o with layer.testOracle := some v }⟩,
    ⟨"test-suite", .path fun o v => { o with layer.testSuite := some v }⟩,
    ⟨"patch-mode", .text fun o v => { o with layer.patchMode := some v }⟩,
    ⟨"exec-mode", .text fun o v => { o with layer.execMode := some v }⟩,
    ⟨"tag", .text fun o v => { o with layer.tag := some v }⟩,
    ⟨"debug", .flag fun o => { o with layer.debug := some true }⟩]

def runSpecs : List Spec :=
  sharedSpecs ++ [⟨"timeout", .number fun o v => { o with layer.timeoutMinutes := some v }⟩,
      ⟨"test-timeout", .number fun o v => { o with layer.testTimeoutSecs := some v }⟩,
      ⟨"task-timeout", .number fun o v => { o with layer.taskTimeoutSecs := some v }⟩,
      ⟨"limit", .number fun o v => { o with layer.limit := some v }⟩,
      ⟨"patch-per-dir-limit", .number fun o v => { o with layer.perDirLimit := some v }⟩,
      ⟨"partition", .flag fun o => { o with layer.partition := some true }⟩,
      ⟨"only-validate", .flag fun o => { o with layer.onlyValidate := some true }⟩,
      ⟨"trace-distance", .flag fun o => { o with layer.traceDistance := some true }⟩]

def scriptSpecs : List Spec :=
  sharedSpecs ++ [⟨"snapshot", .flag fun o => { o with snapshot := true }⟩]

structure State where
  options : Options := {}
  seen : List Text := []
  /-- The last option, if its value has not been checked, with the value. -/
  pending : Option (Spec × Option Text) := none

namespace State

def note (s : State) (name : Text) : Except Refusal State :=
  if name ∈ s.seen then .error .argumentConflict else .ok { s with seen := name :: s.seen }

def take (s : State) (spec : Spec) (value : Text) : Except Refusal State := do
  let s ← s.note spec.name
  match spec.kind with
  | .path set =>
    if value.isEmpty then throw .invalidValue
    return { s with options := set s.options value }
  | .text set => return { s with options := set s.options value }
  | .number set =>
    match Text.readBelow? Word.bound value with
    | some n => return { s with options := set s.options n }
    | none => throw .valueValidation
  | .flag set => return { s with options := set s.options }

def settle (s : State) : Except Refusal State :=
  match s.pending with
  | none => .ok s
  | some (_, none) => .error .invalidValue
  | some (spec, some value) => take { s with pending := none } spec value

def option (s : State) (spec : Spec) (attached : Option Text) : Except Refusal State := do
  match spec.kind, attached with
  | .flag _, some _ => throw .tooManyValues
  | .flag _, none => (← s.settle).take spec []
  | _, some value => (← s.settle).take spec value
  | _, none => return { ← s.settle with pending := some (spec, none) }

end State

inductive Shape where
  | escape
  | long (name : Text) (value : Option Text)
  | short (letter : Char)
  | word
  deriving DecidableEq

def shape : Text → Shape
  | ['-', '-'] => .escape
  | '-' :: '-' :: t =>
    match Text.cut? '=' t with
    | some (name, value) => .long name (some value)
    | none => .long t none
  | '-' :: c :: _ => .short c
  | _ => .word

def readOptions (specs : List Spec) (s : State) : List Text → Except Refusal State
  | [] => s.settle
  | arg :: args =>
    match shape arg with
    | .escape =>
      -- Nothing may follow, since no command takes words.
      if args.isEmpty then s.settle else .error .unknownArgument
    | .long name value =>
      if name = ("help" : Text) then
        match value with
        | some _ => .error .tooManyValues
        | none => s.settle.bind fun _ => .error .displayHelp
      else
        match specs.find? (·.name = name) with
        | none => .error .unknownArgument
        | some spec =>
          match s.option spec value with
          | .ok s => readOptions specs s args
          | .error r => .error r
    | .short letter =>
      if letter = 'h' then s.settle.bind fun _ => .error .displayHelp
      else .error .unknownArgument
    | .word =>
      match s.pending with
      | some (spec, none) => readOptions specs { s with pending := some (spec, some arg) } args
      | _ => .error .unknownArgument

/-- The options of a command; a directory and a file of patches exclude each other. -/
def optionsOf (specs : List Spec) (args : List Text) : Except Refusal Options := do
  let s ← readOptions specs {} args
  if ("patch-dir" : Text) ∈ s.seen ∧ ("patch-file" : Text) ∈ s.seen then throw .argumentConflict
  return s.options

def commandNames : List Text := ["run", "script", "help"]

def parse : List Text → Except Refusal Command
  | [] => .error .nothingGiven
  | arg :: args =>
    match shape arg with
    | .escape =>
      match args with
      | [] => .error .nothingGiven
      | word :: _ => .error (if word ∈ commandNames then .unknownArgument else .invalidSubcommand)
    | .long name value =>
      if name = ("help" : Text) || name = ("version" : Text) then
        match value with
        | some _ => .error .tooManyValues
        | none => .error (if name = ("help" : Text) then .displayHelp else .displayVersion)
      else .error .unknownArgument
    | .short letter =>
      .error (if letter = 'h' then .displayHelp else if letter = 'V' then .displayVersion
          else .unknownArgument)
    | .word =>
      if arg = ("run" : Text) then (optionsOf runSpecs args).map .run
      else if arg = ("script" : Text) then (optionsOf scriptSpecs args).map .script
      else if arg = ("help" : Text) then
        match args with
        | [] => .error .displayHelp
        | [word] => .error (if word ∈ commandNames then .displayHelp else .invalidSubcommand)
        | _ => .error .invalidSubcommand
      else .error .invalidSubcommand

def Options.toLayer (o : Options) : Except Failure Layer :=
  match o.testIdList with
  | none => .ok o.layer
  | some raw => (TestIds.parse raw).map fun ids => { o.layer with testIds := some ids }

end PatchTriage.Arguments
