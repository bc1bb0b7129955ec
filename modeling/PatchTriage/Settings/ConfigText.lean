import PatchTriage.Settings.Layer

/-!
# Settings files

A settings file has a line `key:value` for every setting. Blank lines, and lines beginning with `#`,
do not count. A later line takes the place of an earlier one for the same setting.
-/

namespace PatchTriage.ConfigText

/-- How the value of a setting, known by its key, is read and set in a layer. -/
def Setter : Type := (key value : Text) → Except Failure (Layer → Layer)

def yesWords : List Text := ["1", "true", "yes", "on"]

def noWords : List Text := ["0", "false", "no", "off"]

def parseBool (key value : Text) : Except Failure Bool :=
  let value := value.map Char.toLower
  if value ∈ yesWords then .ok true
  else if value ∈ noWords then .ok false
  else .error (.of (.notBoolean key value))

def parseNumber (key value : Text) : Except Failure Nat :=
  match Text.readBelow? Word.bound value with
  | some n => .ok n
  | none => .error (.of (.notNumber key value))

variable {α : Type}

def reading (read : Text → Text → Except Failure α) (set : α → Layer → Layer) : Setter :=
  fun key value => (read key value).map set

def text : (Text → Layer → Layer) → Setter := reading fun _ value => .ok value

def testIds : (List Text → Layer → Layer) → Setter := reading fun _ value => TestIds.parse value

def number : (Nat → Layer → Layer) → Setter := reading parseNumber

def switch : (Bool → Layer → Layer) → Setter := reading parseBool

def setters : List (Text × Setter) :=
  [("binary", text fun v l => { l with binary := some v }),
    ("source_file", text fun v l => { l with sourceFile := some v }),
    ("source_dir", text fun v l => { l with sourceDir := some v }),
    ("output_dir", text fun v l => { l with outputDir := some v }),
    ("patch_dir", text fun v l => { l with patchDir := some v }),
    ("patch_file", text fun v l => { l with patchFile := some v }),
    ("test_id_list", testIds fun v l => { l with testIds := some v }),
    ("test_oracle", text fun v l => { l with testOracle := some v }),
    ("test_suite", text fun v l => { l with testSuite := some v }),
    ("pub_test_script", text fun v l => { l with pubTestScript := some v }),
    ("pvt_test_script", text fun v l => { l with pvtTestScript := some v }),
    ("adv_test_script", text fun v l => { l with advTestScript := some v }),
    ("build_script", text fun v l => { l with buildScript := some v }),
    ("config_script", text fun v l => { l with configScript := some v }),
    ("patch_command", text fun v l => { l with patchCommand := some v }),
    ("patch_script", text fun v l => { l with patchScript := some v }),
    ("reset_command", text fun v l => { l with resetCommand := some v }),
    ("reset_script", text fun v l => { l with resetScript := some v }),
    ("patch_mode", text fun v l => { l with patchMode := some v }),
    ("exec_mode", text fun v l => { l with execMode := some v }),
    ("timeout", number fun v l => { l with timeoutMinutes := some v }),
    ("test_timeout", number fun v l => { l with testTimeoutSecs := some v }),
    ("task_timeout", number fun v l => { l with taskTimeoutSecs := some v }),
    ("limit", number fun v l => { l with limit := some v }),
    ("patch_limit", number fun v l => { l with limit := some v }),
    ("patch_per_dir_limit", number fun v l => { l with perDirLimit := some v }),
    ("tag", text fun v l => { l with tag := some v }),
    ("debug", switch fun v l => { l with debug := some v }),
    ("partition", switch fun v l => { l with partition := some v }),
    ("only_validate", switch fun v l => { l with onlyValidate := some v }),
    ("trace_distance", switch fun v l => { l with traceDistance := some v }),
    ("e9_plugin_dir", text fun v l => { l with pluginDir := some v })]

/-- What a line does to the layer of the lines before it. -/
def parseLine (number : Nat) (line : Text) : Except Failure (Layer → Layer) :=
  let line := Text.trim line
  if line.isEmpty || Text.startsWith "#" line then .ok id
  else
    match Text.cut? ':' line with
    | none => .error (.of (.noKeyValue number line))
    | some (key, value) =>
      let key := Text.trim key
      match setters.lookup key with
      | some set => set key (Text.trim value)
      | none => .error (.of (.unknownKey number key))

/-- What the lines from the given number on set, over the layer before them. -/
def parseLines (number : Nat) (layer : Layer) : List Text → Except Failure Layer
  | [] => .ok layer
  | line :: lines =>
    match parseLine number line with
    | .ok set => parseLines (number + 1) (set layer) lines
    | .error f => .error f

def parse (text : Text) : Except Failure Layer := parseLines 1 {} (Text.lines text)

end PatchTriage.ConfigText
