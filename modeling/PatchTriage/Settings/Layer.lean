import PatchTriage.Json
import PatchTriage.Problem

/-!
# Layers of settings

Settings come from several sources, each of which sets some of them. A `Layer` holds what one source
sets; `Layer.overlay` puts one layer over another.
-/

namespace PatchTriage

/-- The settings of one source; `none` means that the source does not set it. -/
structure Layer where
  binary : Option Path := none
  sourceFile : Option Text := none
  sourceDir : Option Path := none
  outputDir : Option Path := none
  patchDir : Option Path := none
  patchFile : Option Path := none
  testIds : Option (List Text) := none
  testOracle : Option Path := none
  testSuite : Option Path := none
  pubTestScript : Option Path := none
  pvtTestScript : Option Path := none
  advTestScript : Option Path := none
  buildScript : Option Path := none
  configScript : Option Path := none
  patchCommand : Option Text := none
  patchScript : Option Path := none
  resetCommand : Option Text := none
  resetScript : Option Path := none
  patchMode : Option Text := none
  execMode : Option Text := none
  timeoutMinutes : Option Nat := none
  testTimeoutSecs : Option Nat := none
  taskTimeoutSecs : Option Nat := none
  limit : Option Nat := none
  perDirLimit : Option Nat := none
  tag : Option Text := none
  debug : Option Bool := none
  partition : Option Bool := none
  onlyValidate : Option Bool := none
  traceDistance : Option Bool := none
  pluginDir : Option Path := none
  deriving DecidableEq

def Layer.overlay (base top : Layer) : Layer where
  binary := top.binary <|> base.binary
  sourceFile := top.sourceFile <|> base.sourceFile
  sourceDir := top.sourceDir <|> base.sourceDir
  outputDir := top.outputDir <|> base.outputDir
  patchDir := top.patchDir <|> base.patchDir
  patchFile := top.patchFile <|> base.patchFile
  testIds := top.testIds <|> base.testIds
  testOracle := top.testOracle <|> base.testOracle
  testSuite := top.testSuite <|> base.testSuite
  pubTestScript := top.pubTestScript <|> base.pubTestScript
  pvtTestScript := top.pvtTestScript <|> base.pvtTestScript
  advTestScript := top.advTestScript <|> base.advTestScript
  buildScript := top.buildScript <|> base.buildScript
  configScript := top.configScript <|> base.configScript
  patchCommand := top.patchCommand <|> base.patchCommand
  patchScript := top.patchScript <|> base.patchScript
  resetCommand := top.resetCommand <|> base.resetCommand
  resetScript := top.resetScript <|> base.resetScript
  patchMode := top.patchMode <|> base.patchMode
  execMode := top.execMode <|> base.execMode
  timeoutMinutes := top.timeoutMinutes <|> base.timeoutMinutes
  testTimeoutSecs := top.testTimeoutSecs <|> base.testTimeoutSecs
  taskTimeoutSecs := top.taskTimeoutSecs <|> base.taskTimeoutSecs
  limit := top.limit <|> base.limit
  perDirLimit := top.perDirLimit <|> base.perDirLimit
  tag := top.tag <|> base.tag
  debug := top.debug <|> base.debug
  partition := top.partition <|> base.partition
  onlyValidate := top.onlyValidate <|> base.onlyValidate
  traceDistance := top.traceDistance <|> base.traceDistance
  pluginDir := top.pluginDir <|> base.pluginDir

end PatchTriage

/-!
## Lists of test ids

The ids of the tests that fail without a patch, given as a JSON array of strings and numbers.
-/

namespace PatchTriage.TestIds

def ofItem : Json → Except Failure Text
  | .string (some t) => .ok t
  | .number (some n) => .ok n.render
  | v => .error (.of (.testIdKind v.compact))

def parse (raw : Text) : Except Failure (List Text) :=
  let trimmed := Text.trim raw
  if trimmed.isEmpty then .ok []
  else
    match Json.read? (Json.parseText? trimmed) with
    | some (.array items) => items.mapM ofItem
    | _ => .error ⟨[.parseTestIds trimmed, .json]⟩

end PatchTriage.TestIds
