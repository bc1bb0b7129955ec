import PatchTriage.Backend.Compiler
import PatchTriage.Backend.Debugger
import PatchTriage.Backend.Editor
import PatchTriage.Backend.Routing
import PatchTriage.Gate
import PatchTriage.Partition
import PatchTriage.Patch.Population
import PatchTriage.Ranking.Collection
import PatchTriage.Report
import PatchTriage.Schedule.Timeline
import PatchTriage.Settings.Sources
import PatchTriage.World.Basic

/-!
# A run

A run loads the patches, takes every one of them through the gates on the worker pool, and then
ranks and reports. `Run.account` puts every patch into the report by the outcome of its work.
-/

namespace PatchTriage

open Job

structure PatchResult where
  cls : Class
  reason : Option Text := none
  timedOut : Bool := false
  executed : Nat := 0
  cached : Nat := 0
  evidence : Option Evidence := none
  deriving DecidableEq

namespace PatchResult

def failed (cls : Class) (reason : Text) : PatchResult := { cls, reason := some reason }

def ofTimeout : Stage → PatchResult
  | .staging => late .invalidBuild "task timed out while applying or building"
  | .testing => late .incorrect "task timed out while running failing tests"
  | .gating => late .incorrect "task timed out while running test tiers"
  | .classified c => late c "task timed out while collecting ranking evidence"
where
  late (cls : Class) (reason : Text) : PatchResult := { failed cls reason with timedOut := true }

end PatchResult

namespace Run

def stage (s : Setup) (p : Patch) : PatchMode → Job Staged
  | .debugger => UnderDebugger.stage s p
  | .editor => InBinary.stage s p
  | .compiler => FromSource.stage s p

variable (s : Setup)

/-- What the ranking needs of a patch, if the patch takes part in it. The program is released. -/
def evidence? (p : Patch) (c : Classified) : Job (Option Evidence) := do
  let some program := c.program | return none
  let found ← orElseAfter program.release do
    if c.cls.isRanked && !s.config.onlyValidate then return some (← Evidence.collect s p program)
    else return none
  program.release
  return found

def validatePatch (p : Patch) : Job PatchResult := do
  let tests := s.config.testIds
  let mode ← lift (Routing.route s.config.patchMode s.config.canRecompile p)
  op (.enter p.id .staging)
  let staged ← stage s p mode
  op (.enter p.id .testing)
  let v ← Validation.run staged tests
  op (.enter p.id .gating)
  let c ← Gate.classify s p.id tests.length v
  op (.enter p.id (.classified c.cls))
  let evidence ← evidence? s p c
  return {
    cls := c.cls, reason := c.reason, timedOut := c.results.anyTimedOut
    executed := c.results.executed, cached := c.results.cached, evidence }

/-- Takes a patch through the gates; a failure on the way makes it invalid. -/
def processPatch (p : Patch) : Job PatchResult := do
  match ← attempt (validatePatch s p) with
  | .ok r => return r
  | .error f => return .failed .invalidApply f.message

/-! ## The account of a run -/

structure Account where
  records : List Record := []
  skipped : List Text := []
  timedOut : List Text := []
  executed : Nat := 0
  cached : Nat := 0
  evidence : List (Patch × Evidence) := []
  deriving DecidableEq

variable (stageOf : Text → Stage)

def resultOf (p : Patch) : Outcome PatchResult → Option PatchResult
  | .completed r => some r
  | .timedOut => some (.ofTimeout (stageOf p.id))
  | .failed message => some (.failed .invalidApply message)
  | .skipped => none

def Account.add (a : Account) (entry : Patch × Outcome PatchResult) :
    Account :=
  let (p, o) := entry
  match resultOf stageOf p o with
  | none => { a with skipped := a.skipped ++ [p.id] }
  | some r =>
    let record : Record :=
      { patchId := p.id, cls := r.cls, reason := r.reason, timedOut := r.timedOut, path := p.path
        exportName := p.exportName }
    { a with
      records := a.records ++ [record]
      timedOut := if r.timedOut then a.timedOut ++ [p.id] else a.timedOut
      executed := a.executed + r.executed
      cached := a.cached + r.cached
      evidence := a.evidence ++ (r.evidence.map fun e => (p, e)).toList }

/-- The account of all patches, in the order in which they were loaded. -/
def account (patches : List Patch) (outcomes : List (Outcome PatchResult)) :
    Account :=
  (patches.zip outcomes).foldl (Account.add stageOf) {}

/-! ## Before and after the work on the patches -/

structure Prepared where
  setup : Setup
  population : Population
  deriving DecidableEq

def unbuildable? (c : Config) (patches : List Patch) : Option Patch :=
  if Routing.canRecompile c.patchMode c.canRecompile then none
  else patches.find? (·.requiresRecompilation)

def prepare (o : Arguments.Options) : Job Prepared := do
  let c ← Config.resolve (← Sources.load o)
  let loaded ← Population.load c.patchLocation
    { limit := c.limit, perDirLimit := c.perDirLimit
      diff := { sourceFile := c.sourceFile, keepDirs := c.patchMode = .compiler } }
  let population := { loaded with patches := loaded.patches.map Partition.assign }
  if let some p := unbuildable? c population.patches then refuse (.configureSource p.id)
  let setup := Setup.ofConfig c
  ensureDir setup.layout.scripts
  return { setup, population }

def ranked (evidence : List (Patch × Evidence)) : Job (List Scored) := do
  if evidence.isEmpty then return []
  let unpatched ← Evidence.unpatchedCoverage s
  let scored ← evidence.mapM fun (p, e) => do
    return { patchId := p.id
             distances := ← checked (Distances.ofEvidence p.fragments e unpatched) : Scored }
  return Scored.rank scored

/-- Ranks the patches and writes the scores, unless the patches are only to be validated. -/
def writeRanking (evidence : List (Patch × Evidence)) : Job Nat := do
  if s.config.onlyValidate then return 0
  let order ← ranked s evidence
  Report.writeScores s.layout order
  return order.length

/-- Ranks and reports; `elapsed` is how many milliseconds the run has taken. -/
def conclude (p : Prepared) (a : Account) (counters : Counters) (elapsed : Nat) : Job Summary := do
  let layout := p.setup.layout
  Report.writeResults layout a.records
  Report.exportPatches layout a.records
  let ranked ← writeRanking p.setup a.evidence
  let issues ← Report.scanIssues layout.errors
  let summary : Summary :=
    { initial := p.population.initial, empty := p.population.empty
      unreadable := p.population.unreadable, unhandled := p.population.unhandled
      overLimit := p.population.overLimit, classes := Class.count (a.records.map (·.cls))
      timedOut := a.timedOut, skipped := a.skipped, executedTests := a.executed
      cachedTests := a.cached, ranked, durationMs := elapsed, counters, issues }
  Report.writeJson layout.summary (Report.summaryJson summary)
  Report.printSummary layout summary
  return summary

/-! ## The whole run -/

/-- The work on one patch, from a time after the start of the pool on. -/
def unitOf (host : Host) (s : Setup) (patches : Array Patch) (started : Nat) (item time : Nat)
    (w : World) : Except Breakdown PatchResult × Nat × World :=
  match patches[item]? with
  | none => (.error .other, 0, w)
  | some p =>
    let start := started + time
    let (r, after) := (processPatch s p).run host
      { w with clock := start, cancelAt := some (start + s.taskLimit) }
    let result : Except Breakdown PatchResult :=
      match r with
      | .ok r => .ok r
      | .error (.failure f) => .error (.text f.message)
      | .error (.overflow o) => .error (.text o.message.toList)
    (result, after.clock - start, { after with clock := max w.clock after.clock, cancelAt := none })

def work (host : Host) (p : Prepared) (shutdown : Bool) (w : World) :
    Pool Nat PatchResult × World :=
  let patches := p.population.patches.toArray
  Timeline.run
    { workers := p.setup.config.execMode.workers w.cores, taskTimeout := p.setup.taskLimit
      budget := p.setup.config.budget.map (· * 1000), shutdown }
    patches.size (unitOf host p.setup patches w.clock) w

def run (host : Host) (o : Arguments.Options) (shutdown : Bool) (w : World) :
    Except Stop Summary × World :=
  match (prepare o).run host w with
  | (.error e, w) => (.error e, w)
  | (.ok p, w) =>
    let (pool, after) := work host p shutdown w
    let stageOf (id : Text) : Stage := (SortedList.find? Text.compare id after.stages).getD .staging
    let a := account stageOf p.population.patches pool.outcomes
    (conclude p a pool.counters after.clock).run host after

/-! ## Showing a script -/

def shownHooks (snapshot : Bool) : Script.Hooks :=
  if snapshot then .signature "before.core" "after.core" else .none

def readPatch (path : Path) (sourceFile : Option Text) : Job Fragments := do
  let text ← explain (.readPatch path) (readText path)
  match Diff.read { sourceFile } text with
  | .parsed _ fragments => return fragments
  | .empty => refuse (.noChangedLines path)
  | .requiresRecompilation source => refuse (.onlyRecompilation path source)

def showScript (o : Arguments.Options) : Job Unit := do
  let layer ← Sources.load o
  let some path := layer.patchFile | refuse .patchFileRequired
  let fragments ← readPatch path layer.sourceFile
  op (.print (Script.render (Compiled.ofFragments fragments) (shownHooks o.snapshot)))

def command (host : Host) (c : Arguments.Command) (shutdown : Bool) (w : World) :
    Except Stop Unit × World :=
  match c with
  | .run o =>
    let (r, w) := run host o shutdown w
    (r.map fun _ => (), w)
  | .script o => (showScript o).run host w

end Run

end PatchTriage
