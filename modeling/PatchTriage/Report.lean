import PatchTriage.Json
import PatchTriage.Layout
import PatchTriage.Ranking.Score
import PatchTriage.Schedule.Pool
import PatchTriage.World.Action

/-!
# Reports

What a run writes at its end: the class of every patch, a copy of every patch in the directory of
its class, the scores of the ranked patches, and an account of the run.
-/

namespace PatchTriage

structure Record where
  patchId : Text
  cls : Class
  reason : Option Text := none
  timedOut : Bool := false
  path : Path := []
  exportName : Text := []
  deriving DecidableEq

structure Issue where
  log : Text
  pattern : Text
  deriving DecidableEq

structure Summary where
  initial : Nat := 0
  empty : List Text := []
  unreadable : List Text := []
  unhandled : List Text := []
  overLimit : Nat := 0
  classes : List (Text × Nat) := []
  timedOut : List Text := []
  skipped : List Text := []
  executedTests : Nat := 0
  cachedTests : Nat := 0
  ranked : Nat := 0
  durationMs : Nat := 0
  counters : Counters := {}
  issues : List Issue := []
  deriving DecidableEq

namespace Report

def texts (ts : List Text) : Json := .array (ts.map Json.text)

def rows (records : List Record) : Json :=
  .array (records.map fun r => texts [r.patchId, r.cls.label])

def countersJson (c : Counters) : Json :=
  Json.fields [("completed", .nat c.completed), ("timed_out", .nat c.timedOut),
    ("failed", .nat c.failed),
      ("skipped", .nat c.skipped), ("budget_exhausted", .bool c.budgetExhausted),
      ("interrupted", .bool c.interrupted)]

def summaryJson (s : Summary) : Json :=
  Json.fields [("initial", .nat s.initial), ("empty", texts s.empty),
    ("unreadable", texts s.unreadable),
      ("unhandled", texts s.unhandled), ("over_limit", .nat s.overLimit),
      ("classes", Json.fields (s.classes.map fun (k, n) => (k, .nat n))),
      ("timed_out", texts s.timedOut), ("skipped", texts s.skipped),
      ("executed_tests", .nat s.executedTests), ("cached_tests", .nat s.cachedTests),
      ("ranked", .nat s.ranked), ("duration_ms", .nat s.durationMs),
      ("scheduler", countersJson s.counters),
      ("possible_issues", .array (s.issues.map fun i =>
          Json.fields [("log", .text i.log), ("pattern", .text i.pattern)]))]

def writeJson (p : Path) (v : Json) : Job Unit := do
  if let some parent := Path.parent? p then Job.ensureDir parent
  Job.writeText p v.pretty

variable (l : Layout)

def writeResults (records : List Record) : Job Unit := writeJson l.result (rows records)

def exportPatches (records : List Record) : Job Unit := do
  for c in Class.all do Job.ensureDir (l.classDir c.dirName)
  for r in records do
    let target := Path.join (l.classDir r.cls.dirName) r.exportName
    Job.explain (.copy r.path target) (do Job.reply (← Job.op (.copy r.path target)))

def writeScores (ranked : List Scored) : Job Unit := Job.writeText l.score (Scored.render ranked)

def issuePatterns : List Text := ["syntax error", "Undefined command", "has unknown return type"]

def issuesIn (log text : Text) : List Issue :=
  (issuePatterns.filter fun pattern => Text.contains pattern text).map fun pattern =>
    { log, pattern }

def scanIssues (dir : Path) : Job (List Issue) := do
  match ← Job.op (.list dir) with
  | .error _ => return []
  | .ok entries =>
    let logs := (entries.map fun (name, _) => Path.join dir name).filter fun p =>
      Path.extension? p = some ("err" : Text)
    let found ← (SortedList.sort Path.compare logs).mapM fun log => do
      match ← Job.attempt (Job.readText log) with
      | .ok text => return issuesIn (Path.display (some dir) log) text
      | .error _ => return []
    return found.flatten

def summaryLines (s : Summary) : List Text :=
  let n (k : Nat) : Text := Text.ofNat k
  [("output: " : Text) ++ l.root,
    ("patches: " : Text) ++ n s.initial ++ (" (empty " : Text) ++ n s.empty.length
      ++ (", unreadable " : Text) ++ n s.unreadable.length ++ (", unhandled " : Text)
      ++ n s.unhandled.length ++ (", over limit " : Text) ++ n s.overLimit ++ [')']]
    ++ Class.all.map (fun c =>
      ("  " : Text) ++ c.label ++ (": " : Text)
        ++ n ((SortedList.find? Text.compare c.label s.classes).getD 0))
    ++ [("tests: " : Text) ++ n s.executedTests ++ (" executed, " : Text) ++ n s.cachedTests
      ++ (" cached" : Text)]
    ++ (if s.timedOut.isEmpty then [] else [("timed out: " : Text) ++ Text.join ", " s.timedOut])
    ++ (if s.skipped.isEmpty then [] else [("skipped: " : Text) ++ n s.skipped.length])
    ++ [("ranked: " : Text) ++ n s.ranked]
    ++ (if s.issues.isEmpty then []
        else
          ("possible issues:" : Text)
            :: s.issues.map fun i => ("  - " : Text) ++ i.log ++ (": " : Text) ++ i.pattern)
    ++ [("duration: " : Text) ++ seconds s.durationMs]
where
  seconds (ms : Nat) : Text :=
    let tenths := (ms + 50) / 100
    Text.ofNat (tenths / 10) ++ '.' :: Text.ofNat (tenths % 10) ++ ['s']

def printSummary (s : Summary) : Job Unit :=
  Job.op (.print ((summaryLines l s).flatMap (· ++ ['\n'])))

end Report

end PatchTriage
