import PatchTriage.Patch.Basic
import PatchTriage.Ranking.Coverage
import PatchTriage.Ranking.Distance

/-!
# Scores

A patch is scored by how far its program is from the unpatched one: by the lines it executes, by
the edges it takes, and by the size of the edit. Patches are ranked by these distances in this
order, the nearest first.
-/

namespace PatchTriage

structure Distances where
  trace : Measure
  coverage : Measure
  edit : Nat
  deriving DecidableEq

def Distances.compare (a b : Distances) : Ordering :=
  ((a.trace.compare b.trace).then (a.coverage.compare b.coverage)).then
    (if a.edit < b.edit then .lt else if b.edit < a.edit then .gt else .eq)

structure Scored where
  patchId : Text
  distances : Distances
  deriving DecidableEq

structure Evidence where
  coverage : List (Text × Coverage) := []
  traces : List (Text × (List Text × List Text)) := []
  deriving DecidableEq

namespace Distances

/-- The coverage distances of the tests that both programs have coverage for. -/
def coverageDistances (unpatched : List (Text × Coverage)) :
    List (Text × Coverage) → Except Overflow (List Measure)
  | [] => .ok []
  | (test, patched) :: rest =>
    match SortedList.find? Text.compare test unpatched with
    | none => coverageDistances unpatched rest
    | some baseline => do
      let d ← Coverage.distance patched baseline
      return .ofFloat (Float.ofNat d) :: (← coverageDistances unpatched rest)

/-- The distances of a patch, given the coverage of the unpatched program. -/
def ofEvidence (fragments : Fragments) (evidence : Evidence) (unpatched : List (Text × Coverage)) :
    Except Overflow Distances := do
  let coverage ← coverageDistances unpatched evidence.coverage
  let traces := evidence.traces.map fun (_, patched, plain) => Distance.traces patched plain
  return {
    trace := Measure.mean traces
    coverage := Measure.mean coverage
    edit := Distance.edits fragments.removedText fragments.insertedText }

end Distances

namespace Scored

/-- The patches in the order of their distances; equal ones keep the order they had. -/
def rank (patches : List Scored) : List Scored :=
  SortedList.sort (fun a b => a.distances.compare b.distances) patches

def render (patches : List Scored) : Text :=
  patches.flatMap fun p =>
    p.patchId ++ ' ' :: p.distances.trace.render ++ ' ' :: p.distances.coverage.render
      ++ ' ' :: Text.ofNat p.distances.edit ++ ['\n']

end Scored

end PatchTriage
