import PatchTriage.SortedList
import PatchTriage.Text.Basic

/-!
# Classes of patches

A patch ends in one of seven classes, in ascending order of quality.
-/

namespace PatchTriage

inductive Class where
  | invalidApply | invalidBuild | incorrect | fixFailingFailed | plausibleFix | correct
  | highQuality
  deriving DecidableEq

namespace Class

def all : List Class :=
  [invalidApply, invalidBuild, incorrect, fixFailingFailed, plausibleFix, correct, highQuality]

def rank : Class → Nat
  | invalidApply => 0
  | invalidBuild => 1
  | incorrect => 2
  | fixFailingFailed => 3
  | plausibleFix => 4
  | correct => 5
  | highQuality => 6

def label : Class → Text
  | invalidApply => "invalid-apply"
  | invalidBuild => "invalid-build"
  | incorrect => "incorrect"
  | fixFailingFailed => "fix-failing-failed"
  | plausibleFix => "plausible"
  | correct => "correct"
  | highQuality => "high-quality"

def dirName : Class → Text
  | invalidApply => "invalid"
  | invalidBuild => "invalid"
  | incorrect => "incorrect"
  | fixFailingFailed => "failure-fixing"
  | plausibleFix => "plausible"
  | correct => "correct"
  | highQuality => "high_quality"

def isRanked (c : Class) : Bool := plausibleFix.rank ≤ c.rank

def compare (a b : Class) : Ordering :=
  if a.rank < b.rank then .lt else if b.rank < a.rank then .gt else .eq

def count (classes : List Class) : List (Text × Nat) :=
  let none := SortedList.ofEntries Text.compare (all.map fun c => (c.label, 0))
  classes.foldl (fun counts c => SortedList.insertWith Text.compare (· + ·) c.label 1 counts) none

end Class

end PatchTriage
