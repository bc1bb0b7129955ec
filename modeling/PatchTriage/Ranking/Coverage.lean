import PatchTriage.Overflow
import PatchTriage.SortedList
import PatchTriage.Text.Basic

/-!
# Edge coverage

How often a run takes each edge of the program. A coverage report has a line `edge:count` for every
edge; other lines do not count. The distance of two coverages is the sum of the differences of
their counts, where an edge that is missing has the count zero.
-/

namespace PatchTriage

abbrev Coverage := List (Text × Nat)

namespace Coverage

def parseLine? (line : Text) : Option (Text × Nat) := do
  let (edge, count) ← Text.cut? ':' (Text.trim line)
  let n ← Text.readBelow? Word.bound (Text.trim count)
  return (Text.trim edge, n)

/-- The coverage of a report; of two lines for one edge the later counts. -/
def parse (text : Text) : Coverage :=
  SortedList.ofEntries Text.compare ((Text.lines text).filterMap parseLine?)

def count (c : Coverage) (edge : Text) : Nat := (SortedList.find? Text.compare edge c).getD 0

def edges (a b : Coverage) : List Text :=
  SortedList.distinct Text.compare (a.map Prod.fst ++ b.map Prod.fst)

def gap (m n : Nat) : Nat := if m ≤ n then n - m else m - n

def distance (a b : Coverage) : Except Overflow Nat :=
  (edges a b).foldlM (fun sum edge => Word.add sum (gap (count a edge) (count b edge))) 0

end Coverage

end PatchTriage
