import PatchTriage.Digest.Sha256
import PatchTriage.Patch.Basic
import PatchTriage.Text.Lowercase

/-!
# Partitions

Patches that edit the same break points form a partition and share recorded verdicts. A partition
is named by its break points, so that the name serves as a directory name; a long name is replaced
by a digest.
-/

namespace PatchTriage.Partition

def maxNameLength : Nat := 200

def pointName (b : BreakPoint) : Text :=
  Text.lowercase (Text.replace ":" "_" (Text.without '/' b.render))

def joined (points : List BreakPoint) : Text :=
  Text.join "__" ((SortedList.distinct BreakPoint.compare points).map pointName)

/-- The name of the partition of the patches that edit exactly these break points. -/
def name (points : List BreakPoint) : Text :=
  let long := joined points
  if maxNameLength < Text.byteLength long then 'h' :: (Sha256.hex (Utf8.encode long)).take 32
  else if long.isEmpty then "no-location"
  else long

def assign (p : Patch) : Patch := { p with partition := some (name p.fragments.breakPoints) }

def groups (patches : List Patch) : List (Text × List Text) :=
  patches.foldl (fun gs p =>
      SortedList.insertWith Text.compare (· ++ ·) (name p.fragments.breakPoints) [p.id] gs) []

end PatchTriage.Partition
