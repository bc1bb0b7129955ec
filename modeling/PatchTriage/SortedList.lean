/-!
# Lists kept in order

Small maps and sets are lists kept in ascending order of their keys. The order is given by a
comparison function, so that the same operations serve every kind of key.
-/

namespace PatchTriage.SortedList

variable {κ ν α : Type}

/-- Adds the entry `(k, v)`; if there is an entry for `k`, its value becomes `join old v`. -/
def insertWith (cmp : κ → κ → Ordering) (join : ν → ν → ν) (k : κ) (v : ν) :
    List (κ × ν) → List (κ × ν)
  | [] => [(k, v)]
  | (k', v') :: entries =>
    match cmp k k' with
    | .lt => (k, v) :: (k', v') :: entries
    | .eq => (k', join v' v) :: entries
    | .gt => (k', v') :: insertWith cmp join k v entries

/-- Adds the entry `(k, v)`, which takes the place of an entry for `k`. -/
def insert (cmp : κ → κ → Ordering) (k : κ) (v : ν) (entries : List (κ × ν)) : List (κ × ν) :=
  insertWith cmp (fun _ new => new) k v entries

/-- Looks a key up. -/
def find? (cmp : κ → κ → Ordering) (k : κ) : List (κ × ν) → Option ν
  | [] => none
  | (k', v) :: entries => if cmp k k' = .eq then some v else find? cmp k entries

/-- The map with the given entries, of which a later one takes the place of an earlier one. -/
def ofEntries (cmp : κ → κ → Ordering) (entries : List (κ × ν)) : List (κ × ν) :=
  entries.foldl (fun m (k, v) => insert cmp k v m) []

def add (cmp : α → α → Ordering) (a : α) : List α → List α
  | [] => [a]
  | b :: set =>
    match cmp a b with
    | .lt => a :: b :: set
    | .eq => b :: set
    | .gt => b :: add cmp a set

/-- Sorts a list and keeps one of each element. -/
def distinct (cmp : α → α → Ordering) (elements : List α) : List α :=
  elements.foldl (fun set a => add cmp a set) []

/-- The elements in ascending order; equal ones keep the order they had. -/
def sort (cmp : α → α → Ordering) (elements : List α) : List α :=
  elements.mergeSort fun a b => cmp a b != .gt

def compareLists (cmp : α → α → Ordering) : List α → List α → Ordering
  | [], [] => .eq
  | [], _ :: _ => .lt
  | _ :: _, [] => .gt
  | a :: as, b :: bs => (cmp a b).then (compareLists cmp as bs)

end PatchTriage.SortedList
