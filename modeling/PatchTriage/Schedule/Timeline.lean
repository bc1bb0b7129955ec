import PatchTriage.Schedule.Pool

/-!
# When things happen in the pool

Nothing but the work on items takes time. So the times of all events follow from how long each item
takes, and the run of the pool is the list of events in the order of their times.
-/

namespace PatchTriage

structure ScheduleOptions where
  workers : Nat := 1
  taskTimeout : Nat
  budget : Option Nat := none
  shutdown : Bool := false
  deriving DecidableEq

namespace Timeline

/-- The state while times are worked out item by item; `σ` is what work acts on. -/
structure State (σ α : Type) where
  acted : σ
  free : List Nat
  submitted : Nat := 0
  taken : List Nat := []
  closed : Bool := false
  results : List (Nat × Except Breakdown α) := []
  events : List (Nat × Pool.Event) := []

variable {σ α : Type}

def isStopped (o : ScheduleOptions) (time : Nat) : Bool :=
  o.shutdown || (o.budget.map (decide <| · ≤ time)).getD false

/-- The times at which workers are free, with the earliest of them put off to `time`. -/
def occupy (free : List Nat) (time : Nat) : List Nat :=
  match free.min? with
  | some first => free.erase first ++ [time]
  | none => free

/-- Works out what happens to one item. `work` does the work on it from a time on, and says how long
it took. -/
def advance (o : ScheduleOptions) (work : Nat → Nat → σ → Except Breakdown α × Nat × σ)
    (s : State σ α) (item : Nat) : State σ α :=
  if s.closed then s
  else
    let asked := s.submitted
    if isStopped o asked then { s with closed := true, events := s.events ++ [(asked, .check)] }
    else
      let room := if item < o.workers then 0 else (s.taken[item - o.workers]?).getD 0
      let submitted := max asked room
      let time := max submitted (s.free.min?.getD 0)
      let s := { s with
        submitted
        taken := s.taken ++ [time]
        events := s.events ++
          [(asked, Pool.Event.check), (submitted, .submit), (time, .take), (time, .start item)] }
      if isStopped o time then { s with free := occupy s.free time }
      else
        let (result, duration, acted) := work item time s.acted
        let ended := time + min duration o.taskTimeout
        let ending : List (Nat × Pool.Event) :=
          if duration < o.taskTimeout then
            [(ended, .finish item), (ended, .receive item), (ended, .report item)]
          else [(ended, .expire item), (ended, .report item), (time + duration, .finish item)]
        { s with
          acted
          free := occupy s.free ended
          results := s.results ++ [(item, result)]
          events := s.events ++ ending }

def outer (o : ScheduleOptions) : List (Nat × Pool.Event) :=
  (if o.shutdown then [(0, .interrupt)] else []) ++ (o.budget.map fun b => (b, .exhaust)).toList

def inOrder (events : List (Nat × Pool.Event)) : List Pool.Event :=
  (events.mergeSort fun a b => decide (a.1 ≤ b.1)).map Prod.snd

/-- Works on the items with numbers below `size`, and gives the pool at the end with what the work
acted on. -/
def run (o : ScheduleOptions) (size : Nat) (work : Nat → Nat → σ → Except Breakdown α × Nat × σ)
    (acted : σ) : Pool Nat α × σ :=
  let o := { o with workers := max 1 o.workers }
  -- No more workers are ever busy than there are items.
  let s := (List.range size).foldl (advance o work)
    { acted, free := List.replicate (min o.workers size) 0, events := outer o }
  let result (item : Nat) : Except Breakdown α := (s.results.lookup item).getD (.error .other)
  (Pool.run result (.ofItems (List.range size) o.workers) (inOrder s.events), s.acted)

end Timeline

end PatchTriage
