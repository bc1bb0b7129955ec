import PatchTriage.Text.Basic

/-!
# The worker pool

Items are handed out in order to a bounded queue, from which a fixed number of workers take them.
Before handing out an item, and before starting one, it is asked whether the run is to stop: because
the user wants it to, or because its budget is spent. The work on an item is done beside its worker,
which waits for the result, and calls the work off when it has waited long enough.

`Pool.step` says what each event does; an event that cannot happen changes nothing, so that every
list of events is a run of the pool. `Pool.isOver` says when nothing is left to be done, and
`Pool.outcomes` and `Pool.counters` read off then what came of the items.
-/

namespace PatchTriage

inductive Breakdown where
  | text (message : Text)
  | other
  deriving DecidableEq

def Breakdown.message : Breakdown → Text
  | .text message => message
  | .other => "unit panicked"

inductive Outcome (α : Type) where
  | completed (a : α)
  | timedOut
  | failed (message : Text)
  | skipped
  deriving DecidableEq

def Outcome.ofResult {α : Type} : Except Breakdown α → Outcome α
  | .ok a => .completed a
  | .error b => .failed b.message

structure Counters where
  completed : Nat := 0
  timedOut : Nat := 0
  failed : Nat := 0
  skipped : Nat := 0
  budgetExhausted : Bool := false
  interrupted : Bool := false
  deriving DecidableEq

namespace Counters

def add {α : Type} (c : Counters) : Outcome α → Counters
  | .completed _ => { c with completed := c.completed + 1 }
  | .timedOut => { c with timedOut := c.timedOut + 1 }
  | .failed _ => { c with failed := c.failed + 1 }
  | .skipped => { c with skipped := c.skipped + 1 }

end Counters

inductive StopReason where
  | budget
  | shutdown
  deriving DecidableEq

/-- The pool at some moment. Beyond `items`, an item is known by its number. -/
structure Pool (ι α : Type) where
  items : List ι
  workers : Nat
  shutdown : Bool := false
  expired : Bool := false
  next : Nat := 0
  cleared : Bool := false
  closed : Option StopReason := none
  queue : List Nat := []
  held : List Nat := []
  started : List Nat := []
  running : List Nat := []
  sent : List (Nat × Except Breakdown α) := []
  waiting : List Nat := []
  cancelled : List Nat := []
  settled : List (Nat × Outcome α) := []
  results : List (Nat × Outcome α) := []

namespace Pool

variable {ι α : Type}

def ofItems (items : List ι) (workers : Nat) : Pool ι α := { items, workers := max 1 workers }

inductive Event where
  | interrupt
  | exhaust
  | check
  | submit
  | take
  | start (item : Nat)
  | finish (item : Nat)
  | receive (item : Nat)
  | expire (item : Nat)
  | report (item : Nat)
  deriving DecidableEq

variable (p : Pool ι α)

/-- Whether the run is to stop, and why; the user's wish counts first. -/
def stopReason? : Option StopReason :=
  if p.shutdown then some .shutdown else if p.expired then some .budget else none

def isOpen : Bool := p.closed.isNone && decide (p.next < p.items.length)

def busy : Nat := p.held.length + p.waiting.length + p.settled.length

def settle (item : Nat) (o : Outcome α) : Pool ι α :=
  { p with waiting := p.waiting.erase item, settled := p.settled ++ [(item, o)] }

/-- What an event does, where `work` gives the result of the work on each item. -/
def step (work : ι → Except Breakdown α) (p : Pool ι α) : Event → Pool ι α
  | .interrupt => { p with shutdown := true }
  | .exhaust => { p with expired := true }
  | .check =>
    if p.isOpen && !p.cleared then
      match p.stopReason? with
      | some r => { p with closed := some r }
      | none => { p with cleared := true }
    else p
  | .submit =>
    if p.isOpen && p.cleared && decide (p.queue.length < p.workers) then
      { p with queue := p.queue ++ [p.next], next := p.next + 1, cleared := false }
    else p
  | .take =>
    match p.queue with
    | [] => p
    | item :: queue => if p.busy < p.workers then { p with queue, held := p.held ++ [item] } else p
  | .start item =>
    if item ∈ p.held then
      let p := { p with held := p.held.erase item }
      match p.stopReason? with
      | some _ => p
      | none =>
        { p with
          started := p.started ++ [item]
          running := p.running ++ [item]
          waiting := p.waiting ++ [item] }
    else p
  | .finish item =>
    match p.items[item]? with
    | some x =>
      if item ∈ p.running then
        { p with running := p.running.erase item, sent := p.sent ++ [(item, work x)] }
      else p
    | none => p
  | .receive item =>
    if item ∈ p.waiting then
      match p.sent.lookup item with
      | some r => p.settle item (.ofResult r)
      | none =>
        if item ∈ p.running then p else p.settle item (.failed "unit exited without a result")
    else p
  | .expire item =>
    if item ∈ p.waiting then { p with cancelled := p.cancelled ++ [item] }.settle item .timedOut
    else p
  | .report item =>
    match p.settled.lookup item with
    | some o =>
      { p with
        settled := p.settled.eraseP (·.1 == item)
        results := p.results ++ [(item, o)] }
    | none => p

def run (work : ι → Except Breakdown α) (p : Pool ι α) (events : List Event) : Pool ι α :=
  events.foldl (step work) p

def isOver : Bool :=
  !p.isOpen && p.queue.isEmpty && p.held.isEmpty && p.running.isEmpty && p.waiting.isEmpty &&
    p.settled.isEmpty

/-- The outcome of every item, in order: an item of which none was handed in has been skipped. -/
def outcomes : List (Outcome α) :=
  p.results.foldl (fun os r => os.set r.1 r.2) (List.replicate p.items.length .skipped)

def counters : Counters :=
  p.outcomes.foldl Counters.add
    { budgetExhausted := p.closed = some .budget, interrupted := p.closed = some .shutdown }

end Pool

end PatchTriage
