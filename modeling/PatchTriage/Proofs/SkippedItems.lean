import Mathlib.Data.List.Perm.Subperm
import PatchTriage.Proofs.PoolConservation

/-!
# Why items are skipped

It is asked in two places whether to stop a run: before an item is handed out, and before a worker
starts one that it has taken. Only the first of the two leaves a note.
-/

namespace PatchTriage

open List

/-! ## The counters and the end of handing out -/

theorem Counters.interrupted_foldl {α : Type} (os : List (Outcome α)) (c : Counters) :
    (os.foldl add c).interrupted = c.interrupted := by
  induction os generalizing c with
  | nil => rfl
  | cons o os ih => rw [foldl_cons, ih]; cases o <;> rfl

theorem Counters.budgetExhausted_foldl {α : Type} (os : List (Outcome α)) (c : Counters) :
    (os.foldl add c).budgetExhausted = c.budgetExhausted := by
  induction os generalizing c with
  | nil => rfl
  | cons o os ih => rw [foldl_cons, ih]; cases o <;> rfl

namespace Pool

variable {ι α : Type} {work : ι → Except Breakdown α} {p q : Pool ι α} {e : Event}

/-- The number of items that have passed the question whether to stop, be they handed out or not. -/
def admitted (p : Pool ι α) : Nat := p.next + if p.cleared then 1 else 0

theorem admitted_le (p : Pool ι α) : p.admitted ≤ p.next + 1 := by
  rw [admitted]
  split <;> omega

def isExplained (p : Pool ι α) : Bool := p.counters.interrupted || p.counters.budgetExhausted

theorem interrupted_counters : p.counters.interrupted = true ↔ p.closed = some .shutdown := by
  rw [counters, Counters.interrupted_foldl, decide_eq_true_iff]

theorem budgetExhausted_counters : p.counters.budgetExhausted = true ↔ p.closed = some .budget := by
  rw [counters, Counters.budgetExhausted_foldl, decide_eq_true_iff]

theorem isExplained_iff_closed : p.isExplained = true ↔ p.closed ≠ none := by
  rw [isExplained, Bool.or_eq_true, interrupted_counters, budgetExhausted_counters]
  rcases p.closed with _ | _ | _ <;> simp

theorem stopReason?_eq_none_iff :
    p.stopReason? = none ↔ p.shutdown = false ∧ p.expired = false := by
  cases hshutdown : p.shutdown <;> cases hexpired : p.expired <;>
    simp [stopReason?, hshutdown, hexpired]

theorem shutdown_of_stopReason? (h : p.stopReason? = some .shutdown) : p.shutdown = true := by
  rw [stopReason?] at h
  split at h
  · assumption
  · split at h <;> cases h

theorem expired_of_stopReason? (h : p.stopReason? = some .budget) : p.expired = true := by
  rw [stopReason?] at h
  split at h
  · cases h
  · split at h
    · assumption
    · cases h

/-! ## What is on the way -/

/-- What every run keeps of the number of items that are on their way, and of the reason for which
handing out has ended. -/
structure Orderly (p : Pool ι α) : Prop where
  queue_le : p.queue.length ≤ p.workers
  busy_le : p.busy ≤ p.workers
  open_of_cleared : p.cleared = true → p.isOpen = true
  lt_of_closed : p.closed ≠ none → p.next < p.items.length
  shutdown_of_closed : p.closed = some .shutdown → p.shutdown = true
  expired_of_closed : p.closed = some .budget → p.expired = true

namespace Orderly

theorem ofItems (items : List ι) (workers : Nat) :
    Orderly (Pool.ofItems items workers : Pool ι α) := by
  constructor <;> simp [Pool.ofItems, busy]

theorem move (h : Orderly p) (hmove : Move work p e q) : Orderly q := by
  have hbusy := h.busy_le
  cases hmove with
  | interrupt => exact { h with shutdown_of_closed := fun _ => rfl }
  | exhaust => exact { h with expired_of_closed := fun _ => rfl }
  | @close r hopen hnot hstop =>
    have hlt := (isOpen_iff.1 hopen).2
    refine { h with
      open_of_cleared := ?_, lt_of_closed := ?_, shutdown_of_closed := ?_, expired_of_closed := ?_ }
    · exact fun hcleared => absurd hcleared (by simp [hnot])
    · exact fun _ => hlt
    · rintro ⟨⟩
      exact shutdown_of_stopReason? hstop
    · rintro ⟨⟩
      exact expired_of_stopReason? hstop
  | clear hopen => exact { h with open_of_cleared := fun _ => hopen }
  | submit hopen hcleared hroom =>
    have hclosed := (isOpen_iff.1 hopen).1
    refine { h with queue_le := ?_, open_of_cleared := by simp, lt_of_closed := ?_ }
    · rw [length_append]
      exact hroom
    · exact fun hne => absurd hclosed hne
  | take hqueue hfree =>
    refine { h with queue_le := ?_, busy_le := ?_ }
    · have hlen := h.queue_le
      rw [hqueue, length_cons] at hlen
      exact Nat.le_of_succ_le hlen
    · simp only [busy, length_append, length_singleton] at hfree ⊢
      omega
  | drop hheld =>
    have hlength := length_erase_lt hheld
    refine { h with busy_le := ?_ }
    simp only [busy] at hbusy ⊢
    omega
  | start hheld =>
    have hlength := length_erase_lt hheld
    refine { h with busy_le := ?_ }
    simp only [busy, length_append, length_singleton] at hbusy ⊢
    omega
  | finish => exact { h with }
  | receive hwaiting | lose hwaiting | expire hwaiting =>
    have hlength := length_erase_lt hwaiting
    refine { h with busy_le := ?_ }
    simp only [busy, settle, length_append, length_singleton] at hbusy ⊢
    omega
  | @report item =>
    have hlength : (p.settled.eraseP (·.1 == item)).length ≤ p.settled.length := length_eraseP_le
    refine { h with busy_le := ?_ }
    simp only [busy] at hbusy ⊢
    omega

theorem run (h : Orderly p) (events : List Event) : Orderly (p.run work events) :=
  run_induction (fun _ _ _ _ h hmove => h.move hmove) h

end Orderly

/-! ## After the first stop -/

/-- The run is to stop, so that no further item gets past the first question. -/
structure Frozen (n : Nat) (p : Pool ι α) : Prop where
  stopped : p.stopReason? ≠ none
  admitted : p.admitted = n

namespace Frozen

variable {n : Nat}

theorem of_stop (hstop : e.isInner = false) (p : Pool ι α) : Frozen p.admitted (p.step work e) := by
  cases e with
  | interrupt | exhaust => exact ⟨by simp [step, stopReason?_eq_none_iff], rfl⟩
  | _ => cases hstop

theorem move (h : Frozen n p) (hmove : Move work p e q) : Frozen n q := by
  cases hmove with
  | interrupt | exhaust => exact { h with stopped := by simp [stopReason?_eq_none_iff] }
  | clear _ _ hstop => exact absurd hstop h.stopped
  | submit hopen hcleared =>
    refine { h with admitted := ?_ }
    rw [← h.admitted, Pool.admitted, Pool.admitted, hcleared]
    rfl
  | _ => exact { h with }

theorem run (h : Frozen n p) (events : List Event) : Frozen n (p.run work events) :=
  run_induction (fun _ _ _ _ h hmove => h.move hmove) h

/-- Handing out has been ended exactly if items were left that had not been admitted. -/
theorem closed_iff (h : Frozen n p) (horderly : Orderly p) (hover : p.isOver = true) :
    p.closed ≠ none ↔ n < p.items.length := by
  have hopen : p.isOpen = false := (isOver_iff.1 hover).1
  have hnot : p.cleared = false := by
    rw [← Bool.not_eq_true]
    intro hcleared
    rw [horderly.open_of_cleared hcleared] at hopen
    cases hopen
  have hn : n = p.next := by
    rw [← h.admitted, Pool.admitted, hnot]
    rfl
  rw [hn]
  constructor
  · exact horderly.lt_of_closed
  · intro hlt hclosed
    rw [isOpen_iff.2 ⟨hclosed, hlt⟩] at hopen
    cases hopen

end Frozen

theorem run_append (work : ι → Except Breakdown α) (p : Pool ι α) (before after : List Event) :
    p.run work (before ++ after) = (p.run work before).run work after :=
  foldl_append

variable (items : List ι) (workers : Nat) {before after : List Event}

/-- **The first stop decides.** -/
theorem isExplained_iff {stop : Event} (hstop : stop.isInner = false)
    (hover : ((ofItems items workers).run work (before ++ stop :: after)).isOver = true) :
    ((ofItems items workers).run work (before ++ stop :: after)).isExplained = true ↔
      ((ofItems items workers).run work before).admitted < items.length := by
  have horderly : Orderly ((ofItems items workers).run work (before ++ stop :: after)) :=
    (Orderly.ofItems items workers).run _
  have hfrozen : Frozen ((ofItems items workers).run work before).admitted
      ((ofItems items workers).run work (before ++ stop :: after)) := by
    rw [run_append]
    exact (Frozen.of_stop hstop _).run after
  rw [isExplained_iff_closed, hfrozen.closed_iff horderly hover, items_run]
  rfl

/-! ## How much is skipped without a word -/

theorem length_started_le_run (work : ι → Except Breakdown α) (p : Pool ι α) (events : List Event) :
    p.started.length ≤ (p.run work events).started.length := by
  refine run_induction (P := fun q => p.started.length ≤ q.started.length) ?_ (Nat.le_refl _)
  intro r q e _ hr hmove
  cases hmove with
  | start =>
    rw [length_append]
    exact Nat.le_add_right_of_le hr
  | _ => exact hr

/-- As long as nothing stops it, a pool has started what it handed out, but for what is on its
way. -/
theorem Unstopped.next_le (h : Unstopped p) (horderly : Orderly p) :
    p.next ≤ p.started.length + 2 * p.workers := by
  have hsub : range p.next ⊆ p.queue ++ p.held ++ p.started := by
    intro i hi
    simpa [or_assoc] using h.there i (mem_range.1 hi)
  have hlen := (subperm_of_subset nodup_range hsub).length_le
  have hqueue := horderly.queue_le
  have hbusy := horderly.busy_le
  simp only [length_range, length_append] at hlen
  simp only [busy] at hbusy
  omega

theorem kind_outcomes (h : Conserves work p) (hover : p.isOver = true) {i : Nat}
    (hi : i < p.items.length) :
    p.outcomes[i]?.map Outcome.kind = some .skipped ↔ i ∉ p.started := by
  rw [getElem?_outcomes h hover (getElem?_eq_getElem hi)]
  by_cases hstarted : i ∈ p.started
  · have hne := verdict_ne_skipped work p i p.items[i]
    cases hv : p.verdict work i p.items[i] <;> simp_all [Outcome.kind]
  · simp [hstarted, Outcome.kind]

theorem skipped_counters (h : Conserves work p) (hover : p.isOver = true) :
    p.counters.skipped + p.started.length = p.items.length := by
  have hkinds : p.outcomes.map (·.kind == .skipped)
      = (range p.items.length).map fun i => !decide (i ∈ p.started) := by
    apply ext_getElem (by simp [length_outcomes])
    intro i hi _
    have hi' : i < p.items.length := by simpa [length_outcomes] using hi
    have hkind := kind_outcomes h hover hi'
    rw [getElem?_eq_getElem (length_outcomes p ▸ hi')] at hkind
    rw [Bool.eq_iff_iff]
    simpa using hkind
  have hskipped : p.counters.skipped = (range p.items.length).countP fun i =>
      !decide (i ∈ p.started) := by
    calc p.counters.skipped = (p.outcomes.map Outcome.kind).count .skipped :=
      number_counters p .skipped
      _ = (p.outcomes.map (·.kind == .skipped)).countP id := by
          rw [count, countP_map, countP_map]
          rfl
      _ = _ := by
          rw [hkinds, countP_map]
          rfl
  have hstarted : p.started.length = (range p.items.length).countP fun i =>
      decide (i ∈ p.started) := by
    rw [countP_eq_length_filter]
    apply Perm.length_eq
    rw [perm_ext_iff_of_nodup (nodup_started h) (nodup_range.filter _)]
    intro i
    have hlt : i ∈ p.started → i < p.items.length :=
      fun hi => Nat.lt_of_lt_of_le (h.lt_next hi) h.next_le
    simpa using hlt
  have hall :=
    length_eq_countP_add_countP (fun i => decide (i ∈ p.started)) (l := range p.items.length)
  simp only [length_range, decide_eq_true_eq, decide_not] at hall
  omega

/-- What is skipped without a word was all on its way when the run was first stopped. -/
theorem skipped_le {stop : Event} (hbefore : ∀ e ∈ before, e.isInner = true)
    (hover : ((ofItems items workers).run work (before ++ stop :: after)).isOver = true)
    (hall : items.length ≤ ((ofItems items workers).run work before).admitted) :
    ((ofItems items workers).run work (before ++ stop :: after)).counters.skipped
      ≤ 2 * max 1 workers + 1 := by
  have hitems : ((ofItems items workers).run work (before ++ stop :: after)).items.length =
      items.length := by
    rw [items_run]
    rfl
  have hworkers : ((ofItems items workers).run work before).workers = max 1 workers := by
    rw [workers_run]
    rfl
  have hcount := skipped_counters ((Conserves.ofItems items workers).run _) hover
  have hmore := length_started_le_run work ((ofItems items workers).run work before) (stop :: after)
  rw [← run_append] at hmore
  have hquiet : Unstopped ((ofItems items workers).run work before) :=
    (Unstopped.ofItems items workers).run before hbefore
  have hnext := hquiet.next_le ((Orderly.ofItems items workers).run before)
  have hadmitted := ((ofItems items workers).run work before).admitted_le
  omega

variable {events : List Event}

theorem exists_first_stop (h : ∃ e ∈ events, e.isInner = false) :
    ∃ before stop after, events = before ++ stop :: after ∧ (∀ e ∈ before, e.isInner = true) ∧
      stop.isInner = false := by
  have hfound : (events.find? fun e => !e.isInner).isSome = true := by
    rw [find?_isSome]
    simpa using h
  obtain ⟨stop, hstop⟩ := Option.isSome_iff_exists.1 hfound
  obtain ⟨hnot, before, after, hsplit, hbefore⟩ := find?_eq_some_iff_append.1 hstop
  exact ⟨before, stop, after, hsplit, by simpa using hbefore, by simpa using hnot⟩

theorem interrupt_mem_of_shutdown (workers : Nat)
    (h : ((ofItems items workers).run work events).shutdown = true) : .interrupt ∈ events := by
  revert h
  refine run_induction (p := ofItems items workers)
    (P := fun q => q.shutdown = true →
      .interrupt ∈ events) ?_ (fun h => absurd h Bool.false_ne_true)
  intro p q e he hp hmove
  cases hmove with
  | interrupt => exact fun _ => he
  | _ => exact hp

theorem exhaust_mem_of_expired (workers : Nat)
    (h : ((ofItems items workers).run work events).expired = true) : .exhaust ∈ events := by
  revert h
  refine run_induction (p := ofItems items workers)
    (P := fun q => q.expired = true → .exhaust ∈ events) ?_ (fun h => absurd h Bool.false_ne_true)
  intro p q e he hp hmove
  cases hmove with
  | exhaust => exact fun _ => he
  | _ => exact hp

theorem exists_stop_of_skipped (workers : Nat)
    (hover : ((ofItems items workers).run work events).isOver = true)
    (hskipped : .skipped ∈ ((ofItems items workers).run work events).outcomes) :
    ∃ e ∈ events, e.isInner = false := by
  by_contra hcalm
  have hinner : ∀ e ∈ events, e.isInner = true := by
    intro e he
    by_contra hnot
    exact hcalm ⟨e, he, by simpa using hnot⟩
  have hquiet : Unstopped ((ofItems items workers).run work events) :=
    (Unstopped.ofItems items workers).run events hinner
  obtain ⟨i, hi⟩ := mem_iff_getElem?.1 hskipped
  have hlt : i < ((ofItems items workers).run work events).items.length := by
    rw [← length_outcomes]
    exact (List.getElem?_eq_some_iff.1 hi).1
  refine (kind_outcomes ((Conserves.ofItems items workers).run _) hover hlt).1 ?_
    (mem_started_of_unstopped hquiet hover hlt)
  rw [hi]
  rfl

/-- **When skips are explained.** Whatever the items, workers and order of events are: an item is
skipped only in a run that was stopped. Then the first stop decides whether the counters say why:
they do exactly if an item was left, at that moment, that had not been admitted. If none was left,
at most two items for each worker and one more are skipped, without a word. A reason that is given
is one that the run was stopped for. -/
theorem skipped_explained (items : List ι) (workers : Nat) (work : ι → Except Breakdown α)
    (events : List Event) (p : Pool ι α) (hp : p = (ofItems items workers).run work events)
    (hover : p.isOver = true) :
    (.skipped ∈ p.outcomes → ∃ before stop after, events = before ++ stop :: after ∧
      (∀ e ∈ before, e.isInner = true) ∧ stop.isInner = false) ∧
    (∀ before stop after, events = before ++ stop :: after → (∀ e ∈ before, e.isInner = true) →
      stop.isInner = false →
      ((p.counters.interrupted = true ∨ p.counters.budgetExhausted = true) ↔
        ((ofItems items workers).run work before).admitted < items.length) ∧
      (p.counters.interrupted = false ∧ p.counters.budgetExhausted = false →
        p.counters.skipped ≤ 2 * max 1 workers + 1)) ∧
    (p.counters.interrupted = true → .interrupt ∈ events) ∧
    (p.counters.budgetExhausted = true → .exhaust ∈ events) := by
  subst hp
  have horderly : Orderly ((ofItems items workers).run work events) :=
    (Orderly.ofItems items workers).run _
  refine ⟨fun hskipped => exists_first_stop (exists_stop_of_skipped items workers hover hskipped),
    ?_, ?_, ?_⟩
  · rintro before stop after rfl hbefore hstop
    have hiff := isExplained_iff items workers hstop hover
    rw [isExplained, Bool.or_eq_true] at hiff
    refine ⟨hiff, fun hnone => skipped_le items workers hbefore hover ?_⟩
    by_contra hleft
    have hsome := hiff.2 (Nat.lt_of_not_le hleft)
    simp [hnone] at hsome
  · intro h
    exact interrupt_mem_of_shutdown items workers
      (horderly.shutdown_of_closed (interrupted_counters.1 h))
  · intro h
    exact exhaust_mem_of_expired items workers
      (horderly.expired_of_closed (budgetExhausted_counters.1 h))

/-- One worker and three items. The first is taken and the second in its place in the queue when
the third, and last, is let through; then the run is stopped. -/
def lateStop (stop : Event) : List Event :=
  [.check, .submit, .take, .check, .submit, .check, stop, .start 0, .take, .start 1, .submit,
    .take, .start 2]

def timelyStop (stop : Event) : List Event :=
  [.check, .submit, .take, .check, .submit, stop, .check, .start 0, .take, .start 1]

theorem lateStop_eval : ∀ stop ∈ [Event.interrupt, .exhaust],
    let p : Pool Nat Nat := (ofItems [0, 1, 2] 1).run trialWork (lateStop stop)
    p.isOver = true ∧ p.outcomes = [.skipped, .skipped, .skipped] ∧
      p.counters = { skipped := 3, interrupted := false, budgetExhausted := false } := by
  decide +kernel

theorem timelyStop_eval :
    let p : Pool Nat Nat := (ofItems [0, 1, 2] 1).run trialWork (timelyStop .exhaust)
    p.isOver = true ∧ p.outcomes = [.skipped, .skipped, .skipped] := by
  decide +kernel

theorem skipped_explained_trial :
    let late : Pool Nat Nat := (ofItems [0, 1, 2] 1).run trialWork (lateStop .interrupt)
    let timely : Pool Nat Nat := (ofItems [0, 1, 2] 1).run trialWork (timelyStop .exhaust)
    (late.isOver = true ∧ late.counters.interrupted = false ∧
      late.counters.budgetExhausted = false ∧ late.counters.skipped ≤ 3) ∧
    timely.isOver = true ∧ .skipped ∈ timely.outcomes ∧
      (timely.counters.interrupted = true ∨ timely.counters.budgetExhausted = true) := by
  intro late timely
  obtain ⟨hlate, -, hcounters⟩ := lateStop_eval .interrupt (by simp)
  obtain ⟨htimely, houtcomes⟩ := timelyStop_eval
  obtain ⟨-, hfirst, -, -⟩ :=
    skipped_explained [0, 1, 2] 1 trialWork (lateStop .interrupt) late rfl hlate
  obtain ⟨-, hfirst', -, -⟩ :=
    skipped_explained [0, 1, 2] 1 trialWork (timelyStop .exhaust) timely rfl htimely
  have hnone : late.counters.interrupted = false ∧ late.counters.budgetExhausted = false := by
    rw [hcounters]
    exact ⟨rfl, rfl⟩
  refine ⟨⟨hlate, hnone.1, hnone.2, ?_⟩, htimely, by simp [timely, houtcomes], ?_⟩
  · exact (hfirst [.check, .submit, .take, .check, .submit, .check] .interrupt _ rfl (by decide)
      rfl).2 hnone
  · exact (hfirst' [.check, .submit, .take, .check, .submit] .exhaust _ rfl (by decide) rfl).1.2
      (by decide +kernel)

/-- **Skipped without a word.** Whether the user interrupts the run or its budget is spent, all
items can be skipped with neither of the two in the counters. -/
theorem skipped_unexplained :
    let interrupted : Pool Nat Nat := (ofItems [0, 1, 2] 1).run trialWork (lateStop .interrupt)
    let exhausted : Pool Nat Nat := (ofItems [0, 1, 2] 1).run trialWork (lateStop .exhaust)
    (interrupted.isOver = true ∧ .skipped ∈ interrupted.outcomes ∧
      ¬ (interrupted.counters.interrupted = true ∨ interrupted.counters.budgetExhausted = true)) ∧
    (exhausted.isOver = true ∧ .skipped ∈ exhausted.outcomes ∧
      ¬ (exhausted.counters.interrupted = true ∨ exhausted.counters.budgetExhausted = true)) := by
  have hlate (stop : Event) (hstop : stop ∈ [Event.interrupt, .exhaust]) :
      let p : Pool Nat Nat := (ofItems [0, 1, 2] 1).run trialWork (lateStop stop)
      p.isOver = true ∧ .skipped ∈ p.outcomes ∧
        ¬ (p.counters.interrupted = true ∨ p.counters.budgetExhausted = true) := by
    obtain ⟨hover, houtcomes, hcounters⟩ := lateStop_eval stop hstop
    refine ⟨hover, ?_, ?_⟩
    · rw [houtcomes]
      exact mem_cons_self
    · rw [hcounters]
      decide
  exact ⟨hlate .interrupt (by simp), hlate .exhaust (by simp)⟩

end Pool

end PatchTriage
