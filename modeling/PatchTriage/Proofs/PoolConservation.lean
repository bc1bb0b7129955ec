import Mathlib.Data.List.Count
import Mathlib.Data.List.Nodup
import PatchTriage.Schedule.Pool

/-!
# What the pool makes of its items

Whatever the order in which its threads move, and whenever it is interrupted, out of budget or a
worker gives up on an item, a pool comes to an end and has one outcome for each item
(`Pool.conservation`).
-/

namespace PatchTriage

open List Outcome

/-! ## Outcomes and their counters -/

theorem Breakdown.message_eq_iff {b : Breakdown} {m : Text} :
    b.message = m ↔ b = .text m ∨ b = .other ∧ m = "unit panicked" := by
  cases b with
  | text m' =>
    constructor
    · rintro rfl
      exact .inl rfl
    · rintro (h | ⟨h, -⟩)
      · injection h
      · cases h
  | other =>
    constructor
    · intro h
      exact .inr ⟨rfl, h.symm⟩
    · rintro (h | ⟨-, h⟩)
      · cases h
      · exact h.symm

inductive Outcome.Kind where
  | completed | timedOut | failed | skipped
  deriving DecidableEq

def Outcome.kind {α : Type} : Outcome α → Outcome.Kind
  | .completed _ => .completed
  | .timedOut => .timedOut
  | .failed _ => .failed
  | .skipped => .skipped

def Counters.number (c : Counters) : Outcome.Kind → Nat
  | .completed => c.completed
  | .timedOut => c.timedOut
  | .failed => c.failed
  | .skipped => c.skipped

theorem Counters.number_add {α : Type} (c : Counters) (o : Outcome α) (k : Outcome.Kind) :
    (c.add o).number k = c.number k + [o.kind].count k := by
  cases o <;> cases k <;> rfl

theorem Counters.number_foldl {α : Type} (os : List (Outcome α)) (c : Counters) (k : Outcome.Kind) :
    (os.foldl add c).number k = c.number k + (os.map kind).count k := by
  induction os generalizing c with
  | nil => rfl
  | cons o os ih =>
    have hsplit : ((o :: os).map kind).count k
        = [o.kind].count k + (os.map kind).count k := by
      rw [← count_append]; rfl
    rw [foldl_cons, ih, number_add, hsplit]
    omega

theorem Outcome.length_eq_sum {α : Type} (os : List (Outcome α)) :
    os.length = (os.map kind).count .completed + (os.map kind).count .timedOut
      + (os.map kind).count .failed + (os.map kind).count .skipped := by
  induction os with
  | nil => rfl
  | cons o os ih => cases o <;> simp [kind] <;> omega

namespace Pool

variable {ι α : Type} {work : ι → Except Breakdown α} {p q : Pool ι α} {e : Event}

/-! ## What an event can do -/

def Event.isInner : Event → Bool
  | .interrupt | .exhaust => false
  | _ => true

/-- **What an event can do**, and what it takes for it. -/
inductive Move (work : ι → Except Breakdown α) (p : Pool ι α) : Event → Pool ι α → Prop where
  | interrupt : Move work p .interrupt { p with shutdown := true }
  | exhaust : Move work p .exhaust { p with expired := true }
  | close {r : StopReason} (hopen : p.isOpen = true) (hnot : p.cleared = false)
      (hstop : p.stopReason? = some r) :
    Move work p .check { p with closed := some r }
  | clear (hopen : p.isOpen = true) (hnot : p.cleared = false) (hstop : p.stopReason? = none) :
    Move work p .check { p with cleared := true }
  | submit (hopen : p.isOpen = true) (hcleared : p.cleared = true)
    (hroom : p.queue.length < p.workers) :
    Move work p .submit
      { p with queue := p.queue ++ [p.next], next := p.next + 1, cleared := false }
  | take {item : Nat} {queue : List Nat} (hqueue : p.queue = item :: queue)
    (hfree : p.busy < p.workers) :
    Move work p .take { p with queue, held := p.held ++ [item] }
  | drop {item : Nat} {r : StopReason} (hheld : item ∈ p.held) (hstop : p.stopReason? = some r) :
    Move work p (.start item) { p with held := p.held.erase item }
  | start {item : Nat} (hheld : item ∈ p.held) (hstop : p.stopReason? = none) :
    Move work p (.start item)
      { p with
        held := p.held.erase item
        started := p.started ++ [item]
        running := p.running ++ [item]
        waiting := p.waiting ++ [item] }
  | finish {item : Nat} {x : ι} (hitem : p.items[item]? = some x) (hrunning : item ∈ p.running) :
    Move work p (.finish item)
      { p with running := p.running.erase item, sent := p.sent ++ [(item, work x)] }
  | receive {item : Nat} {r : Except Breakdown α} (hwaiting : item ∈ p.waiting)
      (hsent : p.sent.lookup item = some r) :
    Move work p (.receive item) (p.settle item (.ofResult r))
  | lose {item : Nat} (hwaiting : item ∈ p.waiting) (hsent : p.sent.lookup item = none)
      (hrunning : item ∉ p.running) :
    Move work p (.receive item) (p.settle item (.failed "unit exited without a result"))
  | expire {item : Nat} (hwaiting : item ∈ p.waiting) :
    Move work p (.expire item) ({ p with cancelled := p.cancelled ++ [item] }.settle item .timedOut)
  | report {item : Nat} {o : Outcome α} (hsettled : p.settled.lookup item = some o) :
    Move work p (.report item) { p with
        settled := p.settled.eraseP (·.1 == item)
        results := p.results ++ [(item, o)] }

theorem Move.step_eq (h : Move work p e q) : p.step work e = q := by
  cases h with
  | interrupt | exhaust => rfl
  | close hopen hnot hstop | clear hopen hnot hstop => simp [step, hopen, hnot, hstop]
  | submit hopen hcleared hroom => simp [step, hopen, hcleared, hroom]
  | take hqueue hfree => simp [step, hqueue, hfree]
  | drop hheld hstop | start hheld hstop =>
    simp only [stopReason?] at hstop
    simp [step, hheld, stopReason?, hstop]
  | finish hitem hrunning => simp [step, hitem, hrunning]
  | receive hwaiting hsent => simp [step, hwaiting, hsent]
  | lose hwaiting hsent hrunning => simp [step, hwaiting, hsent, hrunning]
  | expire hwaiting => simp [step, hwaiting]
  | report hsettled => simp [step, hsettled]

/-- An event makes its move, or does nothing. -/
theorem step_eq_self_or_move (work : ι → Except Breakdown α) (p : Pool ι α) (e : Event) :
    p.step work e = p ∨ Move work p e (p.step work e) := by
  fun_cases step work p e with
  | case1 => exact .inr .interrupt
  | case2 => exact .inr .exhaust
  | case3 hcan r hstop =>
    obtain ⟨hopen, hnot⟩ : p.isOpen = true ∧ p.cleared = false := by simpa using hcan
    exact .inr (.close hopen hnot hstop)
  | case4 hcan hstop =>
    obtain ⟨hopen, hnot⟩ : p.isOpen = true ∧ p.cleared = false := by simpa using hcan
    exact .inr (.clear hopen hnot hstop)
  | case6 hcan =>
    obtain ⟨⟨hopen, hcleared⟩, hroom⟩ :
        (p.isOpen = true ∧ p.cleared = true) ∧ p.queue.length < p.workers := by simpa using hcan
    exact .inr (.submit hopen hcleared hroom)
  | case9 item queue hqueue hfree => exact .inr (.take hqueue hfree)
  | case11 item hheld _ r hstop => exact .inr (.drop hheld hstop)
  | case12 item hheld _ hstop => exact .inr (.start hheld hstop)
  | case14 item x hitem hrunning => exact .inr (.finish hitem hrunning)
  | case17 item hwaiting r hsent => exact .inr (.receive hwaiting hsent)
  | case19 item hwaiting hsent hrunning => exact .inr (.lose hwaiting hsent hrunning)
  | case21 item hwaiting => exact .inr (.expire hwaiting)
  | case23 item o hsettled => exact .inr (.report hsettled)
  | case5 | case7 | case8 | case10 | case13 | case15 | case16 | case18 | case20 | case22 | case24 =>
    exact .inl rfl

/-- **From steps to runs.** What the moves of the events in a list keep holds after all of them. -/
theorem run_induction {P : Pool ι α → Prop} {events : List Event}
    (hmove : ∀ p q, ∀ e ∈ events, P p → Move work p e q → P q) (h : P p) :
    P (p.run work events) := by
  induction events generalizing p with
  | nil => exact h
  | cons e events ih =>
    apply ih
    · exact fun p q e' he' => hmove p q e' (mem_cons_of_mem _ he')
    · rcases step_eq_self_or_move work p e with hself | hmoved
      · rw [hself]; exact h
      · exact hmove p _ e mem_cons_self h hmoved

/-! ## The invariant -/

def verdict (work : ι → Except Breakdown α) (p : Pool ι α) (item : Nat) (x : ι) : Outcome α :=
  if item ∈ p.cancelled then .timedOut else .ofResult (work x)

/-- **What every run of a pool keeps.** Numbers are counted in the lists that they pass through, so
that nothing need be said of the order of those. -/
structure Conserves (work : ι → Except Breakdown α) (p : Pool ι α) : Prop where
  next_le : p.next ≤ p.items.length
  /-- A number that was handed out is in the queue, with a worker, or started, and only once. -/
  once : ∀ i, p.queue.count i + p.held.count i + p.started.count i ≤ if i < p.next then 1 else 0
  /-- For a number that was started, a worker waits, is about to hand in its outcome, or has done
  so. -/
  kept : ∀ i, p.waiting.count i + (p.settled.map Prod.fst).count i
    + (p.results.map Prod.fst).count i = p.started.count i
  attended : ∀ i ∈ p.waiting, i ∈ p.running ∨ ∃ r, (i, r) ∈ p.sent
  running_started : ∀ i ∈ p.running, i ∈ p.started
  sent_work : ∀ i r, (i, r) ∈ p.sent → ∃ x, p.items[i]? = some x ∧ r = work x
  cancelled_started : ∀ i ∈ p.cancelled, i ∈ p.started ∧ i ∉ p.waiting
  outcome : ∀ i o, (i, o) ∈ p.settled ++ p.results → ∃ x, p.items[i]? = some x ∧
    o = p.verdict work i x

/-- What is looked up stands in the list, and is what is taken out of it. -/
theorem exists_split_of_lookup {β : Type} {l : List (Nat × β)} {item : Nat} {b : β}
    (h : l.lookup item = some b) :
    ∃ before after, l = before ++ (item, b) :: after ∧
      l.eraseP (·.1 == item) = before ++ after := by
  obtain ⟨before, after, rfl, hbefore⟩ := lookup_eq_some_iff.1 h
  have hskip : ∀ r ∈ before, ¬ (r.1 == item) = true := by
    intro r hr heq
    have hne := hbefore r hr
    simp [eq_of_beq heq] at hne
  refine ⟨before, after, rfl, ?_⟩
  rw [eraseP_append_right _ hskip, eraseP_cons_of_pos (by simp)]

theorem count_erase_add {l : List Nat} {item : Nat} (h : item ∈ l) (i : Nat) :
    (l.erase item).count i + [item].count i = l.count i := by
  rw [← count_append, perm_iff_count.1 (perm_append_comm.trans (perm_cons_erase h).symm) i]

namespace Conserves

theorem ofItems (items : List ι) (workers : Nat) : Conserves work (ofItems items workers) := by
  constructor <;> simp [Pool.ofItems]

variable {i item : Nat} (h : Conserves work p)
include h

theorem count_le_one (i : Nat) : p.queue.count i + p.held.count i + p.started.count i ≤ 1 := by
  have honce := h.once i
  split at honce <;> omega

theorem lt_next (hi : i ∈ p.started) : i < p.next := by
  have hcount := count_pos_iff.2 hi
  have honce := h.once i
  split at honce <;> omega

theorem item_of_started (hi : i ∈ p.started) : ∃ x, p.items[i]? = some x := by
  have hlt : i < p.items.length := Nat.lt_of_lt_of_le (h.lt_next hi) h.next_le
  exact ⟨_, getElem?_eq_getElem hlt⟩

theorem started_of_waiting (hi : i ∈ p.waiting) : i ∈ p.started := by
  have hcount := count_pos_iff.2 hi
  have hkept := h.kept i
  exact count_pos_iff.1 (by omega)

theorem notMem_of_waiting (hi : i ∈ p.waiting) (o : Outcome α) :
    (i, o) ∉ p.settled ++ p.results := by
  intro ho
  have hcount := count_pos_iff.2 hi
  have hkept := h.kept i
  have hone := h.count_le_one i
  have hthere : 0 < ((p.settled ++ p.results).map Prod.fst).count i :=
    count_pos_iff.2 (mem_map_of_mem ho)
  rw [map_append, count_append] at hthere
  omega

theorem notMem_erase_waiting (hi : i ∈ p.waiting) : i ∉ p.waiting.erase i := by
  intro hagain
  have hcount := count_pos_iff.2 hagain
  have hself : [i].count i = 1 := count_singleton_self
  have hall := count_erase_add hi i
  have hkept := h.kept i
  have hone := h.count_le_one i
  omega

theorem submit (hopen : p.isOpen) : Conserves work
      { p with queue := p.queue ++ [p.next], next := p.next + 1, cleared := false } where
  __ := h
  next_le := by
    have hlt : p.closed = none ∧ p.next < p.items.length := by simpa [isOpen] using hopen
    exact hlt.2
  once i := by
    have honce := h.once i
    simp only [count_append, count_singleton]
    grind

theorem take {queue : List Nat} (hqueue : p.queue = item :: queue) :
    Conserves work { p with queue, held := p.held ++ [item] } where
  __ := h
  once i := by
    have honce := h.once i
    simp only [hqueue, count_append, count_cons, count_nil] at honce ⊢
    omega

theorem drop (hheld : item ∈ p.held) : Conserves work { p with held := p.held.erase item } where
  __ := h
  once i := by
    have honce := h.once i
    have hcount := count_erase_add hheld i
    show p.queue.count i + (p.held.erase item).count i + p.started.count i ≤
      if i < p.next then 1 else 0
    omega

theorem start (hheld : item ∈ p.held) : Conserves work { p with
        held := p.held.erase item
        started := p.started ++ [item]
        running := p.running ++ [item]
        waiting := p.waiting ++ [item] } where
  next_le := h.next_le
  once i := by
    have honce := h.once i
    have hcount := count_erase_add hheld i
    simp only [count_append]
    omega
  kept i := by
    have hkept := h.kept i
    simp only [count_append]
    omega
  attended i hi := by
    rcases mem_append.1 hi with hi | hi
    · exact (h.attended i hi).imp_left (mem_append_left _)
    · exact .inl (mem_append_right _ hi)
  running_started i hi := by
    rcases mem_append.1 hi with hi | hi
    · exact mem_append_left _ (h.running_started i hi)
    · exact mem_append_right _ hi
  sent_work := h.sent_work
  cancelled_started i hi := by
    obtain ⟨hstarted, hwaiting⟩ := h.cancelled_started i hi
    refine ⟨mem_append_left _ hstarted, ?_⟩
    -- A number that is held has not been started, so it is not the one that was called off.
    have hne : i ≠ item := by
      rintro rfl
      have hone := h.count_le_one i
      have h₁ := count_pos_iff.2 hheld
      have h₂ := count_pos_iff.2 hstarted
      omega
    simp [hwaiting, hne]
  outcome := h.outcome

theorem finish {x : ι} (hitem : p.items[item]? = some x) : Conserves work
      { p with running := p.running.erase item, sent := p.sent ++ [(item, work x)] } where
  __ := h
  attended i hi := by
    by_cases hself : i = item
    · subst hself
      exact .inr ⟨work x, by simp⟩
    · rcases h.attended i hi with hrunning | ⟨r, hr⟩
      · exact .inl ((mem_erase_of_ne hself).2 hrunning)
      · exact .inr ⟨r, mem_append_left _ hr⟩
  running_started i hi := h.running_started i (mem_of_mem_erase hi)
  sent_work i r hr := by
    rcases mem_append.1 hr with hr | hr
    · exact h.sent_work i r hr
    · obtain ⟨rfl, rfl⟩ : i = item ∧ r = work x := by simpa using hr
      exact ⟨x, hitem, rfl⟩

/-- A worker has the outcome of its own item, whether it came or was given up. -/
theorem settle {o : Outcome α} {cancelled : List Nat}
    (hwaiting : item ∈ p.waiting) (hcancelled : ∀ i, i ≠ item → (i ∈ cancelled ↔ i ∈ p.cancelled))
    (ho : ∀ x, p.items[item]? = some x → o = { p with cancelled }.verdict work item x) :
    Conserves work ({ p with cancelled }.settle item o) where
  next_le := h.next_le
  once := h.once
  kept i := by
    have hkept := h.kept i
    have hcount := count_erase_add hwaiting i
    simp only [Pool.settle, map_append, count_append, map_cons, map_nil]
    omega
  attended i hi := h.attended i (mem_of_mem_erase hi)
  running_started := h.running_started
  sent_work := h.sent_work
  cancelled_started i hi := by
    by_cases hself : i = item
    · subst hself
      exact ⟨h.started_of_waiting hwaiting, h.notMem_erase_waiting hwaiting⟩
    · obtain ⟨hstarted, hnot⟩ := h.cancelled_started i ((hcancelled i hself).1 hi)
      exact ⟨hstarted, fun hi => hnot (mem_of_mem_erase hi)⟩
  outcome i o' ho' := by
    have hcases : (i, o') ∈ p.settled ++ p.results ∨ i = item ∧ o' = o := by
      simp only [Pool.settle, mem_append, mem_singleton, Prod.mk.injEq] at ho' ⊢
      tauto
    rcases hcases with hbefore | ⟨rfl, rfl⟩
    · have hne : i ≠ item := by
        rintro rfl
        exact h.notMem_of_waiting hwaiting o' hbefore
      obtain ⟨x, hx, rfl⟩ := h.outcome i o' hbefore
      exact ⟨x, hx, by simp [verdict, Pool.settle, hcancelled i hne]⟩
    · obtain ⟨x, hx⟩ := h.item_of_started (h.started_of_waiting hwaiting)
      exact ⟨x, hx, ho x hx⟩

theorem report {o : Outcome α} (hsettled : p.settled.lookup item = some o) : Conserves work { p with
        settled := p.settled.eraseP (·.1 == item)
        results := p.results ++ [(item, o)] } := by
  obtain ⟨before, after, hsplit, herase⟩ := exists_split_of_lookup hsettled
  rw [herase]
  refine { h with kept := ?_, outcome := ?_ }
  · intro i
    have hkept := h.kept i
    simp only [hsplit, map_append, map_cons, map_nil, count_append, count_cons,
      count_nil] at hkept ⊢
    omega
  · intro i o' ho'
    apply h.outcome i o'
    simp only [hsplit, mem_append, mem_cons, not_mem_nil] at ho' ⊢
    tauto

/-- **The step lemma.** -/
theorem move (hmove : Move work p e q) : Conserves work q := by
  cases hmove with
  | interrupt | exhaust | close | clear => exact { h with }
  | submit hopen => exact h.submit hopen
  | take hqueue => exact h.take hqueue
  | drop hheld => exact h.drop hheld
  | start hheld => exact h.start hheld
  | finish hitem => exact h.finish hitem
  | @receive item r hwaiting hsent =>
    refine h.settle hwaiting (fun i _ => Iff.rfl) ?_
    intro x hx
    obtain ⟨before, after, hsplit, -⟩ := exists_split_of_lookup hsent
    obtain ⟨x', hx', rfl⟩ := h.sent_work item r (by simp [hsplit])
    obtain rfl : x = x' := Option.some.inj (hx.symm.trans hx')
    have hnot : item ∉ p.cancelled := fun hc => (h.cancelled_started item hc).2 hwaiting
    exact (if_neg hnot).symm
  | lose hwaiting hsent hrunning =>
    -- Work ends with a result, so no worker is left without one.
    rcases h.attended _ hwaiting with hrun | ⟨r, hr⟩
    · exact absurd hrun hrunning
    · exact absurd (lookup_eq_none_iff.1 hsent _ hr) (by simp)
  | expire hwaiting =>
    refine h.settle hwaiting ?_ ?_
    · intro i hne
      simp [hne]
    · intro x _
      simp [verdict]
  | report hsettled => exact h.report hsettled

/-- **The run lemma.** -/
theorem run (events : List Event) : Conserves work (p.run work events) :=
  run_induction (fun _ _ _ _ h hmove => h.move hmove) h

end Conserves

theorem items_run (work : ι → Except Breakdown α) (p : Pool ι α) (events : List Event) :
    (p.run work events).items = p.items := by
  refine run_induction (P := fun q => q.items = p.items) ?_ rfl
  intro r q e _ hr hmove
  cases hmove <;> exact hr

theorem workers_run (work : ι → Except Breakdown α) (p : Pool ι α) (events : List Event) :
    (p.run work events).workers = p.workers := by
  refine run_induction (P := fun q => q.workers = p.workers) ?_ rfl
  intro r q e _ hr hmove
  cases hmove <;> exact hr

/-! ## Runs that nothing stops -/

/-- Nothing has stopped the run, and no number that was handed out is lost. -/
structure Unstopped (p : Pool ι α) : Prop where
  shutdown : p.shutdown = false
  expired : p.expired = false
  closed : p.closed = none
  there : ∀ i < p.next, i ∈ p.queue ∨ i ∈ p.held ∨ i ∈ p.started

namespace Unstopped

theorem ofItems (items : List ι) (workers : Nat) :
    Unstopped (Pool.ofItems items workers : Pool ι α) := by
  constructor <;> simp [Pool.ofItems]

theorem stopReason?_eq_none (h : Unstopped p) : p.stopReason? = none := by
  simp [stopReason?, h.shutdown, h.expired]

theorem move (h : Unstopped p) (hmove : Move work p e q) (hinner : e.isInner) : Unstopped q := by
  cases hmove with
  | interrupt | exhaust => cases hinner
  | close _ _ hstop | drop _ hstop => cases h.stopReason?_eq_none.symm.trans hstop
  | submit hopen hcleared =>
    refine { h with there := ?_ }
    intro i hi
    by_cases hlast : i = p.next
    · simp [hlast]
    · have hbefore : i < p.next := by
        have : i < p.next + 1 := hi
        omega
      simpa using (h.there i hbefore).imp_left .inl
  | take hqueue =>
    refine { h with there := ?_ }
    intro i hi
    have hthere := h.there i hi
    simp only [hqueue, mem_cons, mem_append, not_mem_nil] at hthere ⊢
    tauto
  | @start item hheld =>
    refine { h with there := ?_ }
    intro i hi
    have hthere := h.there i hi
    by_cases hself : i = item
    · simp [hself]
    · simpa [hself, mem_erase_of_ne hself] using hthere
  | clear | finish | receive | lose | expire | report => exact { h with }

theorem run (h : Unstopped p) (events : List Event) (hinner : ∀ e ∈ events, e.isInner) :
    Unstopped (p.run work events) :=
  run_induction (fun _ _ e he h hmove => h.move hmove (hinner e he)) h

end Unstopped

/-! ## What is read off at the end -/

theorem isOver_iff : p.isOver = true ↔
    p.isOpen = false ∧ p.queue = [] ∧ p.held = [] ∧ p.running = [] ∧ p.waiting = [] ∧
      p.settled = [] := by
  simp [isOver, and_assoc]

theorem length_outcomes (p : Pool ι α) : p.outcomes.length = p.items.length := by
  have hset : ∀ (rs : List (Nat × Outcome α)) (os : List (Outcome α)),
      (rs.foldl (fun os r => os.set r.1 r.2) os).length = os.length := by
    intro rs
    induction rs with
    | nil => exact fun _ => rfl
    | cons r rs ih => intro os; simp [ih]
  simp [outcomes, hset]

variable {i : Nat}

/-- What is written for a number is what stands there, if the same is written for it each time. -/
theorem getElem?_foldl_set {β : Type} (rs : List (Nat × β)) (os : List β) {o : β}
    (hi : i < os.length) (hsame : ∀ o', (i, o') ∈ rs → o' = o)
    (hthere : (i, o) ∈ rs ∨ os[i]? = some o) :
    (rs.foldl (fun os r => os.set r.1 r.2) os)[i]? = some o := by
  induction rs generalizing os with
  | nil => simpa using hthere
  | cons r rs ih =>
    obtain ⟨j, o'⟩ := r
    refine ih _ (by simpa using hi) (fun o' h => hsame o' (mem_cons_of_mem _ h)) ?_
    by_cases hj : j = i
    · subst hj
      have ho' : o' = o := hsame o' mem_cons_self
      exact .inr (by simp [ho', hi])
    · rcases hthere with hthere | hthere
      · rcases mem_cons.1 hthere with heq | hthere
        · cases heq; exact absurd rfl hj
        · exact .inl hthere
      · exact .inr (by simpa [hj] using hthere)

/-- **The outcome of an item** of a pool that is over. -/
theorem getElem?_outcomes (h : Conserves work p) (hover : p.isOver = true) {x : ι}
    (hx : p.items[i]? = some x) :
    p.outcomes[i]? = some (if i ∈ p.started then p.verdict work i x else .skipped) := by
  obtain ⟨-, -, -, -, hwaiting, hsettled⟩ := isOver_iff.1 hover
  have hi : i < p.items.length := (List.getElem?_eq_some_iff.1 hx).1
  have hkept := h.kept i
  simp only [hwaiting, hsettled, map_nil, count_nil, Nat.zero_add] at hkept
  have hverdict : ∀ o, (i, o) ∈ p.results → o = p.verdict work i x := by
    intro o ho
    obtain ⟨x', hx', rfl⟩ := h.outcome i o (mem_append_right _ ho)
    obtain rfl : x = x' := Option.some.inj (hx.symm.trans hx')
    rfl
  have hmem : i ∈ p.started ↔ ∃ o, (i, o) ∈ p.results := by
    rw [← count_pos_iff, ← hkept, count_pos_iff]
    simp
  unfold outcomes
  by_cases hstarted : i ∈ p.started
  · rw [if_pos hstarted]
    obtain ⟨o, ho⟩ := hmem.1 hstarted
    exact getElem?_foldl_set _ _ (by simpa using hi) hverdict (.inl (hverdict o ho ▸ ho))
  · rw [if_neg hstarted]
    refine getElem?_foldl_set _ _ (by simpa using hi) ?_ (.inr (by simp [hi]))
    exact fun o ho => absurd (hmem.2 ⟨o, ho⟩) hstarted

/-- **The counters count the outcomes.** -/
theorem number_counters (p : Pool ι α) (k : Outcome.Kind) :
    p.counters.number k = (p.outcomes.map kind).count k := by
  unfold counters
  rw [Counters.number_foldl]
  cases k <;> exact Nat.zero_add _

/-! ## Coming to an end -/

/-- An upper bound for the number of moves that the items yet to be handed out can lead to. -/
def ahead (p : Pool ι α) : Nat :=
  if p.isOpen then 7 * (p.items.length - p.next) + (if p.cleared then 0 else 1) else 0

/-- An upper bound for the number of moves that the items on their way can lead to. -/
def onTheWay (p : Pool ι α) : Nat :=
  5 * p.queue.length + 4 * p.held.length + 2 * p.waiting.length + p.settled.length +
    p.running.length

/-- An upper bound for the number of moves that the threads can still make. -/
def remaining (p : Pool ι α) : Nat := p.ahead + p.onTheWay

theorem isOpen_iff : p.isOpen = true ↔ p.closed = none ∧ p.next < p.items.length := by simp [isOpen]

theorem length_erase_lt {l : List Nat} {item : Nat} (h : item ∈ l) :
    (l.erase item).length < l.length := by
  have hpos := length_pos_of_mem h
  rw [length_erase_of_mem h]
  omega

theorem Move.remaining_lt (h : Move work p e q) (hinner : e.isInner = true) :
    q.remaining < p.remaining := by
  cases h with
  | interrupt | exhaust => cases hinner
  | @close r hopen =>
    have hlt := (isOpen_iff.1 hopen).2
    have hafter : ahead { p with closed := some r } = 0 := by simp [ahead, isOpen]
    have hbefore : 0 < p.ahead := by
      rw [ahead, if_pos hopen]
      omega
    simp only [remaining, hafter, onTheWay]
    omega
  | clear hopen hnot =>
    have hafter : p.ahead = ahead { p with cleared := true } + 1 := by
      have hstill : isOpen { p with cleared := true } = true := hopen
      simp [ahead, hopen, hstill, hnot]
    simp only [remaining, hafter, onTheWay]
    omega
  | submit hopen hcleared =>
    have hlt := (isOpen_iff.1 hopen).2
    simp only [remaining, ahead, onTheWay, hopen, hcleared, if_true, length_append,
      length_singleton, Bool.false_eq_true, if_false]
    split <;> omega
  | take hqueue =>
    apply Nat.add_lt_add_left
    simp only [onTheWay, hqueue, length_append, length_cons, length_nil]
    omega
  | drop hheld =>
    have hlength := length_erase_lt hheld
    apply Nat.add_lt_add_left
    simp only [onTheWay]
    omega
  | start hheld =>
    have hlength := length_erase_lt hheld
    apply Nat.add_lt_add_left
    simp only [onTheWay, length_append, length_singleton]
    omega
  | finish _ hrunning =>
    have hlength := length_erase_lt hrunning
    apply Nat.add_lt_add_left
    simp only [onTheWay]
    omega
  | receive hwaiting | lose hwaiting | expire hwaiting =>
    have hlength := length_erase_lt hwaiting
    apply Nat.add_lt_add_left
    simp only [onTheWay, settle, length_append, length_singleton]
    omega
  | report hsettled =>
    obtain ⟨before, after, hsplit, herase⟩ := exists_split_of_lookup hsettled
    have hlength : p.settled.length = (before ++ after).length + 1 := by
      simp [hsplit, Nat.add_assoc]
    rw [herase]
    apply Nat.add_lt_add_left
    simp only [onTheWay]
    omega

theorem remaining_step_le (work : ι → Except Breakdown α) (p : Pool ι α) (e : Event) :
    (p.step work e).remaining ≤ p.remaining := by
  rcases step_eq_self_or_move work p e with hself | hmove
  · exact Nat.le_of_eq (congrArg remaining hself)
  · cases hinner : e.isInner with
    | true => exact Nat.le_of_lt (hmove.remaining_lt hinner)
    | false => cases e <;> first | exact Nat.le_refl _ | cases hinner

/-- **No deadlock.** As long as the pool is not over, one of its threads can move. -/
theorem exists_move (h : Conserves work p) (hworkers : 0 < p.workers) (hover : p.isOver = false) :
    ∃ e q, e.isInner = true ∧ Move work p e q := by
  cases hrunning : p.running with
  | cons i _ =>
    have hi : i ∈ p.running := by simp [hrunning]
    obtain ⟨x, hx⟩ := h.item_of_started (h.running_started i hi)
    exact ⟨.finish i, _, rfl, .finish hx hi⟩
  | nil =>
  cases hwaiting : p.waiting with
  | cons i _ =>
    have hi : i ∈ p.waiting := by simp [hwaiting]
    cases hsent : p.sent.lookup i with
    | some r => exact ⟨.receive i, _, rfl, .receive hi hsent⟩
    | none => exact ⟨.receive i, _, rfl, .lose hi hsent (by simp [hrunning])⟩
  | nil =>
  cases hsettled : p.settled with
  | cons r _ =>
    obtain ⟨i, o⟩ := r
    exact ⟨.report i, _, rfl, .report (hsettled ▸ lookup_cons_self)⟩
  | nil =>
  cases hheld : p.held with
  | cons i _ =>
    have hi : i ∈ p.held := by simp [hheld]
    cases hstop : p.stopReason? with
    | some r => exact ⟨.start i, _, rfl, .drop hi hstop⟩
    | none => exact ⟨.start i, _, rfl, .start hi hstop⟩
  | nil =>
  cases hqueue : p.queue with
  | cons i _ =>
    have hfree : p.busy < p.workers := by simpa [busy, hheld, hwaiting, hsettled] using hworkers
    exact ⟨.take, _, rfl, .take hqueue hfree⟩
  | nil =>
  have hopen : p.isOpen = true := by
    cases hopen : p.isOpen with
    | true => rfl
    | false =>
      rw [isOver_iff.2 ⟨hopen, hqueue, hheld, hrunning, hwaiting, hsettled⟩] at hover
      cases hover
  cases hcleared : p.cleared with
  | true => exact ⟨.submit, _, rfl, .submit hopen hcleared (by simpa [hqueue] using hworkers)⟩
  | false =>
    cases hstop : p.stopReason? with
    | some r => exact ⟨.check, _, rfl, .close hopen hcleared hstop⟩
    | none => exact ⟨.check, _, rfl, .clear hopen hcleared hstop⟩

def Stirs (work : ι → Except Breakdown α) (p : Pool ι α) (e : Event) : Prop :=
  e.isInner = true ∧ p.step work e ≠ p

theorem Move.stirs (h : Move work p e q) (hinner : e.isInner = true) : Stirs work p e := by
  refine ⟨hinner, fun heq => ?_⟩
  have hlt := h.remaining_lt hinner
  rw [← h.step_eq, heq] at hlt
  exact Nat.lt_irrefl _ hlt

theorem Stirs.remaining_lt (h : Stirs work p e) : (p.step work e).remaining < p.remaining := by
  rcases step_eq_self_or_move work p e with hself | hmove
  · exact absurd hself h.2
  · exact hmove.remaining_lt h.1

theorem Move.isOver_eq_false (h : Move work p e q) (hinner : e.isInner = true) :
    p.isOver = false := by
  rw [Bool.eq_false_iff]
  intro hover
  obtain ⟨hopen, hqueue, hheld, hrunning, hwaiting, hsettled⟩ := isOver_iff.1 hover
  cases h with
  | interrupt | exhaust => cases hinner
  | close hopen' | clear hopen' | submit hopen' => simp [hopen] at hopen'
  | take hqueue' => simp [hqueue] at hqueue'
  | drop hheld' | start hheld' => simp [hheld] at hheld'
  | finish _ hrunning' => simp [hrunning] at hrunning'
  | receive hwaiting' | lose hwaiting' | expire hwaiting' => simp [hwaiting] at hwaiting'
  | report hsettled' => simp [hsettled] at hsettled'

theorem not_stirs_of_isOver (hover : p.isOver = true) : ¬ Stirs work p e := by
  rintro ⟨hinner, hne⟩
  rcases step_eq_self_or_move work p e with hself | hmove
  · exact hne hself
  · exact absurd hover (by simp [hmove.isOver_eq_false hinner])

def after (work : ι → Except Breakdown α) (p : Pool ι α) (schedule : Nat → Event)
    (n : Nat) : Pool ι α :=
  p.run work ((range n).map schedule)

/-- A schedule is fair if some thread moves again and again, as long as any of them can. -/
def Fair (work : ι → Except Breakdown α) (p : Pool ι α) (schedule : Nat → Event) : Prop :=
  ∀ n, (∃ e, Stirs work (p.after work schedule n) e) →
    ∃ m, n ≤ m ∧ Stirs work (p.after work schedule m) (schedule m)

theorem after_succ (work : ι → Except Breakdown α) (p : Pool ι α) (schedule : Nat →
    Event) (n : Nat) :
    p.after work schedule (n + 1) = (p.after work schedule n).step work (schedule n) := by
  simp [after, run, range_succ, foldl_append]

theorem remaining_after_le (work : ι → Except Breakdown α) (p : Pool ι α) (schedule : Nat → Event)
    {n m : Nat} (h : n ≤ m) :
    (p.after work schedule m).remaining ≤ (p.after work schedule n).remaining := by
  induction h with
  | refl => exact Nat.le_refl _
  | step _ ih =>
    rw [Nat.succ_eq_add_one, after_succ]
    exact Nat.le_trans (remaining_step_le _ _ _) ih

/-- **Every fair schedule brings the pool to its end.** -/
theorem exists_isOver (h : Conserves work p) (hworkers : 0 < p.workers) {schedule : Nat → Event}
    (hfair : Fair work p schedule) : ∃ n, (p.after work schedule n).isOver = true := by
  suffices hfrom : ∀ k n, (p.after work schedule n).remaining = k →
      ∃ m, (p.after work schedule m).isOver = true from hfrom _ 0 rfl
  intro k
  -- What remains gets less with the next move, and never more in between.
  induction k using Nat.strongRecOn with
  | ind k ih =>
    intro n hn
    cases hover : (p.after work schedule n).isOver with
    | true => exact ⟨n, hover⟩
    | false =>
      have hstill : 0 < (p.after work schedule n).workers := by
        unfold after
        rw [workers_run]
        exact hworkers
      obtain ⟨e, q, hinner, hmove⟩ := exists_move (h.run _) hstill hover
      obtain ⟨m, hle, hstirs⟩ := hfair n ⟨e, hmove.stirs hinner⟩
      have hlt := hstirs.remaining_lt
      have hrest := remaining_after_le work p schedule hle
      refine ih _ ?_ (m + 1) rfl
      rw [after_succ]
      omega

/-! ## The account -/

/-- **What is said of an item that was started**: it was called off, or what its work came to. -/
theorem verdict_cases (work : ι → Except Breakdown α) (p : Pool ι α) (i : Nat) (x : ι) :
    i ∈ p.cancelled ∧ p.verdict work i x = .timedOut ∨ i ∉ p.cancelled ∧
      ((∃ a, work x = .ok a ∧ p.verdict work i x = .completed a) ∨
        ∃ b, work x = .error b ∧ p.verdict work i x = .failed b.message) := by
  unfold verdict
  by_cases hc : i ∈ p.cancelled
  · exact .inl ⟨hc, if_pos hc⟩
  · rw [if_neg hc]
    cases work x with
    | ok a => exact .inr ⟨hc, .inl ⟨a, rfl, rfl⟩⟩
    | error b => exact .inr ⟨hc, .inr ⟨b, rfl, rfl⟩⟩

theorem verdict_ne_skipped (work : ι → Except Breakdown α) (p : Pool ι α) (i : Nat) (x : ι) :
    p.verdict work i x ≠ .skipped := by
  rcases verdict_cases work p i x with ⟨-, h⟩ | ⟨-, ⟨a, -, h⟩ | ⟨b, -, h⟩⟩ <;> simp [h]

theorem nodup_started (h : Conserves work p) : p.started.Nodup := by
  refine nodup_iff_count_le_one.2 fun i => ?_
  have hone := h.count_le_one i
  omega

theorem sum_counters (p : Pool ι α) :
    p.counters.completed + p.counters.timedOut + p.counters.failed + p.counters.skipped =
      p.items.length := by
  rw [← length_outcomes, length_eq_sum]
  simp only [← number_counters]
  rfl

theorem mem_started_of_unstopped (h : Unstopped p) (hover : p.isOver = true)
    (hi : i < p.items.length) : i ∈ p.started := by
  obtain ⟨hopen, hqueue, hheld, -⟩ := isOver_iff.1 hover
  have hnext : p.items.length ≤ p.next := by simpa [isOpen, h.closed] using hopen
  simpa [hqueue, hheld] using h.there i (Nat.lt_of_lt_of_le hi hnext)

/-- **Nothing is lost, made twice or mixed up.** Take any items, any number of workers and any work.
In every fair order of events the pool comes to its end. In every order of events, no item is
started twice; and once the pool is over there is one outcome for each item, in order, which tells
what became of the work on this very item, the counters count the outcomes, and nothing was skipped
unless the run was stopped. -/
theorem conservation (items : List ι) (workers : Nat) (work : ι → Except Breakdown α) :
    (∀ schedule, Fair work (ofItems items workers) schedule →
      ∃ n, ((ofItems items workers).after work schedule n).isOver = true) ∧
    ∀ (events : List Event) (p : Pool ι α), p = (ofItems items workers).run work events →
      p.started.Nodup ∧
      (p.isOver = true →
        p.outcomes.length = items.length ∧
        (∀ i x, items[i]? = some x → ∃ o, p.outcomes[i]? = some o ∧
          (o = .skipped ↔ i ∉ p.started) ∧
          (o = .timedOut ↔ i ∈ p.cancelled) ∧
          (∀ a, o = .completed a ↔ i ∈ p.started ∧ i ∉ p.cancelled ∧ work x = .ok a) ∧
          (∀ m, o = .failed m ↔ i ∈ p.started ∧ i ∉ p.cancelled ∧
            (work x = .error (.text m) ∨ work x = .error .other ∧ m = "unit panicked"))) ∧
        (∀ k, p.counters.number k = (p.outcomes.map Outcome.kind).count k) ∧
        p.counters.completed + p.counters.timedOut + p.counters.failed + p.counters.skipped
          = items.length ∧
        ((∀ e ∈ events, e ≠ .interrupt ∧ e ≠ .exhaust) → .skipped ∉ p.outcomes)) := by
  have hstart : Conserves work (ofItems items workers) := .ofItems items workers
  refine ⟨fun schedule hfair => exists_isOver hstart (Nat.le_max_left 1 workers) hfair, ?_⟩
  rintro events p rfl
  have h := hstart.run events
  have hitems := items_run work (ofItems items workers) events
  generalize hp : (ofItems items workers).run work events = p at h hitems
  replace hitems : p.items = items := hitems
  refine ⟨nodup_started h, fun hover => ⟨?_, ?_, number_counters p, ?_, ?_⟩⟩
  · rw [length_outcomes, hitems]
  · intro i x hx
    refine ⟨_, getElem?_outcomes h hover (hitems ▸ hx), ?_⟩
    by_cases hi : i ∈ p.started
    · rw [if_pos hi]
      rcases verdict_cases work p i x with ⟨hc, h⟩ | ⟨hc, ⟨a, hwork, h⟩ | ⟨b, hwork, h⟩⟩
      · simp [h, hi, hc]
      · simp [h, hi, hc, hwork]
      · simp [h, hi, hc, hwork, Breakdown.message_eq_iff]
    · have hnot : i ∉ p.cancelled := fun hc => hi (h.cancelled_started i hc).1
      simp [hi, hnot]
  · rw [sum_counters, hitems]
  · intro hcalm hskipped
    have hinner : ∀ e ∈ events, e.isInner = true := by
      intro e he
      obtain ⟨h₁, h₂⟩ := hcalm e he
      cases e <;> first | rfl | contradiction
    have hquiet : Unstopped p := hp ▸ (Unstopped.ofItems items workers).run events hinner
    obtain ⟨i, hi⟩ := mem_iff_getElem?.1 hskipped
    have hlt : i < p.items.length := by
      rw [← length_outcomes]
      exact (List.getElem?_eq_some_iff.1 hi).1
    have hout := getElem?_outcomes h hover (getElem?_eq_getElem hlt)
    rw [if_pos (mem_started_of_unstopped hquiet hover hlt), hi] at hout
    exact verdict_ne_skipped _ _ _ _ (Option.some.inj hout).symm

def trialWork : Nat → Except Breakdown Nat
  | 1 => .error .other
  | 3 => .error (.text "broken")
  | n => .ok (10 * n)

/-- Two workers on five items. The third item is given up, and the user interrupts the run when the
last one is already in the queue. -/
def trialEvents : List Event :=
  [.check, .submit, .check, .submit, .take, .start 0, .take, .start 1, .finish 0, .receive 0,
    .report 0, .check, .submit, .take, .start 2, .finish 1, .receive 1, .expire 2, .report 1,
    .check, .submit, .take, .start 3, .report 2, .check, .submit, .interrupt, .take, .start 4,
    .finish 3, .receive 3, .report 3, .finish 2]

def trialSchedule (n : Nat) : Event := (trialEvents[n]?).getD .check

theorem isOver_trial {n : Nat} (hn : 33 ≤ n) :
    ((ofItems [0, 1, 2, 3, 4] 2).after trialWork trialSchedule n).isOver = true := by
  induction hn with
  | refl => decide +kernel
  | @step n hn ih =>
    have hcheck : trialSchedule n = .check := by
      have hnone : trialEvents[n]? = none := getElem?_eq_none hn
      simp [trialSchedule, hnone]
    have hstill : ¬ Stirs trialWork _ .check := not_stirs_of_isOver ih
    rw [Nat.succ_eq_add_one, after_succ, hcheck, not_not.1 fun hne => hstill ⟨rfl, hne⟩]
    exact ih

theorem fair_trial : Fair trialWork (ofItems [0, 1, 2, 3, 4] 2) trialSchedule := by
  rintro n ⟨e, hstirs⟩
  refine ⟨32, ?_, rfl, fun h => absurd (congrArg running h) (by decide)⟩
  by_contra hlate
  exact not_stirs_of_isOver (isOver_trial (by omega)) hstirs

def calmEvents : List Event := trialEvents.erase .interrupt ++ [.finish 4, .receive 4, .report 4]

theorem conservation_trial :
    let start : Pool Nat Nat := ofItems [0, 1, 2, 3, 4] 2
    let p := start.run trialWork trialEvents
    let calm := start.run trialWork calmEvents
    (Fair trialWork start trialSchedule ∧
      ∃ n, (start.after trialWork trialSchedule n).isOver = true) ∧
    (p.isOver = true ∧
      p.outcomes = [.completed 0, .failed "unit panicked", .timedOut, .failed "broken", .skipped] ∧
      p.started.Nodup ∧
      (∃ o, p.outcomes[2]? = some o ∧ (o = .timedOut ↔ 2 ∈ p.cancelled)) ∧
      p.counters.completed + p.counters.timedOut + p.counters.failed + p.counters.skipped = 5) ∧
    (calm.isOver = true ∧ (∀ e ∈ calmEvents, e ≠ .interrupt ∧ e ≠ .exhaust) ∧
      .skipped ∉ calm.outcomes) := by
  intro start p calm
  obtain ⟨hreturns, hall⟩ := conservation [0, 1, 2, 3, 4] 2 trialWork
  have hover : p.isOver = true := by decide +kernel
  have hcalm : calm.isOver = true := by decide +kernel
  have hquiet : ∀ e ∈ calmEvents, e ≠ .interrupt ∧ e ≠ .exhaust := by decide
  obtain ⟨honce, hat⟩ := hall trialEvents p rfl
  obtain ⟨-, hitem, -, hsum, -⟩ := hat hover
  obtain ⟨o, ho, -, htimedOut, -⟩ := hitem 2 2 rfl
  obtain ⟨-, -, -, -, hskipped⟩ := (hall calmEvents calm rfl).2 hcalm
  exact ⟨⟨fair_trial, hreturns _ fair_trial⟩,
    ⟨hover, by decide +kernel, honce, ⟨o, ho, htimedOut⟩, hsum⟩, hcalm, hquiet, hskipped hquiet⟩

end Pool

end PatchTriage
