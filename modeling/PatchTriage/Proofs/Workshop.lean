import PatchTriage.Proofs.PoolConservation
import PatchTriage.Proofs.WorldRuns
import PatchTriage.Run

/-!
# The pool at work

The pool knows the work on an item only by its result. A `Workshop` is a pool together with the work
on its patches, operation by operation, in one world. Work goes on until it has ended, also after
its worker has given up on it; from then on it finds itself cancelled.
-/

namespace PatchTriage

open List Text SortedList World Pool

/-! ## What is noted of a patch -/

/-- How far the validation of a patch has got, as far as it was noted. -/
def World.stageOf (w : World) (id : Text) : Stage := (find? compare id w.stages).getD .staging

def Op.noted? (id : Text) : Op → Option Stage
  | .enter id' s => if id' = id then some s else none
  | _ => none

def noted (id : Text) (h : History) : List Stage := h.filterMap fun e => e.op.noted? id

theorem noted_append (id : Text) (h₁ h₂ : History) :
    noted id (h₁ ++ h₂) = noted id h₁ ++ noted id h₂ := filterMap_append

theorem noted_cons (id : Text) (e : Exchange) (h : History) :
    noted id (e :: h) = (e.op.noted? id).toList ++ noted id h := by
  rw [noted, filterMap_cons]
  cases e.op.noted? id <;> rfl

theorem World.stageOf_enter (w : World) (id id' : Text) (s : Stage) :
    stageOf { w with stages := insert Text.compare id' s w.stages } id =
      if id' = id then s else w.stageOf id := by
  rw [stageOf]
  split_ifs with hid
  · subst hid
    rw [find?_insert_self, Option.getD_some]
  · rw [find?_insert_of_ne (Ne.symm hid), stageOf]

theorem World.stages_change (w : World) (r : Except IoError FileTree) :
    (w.change r).2.stages = w.stages := by
  cases r <;> rfl

theorem World.stages_runCommand (host : Host) (w : World) (command : Invocation)
    (limit : Option Nat) (cancellable : Bool) :
    (w.runCommand host command limit cancellable).2.stages = w.stages := by
  rw [runCommand]
  dsimp only
  split
  · rfl
  · rfl

/-- **Only noting changes what is noted.** -/
theorem Op.stageOf_perform (host : Host) (w : World) (o : Op) (id : Text) :
    (o.perform host w).2.stageOf id = (o.noted? id).getD (w.stageOf id) := by
  cases o with
  | enter id' s =>
    rw [noted?]
    refine (w.stageOf_enter id id' s).trans ?_
    split_ifs <;> rfl
  | write | append | createNew | setExecutable | removeFile | rename | copy =>
    exact congrArg (fun stages => (find? compare id stages).getD .staging) (w.stages_change _)
  | run =>
    exact congrArg (fun stages => (find? compare id stages).getD .staging)
      (w.stages_runCommand host _ _ _)
  | _ => rfl

def World.SameStages (w w' : World) : Prop := w'.stages = w.stages

/-- **What is noted at the end** of a run of a crew is what was noted last, or what was noted
before. -/
theorem Crew.Reaches.stageOf {ι α : Type} [DecidableEq ι] {host : Host} {c₁ c₂ : Crew ι α}
    (h : Reaches host SameStages c₁ c₂) (id : Text) :
    ∃ τ, c₂.trace = c₁.trace ++ τ ∧ c₂.world.stageOf id =
      ((noted id (τ.map Prod.snd)).getLast?).getD (c₁.world.stageOf id) := by
  induction h with
  | refl => exact ⟨[], (append_nil _).symm, rfl⟩
  | @other c w hc hw ih =>
    obtain ⟨τ, htrace, hstage⟩ := ih
    refine ⟨τ, htrace, ?_⟩
    rw [← hstage, World.stageOf, World.stageOf, hw]
  | @act c i hc ih =>
    obtain ⟨τ, htrace, hstage⟩ := ih
    cases hi : c.threads i with
    | done x => rw [act_of_done hi]; exact ⟨τ, htrace, hstage⟩
    | step o next =>
      refine ⟨τ ++ [(i, ⟨o, (o.perform host c.world).1⟩)], ?_, ?_⟩
      · rw [act_trace hi, htrace, append_assoc]
      · rw [act_world hi, Op.stageOf_perform, hstage, map_append, noted_append]
        cases ho : o.noted? id <;> simp [noted, ho]

/-! ## The workshop -/

def Run.unitResult : Except Stop PatchResult → Except Breakdown PatchResult
  | .ok r => .ok r
  | .error (.failure f) => .error (.text f.message)
  | .error (.overflow o) => .error (.text o.message.toList)

def Run.unit (s : Setup) (p : Patch) : Action (Except Breakdown PatchResult) :=
  (ExceptT.run (processPatch s p)).bind fun x => .done (unitResult x)

theorem Run.fst_unitOf (host : Host) (s : Setup) {patches : Array Patch} {item : Nat} {p : Patch}
    (hp : patches[item]? = some p) (started time : Nat) (w : World) :
    let start := started + time
    (unitOf host s patches started item time w).1 =
      ((unit s p).run host
        { w with clock := start, cancelAt := some (start + s.taskLimit) }).1 := by
  intro start
  rw [unitOf, hp, unit, Action.run_bind]
  rfl

/-- A pool with the work on its patches, in one world. -/
structure Workshop where
  pool : Pool Nat PatchResult
  crew : Crew Nat (Except Breakdown PatchResult)

namespace Workshop

/-- The workshop before anything has happened. Nothing has been noted of any patch. -/
def opening (s : Setup) (patches : List Patch) (workers : Nat) (w : World) : Workshop where
  pool := .ofItems (range patches.length) workers
  crew :=
    { world := { w with stages := [] }
      threads := fun i => (patches[i]?).elim (.done (.error .other)) (Run.unit s) }

inductive Event where
  | pool (e : Pool.Event)
  | act (item : Nat)
  | outside (w : World)

/-- The world as the work on an item finds it: cancelled once its worker has given up. -/
def worldFor (s : Workshop) (item : Nat) : World :=
  { s.crew.world with cancelAt := if item ∈ s.pool.cancelled then some 0 else none }

/-- What an event does. Work acts only while it goes on, and it ends only when it has a result. -/
def step (host : Host) (s : Workshop) : Event → Workshop
  | .pool (.finish item) =>
    match s.crew.threads item with
    | .done r => { s with pool := s.pool.step (fun _ => r) (.finish item) }
    | .step _ _ => s
  | .pool e => { s with pool := s.pool.step (fun _ => .error .other) e }
  | .act item =>
    if item ∈ s.pool.running then
      { s with crew := { s.crew with world := s.worldFor item }.act host item }
    else s
  | .outside w => { s with crew.world := { w with stages := s.crew.world.stages } }

def run (host : Host) (s : Workshop) (events : List Event) : Workshop := events.foldl (step host) s

variable {host : Host} {s : Workshop} {e : Event}

theorem run_append (events events' : List Event) :
    s.run host (events ++ events') = (s.run host events).run host events' :=
  foldl_append

/-! ### Seen from the work -/

theorem reaches_step (host : Host) (s : Workshop) (e : Event) :
    Crew.Reaches host SameStages s.crew (s.step host e).crew := by
  fun_cases step host s e with
  | case1 | case2 | case3 | case5 => exact .refl
  | case4 item hrunning =>
    have hsame : SameStages s.crew.world (s.worldFor item) := rfl
    exact (Crew.Reaches.refl.other hsame).act item
  | case6 w =>
    have hsame : SameStages s.crew.world { w with stages := s.crew.world.stages } := rfl
    exact Crew.Reaches.refl.other hsame

/-- **The work on the patches is a crew**, whose members act one at a time. -/
theorem reaches (host : Host) (s : Workshop) (events : List Event) :
    Crew.Reaches host SameStages s.crew (s.run host events).crew := by
  induction events generalizing s with
  | nil => exact .refl
  | cons e events ih => exact (reaches_step host s e).trans (ih (s.step host e))

variable {i : Nat} {r : Except Breakdown PatchResult}

theorem threads_step_of_done (h : s.crew.threads i = .done r) :
    (s.step host e).crew.threads i = .done r := by
  obtain ⟨τ, -, htakes⟩ := (reaches_step host s e).takes
  have hi := htakes i
  rw [h] at hi
  exact (Action.takes_done_iff.1 hi).2

/-! ### Seen from the pool -/

theorem items_step (host : Host) (s : Workshop) (e : Event) :
    (s.step host e).pool.items = s.pool.items := by
  fun_cases step host s e with
  | case1 item r => exact items_run (fun _ => r) s.pool [.finish item]
  | case3 e => exact items_run (fun _ => .error .other) s.pool [e]
  | case2 | case4 | case5 | case6 => rfl

variable {work : Nat → Except Breakdown PatchResult}

/-- What an event does in the pool, it does if work comes to the results that it has so far. -/
theorem exists_pool_step (host : Host) {n : Nat} (hitems : s.pool.items = range n)
    (hwork : ∀ i r, s.crew.threads i = .done r → work i = r) (e : Event) :
    ∃ es, (s.step host e).pool = s.pool.run work es := by
  fun_cases step host s e with
  | case1 item r hdone =>
    refine ⟨[.finish item], ?_⟩
    show s.pool.step (fun _ => r) (.finish item) = s.pool.step work (.finish item)
    simp only [Pool.step]
    cases hi : s.pool.items[item]? with
    | none => rfl
    | some x =>
      -- the items are their own numbers
      obtain rfl : item = x := by
        rw [hitems] at hi
        simpa using (List.getElem?_eq_some_iff.1 hi).2
      simp only [hwork item r hdone]
  | case3 e hne =>
    refine ⟨[e], ?_⟩
    show s.pool.step (fun _ => .error .other) e = s.pool.step work e
    cases e with
    | finish item => exact absurd rfl (hne item)
    | _ => rfl
  | case2 | case4 | case5 | case6 => exact ⟨[], rfl⟩

theorem threads_run_of_done (h : s.crew.threads i = .done r) (events : List Event) :
    (s.run host events).crew.threads i = .done r := by
  induction events generalizing s with
  | nil => exact h
  | cons e events ih => exact ih (threads_step_of_done h)

/-- **The pool of a workshop is a pool** in which work comes to the results that it has in the
workshop. -/
theorem exists_pool_run {n : Nat} (hitems : s.pool.items = range n) {events : List Event}
    (hwork : ∀ i r, (s.run host events).crew.threads i = .done r → work i = r) :
    ∃ es, (s.run host events).pool = s.pool.run work es := by
  induction events generalizing s with
  | nil => exact ⟨[], rfl⟩
  | cons e events ih =>
    have hnow : ∀ i r, s.crew.threads i = .done r → work i = r :=
      fun i r hi => hwork i r (threads_run_of_done hi (e :: events))
    obtain ⟨es, hes⟩ := exists_pool_step host hitems hnow e
    obtain ⟨es', hes'⟩ := ih ((items_step host s e).trans hitems) hwork
    refine ⟨es ++ es', ?_⟩
    show ((s.step host e).run host events).pool = _
    rw [hes', hes, Pool.run, Pool.run, Pool.run, foldl_append]

theorem cancelled_step (h : i ∈ s.pool.cancelled) : i ∈ (s.step host e).pool.cancelled := by
  have hstep : ∀ work e', i ∈ (s.pool.step work e').cancelled := by
    intro work e'
    rcases step_eq_self_or_move work s.pool e' with hself | hmove
    · rw [hself]; exact h
    · generalize s.pool.step work e' = q at hmove
      cases hmove with
      | expire hwaiting => exact mem_append_left _ h
      | _ => exact h
  fun_cases step host s e with
  | case1 | case3 => exact hstep _ _
  | case2 | case4 | case5 | case6 => exact h

theorem cancelled_run (h : i ∈ s.pool.cancelled) (events : List Event) :
    i ∈ (s.run host events).pool.cancelled := by
  induction events generalizing s with
  | nil => exact h
  | cons e events ih => exact ih (cancelled_step h)

theorem cancelled_expire (h : i ∈ s.pool.waiting) :
    i ∈ (s.step host (.pool (.expire i))).pool.cancelled := by
  simp [step, Pool.step, h, Pool.settle]

/-! ### Work that has ended -/

theorem started_of_step {p : Pool Nat PatchResult}
    {e : Pool.Event} (hne : e ≠ .finish i) (hi : i ∈ (p.step work e).started) :
    i ∈ (p.step work e).running ∨ i ∈ p.started ∧ i ∉ p.running := by
  rcases step_eq_self_or_move work p e with hself | hmove
  · rw [hself] at hi ⊢
    exact (Decidable.em (i ∈ p.running)).imp_right fun hnot => ⟨hi, hnot⟩
  · generalize p.step work e = q at hi hmove ⊢
    cases hmove with
    | start =>
      rcases mem_append.1 hi with hi | hi
      · refine (Decidable.em (i ∈ p.running)).imp ?_ fun hnot => ⟨hi, hnot⟩
        exact fun hrunning => mem_append_left _ hrunning
      · exact .inl (mem_append_right _ hi)
    | @finish item =>
      have hitem : i ≠ item := by
        rintro rfl
        exact hne rfl
      refine (Decidable.em (i ∈ p.running)).imp ?_ fun hnot => ⟨hi, hnot⟩
      exact (mem_erase_of_ne hitem).2
    | _ => exact (Decidable.em (i ∈ p.running)).imp_right fun hnot => ⟨hi, hnot⟩

def Attended (s : Workshop) : Prop :=
  ∀ i ∈ s.pool.started, i ∈ s.pool.running ∨ ∃ r, s.crew.threads i = .done r

theorem Attended.step (h : s.Attended) (e : Event) : (s.step host e).Attended := by
  intro i
  have hpool {work : Nat → Except Breakdown PatchResult} {e : Pool.Event} (hne : e ≠ .finish i)
      (hi : i ∈ (s.pool.step work e).started) :
      i ∈ (s.pool.step work e).running ∨ ∃ r, s.crew.threads i = .done r := by
    rcases started_of_step hne hi with hrunning | ⟨hstarted, hnot⟩
    · exact .inl hrunning
    · exact .inr ((h i hstarted).resolve_left hnot)
  have hdone : (∃ r, s.crew.threads i = .done r) → ∃ r, (s.step host e).crew.threads i = .done r :=
    fun ⟨r, hr⟩ => ⟨r, threads_step_of_done hr⟩
  revert hdone
  fun_cases Workshop.step host s e with
  | case1 item r hr =>
    intro _ hi
    by_cases hitem : item = i
    · subst hitem
      exact .inr ⟨r, hr⟩
    · exact hpool (by simpa using hitem) hi
  | case3 e hne => exact fun _ => hpool (hne i)
  | case4 => exact fun hdone hi => (h i hi).imp_right hdone
  | case2 | case5 | case6 => exact fun _ => h i

theorem Attended.run (h : s.Attended) (events : List Event) : (s.run host events).Attended := by
  induction events generalizing s with
  | nil => exact h
  | cons e events ih => exact ih (h.step e)

def result (s : Workshop) (i : Nat) : Except Breakdown PatchResult :=
  ((s.crew.threads i).result?).getD (.error .other)

section Opening

variable {setup : Setup} {patches : List Patch} {workers : Nat} {w : World}

/-- **A workshop keeps what a pool keeps.** -/
theorem conserves (host : Host) (setup : Setup) (patches : List Patch) (workers : Nat) (w : World)
    (events : List Event) :
    Pool.Conserves ((opening setup patches workers w).run host events).result
      ((opening setup patches workers w).run host events).pool := by
  have hresult : ∀ i r,
      ((opening setup patches workers w).run host events).crew.threads i = .done r →
      ((opening setup patches workers w).run host events).result i = r := by
    intro i r hi
    rw [result, hi]
    rfl
  obtain ⟨es, hes⟩ := exists_pool_run rfl hresult
  rw [hes]
  exact (Pool.Conserves.ofItems _ _).run es

variable {events : List Event} {i : Nat}
  (hover : ((opening setup patches workers w).run host events).pool.isOver = true)
  (hcancelled : i ∈ ((opening setup patches workers w).run host events).pool.cancelled)

include hover hcancelled

theorem getElem?_outcomes_of_cancelled :
    ((opening setup patches workers w).run host events).pool.outcomes[i]? = some .timedOut := by
  have hconserves := conserves host setup patches workers w events
  have hstarted := (hconserves.cancelled_started i hcancelled).1
  obtain ⟨x, hx⟩ := hconserves.item_of_started hstarted
  rw [getElem?_outcomes hconserves hover hx, if_pos hstarted, verdict,
    if_pos hcancelled]

/-- When nothing is left to be done, the work on which a worker has given up has ended. -/
theorem exists_done_of_cancelled :
    ∃ r, ((opening setup patches workers w).run host events).crew.threads i = .done r := by
  have hattended : ((opening setup patches workers w).run host events).Attended :=
    Attended.run (fun i hi => absurd hi (not_mem_nil)) events
  have hstarted :=
    ((conserves host setup patches workers w events).cancelled_started i hcancelled).1
  obtain ⟨-, -, -, hrunning, -⟩ := isOver_iff.1 hover
  refine (hattended i hstarted).resolve_left ?_
  rw [hrunning]
  exact not_mem_nil

end Opening

end Workshop

end PatchTriage
