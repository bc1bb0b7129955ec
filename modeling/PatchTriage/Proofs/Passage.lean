import Mathlib.Data.List.Infix
import PatchTriage.Gate
import PatchTriage.Proofs.Endings

/-!
# The passage of a patch through the gates

A patch goes through its failing tests and then through the tiers, and stops at the first gate that
it does not pass, for any program, any answers of the world and any moment of cancellation.
-/

namespace PatchTriage

open Job TestResults List

/-! ## Going through a plan -/

/-- `taken` is what was done of a plan: its steps in order, up to the first that was not passed or
until something else put a stop to it. -/
structure InTurn {α β : Type} (name : α → β) (passed : α → Bool) (stopped : Bool) (plan : List β)
    (taken : List α) : Prop where
  isPrefix : taken.map name <+: plan
  passed_of_mem_dropLast : ∀ a ∈ taken.dropLast, passed a = true
  complete : taken.length = plan.length ∨ stopped = true ∨ ∃ a, taken.getLast? = some a ∧
    passed a = false

namespace InTurn

variable {α β : Type} {name : α → β} {passed : α → Bool} {stopped stopped' : Bool} {plan : List β}
  {taken taken' : List α} {a : α} {b : β} {i : Nat}

theorem nil : InTurn name passed stopped [] [] := ⟨prefix_rfl, by simp, .inl rfl⟩

theorem halt (plan : List β) : InTurn name passed true plan [] :=
  ⟨List.nil_prefix, by simp, .inr (.inl rfl)⟩

theorem fail (plan : List β) (hb : name a = b) (ha : passed a = false) :
    InTurn name passed stopped (b :: plan) [a] :=
  ⟨hb ▸ prefix_append [name a] plan, by simp, .inr (.inr ⟨a, rfl, ha⟩)⟩

theorem pass (ht : InTurn name passed stopped plan taken) (hb : name a = b)
    (ha : passed a = true) : InTurn name passed stopped (b :: plan) (a :: taken) := by
  refine ⟨hb ▸ (prefix_cons_inj _).2 ht.isPrefix, ?_, ?_⟩
  · intro c hc
    cases taken with
    | nil => cases hc
    | cons d taken =>
      rcases mem_cons.1 hc with rfl | hc
      · exact ha
      · exact ht.passed_of_mem_dropLast c hc
  · rcases ht.complete with hlen | hstop | ⟨c, hc, hpassed⟩
    · exact .inl (by simp [hlen])
    · exact .inr (.inl hstop)
    · exact .inr (.inr ⟨c, by simp [getLast?_cons, hc], hpassed⟩)

section Steps

variable (ht : InTurn name passed stopped plan taken)

include ht

theorem length_le : taken.length ≤ plan.length := by simpa using ht.isPrefix.length_le

theorem getElem?_plan (ha : taken[i]? = some a) : plan[i]? = some (name a) := by
  obtain ⟨hi, rfl⟩ := List.getElem?_eq_some_iff.1 ha
  rw [prefix_iff_getElem?.1 ht.isPrefix i (by simpa using hi), getElem_map]

theorem passed_of_lt (ha : taken[i]? = some a) (hi : i + 1 < taken.length) : passed a = true := by
  refine ht.passed_of_mem_dropLast a (mem_of_getElem? (i := i) ?_)
  rw [getElem?_dropLast, if_pos (by omega)]
  exact ha

/-- After steps that were all passed comes the next one, unless the plan is at its end or something
put a stop to it. -/
theorem lt_length (hi : i < plan.length) (hpassed : ∀ j < i, ∃ a, taken[j]? = some a ∧
    passed a = true)
    (hstop : stopped = true → i < taken.length) : i < taken.length := by
  have hle : i ≤ taken.length := by
    by_contra hlt
    obtain ⟨a, ha, -⟩ := hpassed taken.length (by omega)
    simp at ha
  rcases ht.complete with hlen | hs | ⟨a, ha, hfailed⟩
  · omega
  · exact hstop hs
  · refine lt_of_le_of_ne hle fun heq => ?_
    -- then the last step is the one before, which was passed
    rw [getLast?_eq_getElem?] at ha
    have hpos : taken.length - 1 < taken.length := (List.getElem?_eq_some_iff.1 ha).1
    obtain ⟨c, hc, hcp⟩ := hpassed (taken.length - 1) (by omega)
    rw [ha] at hc
    cases hc
    simp [hfailed] at hcp

end Steps

/-- **A step is taken iff all steps before it were passed.** -/
theorem isSome_getElem?_iff (ht : InTurn name passed false plan taken) : (taken[i]?).isSome ↔
      i < plan.length ∧ ∀ j < i, ∃ a, taken[j]? = some a ∧ passed a = true := by
  constructor
  · intro hi
    have hlt : i < taken.length := by simpa using hi
    refine ⟨lt_of_lt_of_le hlt ht.length_le, fun j hj => ?_⟩
    have hj' : taken[j]? = some taken[j] := getElem?_eq_getElem (by omega)
    exact ⟨_, hj', ht.passed_of_lt hj' (by omega)⟩
  · rintro ⟨hi, hpassed⟩
    have hlt := ht.lt_length hi hpassed (by simp)
    simp [hlt]

/-- **Passing more steps.**  If every step that was passed on one way is passed on another one that
takes it too, and the other one is not stopped earlier, then it takes and passes them all. -/
theorem passed_mono (ht : InTurn name passed stopped plan taken)
    (ht' : InTurn name passed stopped' plan taken')
    (hmono : ∀ (i : Nat) a a', taken[i]? = some a → taken'[i]? = some a' → passed a = true →
      passed a' = true)
    (hstop : stopped' = true → taken.length ≤ taken'.length)
    (ha : taken[i]? = some a) (hp : passed a = true) :
    ∃ a', taken'[i]? = some a' ∧ passed a' = true := by
  induction i using Nat.strong_induction_on generalizing a with
  | _ i ih =>
    have hi : i < taken.length := (List.getElem?_eq_some_iff.1 ha).1
    have hbefore : ∀ j < i, ∃ a', taken'[j]? = some a' ∧ passed a' = true := by
      intro j hj
      have hj' : taken[j]? = some taken[j] := getElem?_eq_getElem (by omega)
      exact ih j hj hj' (ht.passed_of_lt hj' (by omega))
    have hlt :=
      ht'.lt_length (lt_of_lt_of_le hi ht.length_le) hbefore fun hs => lt_of_lt_of_le hi (hstop hs)
    have hi' : taken'[i]? = some taken'[i] := getElem?_eq_getElem hlt
    exact ⟨_, hi', hmono i a _ ha hi' hp⟩

end InTurn

def Tier.index : Tier → Nat
  | pub => 0
  | pvt => 1
  | adversarial => 2

theorem Tier.getElem?_all {t : Tier} {i : Nat} : Tier.all[i]? = some t ↔ i = t.index := by
  rcases i with _ | _ | _ | i <;> cases t <;> simp [Tier.all, Tier.index]

theorem Tier.index_lt (t : Tier) : t.index < Tier.all.length := by cases t <;> decide

theorem Tier.rank_failureClass (t : Tier) :
    t.failureClass.rank = Class.fixFailingFailed.rank + t.index := by
  cases t <;> rfl

theorem Class.rank_le_highQuality (cls : Class) : cls.rank ≤ Class.highQuality.rank := by
  cases cls <;> decide

/-- A class from the tiers on is the highest one, or that of a patch that failed a tier. -/
theorem Tier.exists_failureClass {cls : Class} (h : Class.fixFailingFailed.rank ≤ cls.rank) :
    cls = .highQuality ∨ ∃ t : Tier, t.failureClass = cls := by
  cases cls with
  | invalidApply | invalidBuild | incorrect => simp [Class.rank] at h
  | fixFailingFailed => exact .inr ⟨.pub, rfl⟩
  | plausibleFix => exact .inr ⟨.pvt, rfl⟩
  | correct => exact .inr ⟨.adversarial, rfl⟩
  | highQuality => exact .inl rfl

namespace TestResults

variable {r : TestResults} {os : List TestOutcome}

theorem outcomes_foldl_push : (os.foldl push r).outcomes = r.outcomes ++ os := by
  induction os generalizing r with
  | nil => simp
  | cons o os ih => rw [foldl_cons, ih]; simp [push]

theorem executed_add_cached_foldl_push :
    (os.foldl push r).executed + (os.foldl push r).cached = r.executed + r.cached + os.length := by
  induction os generalizing r with
  | nil => simp
  | cons o os ih =>
    have hpush : (r.push o).executed + (r.push o).cached = r.executed + r.cached + 1 := by
      cases ho : o.cached <;> simp only [push, ho] <;> simp <;> omega
    rw [foldl_cons, ih, hpush, length_cons]
    omega

end TestResults

namespace Gate

/-! ## What was done -/

/-- The failing tests of a staged patch, and then the remaining gates. -/
def course (s : Setup) (patchId : Text) (staged : Staged) (tests : List Text) : Job Classified := do
  let v ← Validation.run staged tests
  classify s patchId tests.length v

structure TestRun where
  test : Text
  history : History
  result : Except Stop TestOutcome

/-- A tier that was gone through: the exchanges it took, and what came of it. -/
structure TierRun where
  tier : Tier
  history : History
  result : Except Stop Bool

def TestRun.passed (r : TestRun) : Bool :=
  match r.result with
  | .ok o => o.passed
  | .error _ => false

def TierRun.passed (r : TierRun) : Bool :=
  match r.result with
  | .ok passed => passed
  | .error _ => false

/-- What was done for a patch. -/
structure Passage where
  tests : List TestRun
  cancelled : Bool
  tiers : List TierRun := []
  release : History := []
  released : Except Stop Unit := .ok ()

namespace Passage

/-- The exchanges of tests: before each of them comes the question whether the work is cancelled. -/
def testExchanges (runs : List TestRun) (cancelled : Bool) : History :=
  runs.flatMap (fun r => ⟨.isCancelled, false⟩ :: r.history) ++
    if cancelled then [⟨.isCancelled, true⟩] else []

def exchanges (P : Passage) : History :=
  testExchanges P.tests P.cancelled ++ P.tiers.flatMap (·.history) ++ P.release

def outcomes (P : Passage) : Except Stop (List TestOutcome) := P.tests.mapM TestRun.result

def allPassed (count : Nat) (runs : List TestRun) : Bool :=
  runs.length == count && runs.all TestRun.passed

/-- The class by the first tier that is not passed; no class if it could not be gone through. -/
def tierVerdict (runs : List TierRun) : Except Stop Class :=
  match runs.find? (!·.passed) with
  | none => .ok .highQuality
  | some r => r.result.map fun _ => r.tier.failureClass

/-- The class by the first gate that is not passed. There is none if some work ended early. -/
def verdict (count : Nat) (P : Passage) : Except Stop Class := do
  P.released
  let _ ← P.outcomes
  if allPassed count P.tests then tierVerdict P.tiers else return .incorrect

end Passage

def tierCommand (s : Setup) (patchId : Text) (p : Program) (script : Path) (executable : Bool) :
    Invocation :=
  let path := p.candidate.path
  let c := scriptInvocation script executable
  { c with
    args := c.args ++ [path]
    env := (patchIdVariable, patchId) :: (programVariable, path) :: p.candidate.env
    dir := s.config.sourceDir }

/-- What going through a tier is: without a script nothing is done and the tier is not passed; a
script is run once, and the tier is passed if the script succeeds. -/
def TierRun.Follows (s : Setup) (patchId : Text) (p : Program) (r : TierRun) : Prop :=
  match r.tier.script s.config.tiers with
  | none => r.history = [] ∧ r.result = .ok false
  | some script => ∃ executable reply log, r.history = ⟨.isExecutable script, executable⟩ ::
        ⟨.run (tierCommand s patchId p script executable) (some s.taskLimit) true, reply⟩ :: log ∧
      (∀ e ∈ log, ∀ c limit cancellable, e.op ≠ .run c limit cancellable) ∧
      r.result = (reply.mapError (spawnStop (tierCommand s patchId p script executable))).map
        Output.success

/-! ## What the gates do -/

section Steps

variable {s : Setup} {patchId : Text} {p : Program} {h : History}

theorem mapM_result_cons {o : TestOutcome} {test : Text} {history : History} {runs : List TestRun} :
    (⟨test, history, .ok o⟩ :: runs).mapM TestRun.result =
      (runs.mapM TestRun.result).map (o :: ·) := by
  rw [mapM_cons]
  cases runs.mapM TestRun.result <;> rfl

/-- **The tests are gone through in turn**, each after the question whether the work is cancelled.
-/
theorem endsIn_runTests {tests : List Text} {results : TestResults} {x : Except Stop TestResults}
    (hx : EndsIn (Validation.runTests results (tests.map p.runTest)) h x) :
    ∃ runs cancelled, h = Passage.testExchanges runs cancelled ∧
      (∀ r ∈ runs, EndsIn (p.runTest r.test) r.history r.result) ∧
      InTurn TestRun.test TestRun.passed cancelled tests runs ∧
      x = (runs.mapM TestRun.result).map (foldl push results) := by
  induction tests generalizing results h with
  | nil =>
    obtain ⟨rfl, rfl⟩ := endsIn_pure.1 hx
    exact ⟨[], false, rfl, by simp, .nil, rfl⟩
  | cons test tests ih =>
    obtain ⟨noticed, h, rfl, hrest⟩ := endsIn_op_bind.1 hx
    cases noticed with
    | true =>
      obtain ⟨rfl, rfl⟩ := endsIn_pure.1 hrest
      exact ⟨[], true, rfl, by simp, .halt _, rfl⟩
    | false =>
      obtain ⟨o, h₁, h₂, rfl, ho, hnext⟩ | ⟨e, he, rfl⟩ := endsIn_bind.1 hrest
      · cases hpassed : o.passed with
        | true =>
          simp only [hpassed, if_true] at hnext
          obtain ⟨runs, cancelled, rfl, hruns, hturn, rfl⟩ := ih hnext
          refine ⟨⟨test, h₁, .ok o⟩ :: runs, cancelled, ?_, ?_, hturn.pass rfl hpassed, ?_⟩
          · simp [Passage.testExchanges]
          · exact forall_mem_cons.2 ⟨ho, hruns⟩
          · rw [mapM_result_cons]
            cases runs.mapM TestRun.result <;> rfl
        | false =>
          simp only [hpassed] at hnext
          obtain ⟨rfl, rfl⟩ := endsIn_pure.1 hnext
          refine ⟨[⟨test, h₁, .ok o⟩], false, ?_, ?_, .fail tests rfl hpassed, rfl⟩
          · simp [Passage.testExchanges]
          · exact forall_mem_singleton.2 ho
      · refine ⟨[⟨test, h, .error e⟩], false, ?_, ?_, .fail tests rfl rfl, rfl⟩
        · simp [Passage.testExchanges]
        · exact forall_mem_singleton.2 he

/-- What is done after a script: its output is logged if it has failed, and nothing more is run. -/
theorem endsIn_logged {l : Layout} {context : Text} {o : Output} {x : Except Stop Bool}
    (hx : EndsIn (do
      unless o.success do FailureLog.record l patchId context o
      return o.success) h x) :
    (∀ e ∈ h, ∀ c limit cancellable, e.op ≠ .run c limit cancellable) ∧ x = .ok o.success := by
  cases hsuccess : o.success with
  | true =>
    simp only [hsuccess] at hx
    obtain ⟨rfl, rfl⟩ := endsIn_pure.1 hx
    exact ⟨by simp, rfl⟩
  | false =>
    simp only [hsuccess] at hx
    obtain ⟨⟨⟩, h₁, h₂, rfl, hrecord, hend⟩ := endsIn_sure_bind FailureLog.sure_record hx
    obtain ⟨rfl, rfl⟩ := endsIn_pure.1 hend
    rw [append_nil]
    have huses : Uses (fun o => ∀ c limit cancellable, o ≠ .run c limit cancellable)
        (FailureLog.record l patchId context o) :=
      FailureLog.uses_record (by simp) (by simp)
    exact ⟨fun e he => huses.of_mem hrecord he, rfl⟩

theorem follows_of_endsIn {tier : Tier} {x : Except Stop Bool}
    (hx : EndsIn (runTier s patchId tier p) h x) :
    (⟨tier, h, x⟩ : TierRun).Follows s patchId p := by
  rw [runTier] at hx
  rw [TierRun.Follows]
  cases hscript : tier.script s.config.tiers with
  | none =>
    simp only [hscript] at hx ⊢
    exact endsIn_pure.1 hx
  | some script =>
    simp only [hscript] at hx ⊢
    obtain ⟨c, h₁, h₂, rfl, hc, hrun⟩ := endsIn_sure_bind sure_scriptCommand hx
    obtain ⟨executable, rfl, rfl⟩ := ends_scriptCommand hc
    refine ⟨executable, ?_⟩
    obtain ⟨o, h₃, h₄, rfl, ho, hrecord⟩ | ⟨e, he, rfl⟩ := endsIn_bind.1 hrun
    · obtain ⟨reply, rfl, hreply⟩ := endsIn_command ho
      obtain ⟨hlog, rfl⟩ := endsIn_logged hrecord
      refine ⟨reply, h₄, rfl, hlog, ?_⟩
      exact congrArg (Except.map Output.success) hreply
    · obtain ⟨reply, rfl, hreply⟩ := endsIn_command he
      refine ⟨reply, [], rfl, by simp, ?_⟩
      exact congrArg (Except.map Output.success) hreply

/-- **The tiers are gone through in turn.** -/
theorem endsIn_throughTiers {tiers : List Tier} {x : Except Stop Class}
    (hx : EndsIn (throughTiers s patchId p tiers) h x) :
    ∃ runs, h = runs.flatMap TierRun.history ∧ (∀ r ∈ runs, r.Follows s patchId p) ∧
      InTurn TierRun.tier TierRun.passed false tiers runs ∧ x = Passage.tierVerdict runs := by
  induction tiers generalizing h with
  | nil =>
    obtain ⟨rfl, rfl⟩ := endsIn_pure.1 hx
    exact ⟨[], rfl, by simp, .nil, rfl⟩
  | cons tier tiers ih =>
    obtain ⟨passed, h₁, h₂, rfl, htier, hnext⟩ | ⟨e, he, rfl⟩ := endsIn_bind.1 hx
    · have hfollows := follows_of_endsIn htier
      cases passed with
      | true =>
        obtain ⟨runs, rfl, hruns, hturn, rfl⟩ := ih hnext
        exact ⟨⟨tier, h₁, .ok true⟩ :: runs, rfl, forall_mem_cons.2 ⟨hfollows, hruns⟩,
          hturn.pass rfl rfl, rfl⟩
      | false =>
        obtain ⟨rfl, rfl⟩ := endsIn_pure.1 hnext
        exact ⟨[⟨tier, h₁, .ok false⟩], by simp, forall_mem_singleton.2 hfollows,
          .fail tiers rfl rfl, rfl⟩
    · exact ⟨[⟨tier, h, .error e⟩], by simp, forall_mem_singleton.2 (follows_of_endsIn he),
        .fail tiers rfl rfl, rfl⟩

end Steps

/-! ## The course as a whole -/

def keepsProgram : Except Stop Classified → Bool
  | .ok c => c.program.isSome
  | .error _ => false

/-- A passage tells what was done for a staged patch by the exchanges `h`. -/
structure Passage.Happened (s : Setup) (patchId : Text) (p : Program) (tests : List Text)
    (P : Passage) (h : History) : Prop where
  history : h = P.exchanges
  tests_endsIn : ∀ r ∈ P.tests, EndsIn (p.runTest r.test) r.history r.result
  tests_inTurn : InTurn TestRun.test TestRun.passed P.cancelled tests P.tests
  tiers_follow : ∀ r ∈ P.tiers, r.Follows s patchId p
  tiers_inTurn : InTurn TierRun.tier TierRun.passed false
    (if allPassed tests.length P.tests then Tier.all else []) P.tiers

/-- A passage tells what was done, and how the result `x` follows from it. -/
structure Passage.Describes (s : Setup) (patchId : Text) (p : Program) (tests : List Text)
    (P : Passage) (h : History) (x : Except Stop Classified) : Prop
    extends P.Happened s patchId p tests h where
  verdict : x.map Classified.cls = P.verdict tests.length
  results : ∀ c, x = .ok c → P.outcomes = .ok c.results.outcomes ∧
    c.results.executed + c.results.cached = c.results.outcomes.length
  program : ∀ c, x = .ok c →
    c.program = if Class.fixFailingFailed.rank ≤ c.cls.rank then some p else none
  release : if keepsProgram x then P.release = [] ∧ P.released = .ok ()
    else EndsIn p.release P.release P.released

section Course

variable {s : Setup} {patchId : Text} {p : Program} {tests : List Text} {h : History}
  {runs : List TestRun} {os : List TestOutcome}

theorem map_result_of_mapM (hos : runs.mapM TestRun.result = .ok os) :
    runs.map TestRun.result = os.map .ok := by
  induction runs generalizing os with
  | nil => cases hos; rfl
  | cons r runs ih =>
    rw [mapM_cons] at hos
    cases hr : r.result with
    | error e => rw [hr] at hos; cases hos
    | ok o =>
      cases hrest : runs.mapM TestRun.result with
      | error e => rw [hr, hrest] at hos; cases hos
      | ok os' =>
        rw [hr, hrest] at hos
        cases hos
        rw [map_cons, hr, ih hrest, map_cons]

theorem exists_mapM_of_all_passed (hall : runs.all TestRun.passed = true) :
    ∃ os, runs.mapM TestRun.result = .ok os := by
  induction runs with
  | nil => exact ⟨[], rfl⟩
  | cons r runs ih =>
    rw [all_cons, Bool.and_eq_true] at hall
    obtain ⟨os, hos⟩ := ih hall.2
    cases hr : r.result with
    | error e => simp [TestRun.passed, hr] at hall
    | ok o => exact ⟨o :: os, by rw [mapM_cons, hr, hos]; rfl⟩

/-- The results of the tests say that all of them were run and passed iff that is so. -/
theorem allRunAndPassed_eq {count : Nat} (hos : runs.mapM TestRun.result = .ok os)
    (hle : runs.length ≤ count) :
    allRunAndPassed count (os.foldl push {}) = Passage.allPassed count runs := by
  have hmap := map_result_of_mapM hos
  have hlen : os.length = runs.length := by simpa using (congrArg length hmap).symm
  have hall : runs.all TestRun.passed = os.all (·.passed) := by
    have hresult : runs.all TestRun.passed = (runs.map TestRun.result).all fun
        | .ok o => o.passed
        | .error _ => false := by
      rw [all_map]; rfl
    rw [hresult, hmap, all_map]
    rfl
  have hcount : decide (count ≤ os.length) = (runs.length == count) := by
    rw [hlen, Bool.eq_iff_iff, decide_eq_true_iff, beq_iff_eq]
    omega
  rw [allRunAndPassed, allPassed, outcomes_foldl_push, nil_append, Passage.allPassed, hall, hcount]

/-- The failing tests of a staged program: either all that were run have an outcome, or the work
ends early with the one that has none. -/
theorem endsIn_run {y : Except Stop Validation}
    (hy : EndsIn (Validation.run (.ready p) tests) h y) :
    ∃ runs cancelled, (∀ r ∈ runs, EndsIn (p.runTest r.test) r.history r.result) ∧
      InTurn TestRun.test TestRun.passed cancelled tests runs ∧
      ((∃ os, runs.mapM TestRun.result = .ok os ∧ h = Passage.testExchanges runs cancelled ∧
          y = .ok ⟨.ready, os.foldl push {}, some p⟩) ∨
        ∃ e h₂ z, runs.mapM TestRun.result = .error e ∧
          h = Passage.testExchanges runs cancelled ++ h₂ ∧ EndsIn p.release h₂ z ∧
          y = z.bind fun _ => .error e) := by
  obtain ⟨results, h₁, h₂, rfl, hresults, hend⟩ | ⟨e, he, rfl⟩ := endsIn_bind.1 hy
  · obtain ⟨rfl, rfl⟩ := endsIn_pure.1 hend
    obtain ⟨results', htests, hok⟩ | ⟨e, _, _, z, -, -, -, hz⟩ := endsIn_orElseAfter hresults
    · cases hok
      obtain ⟨runs, cancelled, rfl, hruns, hturn, hmap⟩ := endsIn_runTests htests
      refine ⟨runs, cancelled, hruns, hturn, .inl ?_⟩
      cases hos : runs.mapM TestRun.result with
      | error e => rw [hos] at hmap; cases hmap
      | ok os =>
        rw [hos] at hmap
        cases hmap
        exact ⟨os, rfl, append_nil _, rfl⟩
    · cases z <;> cases hz
  · obtain ⟨a, -, ha⟩ | ⟨e', h₁, h₂, z, rfl, htests, hrelease, hz⟩ := endsIn_orElseAfter he
    · cases ha
    · obtain ⟨runs, cancelled, rfl, hruns, hturn, hmap⟩ := endsIn_runTests htests
      refine ⟨runs, cancelled, hruns, hturn, .inr ⟨e', h₂, z, ?_, rfl, hrelease, ?_⟩⟩
      · cases hos : runs.mapM TestRun.result with
        | error e => rw [hos] at hmap; cases hmap; rfl
        | ok os => rw [hos] at hmap; cases hmap
      · cases z <;> cases hz <;> rfl

variable {x : Except Stop Classified}

/-- The tiers of a staged program: either they give a class, or the work ends early with the one
that could not be gone through. -/
theorem endsIn_classify_of_passed {count : Nat} {results : TestResults}
    (hpassed : allRunAndPassed count results = true)
    (hx : EndsIn (classify s patchId count ⟨.ready, results, some p⟩) h x) :
    ∃ runs, (∀ r ∈ runs, r.Follows s patchId p) ∧
      InTurn TierRun.tier TierRun.passed false Tier.all runs ∧
      ((∃ cls, Passage.tierVerdict runs = .ok cls ∧ h = runs.flatMap TierRun.history ∧
          x = .ok { cls, results, program := some p }) ∨
        ∃ e h₂ z, Passage.tierVerdict runs = .error e ∧ h = runs.flatMap TierRun.history ++ h₂ ∧
          EndsIn p.release h₂ z ∧ x = z.bind fun _ => .error e) := by
  simp only [classify, hpassed, if_true] at hx
  obtain ⟨cls, h₁, h₂, rfl, hcls, hend⟩ | ⟨e, he, rfl⟩ := endsIn_bind.1 hx
  · obtain ⟨rfl, rfl⟩ := endsIn_pure.1 hend
    obtain ⟨cls', htiers, hok⟩ | ⟨e, _, _, z, -, -, -, hz⟩ := endsIn_orElseAfter hcls
    · cases hok
      obtain ⟨runs, rfl, hruns, hturn, hverdict⟩ := endsIn_throughTiers htiers
      exact ⟨runs, hruns, hturn, .inl ⟨cls, hverdict.symm, append_nil _, rfl⟩⟩
    · cases z <;> cases hz
  · obtain ⟨a, -, ha⟩ | ⟨e', h₁, h₂, z, rfl, htiers, hrelease, hz⟩ := endsIn_orElseAfter he
    · cases ha
    · obtain ⟨runs, rfl, hruns, hturn, hverdict⟩ := endsIn_throughTiers htiers
      refine ⟨runs, hruns, hturn, .inr ⟨e', h₂, z, hverdict.symm, rfl, hrelease, ?_⟩⟩
      cases z <;> cases hz <;> rfl

theorem endsIn_classify_of_not_passed {count : Nat} {results : TestResults}
    (hpassed : allRunAndPassed count results = false)
    (hx : EndsIn (classify s patchId count ⟨.ready, results, some p⟩) h x) :
    ∃ z reason, EndsIn p.release h z ∧
      x = z.map fun _ => { cls := .incorrect, results, reason := some reason } := by
  simp only [classify, hpassed] at hx
  obtain ⟨⟨⟩, h₁, h₂, rfl, hrelease, hend⟩ | ⟨e, he, rfl⟩ := endsIn_bind.1 hx
  · obtain ⟨rfl, rfl⟩ := endsIn_pure.1 hend
    rw [append_nil]
    exact ⟨.ok (), _, hrelease, rfl⟩
  · exact ⟨.error e, [], he, rfl⟩

theorem rank_of_tierVerdict {runs : List TierRun} {cls : Class}
    (h : Passage.tierVerdict runs = .ok cls) : Class.fixFailingFailed.rank ≤ cls.rank := by
  rw [Passage.tierVerdict] at h
  split at h
  · cases h
    decide
  · rename_i r _
    cases hr : r.result with
    | error e => rw [hr] at h; cases h
    | ok passed =>
      rw [hr] at h
      cases h
      rw [Tier.rank_failureClass]
      omega

section Result

variable {P : Passage} {x : Except Stop Classified}

theorem verdict_of_outcomes (count : Nat) (hos : P.outcomes = .ok os) :
    P.verdict count = P.released.bind fun _ =>
      if Passage.allPassed count P.tests then Passage.tierVerdict P.tiers else .ok .incorrect := by
  rw [Passage.verdict, hos]
  rfl

theorem results_of_outcomes (hos : P.outcomes = .ok os) :
    P.outcomes = .ok (os.foldl push {}).outcomes ∧
      (os.foldl push {}).executed + (os.foldl push {}).cached =
        (os.foldl push {}).outcomes.length := by
  rw [executed_add_cached_foldl_push, outcomes_foldl_push]
  exact ⟨hos, by simp⟩

namespace Passage.Happened

theorem of_tests (s : Setup) (patchId : Text) {cancelled : Bool}
    (hruns : ∀ r ∈ runs, EndsIn (p.runTest r.test) r.history r.result)
    (hturn : InTurn TestRun.test TestRun.passed cancelled tests runs)
    (hpassed : allPassed tests.length runs = false) (h : History) (z : Except Stop Unit) :
    ({ tests := runs, cancelled, release := h, released := z } : Passage).Happened s patchId p tests
      (testExchanges runs cancelled ++ h) where
  history := by simp [exchanges]
  tests_endsIn := hruns
  tests_inTurn := hturn
  tiers_follow := by simp
  tiers_inTurn := by simpa [hpassed] using InTurn.nil

theorem of_tiers {cancelled : Bool} {tiers : List TierRun}
    (hruns : ∀ r ∈ runs, EndsIn (p.runTest r.test) r.history r.result)
    (hturn : InTurn TestRun.test TestRun.passed cancelled tests runs)
    (hpassed : allPassed tests.length runs = true)
    (htiers : ∀ r ∈ tiers, r.Follows s patchId p)
    (hinTurn : InTurn TierRun.tier TierRun.passed false Tier.all tiers) (h : History)
    (z : Except Stop Unit) :
    ({ tests := runs, cancelled, tiers, release := h, released := z } :
      Passage).Happened s patchId p
      tests (testExchanges runs cancelled ++ (tiers.flatMap TierRun.history ++ h)) where
  history := by simp [exchanges]
  tests_endsIn := hruns
  tests_inTurn := hturn
  tiers_follow := htiers
  tiers_inTurn := by simpa only [hpassed, if_true] using hinTurn

section

variable (hP : P.Happened s patchId p tests h)

include hP

/-- Work that ended early, in a test or in a tier: the program is released. -/
theorem describes_error {e : Stop} (hrelease : EndsIn p.release P.release P.released)
    (hverdict : P.verdict tests.length = P.released.bind fun _ => .error e) :
    P.Describes s patchId p tests h (P.released.bind fun _ => .error e) := by
  obtain ⟨e', he'⟩ : ∃ e' : Stop, ∀ α : Type,
      (P.released.bind fun _ => (.error e : Except Stop α)) = .error e' := by
    cases P.released with
    | ok u => exact ⟨e, fun _ => rfl⟩
    | error e' => exact ⟨e', fun _ => rfl⟩
  rw [he'] at hverdict ⊢
  exact
    { hP with verdict := hverdict.symm, results := nofun, program := nofun, release := hrelease }

theorem describes_test_error {e : Stop} (he : P.outcomes = .error e)
    (hrelease : EndsIn p.release P.release P.released) :
    P.Describes s patchId p tests h (P.released.bind fun _ => .error e) := by
  refine hP.describes_error hrelease ?_
  rw [verdict, he]
  rfl

theorem describes_tier_error {e : Stop} (hos : P.outcomes = .ok os)
    (hpassed : allPassed tests.length P.tests = true) (he : tierVerdict P.tiers = .error e)
    (hrelease : EndsIn p.release P.release P.released) :
    P.Describes s patchId p tests h (P.released.bind fun _ => .error e) := by
  refine hP.describes_error hrelease ?_
  rw [verdict_of_outcomes _ hos, if_pos hpassed, he]

theorem describes_incorrect {reason : Option Text} (hos : P.outcomes = .ok os)
    (hpassed : allPassed tests.length P.tests = false)
    (hrelease : EndsIn p.release P.release P.released) :
    P.Describes s patchId p tests h (P.released.map fun _ =>
      { cls := .incorrect, results := os.foldl push {}, reason }) := by
  have hverdict := verdict_of_outcomes tests.length hos
  simp only [hpassed] at hverdict
  cases hreleased : P.released with
  | error e =>
    rw [hreleased] at hverdict hrelease
    have hend : EndsIn p.release P.release P.released := hreleased ▸ hrelease
    exact { hP with verdict := hverdict.symm, results := nofun, program := nofun, release := hend }
  | ok u =>
    rw [hreleased] at hverdict hrelease
    have hend : EndsIn p.release P.release P.released := hreleased ▸ hrelease
    refine { hP with verdict := hverdict.symm, results := ?_, program := ?_, release := ?_ }
    · rintro c ⟨⟩
      exact results_of_outcomes hos
    · rintro c ⟨⟩
      rfl
    · exact hend

theorem describes_class {cls : Class} (hos : P.outcomes = .ok os)
    (hpassed : allPassed tests.length P.tests = true) (hcls : tierVerdict P.tiers = .ok cls)
    (hrelease : P.release = [] ∧ P.released = .ok ()) :
    P.Describes s patchId p tests h
      (.ok { cls, results := os.foldl push {}, program := some p }) := by
  have hverdict := verdict_of_outcomes tests.length hos
  simp only [hpassed, if_true, hcls, hrelease.2] at hverdict
  refine { hP with verdict := hverdict.symm, results := ?_, program := ?_, release := hrelease }
  · rintro c ⟨⟩
    exact results_of_outcomes hos
  · rintro c ⟨⟩
    exact (if_pos (rank_of_tierVerdict hcls)).symm

end

end Passage.Happened

end Result

/-- **Every execution has a passage.** -/
theorem exists_describes (hx : EndsIn (course s patchId (.ready p) tests) h x) :
    ∃ P : Passage, P.Describes s patchId p tests h x := by
  obtain ⟨v, h₁, h₂, rfl, hv, hclass⟩ | ⟨e, he, rfl⟩ := endsIn_bind.1 hx
  · obtain ⟨runs, cancelled, hruns, hturn, ⟨os, hos, rfl, hvalid⟩ | ⟨e, _, z, -, -, -, hz⟩⟩ :=
      endsIn_run hv
    · cases hvalid
      have heq := allRunAndPassed_eq hos (by simpa using hturn.length_le)
      cases hpassed : Passage.allPassed tests.length runs with
      | true =>
        obtain ⟨tiers, htiers, hinTurn,
            ⟨cls, hcls, rfl, rfl⟩ | ⟨e, h₃, z, he, rfl, hrelease, rfl⟩⟩ :=
          endsIn_classify_of_passed (heq.trans hpassed) hclass
        · have hP := Passage.Happened.of_tiers hruns hturn hpassed htiers hinTurn [] (.ok ())
          rw [append_nil] at hP
          exact ⟨_, hP.describes_class hos hpassed hcls ⟨rfl, rfl⟩⟩
        · have hP := Passage.Happened.of_tiers hruns hturn hpassed htiers hinTurn h₃ z
          exact ⟨_, hP.describes_tier_error hos hpassed he hrelease⟩
      | false =>
        obtain ⟨z, reason, hrelease, rfl⟩ :=
          endsIn_classify_of_not_passed (heq.trans hpassed) hclass
        have hP := Passage.Happened.of_tests s patchId hruns hturn hpassed h₂ z
        exact ⟨_, hP.describes_incorrect hos hpassed hrelease⟩
    · cases z <;> cases hz
  · obtain ⟨runs, cancelled, hruns, hturn,
        ⟨os, -, -, hvalid⟩ | ⟨e', h₂, z, he', rfl, hrelease, hz⟩⟩ := endsIn_run he
    · cases hvalid
    · have hpassed : Passage.allPassed tests.length runs = false := by
        by_contra hne
        rw [Bool.not_eq_false, Passage.allPassed, Bool.and_eq_true] at hne
        obtain ⟨os, hos⟩ := exists_mapM_of_all_passed hne.2
        rw [he'] at hos
        cases hos
      have hz' : (Except.error e : Except Stop Classified) = z.bind fun _ => .error e' := by
        cases z <;> cases hz <;> rfl
      have hP := Passage.Happened.of_tests s patchId hruns hturn hpassed h₂ z
      exact ⟨_, hz' ▸ hP.describes_test_error he' hrelease⟩

end Course

end Gate

end PatchTriage
