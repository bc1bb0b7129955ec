import PatchTriage.Proofs.Passage

/-!
# Exact gating

The class of a patch in terms of the gates that it passed (`Gate.exact_gating`): passing more gates
never lowers it. A tier whose script cannot be started is neither passed nor failed: the work ends
early, and the patch gets no class (`Gate.no_class_of_refused_script`).
-/

namespace PatchTriage.Gate

open List Job Tier

/-! ## Gates and classes -/

def TierRun.RunsScript (s : Setup) (patchId : Text) (p : Program) (r : TierRun) : Prop :=
  ∃ script executable reply, r.tier.script s.config.tiers = some script ∧
    ⟨.run (tierCommand s patchId p script executable) (some s.taskLimit) true, reply⟩ ∈ r.history

theorem TierRun.Follows.runsScript_iff {s : Setup} {patchId : Text} {p : Program} {r : TierRun}
    (hr : r.Follows s patchId p) :
    r.RunsScript s patchId p ↔ (r.tier.script s.config.tiers).isSome := by
  rw [Follows] at hr
  rw [RunsScript]
  cases hscript : r.tier.script s.config.tiers with
  | none => simp
  | some script =>
    rw [hscript] at hr
    obtain ⟨executable, reply, log, hhistory, -, -⟩ := hr
    simp only [Option.isSome_some, iff_true]
    exact ⟨script, executable, reply, rfl, by simp [hhistory]⟩

section Order

variable {s s' : Setup} {patchId patchId' : Text} {p p' : Program} {tests : List Text}
  {h h' : History} {P P' : Passage} {c c' : Classified} {t : Tier}

theorem Passage.allPassed_iff {count : Nat} {runs : List TestRun} (hle : runs.length ≤ count) :
    allPassed count runs = true ↔ ∀ i < count, ∃ r, runs[i]? = some r ∧ r.passed = true := by
  rw [allPassed, Bool.and_eq_true, beq_iff_eq, all_eq_true]
  constructor
  · rintro ⟨rfl, hall⟩ i hi
    exact ⟨runs[i], getElem?_eq_getElem hi, hall _ (getElem_mem hi)⟩
  · intro hi
    refine ⟨le_antisymm hle (not_lt.1 fun hlt => ?_), fun r hr => ?_⟩
    · obtain ⟨r, hr, -⟩ := hi runs.length hlt
      simp at hr
    · obtain ⟨i, hlt, rfl⟩ := mem_iff_getElem.1 hr
      obtain ⟨r, hr, hpassed⟩ := hi i (lt_of_lt_of_le hlt hle)
      rw [getElem?_eq_getElem hlt] at hr
      cases hr
      exact hpassed

namespace Passage.Happened

variable (hP : P.Happened s patchId p tests h)

include hP

theorem exists_tier_iff {Q : TierRun → Prop} :
    (∃ r ∈ P.tiers, r.tier = t ∧ Q r) ↔ ∃ r, P.tiers[t.index]? = some r ∧ Q r := by
  have hplan : ∀ (i : Nat) r, P.tiers[i]? = some r → Tier.all[i]? = some r.tier := by
    intro i r hr
    have hplan := hP.tiers_inTurn.getElem?_plan hr
    split at hplan
    · exact hplan
    · cases hplan
  constructor
  · rintro ⟨r, hr, rfl, hQ⟩
    obtain ⟨i, hi⟩ := mem_iff_getElem?.1 hr
    exact ⟨r, Tier.getElem?_all.1 (hplan i r hi) ▸ hi, hQ⟩
  · rintro ⟨r, hr, hQ⟩
    have ht : Tier.all[t.index]? = some t := Tier.getElem?_all.2 rfl
    rw [hplan _ r hr] at ht
    exact ⟨r, mem_of_getElem? hr, Option.some.inj ht, hQ⟩

theorem tiers_inTurn_all (hpassed : allPassed tests.length P.tests = true) :
    InTurn TierRun.tier TierRun.passed false all P.tiers := by
  have hturn := hP.tiers_inTurn
  rwa [if_pos hpassed] at hturn

/-- **A tier is reached iff all gates before it were passed.** -/
theorem exists_tier_iff_passed :
    (∃ r ∈ P.tiers, r.tier = t) ↔ allPassed tests.length P.tests = true ∧
      ∀ t' : Tier, t'.index < t.index → ∃ r ∈ P.tiers, r.tier = t' ∧ r.passed = true := by
  have hreached : (∃ r ∈ P.tiers, r.tier = t) ↔ (P.tiers[t.index]?).isSome := by
    simpa [Option.isSome_iff_exists] using hP.exists_tier_iff (t := t) (Q := fun _ => True)
  rw [hreached]
  cases hpassed : allPassed tests.length P.tests with
  | false =>
    have hnil : P.tiers = [] := by
      have hle := hP.tiers_inTurn.length_le
      simpa [hpassed] using hle
    simp [hnil]
  | true =>
    rw [(hP.tiers_inTurn_all hpassed).isSome_getElem?_iff]
    simp only [true_and, hP.exists_tier_iff]
    constructor
    · rintro ⟨-, hbefore⟩ t' ht'
      exact hbefore t'.index ht'
    · intro hbefore
      refine ⟨t.index_lt, fun j hj => ?_⟩
      have hlt : j < Tier.all.length := lt_trans hj t.index_lt
      have hindex : j = Tier.all[j].index := Tier.getElem?_all.1 (getElem?_eq_getElem hlt)
      rw [hindex]
      exact hbefore _ (hindex ▸ hj)

/-- **The script of a tier is run iff there is one and all gates before it were passed.** -/
theorem runsScript_iff : (∃ r ∈ P.tiers, r.tier = t ∧ r.RunsScript s patchId p) ↔
      (t.script s.config.tiers).isSome ∧ allPassed tests.length P.tests = true ∧
        ∀ t' : Tier, t'.index < t.index → ∃ r ∈ P.tiers, r.tier = t' ∧ r.passed = true := by
  rw [← hP.exists_tier_iff_passed]
  constructor
  · rintro ⟨r, hr, rfl, hruns⟩
    exact ⟨(hP.tiers_follow r hr).runsScript_iff.1 hruns, r, hr, rfl⟩
  · rintro ⟨hscript, r, hr, rfl⟩
    exact ⟨r, hr, rfl, (hP.tiers_follow r hr).runsScript_iff.2 hscript⟩

end Passage.Happened

/-- **The class is above the failure of a tier iff the tier was passed.** -/
theorem rank_lt_iff_of_tierVerdict {runs : List TierRun} {cls : Class}
    (hturn : InTurn TierRun.tier TierRun.passed false all runs)
    (hcls : Passage.tierVerdict runs = .ok cls) :
    t.failureClass.rank < cls.rank ↔ ∃ r, runs[t.index]? = some r ∧ r.passed = true := by
  rw [rank_failureClass]
  rw [Passage.tierVerdict] at hcls
  split at hcls
  · rename_i hfind
    cases hcls
    have hall : ∀ r ∈ runs, r.passed = true := by simpa using hfind
    have hlen : runs.length = all.length := by
      rcases hturn.complete with hlen | hstop | ⟨r, hr, hfailed⟩
      · exact hlen
      · cases hstop
      · simp [hall r (mem_of_getLast? hr)] at hfailed
    have hlt : t.index < runs.length := hlen ▸ t.index_lt
    refine ⟨fun _ => ⟨_, getElem?_eq_getElem hlt, hall _ (getElem_mem hlt)⟩, fun _ => ?_⟩
    cases t <;> decide
  · rename_i r hfind
    obtain ⟨hfailed, i, hi, rfl, hbefore⟩ := find?_eq_some_iff_getElem.1 hfind
    have hget : runs[i]? = some runs[i] := getElem?_eq_getElem hi
    have hindex : i = runs[i].tier.index := getElem?_all.1 (hturn.getElem?_plan hget)
    have hrank : cls.rank = Class.fixFailingFailed.rank + i := by
      cases hr : runs[i].result with
      | error e => rw [hr] at hcls; cases hcls
      | ok passed =>
        rw [hr] at hcls
        cases hcls
        rw [rank_failureClass, ← hindex]
    rw [hrank, Nat.add_lt_add_iff_left]
    constructor
    · intro hlt
      exact ⟨_, getElem?_eq_getElem (lt_trans hlt hi), by simpa using hbefore _ hlt⟩
    · rintro ⟨r, hr, hpassed⟩
      by_contra hle
      rcases Nat.lt_or_eq_of_le (not_lt.1 hle) with hlt | rfl
      · -- the tier that was not passed is then not the last one
        have hlast : i + 1 < runs.length := lt_of_le_of_lt hlt (List.getElem?_eq_some_iff.1 hr).1
        simp [hturn.passed_of_lt hget hlast] at hfailed
      · rw [hget] at hr
        cases hr
        simp [hpassed] at hfailed

/-- Every gate that is passed in `P` is passed in `P'`, if `P'` comes to it, and `P'` is not
cancelled before a test that `P` has run. -/
structure Passage.AtMost (P P' : Passage) : Prop where
  tests : ∀ (i : Nat) r r', P.tests[i]? = some r → P'.tests[i]? = some r' → r.passed = true →
    r'.passed = true
  tiers : ∀ r ∈ P.tiers, ∀ r' ∈ P'.tiers, r.tier = r'.tier → r.passed = true → r'.passed = true
  cancelled : P'.cancelled = true → P.tests.length ≤ P'.tests.length

namespace Passage.Describes

theorem cls_eq (hd : P.Describes s patchId p tests h (.ok c)) :
    (if allPassed tests.length P.tests then tierVerdict P.tiers else .ok .incorrect) =
      .ok c.cls := by
  have hverdict := hd.verdict
  rw [verdict_of_outcomes _ (hd.results c rfl).1] at hverdict
  cases hreleased : P.released with
  | error e => rw [hreleased] at hverdict; cases hverdict
  | ok u => rw [hreleased] at hverdict; exact hverdict.symm

/-- **Passing more gates never lowers the class.** -/
theorem rank_le (hd : P.Describes s patchId p tests h (.ok c))
    (hd' : P'.Describes s' patchId' p' tests h' (.ok c')) (hle : P.AtMost P') :
    c.cls.rank ≤ c'.cls.rank := by
  have hcls := hd.cls_eq
  have hcls' := hd'.cls_eq
  cases hpassed : allPassed tests.length P.tests with
  | false =>
    simp only [hpassed] at hcls
    rw [← Except.ok.inj hcls]
    split at hcls'
    · exact le_trans (by decide) (rank_of_tierVerdict hcls')
    · rw [← Except.ok.inj hcls']
  | true =>
    have hpassed' : allPassed tests.length P'.tests = true := by
      rw [allPassed_iff hd'.tests_inTurn.length_le]
      rw [allPassed_iff hd.tests_inTurn.length_le] at hpassed
      intro i hi
      obtain ⟨r, hr, hrp⟩ := hpassed i hi
      exact hd.tests_inTurn.passed_mono hd'.tests_inTurn hle.tests hle.cancelled hr hrp
    rw [if_pos hpassed] at hcls
    rw [if_pos hpassed'] at hcls'
    have hturn := hd.tiers_inTurn_all hpassed
    have hturn' := hd'.tiers_inTurn_all hpassed'
    -- a tier that is passed in the first passage is passed in the second one
    have hmono : ∀ t : Tier, t.failureClass.rank < c.cls.rank →
        t.failureClass.rank < c'.cls.rank := by
      intro t ht
      obtain ⟨r, hr, hrp⟩ := (rank_lt_iff_of_tierVerdict hturn hcls).1 ht
      refine (rank_lt_iff_of_tierVerdict hturn' hcls').2 ?_
      refine hturn.passed_mono hturn' (fun i a a' ha ha' hap => ?_) nofun hr hrp
      have hname : some a.tier = some a'.tier :=
        (hturn.getElem?_plan ha).symm.trans (hturn'.getElem?_plan ha')
      exact hle.tiers a (mem_of_getElem? ha) a' (mem_of_getElem? ha') (Option.some.inj hname) hap
    by_contra hlt
    obtain hhigh | ⟨t, ht⟩ := exists_failureClass (rank_of_tierVerdict hcls')
    · exact hlt (hhigh ▸ Class.rank_le_highQuality c.cls)
    · rw [← ht] at hlt hmono
      exact lt_irrefl _ (hmono t (not_le.1 hlt))

end Passage.Describes

end Order

/-! ## Main results -/

/-- **Exact gating.**  The work on a patch always comes to an end. A patch that could not be staged
is invalid. For a staged one there is a passage that describes the execution: the tests are run in
turn, and the class is that of the first gate that is not passed, unless some work ended early. The
script of a tier is run iff all gates before it were passed. And of two executions the one that
passes more gates does not have the lower class. -/
theorem exact_gating (s : Setup) (patchId : Text) (tests : List Text) :
    (∀ staged host w, ∃ h,
      EndsIn (course s patchId staged tests) h ((course s patchId staged tests).run host w).1) ∧
    (∀ reason h x, EndsIn (course s patchId (.applyFailed reason) tests) h x →
      h = [] ∧ x = .ok { cls := .invalidApply, results := {}, reason := some reason }) ∧
    (∀ reason h x, EndsIn (course s patchId (.buildFailed reason) tests) h x →
      h = [] ∧ x = .ok { cls := .invalidBuild, results := {}, reason := some reason }) ∧
    (∀ p h x, EndsIn (course s patchId (.ready p) tests) h x →
      ∃ P : Passage, P.Describes s patchId p tests h x) ∧
    (∀ p h x (P : Passage), P.Describes s patchId p tests h x → ∀ t : Tier,
      (∃ r ∈ P.tiers, r.tier = t ∧ r.RunsScript s patchId p) ↔
        (t.script s.config.tiers).isSome ∧ Passage.allPassed tests.length P.tests = true ∧
          ∀ t' : Tier, t'.index < t.index → ∃ r ∈ P.tiers, r.tier = t' ∧ r.passed = true) ∧
    (∀ s' patchId' p p' h h' c c' (P P' : Passage), P.Describes s patchId p tests h (.ok c) →
      P'.Describes s' patchId' p' tests h' (.ok c') → P.AtMost P' → c.cls.rank ≤ c'.cls.rank) := by
  refine ⟨fun staged host w => exists_endsIn host _ w, fun reason h x hx => ?_,
    fun reason h x hx => ?_, fun p h x => exists_describes, fun p h x P hd t => hd.runsScript_iff,
    fun s' patchId' p p' h h' c c' P P' hd hd' hle => hd.rank_le hd' hle⟩
  · exact endsIn_pure.1 hx
  · exact endsIn_pure.1 hx

/-! ### A tier that cannot be gone through -/

def twoTiers : Setup :=
  .ofConfig { outputDir := "/v", tiers := { pub := some "/pub.sh", pvt := some "/pvt.sh" } }

def passing : Program where
  runTest test := return { testId := test, passed := true }
  candidate := { path := "/bin/program" }

/-- A host on which the public script ends with the given code, and the private one too, or it
cannot be started. -/
def tierHost (pub : Nat) (pvt : Option Nat) : Host := fun start tree =>
  let ended (code : Nat) : Ran := { tree, exit := some (.code code) }
  if start.args.head? = some "/pub.sh" then .ok (ended pub)
  else (pvt.map ended).elim (.error .notFound) .ok

def twoTiersResult (host : Host) : Except Stop Classified :=
  ((course twoTiers "a.patch" (.ready passing) ["1", "2"]).run host { tree := [], cwd := [] }).1

/-- A patch that passes the tests and the public tier, but not the private one. -/
theorem exact_gating_plausible : (∃ (P : Passage) (h : History),
      P.Describes twoTiers "a.patch" passing ["1", "2"] h (twoTiersResult (tierHost 0 (some 1)))) ∧
    (twoTiersResult (tierHost 0 (some 1))).map Classified.cls = .ok .plausibleFix := by
  obtain ⟨hends, -, -, hdescribes, -⟩ := exact_gating twoTiers "a.patch" ["1", "2"]
  obtain ⟨h, hh⟩ := hends (.ready passing) (tierHost 0 (some 1)) { tree := [], cwd := [] }
  obtain ⟨P, hP⟩ := hdescribes passing h _ hh
  exact ⟨⟨P, h, hP⟩, by decide +kernel⟩

/-- **A script that cannot be started leaves the patch without a class.**  Here the public script
fails, and the patch has a class; it passes, and there is none, since the private script, which is
configured, is found to be missing. -/
theorem no_class_of_refused_script :
    (twoTiersResult (tierHost 1 none)).map Classified.cls = .ok .fixFailingFailed ∧
    (twoTiersResult (tierHost 0 none)).map Classified.cls =
      .error (spawnStop (tierCommand twoTiers "a.patch" passing "/pvt.sh" false) .notFound) := by
  decide +kernel

end PatchTriage.Gate
