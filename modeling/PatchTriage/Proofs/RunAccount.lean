import Mathlib
import PatchTriage.Proofs.Reporting
import PatchTriage.Proofs.TimeoutStage

/-!
# The account of a run

Every patch that was loaded is accounted for when the run is over.
-/

namespace PatchTriage

open Job List SortedList Record

/-! ## The sizes of classes -/

namespace SortedList

variable {κ ν : Type} {cmp : κ → κ → Ordering}

theorem keys_insertWith (join : ν → ν → ν) (k : κ) (v : ν) (m : List (κ × ν)) :
    (insertWith cmp join k v m).map Prod.fst = add cmp k (m.map Prod.fst) := by
  induction m with
  | nil => rfl
  | cons entry m ih =>
    obtain ⟨k', v'⟩ := entry
    rw [insertWith, map_cons, add]
    cases cmp k k' with
    | lt | eq => rfl
    | gt => exact congrArg (k' :: ·) ih

theorem sum_insertWith (k : κ) (n : Nat) (m : List (κ × Nat)) :
    ((insertWith cmp (· + ·) k n m).map Prod.snd).sum = (m.map Prod.snd).sum + n := by
  induction m with
  | nil => simp [insertWith]
  | cons entry m ih =>
    obtain ⟨k', n'⟩ := entry
    rw [insertWith]
    cases cmp k k' with
    | lt | eq => simp only [map_cons, sum_cons]; omega
    | gt => simp only [map_cons, sum_cons, ih]; omega

end SortedList

namespace Class

theorem mem_all (c : Class) : c ∈ all := by cases c <;> decide

theorem label_injective : Function.Injective label := by
  have hall : ∀ a ∈ all, ∀ b ∈ all, a.label = b.label → a = b := by decide +kernel
  exact fun a b => hall a (mem_all a) b (mem_all b)

abbrev tick (counts : List (Text × Nat)) (c : Class) : List (Text × Nat) :=
  insertWith Text.compare (· + ·) c.label 1 counts

variable (classes : List Class)

theorem count_eq_foldl : count classes = classes.foldl tick (count []) := by
  simp only [count, foldl_nil]

def byLabel : List Class :=
  [correct, fixFailingFailed, highQuality, incorrect, invalidApply, invalidBuild, plausibleFix]

theorem count_nil : count [] = byLabel.map fun c => (c.label, 0) := by decide +kernel

theorem keys_count : (count classes).map Prod.fst = byLabel.map label := by
  have hadd : ∀ c ∈ all, add Text.compare c.label (byLabel.map label) = byLabel.map label := by
    decide +kernel
  rw [count_eq_foldl]
  refine foldlRecOn classes tick (motive := fun m => m.map Prod.fst = _) ?_ fun m hm c _ => ?_
  · rw [count_nil, map_map]
    rfl
  · rw [keys_insertWith, hm, hadd c (mem_all c)]

theorem sum_count : ((count classes).map Prod.snd).sum = classes.length := by
  have hfold (m : List (Text × Nat)) :
      ((classes.foldl tick m).map Prod.snd).sum = (m.map Prod.snd).sum + classes.length := by
    induction classes generalizing m with
    | nil => rfl
    | cons c classes ih =>
      rw [foldl_cons, ih, sum_insertWith, length_cons]
      omega
  rw [count_eq_foldl, hfold, count_nil, Nat.add_eq_right]
  rfl

/-- **The size of each class** is found under its label. -/
theorem find?_count (c : Class) :
    find? Text.compare c.label (count classes) = some (classes.count c) := by
  have hfold (m : List (Text × Nat)) (n : Nat) (hm : Ascending Text.compare m)
      (hn : find? Text.compare c.label m = some n) :
      find? Text.compare c.label (classes.foldl tick m) = some (n + classes.count c) := by
    induction classes generalizing m n with
    | nil => exact hn
    | cons d classes ih =>
      rw [foldl_cons]
      -- Labels tell classes apart, so a patch counts for its own class and for no other.
      by_cases hd : d = c
      · subst hd
        have htick : find? Text.compare d.label (tick m d) = some (n + 1) := by
          rw [find?_insertWith hm, hn]
          rfl
        rw [ih _ _ (hm.insertWith ..) htick, count_cons_self, Nat.add_assoc, Nat.add_comm 1]
      · have htick : find? Text.compare c.label (tick m d) = some n := by
          have hne : c.label ≠ d.label := fun h => hd (label_injective h).symm
          rw [find?_insertWith_of_ne hne, hn]
        rw [ih _ _ (hm.insertWith ..) htick, count_cons_of_ne hd]
  have hascending : Ascending Text.compare (byLabel.map fun c => (c.label, 0)) := by
    unfold Ascending
    decide +kernel
  have hzero : ∀ c ∈ all,
      find? Text.compare c.label (byLabel.map fun c => (c.label, 0)) = some 0 := by
    decide +kernel
  rw [count_eq_foldl, count_nil, hfold _ 0 hascending (hzero c (mem_all c)), Nat.zero_add]

end Class

/-! ## Evidence for the ranking -/

namespace Job

variable {α : Type} {Q : α → Prop} {work : Job α}

theorem Gives.orElseAfter (hw : Gives Q work) (cleanup : Job Unit) :
    Gives Q (orElseAfter cleanup work) := by
  intro h a ha
  obtain ⟨b, hb, heq⟩ | ⟨e, h₁, h₂, z, -, -, -, heq⟩ := endsIn_orElseAfter ha
  · cases heq
    exact hw h a hb
  · cases z <;> cases heq

theorem Gives.attempt (hw : Gives Q work) :
    Gives (fun x => ∀ a, x = .ok a → Q a) (attempt work) := by
  intro h x hx a hxa
  subst hxa
  obtain ⟨y, h₁, h₂, rfl, hy, hend⟩ := Action.ends_bind.1 hx
  have hok : Gives (fun x => ∀ a, x = .ok a →
      Q a) (do return Except.ok (ε := Failure) (← work)) := by
    refine hw.bind_of fun a ha => gives_pure ?_
    rintro _ ⟨⟩
    exact ha
  rcases y with (f | o) | b
  · cases (Action.ends_done_iff.1 hend).2
  · cases (Action.ends_done_iff.1 hend).2
  · cases (Action.ends_done_iff.1 hend).2
    exact hok h₁ _ hy a rfl

end Job

theorem Gate.gives_classify_program {s : Setup} {patchId : Text} {count : Nat} {v : Validation} :
    Gives (fun c => c.cls.isRanked = true → c.program ≠ none) (classify s patchId count v) := by
  rw [classify]
  split
  · exact gives_pure fun h => absurd h Bool.false_ne_true
  · exact gives_pure fun h => absurd h Bool.false_ne_true
  · exact gives_pure fun h => absurd h Bool.false_ne_true
  · refine .ite (.bind fun _ => gives_pure fun _ => ?_) (.bind fun _ => gives_pure fun h => ?_)
    · exact Option.some_ne_none _
    · exact absurd h Bool.false_ne_true

namespace Run

variable {s : Setup} {p : Patch}

/-- There is evidence iff a patch of the class takes part in the ranking. -/
def Weighed (s : Setup) (r : PatchResult) : Prop :=
  r.evidence.isSome = (r.cls.isRanked && !s.config.onlyValidate)

theorem gives_evidence? {c : Classified} (hc : c.cls.isRanked = true → c.program ≠ none) :
    Gives (fun e => e.isSome = (c.cls.isRanked && !s.config.onlyValidate)) (evidence? s p c) := by
  rw [evidence?]
  split
  · refine Gives.bind_of (Gives.orElseAfter ?_ _) fun found hfound => .bind fun _ =>
      gives_pure hfound
    split
    · rename_i htakes
      exact .bind fun _ => gives_pure htakes.symm
    · rename_i htakes
      exact gives_pure (by simpa using htakes)
  · rename_i hnone
    have hprogram : c.program = none := Option.eq_none_iff_forall_not_mem.2 hnone
    have hcls : c.cls.isRanked = false := by
      cases hranked : c.cls.isRanked
      · rfl
      · exact absurd hprogram (hc hranked)
    exact gives_pure (by rw [hcls]; rfl)

/-- **There is evidence for the patches that take part in the ranking**, and for no others. -/
theorem gives_processPatch : Gives (Weighed s) (processPatch s p) := by
  have hvalidate : Gives (Weighed s) (validatePatch s p) :=
    .bind fun _ => .bind fun _ => .bind fun _ => .bind fun _ => .bind fun _ => .bind fun _ =>
      Gate.gives_classify_program.bind_of fun _ hc => .bind fun _ =>
        (gives_evidence? hc).bind_of fun _ he => gives_pure he
  refine hvalidate.attempt.bind_of fun x hx => ?_
  split
  · exact gives_pure (hx _ rfl)
  · exact gives_pure rfl

/-! ## Where each patch is put -/

section Entries

variable {stageOf : Text → Stage} {patches : List Patch} {outcomes : List (Outcome PatchResult)}

/-- The ids of the patches that are picked by their outcomes, in order. -/
def idsWhere (patches : List Patch) (outcomes : List (Outcome PatchResult))
    (pick : Outcome PatchResult → Bool) : List Text :=
  ((patches.zip outcomes).filter fun entry => pick entry.2).map fun entry => entry.1.id

/-- What is put down for a patch or not, by its outcome, is found in order in the end. -/
theorem view_account (view : Account → List Text) (pick : Outcome PatchResult → Bool)
    (hempty : view {} = [])
    (hstep : ∀ a p o, view (a.add stageOf (p, o)) = view a ++ if pick o then [p.id] else []) :
    view (account stageOf patches outcomes) = idsWhere patches outcomes pick := by
  have hfold (entries : List (Patch × Outcome PatchResult)) (a : Account) :
      view (entries.foldl (Account.add stageOf) a)
        = view a ++ (entries.filter fun entry => pick entry.2).map fun entry => entry.1.id := by
    induction entries generalizing a with
    | nil => simp
    | cons entry entries ih =>
      obtain ⟨p, o⟩ := entry
      rw [foldl_cons, ih, hstep, append_assoc]
      cases hpick : pick o <;> simp [hpick]
  rw [account, hfold, hempty, nil_append, idsWhere]

theorem recordIds_account : (account stageOf patches outcomes).records.map patchId
    = idsWhere patches outcomes fun o => decide (o ≠ .skipped) := by
  refine view_account (fun a => a.records.map patchId) _ rfl fun a p o => ?_
  cases o <;> simp [Account.add, resultOf]

theorem skipped_account : (account stageOf patches outcomes).skipped
    = idsWhere patches outcomes fun o => decide (o = .skipped) := by
  refine view_account Account.skipped _ rfl fun a p o => ?_
  cases o <;> simp [Account.add, resultOf]

def tookTooLong : Outcome PatchResult → Bool
  | .completed r => r.timedOut
  | .timedOut => true
  | _ => false

theorem timedOut_ofTimeout (stage : Stage) : (PatchResult.ofTimeout stage).timedOut = true := by
  cases stage <;> rfl

theorem timedOut_account : (account stageOf patches outcomes).timedOut
    = idsWhere patches outcomes tookTooLong := by
  refine view_account Account.timedOut _ rfl fun a p o => ?_
  cases o with
  | completed r => cases ht : r.timedOut <;> simp [Account.add, resultOf, tookTooLong, ht]
  | timedOut => simp [Account.add, resultOf, tookTooLong, timedOut_ofTimeout]
  | failed message => simp [Account.add, resultOf, tookTooLong, PatchResult.failed]
  | skipped => simp [Account.add, resultOf, tookTooLong]

def hasEvidence : Outcome PatchResult → Bool
  | .completed r => r.evidence.isSome
  | _ => false

theorem evidence_ofTimeout (stage : Stage) : (PatchResult.ofTimeout stage).evidence = none := by
  cases stage <;> rfl

theorem evidenceIds_account :
    (account stageOf patches outcomes).evidence.map (fun entry => entry.1.id)
    = idsWhere patches outcomes hasEvidence := by
  refine view_account (fun a => a.evidence.map fun entry => entry.1.id) _ rfl fun a p o => ?_
  cases o with
  | completed r => cases he : r.evidence <;> simp [Account.add, resultOf, hasEvidence, he]
  | timedOut => simp [Account.add, resultOf, hasEvidence, evidence_ofTimeout]
  | failed message => simp [Account.add, resultOf, hasEvidence, PatchResult.failed]
  | skipped => simp [Account.add, resultOf, hasEvidence]

variable {pick pick' : Outcome PatchResult → Bool}

theorem ids_zip (hlength : outcomes.length = patches.length) :
    (patches.zip outcomes).map (fun entry => entry.1.id) = patches.map Patch.id := by
  conv_rhs => rw [← map_fst_zip hlength.ge]
  rw [map_map]
  rfl

theorem idsWhere_sublist (hlength : outcomes.length = patches.length) :
    (idsWhere patches outcomes pick).Sublist (patches.map Patch.id) :=
  ids_zip hlength ▸ filter_sublist.map _

theorem idsWhere_mono (h : ∀ o, pick o = true → pick' o = true) :
    (idsWhere patches outcomes pick).Sublist (idsWhere patches outcomes pick') :=
  (monotone_filter_right (patches.zip outcomes) fun entry => h entry.2).map _

/-- A patch is found by its id among those that are picked iff it is picked. -/
theorem mem_idsWhere (hids : (patches.map Patch.id).Nodup)
    (hlength : outcomes.length = patches.length)
    {p : Patch} {o : Outcome PatchResult} (hentry : (p, o) ∈ patches.zip outcomes) :
    p.id ∈ idsWhere patches outcomes pick ↔ pick o = true := by
  constructor
  · intro hmem
    obtain ⟨entry, hpicked, hid⟩ := mem_map.1 hmem
    obtain ⟨hentry', hpick⟩ := mem_filter.1 hpicked
    obtain rfl := inj_on_of_nodup_map (ids_zip hlength ▸ hids) hentry' hentry hid
    exact hpick
  · intro hpick
    exact mem_map.2 ⟨(p, o), mem_filter.2 ⟨hentry, hpick⟩, rfl⟩

theorem length_idsWhere (hlength : outcomes.length = patches.length)
    (pick : Outcome PatchResult → Bool) :
    (idsWhere patches outcomes pick).length = outcomes.countP pick := by
  conv_rhs => rw [← map_snd_zip hlength.le]
  rw [idsWhere, length_map, ← countP_eq_length_filter, countP_map]
  rfl

end Entries

/-! ## What the pool leaves -/

/-- The patches have been worked off: there is an outcome for each of them, the outcomes are
counted, and a result is one that the work on the patch can come to. -/
structure WorkedOff (s : Setup) (patches : List Patch) (outcomes : List (Outcome PatchResult))
    (counters : Counters) : Prop where
  length : outcomes.length = patches.length
  counted : ∀ kind, counters.number kind = (outcomes.map Outcome.kind).count kind
  done : ∀ p r, (p, .completed r) ∈ patches.zip outcomes → ∃ h, Ends (processPatch s p) h r

def takesPart : Outcome PatchResult → Bool
  | .completed r => r.cls.isRanked
  | _ => false

namespace WorkedOff

variable {stageOf : Text → Stage} {patches : List Patch} {outcomes : List (Outcome PatchResult)}
  {counters : Counters}

theorem length_skipped (h : WorkedOff s patches outcomes counters) :
    (account stageOf patches outcomes).skipped.length = counters.skipped := by
  have hkind : outcomes.countP (fun o => decide (o = .skipped))
      = (outcomes.map Outcome.kind).count .skipped := by
    rw [count, countP_map]
    refine countP_congr fun o _ => ?_
    cases o <;> simp [Outcome.kind]
  rw [skipped_account, length_idsWhere h.length, hkind]
  exact (h.counted .skipped).symm

theorem length_records (h : WorkedOff s patches outcomes counters) :
    (account stageOf patches outcomes).records.length
      = counters.completed + counters.timedOut + counters.failed := by
  have hrecords : (account stageOf patches outcomes).records.length
      = outcomes.countP fun o => decide (o ≠ .skipped) := by
    rw [← length_idsWhere h.length, ← @recordIds_account stageOf, length_map]
  have hskipped : outcomes.countP (fun o => decide (o = .skipped)) = counters.skipped := by
    rw [← length_idsWhere h.length, ← @skipped_account stageOf, h.length_skipped]
  have hsplit : outcomes.length = outcomes.countP (fun o => decide (o = .skipped))
      + outcomes.countP fun o => decide (o ≠ .skipped) := by
    simpa using length_eq_countP_add_countP (l := outcomes) fun o => decide (o = .skipped)
  have hsum := Outcome.length_eq_sum outcomes
  simp only [← h.counted, Counters.number] at hsum
  omega

theorem evidenceIds (h : WorkedOff s patches outcomes counters)
    (honly : s.config.onlyValidate = false) :
    (account stageOf patches outcomes).evidence.map (fun entry => entry.1.id)
      = idsWhere patches outcomes takesPart := by
  rw [evidenceIds_account, idsWhere, idsWhere]
  congr 1
  refine filter_congr fun entry hentry => ?_
  obtain ⟨p, o⟩ := entry
  cases o with
  | completed r =>
    -- The account takes what it is given; that it is given evidence here is due to the work.
    obtain ⟨g, hg⟩ := h.done p r hentry
    have hweighed : r.evidence.isSome = (r.cls.isRanked && !s.config.onlyValidate) :=
      gives_processPatch g r hg
    simpa [hasEvidence, takesPart, honly] using hweighed
  | timedOut | failed message | skipped => rfl

end WorkedOff

end Run

theorem Pool.mem_results_of_outcomes {ι α : Type} {p : Pool ι α} {i : Nat} {o : Outcome α}
    (h : p.outcomes[i]? = some o) : o = .skipped ∨ (i, o) ∈ p.results := by
  have hfold : ∀ (rs : List (Nat × Outcome α)) (os : List (Outcome α)),
      (rs.foldl (fun os r => os.set r.1 r.2) os)[i]? = some o → os[i]? = some o ∨ (i, o) ∈ rs := by
    intro rs
    induction rs with
    | nil => exact fun os h => .inl h
    | cons r rs ih =>
      intro os h
      rcases ih _ h with hset | hmem
      · rw [getElem?_set] at hset
        split_ifs at hset with hr hlt
        · subst hr
          cases hset
          exact .inr mem_cons_self
        · exact .inl hset
      · exact .inr (mem_cons_of_mem _ hmem)
  refine (hfold _ _ h).imp_left fun hskipped => ?_
  rw [getElem?_replicate] at hskipped
  split_ifs at hskipped
  exact (Option.some.inj hskipped).symm

/-- **A result in the outcomes is one of the work on its item.** -/
theorem Pool.exists_work_of_completed {ι α : Type} {work : ι → Except Breakdown α} {items : List ι}
    {workers : Nat} {events : List Event} {i : Nat} {r : α}
    (h : ((ofItems items workers).run work events).outcomes[i]? = some (.completed r)) :
    ∃ x, items[i]? = some x ∧ work x = .ok r := by
  obtain hskipped | hmem := mem_results_of_outcomes h
  · cases hskipped
  · obtain ⟨x, hx, hverdict⟩ := ((Conserves.ofItems items workers).run events).outcome i _
      (mem_append_right _ hmem)
    rw [items_run] at hx
    refine ⟨x, hx, ?_⟩
    rw [verdict] at hverdict
    split_ifs at hverdict
    cases hwork : work x with
    | ok a =>
      rw [hwork] at hverdict
      cases hverdict
      rfl
    | error b =>
      rw [hwork] at hverdict
      cases hverdict

namespace Timeline

variable {σ α : Type} {work : Nat → Nat → σ → Except Breakdown α × Nat × σ}

def State.Earned (work : Nat → Nat → σ → Except Breakdown α × Nat × σ) (s : State σ α) : Prop :=
  ∀ item result, (item, result) ∈ s.results → ∃ time acted, result = (work item time acted).1

theorem State.Earned.advance {s : State σ α} (h : s.Earned work) (o : ScheduleOptions)
    (item : Nat) :
    (advance o work s item).Earned work := by
  fun_cases Timeline.advance o work s item with
  | case1 | case2 | case3 => exact h
  | case4 hopen asked hgoing room submitted time s' hstart result duration acted hwork ended
      ending =>
    intro j r hmem
    rcases mem_append.1 hmem with hmem | hmem
    · exact h j r hmem
    · cases mem_singleton.1 hmem
      exact ⟨time, s'.acted, congrArg Prod.fst hwork.symm⟩

theorem exists_work_of_completed {o : ScheduleOptions} {size : Nat} {acted : σ} {i : Nat} {r : α}
    (h : (run o size work acted).1.outcomes[i]? = some (.completed r)) :
    ∃ time acted, (work i time acted).1 = .ok r := by
  have hearned (o : ScheduleOptions) (s : State σ α) (hs : s.Earned work) :
      ((range size).foldl (advance o work) s).Earned work :=
    foldlRecOn _ (advance o work) hs fun s hs item _ => hs.advance o item
  -- The items of the pool are numbers, and a result is looked up under the number.
  obtain ⟨x, hx, hresult⟩ := Pool.exists_work_of_completed h
  obtain ⟨hlt, hx⟩ := List.getElem?_eq_some_iff.1 hx
  obtain rfl : i = x := (getElem_range hlt).symm.trans hx
  rw [Option.getD_eq_iff] at hresult
  obtain hlookup | ⟨-, hnone⟩ := hresult
  · obtain ⟨before, after, hsplit, -⟩ := lookup_eq_some_iff.1 hlookup
    have hmem : (i, .ok r) ∈ before ++ (i, .ok r) :: after := by simp
    rw [← hsplit] at hmem
    obtain ⟨time, acted, hwork⟩ := hearned _ _ (fun _ _ h => absurd h not_mem_nil) i _ hmem
    exact ⟨time, acted, hwork.symm⟩
  · cases hnone

end Timeline

namespace Run

variable {s : Setup} {p : Patch}

theorem exists_ends_of_unit {h : History} {r : PatchResult} (he : (unit s p).Ends h (.ok r)) :
    ∃ h, Ends (processPatch s p) h r := by
  obtain ⟨x, h₁, h₂, -, hx, hend⟩ := Action.ends_bind.1 he
  have hok := (Action.ends_done_iff.1 hend).2
  rcases x with (f | o) | a
  · cases hok
  · cases hok
  · cases hok
    exact ⟨h₁, hx⟩

/-- **When the pool is done, the patches have been worked off.** -/
theorem workedOff_work (host : Host) (p : Prepared) (shutdown : Bool) (w : World) :
    WorkedOff p.setup p.population.patches (work host p shutdown w).1.outcomes
      (work host p shutdown w).1.counters where
  length := by
    rw [Pool.length_outcomes, work, Timeline.run, Pool.items_run]
    simp [Pool.ofItems]
  counted := Pool.number_counters _
  done q r hentry := by
    obtain ⟨i, hi⟩ := mem_iff_getElem?.1 hentry
    obtain ⟨hq, ho⟩ := getElem?_zip_eq_some.1 hi
    obtain ⟨time, acted, hunit⟩ := Timeline.exists_work_of_completed ho
    have hq' : p.population.patches.toArray[i]? = some q := by rw [getElem?_toArray, hq]
    rw [fst_unitOf host p.setup hq'] at hunit
    obtain ⟨h, hends⟩ := Action.exists_ends host (unit p.setup q)
      { acted with clock := w.clock + time, cancelAt := some (w.clock + time + p.setup.taskLimit) }
    exact exists_ends_of_unit (hunit ▸ hends)

/-! ## Main results -/

/-- Every patch is accounted for by the records, the files written in the exchanges `h`, and the
summary of a run. -/
structure Accounts (p : Prepared) (outcomes : List (Outcome PatchResult)) (counters : Counters)
    (records : List Record) (h : History) (summary : Summary) : Prop where
  records_sublist : (records.map patchId).Sublist (p.population.patches.map Patch.id)
  skipped_sublist : summary.skipped.Sublist (p.population.patches.map Patch.id)
  exactly_one : ∀ q o, (q, o) ∈ p.population.patches.zip outcomes →
    if o = .skipped then q.id ∈ summary.skipped ∧ q.id ∉ records.map patchId
    else q.id ∈ records.map patchId ∧ q.id ∉ summary.skipped
  results : ⟨.write p.setup.layout.result (Utf8.encode (Report.rows records).pretty), .ok ()⟩ ∈ h
  labels : (summary.classes.map Prod.fst).Perm (Class.all.map Class.label)
  sizes : ∀ c : Class, find? Text.compare c.label summary.classes = some ((records.map cls).count c)
  sum_sizes : (summary.classes.map Prod.snd).sum = records.length
  length_records : records.length = counters.completed + counters.timedOut + counters.failed
  length_skipped : summary.skipped.length = counters.skipped
  timedOut_sublist : summary.timedOut.Sublist (records.map patchId)
  /-- The score file has a line for each patch that takes part in the ranking. -/
  scores : p.setup.config.onlyValidate = false → ∃ order : List Scored,
    ⟨.write p.setup.layout.score (Utf8.encode (Scored.render order)), .ok ()⟩ ∈ h ∧
      (order.map Scored.patchId).Perm (idsWhere p.population.patches outcomes takesPart) ∧
      summary.ranked = outcomes.countP takesPart
  counters : summary.counters = counters
  account : ⟨.write p.setup.layout.summary
    (Utf8.encode (Report.summaryJson summary).pretty), .ok ()⟩ ∈ h

theorem accounts_of_reported {stageOf : Text → Stage} {p : Prepared}
    {outcomes : List (Outcome PatchResult)} {counters : Counters} {h : History} {summary : Summary}
    (hids : (p.population.patches.map Patch.id).Nodup)
    (hwork : WorkedOff p.setup p.population.patches outcomes counters)
    (hreport : Reported p (account stageOf p.population.patches outcomes) counters h summary) :
    Accounts p outcomes counters (account stageOf p.population.patches outcomes).records
      h summary where
  records_sublist := recordIds_account ▸ idsWhere_sublist hwork.length
  skipped_sublist := hreport.skipped ▸ skipped_account ▸ idsWhere_sublist hwork.length
  exactly_one q o hentry := by
    rw [hreport.skipped, recordIds_account, skipped_account, mem_idsWhere hids hwork.length hentry,
      mem_idsWhere hids hwork.length hentry]
    split_ifs with ho <;> simp [ho]
  results := hreport.results
  labels := by
    rw [hreport.classes, Class.keys_count]
    exact Perm.map _ (by decide)
  sizes c := hreport.classes ▸ Class.find?_count _ c
  sum_sizes := by rw [hreport.classes, Class.sum_count, length_map]
  length_records := hwork.length_records
  length_skipped := hreport.skipped ▸ hwork.length_skipped
  timedOut_sublist := by
    rw [hreport.timedOut, timedOut_account, recordIds_account]
    refine idsWhere_mono ?_
    intro o ho
    cases o <;> simp_all [tookTooLong]
  scores honly := by
    have hranking := hreport.ranking
    rw [RankingWritten, if_neg (by simp [honly]), hwork.evidenceIds honly] at hranking
    obtain ⟨order, hwritten, hperm, hranked⟩ := hranking
    refine ⟨order, hwritten, hperm, ?_⟩
    rw [hranked, ← length_map (f := Scored.patchId), hperm.length_eq, length_idsWhere hwork.length]
  counters := hreport.counters
  account := hreport.account

/-- **The reports of a run account for all patches.**  The patches have different ids and have been
worked off, in whatever way, and what is put into the output directory gets there. Then the run
comes to its summary, and the files and the summary have every patch at its place. The one exception
is the ranking, which may come upon a distance that is too large; it ends the run. -/
theorem conclude_accounts (stageOf : Text → Stage) {p : Prepared}
    {outcomes : List (Outcome PatchResult)} {counters : Counters} (elapsed : Nat)
    (hids : (p.population.patches.map Patch.id).Nodup)
    (hwork : WorkedOff p.setup p.population.patches outcomes counters) {h : History}
    (hgranted : ∀ e ∈ h, e.Granted) {x : Except Stop Summary}
    (hends : EndsIn
      (conclude p (account stageOf p.population.patches outcomes) counters elapsed) h x) :
    let a := account stageOf p.population.patches outcomes
    (∃ summary, x = .ok summary ∧ Accounts p outcomes counters a.records h summary) ∨
      (p.setup.config.onlyValidate = false ∧
        ∃ o, x = .error (.overflow o) ∧ Overflows p.setup a.evidence o) := by
  cases x with
  | ok summary => exact .inl ⟨summary, rfl, accounts_of_reported hids hwork (ends_conclude hends)⟩
  | error e =>
    obtain ⟨honly, o, rfl, ho⟩ := stops_conclude _ _ _ _ h e hgranted hends
    exact .inr ⟨honly, o, rfl, ho⟩

/-! ### A run with three patches -/

open Workshop

/-- A host on which the test suite records the coverage that it is asked for: the given counts, or
none for the program without a patch. -/
def recordingHost (counts : Text) : Host := fun start tree => do
  let recorded ← match start.env.lookup Oracle.coverageFileVariable with
    | none => pure tree
    | some out =>
      let unpatched := start.env.lookup patchIdVariable = some Evidence.unpatchedId
      tree.write start.cwd out (Utf8.encode (if unpatched then "a:0\n" else counts))
  return { tree := recorded, exit := some (.code 0) }

def tripleRun : Prepared where
  setup := publicRun.setup
  population :=
    { patches := [publicPatch, { publicPatch with id := "b.patch" },
      { publicPatch with id := "c.patch" }]
      initial := 3 }

def plausibleResult (coverage : Coverage) : PatchResult where
  cls := .plausibleFix
  executed := 1
  evidence := some { coverage := [("1", coverage)] }

/-- The first patch is plausible, the second takes too long, and the third is not started. -/
def tripleOutcomes (coverage : Coverage) : List (Outcome PatchResult) :=
  [.completed (plausibleResult coverage), .timedOut, .skipped]

def tripleCounters : Counters where
  completed := 1
  timedOut := 1
  skipped := 1

theorem workedOff_triple (counts : Text) {coverage : Coverage}
    (hrun : ((processPatch publicRun.setup publicPatch).run (recordingHost counts) publicWorld).1
      = .ok (plausibleResult coverage)) :
    WorkedOff tripleRun.setup tripleRun.population.patches
      (tripleOutcomes coverage) tripleCounters where
  length := rfl
  counted kind := by cases kind <;> rfl
  done q r hmem := by
    have hfirst : q = publicPatch ∧ r = plausibleResult coverage := by
      simpa [tripleRun, tripleOutcomes] using hmem
    obtain ⟨rfl, rfl⟩ := hfirst
    obtain ⟨h, hends⟩ :=
      exists_endsIn (recordingHost counts) (processPatch publicRun.setup publicPatch)
      publicWorld
    rw [hrun] at hends
    exact ⟨h, hends⟩

def tripleEnd (coverage : Coverage) : Job Summary :=
  conclude tripleRun
    (account (fun _ => .staging) tripleRun.population.patches (tripleOutcomes coverage))
      tripleCounters 0

theorem conclude_accounts_triple :
    let host := recordingHost "a:3\nb:1\n"
    let coverage := [("a".toList, 3), ("b".toList, 1)]
    let h := (tripleEnd coverage).exchanges host publicWorld
    let records :=
      (account (fun _ => .staging) tripleRun.population.patches (tripleOutcomes coverage)).records
    (tripleRun.population.patches.map Patch.id).Nodup ∧
      WorkedOff tripleRun.setup tripleRun.population.patches
        (tripleOutcomes coverage) tripleCounters ∧
      (∀ e ∈ h, e.Granted) ∧
      ∃ summary, ((tripleEnd coverage).run host publicWorld).1 = .ok summary ∧
        Accounts tripleRun (tripleOutcomes coverage) tripleCounters records h summary ∧
        summary.ranked = 1 := by
  intro host coverage h records
  have hids : (tripleRun.population.patches.map Patch.id).Nodup := by decide
  have hwork : WorkedOff tripleRun.setup tripleRun.population.patches (tripleOutcomes coverage)
      tripleCounters :=
    workedOff_triple "a:3\nb:1\n" (by decide +kernel)
  have hgranted : ∀ e ∈ h, e.Granted := by decide +kernel
  have hok : ((tripleEnd coverage).run host publicWorld).1.isOk = true := by decide +kernel
  refine ⟨hids, hwork, hgranted, ?_⟩
  obtain ⟨summary, hx, haccounts⟩ | ⟨-, o, hx, -⟩ :=
    conclude_accounts (fun _ => .staging) 0 hids hwork hgranted
      (endsIn_exchanges host _ publicWorld)
  · obtain ⟨order, -, -, hranked⟩ := haccounts.scores rfl
    exact ⟨summary, hx, haccounts, hranked⟩
  · rw [tripleEnd, hx] at hok
    cases hok

/-- **A count can keep a run from its summary.** All that is to be written can be, and the first
patch takes part in the ranking. Its distance does not fit into a word, so that there are neither
scores nor a summary. -/
theorem conclude_overflows :
    let host := recordingHost "a:18446744073709551615\nb:1\n"
    let coverage := [("a".toList, 18446744073709551615), ("b".toList, 1)]
    let h := (tripleEnd coverage).exchanges host publicWorld
    let after := ((tripleEnd coverage).run host publicWorld).2.tree
    (tripleRun.population.patches.map Patch.id).Nodup ∧
      WorkedOff tripleRun.setup tripleRun.population.patches
        (tripleOutcomes coverage) tripleCounters ∧
      (∀ e ∈ h, e.Granted) ∧
      (tripleOutcomes coverage).countP takesPart = 1 ∧
      ((tripleEnd coverage).run host publicWorld).1 = .error (.overflow .add) ∧
      after.isFile [] tripleRun.setup.layout.result = true ∧
      after.isFile [] tripleRun.setup.layout.score = false ∧
      after.isFile [] tripleRun.setup.layout.summary = false := by
  intro host coverage h after
  have hwork : WorkedOff tripleRun.setup tripleRun.population.patches (tripleOutcomes coverage)
      tripleCounters :=
    workedOff_triple "a:18446744073709551615\nb:1\n" (by decide +kernel)
  refine ⟨by decide, hwork, ?_⟩
  decide +kernel

end Run

end PatchTriage
