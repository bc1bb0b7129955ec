import PatchTriage.Proofs.RunRecords
import PatchTriage.Proofs.Workshop

/-!
# The stage that a timeout is put down to

When a worker has waited too long for a patch, the work on it goes on until it finds that it is
cancelled, and notes further stages. The record of the patch is made when all work has ended.
-/

namespace PatchTriage

open List Crew Timeline Run PatchResult Stage

/-! ## The stages of a validation -/

namespace Stage

def course (c : Class) : List Stage := [.staging, .testing, .gating, .classified c]

def index : Stage → Nat
  | .staging => 0
  | .testing => 1
  | .gating => 2
  | .classified _ => 3

def InCourse (stages : List Stage) : Prop := ∃ c, stages <+: course c

end Stage

namespace Job

variable {α β : Type} {id : Text} {P : List Stage → Prop} {work : Job α}

/-- Whatever the answers are, the work notes stages of one patch only, and those it has noted at any
moment are in `P`. -/
def Notes (id : Text) (P : List Stage → Prop) (work : Job α) : Prop :=
  ∀ h b, (ExceptT.run work).Takes h b → (∀ e ∈ h, ∀ id', id' ≠ id → e.op.noted? id' = none) ∧
    P (noted id h)

end Job

theorem Op.noted?_of_quiet {o : Op} (h : o.isQuiet = true) (id : Text) : o.noted? id = none := by
  cases o with
  | enter id' s => cases h
  | _ => rfl

theorem noted_eq_nil {id : Text} {h : History} (hq : ∀ e ∈ h, e.op.isQuiet = true) :
    noted id h = [] :=
  filterMap_eq_nil_iff.2 fun e he => Op.noted?_of_quiet (hq e he) id

namespace Job

variable {α β : Type} {id : Text} {P : List Stage → Prop} {work : Job α}

theorem Notes.quiet_bind {f : α → Job β} (hq : Quiet work) (hP : P [])
    (hf : ∀ h a, Ends work h a → Notes id P (f a)) : Notes id P (work >>= f) := by
  intro h c ht
  rw [run_bind] at ht
  obtain ⟨b, hb, -⟩ | ⟨x, h₁, h₂, rfl, hx, hrest⟩ := Action.takes_bind ht
  · have hquiet : ∀ e ∈ h, e.op.isQuiet = true := fun e he => hq.of_mem hb he
    exact ⟨fun e he id' _ => Op.noted?_of_quiet (hquiet e he) id', noted_eq_nil hquiet ▸ hP⟩
  · have hquiet : ∀ e ∈ h₁, e.op.isQuiet = true := fun e he => hq.of_mem hx he
    have hnext : (∀ e ∈ h₂, ∀ id', id' ≠ id → e.op.noted? id' = none) ∧ P (noted id h₂) := by
      cases x with
      | ok a => exact hf h₁ a hx h₂ c hrest
      | error e =>
        obtain ⟨rfl, -⟩ := Action.takes_done_iff.1 hrest
        exact ⟨by simp, hP⟩
    refine ⟨fun e he id' hid => ?_, ?_⟩
    · rcases mem_append.1 he with he | he
      · exact Op.noted?_of_quiet (hquiet e he) id'
      · exact hnext.1 e he id' hid
    · rw [noted_append, noted_eq_nil hquiet]
      exact hnext.2

theorem Notes.enter_bind {s : Stage} {f : Unit → Job β} (hP : P [])
    (hf : Notes id (fun stages => P (s :: stages)) (f ())) :
    Notes id P (op (.enter id s) >>= f) := by
  intro h c ht
  cases ht with
  | nil => exact ⟨by simp, hP⟩
  | cons hrest =>
    obtain ⟨hothers, hown⟩ := hf _ _ hrest
    refine ⟨forall_mem_cons.2 ⟨fun id' hid => ?_, hothers⟩, ?_⟩
    · simp [Op.noted?, Ne.symm hid]
    · simpa [noted, Op.noted?] using hown

theorem Notes.of_quiet (hq : Quiet work) (hP : P []) : Notes id P work := by
  intro h b ht
  have hquiet : ∀ e ∈ h, e.op.isQuiet = true := fun e he => hq.of_mem ht he
  exact ⟨fun e he id' _ => Op.noted?_of_quiet (hquiet e he) id', noted_eq_nil hquiet ▸ hP⟩

theorem Uses.noted_of_ends {h : History} {a : α} (hq : Quiet work) (ha : Ends work h a) :
    noted id h = [] :=
  noted_eq_nil fun _ he => hq.of_mem ha he

theorem Notes.of_takes_bind {γ : Type} {g : Except Stop α → γ} (hw : Notes id P work) {h : History}
    {b : Action γ} (ht : ((ExceptT.run work).bind fun x => .done (g x)).Takes h b) :
    (∀ e ∈ h, ∀ id', id' ≠ id → e.op.noted? id' = none) ∧ P (noted id h) := by
  obtain ⟨c, hc, -⟩ | ⟨x, h₁, h₂, rfl, hx, hend⟩ := Action.takes_bind ht
  · exact hw h c hc
  · obtain ⟨rfl, -⟩ := Action.takes_done_iff.1 hend
    rw [append_nil]
    exact hw h₁ _ hx

end Job

namespace Run

open Job

variable {s : Setup} {p : Patch} {h : History}

/-- **A validation notes its stages in order.** -/
theorem notes_validatePatch : Notes p.id Stage.InCourse (validatePatch s p) := by
  have hcourse {stages rest : List Stage} {c : Class} (h : stages ++ rest = course c) :
      Stage.InCourse stages := ⟨c, rest, h⟩
  refine .quiet_bind (uses_lift _) (hcourse (c := .incorrect) rfl) fun _ mode _ => ?_
  refine .enter_bind (hcourse (c := .incorrect) rfl) ?_
  refine .quiet_bind (quiet_stage mode) (hcourse (c := .incorrect) rfl) fun h staged hstaged => ?_
  have hready : staged.Quiet := gives_stage mode h staged hstaged
  refine .enter_bind (hcourse (c := .incorrect) rfl) ?_
  refine .quiet_bind (Validation.quiet_run hready _) (hcourse (c := .incorrect) rfl)
    fun h v hv => ?_
  have hprogram := Validation.gives_run hready _ h v hv
  refine .enter_bind (hcourse (c := .incorrect) rfl) ?_
  refine .quiet_bind (Gate.quiet_classify hprogram _) (hcourse (c := .incorrect) rfl)
    fun h c hc => ?_
  have hclassified := Gate.gives_classify hprogram _ h c hc
  refine .enter_bind (hcourse (c := .incorrect) rfl) ?_
  exact .of_quiet ((quiet_evidence? hclassified).bind fun _ => quiet_pure _)
    (hcourse (c := c.cls) rfl)

/-- **A validation that comes to a result** has noted all its stages. -/
theorem noted_of_ends_validatePatch {r : PatchResult} (hr : Ends (validatePatch s p) h r) :
    noted p.id h = course r.cls := by
  obtain ⟨mode, h₁, _, rfl, hmode, hrest₁⟩ := ends_bind.1 hr
  obtain ⟨_, h₂, _, rfl, hstaging, hrest₂⟩ := ends_bind.1 hrest₁
  obtain ⟨staged, h₃, _, rfl, hstaged, hrest₃⟩ := ends_bind.1 hrest₂
  obtain ⟨_, h₄, _, rfl, htesting, hrest₄⟩ := ends_bind.1 hrest₃
  obtain ⟨v, h₅, _, rfl, hv, hrest₅⟩ := ends_bind.1 hrest₄
  obtain ⟨_, h₆, _, rfl, hgating, hrest₆⟩ := ends_bind.1 hrest₅
  obtain ⟨c, h₇, _, rfl, hc, hrest₇⟩ := ends_bind.1 hrest₆
  obtain ⟨_, h₈, _, rfl, hclassified, hrest₈⟩ := ends_bind.1 hrest₇
  obtain ⟨evidence, h₉, _, rfl, hevidence, hend⟩ := ends_bind.1 hrest₈
  obtain ⟨rfl, rfl⟩ := ends_pure.1 hend
  have hready : staged.Quiet := gives_stage mode h₃ staged hstaged
  have hvalid := Validation.gives_run hready _ h₅ v hv
  have hprogram := Gate.gives_classify hvalid _ h₇ c hc
  simp only [noted_append, (uses_lift _).noted_of_ends hmode,
    (quiet_stage mode).noted_of_ends hstaged, (Validation.quiet_run hready _).noted_of_ends hv,
    (Gate.quiet_classify hvalid _).noted_of_ends hc,
      (quiet_evidence? hprogram).noted_of_ends hevidence, ends_op.1 hstaging, ends_op.1 htesting,
    ends_op.1 hgating, ends_op.1 hclassified]
  simp [noted, Op.noted?, course]

def processed : Except Stop PatchResult → Except Stop PatchResult
  | .ok r => .ok r
  | .error (.failure f) => .ok (.failed .invalidApply f.message)
  | .error (.overflow o) => .error (.overflow o)

theorem run_processPatch : ExceptT.run (processPatch s p) =
      (ExceptT.run (validatePatch s p)).bind fun x => .done (processed x) := by
  rw [processPatch, run_bind]
  show ((ExceptT.run (validatePatch s p >>= fun r => pure (Except.ok r))).bind _).bind _ = _
  rw [run_bind, Action.bind_assoc, Action.bind_assoc]
  congr 1
  funext x
  rcases x with (f | o) | r <;> rfl

/-- The work on a patch notes the stages of this patch in order, and none of another. -/
theorem noted_unit {b : Action (Except Breakdown PatchResult)} (ht : (unit s p).Takes h b) :
    (∀ e ∈ h, ∀ id, id ≠ p.id → e.op.noted? id = none) ∧ Stage.InCourse (noted p.id h) := by
  rw [unit, run_processPatch, Action.bind_assoc] at ht
  exact notes_validatePatch.of_takes_bind ht

end Run

/-! ## The order of stages -/

namespace Stage

variable {stages late : List Stage}

def reached (stages : List Stage) : Stage := stages.getLast?.getD .staging

theorem index_reached (h : InCourse stages) : (reached stages).index = stages.length - 1 := by
  obtain ⟨c, rest, hc⟩ := h
  rcases stages with _ | ⟨a, _ | ⟨b, _ | ⟨d, _ | ⟨e, stages⟩⟩⟩⟩
  · rfl
  all_goals
    simp only [course, cons_append, cons.injEq] at hc
  · obtain ⟨rfl, -⟩ := hc
    rfl
  · obtain ⟨-, rfl, -⟩ := hc
    rfl
  · obtain ⟨-, -, rfl, -⟩ := hc
    rfl
  · obtain ⟨-, -, -, rfl, hnil⟩ := hc
    obtain rfl : stages = [] := (append_eq_nil_iff.1 hnil).1
    rfl

theorem reached_append (stages late : List Stage) :
    reached (stages ++ late) = late.getLast?.getD (reached stages) := by
  rw [reached, reached, getLast?_append]
  cases late.getLast? <;> rfl

theorem InCourse.of_append (h : InCourse (stages ++ late)) : InCourse stages := by
  obtain ⟨c, hc⟩ := h
  exact ⟨c, (prefix_append stages late).trans hc⟩

theorem index_reached_le (h : InCourse (stages ++ late)) :
    (reached stages).index ≤ (reached (stages ++ late)).index := by
  rw [index_reached h, index_reached h.of_append, length_append]
  omega

/-- A validation has stayed at its stage iff it has noted no other stage since. -/
theorem reached_append_eq_iff (h : InCourse (stages ++ late)) :
    reached (stages ++ late) = reached stages ↔ ∀ s ∈ late, s = reached stages := by
  constructor
  · intro heq s hs
    have hindex : stages.length + late.length - 1 = stages.length - 1 := by
      rw [← length_append, ← index_reached h, heq, index_reached h.of_append]
    have hpos : 0 < late.length := length_pos_of_mem hs
    -- only the first stage can be noted without a change
    obtain ⟨s', rfl⟩ : ∃ s', late = [s'] := length_eq_one_iff.1 (by omega)
    rw [mem_singleton.1 hs, ← heq, reached_append]
    rfl
  · intro hall
    rw [reached_append]
    cases hlast : late.getLast? with
    | none => rfl
    | some s => exact hall s (mem_of_getLast? hlast)

theorem ofTimeout_eq_iff {a b : Stage} : (ofTimeout a).cls = (ofTimeout b).cls ∧
      (ofTimeout a).reason = (ofTimeout b).reason ↔ a = b := by
  constructor
  · rintro ⟨hcls, hreason⟩
    cases a <;> cases b <;>
      simp only [ofTimeout, ofTimeout.late, failed] at hcls hreason
    all_goals first | rfl | (exact absurd hreason (by decide)) | rw [hcls]
  · rintro rfl
    exact ⟨rfl, rfl⟩

end Stage

/-! ## Stages in a workshop -/

/-- Where only one member of a crew notes stages of a patch, these are what is noted of it. -/
theorem noted_part {ι : Type} [DecidableEq ι] {id : Text} {i : ι} {τ : List (ι × Exchange)}
    (h : ∀ x ∈ τ, x.2.op.noted? id ≠ none → x.1 = i) :
    noted id (τ.map Prod.snd) = noted id (part i τ) := by
  induction τ with
  | nil => rfl
  | cons x τ ih =>
    obtain ⟨j, e⟩ := x
    obtain ⟨hx, hτ⟩ := forall_mem_cons.1 h
    rw [map_cons, noted_cons, ih hτ]
    by_cases hj : j = i
    · subst hj
      rw [part_cons_self, noted_cons]
    · have hnone : e.op.noted? id = none := by
        by_contra hne
        exact hj (hx hne)
      rw [part_cons_of_ne hj, hnone]
      rfl

namespace Workshop

theorem exists_historyOf_run (host : Host) (s : Workshop) (events : List Event) (i : Nat) :
    ∃ h, (s.run host events).crew.historyOf i = s.crew.historyOf i ++ h := by
  obtain ⟨τ, htrace, -⟩ := (reaches host s events).takes
  exact ⟨part i τ, by rw [historyOf, htrace, part_append, historyOf]⟩

section Opening

variable {host : Host} {setup : Setup} {patches : List Patch} {workers : Nat} {w : World}
  {events : List Event} {s : Workshop} {i : Nat} {p : Patch}
  (hs : (opening setup patches workers w).run host events = s)

include hs

/-- What the work on a patch has asked for leads from its beginning to what is left of it. -/
theorem takes_unit (hp : patches[i]? = some p) :
    (unit setup p).Takes (s.crew.historyOf i) (s.crew.threads i) := by
  have hthread : (opening setup patches workers w).crew.threads i = unit setup p := by
    show (patches[i]?).elim _ _ = _
    rw [hp]
    rfl
  have ht := (reaches host (opening setup patches workers w) events).takes_historyOf rfl i
  rwa [hthread, hs] at ht

theorem historyOf_eq_nil (hnone : patches[i]? = none) : s.crew.historyOf i = [] := by
  have hthread : (opening setup patches workers w).crew.threads i = .done (.error .other) := by
    show (patches[i]?).elim _ _ = _
    rw [hnone]
    rfl
  have ht := (reaches host (opening setup patches workers w) events).takes_historyOf rfl i
  rw [hthread, hs] at ht
  exact (Action.takes_done_iff.1 ht).1

/-- **Only the work on a patch notes its stages.** -/
theorem eq_of_mem_trace (hids : (patches.map Patch.id).Nodup) (hp : patches[i]? = some p)
    {x : Nat × Exchange}
    (hx : x ∈ s.crew.trace) (hnoted : x.2.op.noted? p.id ≠ none) : x.1 = i := by
  obtain ⟨j, e⟩ := x
  have he : e ∈ s.crew.historyOf j := mem_part_iff.2 hx
  cases hq : patches[j]? with
  | none =>
    rw [historyOf_eq_nil hs hq] at he
    exact absurd he not_mem_nil
  | some q =>
    have hid : p.id = q.id := by
      by_contra hne
      exact hnoted ((noted_unit (takes_unit hs hq)).1 e he p.id hne)
    exact index_eq_of_id_eq hids hq hp hid.symm

/-- **What is noted for a patch** is the last stage that the work on it has noted. -/
theorem stageOf_eq_reached (hids : (patches.map Patch.id).Nodup) (hp : patches[i]? = some p) :
    s.crew.world.stageOf p.id = reached (noted p.id (s.crew.historyOf i)) := by
  obtain ⟨τ, htrace, hstage⟩ := (reaches host (opening setup patches workers w) events).stageOf p.id
  rw [hs] at htrace hstage
  have hτ : s.crew.trace = τ := htrace
  have hown : noted p.id (τ.map Prod.snd) = noted p.id (part i τ) :=
    noted_part fun x hx => eq_of_mem_trace hs hids hp (hτ ▸ hx)
  rw [hstage, hown, historyOf, hτ]
  rfl

/-- The record of a patch on which a worker has given up is made from the stage that is noted for
the patch when all work has ended. -/
theorem recordOf_timeout_mem (hp : patches[i]? = some p) (hover : s.pool.isOver = true)
    (hcancelled : i ∈ s.pool.cancelled) :
    recordOf p (.ofTimeout (s.crew.world.stageOf p.id)) ∈
      (account s.crew.world.stageOf patches s.pool.outcomes).records := by
  subst hs
  exact recordOf_mem hp (getElem?_outcomes_of_cancelled hover hcancelled) rfl

theorem eq_recordOf_timeout (hids : (patches.map Patch.id).Nodup) (hp : patches[i]? = some p)
    (hover : s.pool.isOver = true) (hcancelled : i ∈ s.pool.cancelled) {record : Record}
    (hmem : record ∈ (account s.crew.world.stageOf patches s.pool.outcomes).records)
    (hid : record.patchId = p.id) :
    record = recordOf p (.ofTimeout (s.crew.world.stageOf p.id)) := by
  subst hs
  exact eq_recordOf_of_mem hids hp (getElem?_outcomes_of_cancelled hover hcancelled) rfl hmem hid

end Opening

end Workshop

/-! ## Main results -/

namespace Workshop

/-- **A timeout is put down to the stage at which the work ended.**  When a worker gives up on a
patch, the work goes on, and may note further stages. In the end there is one record for the patch.
Its class and reason are those of the last stage that the work has noted, which is not before the
stage at which the time was up; if the work came to a class, they are those of this class. They are
those of the stage at which the time was up iff no other stage was noted since. -/
theorem timedOut_record {o : Arguments.Options} {g : History} {prepared : Prepared}
    (hprepared : Job.Ends (prepare o) g prepared) {i : Nat} {p : Patch}
    (hp : prepared.population.patches[i]? = some p) {host : Host} {workers : Nat} {w : World}
    {before after : List Event} {expiry final : Workshop}
    (hexpiry :
      (opening prepared.setup prepared.population.patches workers w).run host before = expiry)
    (hfinal : expiry.run host (.pool (.expire i) :: after) = final)
    (hwaiting : i ∈ expiry.pool.waiting) (hover : final.pool.isOver = true) :
    let stage := expiry.crew.world.stageOf p.id
    let last := final.crew.world.stageOf p.id
    let records :=
      (account final.crew.world.stageOf prepared.population.patches final.pool.outcomes).records
    ∃ (late : List Stage) (record : Record),
      (∃ r, (unit prepared.setup p).Ends (final.crew.historyOf i) r) ∧
      noted p.id (final.crew.historyOf i) = noted p.id (expiry.crew.historyOf i) ++ late ∧
      last = late.getLast?.getD stage ∧ stage.index ≤ last.index ∧
      (∀ r, Job.Ends (validatePatch prepared.setup p) (final.crew.historyOf i) r →
        last = .classified r.cls) ∧
      record ∈ records ∧ record.patchId = p.id ∧
      (∀ record' ∈ records, record'.patchId = p.id → record' = record) ∧
      record.cls = (PatchResult.ofTimeout last).cls ∧
      record.reason = (PatchResult.ofTimeout last).reason ∧
      (record.cls = (PatchResult.ofTimeout stage).cls ∧
        record.reason = (PatchResult.ofTimeout stage).reason ↔ ∀ s ∈ late, s = stage) := by
  intro stage last records
  have hids := gives_prepare o g prepared hprepared
  have hend : (opening prepared.setup prepared.population.patches workers w).run host
      (before ++ .pool (.expire i) :: after) = final := by
    rw [run_append, hexpiry, hfinal]
  have hcancelled : i ∈ final.pool.cancelled := by
    rw [← hfinal]
    exact cancelled_run (cancelled_expire hwaiting) after
  obtain ⟨r, hr⟩ : ∃ r, final.crew.threads i = .done r := by
    subst hend
    exact exists_done_of_cancelled hover hcancelled
  obtain ⟨rest, hrest⟩ := exists_historyOf_run host expiry (.pool (.expire i) :: after) i
  have hnoted : noted p.id (final.crew.historyOf i) =
      noted p.id (expiry.crew.historyOf i) ++ noted p.id rest := by
    rw [← hfinal, hrest, noted_append]
  have hcourse := (noted_unit (takes_unit hend hp)).2
  have hstage : stage = reached (noted p.id (expiry.crew.historyOf i)) :=
    stageOf_eq_reached hexpiry hids hp
  have hlast : last = reached (noted p.id (final.crew.historyOf i)) :=
    stageOf_eq_reached hend hids hp
  refine ⟨noted p.id rest, recordOf p (.ofTimeout last), ⟨r, ?_⟩, hnoted, ?_, ?_, ?_,
    recordOf_timeout_mem hend hp hover hcancelled, rfl,
    fun record' hmem hid => eq_recordOf_timeout hend hids hp hover hcancelled hmem hid, rfl, rfl,
    ofTimeout_eq_iff.trans ?_⟩
  · have ht := takes_unit hend hp
    rwa [hr] at ht
  · rw [hlast, hnoted, reached_append, hstage]
  · rw [hnoted] at hcourse
    rw [hlast, hnoted, hstage]
    exact index_reached_le hcourse
  · intro r hr
    rw [hlast, noted_of_ends_validatePatch hr]
    rfl
  · rw [hnoted] at hcourse
    rw [hlast, hnoted, hstage]
    exact reached_append_eq_iff hcourse

/-! ### A patch that takes too long in the public tier -/

def publicOptions : Arguments.Options where
  layer :=
    { patchFile := some "/a.patch", testIds := some ["1"], testSuite := some "/suite.sh"
      pubTestScript := some "/public.sh", outputDir := some "/out" }

def publicWorld : World where
  tree :=
    [(["a.patch"], .file (Utf8.encode "--- a/f.c\n+++ b/f.c\n@@ -10,1 +10,1 @@\n+x = 5;\n") false),
      (["public.sh"], .file [] true), (["suite.sh"], .file [] true)]
  cwd := []

def kindHost : Host := fun _ tree => .ok { tree, exit := some (.code 0) }

def publicPatch : Patch where
  id := "a.patch"
  path := "/a.patch"
  sourceFile := "f.c"
  fragments := [({ file := "f.c", line := 10 }, { inserted := ["x = 5"] })]
  partition := some "f.c_10"

def publicRun : Prepared where
  setup := .ofConfig
    { outputDir := "/out", patchLocation := "/a.patch", testIds := ["1"]
      testSuite := some "/suite.sh", tiers := { pub := some "/public.sh" } }
  population := { patches := [publicPatch], initial := 1 }

/-- The workshop when the patch has passed its test, and the public script is to be run. -/
def publicExpiry : Workshop :=
  (opening publicRun.setup publicRun.population.patches 1 publicWorld).run kindHost
    ([.pool .check, .pool .submit, .pool .take, .pool (.start 0)] ++ replicate 8 (.act 0))

def publicFinal : Workshop :=
  publicExpiry.run kindHost
    (.pool (.expire 0) :: (replicate 8 (.act 0) ++ [.pool (.finish 0), .pool (.report 0)]))

theorem prepare_publicOptions :
    ((prepare publicOptions).run kindHost publicWorld).1 = .ok publicRun := by
  decide +kernel

theorem ends_prepare_publicOptions : ∃ g, Job.Ends (prepare publicOptions) g publicRun := by
  obtain ⟨g, hg⟩ := Job.exists_endsIn kindHost (prepare publicOptions) publicWorld
  rw [prepare_publicOptions] at hg
  exact ⟨g, hg⟩

theorem publicRun_eval : 0 ∈ publicExpiry.pool.waiting ∧ publicFinal.pool.isOver = true ∧
    noted publicPatch.id (publicExpiry.crew.historyOf 0) = [.staging, .testing, .gating] ∧
    noted publicPatch.id (publicFinal.crew.historyOf 0) =
      [.staging, .testing, .gating] ++ [.classified .fixFailingFailed] := by
  decide +kernel

/-- The work notes one more stage, and this is the one that the record shows. -/
theorem timedOut_record_public :
    0 ∈ publicExpiry.pool.waiting ∧ publicFinal.pool.isOver = true ∧
    ∃ (late : List Stage) (record : Record),
      noted publicPatch.id (publicFinal.crew.historyOf 0) =
        noted publicPatch.id (publicExpiry.crew.historyOf 0) ++ late ∧
      late = [.classified .fixFailingFailed] ∧
      record ∈ (account publicFinal.crew.world.stageOf publicRun.population.patches
        publicFinal.pool.outcomes).records ∧
      record.patchId = publicPatch.id ∧ record.cls = .fixFailingFailed := by
  obtain ⟨hwaiting, hover, hbefore, hafter⟩ := publicRun_eval
  obtain ⟨g, hg⟩ := ends_prepare_publicOptions
  have hpatch : publicRun.population.patches[0]? = some publicPatch := rfl
  have hexpiry : (opening publicRun.setup publicRun.population.patches 1 publicWorld).run kindHost
      ([.pool .check, .pool .submit, .pool .take, .pool (.start 0)] ++ replicate 8 (.act 0)) =
      publicExpiry := rfl
  have hfinal : publicExpiry.run kindHost
      (.pool (.expire 0) :: (replicate 8 (.act 0) ++ [.pool (.finish 0), .pool (.report 0)])) =
      publicFinal := rfl
  obtain ⟨late, record, -, hnoted, hlast, -, -, hmem, hid, -, hcls, -, -⟩ :=
    timedOut_record hg hpatch hexpiry hfinal hwaiting hover
  have hlate : late = [.classified .fixFailingFailed] := by
    rw [hbefore, hafter] at hnoted
    exact (append_cancel_left hnoted).symm
  refine ⟨hwaiting, hover, late, record, hnoted, hlate, hmem, hid, ?_⟩
  rw [hcls, hlast, hlate]
  rfl

/-- **The record does not show the stage at which the time was up.**  Here this is a tier of tests.
The work goes on until it finds that it is cancelled, has a class by then, and the record says that
the time was up when evidence for the ranking was collected. -/
theorem gating_timeout_recorded_as_class :
    ((prepare publicOptions).run kindHost publicWorld).1 = .ok publicRun ∧
    0 ∈ publicExpiry.pool.waiting ∧ publicFinal.pool.isOver = true ∧
    publicExpiry.crew.world.stageOf publicPatch.id = .gating ∧
    (PatchResult.ofTimeout .gating).cls = .incorrect ∧
    (PatchResult.ofTimeout .gating).reason = some "task timed out while running test tiers" ∧
    (account publicFinal.crew.world.stageOf publicRun.population.patches
        publicFinal.pool.outcomes).records =
      [{ patchId := publicPatch.id, cls := .fixFailingFailed, timedOut := true
         reason := some "task timed out while collecting ranking evidence"
         path := publicPatch.path, exportName := publicPatch.exportName }] := by
  obtain ⟨hwaiting, hover, -, -⟩ := publicRun_eval
  refine ⟨prepare_publicOptions, hwaiting, hover, ?_⟩
  decide +kernel

end Workshop

end PatchTriage
