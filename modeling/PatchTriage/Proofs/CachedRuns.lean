import PatchTriage.Proofs.OutputDirectory

/-!
# Calls that may take their verdict from the store

A call of `UnderDebugger.runTest` first finds out its course, which only looks at the store, and
then completes it, which may record a verdict.
-/

namespace PatchTriage

open Job List Verdicts Verdict Sha256

open Text

open FileTree

/-! ## Work on the store -/

theorem Op.Makes.tame {R : Place} {dir marker : Path} {x y : Place}
    (hdir : StandsInStore R dir x) (hmarker : StandsInStore R marker y) {o : Op}
    (h : o.Makes dir marker) : o.Tame R := by
  cases o with
  | isFile _ => trivial
  | createDirs p => obtain rfl : p = dir := h; exact ⟨_, hdir.stands⟩
  | createNew p bytes => obtain rfl : p = marker := h; exact ⟨_, hmarker.stands⟩
  | _ => exact False.elim h

namespace Verdicts

variable {R : Place} {c : Verdicts} {partition test signature digest reason : Text} {v : Verdict}

def loopPath (c : Verdicts) (partition test : Text) : Path :=
  Path.join (c.pairDir partition test) loopMarker

theorem marker_ne_loopMarker (v : Verdict) : v.marker ≠ loopMarker := by cases v <;> decide

theorem isComponent_loopMarker : IsComponent loopMarker := by constructor <;> decide

/-- Where the name of a test leads from the directory of a partition. -/
def pairPlace (partition test : Text) : Place :=
  if pathSafe test = [] ∨ pathSafe test = ['.'] then [partition]
  else if pathSafe test = ['.', '.'] then []
  else [partition, pathSafe test]

theorem pairPlace_of_isComponent (h : IsComponent (pathSafe test)) :
    pairPlace partition test = [partition, pathSafe test] := by
  simp [pairPlace, h.nonempty, h.ne_here, h.ne_up]

theorem length_pairPlace_le : (pairPlace partition test).length ≤ 2 := by
  rw [pairPlace]
  split_ifs <;> simp

theorem resolve_pathSafe (b : Place) (partition test : Text) :
    resolve (b ++ [partition]) (pieces (pathSafe test)) = some (b ++ pairPlace partition test) := by
  rw [pieces_pathSafe, pairPlace]
  by_cases hempty : pathSafe test = []
  · simp [hempty, resolve]
  by_cases hhere : pathSafe test = ['.']
  · simp [hhere, resolve]
  by_cases hup : pathSafe test = ['.', '.']
  · simp [hup, resolve]
  · simp [hempty, hhere, hup, resolve]

variable (hc : StandsInStore R c.root []) (hpart : IsComponent partition)

include hc hpart

theorem standsInStore_pairDir :
    StandsInStore R (c.pairDir partition test) (pairPlace partition test) :=
  (hc.join_name hpart).join (isAbsolute_of_not_mem (slash_not_mem_pathSafe test))
    (resolve_pathSafe [] partition test)

theorem standsInStore_loopPath :
    StandsInStore R (c.loopPath partition test) (pairPlace partition test ++ [loopMarker]) :=
  (standsInStore_pairDir hc hpart).join_name isComponent_loopMarker

omit hc hpart

theorem marker_injective : Function.Injective marker := by
  intro v v' h
  cases v <;> cases v' <;> first | rfl | exact absurd h (by decide)

theorem ends_lookup_some {h : History} (he : Ends (c.lookup partition test signature) h (some v)) :
    h = [⟨.isFile (c.markerPath partition test signature .pass), v.passed⟩,
      ⟨.isFile (c.markerPath partition test signature .fail), !v.passed⟩] := by
  obtain ⟨pass, h₁, h', rfl, hpass, he₁⟩ := ends_bind.1 he
  obtain ⟨fail, h₂, h₃, rfl, hfail, he₂⟩ := ends_bind.1 he₁
  obtain rfl := ends_op.1 hpass
  obtain rfl := ends_op.1 hfail
  obtain ⟨rfl, hv⟩ := ends_pure.1 he₂
  cases pass <;> cases fail <;> cases hv <;> rfl

theorem uses_markLoop : Uses (Op.Makes (c.pairDir partition test) (c.loopPath partition test))
    (c.markLoop partition test reason) := by
  have hdir : Uses (Op.Makes (c.pairDir partition test) (c.loopPath partition test))
      (ensureDir (c.pairDir partition test)) := uses_ensureDir rfl
  have hcreate : Uses (Op.Makes (c.pairDir partition test) (c.loopPath partition test))
      (createMarker (c.loopPath partition test) reason) := by
    refine Uses.bind (uses_op.2 rfl) fun created => ?_
    rcases created with e | ⟨⟩
    · cases e <;> trivial
    · trivial
  exact hdir.bind fun _ => hcreate.bind fun _ => uses_pure _

end Verdicts

namespace UnderDebugger

variable {s : Setup} {p : Patch} {compiled : List Compiled} {scripts : ScriptSet} {test : Text}

theorem gives_runForSignature : Gives (fun x => ∀ signature ∈ x, ∃ m, signature = hex m)
    (runForSignature s p compiled test) := by
  refine .bind fun _ => .bind fun _ => .bind fun _ => .bind fun _ => .bind fun _ =>
    .bind fun _ => ?_
  refine .bind fun there => ?_
  cases there with
  | false => exact gives_pure (by simp)
  | true =>
    refine .bind fun there => ?_
    cases there with
    | false => exact gives_pure (by simp)
    | true =>
      refine .bind fun _ => .bind fun _ => .bind fun diff => gives_pure ?_
      rintro signature ⟨⟩
      exact ⟨_, rfl⟩

theorem gives_finish (o : Output) : Gives (·.cached = false) (finish s p test o) := by
  rw [finish, Oracle.settle]
  split
  · exact gives_pure rfl
  · exact .bind fun _ => gives_pure rfl

theorem gives_runPlain : Gives (·.cached = false) (runPlain s p scripts test) :=
  .bind fun o => gives_finish o

end UnderDebugger

def Setup.verdicts (s : Setup) : Verdicts := ⟨s.layout.partitions⟩

namespace UnderDebugger

/-! ## The course of a call -/

/-- A call for a test of a patch that has been given the name of its partition. -/
structure Call where
  patch : Patch
  compiled : List Compiled
  scripts : ScriptSet
  test : Text
  assigned : patch.partition = some (Partition.name patch.fragments.breakPoints)

/-- How a call goes on, by what it has found in the store. -/
inductive Course where
  /-- Verdicts are not asked for, not to be trusted, or there is no signature to file one under. -/
  | plain
  | known (signature : Text) (v : Verdict)
  | stopped (outcome : TestOutcome)
  /-- The test was run to its end, from a state other than the one that gave the signature. -/
  | strayed (outcome : TestOutcome)
  /-- The test was run to its end, from the state that gave the signature. -/
  | judged (signature : Text) (outcome : TestOutcome)
  deriving DecidableEq

def Course.signature? : Course → Option Text
  | .known signature _ | .judged signature _ => some signature
  | .plain | .stopped _ | .strayed _ => none

namespace Call

variable (s : Setup) (k : Call)

def partition : Text := Partition.name k.patch.fragments.breakPoints

def work : Job TestOutcome := runTest s k.patch k.compiled k.scripts k.test

def execution (signature : Text) : Job Course := do
  let o ← runForLocation s k.patch k.compiled k.test
  let outcome ← finish s k.patch k.test o
  if o.timedOut || o.cancelled then return .stopped outcome
  let dumps := Dumps.of s k.patch k.test
  if ← Dump.sameState dumps.after dumps.location then return .judged signature outcome
  return .strayed outcome

def course : Job Course := do
  if !s.config.partition then return .plain
  if ← s.verdicts.isLoop k.partition k.test then return .plain
  let some signature ← runForSignature s k.patch k.compiled k.test | return .plain
  if let some v ← s.verdicts.lookup k.partition k.test signature then return .known signature v
  k.execution s signature

def settle (v : Verdict) : Recording → Job Unit
  | .recorded => pure ()
  | .observed v' =>
    if v' = v then pure ()
    else s.verdicts.markLoop k.partition k.test "recorded verdict disagrees"
  | .conflict => s.verdicts.markLoop k.partition k.test "conflicting verdicts recorded"

def complete : Course → Job TestOutcome
  | .plain => runPlain s k.patch k.scripts k.test
  | .known _ v => pure { testId := k.test, passed := v.passed, cached := true }
  | .stopped outcome => pure outcome
  | .strayed outcome => do
    s.verdicts.markLoop k.partition k.test "continuation state differs from signature run"
    return outcome
  | .judged signature outcome => do
    let v := ofPassed outcome.passed
    let digest ← Dump.digest (Dumps.of s k.patch k.test).after
    k.settle s v (← s.verdicts.record k.partition k.test signature v digest)
    return outcome

theorem recordVerdict_eq (signature : Text) (outcome : TestOutcome) :
    (do recordVerdict s.verdicts k.partition k.test signature (Dumps.of s k.patch k.test).after
          (Dumps.of s k.patch k.test).location outcome.passed
        pure outcome : Job TestOutcome) =
      (do if ← Dump.sameState (Dumps.of s k.patch k.test).after
              (Dumps.of s k.patch k.test).location then
            k.complete s (.judged signature outcome)
          else k.complete s (.strayed outcome)) := by
  rw [recordVerdict, bind_assoc]
  refine bind_congr fun same => ?_
  cases same with
  | false => rfl
  | true =>
    simp only [if_true, complete, bind_assoc]
    refine bind_congr fun digest => bind_congr fun r => ?_
    cases r with
    | recorded | conflict => rfl
    | observed v' =>
      by_cases hv : v' = ofPassed outcome.passed
      · simp [settle, hv]
      · simp [settle, hv]

def course? (h : History) : Option Course := result? (k.course s) h

/-- **A call in two parts.** -/
theorem work_eq : k.work s = k.course s >>= k.complete s := by
  rw [work, runTest, k.assigned, course]
  cases s.config.partition with
  | false => simp [complete]
  | true =>
    show runCached s k.patch k.compiled k.scripts s.verdicts k.partition k.test = _
    rw [runCached]
    simp only [Bool.not_true, Bool.false_eq_true, if_false, bind_assoc]
    refine bind_congr fun looped => ?_
    cases looped with
    | true => simp [complete]
    | false =>
      simp only [Bool.false_eq_true, if_false, bind_assoc]
      refine bind_congr fun signature => ?_
      cases signature with
      | none => simp [complete]
      | some signature =>
        simp only [bind_assoc]
        refine bind_congr fun known => ?_
        cases known with
        | some v => simp [complete]
        | none =>
          simp only [execution, bind_assoc]
          refine bind_congr fun o => bind_congr fun outcome => ?_
          cases o.timedOut || o.cancelled with
          | true => simp [complete]
          | false =>
            simp only [Bool.false_eq_true, if_false, bind_assoc, recordVerdict_eq]
            refine bind_congr fun same => ?_
            cases same <;> simp

/-! ### What a course tells -/

variable {s k} {R : Place} {h : History} {c : Course} {signature : Text} {v : Verdict}

theorem ends_execution (he : Ends (k.execution s signature) h c) :
    ∃ o outcome h₁ h₂ h₃, h = h₁ ++ (h₂ ++ h₃) ∧
      Ends (runForLocation s k.patch k.compiled k.test) h₁ o ∧
      Ends (finish s k.patch k.test o) h₂ outcome ∧
      ((o.timedOut || o.cancelled) = true ∧ c = .stopped outcome ∨
        (o.timedOut || o.cancelled) = false ∧ ∃ same, Ends (Dump.sameState
          (Dumps.of s k.patch k.test).after (Dumps.of s k.patch k.test).location) h₃ same ∧
          c = if same then .judged signature outcome else .strayed outcome) := by
  obtain ⟨o, h₁, h', rfl, ho, he₁⟩ := ends_bind.1 he
  obtain ⟨outcome, h₂, h₃, rfl, hout, he₂⟩ := ends_bind.1 he₁
  refine ⟨o, outcome, h₁, h₂, h₃, rfl, ho, hout, ?_⟩
  cases hstop : o.timedOut || o.cancelled with
  | true =>
    simp only [hstop, if_true] at he₂
    exact .inl ⟨rfl, (ends_pure.1 he₂).2⟩
  | false =>
    simp only [hstop, Bool.false_eq_true, if_false] at he₂
    obtain ⟨same, h₄, h₅, rfl, hsame, he₃⟩ := ends_bind.1 he₂
    have hdone : h₅ = [] ∧ c = if same then .judged signature outcome else .strayed outcome := by
      cases same with
      | true | false => exact ends_pure.1 he₃
    obtain ⟨rfl, hc⟩ := hdone
    exact .inr ⟨rfl, same, by rwa [append_nil], hc⟩

theorem ends_course (he : Ends (k.course s) h c) : c = .plain ∨ ∃ signature h₁ h₂ h₃,
      h = ⟨.isFile (s.verdicts.loopPath k.partition k.test), false⟩ :: (h₁ ++ (h₂ ++ h₃)) ∧
      Ends (runForSignature s k.patch k.compiled k.test) h₁ (some signature) ∧
      ((∃ v, Ends (s.verdicts.lookup k.partition k.test signature) h₂ (some v) ∧ h₃ = [] ∧
          c = .known signature v) ∨
        Ends (s.verdicts.lookup k.partition k.test signature) h₂ none ∧
          Ends (k.execution s signature) h₃ c) := by
  rw [course] at he
  cases hpart : s.config.partition with
  | false =>
    simp only [hpart, Bool.not_false, if_true] at he
    exact .inl (ends_pure.1 he).2
  | true =>
    simp only [hpart, Bool.not_true, Bool.false_eq_true, if_false] at he
    obtain ⟨looped, h₀, h', rfl, hlooped, he₁⟩ := ends_bind.1 he
    obtain rfl := ends_op.1 hlooped
    cases looped with
    | true =>
      simp only [if_true] at he₁
      exact .inl (ends_pure.1 he₁).2
    | false =>
      simp only [Bool.false_eq_true, if_false] at he₁
      obtain ⟨signature, h₁, h'', rfl, hsig, he₂⟩ := ends_bind.1 he₁
      cases signature with
      | none => exact .inl (ends_pure.1 he₂).2
      | some signature =>
        obtain ⟨known, h₂, h₃, rfl, hknown, he₃⟩ := ends_bind.1 he₂
        refine .inr ⟨signature, h₁, h₂, h₃, rfl, hsig, ?_⟩
        cases known with
        | some v =>
          obtain ⟨rfl, hc⟩ := ends_pure.1 he₃
          exact .inl ⟨v, hknown, rfl, hc⟩
        | none => exact .inr ⟨hknown, he₃⟩

theorem uses_course (hl : s.layout.At R) : Uses (Op.Beside R) (k.course s) := by
  have hexec (signature : Text) : Uses (Op.Beside R) (k.execution s signature) := by
    refine (uses_runForLocation hl).bind fun o => (uses_finish hl).bind fun outcome => ?_
    cases o.timedOut || o.cancelled with
    | true => exact uses_pure _
    | false =>
      refine Uses.bind (Dump.uses_sameState (fun _ => trivial) (fun _ => trivial) _ _)
        fun same => ?_
      cases same <;> exact uses_pure _
  rw [course]
  cases s.config.partition with
  | false => exact uses_pure _
  | true =>
    refine Uses.bind (uses_isFile trivial) fun looped => ?_
    cases looped with
    | true => exact uses_pure _
    | false =>
      refine Uses.bind (uses_runForSignature hl) fun signature => ?_
      cases signature with
      | none => exact uses_pure _
      | some signature =>
        have hlookup : Uses (Op.Beside R) (s.verdicts.lookup k.partition k.test signature) :=
          (uses_isFile trivial).bind fun _ => (uses_isFile trivial).bind fun _ => uses_pure _
        refine hlookup.bind fun known => ?_
        cases known with
        | some v => exact uses_pure _
        | none => exact hexec signature

theorem ends_course_known (he : Ends (k.course s) h (.known signature v)) :
    ∃ rest, h = ⟨.isFile (s.verdicts.loopPath k.partition k.test), false⟩ :: (rest ++
      [⟨.isFile (s.verdicts.markerPath k.partition k.test signature .pass), v.passed⟩,
        ⟨.isFile (s.verdicts.markerPath k.partition k.test signature .fail), !v.passed⟩]) := by
  obtain hc | ⟨_, h₁, h₂, h₃, rfl, -, ⟨_, hlook, rfl, hc⟩ | ⟨-, hexec⟩⟩ := ends_course he
  · cases hc
  · cases hc
    rw [ends_lookup_some hlook, append_nil]
    exact ⟨h₁, rfl⟩
  · obtain ⟨o, outcome, _, _, _, -, -, -, ⟨-, hc⟩ | ⟨-, same, -, hc⟩⟩ := ends_execution hexec
    · cases hc
    · cases same <;> cases hc

theorem signature_eq_hex (he : Ends (k.course s) h c) (hc : signature ∈ c.signature?) :
    ∃ m, signature = hex m := by
  obtain rfl | ⟨_, h₁, h₂, h₃, rfl, hsig, ⟨_, -, -, rfl⟩ | ⟨-, hexec⟩⟩ := ends_course he
  · cases hc
  · cases hc
    exact gives_runForSignature _ _ hsig _ rfl
  · obtain ⟨o, outcome, _, _, _, -, -, -, ⟨-, rfl⟩ | ⟨-, same, -, rfl⟩⟩ := ends_execution hexec
    · cases hc
    · cases same with
      | true => cases hc; exact gives_runForSignature _ _ hsig _ rfl
      | false => cases hc

theorem signature_of_course? (hc : k.course? s h = some c) (hsig : signature ∈ c.signature?) :
    ∃ m, signature = hex m := by
  obtain ⟨h₁, h₂, -, he⟩ := result?_eq_some_iff.1 hc
  exact signature_eq_hex he hsig

/-! ### What is asked for -/

variable (s k R) in
inductive Does : Course → Op → Prop
  | beside {c : Course} {o : Op} : o.Beside R → Does c o
  | markLoop {c : Course} {o : Op} :
      o.Makes (s.verdicts.pairDir k.partition k.test) (s.verdicts.loopPath k.partition k.test) →
      Does c o
  | record {signature : Text} {outcome : TestOutcome} {o : Op} :
      o.Makes (s.verdicts.signatureDir k.partition k.test signature)
        (s.verdicts.markerPath k.partition k.test signature (ofPassed outcome.passed)) →
      Does (.judged signature outcome) o

theorem uses_complete (hl : s.layout.At R) (c : Course) : Uses (k.Does s R c) (k.complete s c) := by
  have hloop (reason : Text) :
      Uses (k.Does s R c) (s.verdicts.markLoop k.partition k.test reason) :=
    uses_markLoop.mono fun _ => .markLoop
  cases c with
  | plain => exact (uses_runPlain hl).mono fun _ => .beside
  | known signature v | stopped outcome => exact uses_pure _
  | strayed outcome => exact (hloop _).bind fun _ => uses_pure _
  | judged signature outcome =>
    have hsettle (v : Verdict) (r : Recording) :
        Uses (k.Does s R (.judged signature outcome)) (k.settle s v r) := by
      cases r with
      | recorded => exact uses_pure _
      | observed v' =>
        rw [settle]
        split
        · exact uses_pure _
        · exact hloop _
      | conflict => exact hloop _
    refine Uses.bind (Dump.uses_digest (fun _ => .beside trivial) _) fun digest => ?_
    exact (uses_record.mono fun _ => .record).bind fun r => (hsettle _ r).bind fun _ => uses_pure _

/-- **What a call asks for, and when.**  An operation of a call that is not beside the store comes
after its course has been found out. -/
theorem does_of_takes (hl : s.layout.At R) {e : Exchange} {b : Action (Except Stop TestOutcome)}
    (ht : (ExceptT.run (k.work s)).Takes (h ++ [e]) b) :
    e.op.Beside R ∨ ∃ c, k.course? s h = some c ∧ k.Does s R c e.op := by
  by_cases hbeside : e.op.Beside R
  · exact .inl hbeside
  · rw [work_eq] at ht
    obtain ⟨c, h₁, h₂, rfl, hc, hrest⟩ := takes_bind_of_uses (uses_course hl) hbeside ht
    have hcourse : k.course? s (h₁ ++ h₂) = some c := result?_eq_some_iff.2 ⟨h₁, h₂, rfl, hc⟩
    exact .inr ⟨c, hcourse, (uses_complete hl c).of_takes_snoc hrest⟩

theorem isComponent_partition : IsComponent k.partition := Partition.isComponent_name _

def place (k : Call) : Place := pairPlace k.partition k.test

theorem standsInStore_pairDir (hl : s.layout.At R) :
    StandsInStore R (s.verdicts.pairDir k.partition k.test) k.place :=
  Verdicts.standsInStore_pairDir hl.standsInStore_verdicts isComponent_partition

theorem standsInStore_loopPath (hl : s.layout.At R) :
    StandsInStore R (s.verdicts.loopPath k.partition k.test) (k.place ++ [loopMarker]) :=
  Verdicts.standsInStore_loopPath hl.standsInStore_verdicts isComponent_partition

theorem standsInStore_signatureDir (hl : s.layout.At R) (hsig : ∃ m, signature = hex m) :
    StandsInStore R (s.verdicts.signatureDir k.partition k.test signature)
      (k.place ++ [signature]) := by
  obtain ⟨m, rfl⟩ := hsig
  rw [signatureDir, pathSafe_hex]
  exact (standsInStore_pairDir hl).join_name (isComponent_hex m)

theorem standsInStore_markerPath (hl : s.layout.At R) (hsig : ∃ m, signature = hex m) :
    StandsInStore R (s.verdicts.markerPath k.partition k.test signature v)
      (k.place ++ [signature, v.marker]) := by
  have h := (standsInStore_signatureDir (k := k) hl hsig).join_name (v.isComponent_marker)
  rwa [append_assoc] at h

theorem Does.tame {o : Op} (hl : s.layout.At R)
    (hc : ∀ signature ∈ c.signature?, ∃ m, signature = hex m) (h : k.Does s R c o) :
    o.Tame R := by
  cases h with
  | beside ho => exact ho.tame
  | markLoop ho => exact ho.tame (standsInStore_pairDir hl) (standsInStore_loopPath hl)
  | record ho =>
    have hsig := hc _ rfl
    exact ho.tame (standsInStore_signatureDir hl hsig) (standsInStore_markerPath hl hsig)

theorem uses_work (hl : s.layout.At R) : Uses (Op.Tame R) (k.work s) := by
  rw [work_eq]
  refine ((uses_course hl).mono fun _ => Op.Beside.tame).bind_of_ends fun h c hc => ?_
  exact (uses_complete hl c).mono fun _ => Does.tame hl fun _ => signature_eq_hex hc

end Call

/-! ## Calls at work together -/

/-- The output directory is `R`, it has no symbolic links in it, and commands leave its store
alone. -/
structure Sheltered (s : Setup) (R : Place) (host : Host) (w : World) : Prop where
  layout : s.layout.At R
  host : host.Spares R
  rooted : Rooted R w.tree

namespace Call

variable {ι : Type} [DecidableEq ι]

def crew (s : Setup) (calls : ι → Call) (w : World) : Crew ι (Except Stop TestOutcome) :=
  { world := w, threads := fun i => ExceptT.run ((calls i).work s) }

variable {s : Setup} {R : Place} {host : Host} {w : World} {calls : ι → Call}
  {σ : Crew ι (Except Stop TestOutcome)} {i j : ι} {e : Exchange} {n : Nat} {signature : Text}
  {v : Verdict} (h₀ : Sheltered s R host w)
  (hσ : Crew.Reaches host (World.Elsewhere R) (crew s calls w) σ)

omit [DecidableEq ι] in
include h₀ in
theorem tending : (crew s calls w).Tending R host :=
  ⟨h₀.host, h₀.rooted, fun _ => uses_work h₀.layout, rfl⟩

include hσ in
theorem ends_of_reaches {outcome : TestOutcome} (hi : σ.threads i = .done (.ok outcome)) :
    Ends ((calls i).work s) (σ.historyOf i) outcome := by
  have ht := hσ.takes_historyOf rfl i
  rw [hi] at ht
  exact ht

include h₀ hσ

/-- What a call has asked for that is not beside the store, it has asked for by its course. -/
theorem does_at (hn : σ.trace[n]? = some (i, e)) :
    e.op.Beside R ∨ ∃ c, (calls i).course? s (σ.historyOf i) = some c ∧
      (calls i).Does s R c e.op := by
  obtain ⟨g, g', b, hhist, ht⟩ := hσ.takes_at rfl hn
  rcases does_of_takes h₀.layout ht with hbeside | ⟨c, hc, hdoes⟩
  · exact .inl hbeside
  · refine .inr ⟨c, ?_, hdoes⟩
    rw [hhist, append_assoc]
    exact result?_append hc _

/-- **What is put in the store.**  A file that a call has put there is its `LOOP` marker, or the
marker of the verdict that it has come to. -/
theorem file_put {x : Place} {node : Node} (hn : σ.trace[n]? = some (i, e))
    (hputs : e.Puts R (storeName :: x) node) (hfile : Node.IsFile node) :
    x = (calls i).place ++ [loopMarker] ∨
      ∃ signature outcome bytes, (calls i).course? s (σ.historyOf i) =
        some (.judged signature outcome) ∧
        x = (calls i).place ++ [signature, (ofPassed outcome.passed).marker] ∧
        e = ⟨.createNew (s.verdicts.markerPath (calls i).partition (calls i).test signature
          (ofPassed outcome.passed)) bytes, .ok ()⟩ := by
  cases hputs with
  | dir _ _ _ => exact hfile.elim
  | @file p _ _ hp =>
    rcases does_at h₀ hσ hn with hbeside | ⟨c, hc, hdoes⟩
    · exact hbeside.elim
    cases hdoes with
    | beside hbeside => exact hbeside.elim
    | markLoop hmakes =>
      obtain rfl : p = s.verdicts.loopPath (calls i).partition (calls i).test := hmakes
      have hplace := (standsInStore_loopPath h₀.layout).stands.unique hp
      exact .inl (cons.inj hplace).2.symm
    | @record signature outcome _ hmakes =>
      obtain rfl : p = s.verdicts.markerPath (calls i).partition (calls i).test signature
        (ofPassed outcome.passed) := hmakes
      have hsig := signature_of_course? hc rfl
      have hplace := (standsInStore_markerPath h₀.layout hsig).stands.unique hp
      exact .inr ⟨signature, outcome, _, hc, (cons.inj hplace).2.symm, rfl⟩

/-- A file that a call has put where the marker of a verdict belongs is the marker of its own
verdict. -/
theorem marker_put {place : Place} {node : Node} (hn : σ.trace[n]? = some (i, e))
    (hputs : e.Puts R (storeName :: (place ++ [signature, v.marker])) node)
    (hfile : Node.IsFile node) :
    ∃ outcome bytes, (calls i).place = place ∧
      (calls i).course? s (σ.historyOf i) = some (.judged signature outcome) ∧
      ofPassed outcome.passed = v ∧
      e = ⟨.createNew (s.verdicts.markerPath (calls i).partition (calls i).test signature v) bytes,
        .ok ()⟩ := by
  -- the last two names tell a verdict from another, and from the `LOOP` marker
  rcases file_put h₀ hσ hn hputs hfile with hplace | ⟨signature', outcome, bytes, hc, hplace, rfl⟩
  · have hlast : v.marker = loopMarker := by simpa using congrArg getLast? hplace
    exact absurd hlast (marker_ne_loopMarker v)
  · obtain ⟨hpair, htail⟩ := append_inj' hplace rfl
    obtain ⟨rfl, hmarker⟩ :
        signature = signature' ∧ v.marker = (ofPassed outcome.passed).marker := by
      simpa using htail
    obtain rfl := marker_injective hmarker
    exact ⟨outcome, bytes, hpair.symm, hc, rfl, rfl⟩

end Call

end UnderDebugger

end PatchTriage
