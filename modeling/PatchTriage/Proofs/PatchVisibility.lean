import PatchTriage.Proofs.TestCommands

/-!
# Whether a test sees the patch

Under a debugger nothing of the program is changed, so a test sees the patch only if it is told of
the script: by a command that runs the program under it, or by a variable that names it.
-/

namespace PatchTriage

open Compiled List Job Script Layout Config Oracle

namespace Job

variable {α β : Type} {P : History → Op → Prop} {past : History} {work : Job α}

/-- Every operation of the work is one of `P`, by what was exchanged before it: `past`, and then the
exchanges of the work itself. -/
def UsesAfter (P : History → Op → Prop) (past : History) (work : Job α) : Prop :=
  ∀ h x, EndsIn work h x → ∀ before e after, h = before ++ e :: after → P (past ++ before) e.op

theorem Uses.usesAfter {Q : Op → Prop} (h : Uses Q work) (hQ : ∀ past o, Q o → P past o) :
    UsesAfter P past work := by
  rintro _ x hx before e after rfl
  exact hQ _ _ (Action.Uses.of_mem h hx (mem_append_right before mem_cons_self))

theorem UsesAfter.bind {f : α → Job β} (hw : UsesAfter P past work)
    (hf : ∀ a h, Ends work h a → UsesAfter P (past ++ h) (f a)) :
      UsesAfter P past (work >>= f) := by
  intro h y hy before e after hcut
  obtain ⟨a, h₁, h₂, rfl, ha, hrest⟩ | ⟨stop, hstop, rfl⟩ := endsIn_bind.1 hy
  · rcases append_eq_append_iff.1 hcut with ⟨rest, rfl, hafter⟩ | ⟨rest, rfl, hafter⟩
    · rw [← append_assoc]
      exact hf a h₁ ha h₂ y hrest rest e after hafter
    · cases rest with
      | nil =>
        have hself := hf a before (by simpa using ha) h₂ y hrest [] e after hafter.symm
        simpa using hself
      | cons e' rest =>
        obtain ⟨rfl, -⟩ := cons.inj hafter
        exact hw _ _ ha before e rest rfl
  · exact hw h _ hstop before e after hcut

theorem UsesAfter.ite {c : Prop} [Decidable c] {work' : Job α} (h : UsesAfter P past work)
    (h' : UsesAfter P past work') : UsesAfter P past (if c then work else work') := by
  split
  · exact h
  · exact h'

end Job

namespace UnderDebugger

/-! ## Scripts that have been written -/

def ScriptSet.of (s : Setup) (stem : Text) : ScriptSet where
  script := Layout.script s.layout.scripts stem
  frontend := s.config.binary.map fun _ => Layout.frontend s.layout.scripts stem

/-- A script with the given stem and text has been written, and if there is a binary, the command
that runs the binary under it. -/
structure Written (s : Setup) (stem text : Text) (past : History) : Prop where
  script : ⟨.write (script s.layout.scripts stem) (Utf8.encode text), .ok ()⟩ ∈ past
  frontend : ∀ binary ∈ s.config.binary,
    ⟨.write (frontend s.layout.scripts stem) (Utf8.encode (CommandLine.wrapper
      (CommandLine.debugger (Layout.script s.layout.scripts stem) binary))), .ok ()⟩ ∈ past

theorem Written.mono {s : Setup} {stem text : Text} {past past' : History}
    (h : Written s stem text past)
    (hsub : past ⊆ past') : Written s stem text past' where
  script := hsub h.script
  frontend binary hbinary := hsub (h.frontend binary hbinary)

theorem ends_write {s : Setup} {stem text : Text} {h : History} {scripts : ScriptSet}
    (he : Ends (ScriptSet.write s stem text) h scripts) :
    scripts = .of s stem ∧ Written s stem text h := by
  obtain ⟨⟨⟩, h₁, h', rfl, -, hrest⟩ := ends_bind.1 he
  obtain ⟨⟨⟩, h₂, h₃, rfl, hscript, hlast⟩ := ends_bind.1 hrest
  obtain rfl := ends_writeText hscript
  cases hbinary : s.config.binary with
  | none =>
    simp only [hbinary] at hlast
    obtain ⟨rfl, rfl⟩ := ends_pure.1 hlast
    exact ⟨by simp [ScriptSet.of, hbinary], by simp, by simp [hbinary]⟩
  | some binary =>
    simp only [hbinary] at hlast
    obtain ⟨⟨⟩, h₄, h₅, rfl, hwrapper, hpure⟩ := ends_bind.1 hlast
    obtain ⟨⟨⟩, h₆, h₇, rfl, hfrontend, -⟩ := ends_bind.1 hwrapper
    obtain rfl := ends_writeText hfrontend
    obtain ⟨rfl, rfl⟩ := ends_pure.1 hpure
    exact ⟨by simp [ScriptSet.of, hbinary], by simp, by simp [hbinary]⟩

/-! ## Commands -/

variable {s : Setup} {p : Patch} {test stem : Text} {past : History}

/-- A command that lets a test see the patch. A script that does what the patch says has been
written, and the command is given the one that runs the binary under it, or is told of the script.
-/
def Sees (s : Setup) (p : Patch) (past : History) (c : Invocation) : Prop :=
  ∃ stem hooks, Written s stem (render (ofFragments p.fragments) hooks) past ∧
    (s.config.binary ≠ none ∧ frontend s.layout.scripts stem ∈ c.args ∨
      s.config.binary = none ∧ (scriptVariable, script s.layout.scripts stem) ∈ c.env)

/-- The command of a suite that is told the test, and the patch by its id only. -/
def Blind (s : Setup) (p : Patch) (test : Text) (c : Invocation) : Prop :=
  ∃ suite executable, s.config.testSuite = some suite ∧ c = { scriptInvocation suite executable with
      args := (scriptInvocation suite executable).args ++ [test]
      env := [(coverageVariable, ['0']), (patchIdVariable, p.id)]
      dir := s.config.sourceDir }

/-- A command that lets the test see the patch; or, with a binary and without an oracle, a blind
one. -/
def Proper (s : Setup) (p : Patch) (test : Text) (past : History) (o : Op) : Prop :=
  ∀ c limit cancellable, o = .run c limit cancellable →
    (s.config.binary = none ∨ s.config.testOracle ≠ none → Sees s p past c) ∧
    (s.config.binary ≠ none → s.config.testOracle = none → Blind s p test c)

def Ran (h : History) : Prop := ∃ c limit cancellable r, ⟨.run c limit cancellable, r⟩ ∈ h

theorem proper_of_isOnFiles {o : Op} (h : o.isOnFiles = true) : Proper s p test past o := by
  rintro c limit cancellable rfl
  cases h

theorem usesAfter_of_onFiles {α : Type} {work : Job α} (h : OnFiles work) :
    UsesAfter (Proper s p test) past work :=
  Uses.usesAfter h fun _ _ => proper_of_isOnFiles

theorem endsIn_invoke {h : History} {x : Except Stop Output}
    (hx : EndsIn (invoke s p test (.of s stem)) h x) :
    (s.config.testOracle = none ∧ s.config.testSuite = none ∧ h = []) ∨
    ∃ executable tool c r,
      issued? s test (s.config.binary.map fun _ => Layout.frontend s.layout.scripts stem)
        (if s.config.binary = none then suiteEnv p (.of s stem) else [(patchIdVariable, p.id)])
        executable = some (tool, c) ∧
      h = [⟨.isExecutable tool, executable⟩, ⟨.run c (some s.testLimit) true, r⟩] := by
  have hrun : invoke s p test (.of s stem) =
      run s test (s.config.binary.map fun _ => Layout.frontend s.layout.scripts stem)
        (if s.config.binary = none then suiteEnv p (.of s stem) else [(patchIdVariable, p.id)])
        true := by
    cases hbinary : s.config.binary <;> simp [invoke, ScriptSet.of, hbinary]
  rw [hrun] at hx
  obtain ⟨horacle, hsuite, hh, -⟩ | ⟨executable, tool, c, r, hissued, hh, -⟩ := endsIn_run hx
  · exact .inl ⟨horacle, hsuite, hh⟩
  · exact .inr ⟨executable, tool, c, r, hissued, hh⟩

/-- **The command of a test.** -/
theorem proper_issued {hooks : Hooks} {tool : Path} {c : Invocation} {executable : Bool}
    (hw : Written s stem (render (ofFragments p.fragments) hooks) past)
    (hissued : issued? s test (s.config.binary.map fun _ => Layout.frontend s.layout.scripts stem)
      (if s.config.binary = none then suiteEnv p (.of s stem) else [(patchIdVariable, p.id)])
      executable = some (tool, c)) (limit : Option Nat) (cancellable : Bool) :
    Proper s p test past (.run c limit cancellable) := by
  rintro _ _ _ ⟨⟩
  rw [issued?.eq_def] at hissued
  split at hissued
  · -- The oracle is given the test and the command, if there is a binary.
    rename_i oracle horacle
    obtain ⟨rfl, rfl⟩ := Prod.mk.inj (Option.some.inj hissued)
    refine ⟨fun _ => ⟨stem, hooks, hw, ?_⟩, fun _ hnone => absurd hnone (by simp [horacle])⟩
    cases hbinary : s.config.binary with
    | none => exact .inr ⟨rfl, by simp [suiteEnv, ScriptSet.of]⟩
    | some binary => exact .inl ⟨by simp, by simp⟩
  · -- The suite is given the test only.
    rename_i suite horacle hsuite
    obtain ⟨rfl, rfl⟩ := Prod.mk.inj (Option.some.inj hissued)
    refine ⟨fun hsees => ⟨stem, hooks, hw, ?_⟩, fun hbinary _ => ⟨suite, executable, hsuite, ?_⟩⟩
    · have hbinary : s.config.binary = none := hsees.resolve_right (by simp [horacle])
      exact .inr ⟨hbinary, by simp [hbinary, suiteEnv, ScriptSet.of]⟩
    · rw [if_neg hbinary]
  · cases hissued

theorem usesAfter_invoke {hooks : Hooks}
    (hw : Written s stem (render (ofFragments p.fragments) hooks) past) :
    UsesAfter (Proper s p test) past (invoke s p test (.of s stem)) := by
  intro h x hx before e after hcut
  obtain ⟨-, -, rfl⟩ | ⟨executable, tool, c, r, hissued, rfl⟩ := endsIn_invoke hx
  · simp at hcut
  · have hmem : e ∈ [⟨.isExecutable tool, executable⟩, ⟨.run c (some s.testLimit) true, r⟩] :=
      hcut ▸ mem_append_right before mem_cons_self
    rcases mem_cons.1 hmem with rfl | hmem
    · rintro _ _ _ ⟨⟩
    · obtain rfl := mem_singleton.1 hmem
      exact proper_issued (hw.mono (subset_append_left past before)) hissued _ _

/-! ## Tests -/

section Tests

variable {compiled : List Compiled}

variable {hooks : Hooks}

theorem usesAfter_runPlain (hw : Written s stem (render (ofFragments p.fragments) hooks) past) :
    UsesAfter (Proper s p test) past (runPlain s p (.of s stem) test) :=
  (usesAfter_invoke hw).bind fun _ _ _ => usesAfter_of_onFiles onFiles_settle

theorem usesAfter_write_bind {α : Type} {stem : Text} {next : ScriptSet → Job α}
    (hnext : ∀ h, Written s stem (render (ofFragments p.fragments) hooks) (past ++ h) →
      UsesAfter (Proper s p test) (past ++ h) (next (.of s stem))) :
    UsesAfter (Proper s p test) past
      (ScriptSet.write s stem (render (ofFragments p.fragments) hooks) >>= next) := by
  refine (usesAfter_of_onFiles (onFiles_write _ _)).bind fun scripts h he => ?_
  obtain ⟨rfl, hw⟩ := ends_write he
  exact hnext h (hw.mono (subset_append_right past h))

theorem usesAfter_runForSignature : UsesAfter (Proper s p test) past
      (runForSignature s p (ofFragments p.fragments) test) := by
  refine (usesAfter_of_onFiles onFiles_ensureDir).bind fun _ _ _ =>
    (usesAfter_of_onFiles onFiles_removeStale).bind fun _ _ _ =>
    (usesAfter_of_onFiles onFiles_removeStale).bind fun _ _ _ =>
    (usesAfter_of_onFiles onFiles_removeStale).bind fun _ _ _ => ?_
  refine usesAfter_write_bind fun h hw => (usesAfter_invoke hw).bind fun _ _ _ => ?_
  exact usesAfter_of_onFiles (Dump.uses_signature (fun _ => rfl) (fun _ => rfl) _ _)

theorem usesAfter_runForLocation : UsesAfter (Proper s p test) past
      (runForLocation s p (ofFragments p.fragments) test) :=
  usesAfter_write_bind fun _ hw => usesAfter_invoke hw

/-- **All commands of a test** are proper, under whatever course it takes. -/
theorem usesAfter_runTest (hw : Written s stem (render (ofFragments p.fragments) hooks) past) :
    UsesAfter (Proper s p test) past (runTest s p (ofFragments p.fragments) (.of s stem) test) := by
  have hplain : ∀ {h : History}, UsesAfter (Proper s p test) (past ++ h)
      (runPlain s p (.of s stem) test) := fun {h} =>
    usesAfter_runPlain (hw.mono (subset_append_left past h))
  have hcached : ∀ c partition, UsesAfter (Proper s p test) past
      (runCached s p (ofFragments p.fragments) (.of s stem) c partition test) := by
    intro c partition
    refine (usesAfter_of_onFiles onFiles_isFile).bind fun _ h₁ _ => .ite hplain ?_
    refine usesAfter_runForSignature.bind fun signature h₂ _ => ?_
    rw [append_assoc]
    cases signature with
    | none => exact hplain
    | some signature =>
      refine (usesAfter_of_onFiles Verdicts.onFiles_lookup).bind fun verdict _ _ => ?_
      cases verdict with
      | some verdict => exact usesAfter_of_onFiles (uses_pure _)
      | none =>
        refine usesAfter_runForLocation.bind fun o _ _ =>
          (usesAfter_of_onFiles onFiles_settle).bind fun outcome _ _ => usesAfter_of_onFiles ?_
        exact .ite (uses_pure _) (onFiles_recordVerdict.bind fun _ => uses_pure _)
  rw [runTest]
  split
  · exact hcached _ _
  · exact usesAfter_runPlain hw

end Tests

/-! ## That a test is run -/

theorem Ran.mono {h h' : History} (hran : Ran h) (hsub : h ⊆ h') : Ran h' := by
  obtain ⟨c, limit, cancellable, r, hmem⟩ := hran
  exact ⟨c, limit, cancellable, r, hsub hmem⟩

section Runs

variable (hs : s.config.testOracle ≠ none ∨ s.config.testSuite ≠ none) {h : History}

include hs

theorem ran_invoke {x : Except Stop Output} (hx : EndsIn (invoke s p test (.of s stem)) h x) :
    Ran h := by
  obtain ⟨horacle, hsuite, -⟩ | ⟨_, _, c, r, -, rfl⟩ := endsIn_invoke hx
  · exact absurd hs (by simp [horacle, hsuite])
  · exact ⟨c, _, _, r, mem_cons_of_mem _ mem_cons_self⟩

theorem ran_runPlain {x : Except Stop TestOutcome}
    (hx : EndsIn (runPlain s p (.of s stem) test) h x) : Ran h := by
  obtain ⟨o, h₁, h₂, rfl, ho, -⟩ | ⟨e, he, -⟩ := endsIn_bind.1 hx
  · exact (ran_invoke hs ho).mono (subset_append_left h₁ h₂)
  · exact ran_invoke hs he

variable {compiled : List Compiled}

theorem ran_runForSignature {signature : Option Text}
    (he : Ends (runForSignature s p compiled test) h signature) : Ran h := by
  obtain ⟨_, h₁, hb, rfl, -, hrest⟩ := ends_bind.1 he
  obtain ⟨_, h₂, hc, rfl, -, hrest₂⟩ := ends_bind.1 hrest
  obtain ⟨_, h₃, hd, rfl, -, hrest₃⟩ := ends_bind.1 hrest₂
  obtain ⟨_, h₄, h₅, rfl, -, hrest₄⟩ := ends_bind.1 hrest₃
  obtain ⟨scripts, h₆, h₇, rfl, hscripts, hrest₅⟩ := ends_bind.1 hrest₄
  obtain ⟨o, h₈, h₉, rfl, ho, -⟩ := ends_bind.1 hrest₅
  obtain ⟨rfl, -⟩ := ends_write hscripts
  refine (ran_invoke hs ho).mono fun e hmem => ?_
  simp [hmem]

/-- **A test is run**, unless the work ends before it on the way to a cached verdict. -/
theorem ran_runTest {x : Except Stop TestOutcome}
    (hx : EndsIn (runTest s p compiled (.of s stem) test) h x)
    (hend : (∃ outcome, x = .ok outcome) ∨ s.config.partition = false ∨
      p.partition = none) : Ran h := by
  rw [runTest.eq_def] at hx
  split at hx
  · rename_i partition hon hpartition
    obtain ⟨outcome, rfl⟩ : ∃ outcome, x = .ok outcome :=
      hend.resolve_right (by simp [hon, hpartition])
    obtain ⟨loop, h₁, h₂, rfl, -, hrest⟩ := ends_bind.1 hx
    cases loop with
    | true => exact (ran_runPlain hs hrest).mono (subset_append_right h₁ h₂)
    | false =>
      obtain ⟨signature, h₃, h₄, rfl, hsignature, -⟩ := ends_bind.1 hrest
      refine (ran_runForSignature hs hsignature).mono fun e hmem => ?_
      simp [hmem]
  · exact ran_runPlain hs hx

end Runs

theorem ends_stage {h : History} {program : Program} (he : Ends (stage s p) h (.ready program)) :
    Written s (Text.pathSafe p.id) (render (ofFragments p.fragments) .none) h ∧ program.runTest =
        runTest s p (ofFragments p.fragments) (.of s (Text.pathSafe p.id)) := by
  rw [stage] at he
  split at he
  · exact absurd he not_ends_fail
  · split at he
    · obtain ⟨-, heq⟩ := ends_pure.1 he
      cases heq
    · obtain ⟨scripts, h₁, h₂, rfl, hscripts, hready⟩ := ends_bind.1 he
      obtain ⟨rfl, heq⟩ := ends_pure.1 hready
      obtain ⟨rfl, hw⟩ := ends_write hscripts
      cases heq
      exact ⟨hw.mono (subset_append_left h₁ []), rfl⟩

/-- **A test sees the patch**, if there is no binary or if there is an oracle. For settings that
have been checked and a patch that has been made ready for the debugger: every command that a test
of the patch runs is given the command that runs the binary under a script of the patch, or is told
of such a script, which has been written before. With a binary and without an oracle the command is
that of the suite, which is told the test and the id of the patch, and nothing else. A test that has
an outcome has been run, and so has every test whose verdict is not looked for in the store. -/
theorem runTest_commands {l : Layer} {c : Config} {h₀ h₁ h₂ : History} {p : Patch}
    {program : Program}
    {test : Text} {x : Except Stop TestOutcome} (hresolve : Ends (resolve l) h₀ c)
    (hstage : Ends (stage (.ofConfig c) p) h₁ (.ready program))
    (htest : EndsIn (program.runTest test) h₂ x) :
    (∀ before command limit cancellable r after,
      h₂ = before ++ ⟨.run command limit cancellable, r⟩ :: after →
      (c.binary = none ∨ c.testOracle ≠ none → Sees (.ofConfig c) p (h₁ ++ before) command) ∧
      (c.binary ≠ none → c.testOracle = none → Blind (.ofConfig c) p test command)) ∧
    ((∃ outcome, x = .ok outcome) ∨ c.partition = false ∨ p.partition = none → Ran h₂) := by
  obtain ⟨hw, hrun⟩ := ends_stage hstage
  rw [hrun] at htest
  constructor
  · intro before command limit cancellable r after hcut
    exact usesAfter_runTest hw h₂ x htest before _ after hcut command limit cancellable rfl
  · exact ran_runTest (gives_resolve l h₀ c hresolve).runsTests htest

def trialPatch : Patch where
  id := "a.patch"
  path := "/patches/a.patch"
  sourceFile := "f.c"
  fragments := [(⟨"f.c", 10⟩, { inserted := ["x = 5;"] })]

variable (oracle suite : Option Path)

def trialLayer : Layer where
  patchMode := some "gdb"
  binary := some "/prog"
  testOracle := oracle
  testSuite := suite
  patchDir := some "/patches"
  testIds := some ["1"]
  outputDir := some "/out"

def trialConfig : Config where
  binary := some "/prog"
  testOracle := oracle
  testSuite := suite
  patchLocation := "/patches"
  testIds := ["1"]
  outputDir := "/out"

def trialChecks (tool : Path) : History :=
  [⟨.isFile "/prog", true⟩, ⟨.canonical "/prog", .ok "/prog"⟩, ⟨.isFile tool, true⟩,
    ⟨.canonical tool, .ok tool⟩, ⟨.isDir "/patches", true⟩, ⟨.canonical "/patches", .ok "/patches"⟩,
    ⟨.createDirs "/out", .ok ()⟩, ⟨.canonical "/out", .ok "/out"⟩]

def trialStaging : History :=
  let script : Path := "/out/scripts/a.patch.gdb"
  let frontend : Path := "/out/scripts/a.patch.frontend.sh"
  [⟨.createDirs "/out/scripts", .ok ()⟩,
    ⟨.write script (Utf8.encode (render (ofFragments trialPatch.fragments) .none)), .ok ()⟩,
    ⟨.write frontend (Utf8.encode (CommandLine.wrapper (CommandLine.debugger script "/prog"))),
      .ok ()⟩,
    ⟨.setExecutable frontend, .ok ()⟩]

theorem runTest_commands_oracle :
    let c := trialConfig (some "/tool") none
    ∃ program command,
      Ends (resolve (trialLayer (some "/tool") none)) (trialChecks "/tool") c ∧
      Ends (stage (.ofConfig c) trialPatch) trialStaging (.ready program) ∧
      EndsIn (program.runTest "1")
        [⟨.isExecutable "/tool", true⟩,
          ⟨.run command (some 30000) true, .ok { exitCode := some 0 }⟩]
        (.ok { testId := "1", passed := true }) ∧
      command.args = ["1".toList, "/out/scripts/a.patch.frontend.sh".toList] ∧
      Sees (.ofConfig c) trialPatch (trialStaging ++ [⟨.isExecutable "/tool", true⟩]) command := by
  have hresolve : Ends (resolve (trialLayer (some "/tool") none)) (trialChecks "/tool")
      (trialConfig (some "/tool") none) :=
    .cons (.cons (.cons (.cons (.cons (.cons (.cons (.cons (.nil _))))))))
  obtain ⟨program, command, hstage, htest, hargs⟩ : ∃ program command,
      Ends (stage (.ofConfig (trialConfig (some "/tool") none)) trialPatch) trialStaging
        (.ready program) ∧
      EndsIn (program.runTest "1")
        [⟨.isExecutable "/tool", true⟩,
          ⟨.run command (some 30000) true, .ok { exitCode := some 0 }⟩]
        (.ok { testId := "1", passed := true }) ∧
      command.args = ["1".toList, "/out/scripts/a.patch.frontend.sh".toList] :=
    ⟨_, _, .cons (.cons (.cons (.cons (.nil _)))), .cons (.cons (.nil _)), rfl⟩
  have hcommand := (runTest_commands hresolve hstage htest).1 [_] command _ _ _ [] rfl
  exact ⟨program, command, hresolve, hstage, htest, hargs,
    hcommand.1 (.inr (by simp [trialConfig]))⟩

theorem getLast?_frontend (dir : Path) (stem : Text) : (frontend dir stem).getLast? = some 'h' := by
  have hend : ∀ t : Text, (t ++ (stem ++ ".frontend.sh")).getLast? = some 'h' := fun t => by
    rw [← append_assoc, getLast?_append]
    rfl
  rw [frontend, Path.join]
  split
  · exact hend []
  · split
    · exact hend []
    · split
      · exact hend dir
      · simpa using hend (dir ++ ['/'])

/-- With a binary and a test suite, and no oracle, a test does not see the patch. -/
theorem runTest_unseen :
    let c := trialConfig none (some "/tool")
    ∃ program command,
      Ends (resolve (trialLayer none (some "/tool"))) (trialChecks "/tool") c ∧
      c.patchMode = .debugger ∧
      Ends (stage (.ofConfig c) trialPatch) trialStaging (.ready program) ∧
      EndsIn (program.runTest "1")
        [⟨.isExecutable "/tool", true⟩,
          ⟨.run command (some 30000) true, .ok { exitCode := some 0 }⟩]
        (.ok { testId := "1", passed := true }) ∧
      command.args = ["1".toList] ∧
      command.env = [("COVERAGE".toList, "0".toList), ("PATCH_ID".toList, "a.patch".toList)] ∧
      ¬ Sees (.ofConfig c) trialPatch
        (trialStaging ++ [⟨.isExecutable "/tool", true⟩]) command := by
  refine ⟨_, _, .cons (.cons (.cons (.cons (.cons (.cons (.cons (.cons (.nil _)))))))), rfl,
    .cons (.cons (.cons (.cons (.nil _)))), .cons (.cons (.nil _)), rfl, rfl, ?_⟩
  rintro ⟨stem, hooks, -, ⟨-, hmem⟩ | ⟨hbinary, -⟩⟩
  · have hlast := getLast?_frontend (scripts ⟨"/out", none⟩) stem
    have hself : frontend (scripts ⟨"/out", none⟩) stem = "1".toList := mem_singleton.1 hmem
    rw [hself] at hlast
    exact absurd hlast (by decide)
  · cases hbinary

end UnderDebugger

end PatchTriage
