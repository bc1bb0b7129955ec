import PatchTriage.Proofs.QuietWork

/-!
# The command of a test

Tests are run by the oracle or by the test suite. Settings that have been checked name one of them,
so that there is a command for every test.
-/

namespace PatchTriage

open Job

namespace Config

/-- The settings have what their mode needs. -/
def Sufficient (c : Config) : Prop :=
  lacking? c.patchMode c.binary c.testOracle c.testSuite c.sourceDir = none

/-- **What checking settings finds out.** -/
theorem gives_resolve (l : Layer) : Job.Gives Sufficient (resolve l) := by
  refine .bind fun patchMode => .bind fun execMode => .bind fun binary => .bind fun testOracle =>
    .bind fun testSuite => .bind fun sourceDir => .bind fun pub => .bind fun pvt =>
    .bind fun adversarial => .bind fun patchScript => .bind fun resetScript =>
    .bind fun buildScript => .bind fun configScript => .bind fun patchLocation => ?_
  refine .ite (gives_fail_bind _ _) (.ite (gives_fail_bind _ _) ?_)
  split
  · exact gives_fail_bind _ _
  · rename_i hlacking
    refine .bind fun _ => .bind fun outputDir => .bind fun budget => .bind fun pluginDir => ?_
    exact gives_pure (Option.eq_none_iff_forall_not_mem.2 hlacking)

theorem Sufficient.runsTests {c : Config} (h : c.Sufficient) :
    c.testOracle ≠ none ∨ c.testSuite ≠ none := by
  rw [Sufficient, lacking?.eq_def] at h
  cases horacle : c.testOracle with
  | some oracle => simp
  | none =>
    cases hsuite : c.testSuite with
    | some suite => simp
    | none =>
      rw [horacle, hsuite] at h
      cases hmode : c.patchMode <;> cases hdir : c.sourceDir <;> simp [hmode, hdir] at h

end Config

namespace Oracle

/-- The script that runs one test, and its command, given whether the script may be run; none if
there is no way to run tests. -/
def issued? (s : Setup) (test : Text) (program : Option Path) (env : List (Text × Text))
    (executable : Bool) : Option (Path × Invocation) :=
  match s.config.testOracle, s.config.testSuite with
  | some oracle, _ =>
    let c := scriptInvocation oracle executable
    some (oracle,
      { c with args := c.args ++ test :: program.toList, env, dir := s.config.sourceDir })
  | none, some suite =>
    let c := scriptInvocation suite executable
    some (suite, { c with
      args := c.args ++ [test]
      env := (coverageVariable, ['0']) :: env
      dir := s.config.sourceDir })
  | none, none => none

variable {s : Setup} {test : Text} {program : Option Path} {env : List (Text × Text)}
  {cancellable : Bool} {h : History} {y : Except Stop Output}

theorem endsIn_scriptRun {tool : Path} {limit : Nat} {f g : Invocation → Invocation}
    (hy : Job.EndsIn (do
      let c ← (do return f (← scriptCommand tool))
      command (g c) limit cancellable) h y) :
    ∃ executable r, h = [⟨.isExecutable tool, executable⟩,
        ⟨.run (g (f (scriptInvocation tool executable))) (some limit) cancellable, r⟩] ∧
      y = r.mapError (spawnStop (g (f (scriptInvocation tool executable)))) := by
  obtain ⟨c, h₁, h₂, rfl, hc, hy⟩ :=
    endsIn_sure_bind (sure_scriptCommand.bind fun _ => sure_pure _) hy
  obtain ⟨c', h₁, h₃, rfl, htool, hc⟩ := ends_bind.1 hc
  obtain ⟨executable, rfl, rfl⟩ := ends_scriptCommand htool
  obtain ⟨rfl, rfl⟩ := ends_pure.1 hc
  obtain ⟨r, rfl, rfl⟩ := endsIn_command hy
  exact ⟨executable, r, rfl, rfl⟩

/-- **A test is run by one command**, if there is a way to run tests. -/
theorem endsIn_run (hy : Job.EndsIn (run s test program env cancellable) h y) :
    (s.config.testOracle = none ∧ s.config.testSuite = none ∧ h = [] ∧
      y = .error (.failure (.of .noOracle))) ∨
    ∃ executable tool c r, issued? s test program env executable = some (tool, c) ∧
      h = [⟨.isExecutable tool, executable⟩, ⟨.run c (some s.testLimit) cancellable, r⟩] ∧
      y = r.mapError (spawnStop c) := by
  rw [run, invocation.eq_def] at hy
  cases horacle : s.config.testOracle with
  | some oracle =>
    simp only [horacle] at hy
    obtain ⟨executable, r, rfl, rfl⟩ := endsIn_scriptRun hy
    refine .inr ⟨executable, oracle, _, r, ?_, rfl, rfl⟩
    simp only [issued?, horacle]
    cases executable <;> rfl
  | none =>
    cases hsuite : s.config.testSuite with
    | some suite =>
      simp only [horacle, hsuite] at hy
      obtain ⟨executable, r, rfl, rfl⟩ := endsIn_scriptRun hy
      refine .inr ⟨executable, suite, _, r, ?_, rfl, rfl⟩
      simp only [issued?, horacle, hsuite]
      rfl
    | none =>
      simp only [horacle, hsuite] at hy
      obtain ⟨rfl, rfl⟩ := endsIn_throw.1 hy
      exact .inl ⟨rfl, rfl, rfl, rfl⟩

end Oracle

end PatchTriage
