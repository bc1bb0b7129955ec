import PatchTriage.Proofs.Stops
import PatchTriage.Proofs.TestCommands

/-!
# Settings that have been checked

Settings are checked before any patch is touched. After that they are no reason to stop any more.
-/

namespace PatchTriage

open Config

namespace Job

variable {α : Type} {work : Job α}

/-- Whatever the answers are, the work does not end with a problem that comes too late. -/
abbrev Timely (work : Job α) : Prop := Stops (fun _ => True) (fun e => e.isBelated = false) work

theorem Timely.explain {p : Problem} (hp : p.isBelated = false) (hw : Timely work) :
    Timely (Job.explain p work) :=
  Stops.explain (fun f hf => by simpa [Stop.isBelated, Failure.within, hp] using hf) hw

theorem inherited_timely : Inherited @Timely where
  pure a := stops_pure a
  op _ := stops_op _
  fail hf := stops_fail hf
  bind hw hnext := hw.bind hnext
  explain hp hw := .explain hp hw
  attempt hw := hw.attempt
  orElseAfter hcleanup hw := hcleanup.orElseAfter hw
  onFiles _ hsure := hsure.stops

end Job

open Job

/-! ## Routing -/

namespace Routing

variable {mode : PatchMode} {hasSource : Bool} {p : Patch}

/-- **Where patches go.** If patches that need a build can be compiled, then every patch has a way.
A patch that needs recompilation is compiled. Any other goes the way of the mode, or is compiled
where there is a source tree; and it is compiled, if there is one, when it has no plan for the
editor. -/
theorem route_eq_ok (h : p.requiresRecompilation = true → canRecompile mode hasSource = true) :
    ∃ way, route mode hasSource p = .ok way ∧ (way = mode ∨ way = .compiler ∧ hasSource = true) ∧
      (p.requiresRecompilation = true → way = .compiler) ∧
      (way = .editor → Plan.ofPatch? p = none → hasSource = false) := by
  rw [route]
  split
  · rename_i hmode
    refine ⟨mode, rfl, .inl rfl, fun hp => ?_, fun heditor hplan => ?_⟩
    · simpa [needsBuild, hp] using hmode
    · simp [needsBuild, heditor, hplan] at hmode
  · rename_i hmode
    split
    · rename_i hsource
      exact ⟨.compiler, rfl, .inr ⟨rfl, hsource⟩, fun _ => rfl, fun heditor => by cases heditor⟩
    · rename_i hsource
      -- Without a source tree only the mode of the compiler allows a build, which is ruled out.
      have hp : p.requiresRecompilation = false := by
        cases hp : p.requiresRecompilation with
        | false => rfl
        | true => simp_all [canRecompile]
      rw [if_neg (by simp [hp])]
      exact ⟨mode, rfl, .inl rfl, by simp [hp], fun _ _ => by simpa using hsource⟩

end Routing

namespace Run

theorem canRecompile_of_unbuildable? {c : Config} {patches : List Patch}
    (h : unbuildable? c patches = none) {p : Patch} (hp : p ∈ patches)
    (hrebuild : p.requiresRecompilation = true) :
    Routing.canRecompile c.patchMode c.canRecompile = true := by
  rw [unbuildable?] at h
  split at h
  · assumption
  · exact absurd hrebuild (List.find?_eq_none.1 h p hp)

theorem timely_stage {c : Config} (hc : c.Sufficient) {p : Patch} {way : PatchMode}
    (hway : way = c.patchMode ∨ way = .compiler ∧ c.canRecompile = true)
    (hp : p.requiresRecompilation = true → way = .compiler) :
      Timely (stage (.ofConfig c) p way) := by
  have hplain : way ≠ .compiler → p.requiresRecompilation = false := by
    intro hne
    simpa using fun h => hne (hp h)
  rw [Sufficient, lacking?.eq_def] at hc
  cases way with
  | debugger =>
    exact UnderDebugger.inherited_stage inherited_timely fun h => absurd h (by simp [hplain])
  | editor =>
    refine InBinary.inherited_stage inherited_timely (fun h => absurd h (by simp [hplain]))
      fun hnone => ?_
    have hmode : c.patchMode = .editor := (hway.resolve_right (by simp)).symm
    have hbinary : c.binary = none := hnone
    simp [hmode, hbinary] at hc
  | compiler =>
    refine FromSource.inherited_stage inherited_timely fun hnone => ?_
    have hdir : c.sourceDir = none := hnone
    rcases hway with hmode | ⟨-, hsource⟩
    · simp [← hmode, hdir] at hc
    · simp [canRecompile, hdir] at hsource

/-- **Problems of the settings do not come up later.** For settings that have been checked, and
patches among which none needs a build that is not possible: every patch has a way, and staging it
that way does not end with a problem of the settings; nor does running a test. A patch that needs
recompilation is compiled, and a patch without a plan goes to the editor only if there is no source
tree. -/
theorem checked_settings {l : Layer} {h₀ : History} {c : Config} {patches : List Patch} {p : Patch}
    (hresolve : Job.Ends (resolve l) h₀ c) (hcheck : unbuildable? c patches = none)
    (hp : p ∈ patches) :
    (∃ way, Routing.route c.patchMode c.canRecompile p = .ok way ∧
      (∀ h e, EndsIn (stage (.ofConfig c) p way) h (.error e) → e.isBelated = false) ∧
      (p.requiresRecompilation = true → way = .compiler) ∧
      (way = .editor → Plan.ofPatch? p = none → c.sourceDir = none)) ∧
    ∀ test program env cancellable h e,
      EndsIn (Oracle.run (.ofConfig c) test program env cancellable) h (.error e) →
      e.isBelated = false := by
  have hc := gives_resolve l h₀ c hresolve
  obtain ⟨way, hroute, hway, hcompiled, heditor⟩ :=
    Routing.route_eq_ok (canRecompile_of_unbuildable? hcheck hp)
  refine ⟨⟨way, hroute, fun h e => timely_stage hc hway hcompiled h e (by simp), hcompiled, ?_⟩, ?_⟩
  · intro hmode hplan
    simpa [canRecompile] using heditor hmode hplan
  · intro test program env cancellable h e he
    obtain ⟨horacle, hsuite, -⟩ | ⟨_, _, _, r, -, -, hr⟩ := Oracle.endsIn_run he
    · exact absurd hc.runsTests (by simpa using ⟨horacle, hsuite⟩)
    · cases r with
      | ok o => cases hr
      | error io =>
        cases hr
        rfl

def editorLayer : Layer where
  patchMode := some "rewrite"
  binary := some "/prog"
  testOracle := some "/oracle"
  sourceDir := some "/src"
  patchDir := some "/patches"
  testIds := some ["1"]
  outputDir := some "/out"

def editorConfig : Config where
  patchMode := .editor
  binary := some "/prog"
  testOracle := some "/oracle"
  sourceDir := some "/src"
  patchLocation := "/patches"
  testIds := ["1"]
  outputDir := "/out"

def editorChecks : History :=
  [⟨.isFile "/prog", true⟩, ⟨.canonical "/prog", .ok "/prog"⟩, ⟨.isFile "/oracle", true⟩,
    ⟨.canonical "/oracle", .ok "/oracle"⟩, ⟨.isDir "/src", true⟩, ⟨.canonical "/src", .ok "/src"⟩,
    ⟨.isDir "/patches", true⟩, ⟨.canonical "/patches", .ok "/patches"⟩,
      ⟨.createDirs "/out", .ok ()⟩,
    ⟨.canonical "/out", .ok "/out"⟩]

/-- Two patches that the editor cannot deal with: one adds a dependency, and the other two edits. -/
def unplanned : List Patch :=
  [{ id := "a.patch", path := "/patches/a.patch", sourceFile := "f.c"
     requiresRecompilation := true },
    { id := "b.patch", path := "/patches/b.patch", sourceFile := "f.c"
      fragments :=
        [(⟨"f.c", 10⟩, { inserted := ["x = 5;"] }), (⟨"f.c", 20⟩, { inserted := ["y = 6;"] })] }]

theorem checked_settings_editor :
    Job.Ends (resolve editorLayer) editorChecks editorConfig ∧
    unbuildable? editorConfig unplanned = none ∧
    ∀ p ∈ unplanned, ∃ way,
      Routing.route editorConfig.patchMode editorConfig.canRecompile p = .ok way ∧ way ≠ .editor ∧
      ∀ h e, EndsIn (stage (.ofConfig editorConfig) p way) h (.error e) → e.isBelated = false := by
  have hresolve : Job.Ends (resolve editorLayer) editorChecks editorConfig :=
    .cons (.cons (.cons (.cons (.cons (.cons (.cons (.cons (.cons (.cons (.nil _))))))))))
  have hcheck : unbuildable? editorConfig unplanned = none := by decide +kernel
  refine ⟨hresolve, hcheck, fun p hp => ?_⟩
  obtain ⟨⟨way, hroute, hstage, -, heditor⟩, -⟩ := checked_settings hresolve hcheck hp
  refine ⟨way, hroute, fun hway => ?_, hstage⟩
  have hplans : ∀ q ∈ unplanned, Plan.ofPatch? q = none := by decide +kernel
  cases heditor hway (hplans p hp)

end Run

end PatchTriage
