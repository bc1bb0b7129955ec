import PatchTriage.Proofs.BlockRuns

/-!
# Every block resumes the program

A program that the debugger has stopped is resumed by the commands of a block only, whatever the
conditions in it come out as. What is shown of the step of one statement (`Compiled.Sound`) carries
over to the block.
-/

namespace PatchTriage

open List Command

/-! ## Lists of commands that leave the block -/

/-- No run gets to the end of the commands. -/
def Leaves (cs : List Command) : Prop :=
  ∀ (σ : Type) (d : Debugger σ) (s : σ), (d.run cs s).exit ≠ none

theorem leaves_exit {c : Command} {exit : BlockExit} (h : c.exit? = some exit) : Leaves [c] := by
  intro σ d s
  rw [Debugger.run, d.runFrom_exit h]
  simp

variable {cs ds : List Command}

theorem Leaves.append_right (h : Leaves cs) (hcs : Nested cs) : Leaves (cs ++ ds) := by
  intro σ d s
  rw [d.run_append hcs, Visit.andThen_of_exit (h σ d s)]
  exact h σ d s

theorem Leaves.append_left (h : Leaves ds) (hcs : Nested cs) : Leaves (cs ++ ds) := by
  intro σ d s
  rw [d.run_append hcs]
  cases hexit : (d.run cs s).exit with
  | some exit => simp [Visit.andThen_of_exit, hexit]
  | none =>
    rw [Visit.andThen_of_no_exit hexit]
    exact h σ d _

theorem leaves_ifElse (condition : Text) {yes no : List Command} (hyes : Nested yes)
    (hno : Nested no)
    (h : Leaves yes) (h' :
      Leaves no) : Leaves (.ifs condition :: yes ++ .elses :: no ++ [.ends]) := by
  intro σ d s
  have hcut : .ifs condition :: yes ++ .elses :: no ++ [.ends] =
      .ifs condition :: (yes ++ .elses :: (no ++ [.ends])) := by
    simp
  rw [Debugger.run, hcut]
  cases htest : (d.test condition s).1 with
  | true =>
    rw [d.runFrom_ifs_of_holds htest]
    exact h.append_right hyes σ d _
  | false =>
    rw [d.runFrom_ifs_of_fails htest, d.runFrom_passing hyes]
    exact h'.append_right hno σ d _

def Statement.isLoop : Statement → Bool
  | whiles _ | fors _ _ _ => true
  | _ => false

def Statement.isSimple : Statement → Bool
  | assignment _ _ | call _ | other _ => true
  | _ => false

theorem Statement.exists_parseFor (t : Text) : ∃ init condition increment,
    parseFor t = .fors init condition increment := by
  rw [parseFor]
  split
  · exact ⟨_, _, _, rfl⟩
  · split <;> exact ⟨_, _, _, rfl⟩

namespace Compiled

/-! ## The step of a statement -/

/-- What holds of the commands of the fragment at `b` whose continuation is `target`: they are
nested, they do not end the debugger, and they jump nowhere else than to the next line or to
`target`. -/
structure Sound (b target : BreakPoint) (cs : List Command) : Prop where
  nested : Nested cs
  quit_notMem : quit ∉ cs
  target_of_jump : ∀ t, jump t ∈ cs → t = b.offset 1 ∨ t = target

variable {b target : BreakPoint} {statement : Statement}

theorem Sound.append {cs ds : List Command} (h : Sound b target cs) (h' : Sound b target ds) :
    Sound b target (cs ++ ds) where
  nested := h.nested.append h'.nested
  quit_notMem := by simp [h.quit_notMem, h'.quit_notMem]
  target_of_jump t ht := (mem_append.1 ht).elim (h.target_of_jump t) (h'.target_of_jump t)

theorem sound_plain {c : Command} (h : c.isPlain = true) : Sound b target [c] where
  nested := .single c (isMark_of_isPlain h)
  quit_notMem := by
    rw [mem_singleton]
    rintro rfl
    cases h
  target_of_jump t ht := by
    obtain rfl := mem_singleton.1 ht
    cases h

variable (condition : Text)

theorem sound_branch : Sound b target (branch condition (b.offset 1) target) where
  nested := .ifElse condition (.single (.jump (b.offset 1)) rfl) (.single (.jump target) rfl)
  quit_notMem := by simp [branch]
  target_of_jump t ht := by simpa [branch] using ht

theorem leaves_branch (step target : BreakPoint) : Leaves (branch condition step target) :=
  leaves_ifElse condition (.single (.jump step) rfl) (.single (.jump target) rfl)
    (leaves_exit rfl) (leaves_exit rfl)

theorem sound_of_isPlain (h : ∀ c ∈ cs, c.isPlain = true) : Sound b target cs := by
  induction cs with
  | nil => exact ⟨.nil, by simp, by simp⟩
  | cons c cs ih =>
    exact (sound_plain (h c mem_cons_self)).append (ih fun c' hc' => h c' (mem_cons_of_mem c hc'))

/-- A condition under which some commands are run; both ways lead out of the block. -/
theorem sound_guard {calls : List Command} (hcalls : ∀ c ∈ calls, c.isPlain = true) : Sound b target
        (.ifs condition :: calls ++ [.jump (b.offset 1), .elses, .jump target, .ends]) ∧
      Leaves (.ifs condition :: calls ++ [.jump (b.offset 1), .elses, .jump target, .ends]) := by
  have hcut : .ifs condition :: calls ++ [.jump (b.offset 1), .elses, .jump target, .ends] =
      .ifs condition :: (calls ++ [.jump (b.offset 1)]) ++ .elses :: [.jump target] ++ [.ends] := by
    simp
  have hplain : Sound b target calls := sound_of_isPlain hcalls
  have hyes : Nested (calls ++ [jump (b.offset 1)]) := hplain.nested.append (.single _ rfl)
  have hno : Nested [jump target] := .single _ rfl
  rw [hcut]
  refine ⟨⟨.ifElse condition hyes hno, ?_, ?_⟩, ?_⟩
  · simpa using hplain.quit_notMem
  · intro t ht
    have hjump : jump t ∈ calls ∨ t = b.offset 1 ∨ t = target := by simpa using ht
    exact hjump.elim (hplain.target_of_jump t) id
  · exact leaves_ifElse condition hyes hno ((leaves_exit rfl).append_left hplain.nested)
      (leaves_exit rfl)

theorem sound_lowerIf (b target : BreakPoint) (header : Text) :
    Sound b target (lowerIf header (b.offset 1) target) ∧
      Leaves (lowerIf header (b.offset 1) target) := by
  rw [lowerIf]
  split
  · exact ⟨sound_branch _, leaves_branch _ _ _⟩
  · split
    · exact ⟨sound_branch _, leaves_branch _ _ _⟩
    · refine sound_guard _ ?_
      intro c hc
      split at hc
      · cases hc
      · split at hc <;> (obtain rfl := mem_singleton.1 hc; rfl)

def assignments (init : Text) : List Command :=
  (((Text.splitOn ',' init).map Text.trim).filter fun part => !part.isEmpty).map fun part =>
    .setExpr (stripDeclaration part)

def clearFlag : Command := .raw ("set " ++ initFlag ++ " = 0")

theorem initialise_eq (init : Text) :
    initialise init = .ifs initFlag :: (assignments init ++ [clearFlag]) ++ [.ends] := by
  simp [initialise, assignments, clearFlag]

theorem isPlain_of_mem_guarded {init : Text} :
    ∀ c ∈ assignments init ++ [clearFlag], c.isPlain = true := by
  intro c hc
  rcases mem_append.1 hc with hc | hc
  · obtain ⟨part, -, rfl⟩ := mem_map.1 hc
    rfl
  · obtain rfl := mem_singleton.1 hc
    rfl

theorem sound_initialise (b target : BreakPoint) (init : Text) :
    Sound b target (initialise init) := by
  have hbody : Sound b target (assignments init ++ [clearFlag]) :=
    sound_of_isPlain isPlain_of_mem_guarded
  rw [initialise_eq]
  refine ⟨.ifEnd initFlag hbody.nested, ?_, ?_⟩
  · simpa using hbody.quit_notMem
  · intro t ht
    exact hbody.target_of_jump t (by simpa using ht)

structure SoundStep (b target : BreakPoint) (step : Step) : Prop where
  commands : Sound b target step.commands
  leaves : step.transferred = true ∨ step.isLoop = true → Leaves step.commands
  block : ∀ block ∈ step.block, Sound b target block.commands ∧ Leaves block.commands ∧
    block.location = target.withLine (target.line - 1) ∧ b.line + 1 < target.line
  isSome_block : step.block.isSome = (step.isLoop && decide (b.line + 1 < target.line))

theorem soundStep_plain (h : ∀ c ∈ cs, c.isPlain = true) :
    SoundStep b target { commands := cs } where
  commands := sound_of_isPlain h
  leaves := by simp
  block := by simp
  isSome_block := rfl

theorem soundStep_loop {cs increment : List Command} (condition : Text) (hcs : Sound b target cs)
    (hincrement : ∀ c ∈ increment, c.isPlain = true) :
    SoundStep b target
      { commands := cs ++ branch condition (b.offset 1) target
        block := backEdge? b target increment condition (b.offset 1)
        isLoop := true } where
  commands := hcs.append (sound_branch condition)
  leaves _ := (leaves_branch _ _ _).append_left hcs.nested
  block := by
    intro block hblock
    rw [backEdge?] at hblock
    split at hblock
    · rename_i hline
      obtain rfl := Option.some.inj hblock
      have hadvance : Sound b target increment := sound_of_isPlain hincrement
      exact ⟨hadvance.append (sound_branch _),
        (leaves_branch _ _ _).append_left hadvance.nested, rfl, hline⟩
    · cases hblock
  isSome_block := by by_cases hline : b.line + 1 < target.line <;> simp [backEdge?, hline]

theorem isPlain_lower (h : statement.isSimple = true) :
    ∀ c ∈ (lower b target statement).commands, c.isPlain = true := by
  intro c hc
  cases statement with
  | assignment text compound =>
    obtain rfl := mem_singleton.1 hc
    rw [lowerAssignment]
    split
    · rfl
    · split <;> rfl
  | call expr =>
    obtain rfl := mem_singleton.1 hc
    rfl
  | other text =>
    rw [lower] at hc
    split at hc
    · cases hc
    · split at hc <;> (obtain rfl := mem_singleton.1 hc; rfl)
  | _ => cases h

theorem lower_eq_of_isSimple (h : statement.isSimple = true) :
    lower b target statement = { commands := (lower b target statement).commands } := by
  cases statement with
  | other text =>
    rw [lower]
    split
    · rfl
    · split <;> rfl
  | assignment _ _ | call _ => rfl
  | _ => cases h

/-- **The step of a statement**, for each kind of statement. -/
theorem sound_lower (b target : BreakPoint) (statement : Statement) :
    SoundStep b target (lower b target statement) := by
  cases statement with
  | returns text =>
    have hcommands : Sound b target [.raw text, .continues] :=
      ⟨nested_of_isMark (by simp [isMark]), by simp, by simp⟩
    have hleaves : Leaves [.raw text, .continues] :=
      (leaves_exit rfl).append_left (.single (.raw text) rfl)
    exact ⟨hcommands, fun _ => hleaves, by simp [lower], rfl⟩
  | ifs header =>
    obtain ⟨hcommands, hleaves⟩ := sound_lowerIf b target header
    exact ⟨hcommands, fun _ => hleaves, by simp [lower], rfl⟩
  | whiles condition =>
    have hnone : Sound b target [] := sound_of_isPlain (by simp)
    exact soundStep_loop condition hnone (forall_mem_nil _)
  | fors init condition increment =>
    refine soundStep_loop _ (sound_initialise b target init) fun c hc => ?_
    split at hc
    · cases hc
    · obtain rfl := mem_singleton.1 hc
      rfl
  | assignment _ _ | call _ | other _ =>
    rw [lower_eq_of_isSimple rfl]
    exact soundStep_plain (isPlain_lower rfl)

theorem leaves_lower (h : statement.isSimple = false) :
    Leaves (lower b target statement).commands := by
  refine (sound_lower b target statement).leaves ?_
  cases statement with
  | returns _ | ifs _ => exact .inl rfl
  | whiles _ | fors _ _ _ => exact .inr rfl
  | _ => cases h

theorem isLoop_lower (b target : BreakPoint) (statement : Statement) :
    (lower b target statement).isLoop = statement.isLoop := by
  cases statement with
  | other text =>
    rw [lower_eq_of_isSimple rfl]
    rfl
  | _ => rfl

/-! ## Whole fragments -/

def commandsOf (b target : BreakPoint) (statements : List Statement) : List Command :=
  ((statements.map (lower b target)).map Step.commands).flatten

theorem commandsOf_append (b target : BreakPoint) (before after : List Statement) :
    commandsOf b target (before ++ after) = commandsOf b target before
      ++ commandsOf b target after := by
  simp [commandsOf]

theorem commandsOf_cons (b target : BreakPoint) (statement : Statement) (after : List Statement) :
    commandsOf b target (statement :: after) =
      (lower b target statement).commands ++ commandsOf b target after := by
  simp [commandsOf]

theorem sound_commandsOf (b target : BreakPoint) (statements : List Statement) :
    Sound b target (commandsOf b target statements) := by
  induction statements with
  | nil => exact sound_of_isPlain (by simp [commandsOf])
  | cons statement statements ih =>
    rw [commandsOf_cons]
    exact (sound_lower b target statement).commands.append ih

def statements (f : Fragment) : List Statement := f.inserted.filterMap Statement.parse?

def steps (b : BreakPoint) (f : Fragment) : List Step :=
  (statements f).map (lower b (f.continuation b))

def primary (b : BreakPoint) (f : Fragment) : List Command :=
  commandsOf b (f.continuation b) (statements f) ++
    if (steps b f).any Step.transferred || (steps b f).any Step.isLoop then []
    else [.jump (f.continuation b)]

theorem blocks_eq (b : BreakPoint) (f : Fragment) : (ofFragment b f).blocks =
      { location := b, commands := primary b f } :: (steps b f).filterMap Step.block := rfl

theorem sound_primary (b : BreakPoint) (f : Fragment) :
    Sound b (f.continuation b) (primary b f) := by
  refine (sound_commandsOf b (f.continuation b) (statements f)).append ?_
  split
  · exact sound_of_isPlain (by simp)
  · exact ⟨.single _ rfl, by simp, by simp⟩

theorem exists_primary_eq {f : Fragment} {before after : List Statement}
    (h : statements f = before ++ statement :: after) (b : BreakPoint) :
    ∃ rest, primary b f = commandsOf b (f.continuation b) before ++
      ((lower b (f.continuation b) statement).commands ++ rest) :=
  ⟨_, by rw [primary, h, commandsOf_append, commandsOf_cons, append_assoc, append_assoc]⟩

/-- **What is behind a statement that leaves the block is not run.** -/
theorem run_primary {f : Fragment} {before after : List Statement}
    (h : statements f = before ++ statement :: after)
    (hleaves : Leaves (lower b (f.continuation b) statement).commands) {σ : Type} (d :
      Debugger σ) (s : σ) :
    d.run (primary b f) s = (d.run (commandsOf b (f.continuation b) before) s).andThen
        fun s' => d.run (lower b (f.continuation b) statement).commands s' := by
  have hleave : ∀ rest s', d.run ((lower b (f.continuation b) statement).commands ++ rest) s' =
      d.run (lower b (f.continuation b) statement).commands s' := by
    intro rest s'
    rw [d.run_append (sound_lower b (f.continuation b) statement).commands.nested,
      Visit.andThen_of_exit (hleaves σ d s')]
  obtain ⟨rest, hprimary⟩ := exists_primary_eq h b
  rw [hprimary, d.run_append (sound_commandsOf b (f.continuation b) before).nested]
  simp only [hleave]

/-- **The commands at the break point leave the block**, by a statement or by the jump behind all of
them. -/
theorem leaves_primary (b : BreakPoint) (f : Fragment) : Leaves (primary b f) := by
  cases hleave : (steps b f).any Step.transferred || (steps b f).any Step.isLoop with
  | true =>
    obtain ⟨step, hstep, hflag⟩ :
        ∃ step ∈ steps b f, step.transferred = true ∨ step.isLoop = true := by
      simp only [Bool.or_eq_true, any_eq_true] at hleave
      rcases hleave with ⟨step, hstep, hflag⟩ | ⟨step, hstep, hflag⟩
      · exact ⟨step, hstep, .inl hflag⟩
      · exact ⟨step, hstep, .inr hflag⟩
    obtain ⟨statement, hmem, rfl⟩ := mem_map.1 hstep
    obtain ⟨before, after, hcut⟩ := append_of_mem hmem
    have hstatement := sound_lower b (f.continuation b) statement
    obtain ⟨rest, hprimary⟩ := exists_primary_eq hcut b
    rw [hprimary]
    exact ((hstatement.leaves hflag).append_right hstatement.commands.nested).append_left
      (sound_commandsOf b (f.continuation b) before).nested
  | false =>
    rw [primary, hleave]
    exact (leaves_exit rfl).append_left
      (sound_commandsOf b (f.continuation b) (statements f)).nested

theorem resumes_of_leaves (hleaves : Leaves cs) (hquit : quit ∉ cs)
    {σ : Type} (d : Debugger σ) (s : σ) : (d.run cs s).Resumes := by
  cases hexit : (d.run cs s).exit with
  | none => exact absurd hexit (hleaves σ d s)
  | some exit =>
    obtain ⟨c, hc, hself⟩ := d.exists_exit?_of_exit hexit
    cases exit with
    | jump target => exact .inl ⟨target, hexit⟩
    | continues => exact .inr hexit
    | quit =>
      cases c <;> cases hself
      exact absurd hc hquit

theorem file_continuation (f : Fragment) (b : BreakPoint) : (f.continuation b).file = b.file := by
  rw [Fragment.continuation]
  split <;> rfl

theorem length_further (b : BreakPoint) (f : Fragment) : ((steps b f).filterMap Step.block).length =
      if b.line + 2 ≤ (f.continuation b).line then (statements f).countP Statement.isLoop
      else 0 := by
  have hcount : ((steps b f).filterMap Step.block).length = (statements f).countP fun statement =>
        statement.isLoop && decide (b.line + 1 < (f.continuation b).line) := by
    rw [length_filterMap_eq_countP, steps, countP_map]
    refine countP_congr fun statement _ => ?_
    rw [Function.comp_apply,
      (sound_lower b (f.continuation b) statement).isSome_block, isLoop_lower]
  rw [hcount]
  by_cases hline : b.line + 1 < (f.continuation b).line
  · simp [hline, show b.line + 2 ≤ (f.continuation b).line from hline]
  · simp [hline, show ¬ b.line + 2 ≤ (f.continuation b).line from hline]

/-- **Every block resumes the program.** For any break point and any fragment, the marks of every
block are nested, every run of it, whatever its conditions come out as, ends in a jump or goes on,
and it jumps in the file of the break point only, to the next line or to the continuation. The first
block stands at the break point. The others stand on the line before the continuation, behind the
break point; there is one for each loop if there are lines between the two, and none otherwise. -/
theorem blocks_ofFragment (b : BreakPoint) (f : Fragment) :
    (∀ block ∈ (ofFragment b f).blocks,
      Nested block.commands ∧
      (∀ (σ : Type) (d : Debugger σ) (s : σ), (d.run block.commands s).Resumes) ∧
      ∀ t, jump t ∈ block.commands → t.file = b.file ∧
        (t.line = min (b.line + 1) BreakPoint.maxLine ∨ t.line = (f.continuation b).line)) ∧
    ∃ first further, (ofFragment b f).blocks = first :: further ∧ first.location = b ∧
      (∀ block ∈ further, block.location = ⟨b.file, (f.continuation b).line - 1⟩ ∧
        b.line < (f.continuation b).line - 1) ∧
      further.length =
        if b.line + 2 ≤ (f.continuation b).line then (statements f).countP Statement.isLoop
        else 0 := by
  have hfurther : ∀ block ∈ (steps b f).filterMap Step.block,
      Sound b (f.continuation b) block.commands ∧ Leaves block.commands ∧
        block.location = (f.continuation b).withLine ((f.continuation b).line - 1) ∧
        b.line + 1 < (f.continuation b).line := by
    intro block hblock
    obtain ⟨step, hstep, hsome⟩ := mem_filterMap.1 hblock
    obtain ⟨statement, -, rfl⟩ := mem_map.1 hstep
    exact (sound_lower b (f.continuation b) statement).block block hsome
  refine ⟨?_, _, _, blocks_eq b f, rfl, ?_, length_further b f⟩
  · intro block hblock
    obtain ⟨hsound, hleaves⟩ :
        Sound b (f.continuation b) block.commands ∧ Leaves block.commands := by
      rw [blocks_eq] at hblock
      rcases mem_cons.1 hblock with rfl | hblock
      · exact ⟨sound_primary b f, leaves_primary b f⟩
      · exact ⟨(hfurther block hblock).1, (hfurther block hblock).2.1⟩
    refine ⟨hsound.nested, fun σ d s => resumes_of_leaves hleaves hsound.quit_notMem d s, ?_⟩
    intro t ht
    rcases hsound.target_of_jump t ht with rfl | rfl
    · exact ⟨rfl, .inl rfl⟩
    · exact ⟨file_continuation f b, .inr rfl⟩
  · intro block hblock
    obtain ⟨-, -, hlocation, hline⟩ := hfurther block hblock
    rw [hlocation, BreakPoint.withLine, file_continuation]
    exact ⟨rfl, by omega⟩

end Compiled

end PatchTriage
