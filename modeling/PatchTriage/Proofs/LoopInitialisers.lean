import PatchTriage.Debugger.Script
import PatchTriage.Proofs.CommandTexts

/-!
# Initialisers of counting loops

The initialiser of a counting loop is guarded by a variable of the debugger, one for the loops of
all fragments: the script sets it at first, and the first guard that finds it set clears it.
-/

namespace PatchTriage

open Text Script Statement Command

open List hiding contains

open Compiled (initFlag clearFlag assignments initialise branch)

/-! ## The variable -/

def Command.mentionsFlag : Command → Bool
  | jump _ | dumpCore _ => false
  | c => contains initFlag c.render

theorem contains_initFlag {t : Text} (h : '$' ∉ t) : contains initFlag t = false := by
  rw [contains_eq_false_iff]
  intro hi
  exact h (hi.subset (by decide))

theorem mentionsFlag_of_spelled {t : Text} {c : Command} (h : Compiled.Spelled t c) (ht : '$' ∉ t) :
    c.mentionsFlag = false := by
  have hrender : c.exit? = none → contains initFlag c.render = false := by
    intro hexit
    refine contains_initFlag fun hmem => ?_
    rcases mem_append.1 (h hexit hmem) with hmem | hmem
    · exact ht hmem
    · exact absurd hmem (by decide)
  cases c with
  | jump _ | dumpCore _ => rfl
  | continues | quit => decide
  | _ => exact hrender rfl

def setFlagLine : Text := ("set " : Text) ++ initFlag ++ (" = 1" : Text)

namespace Debugger

variable {δ π : Type}

/-- The debugger with variables `δ`, running a program with states `π`, has the variable `flag`:
conditions and lines that do not name it leave it alone, and so does a core dump, whatever the name
of its file. -/
structure Holds (d : Debugger (δ × π)) (flag : δ → Bool) : Prop where
  test_flag : ∀ s, (d.test initFlag s).1 = flag s.1
  test_keeps : ∀ condition s, condition = initFlag ∨ contains initFlag condition = false →
    flag (d.test condition s).2.1 = flag s.1
  perform_set : ∀ s, flag (d.perform setFlagLine s).1 = true
  perform_clear : ∀ s, flag (d.perform clearFlag.render s).1 = false
  perform_keeps : ∀ line s, contains initFlag line = false ∨
    startsWith "generate-core-file " line = true →
    flag (d.perform line s).1 = flag s.1

variable {d : Debugger (δ × π)} {flag : δ → Bool}

theorem Holds.perform_command (hd : d.Holds flag) {c : Command} (hplain : c.isPlain = true)
    (h : c.mentionsFlag = false) (s : δ × π) : flag (d.perform c.render s).1 = flag s.1 := by
  refine hd.perform_keeps c.render s ?_
  cases c with
  | dumpCore path => exact .inr (startsWith_append _ path)
  | jump _ => cases hplain
  | _ => exact .inl h

theorem Holds.test_command (hd : d.Holds flag) {condition : Text}
    (h : (Command.ifs condition).mentionsFlag = false) (s : δ × π) :
    flag (d.test condition s).2.1 = flag s.1 := by
  refine hd.test_keeps condition s (.inr ?_)
  rw [contains_eq_false_iff]
  intro hi
  have hrender : contains initFlag (("if " : Text) ++ condition) = false := h
  exact contains_eq_false_iff.1 hrender (hi.trans (suffix_append _ _).isInfix)

/-- **Commands that do not mention the variable** leave it alone. -/
theorem Holds.flag_runFrom (hd : d.Holds flag) {cs : List Command}
    (h : ∀ c ∈ cs, c.mentionsFlag = false) (mode : Mode) (s : δ × π) :
    flag (d.runFrom mode cs s).state.1 = flag s.1 := by
  induction cs generalizing mode s with
  | nil => cases mode <;> rfl
  | cons c cs ih =>
    have hrest := ih fun c' hc' => h c' (mem_cons_of_mem c hc')
    cases mode with
    | passing depth orElse => exact hrest _ s
    | active =>
      cases hexit : c.exit? with
      | some exit => rw [d.runFrom_exit hexit]
      | none =>
        cases hmark : c.isMark with
        | false =>
          have hplain : c.isPlain = true := by simp [isPlain, hexit, hmark]
          rw [d.runFrom_plain hplain]
          exact (hrest _ _).trans (hd.perform_command hplain (h c mem_cons_self) s)
        | true =>
          cases c with
          | ifs condition =>
            exact (hrest _ _).trans (hd.test_command (h (.ifs condition) mem_cons_self) s)
          | elses | ends => exact hrest _ s
          | _ => cases hmark

end Debugger

/-! ## Guards -/

namespace Debugger

variable {σ : Type} (d : Debugger σ)

theorem run_branch (condition : Text) (step target : BreakPoint) (rest : List Command) (s : σ) :
    d.run (branch condition step target ++ rest) s =
      { exit := some (.jump (if (d.test condition s).1 then step else target))
        state := (d.test condition s).2 } := by
  rw [run, branch, cons_append]
  cases htest : (d.test condition s).1 with
  | true =>
    rw [d.runFrom_ifs_of_holds htest]
    rfl
  | false =>
    rw [d.runFrom_ifs_of_fails htest]
    rfl

/-- The commands under the guard are run if the variable is set, and what is behind them in any
case. -/
theorem run_initialise (init : Text) (rest : List Command) (s : σ) :
    d.run (initialise init ++ rest) s =
      if (d.test initFlag s).1 = true then
        (d.run (assignments init ++ [clearFlag]) (d.test initFlag s).2).andThen
          fun s' => d.run rest s'
      else d.run rest (d.test initFlag s).2 := by
  have hnested : Nested (assignments init ++ [clearFlag]) :=
    nested_of_isPlain Compiled.isPlain_of_mem_guarded
  have hcut : initialise init ++ rest =
      .ifs initFlag :: ((assignments init ++ [clearFlag]) ++ .ends :: rest) := by
    rw [Compiled.initialise_eq]
    simp
  rw [hcut, run]
  cases htest : (d.test initFlag s).1 with
  | true =>
    rw [d.runFrom_ifs_of_holds htest, if_pos rfl, d.runFrom_append hnested]
    rfl
  | false =>
    rw [d.runFrom_ifs_of_fails htest, if_neg (by simp), d.runFrom_passing hnested]
    rfl

end Debugger

/-- The first command that is more than performed tests the variable. -/
def Block.isGuard (block : Block) : Bool :=
  (block.commands.dropWhile isPlain).head? == some (.ifs initFlag)

/-- Commands that are performed, the guarded initialiser and the test of the loop. -/
def Guarded (before : List Command) (init : Text) (cs : List Command) : Prop :=
  ∃ condition step target rest,
    cs = before ++ (initialise init ++ (branch condition step target ++ rest)) ∧
    (∀ c ∈ before, c.isPlain = true) ∧
    ∀ c ∈ before ++ assignments init ++ branch condition step target, c.mentionsFlag = false

def Unguarded (cs : List Command) : Prop :=
  ∃ front rest, cs = front ++ rest ∧ Nested front ∧ Leaves front ∧
    ∀ c ∈ front, c.mentionsFlag = false

theorem Guarded.isGuard {before : List Command} {init : Text} {block : Block}
    (h : Guarded before init block.commands) : block.isGuard = true := by
  obtain ⟨condition, step, target, rest, hcut, hplain, -⟩ := h
  rw [Block.isGuard, hcut, dropWhile_append_of_pos hplain]
  simp [initialise, isPlain, isMark]

theorem Unguarded.isGuard {block : Block} (h : Unguarded block.commands) :
    block.isGuard = false := by
  obtain ⟨front, rest, hcut, -, hleaves, hflag⟩ := h
  cases hfront : front.dropWhile isPlain with
  | nil =>
    -- Plain commands do not leave a block.
    have hplain := dropWhile_eq_nil_iff.1 hfront
    refine absurd ?_ (hleaves Unit ⟨fun _ s => (true, s), fun _ s => s⟩ ())
    rw [Debugger.run_plain _ hplain]
  | cons c tail =>
    have hne : (front.dropWhile isPlain).isEmpty = false := by rw [hfront]; rfl
    have hmem : c ∈ front := (dropWhile_suffix _).subset (hfront ▸ mem_cons_self)
    have htest : c ≠ .ifs initFlag := by
      rintro rfl
      exact absurd (hflag _ hmem) (by decide)
    rw [Block.isGuard, hcut, dropWhile_append, hne, hfront]
    simpa using htest

section Runs

variable {δ π : Type} {d : Debugger (δ × π)} {flag : δ → Bool}

theorem Debugger.Holds.run_guard (hd : d.Holds flag) (init : Text) {condition : Text}
    (hcondition : (Command.ifs condition).mentionsFlag = false) (step target : BreakPoint)
    (rest : List Command) (s : δ × π) :
    (d.run (initialise init ++ (branch condition step target ++ rest)) s).performed =
        (if flag s.1 = true then assignments init ++ [clearFlag] else []) ∧
      flag (d.run (initialise init ++ (branch condition step target ++ rest)) s).state.1 =
        false := by
  have hkept : flag (d.test initFlag s).2.1 = flag s.1 := hd.test_keeps initFlag s (.inl rfl)
  rw [d.run_initialise, hd.test_flag]
  cases hset : flag s.1 with
  | true =>
    have hclear : flag (d.run (assignments init ++ [clearFlag]) (d.test initFlag s).2).state.1 =
        false := by
      rw [d.run_plain Compiled.isPlain_of_mem_guarded, foldl_append]
      exact hd.perform_clear _
    rw [d.run_plain Compiled.isPlain_of_mem_guarded] at hclear ⊢
    rw [if_pos rfl, if_pos rfl, Visit.andThen_of_no_exit rfl, d.run_branch]
    exact ⟨by simp, (hd.test_command hcondition _).trans hclear⟩
  | false =>
    rw [if_neg (by simp), if_neg (by simp), d.run_branch]
    exact ⟨rfl, (hd.test_command hcondition _).trans (hkept.trans hset)⟩

/-- **What a guard does**: the initialiser is run if the variable is set, and the variable is clear
afterwards. -/
theorem Guarded.run {before cs : List Command} {init : Text} (h : Guarded before init cs)
    (hd : d.Holds flag) (s : δ × π) :
    (d.run cs s).performed =
      before ++ (if flag s.1 = true then assignments init ++ [clearFlag] else []) ∧
      flag (d.run cs s).state.1 = false := by
  obtain ⟨condition, step, target, rest, rfl, hplain, hflag⟩ := h
  have hnested : Nested before := nested_of_isPlain hplain
  have hexit : (d.run before s).exit = none := by rw [d.run_plain hplain]
  have hperformed : (d.run before s).performed = before := by rw [d.run_plain hplain]
  have hkept : flag (d.run before s).state.1 = flag s.1 :=
    hd.flag_runFrom (fun c hc => hflag c (by simp [hc])) .active s
  obtain ⟨hguarded, hclear⟩ := hd.run_guard init
    (hflag (.ifs condition) (by simp [branch])) step target rest (d.run before s).state
  rw [d.run_append hnested, Visit.andThen_of_no_exit hexit]
  exact ⟨by rw [hperformed, hguarded, hkept], hclear⟩

theorem Unguarded.run {cs : List Command} (h : Unguarded cs) (hd : d.Holds flag) (s : δ × π) :
    flag (d.run cs s).state.1 = flag s.1 := by
  obtain ⟨front, rest, rfl, hnested, hleaves, hflag⟩ := h
  rw [d.run_append hnested, Visit.andThen_of_exit (hleaves _ d s)]
  exact hd.flag_runFrom hflag .active s

end Runs

/-! ## The blocks of a script -/

namespace Script

variable (fragments : List Compiled)

def blocks (hooks : Hooks) : List Block :=
  hooks.before (allBlocks fragments) ++
    (SortedList.distinct BreakPoint.compare (fragments.map Compiled.jumpTarget)).filterMap
      fun target => hooks.after? target

theorem render_eq (hooks : Hooks) :
    render fragments hooks = prelude hooks.fixesAddresses fragments ++
      renderBlocks (blocks fragments hooks) ++ ("run\n" : Text) := by
  simp [render, blocks, renderBlocks]

def IsDump (cs : List Command) : Prop := ∀ c ∈ cs, ∃ path, c = .dumpCore path

def Dumped (inner block : Block) : Prop :=
  block.location = inner.location ∧ ∃ dump, IsDump dump ∧ block.commands = dump ++ inner.commands

theorem Dumped.refl (block : Block) : Dumped block block := ⟨rfl, [], forall_mem_nil _, rfl⟩

theorem Hooks.exists_of_mem_before {hooks : Hooks} {blocks : List Block} {block : Block}
    (h : block ∈ hooks.before blocks) : ∃ inner ∈ blocks, Dumped inner block := by
  rw [Hooks.before.eq_def] at h
  split at h
  · rename_i before _ first rest
    rcases mem_cons.1 h with rfl | h
    · exact ⟨first, mem_cons_self, rfl, [.dumpCore before], by simp [IsDump], rfl⟩
    · exact ⟨block, mem_cons_of_mem first h, Dumped.refl block⟩
  · exact ⟨block, h, Dumped.refl block⟩

theorem Hooks.exists_mem_before {blocks : List Block} {inner : Block} (h : inner ∈ blocks)
    (hooks : Hooks) :
    ∃ block ∈ hooks.before blocks, Dumped inner block := by
  rw [Hooks.before.eq_def]
  split
  · rename_i before _ first rest
    rcases mem_cons.1 h with rfl | h
    · exact ⟨_, mem_cons_self, rfl, [.dumpCore before], by simp [IsDump], rfl⟩
    · exact ⟨inner, mem_cons_of_mem _ h, Dumped.refl inner⟩
  · exact ⟨inner, h, Dumped.refl inner⟩

variable {dump : List Command}

theorem IsDump.isPlain (h : IsDump dump) : ∀ c ∈ dump, c.isPlain = true := by
  intro c hc
  obtain ⟨path, rfl⟩ := h c hc
  rfl

theorem IsDump.mentionsFlag (h : IsDump dump) : ∀ c ∈ dump, c.mentionsFlag = false := by
  intro c hc
  obtain ⟨path, rfl⟩ := h c hc
  rfl

theorem IsDump.guarded {dump before cs : List Command} {init : Text} (hdump : IsDump dump)
    (h : Guarded before init cs) : Guarded (dump ++ before) init (dump ++ cs) := by
  obtain ⟨condition, step, target, rest, rfl, hplain, hflag⟩ := h
  refine ⟨condition, step, target, rest, (append_assoc _ _ _).symm, ?_, ?_⟩
  · intro c hc
    exact (mem_append.1 hc).elim (hdump.isPlain c) (hplain c)
  · intro c hc
    rw [append_assoc, append_assoc] at hc
    rcases mem_append.1 hc with hc | hc
    · exact hdump.mentionsFlag c hc
    · exact hflag c (by rwa [append_assoc])

theorem IsDump.unguarded {dump cs : List Command} (hdump : IsDump dump) (h : Unguarded cs) :
    Unguarded (dump ++ cs) := by
  obtain ⟨front, rest, rfl, hnested, hleaves, hflag⟩ := h
  have hmarks : Nested dump := nested_of_isPlain hdump.isPlain
  refine ⟨dump ++ front, rest, (append_assoc _ _ _).symm, hmarks.append hnested,
    hleaves.append_left hmarks, ?_⟩
  intro c hc
  exact (mem_append.1 hc).elim (hdump.mentionsFlag c) (hflag c)

theorem Hooks.unguarded_of_after? {hooks : Hooks} {target : BreakPoint} {block : Block}
    (h : hooks.after? target = some block) : Unguarded block.commands := by
  cases hooks with
  | none => cases h
  | signature _ after =>
    cases h
    have hdump : IsDump [.dumpCore after] := by simp [IsDump]
    exact hdump.unguarded ⟨[.quit], [], rfl, .single _ rfl, leaves_exit rfl, by decide⟩
  | location dump =>
    cases h
    have hdump : IsDump [.dumpCore dump] := by simp [IsDump]
    exact hdump.unguarded ⟨[.continues], [], rfl, .single _ rfl, leaves_exit rfl, by decide⟩

end Script

namespace Compiled

/-- The first statement of `f` that is more than performed is a counting loop, behind `before`. -/
def OpensLoop (f : Fragment) (before : List Statement) (init : Text) : Prop :=
  ∃ condition increment after, statements f = before ++ .fors init condition increment :: after ∧
    ∀ statement ∈ before, statement.isSimple = true

variable {b target : BreakPoint} {f : Fragment}

variable {statement : Statement}

theorem dollar_notMem_texts (hf : ∀ line ∈ f.inserted, '$' ∉ line)
    (h : statement ∈ statements f) : '$' ∉ statement.texts := by
  obtain ⟨line, hline, hparse⟩ := mem_filterMap.1 h
  exact fun hmem => hf line hline (texts_parse? hparse hmem)

theorem mentionsFlag_lower (h : '$' ∉ statement.texts) (hcounting : statement.isCounting = false) :
    ∀ c ∈ (lower b target statement).commands, c.mentionsFlag = false := by
  intro c hc
  rcases (spelled_lower b target statement).1 c hc with ⟨hfor, -⟩ | hspelled
  · cases hcounting.symm.trans hfor
  · exact mentionsFlag_of_spelled hspelled h

theorem isCounting_of_isSimple (h : statement.isSimple = true) : statement.isCounting = false := by
  cases statement with
  | fors _ _ _ => cases h
  | _ => rfl

variable {ss : List Statement}

theorem mem_commandsOf {c : Command} :
    c ∈ commandsOf b target ss ↔ ∃ statement ∈ ss, c ∈ (lower b target statement).commands := by
  simp [commandsOf]

theorem commandsOf_simple (hsimple : ∀ statement ∈ ss, statement.isSimple = true)
    (hss : ∀ statement ∈ ss, '$' ∉ statement.texts) :
    ∀ c ∈ commandsOf b target ss, c.isPlain = true ∧ c.mentionsFlag = false := by
  intro c hc
  obtain ⟨statement, hmem, hc⟩ := mem_commandsOf.1 hc
  have hstatement := hsimple statement hmem
  exact ⟨isPlain_lower hstatement c hc,
    mentionsFlag_lower (hss statement hmem) (isCounting_of_isSimple hstatement) c hc⟩

theorem guarded_primary (hf : ∀ line ∈ f.inserted, '$' ∉ line)
    {before : List Statement} {init : Text}
    (h : OpensLoop f before init) :
    Guarded (commandsOf b (f.continuation b) before) init (primary b f) := by
  obtain ⟨condition, increment, after, hcut, hsimple⟩ := h
  have htexts : ∀ statement ∈ before ++ .fors init condition increment :: after,
      '$' ∉ statement.texts :=
    fun statement hmem => dollar_notMem_texts hf (hcut ▸ hmem)
  have hbefore : ∀ c ∈ commandsOf b (f.continuation b) before, c.isPlain = true ∧
      c.mentionsFlag = false :=
    commandsOf_simple hsimple fun statement hmem => htexts statement (mem_append_left _ hmem)
  have hloop : '$' ∉ init ++ condition ++ increment :=
    htexts (.fors init condition increment) (by simp)
  have hinit : '$' ∉ init := fun hmem => hloop (by simp [hmem])
  have hcondition : '$' ∉ condition := fun hmem => hloop (by simp [hmem])
  obtain ⟨rest, hprimary⟩ := exists_primary_eq hcut b
  refine ⟨loopCondition condition, b.offset 1, f.continuation b, rest, ?_, fun c hc =>
    (hbefore c hc).1, ?_⟩
  · rw [hprimary, lower, append_assoc]
    rfl
  · intro c hc
    rcases mem_append.1 hc with hc | hc
    · rcases mem_append.1 hc with hc | hc
      · exact (hbefore c hc).2
      · exact mentionsFlag_of_spelled (spelled_assignments init c hc) hinit
    · exact mentionsFlag_of_spelled
        (spelled_branch (loopCondition_subset condition) _ _ c hc) hcondition

/-- **The block at the break point** guards an initialiser, or has nothing to do with the variable.
-/
theorem opensLoop_or_unguarded (hf : ∀ line ∈ f.inserted, '$' ∉ line) (b : BreakPoint) :
    (∃ before init, OpensLoop f before init) ∨ Unguarded (primary b f) := by
  have htexts : ∀ statement ∈ statements f, '$' ∉ statement.texts := fun _ => dollar_notMem_texts hf
  have hcut : (statements f).takeWhile isSimple ++ (statements f).dropWhile isSimple =
      statements f := takeWhile_append_dropWhile
  have hsimple : ∀ statement ∈ (statements f).takeWhile isSimple, statement.isSimple = true :=
    fun statement hmem => mem_takeWhile_imp hmem
  cases hrest : (statements f).dropWhile isSimple with
  | nil =>
    -- All statements are performed, and the block ends with the jump.
    rw [hrest, append_nil] at hcut
    rw [hcut] at hsimple
    refine .inr ⟨primary b f, [], (append_nil _).symm, (sound_primary b f).nested,
      leaves_primary b f, ?_⟩
    intro c hc
    rcases mem_append.1 hc with hc | hc
    · exact (commandsOf_simple hsimple htexts c hc).2
    · split at hc
      · cases hc
      · obtain rfl := mem_singleton.1 hc
        rfl
  | cons statement after =>
    rw [hrest] at hcut
    generalize (statements f).takeWhile isSimple = before at hcut hsimple
    have hmore : statement.isSimple = false := by
      have hhead := head?_dropWhile_not isSimple (statements f)
      rw [hrest] at hhead
      simpa using hhead
    rw [← hcut] at htexts
    have hneutral : ∀ c ∈ commandsOf b (f.continuation b) before, c.mentionsFlag = false :=
      fun c hc =>
      (commandsOf_simple hsimple (fun s hs => htexts s (mem_append_left _ hs)) c hc).2
    cases hcounting : statement.isCounting with
    | true =>
      cases statement with
      | fors init condition increment =>
        exact .inl ⟨before, init, condition, increment, after, hcut.symm, hsimple⟩
      | _ => cases hcounting
    | false =>
      -- The statement leaves the block, so what is behind it does not matter.
      have hnested := (sound_commandsOf b (f.continuation b) before).nested
      obtain ⟨rest, hprimary⟩ := exists_primary_eq hcut.symm b
      refine .inr ⟨commandsOf b (f.continuation b) before
        ++ (lower b (f.continuation b) statement).commands,
        rest, ?_, hnested.append (sound_lower b (f.continuation b) statement).commands.nested,
        (leaves_lower hmore).append_left hnested, ?_⟩
      · rw [hprimary, append_assoc]
      · intro c hc
        rcases mem_append.1 hc with hc | hc
        · exact hneutral c hc
        · exact mentionsFlag_lower (htexts statement (by simp)) hcounting c hc

/-- The blocks on the last lines of loops have nothing to do with the variable. -/
theorem unguarded_further (hf : ∀ line ∈ f.inserted, '$' ∉ line) {block : Block}
    (h : block ∈ (steps b f).filterMap Step.block) : Unguarded block.commands := by
  obtain ⟨step, hstep, hsome⟩ := mem_filterMap.1 h
  obtain ⟨statement, hmem, rfl⟩ := mem_map.1 hstep
  obtain ⟨hsound, hleaves, -⟩ := (sound_lower b (f.continuation b) statement).block block hsome
  refine ⟨block.commands, [], (append_nil _).symm, hsound.nested, hleaves, fun c hc => ?_⟩
  exact mentionsFlag_of_spelled ((spelled_lower b (f.continuation b) statement).2 block hsome c hc)
    (dollar_notMem_texts hf hmem)

def Unmarked (fs : Fragments) : Prop := ∀ e ∈ fs, ∀ line ∈ e.2.inserted, '$' ∉ line

/-- **The blocks of a script** are guards of initialisers, or have nothing to do with the variable.
-/
theorem unguarded_or_guarded {fs : Fragments} (hfs : Unmarked fs) {hooks : Script.Hooks}
    {block : Block}
    (h : block ∈ Script.blocks (ofFragments fs) hooks) :
    Unguarded block.commands ∨ ∃ f before init, (block.location, f) ∈ fs ∧ OpensLoop f before init ∧
      ∃ front, Guarded front init block.commands := by
  rcases mem_append.1 h with h | h
  · obtain ⟨inner, hinner, hlocation, dump, hdump, hcommands⟩ := Script.Hooks.exists_of_mem_before h
    obtain ⟨compiled, hcompiled, hinner⟩ := mem_flatten.1 hinner
    obtain ⟨c, hc, rfl⟩ := mem_map.1 hcompiled
    obtain ⟨⟨b, f⟩, hentry, rfl⟩ := mem_map.1 hc
    rw [blocks_eq] at hinner
    rw [hcommands, hlocation]
    rcases mem_cons.1 hinner with rfl | hinner
    · rcases opensLoop_or_unguarded (hfs _ hentry) b with ⟨before, init, hloop⟩ | hunguarded
      · exact .inr ⟨f, before, init, hentry, hloop, _,
          hdump.guarded (guarded_primary (hfs _ hentry) hloop)⟩
      · exact .inl (hdump.unguarded hunguarded)
    · exact .inl (hdump.unguarded (unguarded_further (hfs _ hentry) hinner))
  · obtain ⟨target, -, hblock⟩ := mem_filterMap.1 h
    exact .inl (Script.Hooks.unguarded_of_after? hblock)

theorem exists_guard {fs : Fragments} (hfs : Unmarked fs) (hooks : Script.Hooks) {b : BreakPoint}
    {f : Fragment} (hentry : (b, f) ∈ fs) {before : List Statement} {init : Text}
    (hloop : OpensLoop f before init) :
    ∃ block ∈ Script.blocks (ofFragments fs) hooks, block.location = b ∧
      ∃ dump, Script.IsDump dump ∧
      Guarded (dump ++ commandsOf b (f.continuation b) before) init block.commands := by
  have hinner : { location := b, commands := primary b f } ∈ Script.allBlocks (ofFragments fs) := by
    refine mem_flatten.2 ⟨(ofFragment b f).blocks, ?_, ?_⟩
    · exact mem_map_of_mem (mem_map.2 ⟨(b, f), hentry, rfl⟩)
    · rw [blocks_eq]
      exact mem_cons_self
  obtain ⟨block, hblock, hlocation, dump, hdump, hcommands⟩ :=
    Script.Hooks.exists_mem_before hinner hooks
  refine ⟨block, mem_append_left _ hblock, hlocation, dump, hdump, ?_⟩
  rw [hcommands]
  exact hdump.guarded (guarded_primary (hfs _ hentry) hloop)

end Compiled

/-! ## Sessions -/

namespace Debugger

variable {δ π : Type} (d : Debugger (δ × π))

def setUp (prelude : Text) (s : δ × π) : δ × π :=
  (lines prelude).foldl (fun s line => d.perform line s) s

/-- The variables after some stops. Between two stops the program runs, so that its state at a stop
may be any; it does not change the variables. -/
def variablesAfter (v : δ) (stops : List (Block × π)) : δ :=
  stops.foldl (fun v stop => (d.run stop.1.commands (v, stop.2)).state.1) v

variable {d} {flag : δ → Bool} {fs : Fragments} {hooks : Hooks}

theorem Holds.flag_setUp (hd : d.Holds flag) {fragments : List Compiled}
    (h : fragments.any Compiled.isLoop = true) (fixedAddresses : Bool) (s : δ × π) :
    flag (d.setUp (prelude fixedAddresses fragments) s).1 = true := by
  obtain ⟨first, hlines⟩ : ∃ first : List Text,
      lines (prelude fixedAddresses fragments) = first ++ [setFlagLine] := by
    refine ⟨["set pagination off", "set confirm off", "set breakpoint pending on",
      ("set disable-randomization " : Text) ++ if fixedAddresses then ("on" : Text) else "off"], ?_⟩
    unfold prelude
    rw [h]
    cases fixedAddresses <;> decide +kernel
  rw [setUp, hlines, foldl_append]
  exact hd.perform_set _

/-- **One stop**: the variable is still set if it was, unless the block is a guard. -/
theorem Holds.flag_run_block (hd : d.Holds flag) (hfs : Compiled.Unmarked fs) {block : Block}
    (h : block ∈ Script.blocks (Compiled.ofFragments fs) hooks) (s : δ × π) :
    flag (d.run block.commands s).state.1 = (flag s.1 && !block.isGuard) := by
  rcases Compiled.unguarded_or_guarded hfs h with hunguarded | ⟨_, _, _, -, -, _, hguarded⟩
  · rw [hunguarded.run hd, hunguarded.isGuard, Bool.not_false, Bool.and_true]
  · rw [(hguarded.run hd s).2, hguarded.isGuard, Bool.not_true, Bool.and_false]

/-- **Any number of stops**: the variable is set until a guard is reached. -/
theorem Holds.flag_variablesAfter (hd : d.Holds flag) (hfs : Compiled.Unmarked fs)
    {stops : List (Block × π)}
    (h : ∀ stop ∈ stops, stop.1 ∈ blocks (Compiled.ofFragments fs) hooks) (v : δ) :
    flag (d.variablesAfter v stops) = (flag v && !stops.any fun stop => stop.1.isGuard) := by
  induction stops generalizing v with
  | nil => simp [variablesAfter]
  | cons stop stops ih =>
    have hstep := hd.flag_run_block hfs (h stop mem_cons_self) (v, stop.2)
    have hrest := ih (fun stop' hstop' => h stop' (mem_cons_of_mem stop hstop'))
      (d.run stop.1.commands (v, stop.2)).state.1
    rw [hstep] at hrest
    rw [any_cons, Bool.not_or, ← Bool.and_assoc]
    exact hrest

end Debugger

namespace Compiled

theorem isLoop_of_opensLoop {f : Fragment} {before : List Statement} {init : Text}
    (h : OpensLoop f before init) (b : BreakPoint) : (ofFragment b f).isLoop = true := by
  obtain ⟨condition, increment, after, hcut, -⟩ := h
  have hmem : .fors init condition increment ∈ statements f := by
    rw [hcut]
    simp
  have hany : (steps b f).any Step.isLoop = true := by
    rw [steps, any_map, any_eq_true]
    exact ⟨_, hmem, isLoop_lower b (f.continuation b) (.fors init condition increment)⟩
  exact hany

/-- **Which stop runs an initialiser.** The script is a set-up followed by its blocks. For a patch
that names no variable of the debugger, the guards among the blocks stand at fragments that open
with a counting loop. Every such fragment has one, and a stop there performs the commands of the
statements before the loop, then the initialiser if the program has stopped at no guard before, be
it this one or that of another loop, and nothing else. -/
theorem initialiser_performed {fs : Fragments} (hfs : Unmarked fs) (hooks : Script.Hooks) :
    Script.render (ofFragments fs) hooks =
      Script.prelude hooks.fixesAddresses (ofFragments fs) ++
        Script.renderBlocks (Script.blocks (ofFragments fs) hooks) ++ ("run\n" : Text) ∧
    (∀ block ∈ Script.blocks (ofFragments fs) hooks, block.isGuard = true →
      ∃ f before init, (block.location, f) ∈ fs ∧ OpensLoop f before init) ∧
    ∀ b f before init, (b, f) ∈ fs → OpensLoop f before init →
      ∃ block ∈ Script.blocks (ofFragments fs) hooks, block.location = b ∧ block.isGuard = true ∧
        ∃ dump, Script.IsDump dump ∧
          ∀ (δ π : Type) (d : Debugger (δ × π)) (flag : δ → Bool), d.Holds flag →
            ∀ (start : δ × π) (stops : List (Block × π)),
              (∀ stop ∈ stops, stop.1 ∈ Script.blocks (ofFragments fs) hooks) → ∀ p : π,
              (d.run block.commands
                (d.variablesAfter
                  (d.setUp (Script.prelude hooks.fixesAddresses (ofFragments fs)) start).1 stops,
                  p)).performed =
                dump ++ commandsOf b (f.continuation b) before ++
                  if stops.any fun stop => stop.1.isGuard then []
                  else assignments init ++ [clearFlag] := by
  refine ⟨Script.render_eq _ _, ?_, ?_⟩
  · intro block hblock hguard
    rcases unguarded_or_guarded hfs hblock with hunguarded | ⟨f, before, init, hentry, hloop, -⟩
    · cases hunguarded.isGuard.symm.trans hguard
    · exact ⟨f, before, init, hentry, hloop⟩
  · intro b f before init hentry hloop
    obtain ⟨block, hblock, hlocation, dump, hdump, hguarded⟩ :=
      exists_guard hfs hooks hentry hloop
    refine ⟨block, hblock, hlocation, hguarded.isGuard, dump, hdump, ?_⟩
    intro δ π d flag hd start stops hstops p
    have hset : (ofFragments fs).any Compiled.isLoop = true :=
      List.any_eq_true.2 ⟨ofFragment b f, List.mem_map.2 ⟨(b, f), hentry, rfl⟩,
        isLoop_of_opensLoop hloop b⟩
    rw [(hguarded.run hd _).1, hd.flag_variablesAfter hfs hstops, hd.flag_setUp hset, Bool.true_and]
    cases stops.any fun stop => stop.1.isGuard <;> rfl

def twoLoops : Fragments :=
  [(⟨"f.c", 10⟩, { inserted := ["for (i = 0; i < n; i++)"] }),
    (⟨"f.c", 20⟩, { inserted := ["x = 1", "for (int j = 0; j < m; j++)"] })]

/-- A debugger with no other variable, which finds every other condition true. -/
def flagOnly : Debugger (Bool × Unit) where
  test condition s := if condition = initFlag then (s.1, s) else (true, s)
  perform line s :=
    if line = setFlagLine then (true, ()) else if line = clearFlag.render then (false, ()) else s

theorem holds_flagOnly : flagOnly.Holds id where
  test_flag s := by simp [flagOnly]
  test_keeps condition s _ := by
    simp only [flagOnly]
    split <;> rfl
  perform_set s := by simp [flagOnly]
  perform_clear s := by
    have hne : clearFlag.render ≠ setFlagLine := by decide
    simp [flagOnly, hne]
  perform_keeps line s h := by
    have hset : line ≠ setFlagLine := by
      rintro rfl
      revert h
      decide
    have hclear : line ≠ clearFlag.render := by
      rintro rfl
      revert h
      decide
    simp [flagOnly, hset, hclear]

theorem unmarked_twoLoops : Unmarked twoLoops := by
  unfold Unmarked
  decide

theorem initialiser_performed_twoLoops :
    Unmarked twoLoops ∧ flagOnly.Holds id ∧
    ∃ block ∈ Script.blocks (ofFragments twoLoops) .none, block.location = ⟨"f.c", 20⟩ ∧
      ∃ dump, Script.IsDump dump ∧
        (flagOnly.run block.commands
          (flagOnly.variablesAfter
            (flagOnly.setUp (Script.prelude false (ofFragments twoLoops)) (false, ())).1 [],
              ())).performed =
          dump ++ [.setVar "x" "1", .setExpr "j = 0", clearFlag] ∧
        (flagOnly.run block.commands
          (flagOnly.variablesAfter
            (flagOnly.setUp (Script.prelude false (ofFragments twoLoops)) (false, ())).1
              [(block, ())],
            ())).performed =
          dump ++ [.setVar "x" "1"] := by
  refine ⟨unmarked_twoLoops, holds_flagOnly, ?_⟩
  have hloop : OpensLoop { inserted := ["x = 1", "for (int j = 0; j < m; j++)"] }
      [.assignment "x = 1" false] "int j = 0" := by
    refine ⟨"j < m", "j++", [], ?_, ?_⟩ <;> decide +kernel
  have hset : lowerAssignment "x = 1" false = .setVar "x" "1" := by decide +kernel
  have hbefore : ∀ b target, commandsOf b target [.assignment "x = 1" false] = [.setVar "x" "1"] :=
    fun _ _ => congrArg (fun c => [c]) hset
  have hinit : assignments "int j = 0" = [.setExpr "j = 0"] := by decide +kernel
  obtain ⟨-, -, hruns⟩ := initialiser_performed unmarked_twoLoops .none
  obtain ⟨block, hblock, hlocation, hguard, dump, hdump, hrun⟩ :=
    hruns ⟨"f.c", 20⟩ _ _ _ (by simp [twoLoops]) hloop
  refine ⟨block, hblock, hlocation, dump, hdump, ?_, ?_⟩
  · refine (hrun Bool Unit flagOnly id holds_flagOnly (false,
      ()) [] (List.forall_mem_nil _) ()).trans ?_
    rw [hbefore, hinit, List.append_assoc]
    rfl
  · refine (hrun Bool Unit flagOnly id holds_flagOnly (false, ()) [(block, ())]
      (by simpa using hblock)
      ()).trans ?_
    rw [hbefore, List.any_cons, hguard, Bool.true_or, if_pos rfl, List.append_nil]

/-- The initialiser of the second loop is not run at the first stop there, if the program has
stopped at the first loop before. -/
theorem second_loop_not_initialised :
    flagOnly.Holds id ∧
    ∃ first second, Script.blocks (ofFragments twoLoops) .none = [first, second] ∧
      first.location = ⟨"f.c", 10⟩ ∧ second.location = ⟨"f.c", 20⟩ ∧
      .setExpr "j = 0" ∈ second.commands ∧
      .setExpr "j = 0" ∉ (flagOnly.run second.commands
        (flagOnly.variablesAfter
          (flagOnly.setUp (prelude false (ofFragments twoLoops)) (false, ())).1 [(first, ())],
          ())).performed := by
  refine ⟨holds_flagOnly, (Script.blocks (ofFragments twoLoops) .none).get ⟨0, by decide +kernel⟩,
    (Script.blocks (ofFragments twoLoops) .none).get ⟨1, by decide +kernel⟩, ?_, ?_, ?_, ?_, ?_⟩ <;>
    decide +kernel

end Compiled

end PatchTriage
