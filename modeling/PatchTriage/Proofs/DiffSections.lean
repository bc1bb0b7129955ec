import PatchTriage.Proofs.LiteralLines

/-!
# The sections of the script of a diff

What is read from a diff has no line feeds in it, but a dump path may have some. So the script of a
diff is well bracketed exactly if its literal lines are (`Diff.sections_of_read_iff`).
-/

namespace PatchTriage

open Text SortedList Script Command Diff

open List hiding splitOn

/-! ## The reader keeps lines apart -/

theorem Text.feed_notMem_of_mem_lines {t line : Text} (h : line ∈ lines t) : '\n' ∉ line := by
  have hpieces : ∀ piece ∈ splitOn '\n' t, '\n' ∉ dropReturn piece := by
    intro piece hpiece hfeed
    refine not_mem_of_mem_splitOn hpiece ?_
    rw [dropReturn] at hfeed
    split at hfeed
    · exact mem_of_mem_dropLast hfeed
    · exact hfeed
  have hended : line ∈ (splitOn '\n' t).dropLast.map dropReturn → '\n' ∉ line := by
    intro hline
    obtain ⟨piece, hpiece, rfl⟩ := mem_map.1 hline
    exact hpieces piece (mem_of_mem_dropLast hpiece)
  rw [lines] at h
  split at h
  · exact hended h
  · exact hended h
  · rename_i rest _ hlast
    rcases mem_append.1 h with h | h
    · exact hended h
    · obtain rfl := mem_singleton.1 h
      exact not_mem_of_mem_splitOn (mem_of_getLast? hlast)

theorem SortedList.forall_mem_insertWith {κ ν : Type} {cmp : κ → κ → Ordering} {join : ν → ν → ν}
    {P : κ × ν → Prop} {k : κ} {v : ν} {m : List (κ × ν)} (hm : ∀ e ∈ m, P e) (hnew : P (k, v))
    (hjoin : ∀ e ∈ m, P (e.1, join e.2 v)) : ∀ e ∈ insertWith cmp join k v m, P e := by
  induction m with
  | nil => simpa [insertWith] using hnew
  | cons first m ih =>
    obtain ⟨hfirst, hm⟩ := forall_mem_cons.1 hm
    obtain ⟨hfirst', hjoin⟩ := forall_mem_cons.1 hjoin
    rw [insertWith]
    split
    · exact forall_mem_cons.2 ⟨hnew, forall_mem_cons.2 ⟨hfirst, hm⟩⟩
    · exact forall_mem_cons.2 ⟨hfirst', hm⟩
    · exact forall_mem_cons.2 ⟨hfirst, ih hm hjoin⟩

theorem Inserted.subset_of_mem_split {content line : Text} (h : line ∈ split content) :
    line ⊆ content := by
  have hstatements : line ∈ (splitOn ';' content).filter (fun part => 1 < byteLength part) →
      line ⊆ content := fun h => subset_of_mem_splitOn (mem_filter.1 h).1
  rw [split] at h
  split at h
  · obtain rfl := mem_singleton.1 h
    exact List.Subset.refl line
  · split at h
    · obtain rfl := mem_singleton.1 h
      exact List.Subset.refl line
    · split at h
      · split at h
        · rename_i head condition rest hcut
          obtain ⟨hcondition, hrest⟩ := cutCondition?_subset hcut
          have hhead : head ++ condition ⊆ content := by
            refine append_subset.2 ⟨?_, hcondition⟩
            rw [cutCondition?] at hcut
            split at hcut
            · cases hcut
              exact (List.takeWhile_prefix _).subset
            · cases hcut
          split at h
          · obtain rfl := mem_singleton.1 h
            exact hhead
          · rcases mem_cons.1 h with rfl | h
            · exact hhead
            · obtain rfl := mem_singleton.1 h
              exact hrest
        · exact hstatements h
      · exact hstatements h

namespace Diff

open Compiled (UnbrokenEntry)

def Directive.Unbroken : Directive → Prop
  | enter text | edit text => '\n' ∉ text
  | _ => True

structure State.Unbroken (s : State) : Prop where
  current : ∀ file ∈ s.current, '\n' ∉ file
  fragments : ∀ e ∈ s.fragments, UnbrokenEntry e
  hunk : ∀ e ∈ s.hunk, UnbrokenEntry e

section Reader

variable {opts : Options} (hopts : ∀ file ∈ opts.sourceFile, '\n' ∉ file)

include hopts

theorem feed_notMem_headerSource {old new : Text} (hold : '\n' ∉ old) (hnew : '\n' ∉ new) :
    '\n' ∉ headerSource opts old new := by
  have hname : ∀ mark line : Text, '\n' ∉ line → '\n' ∉ headerName mark line :=
    fun mark line hline hfeed =>
    hline (dropHead?_subset mark line (before_subset _ _ (trim_subset _ hfeed)))
  have hdrop : ∀ (heads : List Text) (name : Text), dropFirstOf heads name ⊆ name := by
    intro heads name
    induction heads with
    | nil => exact List.Subset.refl name
    | cons head heads ih =>
      have hhead := dropHead?_subset head name
      rw [dropFirstOf]
      cases hcut : dropHead? head name with
      | none => exact ih
      | some rest =>
        rw [hcut] at hhead
        exact hhead
  have hsource : ∀ name : Text, '\n' ∉ name → '\n' ∉ sourceName opts.keepDirs name := by
    intro name hname hfeed
    refine hname (hdrop ["a/src/", "b/src/", "a/", "b/"] name ?_)
    have hpath := replace_nil_subset _ _ hfeed
    split at hpath
    · exact hpath
    · exact afterLast_subset _ _ hpath
  rw [headerSource]
  split
  · exact hopts _ (by assumption)
  · refine hsource _ ?_
    split
    · exact hname _ new hnew
    · exact hname _ old hold

theorem unbroken_directives {lines : List Text} (h : ∀ line ∈ lines, '\n' ∉ line) :
    ∀ d ∈ directives opts lines, d.Unbroken := by
  induction lines using lines_induction with
  | nil => exact forall_mem_nil _
  | git line lines hgit ih =>
    rw [directives_git hgit]
    exact forall_mem_cons.2 ⟨trivial, ih (forall_mem_cons.1 h).2⟩
  | header line next lines hgit hheader ih =>
    obtain ⟨hline, h⟩ := forall_mem_cons.1 h
    obtain ⟨hnext, h⟩ := forall_mem_cons.1 h
    rw [directives_header hgit hheader]
    exact forall_mem_cons.2 ⟨feed_notMem_headerSource hopts hline hnext, ih h⟩
  | other line lines hgit hheader ih =>
    obtain ⟨hline, h⟩ := forall_mem_cons.1 h
    rw [directives_other hgit hheader]
    refine forall_mem_cons.2 ⟨?_, ih h⟩
    rw [Directive.ofLine]
    split
    · trivial
    · split
      · trivial
      · exact hline

omit hopts in
theorem State.Unbroken.close {s : State} (h : s.Unbroken) : s.close.Unbroken where
  current := by simpa using h.current
  hunk := by simp
  fragments := by
    rw [fragments_close]
    split
    · exact h.fragments
    · rename_i b f hhunk
      have hentry : UnbrokenEntry (b, f) := h.hunk (b, f) hhunk
      split
      · exact h.fragments
      · refine forall_mem_insertWith h.fragments hentry fun e he => ?_
        obtain ⟨hfile, hinserted⟩ := h.fragments e he
        exact ⟨hfile, forall_mem_append.2 ⟨hinserted, hentry.2⟩⟩

omit hopts in
theorem unbrokenEntry_edit {b : BreakPoint} {f : Fragment} {line : Text} (h : UnbrokenEntry (b, f))
    (hline : '\n' ∉ line) : UnbrokenEntry (b, edit f line) := by
  refine ⟨h.1, ?_⟩
  rw [edit.eq_def]
  split
  · rename_i content
    refine forall_mem_append.2 ⟨h.2, fun piece hpiece hfeed => ?_⟩
    exact hline (mem_cons_of_mem _ (Inserted.subset_of_mem_split hpiece hfeed))
  · exact h.2
  · exact h.2

/-- **One directive.** -/
theorem State.Unbroken.follow {s : State} (h : s.Unbroken) {d : Directive} (hd : d.Unbroken) :
    (d.follow opts s).Unbroken := by
  have hclose := h.close
  cases d with
  | leave => exact { hclose with current := by simp [Directive.follow, leaveFile] }
  | enter source =>
    refine { hclose with current := ?_ }
    rintro file hfile
    obtain rfl := Option.some.inj hfile
    exact hd
  | hunk header =>
    refine { hclose with hunk := ?_ }
    intro e he
    obtain ⟨start, -, rfl⟩ := Option.map_eq_some_iff.1 he
    refine ⟨?_, forall_mem_nil _⟩
    show '\n' ∉ (s.close.current <|> opts.sourceFile).getD []
    cases hcurrent : s.close.current with
    | some file => exact hclose.current file hcurrent
    | none =>
      cases hsource : opts.sourceFile with
      | some file => exact hopts file hsource
      | none => simp
  | depend => exact h
  | edit line =>
    refine { h with hunk := ?_ }
    intro e he
    obtain ⟨⟨b, f⟩, hentry, rfl⟩ := Option.map_eq_some_iff.1 he
    exact unbrokenEntry_edit (h.hunk (b, f) hentry) hd

theorem State.Unbroken.after {s : State} (h : s.Unbroken) {ds : List Directive}
    (hds : ∀ d ∈ ds, d.Unbroken) : (s.after opts ds).Unbroken := by
  induction ds generalizing s with
  | nil => exact h
  | cons d ds ih =>
    obtain ⟨hd, hds⟩ := forall_mem_cons.1 hds
    exact ih (h.follow hopts hd) hds

/-- **What is read from a diff**: at least one edit, and no line feeds. -/
theorem unbroken_of_read {text source : Text} {fs : Fragments}
    (h : read opts text = .parsed source fs) :
    (∃ first rest, fs = first :: rest) ∧ ∀ e ∈ fs, UnbrokenEntry e := by
  have hdepend : .depend ∉ directives opts (lines text) := by
    rw [← isRecompilation_follow opts _ {}, ← read_eq, h]
    simp [Outcome.isRecompilation]
  rw [read_eq, follow_eq_outcome opts hdepend, State.outcome] at h
  have hstart : ({} : State).Unbroken := ⟨by simp, by simp, by simp⟩
  have hlines : ∀ line ∈ lines text, '\n' ∉ line := fun _ => feed_notMem_of_mem_lines
  have hafter := (hstart.after hopts (unbroken_directives hopts hlines)).close
  split at h
  · cases h
  · rename_i hne
    obtain ⟨-, rfl⟩ := Outcome.parsed.inj h
    refine ⟨exists_cons_of_ne_nil ?_, hafter.fragments⟩
    simpa using hne

end Reader

end Diff

/-! ## The blocks of a script -/

theorem Command.flatMap_lines {cs : List Command} (h : ∀ c ∈ cs, '\n' ∉ c.render) :
    cs.flatMap lines = cs.map render := by
  induction cs with
  | nil => rfl
  | cons c cs ih =>
    obtain ⟨hc, hcs⟩ := forall_mem_cons.1 h
    rw [flatMap_cons, map_cons, ih hcs, lines, splitOn_of_not_mem hc]
    rfl

namespace Script

def spill (path : Path) : List Text := (splitOn '\n' path).tail

namespace Hooks

def spillBefore : Hooks → List Text
  | signature before _ => spill before
  | _ => []

/-- The further lines of the path that is dumped to at the continuations. -/
def spillAfter : Hooks → List Text
  | none => []
  | signature _ path | location path => spill path

def dumps : Hooks → List Command
  | signature before _ => [.dumpCore before]
  | _ => []

theorem before_cons (hooks : Hooks) (block : Block) (blocks : List Block) :
    hooks.before (block :: blocks) =
      { block with commands := hooks.dumps ++ block.commands } :: blocks := by
  cases hooks <;> rfl

end Hooks

theorem through_dumpCore (path : Path) (parts : List Part) :
    through parts (dumpCore path).lines = through parts (spill path) := by
  obtain ⟨piece, hpiece⟩ :=
    exists_splitOn_append (c := '\n') (s := "generate-core-file ") (by decide) path
  have hlines : (dumpCore path).lines = ("generate-core-file " ++ piece) :: spill path := hpiece
  rw [hlines]
  exact through_cons (passive_of_head? (c := 'g') rfl (by decide) parts) _

theorem through_dumps (hooks : Hooks) (parts : List Part) (lines : List Text) :
    through parts (hooks.dumps.flatMap Command.lines ++ lines) =
      through parts (hooks.spillBefore ++ lines) := by
  cases hooks with
  | signature before after =>
    rw [through_append, through_append]
    simp only [Hooks.dumps, flatMap_cons, flatMap_nil, append_nil]
    rw [through_dumpCore]
    rfl
  | none | location _ => rfl

theorem bracketed_after_iff {hooks : Hooks} {target : BreakPoint} {block : Block}
    (h : hooks.after? target = some block) :
    Bracketed (block.commands.flatMap Command.lines) ↔ Bracketed hooks.spillAfter := by
  have hlast : ∀ (path : Path) (c : Command), c.lines = [c.render] → Passive c.render →
      (Bracketed ([.dumpCore path, c].flatMap Command.lines) ↔ Bracketed (spill path)) := by
    intro path c hlines hc
    rw [Bracketed, Bracketed, flatMap_cons, through_append, through_dumpCore,
      flatMap_singleton, hlines]
    cases through [] (spill path) with
    | none => rfl
    | some parts => rw [Option.bind_some, hc.neutral parts]
  cases hooks with
  | none => cases h
  | signature before after =>
    obtain rfl := Option.some.inj h
    exact hlast after .quit (by decide) (passive_render rfl (by simp))
  | location dump =>
    obtain rfl := Option.some.inj h
    exact hlast dump .continues (by decide) (passive_render rfl (by simp))

open Compiled (UnbrokenEntry ofFragment ofFragments)

/-- The blocks of a fragment, the first of them behind further commands. -/
theorem bracketed_blocks_iff {e : BreakPoint × Fragment} (he : UnbrokenEntry e) (hooks : Hooks) :
    (∀ block ∈ hooks.before (ofFragment e.1 e.2).blocks,
      Bracketed (block.commands.flatMap Command.lines)) ↔
      Bracketed (hooks.spillBefore ++ e.2.literals) := by
  have hblocks := Compiled.feed_notMem_blocks he
  rw [Compiled.blocks_eq] at hblocks ⊢
  obtain ⟨⟨-, hprimary⟩, hfurther⟩ := forall_mem_cons.1 hblocks
  rw [Hooks.before_cons, forall_mem_cons]
  have hfirst : Bracketed ((hooks.dumps ++ Compiled.primary e.1 e.2).flatMap Command.lines) ↔
      Bracketed (hooks.spillBefore ++ e.2.literals) := by
    rw [Bracketed, Bracketed, flatMap_append, through_dumps, flatMap_lines hprimary,
      through_append, through_append]
    simp only [Compiled.through_primary]
  have hrest : ∀ block ∈ (Compiled.steps e.1 e.2).filterMap Compiled.Step.block,
      Bracketed (block.commands.flatMap Command.lines) := by
    intro block hblock
    rw [flatMap_lines (hfurther block hblock).2]
    exact Compiled.neutral_further hblock []
  exact (and_iff_left hrest).trans hfirst

variable {first : BreakPoint × Fragment} {rest : Fragments}

theorem bracketed_allBlocks_iff (h : ∀ e ∈ first :: rest, UnbrokenEntry e) (hooks : Hooks) :
    (∀ block ∈ hooks.before (allBlocks (ofFragments (first :: rest))),
        Bracketed (block.commands.flatMap Command.lines)) ↔
      Bracketed (hooks.spillBefore ++ first.2.literals) ∧ ∀ e ∈ rest, Bracketed e.2.literals := by
  obtain ⟨hfirst, hrest⟩ := forall_mem_cons.1 h
  have hcons : hooks.before (allBlocks (ofFragments (first :: rest))) =
      hooks.before (ofFragment first.1 first.2).blocks ++ allBlocks (ofFragments rest) := by
    show hooks.before ((ofFragment first.1 first.2).blocks ++ allBlocks (ofFragments rest)) = _
    rw [Compiled.blocks_eq, cons_append, Hooks.before_cons, Hooks.before_cons, cons_append]
  -- A dump precedes the first edit only; for the others it is as if there were no hooks.
  have hothers : (∀ block ∈ allBlocks (ofFragments rest),
      Bracketed (block.commands.flatMap Command.lines)) ↔ ∀ e ∈ rest, Bracketed e.2.literals := by
    have hmem : ∀ block, block ∈ allBlocks (ofFragments rest) ↔
        ∃ e ∈ rest, block ∈ (ofFragment e.1 e.2).blocks := by
      intro block
      simp [allBlocks, ofFragments, mem_flatten]
    constructor
    · intro hall e he
      refine (bracketed_blocks_iff (hrest e he) .none).1 fun block hblock => ?_
      exact hall block ((hmem block).2 ⟨e, he, hblock⟩)
    · intro hall block hblock
      obtain ⟨e, he, hblock⟩ := (hmem block).1 hblock
      exact (bracketed_blocks_iff (hrest e he) .none).2 (hall e he) block hblock
  rw [hcons, forall_mem_append, bracketed_blocks_iff hfirst, hothers]

theorem bracketed_afters_iff (targets : List BreakPoint) (hne : targets ≠ []) (hooks : Hooks) :
    (∀ block ∈ targets.filterMap fun target => hooks.after? target,
        Bracketed (block.commands.flatMap Command.lines)) ↔ Bracketed hooks.spillAfter := by
  constructor
  · intro hall
    obtain ⟨target, targets', rfl⟩ := exists_cons_of_ne_nil hne
    cases hafter : hooks.after? target with
    | some block =>
      exact (bracketed_after_iff hafter).1
        (hall block (mem_filterMap.2 ⟨target, mem_cons_self, hafter⟩))
    | none =>
      cases hooks with
      | none => rfl
      | _ => cases hafter
  · intro hspill block hblock
    obtain ⟨target, -, hafter⟩ := mem_filterMap.1 hblock
    exact (bracketed_after_iff hafter).2 hspill

theorem feed_notMem_locations (h : ∀ e ∈ first :: rest, UnbrokenEntry e) (hooks : Hooks) :
    ∀ block ∈ blocks (ofFragments (first :: rest)) hooks, '\n' ∉ block.location.render := by
  intro block hblock
  rcases mem_append.1 hblock with hblock | hblock
  · obtain ⟨inner, hinner, hlocation, -⟩ := Hooks.exists_of_mem_before hblock
    obtain ⟨part, hpart, hinner⟩ := mem_flatten.1 hinner
    obtain ⟨compiled, hcompiled, rfl⟩ := mem_map.1 hpart
    obtain ⟨e, he, rfl⟩ := mem_map.1 hcompiled
    rw [hlocation]
    exact (Compiled.feed_notMem_blocks (h e he) inner hinner).1
  -- A block behind the edits stands at the continuation of one of them, in the same file.
  · obtain ⟨target, htarget, hafter⟩ := mem_filterMap.1 hblock
    obtain ⟨compiled, hcompiled, rfl⟩ := mem_map.1 (mem_distinct_iff.1 htarget)
    obtain ⟨e, he, rfl⟩ := mem_map.1 hcompiled
    have hlocation : block.location = e.2.continuation e.1 := by
      cases hooks <;> cases hafter <;> rfl
    rw [hlocation]
    refine Compiled.feed_notMem_render ?_
    rw [Compiled.file_continuation]
    exact (h e he).1

end Script

/-- **Which diffs give a well bracketed script.** A diff that can be read has at least one edit. A
debugger that reads the script of its edits finds the sections that were written, each of them
closed by the `end` behind its block, and no `else` or `end` out of place, exactly if the literal
lines of every edit are bracketed, those of the first one behind the further lines of the path that
is dumped to there, and so are the further lines of the path that is dumped to at the continuations.
-/
theorem Diff.sections_of_read_iff {opts : Options} {text source : Text} {fs : Fragments}
    (hopts : ∀ file ∈ opts.sourceFile, '\n' ∉ file) (h : read opts text = .parsed source fs)
    (hooks : Hooks) :
    ∃ first rest, fs = first :: rest ∧
      (Script.sections (Script.render (Compiled.ofFragments fs) hooks) =
          some ((blocks (Compiled.ofFragments fs) hooks).map Block.body) ↔
        Bracketed (hooks.spillBefore ++ first.2.literals) ∧
        (∀ e ∈ rest, Bracketed e.2.literals) ∧ Bracketed hooks.spillAfter) := by
  obtain ⟨⟨first, rest, rfl⟩, hunbroken⟩ := unbroken_of_read hopts h
  refine ⟨first, rest, rfl, ?_⟩
  have htargets := List.ne_nil_of_mem ((@mem_distinct_iff _ BreakPoint.compare _ _ _).2
    (List.mem_cons_self (a := (Compiled.ofFragment first.1 first.2).jumpTarget)
      (l := (Compiled.ofFragments rest).map Compiled.jumpTarget)))
  rw [sections_render_iff (feed_notMem_locations hunbroken hooks), blocks,
    List.forall_mem_append, bracketed_allBlocks_iff hunbroken, and_assoc]
  exact and_congr_right fun _ => and_congr_right fun _ => bracketed_afters_iff _ htargets hooks

def Diff.ownPart : Text :=
  "--- a/f.c\n+++ b/f.c\n@@ -10,3 +10,5 @@\n-a();\n-b();\n-c();\n+for (int i = 0; i < n; i++)\n"
    ++ "+i\x7bf y\n+x = 5;\n+end\n@@ -20 +22 @@\n+break;\n"

theorem Diff.sections_of_read_ownPart :
    let fs := (read {} ownPart).fragments
    let hooks := Hooks.signature "before\nif ready\nend" "after"
    read {} ownPart = .parsed "f.c" fs ∧
    fs.map (fun e => e.2.literals) = ([["if y", "end"], ["break"]] : List (List Text)) ∧
    Script.sections (Script.render (Compiled.ofFragments fs) hooks) =
      some ((blocks (Compiled.ofFragments fs) hooks).map Block.body) := by
  intro fs hooks
  have hread : read {} ownPart = .parsed "f.c" fs := by decide +kernel
  have hliterals : fs.map (fun e => e.2.literals) =
      ([["if y", "end"], ["break"]] : List (List Text)) := by
    decide +kernel
  obtain ⟨first, rest, hfs, hiff⟩ := sections_of_read_iff (by simp) hread hooks
  refine ⟨hread, hliterals, hiff.2 ⟨?_, ?_, by decide +kernel⟩⟩
  · rw [hfs] at hliterals
    have hfirst : first.2.literals = (["if y", "end"] : List Text) := (List.cons.inj hliterals).1
    rw [hfirst]
    decide +kernel
  · intro e he
    rw [hfs] at hliterals
    have hrest : rest.map (fun e => e.2.literals) = ([["break"]] : List (List Text)) :=
      (List.cons.inj hliterals).2
    have he : e.2.literals = (["break"] : List Text) :=
      List.mem_singleton.1 (hrest ▸ List.mem_map_of_mem he)
    rw [he]
    decide +kernel

def Diff.loneElse : Text := "--- a/f.c\n+++ b/f.c\n@@ -10,1 +10,1 @@\n+\x7d else \x7b\n+x = 5;\n"

/-- A debugger finds no place for that `else`, nor for the `end` behind a path that closes a
section. -/
theorem Diff.sections_loneElse :
    let fs := (read {} loneElse).fragments
    let gs := (read {} ownPart).fragments
    read {} loneElse = .parsed "f.c" fs ∧
    Script.sections (Script.render (Compiled.ofFragments fs) .none) = none ∧
    read {} ownPart = .parsed "f.c" gs ∧
    Script.sections (Script.render (Compiled.ofFragments gs) (.location "a\nend")) = none := by
  decide +kernel

end PatchTriage
