import PatchTriage.Proofs.HunkLines
import PatchTriage.Proofs.LiteralLines

/-!
# File names in headers

A file header names the file that the hunks below it edit. The name is meant to lose the directories
of the comparison, all other directories unless they are kept, and one backup mark at its end
(`Diff.Stripped`). The reader takes away every backup mark, so it finds the file that is meant
exactly if no other mark is in its name (`Diff.files_of_read_iff`).
-/

namespace PatchTriage

open List Text Option

/-! ## Texts without a part -/

namespace Text

variable {needle t : Text}

theorem length_replaceFrom_nil_le (needle : Text) (skip : Nat) (t : Text) :
    (replaceFrom needle [] skip t).length ≤ t.length := by
  fun_induction replaceFrom needle [] skip t <;> simp_all <;> omega

theorem length_replace_nil_lt (hne : needle ≠ []) (h : needle <:+: t) :
    (replace needle [] t).length < t.length := by
  rw [replace]
  induction t with
  | nil => exact absurd (infix_nil.1 h) hne
  | cons c t ih =>
    rw [replaceFrom]
    split
    · have hle := length_replaceFrom_nil_le needle (needle.length - 1) t
      simpa using Nat.lt_succ_of_le hle
    · rename_i hstart
      have ht := (infix_cons_iff.1 h).resolve_left (mt startsWith_iff.2 hstart)
      simpa using ih ht

theorem replace_nil_eq_self_iff (hne : needle ≠ []) : replace needle [] t = t ↔ ¬ needle <:+: t :=
  ⟨fun h hinfix => absurd (congrArg length h) (length_replace_nil_lt hne hinfix).ne,
    fun h => replace_eq_self [] (contains_eq_false_iff.2 h)⟩

theorem afterLast_append {sep : Char} {base : Text} (h : sep ∉ base) (dirs : Text) :
    afterLast sep (dirs ++ sep :: base) = base := by
  rw [afterLast, before, reverse_append, reverse_cons, append_assoc, takeWhile_append_of_pos]
  · simp
  · rintro c hc
    simpa using fun heq : c = sep => h (heq ▸ mem_reverse.1 hc)

end Text

namespace Diff

/-! ## Backup marks -/

def backupMark : Text := "_bk"

/-- No occurrence of the mark reaches into one at the end. -/
theorem replaceFrom_backupMark {skip : Nat} {t : Text} (h : skip ≤ t.length) :
    replaceFrom backupMark [] skip (t ++ backupMark) = replaceFrom backupMark [] skip t := by
  have hlength : backupMark.length - 1 = 2 := rfl
  induction t generalizing skip with
  | nil =>
    obtain rfl : skip = 0 := by simpa using h
    decide
  | cons c t ih =>
    cases skip with
    | succ skip => exact ih (by simpa using h)
    | zero =>
      have hstart : startsWith backupMark (c :: (t ++ backupMark)) =
          startsWith backupMark (c :: t) := by
        rcases t with _ | ⟨d, _ | ⟨e, t⟩⟩ <;> simp [startsWith, isPrefixOf, backupMark]
      rw [cons_append, replaceFrom, replaceFrom, hstart, hlength, ih (Nat.zero_le _)]
      split
      · rename_i hmark
        obtain ⟨rest, hrest⟩ := startsWith_iff.1 hmark
        have htwo : 2 ≤ t.length := by
          have hlen := congrArg length hrest
          simp [backupMark] at hlen
          omega
        rw [ih htwo]
      · rfl

/-! ## Names -/

/-- The path that two header lines have behind their marks, up to a tab. -/
def headerPath (old new : Text) : Text :=
  if trim (before '\t' old) = "/dev/null" then trim (before '\t' new)
  else trim (before '\t' old)

/-- `path` without the first of some heads that it has. -/
def Unheaded (heads : List Text) (path bare : Text) : Prop :=
  (∃ before head after, heads = before ++ head :: after ∧ (∀ h ∈ before, ¬ h <+: path) ∧
      path = head ++ bare) ∨
    (∀ h ∈ heads, ¬ h <+: path) ∧ bare = path

/-- The file that a path in a header is meant to stand for. -/
def Stripped (keepDirs : Bool) (path file : Text) : Prop :=
  ∃ bare base, Unheaded ["a/src/", "b/src/", "a/", "b/"] path bare ∧
    (if keepDirs then base = bare else '/' ∉ base ∧
      (base = bare ∨ ∃ dirs, bare = dirs ++ '/' :: base)) ∧
    (base = file ++ backupMark ∨ ¬ backupMark <:+ base ∧ file = base)

theorem Unheaded.dropFirstOf_eq {heads : List Text} {path bare : Text}
    (h : Unheaded heads path bare) :
    dropFirstOf heads path = bare := by
  induction heads with
  | nil =>
    obtain ⟨before, head, after, hnil, -⟩ | ⟨-, rfl⟩ := h
    · simp at hnil
    · rfl
  | cons head heads ih =>
    rw [dropFirstOf]
    obtain ⟨_ | ⟨head', before⟩, head'', after, hheads, hbefore, hpath⟩ | ⟨hnone, rfl⟩ := h
    · obtain ⟨rfl, rfl⟩ := cons.inj hheads
      rw [hpath, dropHead?_append, getD_some]
    · obtain ⟨rfl, rfl⟩ := cons.inj hheads
      rw [dropHead?_eq_none_iff.2 (hbefore head mem_cons_self), getD_none]
      exact ih (.inl ⟨before, head'', after, rfl, fun h hh => hbefore h (.tail _ hh), hpath⟩)
    · rw [dropHead?_eq_none_iff.2 (hnone head mem_cons_self), getD_none]
      exact ih (.inr ⟨fun h hh => hnone h (.tail _ hh), rfl⟩)

theorem Stripped.sourceName_eq_iff {keepDirs : Bool} {path file : Text}
    (h : Stripped keepDirs path file) :
    sourceName keepDirs path = file ↔ ¬ backupMark <:+: file := by
  obtain ⟨bare, base, hbare, hbase, hfile⟩ := h
  have hname : sourceName keepDirs path = replace backupMark [] base := by
    rw [sourceName, hbare.dropFirstOf_eq]
    cases keepDirs with
    | true => rw [show base = bare from hbase]; rfl
    | false =>
      obtain ⟨hslash, rfl | ⟨dirs, rfl⟩⟩ := hbase
      · rw [if_neg (by simp), afterLast_eq_self hslash]; rfl
      · rw [if_neg (by simp), afterLast_append hslash]; rfl
  have hne : backupMark ≠ [] := by decide
  rw [hname]
  obtain rfl | ⟨-, rfl⟩ := hfile
  · rw [Text.replace, replaceFrom_backupMark (Nat.zero_le _)]
    exact replace_nil_eq_self_iff hne
  · exact replace_nil_eq_self_iff hne

theorem headerSource_eq {opts : Options} (hopts : opts.sourceFile = none) (old new : Text) :
    headerSource opts ("--- " ++ old) ("+++ " ++ new) =
      sourceName opts.keepDirs (headerPath old new) := by
  simp only [headerSource, hopts, headerName, dropHead?_append, getD_some]
  rfl

/-! ## Parts of a diff -/

/-- A file header and the lines below it. -/
def filePart (old new : Text) (body : List Text) : List Text :=
  ("--- " ++ old) :: ("+++ " ++ new) :: body

/-- The edits that are read from some lines alone. -/
def edits (opts : Options) (lines : List Text) : Fragments := (readLines opts lines {}).fragments

/-- Whether nothing is left, or the lines go on with another file. -/
def beginsFile : List Text → Bool
  | [] => true
  | line :: lines => startsWith "diff --git" line || isFileHeader line lines.head?

variable {opts : Options} {s : State} {file old new : Text} {before body after : List Text}

theorem isFileHeader_filePart (old new : Text) :
    isFileHeader ("--- " ++ old) (some ("+++ " ++ new)) = true := by
  rw [isFileHeader, startsWith_append, Option.map_some, startsWith_append]
  rfl

theorem beginsFile_filePart (old new : Text) (rest : List Text) :
    beginsFile (filePart old new rest) = true := by
  rw [filePart, beginsFile, head?_cons, isFileHeader_filePart, Bool.or_true]

/-- The lines before another file, and those from there on, are read by themselves. -/
theorem directives_append_of_beginsFile (opts : Options) (h : beginsFile after = true)
    (before : List Text) :
    directives opts (before ++ after) = directives opts before ++ directives opts after ∧
      ∀ d ∈ (directives opts after).head?, d.EndsFile := by
  cases after with
  | nil => simp [directives]
  | cons line lines =>
    cases hgit : startsWith "diff --git" line with
    | true =>
      refine ⟨directives_append opts (not_startsWith_plus hgit) before lines, ?_⟩
      rw [directives_git hgit]
      exact fun d hd => .inl (Option.some.inj hd).symm
    | false =>
      rw [beginsFile, hgit, Bool.false_or] at h
      refine ⟨directives_append opts (startsWith_of_isFileHeader h rfl (by decide)) before lines,
        ?_⟩
      cases lines with
      | nil => simp [isFileHeader] at h
      | cons next lines =>
        rw [directives_header hgit h]
        exact fun d hd => .inr ⟨_, (Option.some.inj hd).symm⟩

open State

theorem fragments_follow {ds : List Directive} (h : .depend ∉ ds) :
    (follow opts ds {}).fragments = (({} : State).after opts ds).close.fragments := by
  rw [follow_eq_outcome opts h, fragments_outcome]

/-- **The parts of a diff.** If none of them adds a dependency, the edits of a diff are those of its
parts. -/
theorem isUnion_edits (h : beginsFile after = true)
    (hdepend : .depend ∉ directives opts (before ++ after)) :
    (edits opts (before ++ after)).IsUnion (edits opts before) (edits opts after) := by
  obtain ⟨happend, hends⟩ := directives_append_of_beginsFile opts h before
  rw [happend] at hdepend
  obtain ⟨hbefore, hafter⟩ := not_or.1 (mt mem_append.2 hdepend)
  simp only [edits, readLines_eq, happend, fragments_follow, hbefore, hafter, hdepend,
    not_false_eq_true]
  exact isUnion_after hends _

/-! ## The file that is edited -/

def Outcome.source? : Outcome → Option Text
  | parsed source _ => some source
  | empty => none
  | requiresRecompilation source => some source

theorem State.InFile.follow (hs : s.InFile file) {d : Directive} (hd : d ≠ .leave ∧
    d.isEnter = false) :
    (d.follow opts s).InFile file := by
  have hclose := hs.close
  cases d with
  | leave => exact absurd rfl hd.1
  | enter source => cases hd.2
  | depend => exact hs
  | hunk header =>
    refine ⟨hclose.current, hclose.fragments, ?_⟩
    simp only [Directive.follow, openHunk, hclose.current, mem_def, map_eq_some_iff]
    rintro e ⟨start, -, rfl⟩
    rfl
  | edit line =>
    refine ⟨hs.current, hs.fragments, ?_⟩
    simp only [Directive.follow, editHunk, mem_def, map_eq_some_iff]
    rintro e ⟨e', he', rfl⟩
    exact hs.hunk e' he'

/-- While the file stays the same, all edits are in it. -/
theorem file_of_follow {ds : List Directive} (hds : ∀ d ∈ ds, d ≠ .leave ∧ d.isEnter = false)
    (hs : s.InFile file) : ∀ b ∈ (follow opts ds s).fragments.breakPoints, b.file = file := by
  induction ds generalizing s with
  | nil =>
    intro b hb
    rw [follow, fragments_outcome] at hb
    obtain ⟨e, he, rfl⟩ := mem_map.1 hb
    exact hs.close.fragments e he
  | cons d ds ih =>
    obtain ⟨hd, hds⟩ := forall_mem_cons.1 hds
    by_cases hdepend : d = .depend
    · rw [follow, if_pos hdepend]
      simp [Outcome.fragments, Fragments.breakPoints]
    · rw [follow_cons_of_ne hdepend]
      exact ih hds (hs.follow hd)

/-- The first file that was met stays the one of the outcome. -/
theorem source?_follow (ds : List Directive) (hfirst : s.firstSource = some file) :
    follow opts ds s ≠ .empty → (follow opts ds s).source? = some file := by
  induction ds generalizing s with
  | nil =>
    rw [follow, outcome]
    split
    · exact absurd rfl
    · simp [Outcome.source?, source, hfirst]
  | cons d ds ih =>
    by_cases hdepend : d = .depend
    · rw [follow, if_pos hdepend]
      simp [Outcome.source?, source, hfirst]
    · rw [follow_cons_of_ne hdepend]
      refine ih ?_
      cases d <;> simp [Directive.follow, openHunk, editHunk, leaveFile,
        enterFile, hfirst]

/-- **The file of a header.** Without a configured file, a header stands anywhere in a diff, and the
lines below it go on to the next header. If the diff adds no dependency, its edits are those of the
lines before, of this part, and of the lines after. Those of the part are in the file that the path
of the header is meant to stand for, exactly if that file has no backup mark in its name; and if the
header is the first one, then so is the file of the outcome. -/
theorem files_of_read_iff {t : Text} (hopts : opts.sourceFile = none)
    (ht : lines t = before ++ (filePart old new body ++ after)) (hfree : HeaderFree body)
    (hgit : ∀ line ∈ body, startsWith "diff --git" line = false) (hafter : beginsFile after = true)
    (hfile : Stripped opts.keepDirs (headerPath old new) file) :
    ((∀ b ∈ (edits opts (filePart old new body)).breakPoints, b.file = file) ↔
      edits opts (filePart old new body) = [] ∨ ¬ backupMark <:+: file) ∧
    ((read opts t).isRecompilation = false → ∀ b, (read opts t).fragments.at? b =
      Option.merge Fragment.merge ((edits opts before).at? b) (Option.merge Fragment.merge
        ((edits opts (filePart old new body)).at? b) ((edits opts after).at? b))) ∧
    (HeaderFree before → (readLines opts before {}).isRecompilation = false →
      ((∀ source ∈ (read opts t).source?, source = file) ↔
        read opts t = .empty ∨ ¬ backupMark <:+: file)) := by
  obtain ⟨name, hname⟩ : ∃ name, name = sourceName opts.keepDirs (headerPath old new) := ⟨_, rfl⟩
  have hheader := isFileHeader_filePart old new
  have hpart : directives opts (filePart old new body) = .enter name :: body.map .ofLine := by
    rw [filePart, directives_header (git_of_isFileHeader hheader) hheader, headerSource_eq hopts,
      directives_of_headerFree hgit hfree, hname]
  have hrest : beginsFile (filePart old new body ++ after) = true := beginsFile_filePart old new _
  obtain ⟨hsplit, -⟩ := directives_append_of_beginsFile opts hrest before
  rw [← hfile.sourceName_eq_iff, ← hname]
  refine ⟨?_, ?_, ?_⟩
  · have hall : ∀ b ∈ (edits opts (filePart old new body)).breakPoints, b.file = name := by
      rw [edits, readLines_eq, hpart, follow_cons_of_ne (by simp)]
      refine file_of_follow (fun d hd => ?_) (inFile_enterFile name)
      obtain ⟨line, -, rfl⟩ := mem_map.1 hd
      obtain ⟨h, -⟩ | ⟨h, -⟩ | ⟨h, -⟩ := Directive.ofLine_cases line <;> simp [h, Directive.isEnter]
    generalize edits opts (filePart old new body) = fs at hall
    cases fs with
    | nil => simp [Fragments.breakPoints]
    | cons e fs =>
      refine ⟨fun hin => .inr ?_, fun h => h.resolve_left (cons_ne_nil _ _) ▸ hall⟩
      exact (hall e.1 mem_cons_self).symm.trans (hin e.1 mem_cons_self)
  · intro hrec b
    have hdepend : .depend ∉ directives opts (before ++ (filePart old new body ++ after)) := by
      rw [← ht, ← isRecompilation_follow opts _ {}, ← read_eq, hrec]
      exact Bool.false_ne_true
    have hread : (read opts t).fragments =
        edits opts (before ++ (filePart old new body ++ after)) := by
      rw [← ht]
      rfl
    rw [hread, isUnion_edits hrest hdepend b]
    rw [hsplit] at hdepend
    rw [isUnion_edits hafter (mt (mem_append_right _) hdepend) b]
  · intro hbefore hrec
    have hdepend : .depend ∉ directives opts before := by
      rw [← isRecompilation_follow opts _ {}, ← readLines_eq, hrec]
      exact Bool.false_ne_true
    have henter := countP_eq_zero.1 ((countP_isEnter_eq_zero_iff opts).2 hbefore)
    obtain ⟨happend, -⟩ := directives_append_of_beginsFile opts hafter (filePart old new body)
    have hsource : read opts t ≠ .empty → (read opts t).source? = some name := by
      rw [read_eq, ht, hsplit, happend, hpart, follow_append opts hdepend, cons_append,
        follow_cons_of_ne (by simp)]
      refine source?_follow _ ?_
      rw [Directive.follow, enterFile,
        firstSource_after fun d hd => by simpa using henter d hd]
      rfl
    constructor
    · intro hall
      by_cases hempty : read opts t = .empty
      · exact .inl hempty
      · exact .inr (hall _ (hsource hempty))
    · rintro (hempty | rfl) source hmem
      · simp [hempty, Outcome.source?] at hmem
      · have hne : read opts t ≠ .empty := by
          rintro hempty
          simp [hempty, Outcome.source?] at hmem
        exact Option.some.inj (hmem.symm.trans (hsource hne))

theorem files_of_read_backup :
    let part := filePart "a/src/lib/util.c_bk\told" "b/src/lib/util.c" ["@@ -3 +3 @@", "+x"]
    let t : Text :=
      "Two files\n--- a/src/lib/util.c_bk\told\n+++ b/src/lib/util.c\n@@ -3 +3 @@\n+x\n" ++
      "--- a/main.c\n+++ b/main.c\n@@ -3 +3 @@\n+y\n"
    read {} t ≠ .empty ∧ edits {} part ≠ [] ∧
      (∀ source ∈ (read {} t).source?, source = "util.c") ∧
      (∀ b ∈ (edits {} part).breakPoints, b.file = "util.c") ∧
      (read {} t).fragments.at? ⟨"util.c", 3⟩ = some { inserted := ["x"] } := by
  intro part t
  have hclean : ¬ backupMark <:+: "util.c" := by decide
  obtain ⟨hfiles, hedits, hsource⟩ := @files_of_read_iff {} "util.c" "a/src/lib/util.c_bk\told"
    "b/src/lib/util.c" ["Two files"] ["@@ -3 +3 @@", "+x"]
    ["--- a/main.c", "+++ b/main.c", "@@ -3 +3 @@", "+y"] t rfl (by decide +kernel) (by decide)
    (by decide) (by decide) ⟨"lib/util.c_bk", "util.c_bk",
      .inl ⟨[], _, _, rfl, by decide, by decide⟩,
      ⟨by decide, .inr ⟨"lib", by decide⟩⟩, .inl (by decide)⟩
  refine ⟨by decide +kernel, by decide +kernel, ?_, hfiles.2 (.inr hclean), ?_⟩
  · exact (hsource (by decide) (by decide)).2 (.inr hclean)
  · rw [hedits (by decide +kernel)]
    decide +kernel

/-- A mark inside a name is lost. -/
theorem files_of_read_inner_mark :
    Stripped false "a/my_bk_file.c" "my_bk_file.c" ∧
      read {} "--- a/my_bk_file.c\n+++ b/my_bk_file.c\n@@ -3 +3 @@\n+x\n" =
        .parsed "my_file.c" [(⟨"my_file.c", 3⟩, { inserted := ["x"] })] :=
  ⟨⟨"my_bk_file.c", "my_bk_file.c", .inl ⟨["a/src/", "b/src/"], "a/", _, rfl, by decide, by decide⟩,
    ⟨by decide, .inl rfl⟩, .inr ⟨by decide, rfl⟩⟩, by decide +kernel⟩

end Diff

end PatchTriage
