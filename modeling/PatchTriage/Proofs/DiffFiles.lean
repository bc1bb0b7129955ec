import PatchTriage.Patch.Diff
import PatchTriage.Proofs.FragmentMap
import PatchTriage.Proofs.Places

/-!
# A diff of several files

Behind a diff another one can be put that begins with a `diff --git` line: nothing of the first is
then open. So the edits of both are those of the two, merged where they meet.
-/

namespace PatchTriage

open Text List

/-! ## Lines -/

theorem Text.lines_append {s t : Text} (hs : s = [] ∨ s.getLast? = some '\n') :
    lines (s ++ t) = lines s ++ lines t := by
  rcases hs with rfl | hs
  · rfl
  · obtain ⟨u, rfl⟩ : ∃ u, s = u ++ ['\n'] := getLast?_eq_some_iff.1 hs
    have hnil : splitOn '\n' (u ++ ['\n']) = splitOn '\n' u ++ [[]] := splitOn_append '\n' u []
    have hlines : lines (u ++ ['\n']) = (splitOn '\n' u).map dropReturn := by simp [lines, hnil]
    have happend : u ++ ['\n'] ++ t = u ++ '\n' :: t := by simp
    have hne := splitOn_ne_nil '\n' t
    rw [hlines, happend, lines, splitOn_append, lines]
    simp only [dropLast_append_of_ne_nil hne, getLast?_append_of_ne_nil _ hne, map_append]
    split <;> simp

namespace Diff

/-! ## Directives -/

inductive Directive where
  | leave
  | enter (source : Text)
  | hunk (header : Text)
  | depend
  | edit (line : Text)
  deriving DecidableEq

/-- What a line says that is no file header and no `diff --git` line. -/
def Directive.ofLine (line : Text) : Directive :=
  if startsWith "@@" line then .hunk line
  else if isDependency line then .depend
  else .edit line

/-- What the lines of a diff say, whatever has been read before. -/
def directives (opts : Options) : List Text → List Directive
  | [] => []
  | line :: lines =>
    if startsWith "diff --git" line then .leave :: directives opts lines
    else
      match isFileHeader line lines.head?, lines with
      | true, next :: lines => .enter (headerSource opts line next) :: directives opts lines
      | _, lines => .ofLine line :: directives opts lines

def Directive.follow (opts : Options) (s : State) : Directive → State
  | leave => s.leaveFile
  | enter source => s.enterFile source
  | hunk header => s.openHunk opts header
  | depend => s
  | edit line => s.editHunk line

/-- Whether nothing of the file before is open any more. -/
def Directive.EndsFile (d : Directive) : Prop := d = leave ∨ ∃ source, d = enter source

def follow (opts : Options) : List Directive → State → Outcome
  | [], s => s.outcome opts
  | d :: ds, s =>
    if d = .depend then .requiresRecompilation (s.source opts) else follow opts ds (d.follow opts s)

/-- Lines are read one by one, but for the two lines of a file header. -/
@[elab_as_elim]
theorem lines_induction {motive : List Text → Prop} (nil : motive [])
    (git : ∀ line lines, startsWith "diff --git" line = true → motive lines →
      motive (line :: lines))
    (header : ∀ line next lines, startsWith "diff --git" line = false →
      isFileHeader line (some next) = true → motive lines → motive (line :: next :: lines))
    (other : ∀ line lines, startsWith "diff --git" line = false →
      isFileHeader line lines.head? = false → motive lines → motive (line :: lines)) :
    ∀ lines, motive lines
  | [] => nil
  | line :: lines => by
    cases hgit : startsWith "diff --git" line with
    | true => exact git line lines hgit (lines_induction nil git header other lines)
    | false =>
      cases hheader : isFileHeader line lines.head? with
      | false => exact other line lines hgit hheader (lines_induction nil git header other lines)
      | true =>
        cases lines with
        | nil => simp [isFileHeader] at hheader
        | cons next lines =>
          exact header line next lines hgit hheader (lines_induction nil git header other lines)

section Lines

variable {opts : Options} {line next : Text} {lines : List Text} {s : State}

theorem directives_git (hgit : startsWith "diff --git" line = true) :
    directives opts (line :: lines) = .leave :: directives opts lines := by
  rw [directives.eq_def]
  simp only [hgit, if_true]

theorem directives_header (hgit : startsWith "diff --git" line = false)
    (hheader : isFileHeader line (some next) = true) :
    directives opts (line :: next :: lines) =
      .enter (headerSource opts line next) :: directives opts lines := by
  rw [directives.eq_def]
  simp only [hgit, head?_cons, hheader, Bool.false_eq_true, if_false]

theorem directives_other (hgit : startsWith "diff --git" line = false)
    (hheader : isFileHeader line lines.head? = false) :
    directives opts (line :: lines) = .ofLine line :: directives opts lines := by
  rw [directives.eq_def]
  simp only [hgit, hheader, Bool.false_eq_true, if_false]

theorem follow_cons_of_ne {d : Directive} (hd : d ≠ .depend) (ds : List Directive) :
    follow opts (d :: ds) s = follow opts ds (d.follow opts s) :=
  if_neg hd

end Lines

/-- **Reading is following the directives.** -/
theorem readLines_eq (opts : Options) (lines : List Text) (s : State) :
    readLines opts lines s = follow opts (directives opts lines) s := by
  induction lines using lines_induction generalizing s with
  | nil => rfl
  | git line lines hgit ih =>
    rw [readLines.eq_def, directives_git hgit, follow_cons_of_ne (by simp), Directive.follow, ← ih]
    simp only [hgit, if_true]
  | header line next lines hgit hheader ih =>
    rw [readLines.eq_def, directives_header hgit hheader, follow_cons_of_ne (by simp),
      Directive.follow, ← ih]
    simp only [hgit, head?_cons, hheader, Bool.false_eq_true, if_false]
  | other line lines hgit hheader ih =>
    rw [readLines.eq_def, directives_other hgit hheader, Directive.ofLine]
    simp only [hgit, hheader, Bool.false_eq_true, if_false]
    split
    · rw [follow_cons_of_ne (by simp), ih, Directive.follow]
    · split
      · rw [follow, if_pos rfl]
      · rw [follow_cons_of_ne (by simp), ih, Directive.follow]

/-- A file header reaches over two lines, but not to a line that is none of its own. -/
theorem directives_append (opts : Options) {first : Text}
    (hfirst : startsWith "+++ " first = false) (before rest : List Text) :
    directives opts (before ++ first :: rest) =
      directives opts before ++ directives opts (first :: rest) := by
  induction before using lines_induction with
  | nil => rfl
  | git line lines hgit ih =>
    rw [cons_append, directives_git hgit, directives_git hgit, ih, cons_append]
  | header line next lines hgit hheader ih =>
    rw [cons_append, cons_append, directives_header hgit hheader,
      directives_header hgit hheader, ih, cons_append]
  | other line lines hgit hheader ih =>
    have hnext : isFileHeader line (lines ++ first :: rest).head? = false := by
      cases lines with
      | nil => rw [nil_append, head?_cons, isFileHeader, Option.map_some, hfirst]; simp
      | cons next lines => exact hheader
    rw [cons_append, directives_other hgit hnext, directives_other hgit hheader, ih, cons_append]

/-! ## Outcomes -/

namespace Outcome

def isRecompilation : Outcome → Bool
  | requiresRecompilation _ => true
  | _ => false

def fragments : Outcome → Fragments
  | parsed _ fs => fs
  | _ => []

end Outcome

/-- The reader after some directives, none of which adds a dependency. -/
def State.after (opts : Options) (ds : List Directive) (s : State) : State :=
  ds.foldl (Directive.follow opts) s

theorem isRecompilation_follow (opts : Options) (ds : List Directive) (s : State) :
    (follow opts ds s).isRecompilation = true ↔ .depend ∈ ds := by
  induction ds generalizing s with
  | nil =>
    rw [follow, State.outcome]
    split <;> simp [Outcome.isRecompilation]
  | cons d ds ih =>
    by_cases hd : d = .depend
    · simp [follow, hd, Outcome.isRecompilation]
    · rw [follow_cons_of_ne hd, ih, mem_cons]
      exact ⟨.inr, fun h => h.resolve_left (Ne.symm hd)⟩

theorem follow_append (opts : Options) {ds : List Directive} (h : .depend ∉ ds)
    (ds' : List Directive) (s : State) :
    follow opts (ds ++ ds') s = follow opts ds' (s.after opts ds) := by
  induction ds generalizing s with
  | nil => rfl
  | cons d ds ih =>
    obtain ⟨hd, hds⟩ : .depend ≠ d ∧ .depend ∉ ds := by simpa using h
    rw [cons_append, follow_cons_of_ne (Ne.symm hd), ih hds]
    rfl

theorem follow_eq_outcome (opts : Options) {ds : List Directive} (h : .depend ∉ ds) (s : State) :
    follow opts ds s = (s.after opts ds).outcome opts := by
  rw [← append_nil ds, follow_append opts h, append_nil, follow]

namespace State

variable {opts : Options} {s t : State} {fs : Fragments}

@[simp] theorem current_close (s : State) : s.close.current = s.current := by
  rw [close]
  split <;> rfl

@[simp] theorem hunk_close (s : State) : s.close.hunk = none := by
  rw [close]
  split
  · assumption
  · rfl

theorem fragments_close (s : State) : s.close.fragments = match s.hunk with
      | none => s.fragments
      | some (b, f) => if f.isEmpty then s.fragments else Fragments.add b f s.fragments := by
  rw [close]
  cases s.hunk <;> rfl

theorem fragments_outcome (opts : Options) (s : State) :
    (s.outcome opts).fragments = s.close.fragments := by
  rw [outcome]
  cases s.close.fragments <;> simp [Outcome.fragments]

theorem outcome_eq_empty_iff (opts : Options) (s : State) :
    s.outcome opts = .empty ↔ s.close.fragments = [] := by
  rw [outcome]
  cases s.close.fragments <;> simp

/-! ## The frame -/

/-- `s.Above fs t`: the readers `s` and `t` are at the same place of a diff, but `s` has read the
edits `fs` before that. -/
structure Above (fs : Fragments) (s t : State) : Prop where
  current : s.current = t.current
  hunk : s.hunk = t.hunk
  ascending : s.fragments.Ascending
  ascending_below : t.fragments.Ascending
  union : s.fragments.IsUnion fs t.fragments

namespace Above

theorem close (h : Above fs s t) : Above fs s.close t.close := by
  have hfragments : s.close.fragments.Ascending ∧ t.close.fragments.Ascending ∧
      s.close.fragments.IsUnion fs t.close.fragments := by
    rw [fragments_close, fragments_close, ← h.hunk]
    cases s.hunk with
    | none => exact ⟨h.ascending, h.ascending_below, h.union⟩
    | some entry =>
      obtain ⟨b, f⟩ := entry
      cases hf : f.isEmpty with
      | true => simpa [hf] using ⟨h.ascending, h.ascending_below, h.union⟩
      | false =>
        simpa [hf] using ⟨h.ascending.add b f, h.ascending_below.add b f,
          h.union.add h.ascending h.ascending_below b f⟩
  exact { current := by simpa using h.current, hunk := by simp, ascending := hfragments.1
          ascending_below := hfragments.2.1, union := hfragments.2.2 }

theorem follow (h : Above fs s t) (d : Directive) :
    Above fs (d.follow opts s) (d.follow opts t) := by
  have hclose := h.close
  cases d with
  | leave | enter source => exact { hclose with current := rfl }
  | hunk header =>
    refine { hclose with hunk := ?_ }
    show (hunkStart? header).map _ = (hunkStart? header).map _
    rw [hclose.current]
  | depend => exact h
  | edit line =>
    refine { h with hunk := ?_ }
    show s.hunk.map _ = t.hunk.map _
    rw [h.hunk]

theorem after (h : Above fs s t) (ds : List Directive) :
    Above fs (s.after opts ds) (t.after opts ds) := by
  induction ds generalizing s t with
  | nil => exact h
  | cons d ds ih => exact ih (h.follow d)

end Above

theorem above_start : Above [] ({} : State) {} where
  current := rfl
  hunk := rfl
  ascending := Pairwise.nil
  ascending_below := Pairwise.nil
  union := Fragments.isUnion_nil []

/-- A reader at the end of a file is a new one, but for what it has read. -/
theorem above_of_endsFile {d : Directive} (hd : d.EndsFile) (h : s.close.fragments.Ascending) :
    Above s.close.fragments (d.follow opts s) (d.follow opts {}) := by
  obtain rfl | ⟨source, rfl⟩ := hd
  all_goals exact ⟨rfl, hunk_close s, h, Pairwise.nil, Fragments.isUnion_nil _⟩

end State

/-! ## One diff behind another -/

variable {opts : Options}

theorem read_eq (opts : Options) (t : Text) :
    read opts t = follow opts (directives opts (lines t)) {} :=
  readLines_eq opts (lines t) {}

theorem ascending_close_after (ds : List Directive) :
    (({} : State).after opts ds).close.fragments.Ascending :=
  ((State.above_start.after ds).close).ascending

/-- What is read of two diffs that go one behind the other, none of which adds a dependency. -/
theorem isUnion_after {ds' : List Directive} (hends : ∀ d ∈ ds'.head?, d.EndsFile)
    (ds : List Directive) :
    (({} : State).after opts (ds ++ ds')).close.fragments.IsUnion
      (({} : State).after opts ds).close.fragments
        (({} : State).after opts ds').close.fragments := by
  cases ds' with
  | nil =>
    rw [append_nil]
    exact Fragments.isUnion_nil _
  | cons d ds' =>
    have happend : ({} : State).after opts (ds ++ d :: ds')
        = (d.follow opts (({} : State).after opts ds)).after opts ds' := foldl_append
    rw [happend]
    exact ((State.above_of_endsFile (hends d rfl) (ascending_close_after ds)).after ds').close.union

def BeginsFile (t : Text) : Prop :=
  ∃ line rest, lines t = line :: rest ∧ startsWith "diff --git" line = true

theorem not_startsWith_plus {line : Text} (h : startsWith "diff --git" line = true) :
    startsWith "+++ " line = false := by
  cases line with
  | nil => rfl
  | cons c line =>
    have hc : c = 'd' := by
      simp only [startsWith, String.reduceToList, isPrefixOf_cons_cons, Bool.and_eq_true,
        beq_iff_eq] at h
      exact h.1.symm
    rw [hc]
    rfl

theorem directives_of_beginsFile (opts : Options) {s t : Text} (hs : s = [] ∨
    s.getLast? = some '\n')
    (ht : BeginsFile t) :
    ∃ ds, directives opts (lines t) = .leave :: ds ∧ directives opts (lines (s ++ t)) =
      directives opts (lines s) ++ .leave :: ds := by
  obtain ⟨line, rest, hlines, hgit⟩ := ht
  refine ⟨directives opts rest, ?_, ?_⟩
  · rw [hlines, directives_git hgit]
  · rw [lines_append hs, hlines, directives_append opts (not_startsWith_plus hgit),
      directives_git hgit]

/-- **A diff of several files.** Behind a text that ends its last line, or is empty, stands a text
that begins a new file. Together they add a dependency exactly if one of them does. If not, the
edits are those of the two, merged at the break points that have edits in both; and there are none
only if there are none in either. -/
theorem read_append (opts : Options) (s t : Text) (hs : s = [] ∨ s.getLast? = some '\n')
    (ht : BeginsFile t) :
    ((read opts (s ++ t)).isRecompilation = true ↔
      (read opts s).isRecompilation = true ∨ (read opts t).isRecompilation = true) ∧
    ((read opts (s ++ t)).isRecompilation = false →
      (read opts (s ++ t)).fragments.Ascending ∧
      ∀ b, (read opts (s ++ t)).fragments.at? b =
        Option.merge Fragment.merge ((read opts s).fragments.at? b)
          ((read opts t).fragments.at? b)) ∧
    (read opts (s ++ t) = .empty ↔ read opts s = .empty ∧ read opts t = .empty) := by
  obtain ⟨ds, hnew, hboth⟩ := directives_of_beginsFile opts hs ht
  have hdepend : (read opts (s ++ t)).isRecompilation = true ↔
      (read opts s).isRecompilation = true ∨ (read opts t).isRecompilation = true := by
    simp only [read_eq, isRecompilation_follow, hnew, hboth, mem_append]
  refine ⟨hdepend, ?_⟩
  cases hrec : (read opts (s ++ t)).isRecompilation with
  | true =>
    refine ⟨by simp, ?_⟩
    have hne : ∀ o : Outcome, o.isRecompilation = true → o ≠ .empty := by
      rintro _ h rfl
      cases h
    constructor
    · intro h
      exact absurd h (hne _ hrec)
    · rintro ⟨hs, ht⟩
      rcases hdepend.1 hrec with h | h
      · exact absurd hs (hne _ h)
      · exact absurd ht (hne _ h)
  | false =>
    obtain ⟨hs', ht'⟩ : .depend ∉ directives opts (lines s) ∧ .depend ∉ Directive.leave :: ds := by
      rw [← hnew, ← not_or, ← mem_append, hnew, ← hboth, ← isRecompilation_follow opts _ {},
        ← read_eq]
      simp [hrec]
    have hst' : .depend ∉ directives opts (lines s) ++ Directive.leave :: ds :=
      fun h => (mem_append.1 h).elim hs' ht'
    rw [read_eq, read_eq, read_eq, hnew, hboth, follow_eq_outcome opts hs',
      follow_eq_outcome opts ht',
      follow_eq_outcome opts hst']
    simp only [State.fragments_outcome, State.outcome_eq_empty_iff]
    have hends : ∀ d ∈ (Directive.leave :: ds).head?, d.EndsFile := by simp [Directive.EndsFile]
    exact ⟨fun _ => ⟨ascending_close_after _, isUnion_after hends _⟩,
      (isUnion_after hends _).eq_nil_iff⟩

def removal : Text := "--- a/f.c\n+++ b/f.c\n@@ -10 +10 @@\n-x = 1;\n"

def insertions : Text :=
  "diff --git a/f.c b/f.c\n--- a/f.c\n+++ b/f.c\n@@ -10 +10 @@\n+x = 2;\n@@ -20 +20 @@\n+y = 3;\n"

theorem read_append_removal :
    (removal = [] ∨ removal.getLast? = some '\n') ∧ BeginsFile insertions ∧
    (read {} (removal ++ insertions)).isRecompilation = false ∧
    (read {} (removal ++ insertions)).fragments.at? ⟨"f.c", 10⟩ =
      some { inserted := ["x = 2"], removed := ["x = 1;"] } ∧
    read {} (removal ++ insertions) ≠ .empty := by
  have hs : removal = [] ∨ removal.getLast? = some '\n' := .inr (by decide +kernel)
  have ht : BeginsFile insertions := by
    refine ⟨"diff --git a/f.c b/f.c".toList, (lines insertions).tail, ?_, ?_⟩ <;> decide +kernel
  obtain ⟨hdepend, hfragments, hempty⟩ := read_append {} removal insertions hs ht
  have hnone : (read {} (removal ++ insertions)).isRecompilation = false := by
    rw [← Bool.not_eq_true, hdepend]
    decide +kernel
  refine ⟨hs, ht, hnone, ?_, ?_⟩
  · rw [(hfragments hnone).2]
    decide +kernel
  · rw [ne_eq, hempty]
    decide +kernel

end Diff

end PatchTriage
