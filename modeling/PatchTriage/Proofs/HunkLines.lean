import Mathlib.Data.List.Chain
import PatchTriage.Proofs.DiffRendering

/-!
# The lines of a hunk

A reader of diffs tells a file header by two lines, also inside a hunk. So lines of a hunk are read
as what they are exactly if no two of them look like a file header (`Diff.removed_of_read_iff`).

Edits at one break point may stand in one hunk or in several. That makes no difference but for the
line at which execution resumes: in a hunk the last mark counts, and of several hunks the first one
that has any (`Diff.read_split_iff`).
-/

namespace PatchTriage

open Text List SortedList BreakPoint Fragments

namespace Diff

variable {opts : Options} {lines : List Text} {line : Text} {s : State}

/-! ## File headers among lines -/

def HeaderFree (lines : List Text) : Prop :=
  lines.IsChain fun a b => isFileHeader a (some b) = false

instance : Decidable (HeaderFree lines) := inferInstanceAs (Decidable (List.IsChain _ _))

theorem headerFree_cons :
    HeaderFree (line :: lines) ↔ isFileHeader line lines.head? = false ∧ HeaderFree lines := by
  cases lines with
  | nil => simp [HeaderFree, isFileHeader]
  | cons next lines => exact isChain_cons_cons

theorem headerFree_append {first : Text} (hfirst : startsWith "+++ " first = false)
    (before rest : List Text) :
    HeaderFree (before ++ first :: rest) ↔ HeaderFree before ∧ HeaderFree (first :: rest) := by
  have hnone (a : Text) : isFileHeader a (some first) = false := by
    rw [isFileHeader, Option.map_some, Option.getD_some, hfirst, Bool.and_false]
  rw [HeaderFree, isChain_append]
  simp only [head?_cons, Option.mem_some_iff, forall_eq', hnone, implies_true, and_true]
  rfl

theorem isFileHeader_of_head? (h : line.head? ≠ some '-') (next : Option Text) :
    isFileHeader line next = false := by
  rw [← Bool.not_eq_true]
  intro hheader
  exact h (head?_of_startsWith (Bool.and_eq_true_iff.1 hheader).1 rfl)

theorem startsWith_of_isFileHeader {next : Option Text} {mark : Text} {c : Char}
    (h : isFileHeader line next = true) (hmark : mark.head? = some c) (hc : c ≠ '-') :
    startsWith mark line = false := by
  rw [← Bool.not_eq_true]
  intro hstarts
  have hdash : line.head? = some '-' := head?_of_startsWith (Bool.and_eq_true_iff.1 h).1 rfl
  rw [head?_of_startsWith hstarts hmark] at hdash
  exact hc (Option.some.inj hdash)

theorem git_of_isFileHeader {next : Option Text} (h : isFileHeader line next = true) :
    startsWith "diff --git" line = false :=
  startsWith_of_isFileHeader h rfl (by decide)

theorem head?_of_git (h : startsWith "diff --git" line = true) : line.head? = some 'd' :=
  head?_of_startsWith h rfl

def isRemoval (line : Text) : Bool := line.head? == some '-'

namespace Directive

def removes : Directive → Bool
  | edit line => isRemoval line
  | _ => false

def isEnter : Directive → Bool
  | enter _ => true
  | _ => false

theorem ofLine_cases (line : Text) : ofLine line = .hunk line ∧ line.head? = some '@' ∨
      ofLine line = .depend ∧ isDependency line = true ∧ line.head? = some '+' ∨
      ofLine line = .edit line ∧ isDependency line = false := by
  rw [ofLine]
  split_ifs with hhunk hdepend
  · exact .inl ⟨rfl, head?_of_startsWith hhunk rfl⟩
  · refine .inr (.inl ⟨rfl, hdepend, ?_⟩)
    cases line with
    | nil => cases hdepend
    | cons c line =>
      by_contra hne
      rw [isDependency] at hdepend
      · cases hdepend
      · rintro content ⟨⟩
        exact hne rfl
  · exact .inr (.inr ⟨rfl, by simpa using hdepend⟩)

theorem ofLine_of_head? (h : line.head? ∈ [some ' ', some '+', some '-']) :
    ofLine line = if isDependency line = true then .depend else .edit line := by
  refine if_neg fun hhunk => ?_
  rw [head?_of_startsWith hhunk rfl] at h
  exact absurd h (by decide)

theorem isEnter_ofLine (line : Text) : (ofLine line).isEnter = false := by
  obtain ⟨h, -⟩ | ⟨h, -⟩ | ⟨h, -⟩ := ofLine_cases line <;> rw [h] <;> rfl

end Directive

open Directive

/-- **What becomes of lines with a dash in front.**  Each of them removes something or begins a file
header. -/
theorem countP_directives (opts : Options) (lines : List Text) :
    (directives opts lines).countP removes +
      (directives opts lines).countP isEnter = lines.countP isRemoval := by
  induction lines using lines_induction with
  | nil => rfl
  | git line lines hgit ih =>
    simp [directives_git hgit, ← ih, isRemoval, head?_of_git hgit, removes, isEnter]
  | header line next lines hgit hheader ih =>
    obtain ⟨hline, hnext⟩ := Bool.and_eq_true_iff.1 hheader
    have hold : line.head? = some '-' := head?_of_startsWith hline rfl
    have hnew : next.head? = some '+' := head?_of_startsWith hnext rfl
    have henter (source : Text) (ds : List Directive) : (Directive.enter source :: ds).countP
        isEnter = ds.countP isEnter + 1 := countP_cons_of_pos rfl
    simp [directives_header hgit hheader, ← ih, isRemoval, hold, hnew, removes, henter,
      Nat.add_assoc]
  | other line lines hgit hheader ih =>
    rw [directives_other hgit hheader]
    obtain ⟨h, hhead⟩ | ⟨h, -, hhead⟩ | ⟨h, -⟩ := ofLine_cases line
    · simp [h, ← ih, isRemoval, hhead, removes, isEnter]
    · simp [h, ← ih, isRemoval, hhead, removes, isEnter]
    · by_cases hline : isRemoval line = true <;>
        simp [h, ← ih, hline, removes, isEnter, Nat.add_right_comm]

theorem countP_isEnter_eq_zero_iff (opts : Options) :
    (directives opts lines).countP isEnter = 0 ↔ HeaderFree lines := by
  induction lines using lines_induction with
  | nil => simp [directives, HeaderFree]
  | git line lines hgit ih =>
    have hhead : line.head? ≠ some '-' := by
      rw [head?_of_git hgit]
      decide
    have hnone := isFileHeader_of_head? hhead lines.head?
    rw [directives_git hgit, headerFree_cons, ← ih]
    simp [hnone, isEnter]
  | header line next lines hgit hheader ih =>
    rw [directives_header hgit hheader, headerFree_cons, head?_cons, hheader]
    simp [isEnter]
  | other line lines hgit hheader ih =>
    rw [directives_other hgit hheader, headerFree_cons, ← ih]
    simp [isEnter_ofLine, hheader]

theorem depend_notMem_directives (h : ∀ line ∈ lines, isDependency line = false) :
    .depend ∉ directives opts lines := by
  induction lines using lines_induction with
  | nil => simp [directives]
  | git line lines hgit ih => simp [directives_git hgit, ih fun l hl => h l (.tail _ hl)]
  | header line next lines hgit hheader ih =>
    simp [directives_header hgit hheader, ih fun l hl => h l (.tail _ (.tail _ hl))]
  | other line lines hgit hheader ih =>
    rw [directives_other hgit hheader]
    obtain ⟨hd, -⟩ | ⟨-, hd, -⟩ | ⟨hd, -⟩ := ofLine_cases line
    · simp [hd, ih fun l hl => h l (.tail _ hl)]
    · simp [h line mem_cons_self] at hd
    · simp [hd, ih fun l hl => h l (.tail _ hl)]

theorem directives_of_headerFree (hgit : ∀ line ∈ lines, startsWith "diff --git" line = false)
    (hfree : HeaderFree lines) : directives opts lines = lines.map .ofLine := by
  induction lines with
  | nil => rfl
  | cons line lines ih =>
    obtain ⟨hline, hlines⟩ := headerFree_cons.1 hfree
    rw [directives_other (hgit line mem_cons_self) hline,
      ih (fun l hl => hgit l (.tail _ hl)) hlines,
      map_cons]

theorem directives_eq_map (hgit : ∀ line ∈ lines, line.head? ≠ some 'd')
    (hfree : HeaderFree lines) :
    directives opts lines = lines.map .ofLine :=
  directives_of_headerFree
    (fun line hline => Bool.eq_false_iff.2 fun h => hgit line hline (head?_of_git h)) hfree

/-! ## What lines add to an edit -/

def insertedBy : (line : Text) → List Text
  | '+' :: content => Inserted.split content
  | _ => []

def removedBy : (line : Text) → List Text
  | '-' :: content => [content]
  | _ => []

def markOf? : (line : Text) → Option Nat
  | '-' :: content => jumpMark? content
  | _ => none

def lastMark? (lines : List Text) : Option Nat := lines.reverse.findSome? markOf?

theorem edit_eq (f : Fragment) (line : Text) :
    edit f line = ⟨f.inserted ++ insertedBy line, f.removed ++ removedBy line,
      markOf? line <|> f.jumpLine⟩ := by
  unfold edit insertedBy removedBy markOf?
  split <;> simp

theorem foldl_edit_eq (f : Fragment) (lines : List Text) :
    lines.foldl edit f = ⟨f.inserted ++ lines.flatMap insertedBy,
      f.removed ++ lines.flatMap removedBy,
      lastMark? lines <|> f.jumpLine⟩ := by
  induction lines generalizing f with
  | nil => simp [lastMark?]
  | cons line lines ih => simp [ih, edit_eq, lastMark?, findSome?_append, Option.or_assoc]

theorem length_removedBy (line : Text) :
    (removedBy line).length = if isRemoval line = true then 1 else 0 := by
  unfold removedBy
  split
  · rfl
  · rename_i hne
    have hnot : ¬ isRemoval line = true := by
      intro h
      obtain ⟨content, rfl⟩ := head?_eq_some_iff.1 (beq_iff_eq.1 h)
      exact hne content rfl
    rw [if_neg hnot, length_nil]

theorem length_removed (lines : List Text) :
    (lines.flatMap removedBy).length = lines.countP isRemoval := by
  induction lines with
  | nil => rfl
  | cons line lines ih =>
    rw [flatMap_cons, length_append, ih, length_removedBy, countP_cons, Nat.add_comm]

/-! ## What has been removed -/

def removedLines (fs : Fragments) : List Text := fs.flatMap fun e => e.2.removed

theorem length_removedLines_add (b : BreakPoint) (f : Fragment) (fs : Fragments) :
    (removedLines (add b f fs)).length = (removedLines fs).length + f.removed.length := by
  unfold Fragments.add
  induction fs with
  | nil => simp [insertWith, removedLines]
  | cons e fs ih =>
    obtain ⟨b', g⟩ := e
    rw [insertWith]
    cases compare b b' with
    | lt => simp [removedLines]; omega
    | eq => simp [removedLines, Fragment.merge]; omega
    | gt => simp [removedLines] at ih ⊢; omega

namespace State

def removed (s : State) : Nat :=
  (removedLines s.fragments).length + s.hunk.elim 0 fun e => e.2.removed.length

theorem removed_close (s : State) : s.close.removed = s.removed := by
  rw [removed, hunk_close, fragments_close, removed]
  cases s.hunk with
  | none => rfl
  | some e =>
    obtain ⟨b, f⟩ := e
    cases hf : f.isEmpty with
    | true =>
      have hnone : f.removed = [] := by
        simp only [Fragment.isEmpty, Bool.and_eq_true, List.isEmpty_iff] at hf
        exact hf.2
      simp [hf, hnone]
    | false => simp [hf, length_removedLines_add]

theorem removed_openHunk (s : State) (header : Text) :
    (s.openHunk opts header).removed = s.removed := by
  rw [← removed_close s, removed, removed, hunk_close, openHunk]
  cases hunkStart? header <;> rfl

theorem removed_follow_le (opts : Options) (s : State) (d : Directive) :
    (d.follow opts s).removed ≤ s.removed + if d.removes = true then 1 else 0 := by
  cases d with
  | leave | enter source => exact (removed_close s).le
  | hunk header => exact (removed_openHunk s header).le
  | depend => exact Nat.le_add_right _ _
  | edit line =>
    simp only [Directive.follow, editHunk, removed, Directive.removes]
    cases s.hunk with
    | none => simp
    | some e =>
      simp only [Option.map_some, Option.elim_some, edit_eq, length_append, ← Nat.add_assoc]
      exact Nat.add_le_add_left (length_removedBy line).le _

theorem removed_after_le (opts : Options) (s : State) (ds : List Directive) :
    (s.after opts ds).removed ≤ s.removed + ds.countP Directive.removes := by
  induction ds generalizing s with
  | nil => exact Nat.le_refl _
  | cons d ds ih =>
    have hstep := removed_follow_le opts s d
    have hrest := ih (d.follow opts s)
    rw [countP_cons]
    exact Nat.le_trans hrest (by omega)

variable {file : Text}

/-- What a hunk comes to: the edit of its lines, where its header says, if that can be read. -/
theorem after_hunk (hcurrent : s.current = some file) (header : Text) (body : List Text) :
    s.after opts (.hunk header :: body.map .edit) = { s.close with
      hunk := (hunkStart? header).map fun start => (⟨file, start⟩, body.foldl edit {}) } := by
  have hsteps : s.after opts (.hunk header :: body.map .edit) =
      (s.openHunk opts header).after opts (body.map .edit) := rfl
  rw [hsteps, after_edits, openHunk]
  simp [hcurrent, Function.comp_def]

theorem firstSource_after_hunk (hcurrent : s.current = some file) (header : Text)
    (body : List Text) :
    (s.after opts (.hunk header :: body.map .edit)).firstSource = s.firstSource := by
  rw [after_hunk hcurrent, ← firstSource_close s]

end State

/-! ## Diffs of one file -/

/-- A hunk: where its old and its new lines start, how many they are, and the lines below its
header. -/
structure Hunk where
  start : Nat
  size : Nat
  newStart : Nat
  newSize : Nat
  body : List Text

namespace Hunk

def header (h : Hunk) : Text :=
  "@@ -" ++ ofNat h.start ++ (',' :: ofNat h.size ++ ' ' ::
    ('+' :: ofNat h.newStart ++ ',' :: ofNat h.newSize ++ " @@"))

def printed (h : Hunk) : List Text := h.header :: h.body

/-- Every line is one of context, a removed or an inserted one, and the header counts them. Numbers
of lines have 32 bits, and no dependency is added. -/
structure WellFormed (h : Hunk) : Prop where
  start_le : h.start ≤ maxLine
  marked : ∀ line ∈ h.body, line.head? ∈ [some ' ', some '+', some '-']
  size_eq : h.body.countP (·.head? != some '+') = h.size
  newSize_eq : h.body.countP (·.head? != some '-') = h.newSize
  independent : ∀ line ∈ h.body, isDependency line = false

instance (h : Hunk) : Decidable h.WellFormed :=
  decidable_of_iff (h.start ≤ maxLine ∧
    (∀ line ∈ h.body, line.head? ∈ [some ' ', some '+', some '-']) ∧
      h.body.countP (·.head? != some '+') = h.size ∧
      h.body.countP (·.head? != some '-') = h.newSize ∧ ∀ line ∈ h.body, isDependency line = false)
    ⟨fun ⟨a, b, c, d, e⟩ => ⟨a, b, c, d, e⟩, fun h => ⟨h.1, h.2, h.3, h.4, h.5⟩⟩

variable {h : Hunk}

theorem hunkStart?_header (hle : h.start ≤ maxLine) :
    hunkStart? h.header = some (max h.start 1) := by
  refine hunkStart?_range hle (fun c hc => ?_) rfl _
  rcases mem_cons.1 hc with rfl | hc
  · decide
  · exact isBlank_of_isDigit (isDigit_of_mem_ofNat hc)

theorem WellFormed.ofLine_eq (hwell : h.WellFormed) (hline : line ∈ h.body) :
    ofLine line = .edit line := by
  rw [ofLine_of_head? (hwell.marked line hline), hwell.independent line hline]
  rfl

end Hunk

variable {hunks : List Hunk}

open Hunk

theorem headerFree_hunks : HeaderFree (hunks.flatMap printed) ↔ ∀ h ∈ hunks, HeaderFree h.body := by
  induction hunks with
  | nil => simp [HeaderFree]
  | cons h hunks ih =>
    have hheader (rest : List Text) : HeaderFree (h.header :: rest) ↔ HeaderFree rest := by
      have hhead : h.header.head? ≠ some '-' := by
        rw [show h.header.head? = some '@' from rfl]
        decide
      rw [headerFree_cons, isFileHeader_of_head? hhead]
      simp
    rw [flatMap_cons, printed, cons_append, hheader, forall_mem_cons, ← ih]
    cases hunks with
    | nil => simp [HeaderFree]
    | cons next hunks =>
      exact headerFree_append (show startsWith "+++ " next.header = false from rfl) h.body _

theorem countP_hunks :
    (hunks.flatMap printed).countP isRemoval = (hunks.flatMap body).countP isRemoval := by
  induction hunks with
  | nil => rfl
  | cons h hunks ih =>
    have hheader : isRemoval h.header = false := rfl
    simp [printed, hheader, ih]

structure State.InFile (file : Text) (s : State) : Prop where
  current : s.current = some file
  fragments : ∀ e ∈ s.fragments, e.1.file = file
  hunk : ∀ e ∈ s.hunk, e.1.file = file

theorem State.inFile_enterFile (file : Text) : (({} : State).enterFile file).InFile file :=
  ⟨rfl, by simp [enterFile, State.close], by simp [enterFile, State.close]⟩

namespace State.InFile

variable {file : Text} {h : Hunk}

theorem close (hs : s.InFile file) : s.close.InFile file where
  current := by rw [current_close, hs.current]
  hunk := by simp
  fragments := by
    rw [fragments_close]
    cases hhunk : s.hunk with
    | none => exact hs.fragments
    | some e =>
      obtain ⟨b, f⟩ := e
      simp only
      split_ifs
      · exact hs.fragments
      · intro e he
        obtain heq | ⟨e', he', heq⟩ := mem_keys_insertWith he
        · rw [heq]
          exact hs.hunk (b, f) hhunk
        · rw [← heq]
          exact hs.fragments e' he'

/-- **A hunk is read line by line**, and each line that it removes is counted. -/
theorem after_hunk (opts : Options) (hs : s.InFile file) (hwell : h.WellFormed) :
    (s.after opts (.hunk h.header :: h.body.map .edit)).InFile file ∧
      (s.after opts (.hunk h.header :: h.body.map .edit)).removed =
        s.removed + h.body.countP isRemoval := by
  have hclose := hs.close
  rw [State.after_hunk hs.current, hunkStart?_header hwell.start_le, Option.map_some]
  refine ⟨⟨hclose.current, hclose.fragments, ?_⟩, ?_⟩
  · rintro e ⟨⟩
    rfl
  · rw [← removed_close s, removed, removed, hunk_close, foldl_edit_eq, ← length_removed]
    simp

theorem after_hunks (opts : Options) (hs : s.InFile file) (hwell : ∀ h ∈ hunks, h.WellFormed) :
    (s.after opts (hunks.flatMap fun h => .hunk h.header :: h.body.map .edit)).InFile file ∧
      (s.after opts (hunks.flatMap fun h => .hunk h.header :: h.body.map .edit)).removed =
        s.removed + (hunks.flatMap body).countP isRemoval := by
  induction hunks generalizing s with
  | nil => exact ⟨hs, rfl⟩
  | cons h hunks ih =>
    obtain ⟨hfirst, hremoved⟩ := hs.after_hunk opts (hwell h mem_cons_self)
    obtain ⟨hrest, hcount⟩ := ih hfirst fun h' hh' => hwell h' (.tail _ hh')
    have happend : s.after opts ((h :: hunks).flatMap fun h => .hunk h.header :: h.body.map .edit) =
        (s.after opts (.hunk h.header :: h.body.map .edit)).after opts
          (hunks.flatMap fun h => .hunk h.header :: h.body.map .edit) := by
      rw [flatMap_cons]
      exact foldl_append
    rw [happend]
    refine ⟨hrest, ?_⟩
    rw [hcount, hremoved, flatMap_cons, countP_append, Nat.add_assoc]

end State.InFile

theorem directives_hunks (hwell : ∀ h ∈ hunks, h.WellFormed)
    (hfree : ∀ h ∈ hunks, HeaderFree h.body) :
    directives opts (hunks.flatMap printed) =
      hunks.flatMap fun h => .hunk h.header :: h.body.map .edit := by
  have hgit : ∀ line ∈ hunks.flatMap printed, line.head? ≠ some 'd' := by
    intro line hline hhead
    obtain ⟨h, hh, hmem⟩ := mem_flatMap.1 hline
    rcases mem_cons.1 hmem with rfl | hmem
    · cases hhead
    · have hmark := (hwell h hh).marked line hmem
      rw [hhead] at hmark
      exact absurd hmark (by decide)
  rw [directives_eq_map hgit (headerFree_hunks.2 hfree), map_flatMap]
  refine flatMap_congr fun h hh => ?_
  rw [printed, map_cons]
  exact congrArg _ (map_congr_left fun line hline => (hwell h hh).ofLine_eq hline)

/-- **Lines of a hunk that look like a file header.**  In a well-formed diff of one file, all edits
are in that file, and the lines that are removed are those with a dash in front, exactly if in no
hunk a line that begins with `--- ` stands before one that begins with `+++ `. -/
theorem removed_of_read_iff {old new t : Text} (hheader : isFileHeader old (some new) = true)
    (hwell : ∀ h ∈ hunks, h.WellFormed) (ht : Text.lines t = old :: new :: hunks.flatMap printed) :
    ((∀ b ∈ (read opts t).fragments.breakPoints, b.file = headerSource opts old new) ∧
      (removedLines (read opts t).fragments).length = (hunks.flatMap body).countP isRemoval) ↔
    ∀ h ∈ hunks, HeaderFree h.body := by
  obtain ⟨s, hs⟩ : ∃ s, s = ({} : State).enterFile (headerSource opts old new) := ⟨_, rfl⟩
  have hin : s.InFile (headerSource opts old new) := hs ▸ State.inFile_enterFile _
  have hzero : s.removed = 0 := hs ▸ rfl
  have hdepend : .depend ∉ directives opts (hunks.flatMap printed) := by
    refine depend_notMem_directives fun line hline => ?_
    obtain ⟨h, hh, hmem⟩ := mem_flatMap.1 hline
    rcases mem_cons.1 hmem with rfl | hmem
    · rfl
    · exact (hwell h hh).independent line hmem
  have hread : (read opts t).fragments =
      (s.after opts (directives opts (hunks.flatMap printed))).close.fragments := by
    rw [read_eq, ht, directives_header (git_of_isFileHeader hheader) hheader,
      follow_cons_of_ne (by simp),
      follow_eq_outcome opts hdepend, State.fragments_outcome, hs]
    rfl
  have hremoved : (removedLines (read opts t).fragments).length =
      (s.after opts (directives opts (hunks.flatMap printed))).removed := by
    rw [hread, ← State.removed_close, State.removed, State.hunk_close]
    rfl
  rw [hremoved]
  constructor
  · rintro ⟨-, hcount⟩
    have hle := State.removed_after_le opts s (directives opts (hunks.flatMap printed))
    have hsum := countP_directives opts (hunks.flatMap printed)
    rw [countP_hunks] at hsum
    rw [← headerFree_hunks, ← countP_isEnter_eq_zero_iff opts]
    omega
  · intro hfree
    rw [hread, directives_hunks hwell hfree]
    obtain ⟨hfile, hcount⟩ := hin.after_hunks opts hwell
    rw [hcount, hzero, Nat.zero_add]
    refine ⟨fun b hb => ?_, rfl⟩
    obtain ⟨e, he, rfl⟩ := mem_map.1 hb
    exact hfile.close.fragments e he

/-- A removed line that looks like the old name of a file, where none of a new name follows. -/
theorem removed_of_read_lookalike :
    (removedLines
      (read {} "--- a/f.c\n+++ b/f.c\n@@ -3,2 +3,1 @@\n--- x\n +++ y\n").fragments).length = 1 :=
  ((@removed_of_read_iff {} [⟨3, 2, 3, 1, ["--- x", " +++ y"]⟩] "--- a/f.c" "+++ b/f.c" _
    (by decide) (by decide) (by decide)).2 (by decide)).2

/-- Lines that look like a file header are taken for one: they are lost, and the hunk below them is
an edit of another file. -/
theorem removed_of_read_header :
    let hunks : List Hunk := [⟨1, 1, 1, 1, ["--- x.c", "+++ y.c"]⟩, ⟨5, 1, 4, 0, ["-z"]⟩]
    (∀ h ∈ hunks, h.WellFormed) ∧ (hunks.flatMap body).countP isRemoval = 2 ∧
      (Text.lines "--- a/f.c\n+++ b/f.c\n@@ -1,1 +1,1 @@\n--- x.c\n+++ y.c\n@@ -5,1 +4,0 @@\n-z\n" =
        ("--- a/f.c" : Text) :: ("+++ b/f.c" : Text) :: hunks.flatMap printed) ∧
      (read {}
        "--- a/f.c\n+++ b/f.c\n@@ -1,1 +1,1 @@\n--- x.c\n+++ y.c\n@@ -5,1 +4,0 @@\n-z\n").fragments =
        [(⟨"x.c", 5⟩, { removed := ["z"] })] := by
  decide +kernel

/-! ## A hunk in two parts -/

namespace State

theorem outcome_eq_iff {s' : State} (hsource : s.firstSource = s'.firstSource) :
    s.outcome opts = s'.outcome opts ↔ s.close.fragments = s'.close.fragments := by
  constructor
  · intro h
    rw [← fragments_outcome opts, ← fragments_outcome opts, h]
  · intro h
    simp only [outcome, source, firstSource_close, h, hsource]

theorem firstSource_follow {d : Directive} (hd : d.isEnter = false) :
    (d.follow opts s).firstSource = s.firstSource := by
  cases d with
  | enter source => cases hd
  | depend | edit line => rfl
  | leave => simp [Directive.follow, leaveFile]
  | hunk header => simp [Directive.follow, openHunk]

theorem firstSource_after {ds : List Directive} (henter : ∀ d ∈ ds, d.isEnter = false) :
    (s.after opts ds).firstSource = s.firstSource := by
  induction ds generalizing s with
  | nil => rfl
  | cons d ds ih =>
    obtain ⟨hd, hds⟩ := forall_mem_cons.1 henter
    exact (ih hds).trans (firstSource_follow hd)

end State

theorem follow_of_depend {ds : List Directive} (hdepend : .depend ∈ ds)
    (henter : ∀ d ∈ ds, d.isEnter = false) :
    follow opts ds s = .requiresRecompilation (s.source opts) := by
  induction ds generalizing s with
  | nil => cases hdepend
  | cons d ds ih =>
    by_cases hd : d = .depend
    · exact if_pos hd
    · rw [follow_cons_of_ne hd, ih ((mem_cons.1 hdepend).resolve_left (Ne.symm hd))
        fun d' hd' => henter d' (.tail _ hd'), State.source, State.source,
        State.firstSource_follow (henter d mem_cons_self)]

def addEdit (fs : Fragments) (b : BreakPoint) (f : Fragment) : Fragments :=
  if f.isEmpty = true then fs else add b f fs

theorem State.fragments_after_hunk {file : Text} (hcurrent : s.current = some file) (header : Text)
    (body : List Text) :
    (s.after opts (.hunk header :: body.map .edit)).close.fragments =
      (hunkStart? header).elim s.close.fragments fun start =>
        addEdit s.close.fragments ⟨file, start⟩ (body.foldl edit {}) := by
  rw [after_hunk hcurrent, fragments_close]
  cases hunkStart? header <;> rfl

theorem lastMark?_of_removed (h : lines.flatMap removedBy = []) : lastMark? lines = none := by
  rw [lastMark?, findSome?_eq_none_iff]
  intro line hline
  have hnone := flatMap_eq_nil_iff.1 h line (mem_reverse.1 hline)
  revert hnone
  unfold removedBy markOf?
  split <;> simp

theorem isEmpty_foldl_edit : (lines.foldl edit {}).isEmpty = true ↔
    lines.flatMap insertedBy = [] ∧ lines.flatMap removedBy = [] := by
  simp [foldl_edit_eq, Fragment.isEmpty]

theorem foldl_edit_of_isEmpty (h : (lines.foldl edit {}).isEmpty = true) (f : Fragment) :
    lines.foldl edit f = f := by
  obtain ⟨hinserted, hremoved⟩ := isEmpty_foldl_edit.1 h
  rw [foldl_edit_eq, hinserted, hremoved, lastMark?_of_removed hremoved]
  simp

/-- Two edits at one place are the edit of their lines together, unless both of them name lines to
resume at, and different ones. -/
theorem addEdit_append_iff (b : BreakPoint) (body more : List Text) :
    addEdit (addEdit [] b (body.foldl edit {})) b (more.foldl edit {}) =
        addEdit [] b ((body ++ more).foldl edit {}) ↔
      lastMark? body = none ∨ lastMark? more = none ∨ lastMark? body = lastMark? more := by
  rw [foldl_append]
  by_cases hbody : (body.foldl edit {}).isEmpty = true
  · have hmark := lastMark?_of_removed (isEmpty_foldl_edit.1 hbody).2
    rw [addEdit, foldl_edit_of_isEmpty hbody]
    simp [addEdit, Fragment.isEmpty, hmark]
  by_cases hmore : (more.foldl edit {}).isEmpty = true
  · have hmark := lastMark?_of_removed (isEmpty_foldl_edit.1 hmore).2
    rw [foldl_edit_of_isEmpty hmore (body.foldl edit {})]
    simp [addEdit, hmore, hmark]
  -- Both hunks edit something, so that the second edit is merged into the first one.
  have hadd : addEdit (addEdit [] b (body.foldl edit {})) b (more.foldl edit {}) =
      [(b, (body.foldl edit {}).merge (more.foldl edit {}))] := by
    rw [addEdit, if_neg hmore, addEdit, if_neg hbody]
    simp [Fragments.add, insertWith, Std.ReflCmp.compare_self]
  have hall : ¬ (more.foldl edit (body.foldl edit {})).isEmpty = true := by
    rw [← foldl_append, isEmpty_foldl_edit, flatMap_append, flatMap_append]
    rw [isEmpty_foldl_edit] at hbody
    simp only [append_eq_nil_iff]
    tauto
  rw [hadd, addEdit, if_neg hall, foldl_edit_eq, foldl_edit_eq, foldl_edit_eq]
  cases lastMark? body <;> cases lastMark? more <;>
    simp [Fragments.add, insertWith, Fragment.merge, eq_comm]

/-- **A hunk in two parts.**  Lines under one hunk header are read as with the header repeated among
them, unless that separates marks that name different lines to resume at: of two hunks the first
one's mark counts, in a hunk the last one. A dependency counts before all edits. -/
theorem read_split_iff {old new header whole parts : Text} {body more : List Text}
    (hfile : isFileHeader old (some new) = true) (hheader : startsWith "@@" header = true)
    (hmarked : ∀ line ∈ body ++ more, line.head? ∈ [some ' ', some '+', some '-'])
    (hfree : HeaderFree (body ++ more))
    (hwhole : Text.lines whole = old :: new :: header :: (body ++ more))
    (hparts : Text.lines parts = old :: new :: header :: (body ++ header :: more)) :
    read opts parts = read opts whole ↔
      hunkStart? header = none ∨ (∃ line ∈ body ++ more, isDependency line = true) ∨
        lastMark? body = none ∨ lastMark? more = none ∨ lastMark? body = lastMark? more := by
  have hat : header.head? = some '@' := head?_of_startsWith hheader rfl
  have hopen : Directive.ofLine header = .hunk header := if_pos hheader
  have hnone (next : Option Text) : isFileHeader header next = false :=
    isFileHeader_of_head? (by rw [hat]; decide) next
  have hnew : startsWith "+++ " header = false := by
    rw [← Bool.not_eq_true]
    intro h
    rw [head?_of_startsWith h rfl] at hat
    exact absurd hat (by decide)
  have hgit : ∀ line, line = header ∨ line ∈ body ++ more → line.head? ≠ some 'd' := by
    rintro line (rfl | hline) hd
    · rw [hat] at hd
      cases hd
    · have hmark := hmarked line hline
      rw [hd] at hmark
      exact absurd hmark (by decide)
  obtain ⟨hbody, hmore, -⟩ := isChain_append.1 hfree
  obtain ⟨s, hs⟩ : ∃ s, s = ({} : State).enterFile (headerSource opts old new) := ⟨_, rfl⟩
  have hreadWhole : read opts whole =
      follow opts (.hunk header :: (body ++ more).map .ofLine) s := by
    rw [read_eq, hwhole, directives_header (git_of_isFileHeader hfile) hfile,
      follow_cons_of_ne (by simp),
        directives_eq_map (fun line hline => hgit line (by simpa using hline))
        (headerFree_cons.2 ⟨hnone _, hfree⟩), map_cons, hopen, hs]
    rfl
  have hreadParts : read opts parts = follow opts
      (.hunk header :: body.map .ofLine ++ .hunk header :: more.map .ofLine) s := by
    rw [read_eq, hparts, directives_header (git_of_isFileHeader hfile) hfile,
      follow_cons_of_ne (by simp), directives_eq_map (fun line hline => hgit line (by grind))
        (headerFree_cons.2 ⟨hnone _, (headerFree_append hnew body more).2
          ⟨hbody, headerFree_cons.2 ⟨hnone _, hmore⟩⟩⟩), map_cons, map_append, map_cons,
      hopen, hs]
    rfl
  by_cases hdepend : ∃ line ∈ body ++ more, isDependency line = true
  · obtain ⟨line, hline, hdep⟩ := hdepend
    have hmem : .depend ∈ (body ++ more).map Directive.ofLine := by
      refine mem_map.2 ⟨line, hline, ?_⟩
      rw [Directive.ofLine_of_head? (hmarked line hline), if_pos hdep]
    have henter (lines : List Text) :
        ∀ d ∈ Directive.hunk header :: lines.map .ofLine, d.isEnter = false := by
      rintro d (_ | ⟨_, hd⟩)
      · rfl
      · obtain ⟨line, -, rfl⟩ := mem_map.1 hd
        exact Directive.isEnter_ofLine line
    refine iff_of_true ?_ (.inr (.inl ⟨line, hline, hdep⟩))
    rw [hreadWhole, hreadParts, follow_of_depend (.tail _ hmem) (henter _), follow_of_depend]
    · rw [map_append] at hmem
      simpa using hmem
    · intro d hd
      rcases mem_append.1 hd with hd | hd
      · exact henter body d hd
      · exact henter more d hd
  · have hedit {line : Text} (hline : line ∈ body ++ more) :
        Directive.ofLine line = .edit line := by
      rw [Directive.ofLine_of_head? (hmarked line hline), if_neg fun h => hdepend ⟨line, hline, h⟩]
    have hcurrent : s.current = some (headerSource opts old new) := hs ▸ rfl
    have hempty : s.close.fragments = [] := hs ▸ rfl
    rw [hreadWhole, hreadParts, map_congr_left fun line hline => hedit hline,
      map_congr_left fun line hline => hedit (mem_append_left _ hline),
      map_congr_left fun line hline => hedit (mem_append_right _ hline),
      follow_eq_outcome opts (by simp), follow_eq_outcome opts (by simp)]
    obtain ⟨s₁, hs₁⟩ : ∃ s₁, s₁ = s.after opts (.hunk header :: body.map .edit) := ⟨_, rfl⟩
    have hafter : s.after opts (.hunk header :: body.map .edit ++ .hunk header :: more.map .edit) =
        s₁.after opts (.hunk header :: more.map .edit) := hs₁ ▸ foldl_append
    have hcurrent₁ : s₁.current = some (headerSource opts old new) := by
      rw [hs₁, State.after_hunk hcurrent, ← hcurrent, ← State.current_close s]
    have hfirst : (s₁.after opts (.hunk header :: more.map .edit)).firstSource =
        (s.after opts (.hunk header :: (body ++ more).map .edit)).firstSource := by
      rw [State.firstSource_after_hunk hcurrent₁, hs₁, State.firstSource_after_hunk hcurrent,
        State.firstSource_after_hunk hcurrent]
    rw [hafter, State.outcome_eq_iff hfirst, State.fragments_after_hunk hcurrent₁, hs₁,
      State.fragments_after_hunk hcurrent, State.fragments_after_hunk hcurrent, hempty]
    cases hunkStart? header with
    | none => simp
    | some start =>
      simp only [Option.elim_some, addEdit_append_iff, reduceCtorEq, hdepend, false_or]

theorem read_split_marks :
    read {}
        "--- a/f.c\n+++ b/f.c\n@@ -3 +3 @@\n-a /* jump: 7 */\n@@ -3 +3 @@\n+x\n-b /* jump: 7 */\n" =
      read {} "--- a/f.c\n+++ b/f.c\n@@ -3 +3 @@\n-a /* jump: 7 */\n+x\n-b /* jump: 7 */\n" :=
  (@read_split_iff {} "--- a/f.c" "+++ b/f.c" "@@ -3 +3 @@" _ _ ["-a /* jump: 7 */"]
    ["+x", "-b /* jump: 7 */"] (by decide) (by decide) (by decide)
    (by decide) (by decide) (by decide)).2 (by decide)

/-- Marks for different lines: the last one of a hunk, but the first one of two hunks. -/
theorem read_split_differs :
    read {} "--- a/f.c\n+++ b/f.c\n@@ -3 +3 @@\n-a /* jump: 7 */\n-b /* jump: 9 */\n" =
        .parsed "f.c" [(⟨"f.c", 3⟩,
          { removed := ["a /* jump: 7 */", "b /* jump: 9 */"], jumpLine := some 9 })] ∧
      read {}
          "--- a/f.c\n+++ b/f.c\n@@ -3 +3 @@\n-a /* jump: 7 */\n@@ -3 +3 @@\n-b /* jump: 9 */\n" =
        .parsed "f.c" [(⟨"f.c", 3⟩,
          { removed := ["a /* jump: 7 */", "b /* jump: 9 */"], jumpLine := some 7 })] := by
  decide +kernel

end Diff

end PatchTriage
