import PatchTriage.Proofs.DiffFiles
import PatchTriage.Proofs.Texts

/-!
# Writing a diff and reading it

Any text may stand in an edit, also one that looks like a header or a mark, so it has to be shown
that no line is taken for another.
-/

namespace PatchTriage

open List Text BreakPoint Fragments Option

/-! ## Lines -/

theorem Text.lines_cons {line : Text} (hfeed : '\n' ∉ line) (hreturn : '\r' ∉ line) (t : Text) :
    lines (line ++ '\n' :: t) = line :: lines t := by
  have hlast : line.getLast? ≠ some '\r' := fun h => hreturn (mem_of_getLast? h)
  have hself : dropReturn line = line := by
    rw [dropReturn]
    split
    · exact absurd ‹_› hlast
    · rfl
  have hline : lines (line ++ ['\n']) = [line] := by
    have hpieces : splitOn '\n' (line ++ ['\n']) = [line, []] := by
      rw [splitOn_append, splitOn_of_not_mem hfeed]
      rfl
    simp [lines, hpieces, hself]
  have happend : line ++ '\n' :: t = (line ++ ['\n']) ++ t := by simp
  rw [happend, lines_append (.inr (by simp)), hline, singleton_append]

def Text.ofLines (lines : List Text) : Text := (lines.map (· ++ ['\n'])).flatten

theorem Text.lines_ofLines {lines : List Text} (h : ∀ line ∈ lines, '\n' ∉ line ∧ '\r' ∉ line) :
    Text.lines (ofLines lines) = lines := by
  induction lines with
  | nil => rfl
  | cons line lines ih =>
    have hline := h line mem_cons_self
    have happend : ofLines (line :: lines) = line ++ '\n' :: ofLines lines := by simp [ofLines]
    rw [happend, lines_cons hline.1 hline.2, ih fun l hl => h l (mem_cons_of_mem _ hl)]

/-! ## Lists in order -/

namespace SortedList

variable {κ ν : Type} {cmp : κ → κ → Ordering} {m m' : List (κ × ν)}

theorem insertWith_perm {join : ν → ν → ν} {k : κ} {v : ν} (h : ∀ e ∈ m, cmp k e.1 ≠ .eq) :
    (insertWith cmp join k v m).Perm ((k, v) :: m) := by
  induction m with
  | nil => exact .refl _
  | cons first m ih =>
    obtain ⟨k₀, v₀⟩ := first
    rw [insertWith]
    cases hk : cmp k k₀ with
    | lt => exact .refl _
    | eq => exact absurd hk (h (k₀, v₀) mem_cons_self)
    | gt => exact ((ih fun e he => h e (mem_cons_of_mem _ he)).cons _).trans (.swap _ _ _)

theorem Ascending.eq_of_perm [Std.TransCmp cmp] (h : Ascending cmp m) (h' : Ascending cmp m')
    (hperm : m.Perm m') : m = m' := by
  refine hperm.eq_of_pairwise ?_ h h'
  intro a b _ _ hab hba
  have hself := Std.TransCmp.lt_trans hab hba
  simp [Std.ReflCmp.compare_self] at hself

/-- Entries with different keys, inserted one by one, are put in order. -/
theorem foldl_insertWith_eq [Std.TransCmp cmp] [Std.LawfulEqCmp cmp] (join : ν → ν → ν)
    {entries : List (κ × ν)} (hm : Ascending cmp m) (hm' : Ascending cmp m')
    (hperm : (entries ++ m).Perm m') :
    entries.foldl (fun m e => insertWith cmp join e.1 e.2 m) m = m' := by
  induction entries generalizing m with
  | nil => exact hm.eq_of_perm hm' hperm
  | cons e entries ih =>
    have hkeys : (m'.map Prod.fst).Nodup := by
      refine (pairwise_map.2 (hm'.imp fun {a b} hab => ?_))
      rintro heq
      simp [heq, Std.ReflCmp.compare_self] at hab
    have hnew : ∀ e' ∈ m, cmp e.1 e'.1 ≠ .eq := by
      intro e' he' heq
      have hnodup := (hperm.map Prod.fst).nodup_iff.2 hkeys
      rw [cons_append, map_cons, nodup_cons] at hnodup
      refine hnodup.1 (mem_map.2 ⟨e', mem_append_right _ he', ?_⟩)
      exact (Std.LawfulEqCmp.eq_of_compare heq).symm
    refine ih (hm.insertWith join e.1 e.2) (.trans ?_ hperm)
    exact ((insertWith_perm hnew).append_left entries).trans perm_middle

end SortedList

theorem foldl_add_eq {entries fs m : Fragments} (hfs : fs.Ascending) (hm : m.Ascending)
    (hperm : (entries ++ fs).Perm m) :
    entries.foldl (fun fs e => add e.1 e.2 fs) fs = m :=
  SortedList.foldl_insertWith_eq Fragment.merge hfs hm hperm

theorem Inserted.split_eq_singleton {t : Text} (h : ';' ∉ t) : Inserted.split t = [t] := if_pos h

namespace Diff

/-! ## Writing -/

def hunkHeader (line : Nat) : Text :=
  ("@@ -" : Text) ++ ofNat line ++ (" +" : Text) ++ ofNat line ++ (" @@" : Text)

/-- The lines that write an edit: those that it removes, then those that it inserts. -/
def editLines (f : Fragment) : List Text := f.removed.map ('-' :: ·) ++ f.inserted.map ('+' :: ·)

/-- The lines that write an edit at a break point, with a file header of their own. -/
def entryLines (e : BreakPoint × Fragment) : List Text :=
  (("--- a/" : Text) ++ e.1.file) :: (("+++ b/" : Text) ++ e.1.file) :: hunkHeader e.1.line
    :: editLines e.2

def render (entries : List (BreakPoint × Fragment)) : Text := ofLines (entries.flatMap entryLines)

/-- What can be written into headers: a file without directories, white space and backup marks, and
one of its lines. -/
structure WritablePlace (b : BreakPoint) : Prop where
  file_ne_nil : b.file ≠ []
  slash_notMem : '/' ∉ b.file
  isBlank_file : ∀ c ∈ b.file, isBlank c = false
  backup : contains "_bk" b.file = false
  line_pos : 1 ≤ b.line
  line_le : b.line ≤ maxLine

/-- What can be written as edit lines. The entries are single lines, an inserted one is a single
statement that adds no dependency, and the edit does not have two lines that look like a file
header. Execution resumes where the last mark in the removed lines says. -/
structure WritableEdit (f : Fragment) : Prop where
  nonempty : f.isEmpty = false
  removed_line : ∀ t ∈ f.removed, '\n' ∉ t ∧ '\r' ∉ t
  inserted_line : ∀ t ∈ f.inserted, '\n' ∉ t ∧ '\r' ∉ t
  semicolon_notMem : ∀ t ∈ f.inserted, ';' ∉ t
  no_include : ∀ t ∈ f.inserted, contains "#include" t = false
  no_import : ∀ t ∈ f.inserted, startsWith "import " (trimStart t) = false
  no_header : ∀ old ∈ f.removed.getLast?, ∀ new ∈ f.inserted.head?,
    ¬ (startsWith "-- " old = true ∧ startsWith "++ " new = true)
  jumpLine : f.jumpLine = f.removed.reverse.findSome? jumpMark?

/-! ## Headers -/

theorem headerName_render (mark : Text) {file : Text} (hblank : ∀ c ∈ file, isBlank c = false) :
    headerName mark (mark ++ file) = file := by
  have htab : '\t' ∉ file := fun h => absurd (hblank '\t' h) (by decide)
  rw [headerName, dropHead?_append, getD_some, before_eq_self htab, trim_eq_self hblank]

theorem sourceName_render {file : Text} (hslash : '/' ∉ file)
    (hbackup : contains "_bk" file = false) : sourceName false (("a/" : Text) ++ file) = file := by
  have hsrc : dropHead? "a/src/" (("a/" : Text) ++ file) = none := by
    rw [dropHead?_eq_none_iff]
    rintro ⟨rest, hrest⟩
    refine hslash ?_
    have hfile : file = ("src/" : Text) ++ rest := by simpa using hrest.symm
    simp [hfile]
  have hbsrc : dropHead? "b/src/" (("a/" : Text) ++ file) = none := rfl
  rw [sourceName]
  simp only [dropFirstOf, hsrc, hbsrc, dropHead?_append, getD_none, getD_some,
    Bool.false_eq_true, if_false, afterLast_eq_self hslash]
  exact replace_eq_self [] hbackup

/-- **The file of a written header.** -/
theorem headerSource_render {b : BreakPoint} (hb : WritablePlace b) :
    headerSource {} (("--- a/" : Text) ++ b.file) (("+++ b/" : Text) ++ b.file) = b.file := by
  have hdirectory : ∀ c ∈ ("a/" : Text), isBlank c = false := isBlank_of_all (by decide)
  have hname : headerName "--- " (("--- a/" : Text) ++ b.file) = ("a/" : Text) ++ b.file := by
    have hblank : ∀ c ∈ ("a/" : Text) ++ b.file, isBlank c = false := by
      intro c hc
      rcases mem_append.1 hc with hc | hc
      · exact hdirectory c hc
      · exact hb.isBlank_file c hc
    exact headerName_render "--- " hblank
  rw [headerSource]
  simp only [hname]
  rw [if_neg (by simp), sourceName_render hb.slash_notMem hb.backup]

/-- The first line of the old range, which a comma and more may follow. -/
theorem hunkStart?_range {line : Nat} (hle : line ≤ maxLine) {more : Text}
    (hmore : ∀ c ∈ more, isBlank c = false) (hcut : before ',' more = []) (rest : Text) :
    hunkStart? (("@@ -" : Text) ++ ofNat line ++ (more ++ ' ' :: rest)) = some (max line 1) := by
  have hdigit : ∀ c ∈ '-' :: (ofNat line ++ more), isBlank c = false := by
    intro c hc
    rcases mem_cons.1 hc with rfl | hc
    · decide
    · rcases mem_append.1 hc with hc | hc
      · exact isBlank_of_isDigit (isDigit_of_mem_ofNat hc)
      · exact hmore c hc
  have hwords : words (("@@ -" : Text) ++ ofNat line ++ (more ++ ' ' :: rest)) =
      ("@@" : Text) :: ('-' :: (ofNat line ++ more)) :: words rest := by
    have hparts : ("@@ -" : Text) ++ ofNat line ++ (more ++ ' ' :: rest) =
        ("@@" : Text) ++ ' ' :: (('-' :: (ofNat line ++ more)) ++ ' ' :: rest) := by
      simp only [append_assoc, cons_append]
      rfl
    rw [hparts, words_append (by simp) (isBlank_of_all (by decide)) (by decide),
      words_append (by simp) hdigit (by decide)]
  have hcomma : before ',' (ofNat line ++ more) = ofNat line := by
    have hnone : ∀ c ∈ ofNat line, decide (c ≠ ',') = true := by
      intro c hc
      refine decide_eq_true ?_
      rintro rfl
      exact absurd (isDigit_of_mem_ofNat hc) (by decide)
    rw [before] at hcut ⊢
    rw [takeWhile_append_of_pos hnone, hcut, append_nil]
  have hminus : (('-' :: (ofNat line ++ more) : Text).dropWhile (· = '-')) =
      ofNat line ++ more := by
    cases hd : ofNat line with
    | nil => exact absurd hd (ofNat_ne_nil line)
    | cons c t =>
      have hc : c ≠ '-' := by
        rintro rfl
        exact absurd (isDigit_of_mem_ofNat (n := line) (c := '-') (by simp [hd])) (by decide)
      simp [hc]
  have hfind : (("@@" : Text) :: ('-' :: (ofNat line ++ more)) :: words rest).find?
      (startsWith "-") = some ('-' :: (ofNat line ++ more)) := rfl
  have hread : readBelow? (maxLine + 1) (ofNat line) = some line := readBelow?_ofNat (by omega)
  simp only [hunkStart?, hwords, hfind, hminus, hcomma, hread, bind_eq_bind, bind_some, pure]

/-- **The line of a written hunk header.** -/
theorem hunkStart?_render {line : Nat} (hpos : 1 ≤ line) (hle : line ≤ maxLine) :
    hunkStart? (hunkHeader line) = some line := by
  have hheader : hunkHeader line = ("@@ -" : Text) ++ ofNat line ++
      ([] ++ ' ' :: ('+' :: ofNat line ++ (" @@" : Text))) := by
    unfold hunkHeader
    simp only [append_assoc]
    rfl
  rw [hheader, hunkStart?_range hle (by simp) rfl, Nat.max_eq_left hpos]

/-! ## What the lines say -/

theorem line_of_mem_entryLines {e : BreakPoint × Fragment} (hb : WritablePlace e.1)
    (hf : WritableEdit e.2) {line : Text} (hline : line ∈ entryLines e) : '\n' ∉ line ∧
      '\r' ∉ line := by
  have hplain : ∀ c, isBlank c = true → c ∉ e.1.file ∧ c ∉ ofNat e.1.line := by
    intro c hc
    refine ⟨fun h => ?_, fun h => ?_⟩
    · exact absurd (hb.isBlank_file c h) (by simp [hc])
    · exact absurd (isBlank_of_isDigit (isDigit_of_mem_ofNat h)) (by simp [hc])
  obtain ⟨hfile, hnumber⟩ := hplain '\n' rfl
  obtain ⟨hfile', hnumber'⟩ := hplain '\r' rfl
  simp only [entryLines, editLines, mem_cons, mem_append, List.mem_map] at hline
  rcases hline with rfl | rfl | rfl | ⟨t, ht, rfl⟩ | ⟨t, ht, rfl⟩
  · simp [hfile, hfile']
  · simp [hfile, hfile']
  · unfold hunkHeader
    simp [hnumber, hnumber']
  · simpa using hf.removed_line t ht
  · simpa using hf.inserted_line t ht

def editDirectives (f : Fragment) : List Directive := (editLines f).map .edit

def entryDirectives (e : BreakPoint × Fragment) : List Directive :=
  .enter e.1.file :: .hunk (hunkHeader e.1.line) :: editDirectives e.2

theorem directives_inserted (opts : Options) {inserted : List Text}
    (hinclude : ∀ t ∈ inserted, contains "#include" t = false)
    (himport : ∀ t ∈ inserted, startsWith "import " (trimStart t) = false) :
    directives opts (inserted.map ('+' :: ·)) = (inserted.map ('+' :: ·)).map .edit := by
  induction inserted with
  | nil => rfl
  | cons t inserted ih =>
    have hadds : addsDependency t = false := by
      rw [addsDependency, hinclude t mem_cons_self, himport t mem_cons_self, Bool.or_self]
    have hdepend : isDependency ('+' :: t) = false := by rw [isDependency, hadds, Bool.and_false]
    rw [map_cons, directives_other rfl rfl, map_cons, Directive.ofLine, hdepend,
      ih (fun s hs => hinclude s (mem_cons_of_mem _ hs)) fun s hs =>
        himport s (mem_cons_of_mem _ hs)]
    rfl

/-- A removed line can be taken for the first line of a file header only if it is the last one. -/
theorem directives_removed (opts : Options) {removed : List Text} {rest : List Text}
    (hrest : ∀ old ∈ removed.getLast?, ∀ new ∈ rest.head?,
      ¬ (startsWith "-- " old = true ∧ startsWith "+++ " new = true)) :
    directives opts (removed.map ('-' :: ·) ++ rest) =
      (removed.map ('-' :: ·)).map .edit ++ directives opts rest := by
  induction removed with
  | nil => rfl
  | cons t removed ih =>
    have hheader : isFileHeader ('-' :: t) (removed.map ('-' :: ·) ++ rest).head? = false := by
      cases removed with
      | cons s removed => exact Bool.and_false _
      | nil =>
        cases rest with
        | nil => simp [isFileHeader]
        | cons new rest =>
          have hold := hrest t rfl new rfl
          rw [← Bool.not_eq_true]
          intro h
          simp only [isFileHeader, map_nil, nil_append, head?_cons, map_some,
            getD_some, Bool.and_eq_true] at h
          exact hold h
    have hlast : ∀ old ∈ removed.getLast?, old ∈ (t :: removed).getLast? := by
      intro old hold
      cases removed with
      | nil => cases hold
      | cons s removed => rwa [getLast?_cons_cons]
    rw [map_cons, cons_append, directives_other rfl hheader,
      ih fun old hold => hrest old (hlast old hold)]
    rfl

theorem directives_editLines (opts : Options) {f : Fragment} (hf : WritableEdit f) :
    directives opts (editLines f) = editDirectives f := by
  have hheader : ∀ old ∈ f.removed.getLast?, ∀ new ∈ (f.inserted.map ('+' :: ·)).head?,
      ¬ (startsWith "-- " old = true ∧ startsWith "+++ " new = true) := by
    intro old hold new hnew
    rw [head?_map] at hnew
    obtain ⟨t, ht, rfl⟩ := map_eq_some_iff.1 hnew
    exact hf.no_header old hold t ht
  rw [editDirectives, editLines, directives_removed opts hheader,
    directives_inserted opts hf.no_include hf.no_import, map_append]

/-- **What a written entry says.** -/
theorem directives_entryLines {e : BreakPoint × Fragment} (hb : WritablePlace e.1)
    (hf : WritableEdit e.2) : directives {} (entryLines e) = entryDirectives e := by
  rw [entryLines, directives_header rfl rfl, headerSource_render hb, directives_other rfl rfl,
    directives_editLines {} hf]
  rfl

/-- The lines say what they were written for. -/
theorem directives_render {entries : List (BreakPoint × Fragment)}
    (h : ∀ e ∈ entries, WritablePlace e.1 ∧ WritableEdit e.2) :
    directives {} (entries.flatMap entryLines) = entries.flatMap entryDirectives := by
  induction entries with
  | nil => rfl
  | cons e entries ih =>
    obtain ⟨hb, hf⟩ := h e mem_cons_self
    have ih' := ih fun e' he' => h e' (mem_cons_of_mem _ he')
    rw [flatMap_cons, flatMap_cons]
    cases entries with
    | nil => simpa using directives_entryLines hb hf
    | cons e' entries =>
      -- The next entry begins with `---`, so no header of this one reaches over to it.
      have happend : directives {} (entryLines e ++ (e' :: entries).flatMap entryLines) =
          directives {} (entryLines e) ++ directives {} ((e' :: entries).flatMap entryLines) :=
        directives_append {} rfl (entryLines e) ((entryLines e').tail ++ entries.flatMap entryLines)
      rw [happend, ih', directives_entryLines hb hf]

/-! ## Reading -/

theorem foldl_edit_removed (removed : List Text) (g : Fragment) :
    (removed.map ('-' :: ·)).foldl edit g =
      { g with
        removed := g.removed ++ removed
        jumpLine := removed.reverse.findSome? jumpMark? <|> g.jumpLine } := by
  induction removed generalizing g with
  | nil => simp
  | cons t removed ih =>
    rw [map_cons, foldl_cons, ih, edit]
    simp [findSome?_append, Option.or_assoc]

theorem foldl_edit_inserted {inserted : List Text} (h : ∀ t ∈ inserted, ';' ∉ t) (g : Fragment) :
    (inserted.map ('+' :: ·)).foldl edit g = { g with inserted := g.inserted ++ inserted } := by
  induction inserted generalizing g with
  | nil => simp
  | cons t inserted ih =>
    rw [map_cons, foldl_cons, ih fun s hs => h s (mem_cons_of_mem _ hs), edit,
      Inserted.split_eq_singleton (h t mem_cons_self)]
    simp

theorem foldl_edit_editLines {f : Fragment} (hf : WritableEdit f) :
    (editLines f).foldl edit {} = f := by
  rw [editLines, foldl_append, foldl_edit_removed, foldl_edit_inserted hf.semicolon_notMem]
  simp [← hf.jumpLine]

namespace State

@[simp] theorem firstSource_close (s : State) : s.close.firstSource = s.firstSource := by
  rw [close]
  split <;> rfl

theorem after_edits (opts : Options) (lines : List Text) (s : State) :
    s.after opts (lines.map .edit) =
      { s with hunk := s.hunk.map fun entry => (entry.1, lines.foldl edit entry.2) } := by
  induction lines generalizing s with
  | nil => simp [after]
  | cons line lines ih =>
    have hstep : s.after opts ((line :: lines).map .edit) =
        (s.editHunk line).after opts (lines.map .edit) := rfl
    rw [hstep, ih]
    simp [editHunk, Function.comp_def]

theorem close_eq_self {s : State} (h : s.hunk = none) : s.close = s := by rw [close, h]

theorem after_entryDirectives {e : BreakPoint × Fragment} (hb : WritablePlace e.1)
    (hf : WritableEdit e.2) (s : State) :
    s.after {} (entryDirectives e) = { s.close with
        firstSource := s.firstSource <|> some e.1.file
        current := some e.1.file
        hunk := some e } := by
  have hopen : (s.enterFile e.1.file).openHunk {} (hunkHeader e.1.line) = { s.close with
        firstSource := s.firstSource <|> some e.1.file
        current := some e.1.file
        hunk := some (e.1, {}) } := by
    have hclosed : (s.enterFile e.1.file).close = s.enterFile e.1.file :=
      close_eq_self (hunk_close s)
    simp only [openHunk, hclosed, hunkStart?_render hb.line_pos hb.line_le, map_some]
    rfl
  have hsteps : s.after {} (entryDirectives e) =
      ((s.enterFile e.1.file).openHunk {} (hunkHeader e.1.line)).after {}
        ((editLines e.2).map .edit) :=
    rfl
  rw [hsteps, hopen, after_edits, map_some, foldl_edit_editLines hf]

variable {entries : List (BreakPoint × Fragment)}

theorem after_entries_cons (e : BreakPoint × Fragment) (s : State) :
    s.after {} ((e :: entries).flatMap entryDirectives) =
      (s.after {} (entryDirectives e)).after {} (entries.flatMap entryDirectives) := by
  rw [flatMap_cons]
  exact foldl_append

/-- **What the reader of written entries has read**, in the order they were written in. -/
theorem fragments_after_entries (h : ∀ e ∈ entries, WritablePlace e.1 ∧
    WritableEdit e.2) (s : State) :
    (s.after {} (entries.flatMap entryDirectives)).close.fragments =
      entries.foldl (fun fs e => add e.1 e.2 fs) s.close.fragments := by
  induction entries generalizing s with
  | nil => rfl
  | cons e entries ih =>
    obtain ⟨hb, hf⟩ := h e mem_cons_self
    have hfragments : (s.after {} (entryDirectives e)).close.fragments =
        add e.1 e.2 s.close.fragments := by
      rw [after_entryDirectives hb hf, fragments_close]
      simp [hf.nonempty]
    rw [after_entries_cons, ih fun e' he' => h e' (mem_cons_of_mem _ he'), hfragments, foldl_cons]

theorem firstSource_after_entries (h : ∀ e ∈ entries, WritablePlace e.1 ∧
    WritableEdit e.2) (s : State) :
    (s.after {} (entries.flatMap entryDirectives)).firstSource =
      (s.firstSource <|> entries.head?.map fun e => e.1.file) := by
  induction entries generalizing s with
  | nil => simp [after]
  | cons e entries ih =>
    obtain ⟨hb, hf⟩ := h e mem_cons_self
    rw [after_entries_cons, ih fun e' he' => h e' (mem_cons_of_mem _ he'),
      after_entryDirectives hb hf]
    cases s.firstSource <;> simp

end State

/-- **Reading undoes writing.** The edits of `m` are written one after another in any order, each
under a file header of its own. Reading them gives `m` again, and the file of the first of them. -/
theorem read_render {m : Fragments} (hm : m.Ascending)
    (hwritable : ∀ e ∈ m, WritablePlace e.1 ∧ WritableEdit e.2) (first : BreakPoint × Fragment)
    (rest : List (BreakPoint × Fragment)) (hperm : (first :: rest).Perm m) :
    read {} (render (first :: rest)) = .parsed first.1.file m := by
  have hentries : ∀ e ∈ first :: rest, WritablePlace e.1 ∧ WritableEdit e.2 :=
    fun e he => hwritable e (hperm.mem_iff.1 he)
  have hlines : Text.lines (render (first :: rest)) = (first :: rest).flatMap entryLines := by
    refine Text.lines_ofLines fun line hline => ?_
    obtain ⟨e, he, hmem⟩ := mem_flatMap.1 hline
    exact line_of_mem_entryLines (hentries e he).1 (hentries e he).2 hmem
  have hdepend : .depend ∉ (first :: rest).flatMap entryDirectives := by
    simp [entryDirectives, editDirectives]
  have hfragments : (({} : State).after {}
      ((first :: rest).flatMap entryDirectives)).close.fragments = m := by
    have hstart : ({} : State).close.fragments = [] := rfl
    rw [State.fragments_after_entries hentries, hstart]
    exact foldl_add_eq Pairwise.nil hm (by simpa using hperm)
  have hne : m ≠ [] := by
    rintro rfl
    simp at hperm
  have hsource : (({} : State).after {} ((first :: rest).flatMap entryDirectives)).close.source {} =
      first.1.file := by
    rw [State.source, State.firstSource_close, State.firstSource_after_entries hentries]
    rfl
  rw [read_eq, hlines, directives_render hentries, follow_eq_outcome {} hdepend, State.outcome]
  simp only [hfragments, hsource]
  rw [if_neg (by simpa using hne)]

def lookalikes : Fragments :=
  [(⟨"f.c", 3⟩,
      { inserted := ["++ b/g.c", "@@ -9 +9 @@", "diff --git"]
        removed := ["-- a/g.c", "- goto out; /* jump: 31 */"]
        jumpLine := some 31 }),
    (⟨"g.c", 4294967295⟩, { removed := ["-- a/g.c"] })]

theorem read_render_lookalikes :
    lookalikes.Ascending ∧ (∀ e ∈ lookalikes, WritablePlace e.1 ∧ WritableEdit e.2) ∧
    read {} (render lookalikes.reverse) = .parsed "g.c" lookalikes := by
  have hm : lookalikes.Ascending := by
    simp only [Ascending, SortedList.Ascending, lookalikes]
    decide +kernel
  have hwritable : ∀ e ∈ lookalikes, WritablePlace e.1 ∧ WritableEdit e.2 := by
    intro e he
    simp only [lookalikes, mem_cons, not_mem_nil, or_false] at he
    rcases he with rfl | rfl <;>
      refine ⟨⟨?_, ?_, Text.isBlank_of_all ?_, ?_, ?_, ?_⟩, ⟨?_, ?_, ?_, ?_, ?_, ?_, ?_, ?_⟩⟩ <;>
      decide +kernel
  refine ⟨hm, hwritable, ?_⟩
  exact read_render hm hwritable (lookalikes.get ⟨1, by decide⟩) [lookalikes.get ⟨0, by decide⟩]
    (reverse_perm lookalikes)

example : render [(⟨"f.c", 3⟩, { inserted := ["x = 2"], removed := ["x = 1;"] })] =
    ("--- a/f.c\n+++ b/f.c\n@@ -3 +3 @@\n-x = 1;\n+x = 2\n" : Text) := by
  decide +kernel

end Diff

end PatchTriage
