import Mathlib.Algebra.Group.Nat.Defs
import PatchTriage.Proofs.CommandTexts
import PatchTriage.Proofs.DiffRendering
import PatchTriage.Proofs.SettingsTexts
import PatchTriage.Ranking.Coverage

/-!
# Coverage reports

A coverage is reported by a line `edge:count` for each of its edges, in any order and with any white
space around the two. Other lines may stand between them.
-/

namespace PatchTriage

open List Text

theorem Text.splitOn_join {texts : List Text} (hne : texts ≠ []) (h : ∀ t ∈ texts, '\n' ∉ t) :
    splitOn '\n' (join ['\n'] texts) = texts := by
  induction texts with
  | nil => exact absurd rfl hne
  | cons t texts ih =>
    have ht := splitOn_of_not_mem (h t mem_cons_self)
    cases texts with
    | nil => simpa [join, intercalate] using ht
    | cons t' texts =>
      rw [join_cons_cons, singleton_append, splitOn_append, ht,
        ih (by simp) fun s hs => h s (mem_cons_of_mem _ hs), singleton_append]

namespace Coverage

/-! ## One line -/

/-- A line is read at its first colon. -/
theorem parseLine?_cut {edge : Text} (hedge : ':' ∉ edge) (count : Text) :
    parseLine? (edge ++ ':' :: count) =
      (readBelow? Word.bound (trim count)).map (trim edge, ·) := by
  obtain ⟨a, b, ha, hb, hline, -⟩ := exists_trim (edge ++ ':' :: count)
  have hcolon {t : Text} (ht : ∀ c ∈ t, isBlank c = true) : ':' ∉ t :=
    fun h => absurd (ht _ h) (by decide)
  -- the colon is not trimmed away, so the two parts only lose white space
  have hmem : ':' ∈ trim (edge ++ ':' :: count) := by
    have hall : ':' ∈ a ++ trim (edge ++ ':' :: count) ++ b := hline ▸ by simp
    simpa [hcolon ha, hcolon hb] using hall
  obtain ⟨edge', count', htrim, hedge'⟩ := eq_append_cons_of_mem hmem
  have hparts : edge ++ ':' :: count = (a ++ edge') ++ ':' :: (count' ++ b) := by
    rw [hline, htrim]
    simp
  obtain ⟨rfl, rfl⟩ := append_cons_inj hedge (by simp [hcolon ha, hedge']) hparts
  have htrimEdge := trim_between ha (b := []) (by simp) edge'
  have htrimCount := trim_between (a := []) (by simp) hb count'
  rw [append_nil] at htrimEdge
  rw [nil_append] at htrimCount
  rw [parseLine?, cut?_eq_some_iff.2 ⟨htrim, hedge'⟩, htrimEdge, htrimCount]
  change (do return (trim edge', ← readBelow? Word.bound (trim count'))) = _
  cases readBelow? Word.bound (trim count') <;> rfl

theorem parseLine?_of_not_mem {line : Text} (h : ':' ∉ line) : parseLine? line = none := by
  have hcut : cut? ':' (trim line) = none := by
    rw [Option.eq_none_iff_forall_ne_some]
    rintro ⟨a, b⟩ hab
    refine h (trim_subset line ?_)
    rw [(cut?_eq_some_iff.1 hab).1]
    simp
  rw [parseLine?, hcut]
  rfl

theorem parseLine?_dropReturn (line : Text) : parseLine? (dropReturn line) = parseLine? line := by
  rw [parseLine?, parseLine?, trim_dropReturn]

/-- The last line counts whether or not a line feed ends it. -/
theorem filterMap_lines (t : Text) :
    (lines t).filterMap parseLine? = (Text.splitOn '\n' t).filterMap parseLine? := by
  have hended (pieces : List Text) :
      (pieces.map dropReturn).filterMap parseLine? = pieces.filterMap parseLine? := by
    simp [filterMap_map, parseLine?_dropReturn]
  obtain ⟨pieces, last, hpieces⟩ :=
    eq_nil_or_concat (Text.splitOn '\n' t) |>.resolve_left (splitOn_ne_nil '\n' t)
  rw [lines, hpieces]
  cases last with
  | nil => simp [hended, parseLine?_of_not_mem]
  | cons c last => simp [hended]

/-! ## Reports -/

/-- A line of a report: an entry, with what stands before and after its edge and its count, or some
other text. -/
inductive Line where
  | entry (e : Text × Nat) (before after before' after' : Text)
  | noise (t : Text)

namespace Line

def text : Line → Text
  | entry e before after before' after' =>
    before ++ e.1 ++ after ++ ':' :: (before' ++ ofNat e.2 ++ after')
  | noise t => t

def entry? : Line → Option (Text × Nat)
  | entry e _ _ _ _ => some e
  | noise _ => none

/-- White space surrounds the parts of an entry. Other text has no colon, or no number of 64 bits
behind the first one. -/
def WellFormed : Line → Prop
  | entry _ before after before' after' =>
    ∀ t ∈ [before, after, before', after'], ∀ c ∈ t, isBlank c = true ∧ c ≠ '\n'
  | noise t => '\n' ∉ t ∧ ∀ edge count n, t = edge ++ ':' :: count → ':' ∉ edge →
      Numeral n (trim count) → 2 ^ 64 ≤ n

end Line

/-- An entry that a line can hold. -/
structure Writable (e : Text × Nat) : Prop where
  count_lt : e.2 < 2 ^ 64
  colon_notMem : ':' ∉ e.1
  feed_notMem : '\n' ∉ e.1
  isBlank_head : ∀ c ∈ e.1.head?, isBlank c = false
  isBlank_getLast : ∀ c ∈ e.1.getLast?, isBlank c = false

/-- Other text is what gives no entry. -/
theorem wellFormed_noise_iff {t : Text} :
    (Line.noise t).WellFormed ↔ '\n' ∉ t ∧ parseLine? t = none := by
  refine and_congr_right fun _ => ⟨fun hnoise => ?_, fun hnone edge count n ht hedge hn => ?_⟩
  · by_cases ht : ':' ∈ t
    · obtain ⟨edge, count, rfl, hedge⟩ := eq_append_cons_of_mem ht
      have hread : readBelow? Word.bound (trim count) = none := by
        rw [Option.eq_none_iff_forall_ne_some]
        intro n hn
        obtain ⟨hnumeral, hlt⟩ := readBelow?_eq_some_iff.1 hn
        exact absurd (hnoise edge count n rfl hedge hnumeral) (Nat.not_le.2 hlt)
      rw [parseLine?_cut hedge, hread]
      rfl
    · exact parseLine?_of_not_mem ht
  · by_contra hlt
    have hread : readBelow? Word.bound (trim count) = some n :=
      readBelow?_eq_some_iff.2 ⟨hn, Nat.not_le.1 hlt⟩
    rw [ht, parseLine?_cut hedge, hread] at hnone
    cases hnone

theorem feed_notMem_text {l : Line} (hl : l.WellFormed) (he : ∀ e ∈ l.entry?, Writable e) :
    '\n' ∉ l.text := by
  cases l with
  | noise t => exact hl.1
  | entry e before after before' after' =>
    have hblank {t : Text} (ht : t ∈ [before, after, before', after']) : '\n' ∉ t :=
      fun h => (hl t ht _ h).2 rfl
    have hcount : '\n' ∉ ofNat e.2 := fun h => absurd (isDigit_of_mem_ofNat h) (by decide)
    simp only [Line.text, mem_append, mem_cons, not_or]
    exact ⟨⟨⟨hblank (by simp), (he e rfl).feed_notMem⟩, hblank (by simp)⟩, by decide,
      ⟨hblank (by simp), hcount⟩, hblank (by simp)⟩

theorem parseLine?_text {l : Line} (hl : l.WellFormed) (he : ∀ e ∈ l.entry?, Writable e) :
    parseLine? l.text = l.entry? := by
  cases l with
  | entry e before after before' after' =>
    obtain ⟨hcount, hcolon, -, hfirst, hlast⟩ := he e rfl
    have hread : readBelow? Word.bound (ofNat e.2) = some e.2 := readBelow?_ofNat hcount
    have hblank {t : Text} (ht : t ∈ [before, after, before', after']) :
        ∀ c ∈ t, isBlank c = true :=
      fun c hc => (hl t ht c hc).1
    have hnot {t : Text} (ht : t ∈ [before, after, before', after']) : ':' ∉ t :=
      fun h => absurd (hblank ht _ h) (by decide)
    have hdigit {c : Char} (hc : c ∈ ofNat e.2) : isBlank c = false :=
      isBlank_of_isDigit (isDigit_of_mem_ofNat hc)
    have hedge : trim (before ++ e.1 ++ after) = e.1 :=
      trim_append_append (hblank (by simp)) (hblank (by simp)) hfirst hlast
    have hnumber : trim (before' ++ ofNat e.2 ++ after') = ofNat e.2 :=
      trim_append_append (hblank (by simp)) (hblank (by simp))
        (fun _ hc => hdigit (mem_of_head? hc))
        fun _ hc => hdigit (mem_of_getLast? hc)
    have hleft : ':' ∉ before ++ e.1 ++ after := by
      simp [hnot (t := before), hcolon, hnot (t := after)]
    rw [Line.text, parseLine?_cut hleft, hedge, hnumber, hread]
    rfl
  | noise t => exact (wellFormed_noise_iff.1 hl).2

/-- The text of a report. A line feed at its end is an empty line after it. -/
def report (lines : List Line) : Text := join ['\n'] (lines.map Line.text)

/-- **Reading undoes reporting.** The entries of a coverage stand in any order, with any white space
and between any other lines. -/
theorem parse_report {c : Coverage} (hc : SortedList.Ascending Text.compare c)
    (hwritable : ∀ e ∈ c, Writable e) {lines : List Line} (hlines : ∀ l ∈ lines, l.WellFormed)
    (hperm : (lines.filterMap Line.entry?).Perm c) : parse (report lines) = c := by
  have hentry : ∀ l ∈ lines, ∀ e ∈ l.entry?, Writable e := fun l hl e he =>
    hwritable e (hperm.mem_iff.1 (mem_filterMap.2 ⟨l, hl, he⟩))
  have hread : (Text.lines (report lines)).filterMap parseLine? = lines.filterMap Line.entry? := by
    rw [filterMap_lines, Coverage.report]
    by_cases hne : lines = []
    · subst hne
      rfl
    · rw [splitOn_join (by simpa using hne), filterMap_map]
      · exact filterMap_congr fun l hl => parseLine?_text (hlines l hl) (hentry l hl)
      · rintro t ht
        obtain ⟨l, hl, rfl⟩ := mem_map.1 ht
        exact feed_notMem_text (hlines l hl) (hentry l hl)
  rw [parse, hread, SortedList.ofEntries]
  exact SortedList.foldl_insertWith_eq _ .nil hc (by simpa using hperm)

def noisyLines : List Line := [.noise "edges: many".toList,
  .entry ("main".toList, 2 ^ 64 - 1) ['\t'] [] [' '] ['\r'], .noise "x:18446744073709551616".toList,
  .entry ("a b".toList, 0) [] [' ', ' '] [] [], .noise "main".toList]

theorem parse_report_noisy : (∀ l ∈ noisyLines, l.WellFormed) ∧
    parse (report noisyLines) = [("a b".toList, 0), ("main".toList, 2 ^ 64 - 1)] := by
  have hnoise {t : Text} (hfeed : t.all (· != '\n') = true) (ht : parseLine? t = none) :
      (Line.noise t).WellFormed :=
    wellFormed_noise_iff.2 ⟨fun h => by simpa using all_eq_true.1 hfeed _ h, ht⟩
  have hlines : ∀ l ∈ noisyLines, l.WellFormed := by
    simp only [noisyLines, forall_mem_cons, not_mem_nil, false_implies, implies_true, and_true]
    exact ⟨hnoise (by decide) (by decide), by simp [Line.WellFormed]; decide,
      hnoise (by decide) (by decide), by simp [Line.WellFormed]; decide,
        hnoise (by decide) (by decide)⟩
  refine ⟨hlines, parse_report ?_ ?_ hlines (by decide)⟩
  · simp [SortedList.Ascending]
    decide
  · simp only [forall_mem_cons, not_mem_nil, false_implies, implies_true, and_true]
    exact ⟨⟨by decide, by decide, by decide, by simp; decide, by simp; decide⟩,
      ⟨by decide, by decide, by decide, by simp; decide, by simp; decide⟩⟩

end Coverage

end PatchTriage
