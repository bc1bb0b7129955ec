import PatchTriage.CommandLine
import PatchTriage.Proofs.Texts
import PatchTriage.Template

/-!
# Quoted words

Commands are shown, and put into scripts, as lines of quoted words: a word stands as it is if all
its characters are safe, and else between single quotes.
-/

namespace PatchTriage

open List

namespace Template

open Text

variable {state next : State} {word added t rest : Text} {c : Char}

/-! ## Words -/

theorem splitFrom_cons (h : step state c = (next, added, false)) :
    splitFrom state word (c :: rest) = splitFrom next (word ++ added) rest := by
  rw [splitFrom, h]

def marks : Text := ['\'', '"', '\\', ' ', '\t', '\n', '#']

theorem notMem_marks_of_isShellSafe (hc : isShellSafe c = true) : c ∉ marks := by
  have hmarks : marks.all (!isShellSafe ·) = true := by decide
  intro h
  simpa [hc] using all_eq_true.1 hmarks c h

theorem step_of_isShellSafe (hc : isShellSafe c = true) :
    step .between c = (.plain, [c], false) ∧ step .plain c = (.plain, [c], false) := by
  have hnot := notMem_marks_of_isShellSafe hc
  simp only [marks, mem_cons, not_mem_nil, or_false, not_or] at hnot
  simp [step, isDelimiter, hnot]

theorem splitFrom_plain_of_isShellSafe (h : ∀ c ∈ t, isShellSafe c = true) :
    splitFrom .plain word (t ++ rest) = splitFrom .plain (word ++ t) rest := by
  induction t generalizing word with
  | nil => simp
  | cons c t ih =>
    obtain ⟨hc, ht⟩ := forall_mem_cons.1 h
    rw [cons_append, splitFrom_cons (step_of_isShellSafe hc).2, ih ht]
    simp

theorem splitFrom_single :
    splitFrom .single word (t.flatMap quoteChar ++ '\'' :: rest) =
      splitFrom .plain (word ++ t) rest := by
  induction t generalizing word with
  | nil => simp [splitFrom, step]
  | cons c t ih =>
    rw [flatMap_cons, append_assoc]
    by_cases hc : c = '\''
    · -- the quotes are left, the character stands between double quotes, and they are entered again
      subst hc
      have hquote : splitFrom .single word
          (quoteChar '\'' ++ (t.flatMap quoteChar ++ '\'' :: rest)) =
          splitFrom .single (word ++ ['\'']) (t.flatMap quoteChar ++ '\'' :: rest) := by
        simp [quoteChar, splitFrom, step]
      rw [hquote, ih]
      simp
    · have hplain : quoteChar c = [c] := if_neg hc
      have hstep : step .single c = (.single, [c], false) := if_neg hc
      rw [hplain, singleton_append, splitFrom_cons hstep, ih]
      simp

/-- **A quoted word is read as the word.** -/
theorem splitFrom_shellQuote (t rest : Text) :
    splitFrom .between [] (shellQuote t ++ rest) = splitFrom .plain t rest := by
  rw [shellQuote]
  cases t with
  | nil => rfl
  | cons c t =>
    rw [if_neg (by simp)]
    split
    · rename_i hsafe
      obtain ⟨hc, ht⟩ := forall_mem_cons.1 (all_eq_true.1 hsafe)
      rw [cons_append, splitFrom_cons (step_of_isShellSafe hc).1,
        splitFrom_plain_of_isShellSafe ht]
      rfl
    · have hopen : step .between '\'' = (.single, [], false) := rfl
      rw [cons_append, cons_append, splitFrom_cons hopen, append_assoc, singleton_append,
        splitFrom_single]
      rfl

/-! ## Lines -/

theorem splitFrom_plain_blank (word rest : Text) :
    splitFrom .plain word (' ' :: rest) = (split rest).map (word :: ·) := by
  have hend : step .plain ' ' = (.between, [], true) := rfl
  rw [splitFrom, hend]
  dsimp only
  rw [append_nil]
  rfl

theorem split_join_append (init : List Text) (last rest : Text) :
    split (join [' '] ((init ++ [last]).map shellQuote) ++ rest) =
      (splitFrom .plain last rest).map (init ++ ·) := by
  induction init with
  | nil => simp [join, split, splitFrom_shellQuote]
  | cons w init ih =>
    obtain ⟨v, words, hwords⟩ : ∃ v words, (init ++ [last]).map shellQuote = v :: words := by
      cases init <;> simp
    rw [hwords] at ih
    rw [cons_append, map_cons, hwords, join_cons_cons, append_assoc, append_assoc,
      singleton_append, split, splitFrom_shellQuote, splitFrom_plain_blank, ih, Option.map_map]
    rfl

/-- **A line of quoted words is cut into the words.** -/
theorem split_join (words : List Text) (hwords : words ≠ []) :
    split (join [' '] (words.map shellQuote)) = some words := by
  have hline := split_join_append words.dropLast (words.getLast hwords) []
  rw [dropLast_concat_getLast hwords, append_nil] at hline
  rw [hline, splitFrom, finish, Option.map_some, dropLast_concat_getLast hwords]

end Template

namespace CommandLine

open Template

/-- What is shown of a word that cannot be passed on has no NUL itself. -/
theorem shown_eq_self_iff {word : Text} : shown word = word ↔ '\x00' ∉ word := by
  rw [shown]
  split
  · rename_i hnul
    refine iff_of_false (fun h => ?_) (not_not_intro hnul)
    rw [← h] at hnul
    exact absurd hnul (by decide)
  · rename_i hnul
    exact iff_of_true rfl hnul

theorem map_shown_eq_self_iff {words : List Text} :
    words.map shown = words ↔ ∀ w ∈ words, '\x00' ∉ w := by
  have hmap : words.map shown = words.map id ↔ ∀ w ∈ words, shown w = w := map_inj_left
  rw [map_id] at hmap
  rw [hmap]
  exact forall₂_congr fun w _ => shown_eq_self_iff

/-- The words of the command that runs a program under a debugger script. -/
def debuggerWords (script binary : Path) : List Text :=
  ["gdb", "-return-child-result", "-batch-silent", "-x", script, "--args", binary]

theorem split_debugger (script binary : Path) :
    split (debugger script binary) = some (debuggerWords script binary) := by
  have hcut (head middle : Text) (init : List Text) (last word : Text)
      (hhead : head = Text.join [' '] ((init ++ [last]).map Text.shellQuote) ++ [' '])
      (hmiddle : middle = ' ' :: (Text.shellQuote word ++ [' '])) :
      split (head ++ Text.shellQuote script ++ middle ++ Text.shellQuote binary) =
        some (init ++ last :: [script, word, binary]) := by
    subst hhead hmiddle
    have hrest := split_join [script, word, binary] (by simp)
    simp only [append_assoc, cons_append, nil_append]
    rw [split_join_append, splitFrom_plain_blank]
    simp only [Text.join, map_cons, map_nil, intercalate_cons_cons,
      intercalate_singleton, append_assoc, singleton_append] at hrest
    rw [hrest]
    rfl
  exact hcut _ _ ["gdb", "-return-child-result", "-batch-silent"] "-x" "--args" (by decide +kernel)
    (by decide +kernel)

/-- **Commands survive quoting.**  The line of a command is cut into its words as they are shown:
these are the words themselves exactly if none of them has a NUL, with which it could not be passed
to a program. The command that runs a program under a debugger script is cut into its words,
whatever the two paths are. -/
theorem split_render :
    (∀ program args, split (render program args) = some ((program :: args).map shown)) ∧
    (∀ program args, split (render program args) = some (program :: args) ↔
      ∀ w ∈ program :: args, '\x00' ∉ w) ∧
    ∀ script binary, split (debugger script binary) = some (debuggerWords script binary) := by
  have hrender (program : Text) (args : List Text) :
      split (render program args) = some ((program :: args).map shown) := by
    have hwords := split_join ((program :: args).map shown) (by simp)
    rwa [map_map] at hwords
  refine ⟨hrender, fun program args => ?_, fun script binary => ?_⟩
  · rw [hrender, Option.some_inj, map_shown_eq_self_iff]
  · exact split_debugger script binary

/-- A word with a NUL is lost: only that it could not be passed on is shown. -/
theorem nul_not_shown :
    split (render ['a', '\x00', 'b'] [['x', ' ', 'y']]) =
      some [("<string-with-nul>" : Text), ("x y" : Text)] ∧
    split (render ['a', '\x00', 'b'] [['x', ' ', 'y']]) ≠
      some [['a', '\x00', 'b'], ['x', ' ', 'y']] := by
  decide +kernel

end CommandLine

end PatchTriage
