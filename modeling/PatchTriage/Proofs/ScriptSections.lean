import PatchTriage.Proofs.DiffRendering
import PatchTriage.Proofs.LoopInitialisers

/-!
# The sections of a script

After a `commands` line of a script the lines belong to a section, up to the `end` that closes it. A
line in it that begins with `if ` or `while ` opens a part with an `end` of its own.
-/

namespace PatchTriage

open List Text Compiled

/-! ## Reading a script -/

namespace Script

inductive Part where
  | cond (elsed : Bool)
  | loop
  deriving DecidableEq

inductive Reading where
  /-- The section goes on, with these parts open, the innermost first. -/
  | inside (parts : List Part)
  | closed
  | misplaced
  deriving DecidableEq

variable (parts : List Part)

def readLine (line : Text) : Reading :=
  if startsWith "if " line then .inside (.cond false :: parts)
  else if startsWith "while " line then .inside (.loop :: parts)
  else if line = ("else" : Text) then
    match parts with
    | .cond false :: parts => .inside (.cond true :: parts)
    | _ => .misplaced
  else if line = ("end" : Text) then
    match parts with
    | [] => .closed
    | _ :: parts => .inside parts
  else .inside parts

/-- The bodies of the sections in some lines, of which the first may go on with a section: its body
so far, and the parts that are open in it. -/
def sectionsFrom : Option (List Text × List Part) → List Text → Option (List (List Text))
  | none, [] => some []
  | some _, [] => none
  | none, line :: lines =>
    if line = ("commands" : Text) then sectionsFrom (some ([], [])) lines
    else if line = ("else" : Text) ∨ line = ("end" : Text) then none
    else sectionsFrom none lines
  | some (body, parts), line :: lines =>
    match readLine parts line with
    | .inside parts => sectionsFrom (some (body ++ [line], parts)) lines
    | .closed => (sectionsFrom none lines).map (body :: ·)
    | .misplaced => none

/-- The bodies of the sections of a script; none if an `else` or an `end` is out of place, or a
section is left open. -/
def sections (t : Text) : Option (List (List Text)) := sectionsFrom none (Text.splitOn '\n' t)

/-- The parts that are open after some lines of a section, if these lines do not close it. -/
def through : List Part → List Text → Option (List Part)
  | parts, [] => some parts
  | parts, line :: lines =>
    match readLine parts line with
    | .inside parts => through parts lines
    | _ => none

/-- The lines of a body close every part that they open, and nothing else. -/
def Bracketed (lines : List Text) : Prop := through [] lines = some []

instance (lines : List Text) : Decidable (Bracketed lines) := inferInstanceAs (Decidable (_ = _))

theorem through_cons {parts parts' : List Part} {line : Text}
    (h : readLine parts line = .inside parts')
    (lines : List Text) : through parts (line :: lines) = through parts' lines := by
  rw [through, h]

theorem through_append (lines lines' : List Text) :
    through parts (lines ++ lines') = (through parts lines).bind fun parts' =>
      through parts' lines' := by
  induction lines generalizing parts with
  | nil => rfl
  | cons line lines ih =>
    rw [cons_append, through, through]
    cases readLine parts line with
    | inside parts' => exact ih parts'
    | closed | misplaced => rfl

/-! ## The end of a section -/

theorem prefix_of_sectionsFrom {body : List Text} {parts : List Part} {lines : List Text}
    {bodies : List (List Text)} (h : sectionsFrom (some (body, parts)) lines = some bodies) :
    ∃ first rest, bodies = first :: rest ∧ body <+: first := by
  induction lines generalizing body parts with
  | nil => cases h
  | cons line lines ih =>
    rw [sectionsFrom] at h
    cases hline : readLine parts line with
    | inside parts' =>
      simp only [hline] at h
      obtain ⟨first, rest, hbodies, hprefix⟩ := ih h
      exact ⟨first, rest, hbodies, (prefix_append body [line]).trans hprefix⟩
    | closed =>
      simp only [hline] at h
      obtain ⟨rest, -, rfl⟩ := Option.map_eq_some_iff.1 h
      exact ⟨body, rest, rfl, prefix_refl body⟩
    | misplaced =>
      simp only [hline] at h
      cases h

theorem readLine_end : readLine parts "end" = match parts with
      | [] => .closed
      | _ :: parts => .inside parts := by
  unfold readLine
  rw [if_neg (by decide), if_neg (by decide), if_neg (by decide), if_pos rfl]

/-- **Where a section is closed.** The `end` behind some lines is the one that closes the section
exactly if the lines are bracketed. -/
theorem sectionsFrom_body_iff {read lines rest : List Text} {parts : List Part}
    {bodies : List (List Text)} :
    sectionsFrom (some (read, parts)) (lines ++ "end".toList :: rest) =
      some ((read ++ lines) :: bodies) ↔
      through parts lines = some [] ∧ sectionsFrom none rest = some bodies := by
  induction lines generalizing read parts with
  | nil =>
    rw [nil_append, sectionsFrom, readLine_end, append_nil]
    cases parts with
    | nil => simp [through]
    | cons part parts =>
      -- The `end` closes a part only, so that it belongs to the body.
      simp only [through, Option.some.injEq, reduceCtorEq, false_and, iff_false]
      intro h
      obtain ⟨first, rest', hbodies, hprefix⟩ := prefix_of_sectionsFrom h
      obtain ⟨rfl, -⟩ := cons.inj hbodies
      have hlength := hprefix.length_le
      rw [length_append, length_singleton] at hlength
      omega
  | cons line lines ih =>
    rw [cons_append, sectionsFrom, through]
    cases hline : readLine parts line with
    | inside parts' =>
      have hread : read ++ line :: lines = (read ++ [line]) ++ lines := by simp
      rw [hread]
      exact ih
    | closed | misplaced => simp

def IsOutside (line : Text) : Prop :=
  line ≠ ("commands" : Text) ∧ line ≠ ("else" : Text) ∧ line ≠ ("end" : Text)

instance (line : Text) : Decidable (IsOutside line) := inferInstanceAs (Decidable (_ ∧ _))

theorem sectionsFrom_outside {lines : List Text} (h : ∀ line ∈ lines, IsOutside line)
    (rest : List Text) :
    sectionsFrom none (lines ++ rest) = sectionsFrom none rest := by
  induction lines with
  | nil => rfl
  | cons line lines ih =>
    obtain ⟨hcommands, helse, hend⟩ := h line mem_cons_self
    rw [cons_append, sectionsFrom, if_neg hcommands, if_neg (not_or.2 ⟨helse, hend⟩)]
    exact ih fun line' hline' => h line' (mem_cons_of_mem line hline')

/-- A line that begins with a word, and not like one of the lines that matter. -/
theorem isOutside_append (first : Char) {word : Text} (hword : word.head? = some first)
    (hfirst : first ≠ 'c' ∧ first ≠ 'e') (rest : Text) : IsOutside (word ++ rest) := by
  obtain ⟨tail, rfl⟩ : ∃ tail, word = first :: tail := head?_eq_some_iff.1 hword
  refine ⟨?_, ?_, ?_⟩ <;> intro h <;> simp only [cons_append] at h
  · exact hfirst.1 (cons.inj h).1
  · exact hfirst.2 (cons.inj h).1
  · exact hfirst.2 (cons.inj h).1

end Script

/-! ## The text of a script as lines -/

namespace Text

theorem splitOn_ofLines {lines : List Text} (h : ∀ line ∈ lines, '\n' ∉ line) (t : Text) :
    splitOn '\n' (ofLines lines ++ t) = lines ++ splitOn '\n' t := by
  induction lines with
  | nil => rfl
  | cons line lines ih =>
    have hcut : ofLines (line :: lines) ++ t = line ++ '\n' :: (ofLines lines ++ t) := by
      simp [ofLines]
    rw [hcut, splitOn_append, splitOn_of_not_mem (h line mem_cons_self),
      ih fun line' hline' => h line' (mem_cons_of_mem line hline')]
    rfl

theorem ofLines_append (lines lines' : List Text) :
    ofLines (lines ++ lines') = ofLines lines ++ ofLines lines' := by
  simp [ofLines]

theorem ofLines_flatMap {α : Type} (f : α → List Text) (xs : List α) :
    ofLines (xs.flatMap f) = (xs.map fun x => ofLines (f x)).flatten := by
  induction xs with
  | nil => rfl
  | cons x xs ih => rw [flatMap_cons, ofLines_append, ih, map_cons, flatten_cons]

theorem ofLines_splitOn (t : Text) : ofLines (splitOn '\n' t) = t ++ ['\n'] := by
  induction t with
  | nil => rfl
  | cons c t ih =>
    by_cases hc : c = '\n'
    · subst hc
      rw [show splitOn '\n' ('\n' :: t) = [] :: splitOn '\n' t from splitOn_append '\n' [] t]
      simpa [ofLines] using ih
    · obtain ⟨piece, pieces, hpieces⟩ := exists_cons_of_ne_nil (splitOn_ne_nil '\n' t)
      rw [splitOn, if_neg hc, hpieces]
      rw [hpieces] at ih
      simpa [ofLines] using ih

end Text

/-- The lines of a command: more than one if its text has line feeds. -/
def Command.lines (c : Command) : List Text := Text.splitOn '\n' c.render

namespace Block

variable (b : Block)

def head : Text := (if b.temporary then ("tbreak " : Text) else "break ") ++ b.location.render

def body : List Text := "silent".toList :: b.commands.flatMap Command.lines

def lines : List Text := b.head :: "commands".toList :: (b.body ++ ["end".toList])

theorem render_eq_ofLines : b.render = ofLines b.lines := by
  have hframe : ("\ncommands\nsilent\n" : Text) =
      '\n' :: ("commands".toList ++ '\n' :: ("silent".toList ++ ['\n'])) := by decide
  have hend : ("end\n" : Text) = "end".toList ++ ['\n'] := by decide
  have hcommands : (b.commands.map fun c => c.render ++ ['\n']).flatten =
      Text.ofLines (b.commands.flatMap Command.lines) := by
    rw [ofLines_flatMap]
    simp only [Command.lines, ofLines_splitOn]
  unfold render lines body
  rw [hframe, hend, hcommands]
  simp only [head, ofLines, map_cons, map_append, flatten_cons, flatten_append,
    map_nil, flatten_nil, append_assoc, cons_append, nil_append, append_nil]

theorem feed_notMem_lines {b : Block} (h : '\n' ∉ b.location.render) :
    ∀ line ∈ b.lines, '\n' ∉ line := by
  intro line hline
  simp only [lines, body, mem_cons, mem_append, mem_flatMap, not_mem_nil, or_false] at hline
  rcases hline with rfl | rfl | (rfl | ⟨c, -, hline⟩) | rfl
  · rw [head, mem_append, not_or]
    refine ⟨?_, h⟩
    split <;> decide
  · decide
  · decide
  · exact Text.not_mem_of_mem_splitOn hline
  · decide

theorem isOutside_head : Script.IsOutside b.head := by
  rw [head]
  split
  · exact Script.isOutside_append 't' (by decide) (by decide) _
  · exact Script.isOutside_append 'b' (by decide) (by decide) _

end Block

namespace Script

/-- **One block.** -/
theorem sectionsFrom_lines_iff {b : Block} {rest : List Text} {bodies : List (List Text)} :
    sectionsFrom none (b.lines ++ rest) = some (b.body :: bodies) ↔
      Bracketed (b.commands.flatMap Command.lines) ∧ sectionsFrom none rest = some bodies := by
  have hlines : b.lines ++ rest =
      [b.head] ++ "commands".toList :: (b.body ++ "end".toList :: rest) := by
    simp [Block.lines]
  have hhead : ∀ line ∈ [b.head], IsOutside line := by simpa using b.isOutside_head
  have hsilent : through [] b.body = through [] (b.commands.flatMap Command.lines) :=
    through_cons (by decide) _
  rw [hlines, sectionsFrom_outside hhead, sectionsFrom, if_pos rfl, Bracketed, ← hsilent]
  exact @sectionsFrom_body_iff [] b.body rest [] bodies

/-- **All blocks**, one after another. -/
theorem sectionsFrom_flatMap_lines_iff {blocks : List Block} {rest : List Text}
    {bodies : List (List Text)} :
    sectionsFrom none (blocks.flatMap Block.lines ++ rest) =
      some (blocks.map Block.body ++ bodies) ↔
      (∀ b ∈ blocks, Bracketed (b.commands.flatMap Command.lines)) ∧
        sectionsFrom none rest = some bodies := by
  induction blocks with
  | nil => simp
  | cons b blocks ih =>
    rw [flatMap_cons, append_assoc, map_cons, cons_append, sectionsFrom_lines_iff, ih,
      forall_mem_cons, and_assoc]

variable (fixedAddresses : Bool) (fragments : List Compiled)

def preludeLines : List Text :=
  [("set pagination off" : Text), "set confirm off", "set breakpoint pending on",
    ("set disable-randomization " : Text) ++ if fixedAddresses then ("on" : Text) else "off"] ++
  if fragments.any isLoop then [("set " : Text) ++ initFlag ++ (" = 1" : Text)]
  else []

theorem prelude_eq_ofLines :
    prelude fixedAddresses fragments = ofLines (preludeLines fixedAddresses fragments) := by
  unfold prelude preludeLines
  cases fixedAddresses <;> cases fragments.any isLoop <;> rfl

theorem preludeLines_outside :
    ∀ line ∈ preludeLines fixedAddresses fragments, '\n' ∉ line ∧ IsOutside line := by
  unfold preludeLines
  cases fixedAddresses <;> cases fragments.any isLoop <;> decide +kernel

/-- **A debugger finds the blocks that were written** exactly if the lines of each are bracketed. -/
theorem sections_render_iff {fragments : List Compiled} {hooks : Hooks}
    (h : ∀ b ∈ blocks fragments hooks, '\n' ∉ b.location.render) :
    sections (render fragments hooks) = some ((blocks fragments hooks).map Block.body) ↔
      ∀ b ∈ blocks fragments hooks, Bracketed (b.commands.flatMap Command.lines) := by
  have hblocks : renderBlocks (blocks fragments hooks) =
      ofLines ((blocks fragments hooks).flatMap Block.lines) := by
    rw [renderBlocks, map_congr_left fun b _ => b.render_eq_ofLines, ofLines_flatMap]
  have hrun : ("run\n" : Text) = ofLines ["run".toList] := by decide
  have hfeed : ∀ line ∈ preludeLines hooks.fixesAddresses fragments ++
      (blocks fragments hooks).flatMap Block.lines ++ ["run".toList], '\n' ∉ line := by
    intro line hline
    rcases mem_append.1 hline with hline | hline
    · rcases mem_append.1 hline with hline | hline
      · exact (preludeLines_outside _ _ line hline).1
      · obtain ⟨b, hb, hline⟩ := mem_flatMap.1 hline
        exact Block.feed_notMem_lines (h b hb) line hline
    · obtain rfl := mem_singleton.1 hline
      decide
  have hlines := splitOn_ofLines hfeed []
  rw [append_nil, ofLines_append, ofLines_append] at hlines
  have hend : sectionsFrom none (["run".toList] ++ Text.splitOn '\n' []) = some [] := by decide
  rw [sections, render_eq, prelude_eq_ofLines, hblocks, hrun, hlines, append_assoc, append_assoc,
    sectionsFrom_outside fun line hline => (preludeLines_outside _ _ line hline).2,
    ← append_nil ((blocks fragments hooks).map Block.body), sectionsFrom_flatMap_lines_iff]
  exact and_iff_left hend

end Script

end PatchTriage
