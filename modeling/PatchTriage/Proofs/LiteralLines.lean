import PatchTriage.Proofs.ScriptSections

/-!
# Lines that are passed on as they stand

An inserted line that is no return, condition, loop, assignment or call becomes a line of the
script. A lone `} else {` is such a line, and a debugger takes it for a mark of its own.
-/

namespace PatchTriage

open List Text Statement Command

/-! ## Texts -/

namespace Text

variable {t : Text} {c : Char}

theorem mem_trim (hc : c ∈ t) (hblank : isBlank c = false) : c ∈ trim t := by
  obtain ⟨a, b, ha, hb, hcut, -⟩ := exists_trim t
  rw [hcut] at hc
  rcases mem_append.1 hc with hc | hc
  · rcases mem_append.1 hc with hc | hc
    · exact absurd (ha c hc) (by simp [hblank])
    · exact hc
  · exact absurd (hb c hc) (by simp [hblank])

theorem head?_trim (hc : t.head? = some c) (hblank : isBlank c = false) :
    (trim t).head? = some c := by
  obtain ⟨a, b, ha, hb, hcut, -⟩ := exists_trim t
  rw [hcut, append_assoc, head?_append] at hc
  cases a with
  | cons c' a =>
    obtain rfl := Option.some.inj hc
    exact absurd (ha c' mem_cons_self) (by simp [hblank])
  | nil =>
    rw [head?_nil, Option.none_or, head?_append] at hc
    cases htrim : (trim t).head? with
    | some first => rwa [htrim] at hc
    | none =>
      rw [htrim, Option.none_or] at hc
      exact absurd (hb c (mem_of_head? hc)) (by simp [hblank])

theorem replaceFrom_nil_subset (needle : Text) (skip : Nat) (t : Text) :
    replaceFrom needle [] skip t ⊆ t := by
  induction t generalizing skip with
  | nil => cases skip <;> exact Subset.refl []
  | cons c t ih =>
    cases skip with
    | succ skip => exact subset_cons_of_subset c (ih skip)
    | zero =>
      rw [replaceFrom]
      split
      · exact subset_cons_of_subset c (ih _)
      · exact cons_subset_cons c (ih 0)

theorem replace_nil_subset (needle t : Text) : replace needle [] t ⊆ t :=
  replaceFrom_nil_subset needle 0 t

theorem before_subset (sep : Char) (t : Text) : before sep t ⊆ t := (List.takeWhile_prefix _).subset

theorem afterLast_subset (sep : Char) (t : Text) : afterLast sep t ⊆ t := by
  intro c hc
  exact mem_reverse.1 (before_subset sep t.reverse (mem_reverse.1 hc))

theorem cut?_ne_none (hc : c ∈ t) : cut? c t ≠ none := by
  induction t with
  | nil => cases hc
  | cons a t ih =>
    rw [cut?]
    split
    · simp
    · rename_i hne
      have hmem : c ∈ t := (mem_cons.1 hc).resolve_left (Ne.symm hne)
      simpa using ih hmem

theorem exists_splitOn_append {s : Text} (hs : c ∉ s) (t : Text) :
    ∃ piece, splitOn c (s ++ t) = (s ++ piece) :: (splitOn c t).tail := by
  induction s with
  | nil =>
    obtain ⟨piece, pieces, hpieces⟩ := exists_cons_of_ne_nil (splitOn_ne_nil c t)
    exact ⟨piece, by rw [nil_append, hpieces]; rfl⟩
  | cons a s ih =>
    obtain ⟨ha, hs⟩ : c ≠ a ∧ c ∉ s := by simpa using hs
    obtain ⟨piece, hpiece⟩ := ih hs
    refine ⟨piece, ?_⟩
    rw [cons_append, splitOn, if_neg (Ne.symm ha), hpiece]
    rfl

end Text

/-! ## Neutral lines -/

namespace Script

def Passive (line : Text) : Prop := ∀ parts, readLine parts line = .inside parts

/-- Lines that leave the open parts as they were. -/
def Neutral (lines : List Text) : Prop := ∀ parts, through parts lines = some parts

theorem passive_of_head? {line : Text} {c : Char} (hline : line.head? = some c)
    (hc : c ≠ 'i' ∧ c ≠ 'w' ∧ c ≠ 'e') : Passive line := by
  obtain ⟨hi, hw, he⟩ := hc
  intro parts
  have hbegins : ∀ {word : Text} {a : Char}, word.head? = some a → c ≠ a →
      ¬ startsWith word line = true := fun hword hne hstarts =>
    hne (Option.some.inj (hline.symm.trans (head?_of_startsWith hstarts hword)))
  have hequals : ∀ {word : Text} {a : Char}, word.head? = some a → c ≠ a → line ≠ word := by
    rintro word a hword hne rfl
    exact hne (Option.some.inj (hline.symm.trans hword))
  unfold readLine
  rw [if_neg (hbegins rfl hi), if_neg (hbegins rfl hw), if_neg (hequals rfl he),
    if_neg (hequals rfl he)]

theorem neutral_nil : Neutral [] := fun _ => rfl

theorem Passive.neutral {line : Text} (h : Passive line) : Neutral [line] :=
  fun parts => through_cons (h parts) []

theorem Neutral.through_append {lines : List Text} (h : Neutral lines) (parts : List Part)
    (lines' : List Text) : through parts (lines ++ lines') = through parts lines' := by
  rw [Script.through_append, h parts]
  rfl

theorem Neutral.append {lines lines' : List Text} (h : Neutral lines) (h' : Neutral lines') :
    Neutral (lines ++ lines') := fun parts => (h.through_append parts lines').trans (h' parts)

theorem readLine_if (parts : List Part) (condition : Text) :
    readLine parts (Command.ifs condition).render = .inside (.cond false :: parts) := by
  unfold readLine
  exact if_pos (startsWith_append _ condition)

theorem readLine_else (parts : List Part) :
    readLine (.cond false :: parts) elses.render = .inside (.cond true :: parts) := by
  unfold readLine
  rw [if_neg (by decide), if_neg (by decide)]
  exact if_pos rfl

theorem through_end (part : Part) (parts : List Part) :
    through (part :: parts) [ends.render] = some parts :=
  through_cons (readLine_end (part :: parts)) []

/-- Only the marks and the lines that are passed on can be taken for marks. -/
theorem passive_render {c : Command} (h : c.isMark = false) (hraw : ∀ text, c ≠ .raw text) :
    Passive c.render := by
  cases c with
  | ifs _ | elses | ends => cases h
  | raw text => exact absurd rfl (hraw text)
  | setVar lhs rhs | setExpr expr => exact passive_of_head? (c := 's') rfl (by decide)
  | call expr => exact passive_of_head? (c := 'c') rfl (by decide)
  | jump target => exact passive_of_head? (c := 'j') rfl (by decide)
  | continues => exact passive_of_head? (c := 'c') rfl (by decide)
  | dumpCore path => exact passive_of_head? (c := 'g') rfl (by decide)
  | quit => exact passive_of_head? (c := 'q') rfl (by decide)

/-- **A nested list is neutral** if the lines that it passes on are no marks. -/
theorem neutral_of_nested {cs : List Command} (h : Nested cs)
    (hraw : ∀ text, .raw text ∈ cs → Passive text) : Neutral (cs.map Command.render) := by
  induction h with
  | nil => exact neutral_nil
  | single c hc =>
    refine Passive.neutral ?_
    by_cases hself : ∃ text, c = .raw text
    · obtain ⟨text, rfl⟩ := hself
      exact hraw text mem_cons_self
    · exact passive_render hc fun text heq => hself ⟨text, heq⟩
  | append _ _ ih ih' =>
    rw [map_append]
    exact (ih fun text ht => hraw text (mem_append_left _ ht)).append
      (ih' fun text ht => hraw text (mem_append_right _ ht))
  | @ifEnd condition body _ ih =>
    have hbody := ih fun text ht => hraw text (by simp [ht])
    intro parts
    rw [cons_append, map_cons, map_append, through_cons (readLine_if parts condition),
      hbody.through_append]
    exact through_end _ parts
  | @ifElse condition yes no _ _ ih ih' =>
    have hyes := ih fun text ht => hraw text (by simp [ht])
    have hno := ih' fun text ht => hraw text (by simp [ht])
    intro parts
    rw [append_assoc, cons_append, map_cons, map_append,
      through_cons (readLine_if parts condition), hyes.through_append, cons_append, map_cons,
      map_append, through_cons (readLine_else parts), hno.through_append]
    exact through_end _ parts

end Script

/-! ## Literal lines -/

/-- The line that a statement is passed on as; none if it is put into other words. -/
def Statement.literal? : Statement → Option Text
  | other text =>
    let text := trim (text.filter fun c => c ∉ ['{', '}', ';'])
    if text.isEmpty || hasCall text then none else some text
  | _ => none

/-- The lines of a fragment that are passed on to the debugger as they stand. -/
def Fragment.literals (f : Fragment) : List Text := (Compiled.statements f).filterMap literal?

namespace Statement

theorem head?_of_startsWithKeyword {keyword t : Text} {c : Char} (hc : keyword.head? = some c)
    (h : Inserted.startsWithKeyword keyword t = true) : t.head? = some c := by
  rw [Inserted.startsWithKeyword] at h
  cases hdrop : dropHead? keyword t with
  | none => simp [hdrop] at h
  | some rest =>
    rw [dropHead?_eq_some_iff.1 hdrop, head?_append, hc]
    rfl

variable {t : Text}

theorem head?_stripTerminators (h : t.head? = some 'r') :
    (stripTerminators t).head? = some 'r' := by
  obtain ⟨rest, rfl⟩ := head?_eq_some_iff.1 h
  exact head?_trim (head?_eq_some_iff.2 ⟨without ';' rest, rfl⟩) (by decide)

theorem mem_of_assigns (h : assigns t = true) : '=' ∈ t := by
  have hsub : ∀ (ops : List Text) (t : Text), ops.foldl (fun t op => replace op [] t) t ⊆ t := by
    intro ops
    induction ops with
    | nil => exact fun t => Subset.refl t
    | cons op ops ih => exact fun t => Subset.trans (ih _) (replace_nil_subset op t)
  exact hsub _ t (of_decide_eq_true h)

theorem passive_of_returns (h : (t = "return" || startsWith "return;" t
    || Inserted.startsWithKeyword "return" t) = true) : Script.Passive (stripTerminators t) := by
  simp only [Bool.or_eq_true, decide_eq_true_eq] at h
  have hhead : t.head? = some 'r' := by
    rcases h with (rfl | h) | h
    · rfl
    · obtain ⟨rest, rfl⟩ := startsWith_iff.1 h
      rfl
    · exact head?_of_startsWithKeyword (by decide) h
  exact Script.passive_of_head? (head?_stripTerminators hhead) (by decide)

theorem mem_stripTerminators {c : Char} (hc : c ∈ t) (hblank : isBlank c = false)
    (hend : c ≠ ';') : c ∈ stripTerminators t :=
  mem_trim (by simpa [without, hc] using hend) hblank

end Statement

namespace Compiled

open Script (Passive Neutral through Bracketed)

variable {b target : BreakPoint}

theorem raw_notMem_branch (condition : Text) (step target : BreakPoint) (text : Text) :
    .raw text ∉ branch condition step target := by
  simp [branch]

theorem raw_notMem_lowerIf (header : Text) (step target : BreakPoint) (text : Text) :
    .raw text ∉ lowerIf header step target := by
  rw [lowerIf]
  split
  · exact raw_notMem_branch _ _ _ text
  · split
    · exact raw_notMem_branch _ _ _ text
    · intro h
      rcases mem_append.1 h with h | h
      · rcases mem_cons.1 h with h | h
        · cases h
        · split at h
          · cases h
          · split at h <;> cases mem_singleton.1 h
      · simp at h

variable {t text : Text}

theorem passive_of_mem_parseFor (h : .raw text ∈ (lower b target (.parseFor t)).commands) :
    Passive text := by
  obtain ⟨init, condition, increment, hfor⟩ := exists_parseFor t
  rw [hfor] at h
  rcases mem_append.1 h with h | h
  · rw [initialise_eq] at h
    have hclear : raw text = clearFlag := by simpa [assignments, or_assoc] using h
    obtain rfl := raw.inj hclear
    exact Script.passive_of_head? (c := 's') (by decide) (by decide)
  · exact absurd h (raw_notMem_branch _ _ _ text)

theorem lowerAssignment_of_mem {text : Text} (h : '=' ∈ text) :
    ∃ lhs rhs, text = lhs ++ '=' :: rhs ∧
    '=' ∉ lhs ∧ lowerAssignment text false =
      .setVar ((words lhs).getLast?.getD lhs) (trim rhs) := by
  obtain ⟨⟨lhs, rhs⟩, hcut⟩ := Option.ne_none_iff_exists'.1 (cut?_ne_none h)
  obtain ⟨htext, hfirst⟩ := cut?_eq_some_iff.1 hcut
  refine ⟨lhs, rhs, htext, hfirst, ?_⟩
  rw [lowerAssignment, hcut]
  rfl

/-- An assignment has a sign to be cut at, or is evaluated as a whole. -/
theorem ne_lowerAssignment {t : Text} (h : (isCompound t || assigns t) = true)
    (text : Text) : .raw text ≠ lowerAssignment (stripTerminators t) (isCompound t) := by
  cases hcompound : isCompound t with
  | true => simp [lowerAssignment]
  | false =>
    rw [hcompound, Bool.false_or] at h
    have hmem : '=' ∈ stripTerminators t :=
      mem_stripTerminators (mem_of_assigns h) (by decide) (by decide)
    obtain ⟨_, _, -, -, hlower⟩ := lowerAssignment_of_mem hmem
    simp [hlower]

theorem literal?_of_mem_other (h : .raw text ∈ (lower b target (.other t)).commands) :
    literal? (.other t) = some text := by
  rw [lower] at h
  rw [literal?]
  split at h
  · cases h
  · rename_i hempty
    split at h
    · cases mem_singleton.1 h
    · rename_i hcall
      cases mem_singleton.1 h
      exact if_neg fun hor => (Bool.or_eq_true_iff.1 hor).elim hempty hcall

/-- **What is passed on** is a literal line, or no mark. -/
theorem literal?_or_passive (h : .raw text ∈ (lower b target (.ofBody t)).commands) :
    literal? (.ofBody t) = some text ∨ Passive text := by
  rw [ofBody] at h ⊢
  split at h
  · rename_i hreturn
    obtain rfl : text = stripTerminators t := by simpa [lower] using h
    exact .inr (passive_of_returns hreturn)
  · split at h
    · exact absurd h (raw_notMem_lowerIf _ _ _ text)
    · split at h
      · exact absurd h (raw_notMem_branch _ _ _ text)
      · split at h
        · exact .inr (passive_of_mem_parseFor h)
        · split at h
          · rename_i hassigns
            exact absurd (mem_singleton.1 h) (ne_lowerAssignment hassigns text)
          · split at h
            · cases mem_singleton.1 h
            · rename_i hreturn hif hwhile hfor hassigns hcall
              rw [if_neg hreturn, if_neg hif, if_neg hwhile, if_neg hfor,
                if_neg hassigns, if_neg hcall]
              exact .inl (literal?_of_mem_other h)

theorem commands_of_literal? {statement : Statement} {text : Text}
    (h : statement.literal? = some text)
    (b target : BreakPoint) : (lower b target statement).commands = [.raw text] := by
  cases statement with
  | other t =>
    rw [literal?] at h
    split at h
    · cases h
    · rename_i hnot
      obtain ⟨hempty, hcall⟩ := not_or.1 (Bool.or_eq_true_iff.not.1 hnot)
      obtain rfl := Option.some.inj h
      rw [lower, if_neg hempty, if_neg hcall]
  | _ => cases h

/-- **The commands of a statement** do to the open parts what its literal line does, if it has one.
-/
theorem through_lower {raw : Text} {statement : Statement} (h : parse? raw = some statement)
    (b target : BreakPoint) (parts : List Script.Part) :
    through parts ((lower b target statement).commands.map Command.render) =
      through parts statement.literal?.toList := by
  obtain rfl : statement = .ofBody (body raw) := by
    rw [parse?] at h
    split at h
    · cases h
    · split at h
      · cases h
      · exact (Option.some.inj h).symm
  cases hliteral : literal? (.ofBody (body raw)) with
  | some text =>
    rw [commands_of_literal? hliteral]
    rfl
  | none =>
    refine Script.neutral_of_nested (sound_lower b target _).commands.nested
      (fun text htext => ?_) parts
    exact (literal?_or_passive htext).resolve_left (by simp [hliteral])

theorem through_commandsOf {statements : List Statement}
    (h : ∀ statement ∈ statements, ∃ raw, parse? raw = some statement) (b target : BreakPoint)
    (parts : List Script.Part) :
    through parts ((commandsOf b target statements).map render) =
      through parts (statements.filterMap literal?) := by
  induction statements generalizing parts with
  | nil => rfl
  | cons statement statements ih =>
    obtain ⟨raw, hraw⟩ := h statement mem_cons_self
    have hliteral : (statement :: statements).filterMap literal? =
        statement.literal?.toList ++ statements.filterMap literal? := by
      cases hself : statement.literal? <;> simp [hself]
    rw [commandsOf_cons, map_append, Script.through_append, through_lower hraw, hliteral,
      Script.through_append]
    refine Option.bind_congr fun parts' _ => ?_
    exact ih (fun statement' hstatement' => h statement' (mem_cons_of_mem _ hstatement')) parts'

/-- **The commands at a break point** do to the open parts what the literal lines do. -/
theorem through_primary (b : BreakPoint) (f : Fragment) (parts : List Script.Part) :
    through parts ((primary b f).map render) = through parts f.literals := by
  have hparsed : ∀ statement ∈ statements f, ∃ raw, parse? raw = some statement := by
    intro statement hstatement
    obtain ⟨raw, -, hraw⟩ := mem_filterMap.1 hstatement
    exact ⟨raw, hraw⟩
  have hleave : ∀ cond :
      Bool, Neutral ((if cond then [] else [jump (f.continuation b)]).map render) := by
    intro cond
    cases cond with
    | true => exact Script.neutral_nil
    | false => exact (Script.passive_render rfl (by simp)).neutral
  rw [primary, map_append, Script.through_append, through_commandsOf hparsed, Fragment.literals]
  -- Behind the statements there is at most a jump, which changes nothing.
  cases through parts ((statements f).filterMap literal?) with
  | none => rfl
  | some parts' => exact hleave _ parts'

theorem neutral_further {f : Fragment} {block : Block}
    (h : block ∈ (steps b f).filterMap Step.block) :
      Neutral (block.commands.map Command.render) := by
  obtain ⟨step, hstep, hblock⟩ := mem_filterMap.1 h
  obtain ⟨statement, -, rfl⟩ := mem_map.1 hstep
  have hback : ∀ {increment : List Command} {condition : Text} {step : BreakPoint},
      (∀ text, .raw text ∉ increment) →
      backEdge? b (f.continuation b) increment condition step = some block →
      ∀ text, .raw text ∉ block.commands := by
    intro increment condition step hincrement hedge text
    rw [backEdge?] at hedge
    split at hedge
    · obtain rfl := Option.some.inj hedge
      rw [mem_append, not_or]
      exact ⟨hincrement text, raw_notMem_branch _ _ _ text⟩
    · cases hedge
  have hraw : ∀ text, .raw text ∉ block.commands := by
    cases statement with
    -- Only a loop has a block on its last line.
    | whiles condition => exact hback (by simp) hblock
    | fors init condition increment => exact hback (by intro text; split <;> simp) hblock
    | other t =>
      rw [lower_eq_of_isSimple rfl] at hblock
      cases hblock
    | _ => cases hblock
  refine Script.neutral_of_nested ?_ fun text htext => absurd htext (hraw text)
  exact ((sound_lower b (f.continuation b) statement).block block hblock).1.nested

/-! ## Lines of the diff and lines of the script -/

theorem feed_notMem_render {place : BreakPoint} (h : '\n' ∉ place.file) : '\n' ∉ place.render := by
  rw [BreakPoint.render, mem_append, mem_cons, not_or, not_or]
  refine ⟨h, by decide, fun hfeed => ?_⟩
  exact absurd (isDigit_of_mem_ofNat hfeed) (by decide)

theorem feed_notMem_of_spelled {t : Text} {c : Command} (h : Spelled t c) (ht : '\n' ∉ t)
    (hjump : ∀ place, c = .jump place → '\n' ∉ place.file) : '\n' ∉ c.render := by
  cases hexit : c.exit? with
  | none =>
    intro hfeed
    have hvocabulary : '\n' ∉ vocabulary := by decide
    exact (mem_append.1 (h hexit hfeed)).elim ht hvocabulary
  | some exit =>
    cases c with
    | jump place =>
      show '\n' ∉ "jump " ++ place.render
      rw [mem_append, not_or]
      exact ⟨by decide, feed_notMem_render (hjump place rfl)⟩
    | continues => show '\n' ∉ ("continue" : Text); decide
    | quit => show '\n' ∉ ("quit" : Text); decide
    | _ => cases hexit

/-- No line feed in the file of an edit, or in a line that it inserts. -/
def UnbrokenEntry (e : BreakPoint × Fragment) : Prop :=
  '\n' ∉ e.1.file ∧ ∀ line ∈ e.2.inserted, '\n' ∉ line

/-- **The commands of a fragment are lines.** -/
theorem feed_notMem_blocks {e : BreakPoint × Fragment} (he : UnbrokenEntry e) :
    ∀ block ∈ (ofFragment e.1 e.2).blocks,
      '\n' ∉ block.location.render ∧ ∀ c ∈ block.commands, '\n' ∉ c.render := by
  obtain ⟨b, f⟩ := e
  obtain ⟨hfile, hinserted⟩ := he
  have hjump : ∀ place, place = b.offset 1 ∨ place = f.continuation b → '\n' ∉ place.file := by
    rintro place (rfl | rfl)
    · exact hfile
    · rwa [file_continuation]
  have htexts : ∀ statement ∈ statements f, '\n' ∉ statement.texts := by
    intro statement hstatement hfeed
    obtain ⟨raw, hraw, hparse⟩ := mem_filterMap.1 hstatement
    exact hinserted raw hraw (texts_parse? hparse hfeed)
  have hprimary : ∀ c ∈ primary b f, '\n' ∉ c.render := by
    intro c hc
    have hplace : ∀ place, c = .jump place → '\n' ∉ place.file := by
      rintro place rfl
      exact hjump place ((sound_primary b f).target_of_jump place hc)
    rcases mem_append.1 hc with hc | hc
    · obtain ⟨commands, hcommands, hc⟩ := mem_flatten.1 hc
      obtain ⟨step, hstep, rfl⟩ := mem_map.1 hcommands
      obtain ⟨statement, hstatement, rfl⟩ := mem_map.1 hstep
      rcases (spelled_lower b (f.continuation b) statement).1 c hc with ⟨-, rfl | rfl⟩ | hspelled
      · decide
      · decide
      · exact feed_notMem_of_spelled hspelled (htexts statement hstatement) hplace
    · split at hc
      · cases hc
      · obtain rfl := mem_singleton.1 hc
        exact feed_notMem_of_spelled (t := []) (spelled_exit (by simp [exit?])) (by simp) hplace
  intro block hblock
  rw [blocks_eq] at hblock
  rcases mem_cons.1 hblock with rfl | hblock
  · exact ⟨feed_notMem_render hfile, hprimary⟩
  · obtain ⟨step, hstep, hblock⟩ := mem_filterMap.1 hblock
    obtain ⟨statement, hstatement, rfl⟩ := mem_map.1 hstep
    obtain ⟨hsound, -, hlocation, -⟩ :=
      (sound_lower b (f.continuation b) statement).block block hblock
    refine ⟨?_, fun c hc => ?_⟩
    · rw [hlocation]
      exact feed_notMem_render (show '\n' ∉ (f.continuation b).file from hjump _ (.inr rfl))
    · refine feed_notMem_of_spelled ((spelled_lower b _ statement).2 block hblock c hc)
        (htexts statement hstatement) ?_
      rintro place rfl
      exact hjump place (hsound.target_of_jump place hc)

end Compiled

end PatchTriage
