import Mathlib.Data.List.TakeDrop
import PatchTriage.Proofs.ControlTransfer
import PatchTriage.Proofs.Texts

/-!
# Where the characters of a command come from

On its way from an inserted line to a debugger command a text is cut, trimmed and taken apart into
words. No cut adds a character, so that those of a command come from the line and from a fixed
vocabulary (`Compiled.spelled_lower`).
-/

namespace PatchTriage

open List Text Statement Subset

/-! ## Cuts -/

namespace Text

variable {t : Text} {sep : Char}

theorem trim_subset (t : Text) : trim t ⊆ t := by
  obtain ⟨a, b, -, -, hcut, -⟩ := exists_trim t
  intro c hc
  rw [hcut]
  simp [hc]

theorem without_subset (c : Char) (t : Text) : without c t ⊆ t := filter_subset_self t

theorem dropHead?_subset (head t : Text) : (dropHead? head t).getD t ⊆ t := by
  cases h : dropHead? head t with
  | none => exact refl t
  | some rest =>
    rw [dropHead?_eq_some_iff.1 h]
    exact subset_append_right head rest

theorem dropTail?_subset (tail t : Text) : (dropTail? tail t).getD t ⊆ t := by
  rw [dropTail?]
  cases h : dropHead? tail.reverse t.reverse with
  | none => exact refl t
  | some rest =>
    intro c hc
    have hmem : c ∈ t.reverse := by
      rw [dropHead?_eq_some_iff.1 h]
      exact mem_append_right _ (mem_reverse.1 hc)
    exact mem_reverse.1 hmem

theorem cut?_subset {a b : Text} (h : cut? sep t = some (a, b)) : a ⊆ t ∧ b ⊆ t := by
  obtain ⟨rfl, -⟩ := cut?_eq_some_iff.1 h
  exact ⟨subset_append_left _ _, fun c hc => by simp [hc]⟩

theorem cutLast?_subset (t : Text) : (cutLast? sep t).elim t Prod.fst ⊆ t := by
  rw [cutLast?]
  cases h : cut? sep t.reverse with
  | none => exact refl t
  | some pieces =>
    intro c hc
    exact mem_reverse.1 ((cut?_subset h).2 (mem_reverse.1 hc))

theorem subset_of_mem_splitOn {piece : Text} (h : piece ∈ splitOn sep t) : piece ⊆ t := by
  induction t generalizing piece with
  | nil =>
    obtain rfl := mem_singleton.1 h
    exact refl []
  | cons c t ih =>
    rw [splitOn] at h
    split at h
    · rcases mem_cons.1 h with rfl | h
      · exact nil_subset _
      · exact subset_cons_of_subset c (ih h)
    · split at h
      · obtain rfl := mem_singleton.1 h
        exact cons_subset_cons c (nil_subset t)
      · rename_i first pieces hpieces
        rcases mem_cons.1 h with rfl | h
        · exact cons_subset_cons c (ih (by rw [hpieces]; exact mem_cons_self))
        · exact subset_cons_of_subset c (ih (by rw [hpieces]; exact mem_cons_of_mem first h))

theorem subset_of_mem_wordsFrom {word w : Text} (h : w ∈ wordsFrom word t) : w ⊆ word ++ t := by
  induction t generalizing word with
  | nil =>
    rw [wordsFrom] at h
    split at h
    · cases h
    · obtain rfl := mem_singleton.1 h
      exact subset_append_left w []
  | cons c t ih =>
    rw [wordsFrom] at h
    split at h
    · have hrest : w ∈ wordsFrom [] t → w ⊆ word ++ c :: t := fun hw =>
        subset_append_of_subset_right word (subset_cons_of_subset c (ih hw))
      split at h
      · exact hrest h
      · rcases mem_cons.1 h with rfl | h
        · exact subset_append_left w (c :: t)
        · exact hrest h
    · simpa using ih h

theorem subset_of_mem_words {w : Text} (h : w ∈ words t) : w ⊆ t := subset_of_mem_wordsFrom h

end Text

namespace Inserted

theorem cutBalanced_append (depth : Nat) (t : Text) :
    (cutBalanced depth t).1 ++ (cutBalanced depth t).2 = t := by
  induction t generalizing depth with
  | nil => rfl
  | cons c t ih =>
    simp only [cutBalanced]
    by_cases hclosed : c = ')' ∧
      (if c = '(' then depth + 1 else if c = ')' then depth - 1 else depth) = 0
    · rw [if_pos hclosed]
      rfl
    · rw [if_neg hclosed, cons_append, ih]

theorem cutCondition?_subset {t head condition rest : Text}
    (h : cutCondition? t = some (head, condition, rest)) : condition ⊆ t ∧ rest ⊆ t := by
  rw [cutCondition?] at h
  split at h
  · cases h
    have hcut := cutBalanced_append 0 (t.dropWhile (· ≠ '('))
    have hsub : t.dropWhile (· ≠ '(') ⊆ t := (dropWhile_suffix _).subset
    refine ⟨fun c hc => hsub ?_, fun c hc => hsub ?_⟩
    · rw [← hcut]
      exact mem_append_left _ hc
    · rw [← hcut]
      exact mem_append_right _ hc
  · cases h

end Inserted

/-! ## Statements -/

namespace Statement

def texts : Statement → Text
  | returns t | ifs t | whiles t | assignment t _ | call t | other t => t
  | fors init condition increment => init ++ condition ++ increment

def isCounting : Statement → Bool
  | fors _ _ _ => true
  | _ => false

theorem dropComments_go_subset (kept : Option Text) (t : Text) :
    dropComments.go kept t ⊆ kept.getD [] ++ t := by
  fun_induction dropComments.go kept t with
  | case1 t ih =>
    refine Subset.trans ih fun c hc => ?_
    simpa [or_left_comm] using hc
  | case2 c t _ ih => exact cons_subset_cons c ih
  | case3 => exact Subset.refl []
  | case4 kept t ih =>
    refine Subset.trans ih fun c hc => ?_
    exact mem_append_right kept (mem_cons_of_mem _ (mem_cons_of_mem _ hc))
  | case5 kept c t _ ih =>
    refine Subset.trans ih fun c' hc' => ?_
    simpa [or_left_comm] using hc'
  | case6 kept =>
    intro c hc
    simpa using hc

variable (t : Text)

theorem dropComments_subset : dropComments t ⊆ t := dropComments_go_subset none t

theorem body_subset (raw : Text) : body raw ⊆ raw :=
  calc body raw ⊆ trim (dropComments (without '\t' raw)) := (dropWhile_suffix _).subset
    _ ⊆ dropComments (without '\t' raw) := trim_subset _
    _ ⊆ without '\t' raw := dropComments_subset _
    _ ⊆ raw := without_subset _ _

theorem stripTerminators_subset : stripTerminators t ⊆ t :=
  Subset.trans (trim_subset _) (without_subset _ _)

theorem unwrap_subset : unwrap t ⊆ t := by
  rw [unwrap.eq_def]
  split
  · rename_i inner
    cases h : dropTail? [')'] inner with
    | none => exact refl _
    | some rest =>
      have hrest := dropTail?_subset [')'] inner
      rw [h] at hrest
      exact subset_cons_of_subset '(' hrest
  · exact refl _

theorem headerAfter_subset (keyword t : Text) : headerAfter keyword t ⊆ t :=
  calc headerAfter keyword t ⊆ without '{' ((dropHead? keyword t).getD t) := trim_subset _
    _ ⊆ (dropHead? keyword t).getD t := without_subset _ _
    _ ⊆ t := dropHead?_subset keyword t

theorem texts_parseFor : (parseFor t).texts ⊆ t := by
  have hinner : ∀ header : Text, (cutLast? ')' ((dropHead? "(" header).getD header)).elim
      ((dropHead? "(" header).getD header) Prod.fst ⊆ header := fun header =>
    Subset.trans (cutLast?_subset _) (dropHead?_subset _ header)
  have hheader := Subset.trans (hinner (headerAfter "for" t)) (headerAfter_subset "for" t)
  rw [parseFor]
  generalize Option.elim _ _ _ = inner at hheader ⊢
  have hpart : ∀ part : Text, part ⊆ inner → trim part ⊆ t := fun part hpart =>
    Subset.trans (trim_subset part) (Subset.trans hpart hheader)
  split
  · simpa [texts] using hpart inner (Subset.refl inner)
  · rename_i init rest hcut
    obtain ⟨hinit, hrest⟩ := cut?_subset hcut
    split
    · simpa [texts] using ⟨hpart init hinit, hpart rest hrest⟩
    · rename_i condition increment hcut'
      obtain ⟨hcondition, hincrement⟩ := cut?_subset hcut'
      have hcondition := hpart condition (Subset.trans hcondition hrest)
      have hincrement := hpart increment (Subset.trans hincrement hrest)
      simpa [texts, and_assoc] using ⟨hpart init hinit, hcondition, hincrement⟩

theorem texts_ofBody : (ofBody t).texts ⊆ t := by
  rw [ofBody]
  split
  · exact stripTerminators_subset t
  · split
    · exact Subset.refl t
    · split
      · exact Subset.trans (trim_subset _) (Subset.trans (unwrap_subset _) (headerAfter_subset _ t))
      · split
        · exact texts_parseFor t
        · split
          · exact stripTerminators_subset t
          · split
            · exact stripTerminators_subset t
            · exact refl t

/-- **The characters of a statement** are those of its line. -/
theorem texts_parse? {raw : Text} {statement : Statement} (h : parse? raw = some statement) :
    statement.texts ⊆ raw := by
  rw [parse?] at h
  split at h
  · cases h
  · split at h
    · cases h
    · cases h
      exact Subset.trans (texts_ofBody _) (body_subset raw)

end Statement

/-! ## Commands -/

namespace Compiled

def vocabulary : Text := "set var = call if else end (void) 1"

/-- A command that leaves the block, or whose characters are those of `t` and of the vocabulary. -/
def Spelled (t : Text) (c : Command) : Prop := c.exit? = none → c.render ⊆ t ++ vocabulary

variable {t part : Text} {c : Command}

theorem spelled_exit (h : c.exit? ≠ none) : Spelled t c := fun hnone => absurd hnone h

/-- A command whose text is a word of the vocabulary and a text made of `t`. -/
theorem spelled_of_render {word : Text} (h : c.render = word ++ part)
    (hword : word ⊆ vocabulary) (hpart : part ⊆ t ++ vocabulary) : Spelled t c := by
  intro _
  rw [h]
  exact append_subset.2 ⟨subset_append_of_subset_right t hword, hpart⟩

theorem subset_of_subset (h : part ⊆ t) : part ⊆ t ++ vocabulary :=
  subset_append_of_subset_left vocabulary h

theorem spelled_raw (h : part ⊆ t) : Spelled t (.raw part) := fun _ => subset_of_subset h

theorem spelled_call (h : part ⊆ t) : Spelled t (.call part) :=
  spelled_of_render rfl (by decide) (subset_of_subset h)

theorem spelled_voidCall (h : part ⊆ t) : Spelled t (voidCall part) :=
  spelled_of_render rfl (by decide)
    (append_subset.2 ⟨subset_append_of_subset_right t (by decide), subset_of_subset h⟩)

theorem spelled_setExpr (h : part ⊆ t ++ vocabulary) : Spelled t (.setExpr part) :=
  spelled_of_render rfl (by decide) h

theorem spelled_setVar {lhs rhs : Text} (hlhs : lhs ⊆ t) (hrhs : rhs ⊆ t) :
    Spelled t (.setVar lhs rhs) := by
  intro _
  refine append_subset.2 ⟨append_subset.2 ⟨?_, subset_of_subset hlhs⟩, ?_⟩
  · exact subset_append_of_subset_right t (by decide)
  · exact cons_subset.2 ⟨mem_append_right t (by decide), subset_of_subset hrhs⟩

theorem spelled_branch {condition : Text} (h : condition ⊆ t ++ vocabulary)
    (step target : BreakPoint) :
    ∀ c ∈ branch condition step target, Spelled t c := by
  intro c hc
  simp only [branch, mem_cons, not_mem_nil, or_false] at hc
  rcases hc with rfl | rfl | rfl | rfl | rfl
  · exact spelled_of_render rfl (by decide) h
  · exact spelled_exit (by simp [Command.exit?])
  · exact fun _ => subset_append_of_subset_right t (by decide)
  · exact spelled_exit (by simp [Command.exit?])
  · exact fun _ => subset_append_of_subset_right t (by decide)

theorem spelled_lowerIf (header : Text) (step target : BreakPoint) :
    ∀ c ∈ lowerIf header step target, Spelled header c := by
  have hkeyword := dropHead?_subset "if" header
  rw [lowerIf]
  split
  · exact spelled_branch (subset_of_subset (Subset.trans (trim_subset _)
      (Subset.trans (without_subset _ _) hkeyword))) step target
  · split
    · exact spelled_branch (subset_of_subset (Subset.trans (trim_subset _) hkeyword)) step target
    · rename_i condition rest hcut
      obtain ⟨hcondition, hrest⟩ := Inserted.cutCondition?_subset hcut
      have hcalled : stripTerminators (rest.filter fun c => c ≠ '{' && c ≠ '}') ⊆ header :=
        Subset.trans (stripTerminators_subset _) (Subset.trans (filter_subset_self rest) hrest)
      intro c hc
      rcases mem_append.1 hc with hc | hc
      · rcases mem_cons.1 hc with rfl | hc
        · exact spelled_of_render rfl (by decide) (subset_of_subset hcondition)
        · split at hc
          · cases hc
          · split at hc <;> obtain rfl := mem_singleton.1 hc
            · exact spelled_voidCall hcalled
            · exact spelled_call hcalled
      · exact spelled_branch (subset_of_subset hcondition) step target c (mem_cons_of_mem _ hc)

theorem spelled_lowerAssignment (t : Text) (compound : Bool) :
    Spelled t (lowerAssignment t compound) := by
  rw [lowerAssignment]
  split
  · exact spelled_call (refl t)
  · split
    · exact spelled_raw (refl t)
    · rename_i lhs rhs hcut
      obtain ⟨hlhs, hrhs⟩ := cut?_subset hcut
      have hlast : (words lhs).getLast?.getD lhs ⊆ t := by
        cases h : (words lhs).getLast? with
        | none => exact hlhs
        | some word => exact Subset.trans (subset_of_mem_words (mem_of_getLast? h)) hlhs
      exact spelled_setVar hlast (Subset.trans (trim_subset rhs) hrhs)

theorem dropTypeWords_subset (ws : List Text) : dropTypeWords ws ⊆ ws := by
  fun_induction dropTypeWords ws with
  | case1 w w' ws _ ih => exact subset_cons_of_subset w ih
  | case2 | case3 => exact refl _

theorem stripDeclaration_subset (t : Text) : stripDeclaration t ⊆ t ++ vocabulary := by
  intro c hc
  rcases mem_join hc with hc | ⟨word, hword, hc⟩
  · obtain rfl := mem_singleton.1 hc
    exact mem_append_right t (by decide)
  · exact mem_append_left _ (subset_of_mem_words (dropTypeWords_subset _ hword) hc)

theorem spelled_assignments (init : Text) : ∀ c ∈ assignments init, Spelled init c := by
  intro c hc
  obtain ⟨part, hpart, rfl⟩ := mem_map.1 hc
  obtain ⟨piece, hpiece, rfl⟩ := mem_map.1 (mem_filter.1 hpart).1
  have hsub : trim piece ⊆ init := Subset.trans (trim_subset piece) (subset_of_mem_splitOn hpiece)
  refine spelled_setExpr (Subset.trans (stripDeclaration_subset _) ?_)
  exact append_subset.2 ⟨subset_of_subset hsub, subset_append_right init vocabulary⟩

/-- The condition of a counting loop, as the debugger is asked for it. -/
def loopCondition (condition : Text) : Text :=
  '(' :: (if condition.isEmpty then ['1'] else condition) ++ [')']

theorem loopCondition_subset (condition : Text) :
    loopCondition condition ⊆ condition ++ vocabulary := by
  refine append_subset.2 ⟨cons_subset.2 ⟨?_, ?_⟩, ?_⟩
  · exact mem_append_right condition (by decide)
  · split
    · exact subset_append_of_subset_right condition (by decide)
    · exact subset_append_left condition vocabulary
  · exact subset_append_of_subset_right condition (by decide)

theorem Spelled.mono {s : Text} {c : Command} (h : Spelled s c) (hs : s ⊆ t) : Spelled t c :=
  fun hexit => Subset.trans (h hexit)
    (append_subset.2 ⟨subset_of_subset hs, subset_append_right t vocabulary⟩)

theorem spelled_backEdge {b target : BreakPoint} {condition : Text} {advance : List Command}
    (hcondition : condition ⊆ t ++ vocabulary) (hadvance : ∀ c ∈ advance, Spelled t c) :
    ∀ block ∈ backEdge? b target advance condition (b.offset 1), ∀ c ∈ block.commands,
      Spelled t c := by
  intro block hblock c hc
  rw [backEdge?] at hblock
  split at hblock
  · obtain rfl := Option.some.inj hblock
    rcases mem_append.1 hc with hc | hc
    · exact hadvance c hc
    · exact spelled_branch hcondition _ _ c hc
  · cases hblock

/-- **The characters of a command** come from its statement. -/
theorem spelled_lower (b target : BreakPoint) (statement : Statement) :
    (∀ c ∈ (lower b target statement).commands,
      statement.isCounting = true ∧ (c = .ifs initFlag ∨ c = clearFlag) ∨
        Spelled statement.texts c) ∧
    ∀ block ∈ (lower b target statement).block, ∀ c ∈ block.commands,
      Spelled statement.texts c := by
  have hself : ∀ t : Text, t ⊆ t ++ vocabulary := fun t => subset_append_left t vocabulary
  cases statement with
  | returns text =>
    refine ⟨fun c hc => .inr ?_, by simp [lower]⟩
    simp only [lower, mem_cons, not_mem_nil, or_false] at hc
    rcases hc with rfl | rfl
    · exact spelled_raw (refl text)
    · exact spelled_exit (by simp [Command.exit?])
  | ifs header => exact ⟨fun c hc => .inr (spelled_lowerIf header _ _ c hc), by simp [lower]⟩
  | whiles condition =>
    exact ⟨fun c hc => .inr (spelled_branch (hself condition) _ _ c hc),
      spelled_backEdge (hself condition) (forall_mem_nil _)⟩
  | fors init condition increment =>
    have hcondition : loopCondition condition ⊆ texts (.fors init condition increment)
        ++ vocabulary := by
      refine Subset.trans (loopCondition_subset condition) (append_subset.2 ⟨?_, ?_⟩)
      · exact subset_of_subset (by simp [texts])
      · exact subset_append_right _ vocabulary
    refine ⟨fun c hc => ?_, spelled_backEdge hcondition fun c hc => ?_⟩
    · rcases mem_append.1 hc with hc | hc
      · rw [initialise_eq] at hc
        simp only [cons_append, mem_cons, mem_append, not_mem_nil, or_false] at hc
        rcases hc with rfl | (hc | rfl) | rfl
        · exact .inl ⟨rfl, .inl rfl⟩
        · exact .inr ((spelled_assignments init c hc).mono (by simp [texts]))
        · exact .inl ⟨rfl, .inr rfl⟩
        · exact .inr fun _ => subset_append_of_subset_right _ (by decide)
      · exact .inr (spelled_branch hcondition _ _ c hc)
    · split at hc
      · cases hc
      · obtain rfl := mem_singleton.1 hc
        exact spelled_setExpr (subset_of_subset (by simp [texts]))
  | assignment text compound =>
    refine ⟨fun c hc => .inr ?_, by simp [lower]⟩
    obtain rfl := mem_singleton.1 hc
    exact spelled_lowerAssignment text compound
  | call expr =>
    refine ⟨fun c hc => .inr ?_, by simp [lower]⟩
    obtain rfl := mem_singleton.1 hc
    exact spelled_voidCall (Subset.refl expr)
  | other text =>
    have hsub : trim (text.filter fun c => c ∉ ['{', '}', ';']) ⊆ text :=
      Subset.trans (trim_subset _) (filter_subset_self text)
    rw [lower]
    split
    · exact ⟨by simp, by simp⟩
    · split
      · refine ⟨fun c hc => .inr ?_, by simp⟩
        obtain rfl := mem_singleton.1 hc
        exact spelled_call hsub
      · refine ⟨fun c hc => .inr ?_, by simp⟩
        obtain rfl := mem_singleton.1 hc
        exact spelled_raw hsub

end Compiled

end PatchTriage
