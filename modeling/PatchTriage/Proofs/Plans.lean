import PatchTriage.Patch.Plan
import PatchTriage.Proofs.LiteralLines

/-!
# Plans and debugger blocks agree

An edit that can be put into a binary can also be performed by a debugger.
-/

namespace PatchTriage

open Compiled List Text

/-! ## Expressions -/

namespace Statement

theorem semicolon_notMem_stripTerminators (t : Text) : ';' ∉ stripTerminators t := by
  intro h
  have hmem := trim_subset _ h
  simp [without] at hmem

theorem stripTerminators_ne_nil_of_isCompound {t : Text} (h : isCompound t = true) :
    stripTerminators t ≠ [] := by
  obtain ⟨op, hop, hcontains⟩ := any_eq_true.1 h
  have hall : (compoundOperators.all fun op => op.any fun c => !isBlank c && c != ';') = true := by
    decide
  obtain ⟨c, hc, hsolid⟩ := any_eq_true.1 (all_eq_true.1 hall op hop)
  rw [Bool.and_eq_true, Bool.not_eq_true', bne_iff_ne] at hsolid
  have hmem : c ∈ t := (contains_iff.1 hcontains).subset hc
  exact ne_nil_of_mem (mem_stripTerminators hmem hsolid.1 hsolid.2)

theorem stripTerminators_ne_nil_of_hasCall {t : Text} (h : hasCall t = true) :
    stripTerminators t ≠ [] := by
  rw [hasCall, Bool.and_eq_true, beq_iff_eq] at h
  have hmem : '(' ∈ t := dropWhile_subset _ (dropWhile_subset _ (mem_of_head? h.2))
  exact ne_nil_of_mem (mem_stripTerminators hmem (by decide) (by decide))

theorem eq_ofBody_of_parse? {raw : Text} {statement : Statement} (h : parse? raw = some statement) :
    statement = ofBody (body raw) := by
  rw [parse?] at h
  split_ifs at h
  exact (Option.some.inj h).symm

end Statement

namespace Plan

open Statement

/-- The command with which a debugger performs the expression of a statement. -/
inductive Performs (expression : Text) : Statement → Command → Prop where
  | compound : Performs expression (.assignment expression true) (.call expression)
  /-- Of what stands before the first assignment sign only the last word is assigned to. -/
  | simple {lhs rhs : Text} (hcut : expression = lhs ++ '=' :: rhs) (hfirst : '=' ∉ lhs) :
    Performs expression (.assignment expression false)
      (.setVar ((words lhs).getLast?.getD lhs) (trim rhs))
  | call : Performs expression (.call expression) (.call ("(void)" ++ expression))

theorem Performs.ne_raw {expression : Text} {statement : Statement} {effect : Command}
    (h : Performs expression statement effect) (text : Text) : effect ≠ .raw text := by
  cases h <;> simp

variable {p : Patch} {plan : Plan} {t expression : Text}

/-- The statements that have an expression, which is what is left of the line. -/
theorem expression?_ofBody_cases (h : expression? (ofBody t) = some expression) :
    expression = stripTerminators t ∧
      ((isCompound t || assigns t) = true ∧ ofBody t = .assignment expression (isCompound t) ∨
        hasCall t = true ∧ ofBody t = .call expression) := by
  rw [ofBody] at h ⊢
  split_ifs at h ⊢ with hreturn hif hwhile hloop hassigns hcall
  · cases h
  · cases h
  · cases h
  · obtain ⟨_, _, _, hfor⟩ := exists_parseFor t
    rw [hfor] at h
    cases h
  · cases h
    exact ⟨rfl, .inl ⟨hassigns, rfl⟩⟩
  · cases h
    exact ⟨rfl, .inr ⟨hcall, rfl⟩⟩
  · cases h

theorem performs_lower (h : expression? (ofBody t) = some expression) (b target : BreakPoint) :
    expression ≠ [] ∧ ∃ effect, Performs expression (ofBody t) effect ∧
      lower b target (ofBody t) = { commands := [effect] } := by
  obtain ⟨rfl, ⟨hassigns, hstatement⟩ | ⟨hcall, hstatement⟩⟩ := expression?_ofBody_cases h
  · rw [hstatement]
    cases hcompound : isCompound t with
    | true => exact ⟨stripTerminators_ne_nil_of_isCompound hcompound, _, .compound, rfl⟩
    | false =>
      rw [hcompound, Bool.false_or] at hassigns
      have hmem : '=' ∈ stripTerminators t :=
        mem_stripTerminators (mem_of_assigns hassigns) (by decide) (by decide)
      obtain ⟨lhs, rhs, hcut, hfirst, hlower⟩ := lowerAssignment_of_mem hmem
      refine ⟨ne_nil_of_mem hmem, _, .simple hcut hfirst, ?_⟩
      rw [lower, hlower]
  · rw [hstatement]
    exact ⟨stripTerminators_ne_nil_of_hasCall hcall, _, .call, rfl⟩

/-! ## Patches with a plan -/

/-- **The patches that have a plan**: one edit, which removes nothing and goes on at the next line,
with one statement that has an expression without quotes. -/
theorem ofPatch?_eq_some_iff : ofPatch? p = some plan ↔
    p.requiresRecompilation = false ∧ ∃ f statement, p.fragments = [(plan.breakPoint, f)] ∧
      f.removed = [] ∧ f.jumpLine = none ∧ statements f = [statement] ∧
      expression? statement = some plan.expression ∧ '"' ∉ plan.expression ∧
        '\'' ∉ plan.expression := by
  have hbare (e : Text) : (e.any fun c => c = '"' || c = '\'') = false ↔ '"' ∉ e ∧ '\'' ∉ e := by
    rw [any_eq_false]
    constructor
    · intro h
      exact ⟨fun hc => h _ hc (by decide), fun hc => h _ hc (by decide)⟩
    · rintro ⟨hdouble, hsingle⟩ c hc hquote
      rw [Bool.or_eq_true, decide_eq_true_eq, decide_eq_true_eq] at hquote
      rcases hquote with rfl | rfl
      · exact hdouble hc
      · exact hsingle hc
  rw [ofPatch?.eq_def]
  constructor
  · intro h
    split at h
    · rename_i b f hrecompile hfragments
      split at h
      · cases h
      · rename_i hkeeps
        rw [Bool.or_eq_true, not_or] at hkeeps
        split at h
        · rename_i statement hstatements
          obtain ⟨e, he, hplan⟩ := Option.bind_eq_some_iff.1 h
          split at hplan
          · cases hplan
          · rename_i hquotes
            cases hplan
            refine ⟨hrecompile, f, statement, hfragments, ?_, ?_, hstatements, he, ?_⟩
            · simpa using hkeeps.1
            · simpa using hkeeps.2
            · exact (hbare e).1 (Bool.eq_false_iff.2 hquotes)
        · cases h
    · cases h
  · rintro ⟨hrecompile, f, statement, hfragments, hremoved, hjump, hstatements, he, hquotes⟩
    rw [Compiled.statements] at hstatements
    simp only [hrecompile, hfragments, hremoved, hjump, hstatements, he, Option.bind_some,
      (hbare _).2 hquotes]
    rfl

/-- **Both ways of applying a patch agree.** The debugger stops where the plan says, performs the
expression of the plan by one command, which is never a line passed on as it stands, and goes on at
the next line. -/
theorem ofPatch?_agrees (h : ofPatch? p = some plan) :
    plan.expression ≠ [] ∧ ';' ∉ plan.expression ∧ '"' ∉ plan.expression ∧ '\'' ∉ plan.expression ∧
      ∃ f statement effect, p.fragments = [(plan.breakPoint, f)] ∧
        statements f = [statement] ∧ Performs plan.expression statement effect ∧
        (∀ text, effect ≠ .raw text) ∧
        ofFragments p.fragments =
          [{ breakPoint := plan.breakPoint
             blocks :=
              [{ location := plan.breakPoint
                 commands := [effect, .jump (plan.breakPoint.offset 1)] }]
             jumpTarget := plan.breakPoint.offset 1
             isLoop := false }] := by
  obtain ⟨-, f, statement, hfragments, hremoved, hjump, hstatements, he, hquotes⟩ :=
    ofPatch?_eq_some_iff.1 h
  obtain ⟨t, rfl⟩ : ∃ t, statement = ofBody t := by
    obtain ⟨raw, -, hraw⟩ := mem_filterMap.1 (hstatements ▸ mem_singleton_self statement)
    exact ⟨body raw, eq_ofBody_of_parse? hraw⟩
  have htarget : f.continuation plan.breakPoint = plan.breakPoint.offset 1 := by
    rw [Fragment.continuation, hjump, hremoved]
    rfl
  obtain ⟨hne, effect, hperforms, hlower⟩ :=
    performs_lower he plan.breakPoint (plan.breakPoint.offset 1)
  have hsemicolon : ';' ∉ plan.expression :=
    (expression?_ofBody_cases he).1 ▸ semicolon_notMem_stripTerminators t
  refine ⟨hne, hsemicolon, hquotes.1, hquotes.2, f, ofBody t, effect, hfragments,
    hstatements, hperforms,
    hperforms.ne_raw, ?_⟩
  rw [statements] at hstatements
  simp only [ofFragments, hfragments, ofFragment, map_cons, map_nil, htarget,
    hstatements, hlower]
  rfl

def declaration : Patch :=
  { id := "p", path := "p"
    fragments := [(⟨"f.c", 7⟩, { inserted := ["  /* one less */", "\tint len = len - 1;"] })] }

theorem ofPatch?_agrees_declaration :
    ofPatch? declaration = some ⟨⟨"f.c", 7⟩, "int len = len - 1"⟩ ∧
      ∃ statement effect, Performs "int len = len - 1" statement effect ∧
        ofFragments declaration.fragments =
          [{ breakPoint := ⟨"f.c", 7⟩
             blocks := [{ location := ⟨"f.c", 7⟩, commands := [effect, .jump ⟨"f.c", 8⟩] }]
             jumpTarget := ⟨"f.c", 8⟩
             isLoop := false }] := by
  have hplan : ofPatch? declaration = some ⟨⟨"f.c", 7⟩, "int len = len - 1"⟩ := by decide +kernel
  obtain ⟨-, -, -, -, _, statement, effect, -, -, hperforms, -, hcompiled⟩ := ofPatch?_agrees hplan
  exact ⟨hplan, statement, effect, hperforms, hcompiled⟩

end Plan

end PatchTriage
