import PatchTriage.Patch.Plan
import PatchTriage.Proofs.LiteralLines

/-!
# The parts of statements

Statements are taken apart by characters, whatever these stand in. The header of a loop is cut at
semicolons and commas, and at the last parenthesis of the line. What is assigned to is the last word
before the sign.
-/

namespace PatchTriage

open Command

open List hiding splitOn

namespace Text

variable {s t : Text} {sep c : Char}

/-! ## Nesting -/

/-- How deep a text ends that starts at some depth; none if a parenthesis closes nothing. -/
def nesting? (depth : Nat) : Text → Option Nat
  | [] => some depth
  | c :: t =>
    if c = '(' then nesting? (depth + 1) t
    else if c = ')' then if depth = 0 then none else nesting? (depth - 1) t
    else nesting? depth t

def Balanced (t : Text) : Prop := nesting? 0 t = some 0

instance : Decidable (Balanced t) := inferInstanceAs (Decidable (_ = _))

def isParen (c : Char) : Bool := c = '(' || c = ')'

def parens (t : Text) : Text := t.filter isParen

theorem nesting?_parens (depth : Nat) (t : Text) :
    nesting? depth (parens t) = nesting? depth t := by
  induction t generalizing depth with
  | nil => rfl
  | cons c t ih =>
    simp only [parens] at ih
    by_cases hopen : c = '('
    · simp [parens, isParen, nesting?, hopen, ih]
    · by_cases hclose : c = ')'
      · simp [parens, isParen, nesting?, hclose, ih]
      · simp [parens, isParen, nesting?, hopen, hclose, ih]

theorem nesting?_append (depth : Nat) (s t : Text) :
    nesting? depth (s ++ t) = (nesting? depth s).bind (nesting? · t) := by
  induction s generalizing depth with
  | nil => rfl
  | cons c s ih =>
    simp only [cons_append, nesting?, ih]
    split_ifs <;> rfl

theorem balanced_congr (h : parens s = parens t) : Balanced s ↔ Balanced t := by
  rw [Balanced, Balanced, ← nesting?_parens, h, nesting?_parens]

theorem Balanced.append_iff (hs : Balanced s) (t : Text) : Balanced (s ++ t) ↔ Balanced t := by
  rw [Balanced, nesting?_append, hs]
  rfl

theorem parens_append (s t : Text) : parens (s ++ t) = parens s ++ parens t := filter_append ..

theorem parens_cut (hsep : isParen sep = false) (s t : Text) :
    parens (s ++ sep :: t) = parens (s ++ t) := by
  simp [parens, hsep]

/-- A text is balanced up to a cut exactly if it is balanced from there on. -/
theorem Balanced.cut_iff (hs : Balanced s) (hsep : isParen sep = false) (t : Text) :
    Balanced (s ++ sep :: t) ↔ Balanced t := by
  rw [balanced_congr (parens_cut hsep s t), hs.append_iff]

theorem Balanced.not_close (hs : Balanced s) (t : Text) : ¬ Balanced (s ++ ')' :: t) := by
  rw [hs.append_iff]
  exact fun h => by cases h

theorem nesting?_succ {depth final : Nat} (h : nesting? depth t = some final) :
    nesting? (depth + 1) t = some (final + 1) := by
  induction t generalizing depth with
  | nil => exact congrArg _ (congrArg _ (Option.some.inj h))
  | cons c t ih =>
    rw [nesting?] at h ⊢
    split_ifs at h ⊢ with hopen hclose hzero hsucc
    · exact ih h
    · omega
    · have hdepth : depth - 1 + 1 = depth + 1 - 1 := by omega
      exact hdepth ▸ ih h
    · exact ih h

theorem Balanced.paren (hs : Balanced s) : Balanced ('(' :: s ++ [')']) := by
  have hdeep : nesting? 1 s = some 1 := nesting?_succ hs
  rw [Balanced, cons_append, nesting?, if_pos rfl, nesting?_append, hdeep]
  rfl

/-! ## Cuts that leave the parentheses -/

theorem parens_of_blank (h : ∀ c ∈ t, isBlank c = true) : parens t = [] := by
  refine filter_eq_nil_iff.2 fun c hc hparen => ?_
  have hblank := h c hc
  rcases Bool.or_eq_true_iff.1 hparen with hp | hp <;>
    · rw [of_decide_eq_true hp] at hblank
      exact absurd hblank (by decide)

theorem parens_trim (t : Text) : parens (trim t) = parens t := by
  obtain ⟨a, b, ha, hb, hcut, -⟩ := exists_trim t
  conv_rhs => rw [hcut, parens_append, parens_append, parens_of_blank ha, parens_of_blank hb]
  simp

theorem balanced_trim (t : Text) : Balanced (trim t) ↔ Balanced t := balanced_congr (parens_trim t)

theorem parens_wordsFrom (word t : Text) :
    (wordsFrom word t).flatMap parens = parens word ++ parens t := by
  induction t generalizing word with
  | nil =>
    rw [wordsFrom]
    split_ifs with hword
    · simp [isEmpty_iff.1 hword, parens]
    · simp [parens]
  | cons c t ih =>
    have hcons : parens (c :: t) = parens [c] ++ parens t := parens_append [c] t
    rw [wordsFrom, hcons]
    split_ifs with hblank hword
    · rw [ih, parens_of_blank (t := [c]) (by simpa using hblank), isEmpty_iff.1 hword]
      rfl
    · rw [flatMap_cons, ih, parens_of_blank (t := [c]) (by simpa using hblank)]
      rfl
    · rw [ih, parens_append, append_assoc]

theorem parens_join (ws : List Text) : parens (join [' '] ws) = ws.flatMap parens := by
  induction ws with
  | nil => rfl
  | cons w ws ih =>
    cases ws with
    | nil => simp [join]
    | cons w' ws => rw [join_cons_cons, parens_append, parens_append, ih]; rfl

theorem balanced_of_parens (h : parens t = []) : Balanced t := (balanced_congr (t := []) h).2 rfl

/-- White space makes no difference to the parentheses of the pieces of a text. -/
theorem map_parens_splitOn (sep : Char) (t : Text) : (splitOn sep t).map parens =
    (splitOn sep (t.filter fun c => isParen c || c = sep)).map parens := by
  induction t with
  | nil => rfl
  | cons c t ih =>
    by_cases hc : c = sep
    · simp [splitOn, hc, ih]
    obtain ⟨piece, rest, hs, hcons⟩ := splitOn_cons_of_ne hc t
    rw [hcons]
    rw [hs] at ih
    cases hp : isParen c with
    | true =>
      obtain ⟨piece', rest', hs', hcons'⟩ :=
        splitOn_cons_of_ne hc (t.filter fun c => isParen c || c = sep)
      rw [hs'] at ih
      obtain ⟨hpiece, hrest⟩ := cons.inj ih
      rw [filter_cons_of_pos (by simp [hp]), hcons', map_cons, map_cons, hrest]
      simpa [parens, hp] using hpiece
    | false =>
      rw [filter_cons_of_neg (by simp [hp, hc]), ← ih, map_cons, map_cons]
      simp [parens, hp]

theorem balanced_splitOn_trim (hsep : isBlank sep = false) (t : Text) :
    (∀ piece ∈ splitOn sep (trim t), Balanced piece) ↔ ∀ piece ∈ splitOn sep t, Balanced piece := by
  have hpieces (t : Text) : (∀ piece ∈ splitOn sep t, Balanced piece) ↔
      ∀ piece ∈ (splitOn sep t).map parens, Balanced piece := by
    simp only [forall_mem_map, Balanced, nesting?_parens]
  have hblank {a : Text} (ha : ∀ c ∈ a, isBlank c = true) :
      a.filter (fun c => isParen c || c = sep) = [] := by
    refine filter_eq_nil_iff.2 fun c hc hkept => ?_
    rcases Bool.or_eq_true_iff.1 hkept with hp | hp
    · exact filter_eq_nil_iff.1 (parens_of_blank ha) c hc hp
    · rw [← of_decide_eq_true hp, ha c hc] at hsep
      cases hsep
  obtain ⟨a, b, ha, hb, hcut, -⟩ := exists_trim t
  have hsame : (trim t).filter (fun c => isParen c || c = sep) =
      t.filter fun c => isParen c || c = sep := by
    conv_rhs => rw [hcut, filter_append, filter_append, hblank ha, hblank hb]
    simp
  rw [hpieces, map_parens_splitOn, hsame, ← map_parens_splitOn, ← hpieces]

theorem forall_cut_iff {rest : Text} (hs : sep ∉ s) {p : Text → Prop} :
    (∀ a b, s ++ sep :: rest = a ++ sep :: b → p a) ↔
      p s ∧ ∀ a b, rest = a ++ sep :: b → p (s ++ sep :: a) := by
  constructor
  · refine fun h => ⟨h s rest rfl, fun a b heq => h _ b ?_⟩
    rw [heq, append_assoc]
    rfl
  · rintro ⟨hfirst, hrest⟩ a b heq
    rcases append_eq_append_iff.1 heq with ⟨more, rfl, hmore⟩ | ⟨more, rfl, hmore⟩
    · cases more with
      | nil => simpa using hfirst
      | cons c more =>
        obtain ⟨rfl, rfl⟩ := cons.inj hmore
        exact hrest more b rfl
    · cases more with
      | nil => simpa using hfirst
      | cons c more =>
        obtain ⟨rfl, -⟩ := cons.inj hmore
        exact absurd (by simp) hs

/-- The pieces of a text are balanced exactly if the text is, and is cut outside of parentheses. -/
theorem balanced_splitOn_iff (hsep : isParen sep = false) (t : Text) :
    (∀ piece ∈ splitOn sep t, Balanced piece) ↔
      Balanced t ∧ ∀ a b, t = a ++ sep :: b → Balanced a := by
  induction hn : t.length using Nat.strongRecOn generalizing t with
  | ind n ih =>
  by_cases hmem : sep ∈ t
  · obtain ⟨s, rest, rfl, hs⟩ := eq_append_cons_of_mem hmem
    have hlt : rest.length < n := by
      rw [← hn, length_append, length_cons]
      omega
    rw [splitOn_append, splitOn_of_not_mem hs, singleton_append, forall_mem_cons,
      ih _ hlt rest rfl, forall_cut_iff hs]
    constructor
    · rintro ⟨hbal, hrest, hcuts⟩
      exact ⟨(hbal.cut_iff hsep rest).2 hrest, hbal, fun a b h =>
        (hbal.cut_iff hsep a).2 (hcuts a b h)⟩
    · rintro ⟨hall, hbal, hcuts⟩
      exact ⟨hbal, (hbal.cut_iff hsep rest).1 hall, fun a b h =>
        (hbal.cut_iff hsep a).1 (hcuts a b h)⟩
  · rw [splitOn_of_not_mem hmem, forall_mem_singleton]
    exact ⟨fun h => ⟨h, fun a b heq => absurd (heq ▸ by simp) hmem⟩, And.left⟩

end Text

/-! ## Headers of loops -/

namespace Statement

open Text

def forInner (t : Text) : Text :=
  let header := headerAfter "for" t
  let inner := (dropHead? "(" header).getD header
  (cutLast? ')' inner).elim inner Prod.fst

/-- Whether the header of a counting loop is cut at a character, behind what stands before it. -/
def isCutAt (before : Text) (c : Char) : Bool :=
  c = ';' && before.count ';' < 2 || c = ',' && ';' ∉ before

variable {init condition increment : Text}

def CutOutside (t : Text) : Prop := ∀ a c b, t = a ++ c :: b → isCutAt a c = true → Balanced a

instance (t : Text) : Decidable (CutOutside t) :=
  decidable_of_iff (∀ k < t.length, isCutAt (t.take k) (t.getD k ' ') = true → Balanced (t.take k))
    ⟨fun h a c b heq hcut => by simpa [heq, hcut] using h a.length (by simp [heq]),
      fun h k hk hcut => h _ _ (t.drop (k + 1)) (by simp [hk]) hcut⟩

theorem cutOutside_iff (t : Text) :
    CutOutside t ↔ (∀ a b, t = a ++ ';' :: b → a.count ';' < 2 → Balanced a) ∧
        ∀ a b, t = a ++ ',' :: b → ';' ∉ a → Balanced a := by
  simp only [CutOutside, isCutAt, Bool.or_eq_true, Bool.and_eq_true, decide_eq_true_eq]
  constructor
  · exact fun h => ⟨fun a b heq hlt => h a ';' b heq (.inl ⟨rfl, hlt⟩),
      fun a b heq hnot => h a ',' b heq (.inr ⟨rfl, hnot⟩)⟩
  · rintro ⟨hsemi, hcomma⟩ a c b heq (⟨rfl, hlt⟩ | ⟨rfl, hnot⟩)
    · exact hsemi a b heq hlt
    · exact hcomma a b heq hnot

theorem forall_comma_iff {rest : Text} (hinit : ';' ∉ init) {p : Text → Prop} :
    (∀ a b, init ++ ';' :: rest = a ++ ',' :: b → ';' ∉ a → p a) ↔
      ∀ a b, init = a ++ ',' :: b → p a := by
  constructor
  · rintro h a b rfl
    exact h a (b ++ ';' :: rest) (by simp) fun hmem => hinit (mem_append_left _ hmem)
  · intro h a b heq hnot
    rcases append_eq_append_iff.1 heq with ⟨more, rfl, hmore⟩ | ⟨more, rfl, hmore⟩
    · cases more with
      | nil => cases hmore
      | cons c more =>
        obtain ⟨rfl, -⟩ := cons.inj hmore
        exact absurd (by simp) hnot
    · cases more with
      | nil => cases hmore
      | cons c more =>
        obtain ⟨rfl, -⟩ := cons.inj hmore
        exact h a more rfl

theorem parts_balanced_iff {t : Text} (h : parseFor t = .fors init condition increment) :
    ((∀ piece ∈ splitOn ',' init, Balanced piece) ∧ Balanced condition ∧ Balanced increment) ↔
      Balanced (forInner t) ∧ CutOutside (forInner t) := by
  rw [cutOutside_iff]
  have hshape : parseFor t = (cut? ';' (forInner t)).elim (fors (trim (forInner t)) [] []) fun p =>
      (cut? ';' p.2).elim (fors (trim p.1) (trim p.2) []) fun q =>
        fors (trim p.1) (trim q.1) (trim q.2) := by
    rw [parseFor, ← forInner]
    cases cut? ';' (forInner t) with
    | none => rfl
    | some p => cases h : cut? ';' p.2 <;> simp [h]
  have hnil : Balanced [] := rfl
  rw [hshape] at h
  cases hfirst : cut? ';' (forInner t) with
  | none =>
    have hnone : ';' ∉ forInner t := fun hmem => cut?_ne_none hmem hfirst
    rw [hfirst] at h
    obtain ⟨rfl, rfl, rfl⟩ := fors.inj h
    rw [balanced_splitOn_trim (by decide), balanced_splitOn_iff (by decide)]
    constructor
    · rintro ⟨⟨hall, hcommas⟩, -⟩
      exact ⟨hall, fun a b heq => absurd (heq ▸ by simp) hnone, fun a b heq _ => hcommas a b heq⟩
    · rintro ⟨hall, -, hcommas⟩
      refine ⟨⟨hall, fun a b heq => hcommas a b heq fun hmem => hnone ?_⟩, hnil, hnil⟩
      rw [heq]
      exact mem_append_left _ hmem
  | some parts =>
    obtain ⟨i, rest⟩ := parts
    obtain ⟨hinner, hi⟩ := cut?_eq_some_iff.1 hfirst
    have hcount (a : Text) : (i ++ ';' :: a).count ';' < 2 ↔ ';' ∉ a := by
      rw [count_append, count_eq_zero.2 hi, count_cons_self, ← count_eq_zero]
      omega
    have hzero : i.count ';' < 2 := by
      rw [count_eq_zero.2 hi]
      decide
    rw [hinner, forall_cut_iff hi, forall_comma_iff hi]
    cases hsecond : cut? ';' rest with
    | none =>
      have hnone : ';' ∉ rest := fun hmem => cut?_ne_none hmem hsecond
      simp only [hfirst, hsecond, Option.elim_some, Option.elim_none] at h
      obtain ⟨rfl, rfl, rfl⟩ := fors.inj h
      rw [balanced_splitOn_trim (by decide), balanced_splitOn_iff (by decide), balanced_trim]
      constructor
      · rintro ⟨⟨hbal, hcommas⟩, hrest, -⟩
        exact ⟨(hbal.cut_iff (by decide) rest).2 hrest,
          ⟨fun _ => hbal, fun a b heq => absurd (heq ▸ by simp) hnone⟩, hcommas⟩
      · rintro ⟨hall, ⟨hcut, -⟩, hcommas⟩
        have hbal := hcut hzero
        exact ⟨⟨hbal, hcommas⟩, (hbal.cut_iff (by decide) rest).1 hall, hnil⟩
    | some parts =>
      obtain ⟨c, n⟩ := parts
      obtain ⟨rfl, hc⟩ := cut?_eq_some_iff.1 hsecond
      simp only [hfirst, hsecond, Option.elim_some] at h
      obtain ⟨rfl, rfl, rfl⟩ := fors.inj h
      rw [balanced_splitOn_trim (by decide), balanced_splitOn_iff (by decide), balanced_trim,
        balanced_trim, forall_cut_iff hc]
      constructor
      · rintro ⟨⟨hbal, hcommas⟩, hcondition, hincrement⟩
        refine ⟨(hbal.cut_iff (by decide) _).2 ((hcondition.cut_iff (by decide) n).2 hincrement),
          ⟨fun _ => hbal, fun _ => (hbal.cut_iff (by decide) c).2 hcondition, ?_⟩, hcommas⟩
        exact fun a b _ hlt => absurd (by simp) ((hcount _).1 hlt)
      · rintro ⟨hall, ⟨hcut, hcut', -⟩, hcommas⟩
        have hbal := hcut hzero
        have hcondition := (hbal.cut_iff (by decide) c).1 (hcut' ((hcount c).2 hc))
        exact ⟨⟨hbal, hcommas⟩, hcondition,
          (hcondition.cut_iff (by decide) n).1 ((hbal.cut_iff (by decide) _).1 hall)⟩

end Statement

/-! ## What a debugger evaluates -/

def operand? : Command → Option Text
  | .ifs condition => some condition
  | .setExpr expr => some expr
  | _ => none

namespace Compiled

open Text Statement

variable {raw init condition increment : Text} {statement : Statement} {f : Fragment}

def operands (c : Compiled) : List Text :=
  c.blocks.flatMap fun block => block.commands.filterMap operand?

def stepOperands (step : Step) : List Text :=
  (step.commands ++ step.block.elim [] Block.commands).filterMap operand?

/-- Whether all texts are balanced that a line adds to those of a fragment, wherever it is inserted.
-/
def AllBalanced (raw : Text) : Prop :=
  ∀ b f before after, f.inserted = before ++ raw :: after → ∀ text ∈ (ofFragment b f).operands,
    text ∈ (ofFragment b { f with inserted := before ++ after }).operands ∨ Balanced text

/-- Behind the commands of its statements, a block at a break point has a jump at most. -/
theorem exists_leave (b : BreakPoint) (f : Fragment) :
    ∃ leave, (leave = [] ∨ leave = [.jump (f.continuation b)]) ∧
      primary b f = commandsOf b (f.continuation b) (statements f) ++ leave := by
  rw [primary]
  split_ifs
  exacts [⟨[], .inl rfl, rfl⟩, ⟨_, .inr rfl, rfl⟩]

theorem mem_operands_iff {b : BreakPoint} {text : Text} : text ∈ (ofFragment b f).operands ↔
    ∃ s ∈ statements f, text ∈ stepOperands (lower b (f.continuation b) s) := by
  have hprimary : text ∈ (primary b f).filterMap operand? ↔
      ∃ s ∈ statements f, text ∈ (lower b (f.continuation b) s).commands.filterMap operand? := by
    obtain ⟨leave, hleave, hprimary⟩ := exists_leave b f
    rw [hprimary]
    rcases hleave with rfl | rfl <;> simp [commandsOf, mem_filterMap, operand?]
  have hblocks : (∃ block ∈ (steps b f).filterMap Step.block,
      text ∈ block.commands.filterMap operand?) ↔
      ∃ s ∈ statements f,
        text ∈ ((lower b (f.continuation b) s).block.elim [] Block.commands).filterMap
          operand? := by
    constructor
    · rintro ⟨block, hblock, htext⟩
      obtain ⟨step, hstep, hsome⟩ := mem_filterMap.1 hblock
      obtain ⟨s, hs, rfl⟩ := mem_map.1 hstep
      exact ⟨s, hs, by rwa [hsome]⟩
    · rintro ⟨s, hs, htext⟩
      cases hblock : (lower b (f.continuation b) s).block with
      | none =>
        rw [hblock] at htext
        cases htext
      | some block =>
        rw [hblock] at htext
        exact ⟨block, mem_filterMap.2 ⟨_, mem_map_of_mem hs, hblock⟩, htext⟩
  rw [operands, blocks_eq, flatMap_cons, mem_append, hprimary, mem_flatMap, hblocks]
  simp only [stepOperands, filterMap_append, mem_append]
  grind

theorem allBalanced_iff (h : parse? raw = some statement) : AllBalanced raw ↔
    ∀ b (f : Fragment), ∀ text ∈ stepOperands (lower b (f.continuation b) statement),
      Balanced text := by
  constructor
  · intro hall b f text htext
    have hmem : statement ∈ statements { f with inserted := [raw] } := by simp [statements, h]
    refine (hall b { f with inserted := [raw] } [] [] rfl text
      (mem_operands_iff.2 ⟨statement, hmem, htext⟩)).resolve_left fun hnone => ?_
    obtain ⟨s, hs, -⟩ := mem_operands_iff.1 hnone
    cases hs
  · intro hall b f before after hf text htext
    obtain ⟨s, hs, htext⟩ := mem_operands_iff.1 htext
    obtain ⟨line, hline, hs⟩ := mem_filterMap.1 hs
    rw [hf, mem_append, mem_cons] at hline
    by_cases heq : line = raw
    · rw [heq, h, Option.some.injEq] at hs
      exact .inr (hall b f text (hs ▸ htext))
    · have hother : line ∈ before ++ after := by
        rw [mem_append]
        tauto
      exact .inl (mem_operands_iff.2 ⟨s, mem_filterMap.2 ⟨line, hother, hs⟩, htext⟩)

theorem operands_backEdge (b target : BreakPoint) (advance : List Command) (condition : Text) :
    ((backEdge? b target advance condition (b.offset 1)).elim [] Block.commands).filterMap
      operand? =
        if b.line + 1 < target.line then advance.filterMap operand? ++ [condition] else [] := by
  rw [backEdge?]
  split_ifs
  · exact filterMap_append
  · rfl

theorem allBalanced_whiles (h : parse? raw = some (.whiles condition)) :
    AllBalanced raw ↔ Balanced condition := by
  have hoperands (b target : BreakPoint) : stepOperands (lower b target (.whiles condition)) =
      condition :: if b.line + 1 < target.line then [condition] else [] := by
    rw [stepOperands, filterMap_append, lower, operands_backEdge]
    rfl
  rw [allBalanced_iff h]
  constructor
  · exact fun hall => hall ⟨[], 1⟩ {} condition (by rw [hoperands]; exact mem_cons_self)
  · intro hcondition b f text htext
    rw [hoperands] at htext
    split_ifs at htext <;> simp_all

theorem parens_dropTypeWords (ws : List Text) :
    (dropTypeWords ws).flatMap parens = ws.flatMap parens := by
  have hnone : ∀ w ∈ typeKeywords, parens w = [] := by decide
  fun_induction dropTypeWords ws with
  | case1 w w' ws hmem ih => rw [ih, flatMap_cons (x := w), hnone w hmem, nil_append]
  | case2 w w' ws hmem | case3 ws hws => rfl

theorem parens_stripDeclaration (t : Text) : parens (stripDeclaration t) = parens t := by
  rw [stripDeclaration, parens_join, parens_dropTypeWords, words, parens_wordsFrom]
  rfl

def initialisers (init : Text) : List Text :=
  (((splitOn ',' init).map trim).filter fun part => !part.isEmpty).map stripDeclaration

theorem balanced_initialisers_iff :
    (∀ text ∈ initialisers init, Balanced text) ↔ ∀ piece ∈ splitOn ',' init, Balanced piece := by
  have hparens (piece : Text) : parens (stripDeclaration (trim piece)) = parens piece :=
    (parens_stripDeclaration _).trans (parens_trim piece)
  constructor
  · intro h piece hpiece
    by_cases hempty : trim piece = []
    · exact balanced_of_parens (by rw [← parens_trim, hempty]; rfl)
    · refine (balanced_congr (hparens piece)).1 (h _ (mem_map_of_mem (mem_filter.2 ?_)))
      exact ⟨mem_map_of_mem hpiece, by simpa using hempty⟩
  · intro h text htext
    obtain ⟨part, hpart, rfl⟩ := mem_map.1 htext
    obtain ⟨piece, hpiece, rfl⟩ := mem_map.1 (mem_filter.1 hpart).1
    exact (balanced_congr (hparens piece)).2 (h piece hpiece)

theorem operands_initialise (init : Text) :
    (initialise init).filterMap operand? = initFlag :: initialisers init := by
  rw [initialise_eq]
  simp [assignments, initialisers, clearFlag, operand?, filterMap_map, Function.comp_def]

theorem allBalanced_fors (h : parse? raw = some (.fors init condition increment)) :
    AllBalanced raw ∧ Balanced condition ↔ (∀ piece ∈ splitOn ',' init, Balanced piece) ∧
      Balanced condition ∧ Balanced increment := by
  have hoperands (b target : BreakPoint) :
      stepOperands (lower b target (.fors init condition increment)) =
        initFlag :: initialisers init ++ loopCondition condition :: if b.line + 1 < target.line then
          (if increment.isEmpty then [] else [increment]) ++ [loopCondition condition] else [] := by
    rw [stepOperands, filterMap_append, lower, operands_backEdge, filterMap_append,
      operands_initialise, append_assoc]
    congr 2
    cases increment <;> rfl
  rw [← balanced_initialisers_iff, allBalanced_iff h]
  constructor
  · rintro ⟨hall, hcondition⟩
    -- A loop with a body, so that the increment is evaluated.
    have hbody := hall ⟨[], 1⟩ { jumpLine := some 5 }
    rw [hoperands] at hbody
    refine ⟨fun text htext => hbody text (by simp [htext]), hcondition, ?_⟩
    cases increment with
    | nil => rfl
    | cons c t => exact hbody (c :: t) (by simp [Fragment.continuation, BreakPoint.withLine])
  · rintro ⟨hinit, hcondition, hincrement⟩
    have hguard : Balanced (loopCondition condition) := by
      rw [loopCondition]
      split_ifs
      · decide
      · exact hcondition.paren
    have hflag : Balanced initFlag := by decide
    refine ⟨fun b f text htext => ?_, hcondition⟩
    rw [hoperands] at htext
    rcases mem_append.1 htext with htext | htext
    · rcases mem_cons.1 htext with rfl | htext
      · exact hflag
      · exact hinit text htext
    · split_ifs at htext <;> simp at htext
      · rw [htext]; exact hguard
      · rcases htext with rfl | rfl | rfl
        exacts [hguard, hincrement, hguard]
      · rw [htext]; exact hguard

/-! ## Loops -/

theorem ofBody_of_parse? (h : parse? raw = some statement) : ofBody (body raw) = statement := by
  rw [parse?] at h
  split_ifs at h
  exact Option.some.inj h

theorem whiles_of_parse? (h : parse? raw = some (.whiles condition)) :
    condition = trim (unwrap (headerAfter "while" (body raw))) := by
  obtain ⟨i, c, n, hfor⟩ := exists_parseFor (body raw)
  have hbody := ofBody_of_parse? h
  rw [ofBody, hfor] at hbody
  split_ifs at hbody
  exact (whiles.inj hbody).symm

theorem fors_of_parse? (h : parse? raw = some (.fors init condition increment)) :
    parseFor (body raw) = .fors init condition increment := by
  have hbody := ofBody_of_parse? h
  rw [ofBody] at hbody
  split_ifs at hbody
  exact hbody

variable {inside tail : Text}

theorem balanced_unwrap_iff (hinside : Balanced inside) :
    Balanced (unwrap ('(' :: inside ++ ')' :: tail)) ↔
      tail = [] ∨ tail.getLast? ≠ some ')' ∧ Balanced tail := by
  rw [cons_append, unwrap]
  rcases eq_nil_or_concat' tail with rfl | ⟨front, last, rfl⟩
  · have hdrop : dropTail? [')'] (inside ++ [')']) = some inside := by simp [dropTail?, dropHead?]
    rw [hdrop]
    simpa using hinside
  by_cases hlast : last = ')'
  · have hdrop : dropTail? [')'] (inside ++ ')' :: (front ++ [last])) =
        some (inside ++ ')' :: front) := by
      simp [dropTail?, dropHead?, hlast]
    rw [hdrop]
    simpa [hlast] using hinside.not_close front
  · have hdrop : dropTail? [')'] (inside ++ ')' :: (front ++ [last])) = none := by
      simp [dropTail?, dropHead?, Ne.symm hlast]
    have hcut : '(' :: (inside ++ ')' :: (front ++ [last])) =
        '(' :: inside ++ [')'] ++ (front ++ [last]) := by simp
    rw [hdrop, Option.getD_none, hcut, hinside.paren.append_iff]
    simp [hlast]

theorem balanced_forInner_iff {t : Text} (hinside : Balanced inside)
    (ht : headerAfter "for" t = '(' :: inside ++ ')' :: tail) :
    Balanced (forInner t) ∧ CutOutside (forInner t) ↔ ')' ∉ tail ∧ CutOutside inside := by
  have hinner : forInner t =
      (cutLast? ')' (inside ++ ')' :: tail)).elim (inside ++ ')' :: tail) Prod.fst := by
    rw [forInner, ht]
    rfl
  by_cases hmem : ')' ∈ tail
  · obtain ⟨p, q, htail, hp⟩ := eq_append_cons_of_mem (mem_reverse.2 hmem)
    have hlast : inside ++ ')' :: tail = (inside ++ ')' :: q.reverse) ++ ')' :: p.reverse := by
      rw [← reverse_reverse tail, htail]
      simp
    rw [hinner, hlast, cutLast?_append (by simpa using hp), Option.elim_some]
    simp [hmem, hinside.not_close q.reverse]
  · rw [hinner, cutLast?_append hmem, Option.elim_some]
    simp [hmem, hinside]

/-- **The texts of a loop.**  Let `inside` stand between the first parenthesis of a loop's header
and the one that closes it, and `tail` behind them.

The header of a `while` loses the parentheses at its ends, which are a pair only if there is no
tail. That of a `for` goes to the last parenthesis of the line, and is cut at its first two
semicolons, and at the commas before them. All that a debugger evaluates for it, and the condition,
are balanced exactly if the tail closes no parenthesis and each cut is outside of parentheses. -/
theorem loop_texts_balanced_iff (hinside : Balanced inside) :
    (∀ condition, parse? raw = some (.whiles condition) →
      headerAfter "while" (body raw) = '(' :: inside ++ ')' :: tail →
      (AllBalanced raw ↔ tail = [] ∨ tail.getLast? ≠ some ')' ∧ Balanced tail)) ∧
    ∀ init condition increment, parse? raw = some (.fors init condition increment) →
      headerAfter "for" (body raw) = '(' :: inside ++ ')' :: tail →
      (AllBalanced raw ∧ Balanced condition ↔ ')' ∉ tail ∧ CutOutside inside) := by
  constructor
  · intro condition h hheader
    rw [allBalanced_whiles h, whiles_of_parse? h, balanced_trim, hheader,
      balanced_unwrap_iff hinside]
  · intro init condition increment h hheader
    rw [allBalanced_fors h, parts_balanced_iff (fors_of_parse? h),
      balanced_forInner_iff hinside hheader]

theorem loop_texts_balanced_call : AllBalanced "for (int i = (a); f(i, 2); i++) \x7b" :=
  (((@loop_texts_balanced_iff _ "int i = (a); f(i, 2); i++" [] (by decide)).2
    "int i = (a)" "f(i, 2)" "i++" (by decide) (by decide)).2
      ⟨by decide, by decide⟩).1

theorem loop_initialiser_cut :
    Balanced "for (i = f(a, b); i < n; i++)" ∧
      (ofFragment ⟨"f.c", 3⟩ { inserted := ["for (i = f(a, b); i < n; i++)"] }).operands =
        ["$valkyrie_init", "i = f(a", "b)", "(i < n)"] ∧
      ¬ Balanced "i = f(a" ∧ ¬ Balanced "b)" := by
  decide

end Compiled

/-! ## Words -/

namespace Text

variable {t : Text}

def squeeze (t : Text) : Text := t.filter (!isBlank ·)

theorem squeeze_eq_self (h : ∀ c ∈ t, isBlank c = false) : squeeze t = t :=
  filter_eq_self.2 fun c hc => by simp [h c hc]

theorem squeeze_of_blank (h : ∀ c ∈ t, isBlank c = true) : squeeze t = [] :=
  filter_eq_nil_iff.2 fun c hc => by simp [h c hc]

theorem squeeze_append (s t : Text) : squeeze (s ++ t) = squeeze s ++ squeeze t := filter_append ..

theorem flatten_wordsFrom (word t : Text) : (wordsFrom word t).flatten = word ++ squeeze t := by
  induction t generalizing word with
  | nil => cases word <;> simp [wordsFrom, squeeze]
  | cons c t ih =>
    rw [wordsFrom]
    simp only [squeeze] at ih ⊢
    split_ifs with hblank hword
    · simp [ih, hblank, isEmpty_iff.1 hword]
    · simp [ih, hblank]
    · simp [ih, hblank]

theorem words_append_blank {b : Text} (hb : ∀ c ∈ b, isBlank c = true) (word t : Text) :
    wordsFrom word (t ++ b) = wordsFrom word t := by
  have hnone : wordsFrom [] b = [] := by
    induction b with
    | nil => rfl
    | cons c b ih => simp [wordsFrom, hb c mem_cons_self, ih fun c hc => hb c (.tail _ hc)]
  induction t generalizing word with
  | nil =>
    cases b with
    | nil => rfl
    | cons c b =>
      have hblank := hb c mem_cons_self
      simp only [wordsFrom, hblank, isEmpty_nil, if_true] at hnone
      simp [wordsFrom, hblank, hnone]
  | cons c t ih => simp only [cons_append, wordsFrom, ih]

theorem words_trim (t : Text) : words (trim t) = words t := by
  obtain ⟨a, b, ha, hb, hcut, -⟩ := exists_trim t
  conv_rhs => rw [hcut, words, words_append_blank hb]
  rw [words]
  clear hcut
  induction a with
  | nil => rfl
  | cons c a ih => simpa [wordsFrom, ha c mem_cons_self] using ih fun c hc => ha c (.tail _ hc)

theorem words_singleton (hne : t ≠ []) (h : ∀ c ∈ t, isBlank c = false) : words t = [t] := by
  rw [words, ← words_append_blank (b := [' ']) (forall_mem_singleton.2 rfl)]
  exact words_append hne h (by decide) []

theorem words_ne_nil (hne : trim t ≠ []) : words t ≠ [] := by
  obtain ⟨-, -, -, -, -, hhead, -⟩ := exists_trim t
  intro hnone
  have hflat : (words (trim t)).flatten = squeeze (trim t) := flatten_wordsFrom [] (trim t)
  rw [words_trim, hnone] at hflat
  cases ht : trim t with
  | nil => exact hne ht
  | cons c r =>
    have hc : isBlank c = false := hhead c (by simp [ht])
    exact filter_eq_nil_iff.1 hflat.symm c (by simp [ht]) (by simp [hc])

/-- The last word of a text is all of it exactly if there is no white space inside. -/
theorem squeeze_lastWord_iff (hne : trim t ≠ []) :
    squeeze ((words t).getLast?.getD t) = squeeze t ↔ ∀ c ∈ trim t, isBlank c = false := by
  obtain ⟨a, b, ha, hb, hcut, hhead, hlast⟩ := exists_trim t
  have hsqueeze : squeeze t = squeeze (trim t) := by
    conv_lhs => rw [hcut, squeeze_append, squeeze_append, squeeze_of_blank ha, squeeze_of_blank hb]
    simp
  rw [← words_trim, hsqueeze]
  by_cases hinside : ∀ c ∈ trim t, isBlank c = false
  · refine iff_of_true ?_ hinside
    rw [words_singleton hne hinside]
    rfl
  refine iff_of_false ?_ hinside
  -- The first word ends at white space, and the last character belongs to another one.
  obtain ⟨x, hx⟩ : ∃ x, x = (trim t).takeWhile (!isBlank ·) := ⟨_, rfl⟩
  have hsplit := takeWhile_append_dropWhile (p := (!isBlank ·)) (l := trim t)
  have hfree : ∀ c ∈ x, isBlank c = false := fun c hc => by
    have hnot := mem_takeWhile_imp (hx ▸ hc)
    simpa using hnot
  cases hrest : (trim t).dropWhile (!isBlank ·) with
  | nil =>
    rw [hrest, append_nil, ← hx] at hsplit
    exact absurd (hsplit ▸ hfree) hinside
  | cons d y =>
    have hd : isBlank d = true := by
      have hnot := head?_dropWhile_not (!isBlank ·) (trim t)
      rw [hrest] at hnot
      simpa using hnot
    rw [hrest, ← hx] at hsplit
    have hxne : x ≠ [] := by
      rintro rfl
      rw [← hsplit] at hhead
      simp [hd] at hhead
    have hyne : squeeze y ≠ [] := by
      intro hy
      rw [← hsplit, getLast?_append, getLast?_cons] at hlast
      cases hend : y.getLast? with
      | none => simp [hend, hd] at hlast
      | some e =>
        have he : isBlank e = false := hlast e (by simp [hend])
        exact filter_eq_nil_iff.1 hy e (mem_of_getLast? hend) (by simp [he])
    have hflat : (words y).flatten = squeeze y := flatten_wordsFrom [] y
    rw [← hsplit, words_append hxne hfree hd]
    cases hwords : (words y).getLast? with
    | none =>
      rw [getLast?_eq_none_iff.1 hwords] at hflat
      exact absurd hflat.symm hyne
    | some w =>
      have hle : (squeeze w).length ≤ (squeeze y).length := by
        rw [← hflat]
        exact (length_filter_le ..).trans
          (sublist_flatten_of_mem (mem_of_getLast? hwords)).length_le
      intro heq
      have hlength := congrArg length heq
      rw [getLast?_cons, hwords, ← singleton_append (x := d), squeeze_append, squeeze_append,
        squeeze_eq_self hfree, squeeze_of_blank (t := [d]) (by simpa using hd)] at hlength
      have hpos := length_pos_of_ne_nil hxne
      simp at hlength
      omega

end Text

/-! ## Assignments -/

/-- What may be assigned to: a name, with members and indices behind it. -/
inductive Lvalue where
  | name (n : Text)
  | member (l : Lvalue) (isArrow : Bool) (n : Text)
  | index (l : Lvalue) (i : Text)

namespace Lvalue

def render : Lvalue → Text
  | name n => n
  | member l isArrow n => l.render ++ (if isArrow then ['-', '>'] else ['.']) ++ n
  | index l i => l.render ++ '[' :: i ++ [']']

def indices : Lvalue → List Text
  | name _ => []
  | member l _ _ => l.indices
  | index l i => i :: l.indices

def Named : Lvalue → Prop
  | name n => n ≠ [] ∧ ∀ c ∈ n, Text.isBlank c = false
  | member l _ n => l.Named ∧ ∀ c ∈ n, Text.isBlank c = false
  | index l _ => l.Named

theorem render_ne_nil {l : Lvalue} (h : l.Named) : l.render ≠ [] := by
  cases l with
  | name n => exact h.1
  | member l isArrow n => cases isArrow <;> simp [render]
  | index l i => simp [render]

theorem blank_render_iff {l : Lvalue} (h : l.Named) : (∀ c ∈ l.render, Text.isBlank c = false) ↔
    ∀ i ∈ l.indices, ∀ c ∈ i, Text.isBlank c = false := by
  induction l with
  | name n => simpa [render, indices] using h.2
  | member l isArrow n ih =>
    have hmark : ∀ c ∈ (if isArrow then ['-', '>'] else ['.'] : Text), Text.isBlank c = false := by
      cases isArrow with
      | false => exact forall_mem_singleton.2 rfl
      | true => exact forall_mem_cons.2 ⟨rfl, forall_mem_singleton.2 rfl⟩
    rw [render, indices, forall_mem_append, forall_mem_append, ih h.1]
    exact ⟨fun hall => hall.1.1, fun hall => ⟨⟨hall, hmark⟩, h.2⟩⟩
  | index l i ih =>
    have hopen : Text.isBlank '[' = false := by decide
    have hclose : Text.isBlank ']' = false := by decide
    simp [render, indices, ih h, or_imp, forall_and, hopen, hclose, and_comm]

end Lvalue

namespace Compiled

open Text Statement

/-- **What is assigned to.**  Wherever a fragment inserts a plain assignment to an lvalue, the block
at its break point sets the last word before the sign to what stands behind it, between the commands
of the lines before and after. That word is all of the lvalue, up to white space, exactly if there
is no white space in its indices. -/
theorem assignment_target_iff {raw text left right : Text} {l : Lvalue} {f : Fragment}
    {before after : List Text} (hparse : parse? raw = some (.assignment text false))
    (hcut : cut? '=' text = some (left, right)) (hnamed : l.Named) (hleft : trim left = l.render)
    (hf : f.inserted = before ++ raw :: after) (b : BreakPoint) :
    ∃ target first further leave, (words left).getLast? = some target ∧
      (ofFragment b f).blocks = first :: further ∧ first.location = b ∧
      first.commands = commandsOf b (f.continuation b) (before.filterMap parse?) ++
        .setVar target (trim right) ::
          (commandsOf b (f.continuation b) (after.filterMap parse?) ++ leave) ∧
      (leave = [] ∨ leave = [.jump (f.continuation b)]) ∧
      (squeeze target = squeeze left ↔ ∀ i ∈ l.indices, ∀ c ∈ i, isBlank c = false) := by
  have hne : trim left ≠ [] := by
    rw [hleft]
    exact Lvalue.render_ne_nil hnamed
  obtain ⟨target, htarget⟩ :=
    Option.ne_none_iff_exists'.1 (mt getLast?_eq_none_iff.1 (words_ne_nil hne))
  have hwhole := squeeze_lastWord_iff hne
  rw [htarget, Option.getD_some, hleft, Lvalue.blank_render_iff hnamed] at hwhole
  have hstatements : statements f =
      before.filterMap parse? ++ .assignment text false :: after.filterMap parse? := by
    rw [statements, hf, filterMap_append, filterMap_cons_some hparse]
  have hset : (lower b (f.continuation b) (.assignment text false)).commands =
      [.setVar target (trim right)] := by
    simp [lower, lowerAssignment, hcut, htarget]
  obtain ⟨leave, hleave, hprimary⟩ := exists_leave b f
  refine ⟨target, _, _, leave, htarget, blocks_eq b f, rfl, ?_, hleave, hwhole⟩
  rw [hprimary, hstatements, commandsOf_append, commandsOf_cons, hset, append_assoc]
  rfl

theorem assignment_target_member :
    ∃ first further, (ofFragment ⟨"f.c", 3⟩
        { inserted := ["g();", "p->items[i+1].next = y;", "return;"] }).blocks = first :: further ∧
      ∃ target, .setVar target "y" ∈ first.commands ∧
        squeeze target = squeeze "p->items[i+1].next " := by
  -- With a finite type of characters in scope, a bounded quantifier would be decided over them all.
  have hword {t : Text} (h : t.all (!isBlank ·) = true) : ∀ c ∈ t, isBlank c = false := by
    simpa using h
  obtain ⟨target, first, further, leave, -, hblocks, -, hcommands, -, htarget⟩ :=
    @assignment_target_iff "p->items[i+1].next = y;"
      "p->items[i+1].next = y" "p->items[i+1].next " " y"
      (.member (.index (.member (.name "p") true "items") "i+1") false "next")
      { inserted := ["g();", "p->items[i+1].next = y;", "return;"] } ["g();"] ["return;"]
      (by decide) (by decide)
      ⟨⟨⟨by decide, hword (by decide)⟩, hword (by decide)⟩, hword (by decide)⟩ (by decide) rfl
      ⟨"f.c", 3⟩
  refine ⟨first, further, hblocks, target, ?_, ?_⟩
  · rw [hcommands]
    exact mem_append_right _ mem_cons_self
  · exact htarget.2 (forall_mem_singleton.2 (hword (by decide)))

/-- The index is cut where a plain assignment is inserted; an initialiser of a loop, a compound
assignment and an edit of the binary keep it. -/
theorem assignment_target_cut :
    (ofFragment ⟨"f.c", 3⟩ { inserted := ["a[i + 1] = x;"] }).blocks =
      [{ location := ⟨"f.c", 3⟩, commands := [.setVar "1]" "x", .jump ⟨"f.c", 4⟩] }] ∧
    trim "a[i + 1] " = (Lvalue.index (.name "a") "i + 1").render ∧
    .setExpr "a[i + 1] = x" ∈
      primary ⟨"f.c", 3⟩ { inserted := ["for (a[i + 1] = x; i < n; i++)"] } ∧
    primary ⟨"f.c", 3⟩ { inserted := ["a[i + 1] += x;"] } =
      [.call "a[i + 1] += x", .jump ⟨"f.c", 4⟩] ∧
    (parse? "a[i + 1] = x;").bind Plan.expression? = some "a[i + 1] = x" := by
  decide

end Compiled

end PatchTriage
