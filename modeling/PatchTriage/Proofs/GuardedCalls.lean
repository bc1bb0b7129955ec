import PatchTriage.Proofs.ControlTransfer
import PatchTriage.Proofs.DiffRendering

/-!
# A call under a condition

A line `if (C) B` is cut twice: by the reader, if there is a semicolon in it, and by the compiler,
which expects the call in the same line. What the first cut leaves is a statement of its own.
-/

namespace PatchTriage

open Text List Statement Diff Debugger

/-! ## Conditions in parentheses -/

namespace Inserted

/-- Whether the parentheses of a text close each other, and `depth` that are open before it. -/
def closes (depth : Nat) : Text → Bool
  | [] => depth == 0
  | c :: t =>
    if c = '(' then closes (depth + 1) t
    else if c = ')' then depth != 0 && closes (depth - 1) t
    else closes depth t

theorem cutBalanced_of_closes {depth : Nat} {t : Text} (h : closes depth t = true) (rest : Text) :
    cutBalanced (depth + 1) (t ++ ')' :: rest) = (t ++ [')'], rest) := by
  induction t generalizing depth with
  | nil =>
    obtain rfl : depth = 0 := by simpa [closes] using h
    rfl
  | cons c t ih =>
    rw [closes] at h
    split at h
    · rename_i hc
      simp [cutBalanced, hc, ih h]
    · split at h
      · rename_i hopen hc
        obtain ⟨hpos, hrest⟩ : depth ≠ 0 ∧ closes (depth - 1) t = true := by simpa using h
        have hdepth : depth - 1 + 1 = depth := by omega
        have hcut := ih hrest
        rw [hdepth] at hcut
        simp [cutBalanced, hc, hpos, hcut]
      · rename_i hopen hclose
        simp [cutBalanced, hopen, hclose, ih h]

variable (condition rest : Text)

def guardLine : Text := "if (" ++ condition ++ ')' :: rest

theorem guardLine_append (condition rest more : Text) :
    guardLine condition (rest ++ more) = guardLine condition rest ++ more :=
  (append_assoc (("if (" : Text) ++ condition) (')' :: rest) more).symm

theorem mem_guardLine {c : Char} {rest : Text} (h : c ∈ rest) (condition : Text) :
    c ∈ guardLine condition rest :=
  mem_append_right _ (mem_cons_of_mem ')' h)

/-- **The condition of a line.** -/
theorem cutCondition?_guard {condition : Text} (h : closes 0 condition = true) (rest : Text) :
    cutCondition? (guardLine condition rest) =
      some (("if " : Text), '(' :: condition ++ [')'], rest) := by
  have hmem : '(' ∈ guardLine condition rest :=
    mem_append_left _ (mem_append_left condition (by decide))
  have hcut : cutBalanced 0 ('(' :: (condition ++ ')' :: rest)) =
      ('(' :: condition ++ [')'], rest) := by
    rw [cutBalanced]
    simp [cutBalanced_of_closes h rest]
  have hfront : (guardLine condition rest).takeWhile (· ≠ '(') = ("if " : Text) := rfl
  have hback : (guardLine condition rest).dropWhile (· ≠ '(') = '(' :: (condition ++ ')' :: rest) :=
    rfl
  rw [cutCondition?, if_pos hmem, hfront, hback, hcut]

theorem trimStart_guardLine : trimStart (guardLine condition rest) = guardLine condition rest := rfl

theorem split_guard {condition rest : Text} (h : closes 0 condition = true)
    (hsemicolon : ';' ∈ guardLine condition rest) (hrest : isBlankText rest = false) :
    split (guardLine condition rest) = [guardLine condition [], rest] := by
  have hfor : startsWithKeyword "for" (guardLine condition rest) = false := rfl
  have hif : startsWithKeyword "if" (guardLine condition rest) = true := rfl
  have hhead : ("if " : Text) ++ ('(' :: condition ++ [')']) = guardLine condition [] := rfl
  simp only [split, trimStart_guardLine, hfor, hif, cutCondition?_guard h rest, hrest,
    hsemicolon, hhead,
    not_true_eq_false, Bool.false_eq_true, if_false, if_true]

end Inserted

/-! ## Lines that are read as they stand -/

namespace Statement

structure IsClean (t : Text) : Prop where
  tab_notMem : '\t' ∉ t
  no_comment : contains "/*" t = false
  no_mark : contains "//prophet" t = false

theorem IsClean.of_infix {s t : Text} (h : IsClean t) (hs : s <:+: t) : IsClean s where
  tab_notMem hmem := h.tab_notMem (hs.subset hmem)
  no_comment := by
    rw [contains_eq_false_iff]
    exact fun hi => contains_eq_false_iff.1 h.no_comment (hi.trans hs)
  no_mark := by
    rw [contains_eq_false_iff]
    exact fun hi => contains_eq_false_iff.1 h.no_mark (hi.trans hs)

variable {t : Text}

theorem dropComments_eq_self (h : contains "/*" t = false) : dropComments t = t := by
  rw [contains_eq_false_iff] at h
  rw [dropComments]
  induction t with
  | nil => rfl
  | cons c t ih =>
    have hrest := ih fun hi => h (hi.trans (suffix_cons c t).isInfix)
    rw [dropComments.go, hrest]
    rintro t' rfl rfl
    exact h (prefix_append ['/', '*'] t').isInfix

theorem body_of_isClean (h : IsClean t) :
    body t = (trim t).dropWhile fun c => c ∈ ['{', '}', ' '] := by
  rw [body, without_eq_self h.tab_notMem, dropComments_eq_self h.no_comment]

theorem ofBody_guardLine (condition rest : Text) :
    ofBody (Inserted.guardLine condition rest) = .ifs (Inserted.guardLine condition rest) := rfl

theorem parse?_guard {condition rest blanks : Text}
    (h : IsClean (Inserted.guardLine condition (rest ++ blanks)))
    (hblanks : ∀ c ∈ blanks, isBlank c = true)
    (hlast : ∀ c ∈ (')' :: rest).getLast?, isBlank c = false) :
    parse? (Inserted.guardLine condition (rest ++ blanks)) =
      some (.ifs (Inserted.guardLine condition rest)) := by
  have hcut : Inserted.guardLine condition (rest ++ blanks) =
      [] ++ Inserted.guardLine condition rest ++ blanks :=
        Inserted.guardLine_append condition rest blanks
  have hback : (Inserted.guardLine condition rest).getLast? = (')' :: rest).getLast? :=
    getLast?_append_of_ne_nil _ (cons_ne_nil _ _)
  have htrim : trim (Inserted.guardLine condition (rest ++ blanks)) =
      Inserted.guardLine condition rest := by
    rw [hcut]
    refine trim_append_append (by simp) hblanks ?_ (by rwa [hback])
    rintro c ⟨⟩
    rfl
  have hbody : body (Inserted.guardLine condition (rest ++ blanks)) =
      Inserted.guardLine condition rest := by
    rw [body_of_isClean h, htrim]
    refine dropWhile_eq_self ?_
    rintro c ⟨⟩
    rfl
  have hvoid : isVoid (Inserted.guardLine condition rest) = false := rfl
  rw [parse?, h.no_mark, hbody, hvoid, ofBody_guardLine]
  rfl

theorem parse?_of_isBlankText (h : isBlankText t = true) : parse? t = none := by
  have hblank : ∀ c ∈ without '\t' t, isBlank c = true := by
    intro c hc
    exact all_eq_true.1 h c (mem_of_mem_filter hc)
  have hcomment : contains "/*" (without '\t' t) = false := by
    rw [contains_eq_false_iff]
    intro hi
    exact absurd (hblank '/' (hi.subset (by simp))) (by decide)
  have hbody : body t = [] := by
    rw [body, dropComments_eq_self hcomment, trim_eq_nil hblank]
    rfl
  rw [parse?, hbody]
  split
  · rfl
  · rfl

theorem of_ofBody_eq_call {t expr : Text} (h : ofBody t = .call expr) :
    hasCall t = true ∧ expr = stripTerminators t := by
  rw [ofBody] at h
  split at h
  · cases h
  · split at h
    · cases h
    · split at h
      · cases h
      · split at h
        · obtain ⟨_, _, _, hfor⟩ := exists_parseFor t
          rw [hfor] at h
          cases h
        · split at h
          · cases h
          · split at h
            · rename_i hcall
              cases h
              exact ⟨hcall, rfl⟩
            · cases h

theorem of_parse?_eq_call {t expr : Text} (h : parse? t = some (.call expr)) (hclean : IsClean t)
    (hsemicolon : ';' ∉ t) (hbraces : '{' ∉ t ∧ '}' ∉ t) :
    expr = trim t ∧ hasCall (trim t) = true := by
  obtain ⟨a, b, ha, hb, hcut, hfirst, hlast⟩ := exists_trim t
  have hsub : ∀ c ∈ trim t, c ∈ t := by
    intro c hc
    rw [hcut]
    simp [hc]
  have hbody : body t = trim t := by
    rw [body_of_isClean hclean]
    refine dropWhile_eq_self fun c hc => ?_
    have hmem := hsub c (mem_of_head? hc)
    have hspace : c ≠ ' ' := by
      rintro rfl
      exact absurd (hfirst ' ' hc) (by decide)
    have hopen : c ≠ '{' := fun heq => hbraces.1 (heq ▸ hmem)
    have hclose : c ≠ '}' := fun heq => hbraces.2 (heq ▸ hmem)
    simp [hspace, hopen, hclose]
  rw [parse?, hclean.no_mark, hbody] at h
  have hof : ofBody (trim t) = .call expr := by
    split at h
    · cases h
    · split at h
      · cases h
      · exact Option.some.inj h
  obtain ⟨hcall, hexpr⟩ := of_ofBody_eq_call hof
  have hstrip : stripTerminators (trim t) = trim t := by
    have hself :=
      trim_append_append (a := []) (m := trim t) (b := []) (by simp) (by simp) hfirst hlast
    rw [stripTerminators, without_eq_self fun hmem => hsemicolon (hsub _ hmem)]
    simpa using hself
  exact ⟨by rw [hexpr, hstrip], hcall⟩

end Statement

/-! ## Diffs with one edit -/

namespace Diff

def Directive.edits : Directive → Bool
  | edit ('+' :: _) | edit ('-' :: _) | depend => true
  | _ => false

def OnlyInserts (opts : Options) (text : Text) (b : BreakPoint) (line : Text) : Prop :=
  ∃ before after, directives opts (lines text) = before ++ .edit ('+' :: line) :: after ∧
    (∀ d ∈ before ++ after, d.edits = false) ∧
    (({} : State).after opts before).hunk.map Prod.fst = some b

namespace State

variable {opts : Options}

theorem editHunk_eq_self {line : Text} (h : (Directive.edit line).edits = false) (s : State) :
    s.editHunk line = s := by
  have hedit : ∀ f : Fragment, edit f line = f := by
    intro f
    rw [edit.eq_def]
    split
    · cases h
    · cases h
    · rfl
  have hself : s.hunk.map (fun entry => (entry.1, edit entry.2 line)) = s.hunk := by
    cases s.hunk <;> simp [hedit]
  show { s with hunk := s.hunk.map fun entry => (entry.1, edit entry.2 line) } = s
  rw [hself]

theorem fragments_follow {d : Directive} (h : d.edits = false) (s : State) :
    (d.follow opts s).close.fragments = s.close.fragments := by
  cases d with
  | leave =>
    have hclosed : s.leaveFile.close = s.leaveFile := close_eq_self (hunk_close s)
    rw [Directive.follow, hclosed]
    rfl
  | enter source =>
    have hclosed : (s.enterFile source).close = s.enterFile source := close_eq_self (hunk_close s)
    rw [Directive.follow, hclosed]
    rfl
  | hunk header =>
    rw [fragments_close]
    cases hstart : hunkStart? header <;> simp [Directive.follow, openHunk, hstart, Fragment.isEmpty]
  | depend => cases h
  | edit line => rw [Directive.follow, editHunk_eq_self h]

theorem hunk_follow {d : Directive} (h : d.edits = false) {s : State}
    (hs : ∀ e ∈ s.hunk, e.2 = {}) :
    ∀ e ∈ (d.follow opts s).hunk, e.2 = {} := by
  intro e he
  cases d with
  | leave => simp [Directive.follow, leaveFile] at he
  | enter source => simp [Directive.follow, enterFile] at he
  | hunk header =>
    obtain ⟨start, -, rfl⟩ := Option.map_eq_some_iff.1 he
    rfl
  | depend => cases h
  | edit line =>
    rw [Directive.follow, editHunk_eq_self h] at he
    exact hs e he

variable {ds : List Directive}

theorem fragments_after (h : ∀ d ∈ ds, d.edits = false) (s : State) :
    (s.after opts ds).close.fragments = s.close.fragments := by
  induction ds generalizing s with
  | nil => rfl
  | cons d ds ih =>
    have hrest := ih (fun d' hd' => h d' (mem_cons_of_mem d hd')) (d.follow opts s)
    rw [fragments_follow (h d mem_cons_self)] at hrest
    exact hrest

theorem hunk_after (h : ∀ d ∈ ds, d.edits = false) {s : State}
    (hs : ∀ e ∈ s.hunk, e.2 = {}) : ∀ e ∈ (s.after opts ds).hunk, e.2 = {} := by
  induction ds generalizing s with
  | nil => exact hs
  | cons d ds ih =>
    exact ih (fun d' hd' => h d' (mem_cons_of_mem d hd')) (hunk_follow (h d mem_cons_self) hs)

end State

/-- **What is read of a diff whose only edit inserts a line.** -/
theorem read_onlyInserts {opts : Options} {text : Text} {b : BreakPoint} {line : Text}
    (h : OnlyInserts opts text b line) (hne : Inserted.split line ≠ []) :
    ∃ source, read opts text = .parsed source [(b, { inserted := Inserted.split line })] := by
  obtain ⟨before, after, hds, hquiet, hhunk⟩ := h
  obtain ⟨⟨b, f⟩, hentry, rfl⟩ := Option.map_eq_some_iff.1 hhunk
  have hbefore : ∀ d ∈ before, d.edits = false := fun d hd => hquiet d (mem_append_left _ hd)
  have hafter : ∀ d ∈ after, d.edits = false := fun d hd => hquiet d (mem_append_right _ hd)
  obtain rfl : f = {} := State.hunk_after hbefore (by simp) (b, f) hentry
  -- Before the inserted line nothing has been read, and the open hunk is empty.
  have hnone : (({} : State).after opts before).fragments = [] := by
    have hclose : (({} : State).after opts before).close.fragments = [] :=
      State.fragments_after hbefore {}
    rwa [State.fragments_close, hentry] at hclose
  have hread : ((({} : State).after opts before).editHunk ('+' :: line)).close.fragments =
      [(b, { inserted := Inserted.split line })] := by
    have hopen : ((({} : State).after opts before).editHunk ('+' :: line)).hunk =
        some (b, { inserted := Inserted.split line }) := by
      simp [State.editHunk, hentry, edit]
    have hkept : ((({} : State).after opts before).editHunk ('+' :: line)).fragments = [] := hnone
    rw [State.fragments_close, hopen, hkept]
    simp [Fragment.isEmpty, hne, Fragments.add, SortedList.insertWith]
  have hdepend : .depend ∉ before ++ Directive.edit ('+' :: line) :: after := by
    intro hmem
    rcases mem_append.1 hmem with hmem | hmem
    · cases hbefore .depend hmem
    · rcases mem_cons.1 hmem with hmem | hmem
      · cases hmem
      · cases hafter .depend hmem
  have hsteps : ({} : State).after opts (before ++ .edit ('+' :: line) :: after) =
      ((({} : State).after opts before).editHunk ('+' :: line)).after opts after := foldl_append
  have hfragments : (({} : State).after opts (before ++ .edit ('+' :: line) ::
      after)).close.fragments =
      [(b, { inserted := Inserted.split line })] := by
    rw [hsteps, State.fragments_after hafter, hread]
  refine ⟨(({} : State).after opts (before ++ .edit ('+' :: line) :: after)).close.source opts, ?_⟩
  rw [read_eq, hds, follow_eq_outcome opts hdepend, State.outcome]
  simp only [hfragments]
  rfl

end Diff

/-! ## Guarded calls -/

namespace Compiled

open Inserted (guardLine closes)

/-- The commands of a condition with the call of the same line, if the branches lead to the same
place. -/
theorem lowerIf_guard {condition : Text} (h : closes 0 condition = true) (rest : Text)
    (t : BreakPoint)
    {calls : List Command}
    (hcalls : calls =
      let rest := stripTerminators (rest.filter fun c => c ≠ '{' && c ≠ '}')
      if rest.isEmpty then [] else if hasCall rest then [voidCall rest] else [.call rest]) :
    lowerIf (guardLine condition rest) t t =
      .ifs ('(' :: condition ++ [')']) :: calls ++ [.jump t, .elses, .jump t, .ends] := by
  rw [lowerIf, if_neg (by simp), Inserted.cutCondition?_guard h rest, hcalls]

theorem performed_guardCommands {σ : Type} (d : Debugger σ) (s : σ) (condition : Text)
    {calls : List Command} (hcalls : ∀ c ∈ calls, c.isPlain = true) (t t' : BreakPoint) :
    (d.run (.ifs condition :: calls ++ [.jump t, .elses, .jump t', .ends]) s).performed =
      if (d.test condition s).1 = true then calls else [] := by
  have hnested : Nested calls := nested_of_isPlain hcalls
  cases htest : (d.test condition s).1 with
  | true =>
    rw [if_pos rfl, run, cons_append, d.runFrom_ifs_of_holds htest, ← run,
      d.run_append hnested, d.run_plain hcalls, Visit.andThen_of_no_exit rfl, run,
      d.runFrom_exit rfl]
    simp
  | false =>
    rw [if_neg (by simp), run, cons_append, d.runFrom_ifs_of_fails htest, d.runFrom_passing hnested]
    rfl

/-- Where no line is removed and none is named, execution goes on at the next line. -/
theorem continuation_insertion (inserted : List Text) (b : BreakPoint) :
    ({ inserted } : Fragment).continuation b = b.offset 1 := rfl

theorem run_primary_guard {f : Fragment} {b : BreakPoint} {header : Text} {more : List Statement}
    (h : statements f = .ifs header :: more) {σ : Type} (d : Debugger σ) (s : σ) :
    d.run (primary b f) s = d.run (lowerIf header (b.offset 1) (f.continuation b)) s := by
  have hstatements : statements f = [] ++ .ifs header :: more := h
  rw [run_primary hstatements (sound_lowerIf b (f.continuation b) header).2]
  rfl

/-- A condition without a call in its line: nothing is performed, whatever the other lines are. -/
theorem performed_condition {condition : Text} (hcondition : closes 0 condition = true)
    (hclean : IsClean (guardLine condition [])) (rest : List Text) (b : BreakPoint) {σ : Type}
    (d : Debugger σ) (s : σ) :
    (d.run (primary b { inserted := guardLine condition [] :: rest }) s).performed = [] := by
  have hlast : ∀ c ∈ (')' :: ([] : Text)).getLast?, isBlank c = false := by
    rintro c ⟨⟩
    rfl
  have hline : IsClean (guardLine condition ([] ++ [])) := hclean
  have hparse := parse?_guard hline (forall_mem_nil _) hlast
  rw [append_nil] at hparse
  have hstatements : statements { inserted := guardLine condition [] :: rest } =
      .ifs (guardLine condition []) :: rest.filterMap parse? := by
    rw [statements, filterMap_cons_some hparse]
  have hnone : ([] : List Command) =
      let rest := stripTerminators (([] : Text).filter fun c => c ≠ '{' && c ≠ '}')
      if rest.isEmpty then [] else if hasCall rest then [voidCall rest] else [.call rest] := rfl
  rw [run_primary_guard hstatements, continuation_insertion, lowerIf_guard hcondition [] _ hnone,
    performed_guardCommands d s _ (forall_mem_nil _), ite_self]

theorem performed_conditionalCall {condition call : Text} (hcondition : closes 0 condition = true)
    (hclean : IsClean (guardLine condition (' ' :: call))) (hsemicolon : ';' ∉ call)
    (hbraces : '{' ∉ call ∧ '}' ∉ call) (hcall : hasCall (trim call) = true)
    (b : BreakPoint) {σ : Type} (d : Debugger σ) (s : σ) :
    (d.run (primary b { inserted := [guardLine condition (' ' :: call)] }) s).performed =
      if (d.test ('(' :: condition ++ [')']) s).1 = true then [voidCall (trim call)] else [] := by
  obtain ⟨a, z, ha, hz, hcut, hfirst, hlast⟩ := exists_trim call
  have hne : trim call ≠ [] := by
    intro h
    rw [h] at hcall
    exact absurd hcall (by decide)
  have hline : guardLine condition (' ' :: call) =
      guardLine condition ((' ' :: a ++ trim call) ++ z) := by
    rw [cons_append, cons_append, ← hcut]
  have hparse : parse? (guardLine condition (' ' :: call)) =
      some (.ifs (guardLine condition (' ' :: a ++ trim call))) := by
    rw [hline] at hclean ⊢
    refine parse?_guard hclean hz ?_
    rw [← cons_append, getLast?_append_of_ne_nil _ hne]
    exact hlast
  have hstatements : statements { inserted := [guardLine condition (' ' :: call)] } =
      [.ifs (guardLine condition (' ' :: a ++ trim call))] := by
    rw [statements, filterMap_cons_some hparse]
    rfl
  -- What is left of the line behind the condition is the call.
  have hsub : ∀ c ∈ ' ' :: a ++ trim call, c = ' ' ∨ c ∈ call := by
    intro c hc
    rw [hcut]
    rcases mem_cons.1 hc with hc | hc
    · exact .inl hc
    · exact .inr (mem_append_left z hc)
  have hfilter : (' ' :: a ++ trim call).filter (fun c => c ≠ '{' && c ≠ '}') =
      ' ' :: a ++ trim call := by
    rw [filter_eq_self]
    intro c hc
    rcases hsub c hc with rfl | hmem
    · rfl
    · have hopen : c ≠ '{' := fun heq => hbraces.1 (heq ▸ hmem)
      have hclose : c ≠ '}' := fun heq => hbraces.2 (heq ▸ hmem)
      simp [hopen, hclose]
  have hstrip : stripTerminators (' ' :: a ++ trim call) = trim call := by
    have hno : ';' ∉ ' ' :: a ++ trim call := by
      intro hmem
      rcases hsub ';' hmem with hmem | hmem
      · cases hmem
      · exact hsemicolon hmem
    have hblanks : ∀ c ∈ ' ' :: a, isBlank c = true := by
      intro c hc
      rcases mem_cons.1 hc with rfl | hc
      · rfl
      · exact ha c hc
    have htrim := trim_append_append (b := []) hblanks (by simp) hfirst hlast
    rw [stripTerminators, without_eq_self hno]
    simpa using htrim
  have hcalls : [voidCall (trim call)] =
      let rest := stripTerminators ((' ' :: a ++ trim call).filter fun c => c ≠ '{' && c ≠ '}')
      if rest.isEmpty then [] else if hasCall rest then [voidCall rest] else [.call rest] := by
    simp only [hfilter, hstrip, hcall, isEmpty_eq_false_iff.2 hne, Bool.false_eq_true,
      if_false, if_true]
  rw [run_primary_guard hstatements, continuation_insertion, lowerIf_guard hcondition _ _ hcalls]
  refine performed_guardCommands d s _ (fun c hc => ?_) _ _
  obtain rfl := mem_singleton.1 hc
  rfl

/-- **A call under a condition.** The only edit of a diff inserts the line `if (condition) call`,
with or without a semicolon behind it; the parentheses of the condition are balanced, and `call` is
read as a call. (The condition is read as it stands, and so is a line that stays whole.) Then the
diff has one fragment, and the block at its break point performs the call exactly if the condition
holds and the line has no semicolon; it performs nothing else. -/
theorem performed_guard {opts : Options} {text : Text} {b : BreakPoint}
    {condition call expr tail : Text}
    (hdiff : OnlyInserts opts text b (guardLine condition (' ' :: call ++ tail)))
    (htail : tail = [] ∨ tail = [';']) (hcondition : closes 0 condition = true)
    (hcall : parse? call = some (.call expr))
    (hclean : IsClean (guardLine condition []))
    (hwhole : ';' ∉ guardLine condition (' ' :: call ++ tail) →
      IsClean (guardLine condition (' ' :: call)) ∧ '{' ∉ call ∧ '}' ∉ call) :
    ∃ source f, read opts text = .parsed source [(b, f)] ∧
      ∃ first further, (ofFragment b f).blocks = first :: further ∧
        ∀ (σ : Type) (d : Debugger σ) (s : σ), (d.run first.commands s).performed =
          if ';' ∉ guardLine condition (' ' :: call ++ tail) ∧
              (d.test ('(' :: condition ++ [')']) s).1 = true
          then [voidCall expr] else [] := by
  by_cases hline : ';' ∈ guardLine condition (' ' :: call ++ tail)
  · -- The reader takes the line apart, and the call is behind a condition that leaves the block.
    have hblank : isBlankText (' ' :: call ++ tail) = false := by
      cases h : isBlankText call with
      | true => cases (parse?_of_isBlankText h).symm.trans hcall
      | false =>
        rw [isBlankText, all_append, all_cons]
        show ((_ && isBlankText call) && _) = false
        rw [h, Bool.and_false, Bool.false_and]
    have hsplit := Inserted.split_guard hcondition hline hblank
    have hne : Inserted.split (guardLine condition (' ' :: call ++ tail)) ≠ [] := by
      rw [hsplit]
      simp
    obtain ⟨source, hread⟩ := read_onlyInserts hdiff hne
    rw [hsplit] at hread
    refine ⟨source, _, hread, _, _, blocks_eq _ _, fun σ d s => ?_⟩
    rw [if_neg fun h => h.1 hline]
    exact performed_condition hcondition hclean [' ' :: call ++ tail] b d s
  · -- The line stays whole.
    obtain rfl : tail = [] := by
      rcases htail with rfl | rfl
      · rfl
      · exact absurd (Inserted.mem_guardLine (by simp) condition) hline
    obtain ⟨hcleanLine, hbraces⟩ := hwhole hline
    have hsemicolon : ';' ∉ call := fun hmem =>
      hline (Inserted.mem_guardLine (by simp [hmem]) condition)
    have hcleanCall : IsClean call := by
      refine hcleanLine.of_infix (IsSuffix.isInfix ⟨guardLine condition [' '], ?_⟩)
      exact (Inserted.guardLine_append condition [' '] call).symm
    obtain ⟨rfl, hhas⟩ := of_parse?_eq_call hcall hcleanCall hsemicolon hbraces
    have hsplit := Inserted.split_eq_singleton hline
    have hne : Inserted.split (guardLine condition (' ' :: call ++ [])) ≠ [] := by
      rw [hsplit]
      simp
    obtain ⟨source, hread⟩ := read_onlyInserts hdiff hne
    rw [hsplit, append_nil] at hread
    refine ⟨source, _, hread, _, _, blocks_eq _ _, fun σ d s => ?_⟩
    simp only [hline, not_false_eq_true, true_and]
    exact performed_conditionalCall hcondition hcleanLine hsemicolon hbraces hhas b d s

/-- A diff that inserts `if (isFree(p)) cleanup(p)`, with a tail, between two lines. -/
def cleanupDiff (tail : Text) : Text :=
  "--- a/f.c\n+++ b/f.c\n@@ -30,2 +30,3 @@\n x = 1;\n+" ++
    guardLine "isFree(p)" (' ' :: "cleanup(p)" ++ tail) ++ "\n y = 2;\n"

theorem onlyInserts_cleanupDiff {tail : Text} (h : tail = [] ∨ tail = [';']) :
    OnlyInserts {} (cleanupDiff tail) ⟨"f.c",
      30⟩ (guardLine "isFree(p)" (' ' :: "cleanup(p)" ++ tail)) := by
  refine ⟨[.enter "f.c", .hunk "@@ -30,2 +30,3 @@", .edit " x = 1;"], [.edit " y = 2;"], ?_, ?_, ?_⟩
  · rcases h with rfl | rfl <;> decide +kernel
  · decide +kernel
  · decide +kernel

theorem performed_guard_cleanup :
    ∃ source f, read {} (cleanupDiff []) = .parsed source [(⟨"f.c", 30⟩, f)] ∧
      ∃ first further, (ofFragment ⟨"f.c", 30⟩ f).blocks = first :: further ∧
        ∀ (σ : Type) (d : Debugger σ) (s : σ), (d.run first.commands s).performed =
          if (d.test ('(' :: "isFree(p)" ++ [')']) s).1 = true then [voidCall "cleanup(p)"]
          else [] := by
  have hcondition : closes 0 "isFree(p)" = true := by decide +kernel
  have hcall : parse? "cleanup(p)" = some (.call "cleanup(p)") := by decide +kernel
  have hclean : IsClean (guardLine "isFree(p)" []) := by
    constructor <;> decide +kernel
  have hline : IsClean (guardLine "isFree(p)" (' ' :: "cleanup(p)")) := by
    constructor <;> decide +kernel
  have hbraces : '{' ∉ ("cleanup(p)" : Text) ∧ '}' ∉ ("cleanup(p)" : Text) := by decide +kernel
  obtain ⟨source, f, hread, first, further, hblocks, hrun⟩ :=
    performed_guard (onlyInserts_cleanupDiff (.inl rfl)) (.inl rfl) hcondition hcall hclean
      fun _ => ⟨hline, hbraces⟩
  refine ⟨source, f, hread, first, further, hblocks, fun σ d s => ?_⟩
  have hsemicolon : ';' ∉ guardLine "isFree(p)" (' ' :: "cleanup(p)" ++ []) := by decide +kernel
  rw [hrun]
  simp only [hsemicolon, not_false_eq_true, true_and]

def allTrue : Debugger Unit where
  test _ s := (true, s)
  perform _ s := s

theorem guarded_call_not_performed :
    OnlyInserts {} (cleanupDiff [';']) ⟨"f.c", 30⟩
      (guardLine "isFree(p)" (' ' :: "cleanup(p)" ++ [';'])) ∧
    closes 0 "isFree(p)" = true ∧ parse? "cleanup(p)" = some (.call "cleanup(p)") ∧
    (allTrue.test "(isFree(p))" ()).1 = true ∧
    ∃ f first, read {} (cleanupDiff [';']) = .parsed "f.c" [(⟨"f.c", 30⟩, f)] ∧
      (ofFragment ⟨"f.c", 30⟩ f).blocks = [first] ∧
      voidCall "cleanup(p)" ∉ (allTrue.run first.commands ()).performed := by
  refine ⟨onlyInserts_cleanupDiff (.inr rfl), ?_, ?_, rfl,
    { inserted := ["if (isFree(p))", " cleanup(p);"] },
    ⟨⟨"f.c", 30⟩, false, [.ifs "(isFree(p))", .jump ⟨"f.c", 31⟩, .elses, .jump ⟨"f.c", 31⟩, .ends,
      voidCall "cleanup(p)"]⟩, ?_, ?_, ?_⟩ <;>
    decide +kernel

end Compiled

end PatchTriage
