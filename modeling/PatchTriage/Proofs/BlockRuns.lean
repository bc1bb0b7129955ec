import PatchTriage.Debugger.Compile

/-!
# How a debugger runs a block

The commands of a block are a flat list, in which `if`, `else` and `end` mark what is passed over.
What conditions and other commands do is left open.
-/

namespace PatchTriage

open List Command

/-! ## Commands -/

inductive BlockExit where
  | jump (target : BreakPoint)
  | continues
  | quit
  deriving DecidableEq

namespace Command

def exit? : Command → Option BlockExit
  | jump target => some (.jump target)
  | continues => some .continues
  | quit => some .quit
  | _ => none

def isMark : Command → Bool
  | ifs _ | elses | ends => true
  | _ => false

def isPlain (c : Command) : Bool := !c.isMark && c.exit?.isNone

theorem isMark_of_isPlain {c : Command} (h : c.isPlain = true) : c.isMark = false := by
  simp only [isPlain, Bool.and_eq_true, Bool.not_eq_true'] at h
  exact h.1

end Command

/-! ## Runs -/

/-- A debugger, as far as a script depends on it. Its states comprise those of the program. -/
structure Debugger (σ : Type) where
  /-- Whether a condition holds, and the state behind its evaluation. -/
  test : (condition : Text) → σ → Bool × σ
  /-- The state behind a line that neither marks nor leaves anything. -/
  perform : (line : Text) → σ → σ

structure Visit (σ : Type) where
  performed : List Command := []
  /-- How the block was left; none if all of it has been gone through. -/
  exit : Option BlockExit := none
  state : σ

namespace Visit

variable {σ : Type}

def after (c : Command) (v : Visit σ) : Visit σ := { v with performed := c :: v.performed }

def andThen (v : Visit σ) (next : σ → Visit σ) : Visit σ :=
  if v.exit.isSome then v
  else { next v.state with performed := v.performed ++ (next v.state).performed }

def Resumes (v : Visit σ) : Prop :=
  (∃ target, v.exit = some (.jump target)) ∨ v.exit = some .continues

theorem andThen_of_exit {v : Visit σ} (h : v.exit ≠ none) (next : σ → Visit σ) :
    v.andThen next = v :=
  if_pos (Option.isSome_iff_ne_none.2 h)

theorem andThen_of_no_exit {v : Visit σ} (h : v.exit = none) (next : σ → Visit σ) : v.andThen next =
      { next v.state with performed := v.performed ++ (next v.state).performed } :=
  if_neg (by simp [h])

theorem after_andThen (c : Command) (v : Visit σ) (next : σ → Visit σ) :
    (v.after c).andThen next = (v.andThen next).after c := by
  cases h : v.exit with
  | some exit =>
    have hexit : v.exit ≠ none := by simp [h]
    have hafter : (v.after c).exit ≠ none := hexit
    rw [andThen_of_exit hexit, andThen_of_exit hafter]
  | none =>
    have hafter : (v.after c).exit = none := h
    rw [andThen_of_no_exit h, andThen_of_no_exit hafter]
    rfl

theorem andThen_assoc (v : Visit σ) (next next' : σ → Visit σ) :
    (v.andThen next).andThen next' = v.andThen fun s => (next s).andThen next' := by
  cases h : v.exit with
  | some exit =>
    have hexit : v.exit ≠ none := by simp [h]
    rw [andThen_of_exit hexit, andThen_of_exit hexit, andThen_of_exit hexit]
  | none =>
    rw [andThen_of_no_exit h, andThen_of_no_exit h]
    cases h' : (next v.state).exit with
    | some exit => rw [andThen_of_exit (by simp [h']), andThen_of_exit (by simp [h'])]
    | none =>
      rw [andThen_of_no_exit (by simpa using h'), andThen_of_no_exit h']
      simp

end Visit

inductive Mode where
  | active
  /-- It passes over commands up to the `end` of the part that it is in, with `depth` inner parts
  open; or, `orElse`, up to the `else`. -/
  | passing (depth : Nat) (orElse : Bool)
  deriving DecidableEq

def Mode.pass (depth : Nat) (orElse : Bool) : Command → Mode
  | .ifs _ => passing (depth + 1) orElse
  | .ends => if depth = 0 then active else passing (depth - 1) orElse
  | .elses => if depth = 0 ∧ orElse = true then active else passing depth orElse
  | _ => passing depth orElse

namespace Debugger

variable {σ : Type} (d : Debugger σ)

def runFrom : Mode → List Command → σ → Visit σ
  | _, [], s => { state := s }
  | .passing depth orElse, c :: cs, s => runFrom (Mode.pass depth orElse c) cs s
  | .active, c :: cs, s =>
    match c with
    | .ifs condition =>
      runFrom (if (d.test condition s).1 then .active else .passing 0 true) cs
        (d.test condition s).2
    | .elses => runFrom (.passing 0 false) cs s
    | .ends => runFrom .active cs s
    | c =>
      match c.exit? with
      | some exit => { exit := some exit, state := s }
      | none => (runFrom .active cs (d.perform c.render s)).after c

/-- A command that resumes the program or quits ends the block. -/
def run (cs : List Command) (s : σ) : Visit σ := d.runFrom .active cs s

section Steps

variable {c : Command} {cs : List Command} {s : σ}

theorem runFrom_ifs_of_holds {condition : Text} (h : (d.test condition s).1 = true) :
    d.runFrom .active (.ifs condition :: cs) s = d.runFrom .active cs (d.test condition s).2 := by
  rw [runFrom]
  simp only [h, if_true]

theorem runFrom_ifs_of_fails {condition : Text} (h : (d.test condition s).1 = false) :
    d.runFrom .active (.ifs condition :: cs) s =
      d.runFrom (.passing 0 true) cs (d.test condition s).2 := by
  rw [runFrom]
  simp only [h, Bool.false_eq_true, if_false]

theorem runFrom_exit {exit : BlockExit} (h : c.exit? = some exit) :
    d.runFrom .active (c :: cs) s = { exit := some exit, state := s } := by
  cases c <;> first | cases h; rfl | cases h

theorem runFrom_plain (h : c.isPlain = true) :
    d.runFrom .active (c :: cs) s = (d.runFrom .active cs (d.perform c.render s)).after c := by
  cases c <;> first | rfl | cases h

end Steps

end Debugger

/-! ## Nesting -/

/-- **Proper nesting** of the marks, as a grammar. -/
inductive Nested : List Command → Prop where
  | nil : Nested []
  | single (c : Command) : c.isMark = false → Nested [c]
  | append {cs ds : List Command} : Nested cs → Nested ds → Nested (cs ++ ds)
  | ifEnd (condition : Text) {body : List Command} :
    Nested body → Nested (.ifs condition :: body ++ [.ends])
  | ifElse (condition : Text) {yes no : List Command} : Nested yes → Nested no →
      Nested (.ifs condition :: yes ++ .elses :: no ++ [.ends])

theorem nested_of_isMark {cs : List Command} (h : ∀ c ∈ cs, c.isMark = false) : Nested cs := by
  induction cs with
  | nil => exact .nil
  | cons c cs ih =>
    exact .append (.single c (h c mem_cons_self)) (ih fun c' hc' => h c' (mem_cons_of_mem c hc'))

theorem nested_of_isPlain {cs : List Command} (h : ∀ c ∈ cs, c.isPlain = true) : Nested cs :=
  nested_of_isMark fun c hc => isMark_of_isPlain (h c hc)

namespace Debugger

variable {σ : Type} (d : Debugger σ)

theorem runFrom_passing_mark {c : Command} (h : c.isMark = false) (depth : Nat) (orElse : Bool)
    (cs : List Command) (s : σ) :
    d.runFrom (.passing depth orElse) (c :: cs) s = d.runFrom (.passing depth orElse) cs s := by
  cases c <;> first | rfl | cases h

variable {cs : List Command}

/-- **A nested piece is passed over as a whole.** -/
theorem runFrom_passing (h : Nested cs) (depth : Nat) (orElse : Bool)
    (rest : List Command) (s : σ) :
    d.runFrom (.passing depth orElse) (cs ++ rest) s =
      d.runFrom (.passing depth orElse) rest s := by
  induction h generalizing depth rest with
  | nil => rfl
  | single c hc => exact d.runFrom_passing_mark hc depth orElse rest s
  | append _ _ ih ih' => rw [append_assoc, ih, ih']
  | ifEnd condition _ ih =>
    rw [cons_append, cons_append, append_assoc, runFrom, Mode.pass, ih]
    rfl
  | ifElse condition _ _ ih ih' =>
    rw [append_assoc, append_assoc, cons_append, runFrom, Mode.pass, ih,
      cons_append, runFrom, Mode.pass, if_neg (by simp), ih']
    rfl

/-- **A nested piece is run before what is behind it.** -/
theorem runFrom_append (h : Nested cs) (rest : List Command) (s : σ) :
    d.runFrom .active (cs ++ rest) s =
      (d.runFrom .active cs s).andThen fun s' => d.runFrom .active rest s' := by
  induction h generalizing rest s with
  | nil => rfl
  | single c hc =>
    cases hexit : c.exit? with
    | some exit =>
      rw [singleton_append, runFrom_exit d hexit, runFrom_exit d hexit]
      rfl
    | none =>
      have hplain : c.isPlain = true := by simp [isPlain, hc, hexit]
      rw [singleton_append, runFrom_plain d hplain, runFrom_plain d hplain, Visit.after_andThen]
      rfl
  | @append cs ds _ _ ih ih' =>
    have hrest : (fun s' => d.runFrom .active (ds ++ rest) s') = fun s' =>
        (d.runFrom .active ds s').andThen fun s'' => d.runFrom .active rest s'' :=
      funext fun s' => ih' rest s'
    rw [append_assoc, ih (ds ++ rest), ih ds, Visit.andThen_assoc, hrest]
  | @ifEnd condition body hbody ih =>
    have hcut : .ifs condition :: body ++ [.ends] ++ rest =
        .ifs condition :: (body ++ .ends :: rest) := by
      simp
    rw [hcut, cons_append]
    cases htest : (d.test condition s).1 with
    | true =>
      rw [runFrom_ifs_of_holds d htest, runFrom_ifs_of_holds d htest, ih, ih [.ends],
        Visit.andThen_assoc]
      rfl
    | false =>
      rw [runFrom_ifs_of_fails d htest, runFrom_ifs_of_fails d htest, runFrom_passing d hbody,
        runFrom_passing d hbody]
      rfl
  | @ifElse condition yes no hyes hno ih ih' =>
    have hcut : .ifs condition :: yes ++ .elses :: no ++ [.ends] ++ rest =
        .ifs condition :: (yes ++ .elses :: (no ++ .ends :: rest)) := by
      simp
    have hcut' : .ifs condition :: yes ++ .elses :: no ++ [.ends] =
        .ifs condition :: (yes ++ .elses :: (no ++ [.ends])) := by
      simp
    rw [hcut, hcut']
    cases htest : (d.test condition s).1 with
    | true =>
      -- Behind the first branch the second one is passed over, up to the `end`.
      have hpass : ∀ tail s', d.runFrom .active (.elses :: (no ++ .ends :: tail)) s' =
          d.runFrom .active tail s' := by
        intro tail s'
        rw [runFrom, runFrom_passing d hno]
        rfl
      rw [runFrom_ifs_of_holds d htest, runFrom_ifs_of_holds d htest, ih,
        ih (elses :: (no ++ [ends])), Visit.andThen_assoc]
      simp only [hpass]
      rfl
    | false =>
      have hpass : ∀ tail s', d.runFrom (.passing 0 true) (yes ++ .elses :: tail) s' =
          d.runFrom .active tail s' := by
        intro tail s'
        rw [runFrom_passing d hyes]
        rfl
      rw [runFrom_ifs_of_fails d htest, runFrom_ifs_of_fails d htest, hpass, hpass,
        ih', ih' [.ends],
        Visit.andThen_assoc]
      rfl

theorem run_append (h : Nested cs) (rest : List Command) (s : σ) :
    d.run (cs ++ rest) s = (d.run cs s).andThen fun s' => d.run rest s' :=
  d.runFrom_append h rest s

theorem run_plain (h : ∀ c ∈ cs, c.isPlain = true) (s : σ) :
    d.run cs s = { performed := cs, state := cs.foldl (fun s c => d.perform c.render s) s } := by
  induction cs generalizing s with
  | nil => rfl
  | cons c cs ih =>
    have hrest := ih (fun c' hc' => h c' (mem_cons_of_mem c hc')) (d.perform c.render s)
    rw [run, d.runFrom_plain (h c mem_cons_self), ← run, hrest]
    rfl

/-- The last command of a visit that leaves the block is one of the commands. -/
theorem exists_exit?_of_exit {mode : Mode} {s : σ} {exit : BlockExit}
    (h : (d.runFrom mode cs s).exit = some exit) : ∃ c ∈ cs, c.exit? = some exit := by
  induction cs generalizing mode s with
  | nil => cases mode <;> cases h
  | cons c cs ih =>
    suffices hrest : (∃ mode' s', (d.runFrom mode' cs s').exit = some exit) ∨ c.exit? = some exit by
      rcases hrest with ⟨mode', s', hrest⟩ | hself
      · obtain ⟨c', hc', hexit⟩ := ih hrest
        exact ⟨c', mem_cons_of_mem c hc', hexit⟩
      · exact ⟨c, mem_cons_self, hself⟩
    cases mode with
    | passing depth orElse => exact .inl ⟨_, _, h⟩
    | active =>
      cases hc : c.exit? with
      | some exit' =>
        rw [runFrom_exit d hc] at h
        exact .inr h
      | none =>
        cases hmark : c.isMark with
        | false =>
          rw [runFrom_plain d (by simp [isPlain, hc, hmark])] at h
          exact .inl ⟨_, _, h⟩
        | true => cases c <;> first | exact .inl ⟨_, _, h⟩ | cases hmark

end Debugger

end PatchTriage
