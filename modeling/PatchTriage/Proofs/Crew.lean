import Mathlib.Data.List.NodupEquivFin
import Mathlib.Logic.Function.Basic
import PatchTriage.World.Basic

/-!
# Work done at the same time

`Action.run` runs an action by itself. Here several actions share one world: between two operations
of one of them the others may do anything.
-/

namespace PatchTriage

open List PatchTriage.Action

instance Op.decidableEqReply : (o : Op) → DecidableEq o.Reply
  | isFile _ | isDir _ | isExecutable _ | hasProgram _ | isCancelled | isConfigured =>
    inferInstanceAs (DecidableEq Bool)
  | read _ => inferInstanceAs (DecidableEq (Except IoError Bytes))
  | write _ _ | append _ _ | createNew _ _ | setExecutable _ | removeFile _ | rename _ _
  | copy _ _ | createDirs _ => inferInstanceAs (DecidableEq (Except IoError Unit))
  | list _ => inferInstanceAs (DecidableEq (Except IoError (List (Text × Bool))))
  | canonical _ => inferInstanceAs (DecidableEq (Except IoError Path))
  | run _ _ _ => inferInstanceAs (DecidableEq (Except IoError Output))
  | print _ | cancel | enter _ _ | lockSource | unlockSource | setConfigured | setInstrumented _ =>
    inferInstanceAs (DecidableEq Unit)
  | instrumented => inferInstanceAs (DecidableEq (Option (Option Path)))

structure Exchange where
  op : Op
  reply : op.Reply
  deriving DecidableEq

abbrev History := List Exchange

/-- A property of worlds holds after an exchange, whatever the world was like before. -/
def Exchange.Shows (host : Host) (Q : World → Prop) (e : Exchange) : Prop :=
  ∀ w, (e.op.perform host w).1 = e.reply → Q (e.op.perform host w).2

def Exchange.Denies (host : Host) (Q : World → Prop) (e : Exchange) : Prop :=
  ∀ w, (e.op.perform host w).1 = e.reply → ¬ Q w

namespace Action

variable {α β : Type} {a b : Action α} {f : α → Action β} {h : History} {P : Op → Prop}

theorem bind_done (a : Action α) : a.bind done = a := by
  induction a with
  | done x => rfl
  | step o next ih => exact congrArg (step o) (funext ih)

theorem bind_assoc {γ : Type} (a : Action α) (f : α → Action β) (g : β → Action γ) :
    (a.bind f).bind g = a.bind fun x => (f x).bind g := by
  induction a with
  | done x => rfl
  | step o next ih => exact congrArg (step o) (funext ih)

instance : LawfulMonad Action := .mk' Action bind_done (fun _ _ => rfl) bind_assoc

/-! ## An action seen alone -/

/-- `a.Takes h b`: after the exchanges `h`, what is left of `a` is `b`. -/
inductive Takes : Action α → History → Action α → Prop
  | nil (a : Action α) : Takes a [] a
  | cons {o : Op} {next : o.Reply → Action α} {r : o.Reply} {h : History} {b : Action α} :
      Takes (next r) h b → Takes (.step o next) (⟨o, r⟩ :: h) b

/-- `a.Ends h x`: the exchanges `h` lead `a` to its end, with the result `x`. -/
def Ends (a : Action α) (h : History) (x : α) : Prop := a.Takes h (.done x)

def result? : Action α → Option α
  | done x => some x
  | step _ _ => none

/-- What an action comes to by the first of the exchanges, and the exchanges after its end. -/
def follow : Action α → History → Option (α × History)
  | done x, h => some (x, h)
  | step _ _, [] => none
  | step o next, e :: h => if ho : e.op = o then follow (next (ho ▸ e.reply)) h else none

/-- Every operation of an action, whatever the answers are, is one of `P`. -/
def Uses (P : Op → Prop) : Action α → Prop
  | done _ => True
  | step o next => P o ∧ ∀ r, Uses P (next r)

theorem result?_eq_some_iff {x : α} : a.result? = some x ↔ a = .done x := by
  cases a <;> simp [result?]

theorem takes_nil_iff : a.Takes [] b ↔ b = a := by
  constructor
  · intro ht; cases ht; rfl
  · rintro rfl; exact .nil _

theorem takes_done_iff {x : α} : (done x).Takes h b ↔ h = [] ∧ b = done x := by
  constructor
  · intro ht; cases ht; exact ⟨rfl, rfl⟩
  · rintro ⟨rfl, rfl⟩; exact .nil _

theorem takes_step_iff {o : Op} {next : o.Reply → Action α} {e : Exchange} :
    (step o next).Takes (e :: h) b ↔ ∃ r, e = ⟨o, r⟩ ∧ (next r).Takes h b := by
  constructor
  · intro ht; cases ht with
    | cons ht => exact ⟨_, rfl, ht⟩
  · rintro ⟨r, rfl, ht⟩; exact .cons ht

theorem ends_done_iff {x y : α} : (done x).Ends h y ↔ h = [] ∧ y = x := by
  rw [Ends, takes_done_iff, done.injEq]

theorem ends_step_iff {o : Op} {next : o.Reply → Action α} {x : α} :
    (step o next).Ends h x ↔ ∃ r h', h = ⟨o, r⟩ :: h' ∧ (next r).Ends h' x := by
  cases h with
  | nil => simp [Ends, takes_nil_iff]
  | cons e h =>
    rw [Ends, takes_step_iff]
    constructor
    · rintro ⟨r, rfl, ht⟩; exact ⟨r, h, rfl, ht⟩
    · rintro ⟨r, h', heq, ht⟩; cases heq; exact ⟨r, rfl, ht⟩

/-- **Ends can be computed.** -/
theorem follow_eq_some_iff {h' : History} {x : α} {a : Action α} :
    a.follow h = some (x, h') ↔ ∃ h₁, h = h₁ ++ h' ∧ a.Ends h₁ x := by
  induction a generalizing h with
  | done y =>
    have hfollow : (done y).follow h = some (y, h) := by cases h <;> rfl
    simp only [hfollow, Option.some.injEq, Prod.mk.injEq, ends_done_iff]
    constructor
    · rintro ⟨rfl, rfl⟩; exact ⟨[], rfl, rfl, rfl⟩
    · rintro ⟨h₁, hh, rfl, rfl⟩; exact ⟨rfl, hh⟩
  | step o next ih =>
    cases h with
    | nil =>
      simp only [follow, reduceCtorEq, false_iff, not_exists, not_and]
      intro h₁ hh he
      obtain ⟨r, h₂, rfl, -⟩ := ends_step_iff.1 he
      simp at hh
    | cons e h =>
      obtain ⟨o', r'⟩ := e
      rw [follow]
      by_cases ho : o' = o
      · subst ho
        rw [dif_pos rfl, ih]
        constructor
        · rintro ⟨h₁, rfl, he⟩
          exact ⟨⟨o', r'⟩ :: h₁, rfl, ends_step_iff.2 ⟨r', h₁, rfl, he⟩⟩
        · rintro ⟨h₁, hh, he⟩
          obtain ⟨r, h₂, rfl, he₂⟩ := ends_step_iff.1 he
          cases hh
          exact ⟨h₂, rfl, he₂⟩
      · rw [dif_neg ho]
        simp only [reduceCtorEq, false_iff, not_exists, not_and]
        intro h₁ hh he
        obtain ⟨r, h₂, rfl, -⟩ := ends_step_iff.1 he
        cases hh
        exact ho rfl

theorem takes_append {h₁ h₂ : History} : ∀ {a c : Action α},
    a.Takes (h₁ ++ h₂) c ↔ ∃ b, a.Takes h₁ b ∧ b.Takes h₂ c := by
  induction h₁ with
  | nil =>
    intro a c
    constructor
    · intro ht; exact ⟨a, .nil a, ht⟩
    · rintro ⟨b, hab, hbc⟩; cases hab; exact hbc
  | cons e h₁ ih =>
    intro a c
    constructor
    · intro ht
      cases ht with
      | cons ht =>
        obtain ⟨b, hab, hbc⟩ := ih.1 ht
        exact ⟨b, .cons hab, hbc⟩
    · rintro ⟨b, hab, hbc⟩
      cases hab with
      | cons hab => exact .cons (ih.2 ⟨b, hab, hbc⟩)

theorem Takes.snoc {o : Op} {next : o.Reply → Action α}
    (ht : a.Takes h (.step o next)) (r : o.Reply) : a.Takes (h ++ [⟨o, r⟩]) (next r) :=
  takes_append.2 ⟨_, ht, .cons (.nil _)⟩

/-- **One action after another.**  Exchanges of a sequence either stay within the first action, or
lead it to its end and go on with the second. -/
theorem takes_bind : ∀ {a : Action α} {c : Action β},
    (a.bind f).Takes h c → (∃ b, a.Takes h b ∧ c = b.bind f) ∨
      ∃ x h₁ h₂, h = h₁ ++ h₂ ∧ a.Ends h₁ x ∧ (f x).Takes h₂ c := by
  induction h with
  | nil => intro a c ht; exact .inl ⟨a, .nil a, takes_nil_iff.1 ht⟩
  | cons e h ih =>
    intro a c ht
    cases a with
    | done x => exact .inr ⟨x, [], e :: h, rfl, .nil _, ht⟩
    | step o next =>
      rw [bind] at ht
      obtain ⟨r, rfl, hn⟩ := takes_step_iff.1 ht
      obtain ⟨b, hb, rfl⟩ | ⟨x, h₁, h₂, rfl, hx, hf⟩ := ih hn
      · exact .inl ⟨b, .cons hb, rfl⟩
      · exact .inr ⟨x, ⟨o, r⟩ :: h₁, h₂, rfl, .cons hx, hf⟩

theorem Takes.bind (ht : a.Takes h b) (f : α → Action β) : (a.bind f).Takes h (b.bind f) := by
  induction ht with
  | nil a => exact .nil _
  | cons _ ih => exact .cons ih

theorem ends_bind {y : β} :
    (a.bind f).Ends h y ↔ ∃ x h₁ h₂, h = h₁ ++ h₂ ∧ a.Ends h₁ x ∧ (f x).Ends h₂ y := by
  constructor
  · intro ht
    obtain ⟨b, hb, hy⟩ | hsplit := takes_bind ht
    · cases b with
      | done x => exact ⟨x, h, [], (append_nil h).symm, hb, takes_nil_iff.2 hy⟩
      | step o next => exact absurd hy (by simp [bind])
    · exact hsplit
  · rintro ⟨x, h₁, h₂, rfl, hx, hy⟩
    exact takes_append.2 ⟨_, hx.bind f, hy⟩

theorem Uses.mono {Q : Op → Prop} (hPQ : ∀ o, P o → Q o) :
    ∀ {a : Action α}, a.Uses P → a.Uses Q := by
  intro a
  induction a with
  | done x => intro _; trivial
  | step o next ih => rintro ⟨ho, hnext⟩; exact ⟨hPQ o ho, fun r => ih r (hnext r)⟩

theorem Uses.bind (ha : a.Uses P) (hf : ∀ x, (f x).Uses P) : (a.bind f).Uses P := by
  induction a with
  | done x => exact hf x
  | step o next ih => exact ⟨ha.1, fun r => ih r (ha.2 r)⟩

/-- In a sequence only the results that the first action can come to matter. -/
theorem Uses.bind_of_ends : ∀ {a : Action α}, a.Uses P →
    (∀ h x, a.Ends h x → (f x).Uses P) → (a.bind f).Uses P := by
  intro a
  induction a with
  | done x => intro _ hf; exact hf [] x (.nil _)
  | step o next ih =>
    intro ha hf
    exact ⟨ha.1, fun r => ih r (ha.2 r) fun h x hx => hf (⟨o, r⟩ :: h) x (.cons hx)⟩

theorem Uses.takes (ha : a.Uses P) (ht : a.Takes h b) : b.Uses P := by
  induction ht with
  | nil a => exact ha
  | cons _ ih => exact ih (ha.2 _)

theorem Uses.of_takes_snoc {e : Exchange} (ha : a.Uses P) (ht : a.Takes (h ++ [e]) b) : P e.op := by
  obtain ⟨c, hc, hb⟩ := takes_append.1 ht
  cases hb with
  | cons _ => exact (ha.takes hc).1

theorem Uses.of_mem {e : Exchange} (ha : a.Uses P) (ht : a.Takes h b) (he : e ∈ h) : P e.op := by
  induction ht with
  | nil a => cases he
  | cons _ ih =>
    rcases mem_cons.1 he with rfl | he
    · exact ha.1
    · exact ih (ha.2 _) he

end Action

namespace Job

variable {α β : Type} {a : α} {work : Job α} {f : α → Job β} {h : History} {P : Op → Prop}

/-! ## Work that may end early, seen alone -/

/-- `Ends work h a`: the exchanges `h` lead the work to its end, with the result `a`. -/
def Ends (work : Job α) (h : History) (a : α) : Prop := (ExceptT.run work).Ends h (.ok a)

/-- Every operation of the work, whatever the answers are, is one of `P`. -/
def Uses (P : Op → Prop) (work : Job α) : Prop := (ExceptT.run work).Uses P

def andThen (f : α → Job β) : Except Stop α → Action (Except Stop β)
  | .ok a => ExceptT.run (f a)
  | .error e => .done (.error e)

theorem run_bind (work : Job α) (f : α → Job β) :
    ExceptT.run (work >>= f) = (ExceptT.run work).bind (andThen f) := by
  rw [ExceptT.run_bind]
  show bind _ _ = bind _ _
  congr 1
  funext x
  cases x <;> rfl

theorem run_explain (p : Problem) (work : Job α) :
    ExceptT.run (explain p work) = (ExceptT.run work).bind fun
      | .ok a => .done (.ok a)
      | .error (.failure f) => .done (.error (.failure (f.within p)))
      | .error (.overflow o) => .done (.error (.overflow o)) := by
  show bind _ _ = bind _ _
  congr 1
  funext x
  rcases x with (f | o) | a <;> rfl

theorem ends_pure {b : α} : Ends (pure a) h b ↔ h = [] ∧ b = a := by
  show (done (Except.ok a)).Takes h (.done (.ok b)) ↔ _
  simp [takes_done_iff]

theorem ends_op {o : Op} {r : o.Reply} : Ends (op o) h r ↔ h = [⟨o, r⟩] := by
  show (step o fun r => .done (Except.ok r)).Takes h (.done (Except.ok r)) ↔ _
  cases h with
  | nil => simp [takes_nil_iff]
  | cons e h =>
    simp only [takes_step_iff, takes_done_iff, cons.injEq]
    constructor
    · rintro ⟨r', rfl, rfl, hr⟩; cases hr; exact ⟨rfl, rfl⟩
    · rintro ⟨rfl, rfl⟩; exact ⟨r, rfl, rfl, rfl⟩

theorem not_ends_fail {f : Failure} : ¬ Ends (fail f) h a := by
  show ¬ (done (Except.error (Stop.failure f))).Takes h (.done (.ok a))
  simp [takes_done_iff]

theorem ends_bind {b : β} :
    Ends (work >>= f) h b ↔ ∃ a h₁ h₂, h = h₁ ++ h₂ ∧ Ends work h₁ a ∧ Ends (f a) h₂ b := by
  rw [Ends, run_bind, Action.ends_bind]
  constructor
  · rintro ⟨x, h₁, h₂, rfl, hx, hb⟩
    cases x with
    | ok a => exact ⟨a, h₁, h₂, rfl, hx, hb⟩
    | error e => exact absurd (takes_done_iff.1 hb).2 (by simp)
  · rintro ⟨a, h₁, h₂, rfl, ha, hb⟩; exact ⟨.ok a, h₁, h₂, rfl, ha, hb⟩

theorem ends_explain {p : Problem} : Ends (explain p work) h a ↔ Ends work h a := by
  rw [Ends, run_explain, Action.ends_bind]
  constructor
  · rintro ⟨x, h₁, h₂, rfl, hx, ha⟩
    rcases x with (f | o) | b
    · exact absurd (takes_done_iff.1 ha).2 (by simp)
    · exact absurd (takes_done_iff.1 ha).2 (by simp)
    · obtain ⟨rfl, hab⟩ := takes_done_iff.1 ha
      cases hab
      rw [append_nil]
      exact hx
  · intro ha; exact ⟨.ok a, h, [], (append_nil h).symm, ha, .nil _⟩

theorem ends_reply {x : Except IoError α} : Ends (reply x) h a ↔ h = [] ∧ x = .ok a := by
  cases x with
  | ok b => rw [reply, ends_pure]; simp [eq_comm]
  | error e =>
    simp only [reduceCtorEq, and_false, iff_false]
    exact not_ends_fail

/-- Whatever the answers are, the work comes to a result in `Q`, if it comes to one. -/
def Gives (Q : α → Prop) (work : Job α) : Prop := ∀ h a, Ends work h a → Q a

theorem gives_pure {Q : α → Prop} (ha : Q a) : Gives Q (pure a) := by
  intro h b hb
  obtain ⟨-, rfl⟩ := ends_pure.1 hb
  exact ha

theorem Gives.bind {Q : β → Prop} (hf : ∀ a, Gives Q (f a)) : Gives Q (work >>= f) := by
  intro h b hb
  obtain ⟨a, h₁, h₂, -, -, hb⟩ := ends_bind.1 hb
  exact hf a h₂ b hb

/-- What the work comes to by the first of the exchanges, and the exchanges after its end; none if
it does not come to a result. -/
def follow (work : Job α) (h : History) : Option (α × History) :=
  match (ExceptT.run work).follow h with
  | some (.ok a, h') => some (a, h')
  | _ => none

theorem follow_eq_some_iff {h' : History} :
    follow work h = some (a, h') ↔ ∃ h₁, h = h₁ ++ h' ∧ Ends work h₁ a := by
  have hrun : (ExceptT.run work).follow h = some (.ok a, h') ↔
      ∃ h₁, h = h₁ ++ h' ∧ Ends work h₁ a :=
    Action.follow_eq_some_iff
  rw [← hrun, follow]
  split
  · rename_i b h'' hf
    simp [hf]
  · rename_i hf
    simp only [reduceCtorEq, false_iff]
    exact fun h => hf _ _ h

def result? (work : Job α) (h : History) : Option α := (follow work h).map Prod.fst

theorem result?_eq_some_iff : result? work h = some a ↔ ∃ h₁ h₂, h = h₁ ++ h₂ ∧ Ends work h₁ a := by
  simp only [result?, Option.map_eq_some_iff, Prod.exists, follow_eq_some_iff]
  constructor
  · rintro ⟨x, h₂, ⟨h₁, rfl, he⟩, rfl⟩; exact ⟨h₁, h₂, rfl, he⟩
  · rintro ⟨h₁, h₂, rfl, he⟩; exact ⟨a, h₂, ⟨h₁, rfl, he⟩, rfl⟩

theorem result?_append (ha : result? work h = some a) (h' : History) :
    result? work (h ++ h') = some a := by
  obtain ⟨h₁, h₂, rfl, he⟩ := result?_eq_some_iff.1 ha
  exact result?_eq_some_iff.2 ⟨h₁, h₂ ++ h', append_assoc .., he⟩

theorem uses_pure (a : α) : Uses P (pure a) := trivial

theorem uses_op {o : Op} : Uses P (op o) ↔ P o := ⟨fun h => h.1, fun h => ⟨h, fun _ => trivial⟩⟩

theorem uses_fail (f : Failure) : Uses P (fail f : Job α) := trivial

theorem uses_reply (x : Except IoError α) : Uses P (reply x) := by cases x <;> trivial

theorem uses_checked (x : Except Overflow α) : Uses P (checked x) := by cases x <;> trivial

theorem Uses.mono {Q : Op → Prop} (hPQ : ∀ o, P o → Q o) (hw : Uses P work) : Uses Q work :=
  Action.Uses.mono hPQ hw

theorem Uses.bind (hw : Uses P work) (hf : ∀ a, Uses P (f a)) : Uses P (work >>= f) := by
  rw [Uses, run_bind]
  refine Action.Uses.bind hw fun x => ?_
  cases x with
  | ok a => exact hf a
  | error e => trivial

theorem Uses.bind_of_ends (hw : Uses P work)
    (hf : ∀ h a, Ends work h a → Uses P (f a)) : Uses P (work >>= f) := by
  rw [Uses, run_bind]
  refine Action.Uses.bind_of_ends hw fun h x hx => ?_
  cases x with
  | ok a => exact hf h a hx
  | error e => trivial

theorem Uses.explain (p : Problem) (hw : Uses P work) : Uses P (explain p work) := by
  rw [Uses, run_explain]
  refine Action.Uses.bind hw fun x => ?_
  rcases x with (f | o) | a <;> trivial

section Operations

variable {p : Path}

theorem uses_isFile (h : P (.isFile p)) : Uses P (isFile p) := uses_op.2 h

theorem uses_read (h : P (.read p)) : Uses P (read p) := (uses_op.2 h).bind uses_reply

theorem uses_writeText {t : Text} (h : P (.write p (Utf8.encode t))) : Uses P (writeText p t) :=
  .explain _ ((uses_op.2 h).bind uses_reply)

theorem uses_ensureDir (h : P (.createDirs p)) : Uses P (ensureDir p) :=
  .explain _ ((uses_op.2 h).bind uses_reply)

theorem uses_removeStale (h : P (.removeFile p)) : Uses P (removeStale p) :=
  (uses_op.2 h).bind fun _ => uses_pure ()

theorem uses_command {c : Invocation} {limit : Nat} {cancellable : Bool}
    (h : P (.run c (some limit) cancellable)) : Uses P (command c limit cancellable) :=
  .explain _ ((uses_op.2 h).bind uses_reply)

theorem uses_scriptCommand (h : P (.isExecutable p)) : Uses P (scriptCommand p) :=
  (uses_op.2 h).bind fun executable => by cases executable <;> exact uses_pure _

end Operations

/-- **Skipping a piece of work.**  Where a first piece of work does not ask for an operation, a
sequence that has asked for it has been through the first piece. -/
theorem takes_bind_of_uses {e : Exchange} {c : Action (Except Stop β)} (hw : Uses P work)
    (he : ¬ P e.op)
    (ht : (ExceptT.run (work >>= f)).Takes (h ++ [e]) c) :
    ∃ a h₁ h₂, h = h₁ ++ h₂ ∧ Ends work h₁ a ∧ (ExceptT.run (f a)).Takes (h₂ ++ [e]) c := by
  rw [run_bind] at ht
  obtain ⟨b, hb, _⟩ | ⟨x, h₁, h₂, hsplit, hx, hc⟩ := takes_bind ht
  · exact absurd (hw.of_takes_snoc hb) he
  · rcases eq_nil_or_concat h₂ with rfl | ⟨h₂', e', rfl⟩
    · rw [append_nil] at hsplit
      exact absurd (hw.of_takes_snoc (hsplit ▸ hx)) he
    · rw [concat_eq_append, ← append_assoc] at hsplit
      obtain ⟨rfl, hee⟩ := append_inj' hsplit rfl
      cases hee
      cases x with
      | ok a => exact ⟨a, h₁, h₂', rfl, hx, concat_eq_append ▸ hc⟩
      | error s =>
        have := (takes_done_iff.1 hc).1
        simp at this

end Job

/-! ## Actions that share a world -/

/-- Actions at work on one world, and the trace of what they have asked for. -/
structure Crew (ι α : Type) where
  world : World
  threads : ι → Action α
  trace : List (ι × Exchange) := []

namespace Crew

variable {ι α : Type} [DecidableEq ι]

/-- The crew after one of its actions has asked for its next operation. An action that has ended
asks for nothing. -/
def act (host : Host) (s : Crew ι α) (i : ι) : Crew ι α :=
  match s.threads i with
  | .done _ => s
  | .step o next =>
    { world := (o.perform host s.world).2
      threads := Function.update s.threads i (next (o.perform host s.world).1)
      trace := s.trace ++ [(i, ⟨o, (o.perform host s.world).1⟩)] }

/-- The crew after its actions have asked for operations in the given order. -/
def play (host : Host) (s : Crew ι α) (order : List ι) : Crew ι α := order.foldl (act host) s

/-- `Reaches host other s s'`: the actions of `s` can get to `s'`, each of them asking for one
operation at a time in any order, with changes of the world from outside, as far as `other` has
them, in between. -/
inductive Reaches (host : Host) (other : World → World → Prop) (s : Crew ι α) : Crew ι α → Prop
  | refl : Reaches host other s s
  | act {s' : Crew ι α} (i : ι) : Reaches host other s s' → Reaches host other s (s'.act host i)
  | other {s' : Crew ι α} {w : World} : Reaches host other s s' → other s'.world w →
      Reaches host other s { s' with world := w }

def part (i : ι) (trace : List (ι × Exchange)) : History :=
  trace.filterMap fun (j, e) => if j = i then some e else none

def historyOf (s : Crew ι α) (i : ι) : History := part i s.trace

variable {host : Host} {other : World → World → Prop} {s s₁ s₂ s₃ : Crew ι α}

theorem act_of_done {i : ι} {x : α} (h : s.threads i = .done x) : s.act host i = s := by rw [act, h]

section Asking

variable {i : ι} {o : Op} {next : o.Reply → Action α} (h : s.threads i = .step o next)

include h

theorem act_world : (s.act host i).world = (o.perform host s.world).2 := by rw [act, h]

theorem act_threads_self : (s.act host i).threads i = next (o.perform host s.world).1 := by
  rw [act, h]
  exact Function.update_self ..

theorem act_trace : (s.act host i).trace = s.trace ++ [(i, ⟨o, (o.perform host s.world).1⟩)] := by
  rw [act, h]

end Asking

theorem act_threads_of_ne {i j : ι} (hij : j ≠ i) : (s.act host i).threads j = s.threads j := by
  cases h : s.threads i with
  | done x => rw [act_of_done h]
  | step o next =>
    rw [act, h]
    exact Function.update_of_ne hij ..

theorem part_append (i : ι) (τ₁ τ₂ : List (ι × Exchange)) :
    part i (τ₁ ++ τ₂) = part i τ₁ ++ part i τ₂ := filterMap_append

theorem part_cons_self (i : ι) (e : Exchange) (τ : List (ι × Exchange)) :
    part i ((i, e) :: τ) = e :: part i τ := by
  simp [part]

theorem part_cons_of_ne {i j : ι} (hij : j ≠ i) (e : Exchange) (τ : List (ι × Exchange)) :
    part i ((j, e) :: τ) = part i τ := by
  simp [part, hij]

theorem mem_part_iff {i : ι} {e : Exchange} {τ : List (ι × Exchange)} :
    e ∈ part i τ ↔ (i, e) ∈ τ := by
  simp only [part, mem_filterMap, Prod.exists]
  constructor
  · rintro ⟨j, e', hmem, he⟩
    by_cases hij : j = i
    · rw [if_pos hij] at he
      cases he
      exact hij ▸ hmem
    · rw [if_neg hij] at he
      cases he
  · intro hmem; exact ⟨i, e, hmem, if_pos rfl⟩

omit [DecidableEq ι] in
theorem trace_split {x : ι × Exchange} {n : Nat} (h : s.trace[n]? = some x) :
    s.trace = s.trace.take n ++ x :: s.trace.drop (n + 1) := by
  obtain ⟨hlt, hget⟩ := List.getElem?_eq_some_iff.1 h
  rw [← hget, getElem_cons_drop, take_append_drop]

namespace Reaches

theorem trans (h₁ : Reaches host other s₁ s₂) (h₂ : Reaches host other s₂ s₃) :
    Reaches host other s₁ s₃ := by
  induction h₂ with
  | refl => exact h₁
  | act i _ ih => exact .act i ih
  | other _ hw ih => exact .other ih hw

theorem play (order : List ι) : Reaches host other s (s.play host order) := by
  induction order generalizing s with
  | nil => exact .refl
  | cons i order ih => exact (Reaches.refl.act i).trans ih

/-- **An action takes in a crew what it takes alone.**  The trace only grows, and what an action
added to it leads from what was left of the action before to what is left of it after. -/
theorem takes (h : Reaches host other s₁ s₂) :
    ∃ τ, s₂.trace = s₁.trace ++ τ ∧ ∀ i, (s₁.threads i).Takes (part i τ) (s₂.threads i) := by
  induction h with
  | refl => exact ⟨[], (append_nil _).symm, fun i => .nil _⟩
  | other _ _ ih => exact ih
  | @act s' j _ ih =>
    obtain ⟨τ, htrace, htakes⟩ := ih
    cases hj : s'.threads j with
    | done x => rw [act_of_done hj]; exact ⟨τ, htrace, htakes⟩
    | step o next =>
      refine ⟨τ ++ [(j, ⟨o, (o.perform host s'.world).1⟩)], ?_, fun i => ?_⟩
      · rw [act_trace hj, htrace, append_assoc]
      · rw [part_append]
        by_cases hij : j = i
        · subst hij
          rw [part_cons_self, act_threads_self hj]
          exact (hj ▸ htakes j).snoc _
        · rw [part_cons_of_ne hij, act_threads_of_ne (Ne.symm hij)]
          simpa [part] using htakes i

/-- Starting from an empty trace, the history of an action leads from its beginning to what is left
of it. -/
theorem takes_historyOf (h : Reaches host other s₁ s₂) (h₁ : s₁.trace = []) (i : ι) :
    (s₁.threads i).Takes (s₂.historyOf i) (s₂.threads i) := by
  obtain ⟨τ, htrace, htakes⟩ := h.takes
  rw [historyOf, htrace, h₁, nil_append]
  exact htakes i

/-- Every exchange in the trace was made by its action after a part of the action's history. -/
theorem takes_at {i : ι} {e : Exchange} {n : Nat} (h : Reaches host other s₁ s₂)
    (h₁ : s₁.trace = [])
    (hn : s₂.trace[n]? = some (i, e)) :
    ∃ g g' b, s₂.historyOf i = g ++ [e] ++ g' ∧ (s₁.threads i).Takes (g ++ [e]) b := by
  obtain ⟨τ₁, τ₂, hsplit⟩ : ∃ τ₁ τ₂, s₂.trace = τ₁ ++ (i, e) :: τ₂ := ⟨_, _, trace_split hn⟩
  have hhist : s₂.historyOf i = part i τ₁ ++ [e] ++ part i τ₂ := by
    rw [historyOf, hsplit, part_append, part_cons_self, append_assoc]
    rfl
  have ht := h.takes_historyOf h₁ i
  rw [hhist] at ht
  obtain ⟨b, hb, -⟩ := takes_append.1 ht
  exact ⟨_, _, b, hhist, hb⟩

/-- **The moment of an exchange.**  Every exchange added to the trace was made at some state on the
way: there the action was about to ask for the operation, and the world gave the answer. -/
theorem moment {i : ι} {e : Exchange} {τ₁ τ₂ : List (ι × Exchange)}
    (h : Reaches host other s₁ s₂) (h₁ : s₁.trace.length ≤ τ₁.length)
    (htrace : s₂.trace = τ₁ ++ (i, e) :: τ₂) :
    ∃ s, Reaches host other s₁ s ∧ s.trace = τ₁ ∧ (∃ next, s.threads i = .step e.op next) ∧
      (e.op.perform host s.world).1 = e.reply ∧ Reaches host other (s.act host i) s₂ := by
  induction h generalizing τ₂ with
  | refl => rw [htrace, length_append, length_cons] at h₁; omega
  | other hs hw ih =>
    obtain ⟨s, hreach, hτ, hnext, hreply, hrest⟩ := ih htrace
    exact ⟨s, hreach, hτ, hnext, hreply, hrest.other hw⟩
  | @act s' j hs ih =>
    cases hj : s'.threads j with
    | done x =>
      rw [act_of_done hj] at htrace ⊢
      exact ih htrace
    | step o next =>
      -- either the exchange is the one just made, or it was there before
      rcases eq_nil_or_concat τ₂ with rfl | ⟨τ₂', last, rfl⟩
      · have hlast := htrace
        rw [act_trace hj] at hlast
        obtain ⟨hτ, he⟩ := append_inj' hlast rfl
        cases he
        exact ⟨s', hs, hτ, ⟨next, hj⟩, rfl, .refl⟩
      · have hbefore : s'.trace = τ₁ ++ (i, e) :: τ₂' := by
          rw [act_trace hj, concat_eq_append, ← cons_append, ← append_assoc] at htrace
          exact (append_inj' htrace rfl).1
        obtain ⟨s, hreach, hτ, hnext, hreply, hrest⟩ := ih hbefore
        exact ⟨s, hreach, hτ, hnext, hreply, hrest.act j⟩

end Reaches

/-! ### The order of exchanges -/

theorem Reaches.moment_at {i : ι} {e : Exchange} {n : Nat} (h : Reaches host other s₁ s₂)
    (h₁ : s₁.trace.length ≤ n) (hn : s₂.trace[n]? = some (i, e)) :
    ∃ s, Reaches host other s₁ s ∧ s.trace = s₂.trace.take n ∧
      (∃ next, s.threads i = .step e.op next) ∧ (e.op.perform host s.world).1 = e.reply ∧
      Reaches host other (s.act host i) s₂ := by
  have hlt : n < s₂.trace.length := (List.getElem?_eq_some_iff.1 hn).1
  refine h.moment ?_ (trace_split hn)
  rwa [length_take, Nat.min_eq_left hlt.le]

/-- Where the exchanges of one action stand in the trace: in the order in which it made them. -/
theorem positions (s : Crew ι α) (i : ι) : ∃ f : Nat → Nat, StrictMono f ∧
      ∀ k e, (s.historyOf i)[k]? = some e → s.trace[f k]? = some (i, e) := by
  have hsub : ((s.historyOf i).map fun e => (i, e)).Sublist s.trace := by
    rw [historyOf]
    induction s.trace with
    | nil => exact .slnil
    | cons x τ ih =>
      obtain ⟨j, e⟩ := x
      by_cases hij : j = i
      · subst hij
        rw [part_cons_self, map_cons]
        exact ih.cons_cons _
      · rw [part_cons_of_ne hij]
        exact ih.cons _
  obtain ⟨f, hf⟩ := sublist_iff_exists_orderEmbedding_getElem?_eq.1 hsub
  refine ⟨f, f.strictMono, fun k e hk => ?_⟩
  rw [← hf, getElem?_map, hk, Option.map_some]

/-! ### What lasts -/

/-- A property of worlds that no step of a crew on its way puts an end to. -/
def Lasting (host : Host) (other : World → World → Prop) (s : Crew ι α) (Q : World → Prop) : Prop :=
  ∀ s', Reaches host other s s' → Q s'.world → (∀ i, Q (s'.act host i).world) ∧
    ∀ w, other s'.world w → Q w

namespace Lasting

variable {Q : World → Prop} {i j : ι} {e e' : Exchange} {n m : Nat}

theorem of_reaches (hQ : Lasting host other s Q) (h₁ : Reaches host other s s₁)
    (h₂ : Reaches host other s₁ s₂) (hq : Q s₁.world) : Q s₂.world := by
  induction h₂ with
  | refl => exact hq
  | act i h ih => exact (hQ _ (h₁.trans h) ih).1 i
  | other h hw ih => exact (hQ _ (h₁.trans h) ih).2 _ hw

/-- What every operation that the actions may ask for keeps, and every change from outside,
lasts. -/
theorem of_uses {P : Op → Prop} (hs : ∀ i, (s.threads i).Uses P)
    (hP : ∀ o w, P o → Q w → Q (o.perform host w).2) (hother : ∀ w w', other w w' → Q w → Q w') :
    Lasting host other s Q := by
  intro s' h hq
  refine ⟨fun i => ?_, fun w hw => hother _ _ hw hq⟩
  obtain ⟨τ, -, htakes⟩ := h.takes
  have huses := (hs i).takes (htakes i)
  cases hi : s'.threads i with
  | done x => rw [act_of_done hi]; exact hq
  | step o next =>
    rw [hi] at huses
    rw [act_world hi]
    exact hP o _ huses.1 hq

theorem holds (hQ : Lasting host other s₁ Q) (h : Reaches host other s₁ s₂) (h₁ : s₁.trace = [])
    (hn : s₂.trace[n]? = some (i, e)) (he : e.Shows host Q) : Q s₂.world := by
  obtain ⟨s, hreach, -, ⟨next, hnext⟩, hreply, hrest⟩ := h.moment_at (by simp [h₁]) hn
  refine hQ.of_reaches (hreach.act i) hrest ?_
  rw [act_world hnext]
  exact he _ hreply

/-- **Lasting properties order the trace.**  An exchange that denies a lasting property comes no
later than one that shows it. -/
theorem order (hQ : Lasting host other s₁ Q) (h : Reaches host other s₁ s₂) (h₁ : s₁.trace = [])
    (hn : s₂.trace[n]? = some (i, e)) (hm : s₂.trace[m]? = some (j, e')) (he : e.Shows host Q)
    (he' : e'.Denies host Q) : m ≤ n := by
  by_contra hlt
  obtain ⟨s, hreach, htrace, -, hreply, -⟩ := h.moment_at (by simp [h₁]) hm
  have hbefore : s.trace[n]? = some (i, e) := by
    rw [htrace, getElem?_take, if_pos (Nat.not_le.1 hlt)]
    exact hn
  exact he' _ hreply (hQ.holds hreach h₁ hbefore he)

end Lasting

end Crew

end PatchTriage
