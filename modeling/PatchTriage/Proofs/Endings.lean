import PatchTriage.Backend.FailureLog
import PatchTriage.Proofs.Crew

/-!
# How work ends

`Job.Ends` speaks of work that comes to a result. Here the work may also end early.
-/

namespace PatchTriage

open Job

def Action.exchanges {α : Type} (host : Host) : Action α → World → History
  | done _, _ => []
  | step o next, w =>
    let (r, w') := o.perform host w
    ⟨o, r⟩ :: exchanges host (next r) w'

theorem Action.ends_exchanges {α : Type} (host : Host) (a : Action α) (w : World) :
    a.Ends (a.exchanges host w) (a.run host w).1 := by
  induction a generalizing w with
  | done x => exact .nil _
  | step o next ih => exact .cons (ih (o.perform host w).1 (o.perform host w).2)

theorem Action.exists_ends {α : Type} (host : Host) (a : Action α) (w : World) :
    ∃ h, a.Ends h (a.run host w).1 :=
  ⟨_, a.ends_exchanges host w⟩

namespace Job

variable {α β : Type} {work : Job α} {f : α → Job β} {h : History} {y : Except Stop β}

/-- `EndsIn work h x`: the exchanges `h` lead the work to its end, in the result or the stop `x`. -/
def EndsIn (work : Job α) (h : History) (x : Except Stop α) : Prop := (ExceptT.run work).Ends h x

/-- Whatever the answers are, the work does not end early. -/
def Sure (work : Job α) : Prop := ∀ h x, EndsIn work h x → ∃ a, x = .ok a

def exchanges (host : Host) (work : Job α) (w : World) : History :=
  (ExceptT.run work).exchanges host w

theorem endsIn_exchanges (host : Host) (work : Job α) (w : World) :
    EndsIn work (work.exchanges host w) (work.run host w).1 :=
  Action.ends_exchanges host (ExceptT.run work) w

/-- **Every run is an ending.** -/
theorem exists_endsIn (host : Host) (work : Job α) (w : World) :
    ∃ h, EndsIn work h (work.run host w).1 :=
  ⟨_, work.endsIn_exchanges host w⟩

theorem endsIn_pure {a : α} {x : Except Stop α} : EndsIn (pure a) h x ↔ h = [] ∧ x = .ok a :=
  Action.ends_done_iff

theorem endsIn_throw {e : Stop} {x : Except Stop α} :
    EndsIn (throw e) h x ↔ h = [] ∧ x = .error e :=
  Action.ends_done_iff

theorem endsIn_bind : EndsIn (work >>= f) h y ↔
      (∃ a h₁ h₂, h = h₁ ++ h₂ ∧ Ends work h₁ a ∧ EndsIn (f a) h₂ y) ∨
      ∃ e, EndsIn work h (.error e) ∧ y = .error e := by
  rw [EndsIn, run_bind, Action.ends_bind]
  constructor
  · rintro ⟨x, h₁, h₂, rfl, hx, hy⟩
    cases x with
    | ok a => exact .inl ⟨a, h₁, h₂, rfl, hx, hy⟩
    | error e =>
      obtain ⟨rfl, rfl⟩ := Action.ends_done_iff.1 hy
      rw [List.append_nil]
      exact .inr ⟨e, hx, rfl⟩
  · rintro (⟨a, h₁, h₂, rfl, ha, hy⟩ | ⟨e, he, rfl⟩)
    · exact ⟨.ok a, h₁, h₂, rfl, ha, hy⟩
    · exact ⟨.error e, h, [], (List.append_nil h).symm, he, .nil _⟩

theorem endsIn_op_bind {o : Op} {f : o.Reply → Job β} :
    EndsIn (op o >>= f) h y ↔ ∃ r h', h = ⟨o, r⟩ :: h' ∧ EndsIn (f r) h' y := by
  show (ExceptT.run (op o >>= f)).Ends h y ↔ _
  rw [run_bind]
  exact Action.ends_step_iff

theorem Sure.bind (hw : Sure work) (hf : ∀ a, Sure (f a)) : Sure (work >>= f) := by
  intro h y hy
  obtain ⟨a, h₁, h₂, -, -, hy⟩ | ⟨e, he, -⟩ := endsIn_bind.1 hy
  · exact hf a h₂ y hy
  · obtain ⟨a, ha⟩ := hw h _ he
    cases ha

theorem Sure.run (hw : Sure work) (host : Host) (w : World) :
    ∃ a, work.run host w = (.ok a, (work.run host w).2) := by
  obtain ⟨h, hh⟩ := work.exists_endsIn host w
  obtain ⟨a, ha⟩ := hw h _ hh
  exact ⟨a, Prod.ext ha rfl⟩

theorem sure_pure (a : α) : Sure (pure a) := fun _ _ hx => ⟨a, (endsIn_pure.1 hx).2⟩

theorem sure_op (o : Op) : Sure (op o) := by
  intro h x hx
  obtain ⟨r, h', -, hx⟩ := Action.ends_step_iff.1 hx
  exact ⟨r, (Action.ends_done_iff.1 hx).2⟩

theorem endsIn_sure_bind (hw : Sure work) (hy : EndsIn (work >>= f) h y) :
    ∃ a h₁ h₂, h = h₁ ++ h₂ ∧ Ends work h₁ a ∧ EndsIn (f a) h₂ y := by
  obtain hy | ⟨e, he, -⟩ := endsIn_bind.1 hy
  · exact hy
  · obtain ⟨a, ha⟩ := hw h _ he
    cases ha

/-- A cleanup follows only work that ended early. The stop goes on after it, unless the cleanup ends
early itself. -/
theorem endsIn_orElseAfter {cleanup : Job Unit} {y : Except Stop α}
    (hy : EndsIn (orElseAfter cleanup work) h y) :
    (∃ a, Ends work h a ∧ y = .ok a) ∨
      ∃ e h₁ h₂ z, h = h₁ ++ h₂ ∧ EndsIn work h₁ (.error e) ∧ EndsIn cleanup h₂ z ∧
        y = z.bind fun _ => .error e := by
  obtain ⟨x, h₁, h₂, rfl, hx, hend⟩ := Action.ends_bind.1 hy
  cases x with
  | ok a =>
    obtain ⟨rfl, rfl⟩ := Action.ends_done_iff.1 hend
    rw [List.append_nil]
    exact .inl ⟨a, hx, rfl⟩
  | error e =>
    refine .inr ⟨e, h₁, h₂, ?_⟩
    obtain ⟨⟨⟩, h₃, h₄, rfl, hclean, hthrow⟩ | ⟨e', hclean, rfl⟩ := endsIn_bind.1 hend
    · obtain ⟨rfl, rfl⟩ := endsIn_throw.1 hthrow
      rw [List.append_nil]
      exact ⟨.ok (), rfl, hx, hclean, rfl⟩
    · exact ⟨.error e', rfl, hx, hclean, rfl⟩

def spawnStop (c : Invocation) (e : IoError) : Stop :=
  .failure ((Failure.of (.io e)).within (.spawn (CommandLine.render c.program c.args)))

theorem endsIn_command {c : Invocation} {limit : Nat} {cancellable : Bool} {y : Except Stop Output}
    (hy : EndsIn (command c limit cancellable) h y) :
    ∃ r, h = [⟨.run c (some limit) cancellable, r⟩] ∧ y = r.mapError (spawnStop c) := by
  rw [EndsIn, command, run_explain] at hy
  obtain ⟨x, h₁, h₂, rfl, hx, hend⟩ := Action.ends_bind.1 hy
  obtain ⟨r, h₁, rfl, hr⟩ := endsIn_op_bind.1 hx
  refine ⟨r, ?_⟩
  cases r with
  | ok o =>
    obtain ⟨rfl, rfl⟩ := endsIn_pure.1 hr
    obtain ⟨rfl, rfl⟩ := Action.ends_done_iff.1 hend
    exact ⟨rfl, rfl⟩
  | error e =>
    obtain ⟨rfl, rfl⟩ := endsIn_throw.1 hr
    obtain ⟨rfl, rfl⟩ := Action.ends_done_iff.1 hend
    exact ⟨rfl, rfl⟩

def scriptInvocation (script : Path) (executable : Bool) : Invocation :=
  if executable then { program := script } else { program := "sh", args := [script] }

theorem sure_scriptCommand {script : Path} : Sure (scriptCommand script) :=
  (sure_op _).bind fun executable => by cases executable <;> exact sure_pure _

theorem ends_scriptCommand {script : Path} {c : Invocation} (hc : Ends (scriptCommand script) h c) :
    ∃ executable, h = [⟨.isExecutable script, executable⟩] ∧
      c = scriptInvocation script executable := by
  obtain ⟨executable, h, rfl, hrest⟩ := endsIn_op_bind.1 hc
  refine ⟨executable, ?_⟩
  cases executable with
  | true =>
    obtain ⟨rfl, heq⟩ := endsIn_pure.1 hrest
    exact ⟨rfl, Except.ok.inj heq⟩
  | false =>
    obtain ⟨rfl, heq⟩ := endsIn_pure.1 hrest
    exact ⟨rfl, Except.ok.inj heq⟩

end Job

namespace FailureLog

variable {l : Layout} {patchId context : Text} {o : Output}

theorem sure_record : Sure (record l patchId context o) := by
  have happend : Sure (do
      let _ ← op (.append (l.errorLog patchId) (entry context o))) :=
    (sure_op _).bind fun _ => sure_pure ()
  rw [record]
  split
  · refine (sure_op _).bind fun r => ?_
    cases r with
    | error e => exact sure_pure ()
    | ok u => exact happend
  · exact happend

theorem uses_record {P : Op → Prop} (hdirs : ∀ p ∈ Path.parent? (l.errorLog patchId),
    P (.createDirs p))
    (hlog : ∀ bytes, P (.append (l.errorLog patchId) bytes)) :
    Uses P (record l patchId context o) := by
  have happend : Uses P (do
      let _ ← op (.append (l.errorLog patchId) (entry context o))) :=
    (uses_op.2 (hlog _)).bind fun _ => uses_pure ()
  rw [record]
  split
  · rename_i parent hparent
    refine (uses_op.2 (hdirs parent hparent)).bind fun r => ?_
    cases r with
    | error e => exact uses_pure ()
    | ok u => exact happend
  · exact happend

end FailureLog

end PatchTriage
