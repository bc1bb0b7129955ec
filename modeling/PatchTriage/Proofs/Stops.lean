import PatchTriage.Proofs.Endings

/-!
# Why work ends early

`Job.Stops H P work`: as long as all exchanges are in `H`, the reason for which the work ends early
is in `P`. `Job.Contained work`: whatever the answers are, the work ends early by a failure only, so
that an attempt at it does not end early at all (`Job.Contained.attempt`).
-/

namespace PatchTriage.Job

open List PatchTriage.Action

variable {α β : Type} {H : Exchange → Prop} {P : Stop → Prop} {work : Job α}

/-- If all exchanges are in `H` and the work ends early, then for a reason in `P`. -/
def Stops (H : Exchange → Prop) (P : Stop → Prop) (work : Job α) : Prop :=
  ∀ h e, (∀ x ∈ h, H x) → EndsIn work h (.error e) → P e

theorem Stops.mono {H' : Exchange → Prop} {P' : Stop → Prop} (hw : Stops H P work)
    (hH : ∀ x, H' x → H x) (hP : ∀ e, P e → P' e) : Stops H' P' work :=
  fun h e hh he => hP e (hw h e (fun x hx => hH x (hh x hx)) he)

theorem Sure.stops (h : Sure work) : Stops H P work := by
  intro _ e _ he
  obtain ⟨a, ha⟩ := h _ _ he
  cases ha

theorem stops_pure (a : α) : Stops H P (pure a) := (sure_pure a).stops

theorem stops_op (o : Op) : Stops H P (op o) := (sure_op o).stops

theorem stops_throw {e : Stop} (h : P e) : Stops H P (throw e : Job α) := by
  intro _ e' _ he
  cases (endsIn_throw.1 he).2
  exact h

theorem stops_fail {f : Failure} (h : P (.failure f)) : Stops H P (fail f : Job α) := stops_throw h

/-- What is done next depends on a result that the exchanges so far lead to. -/
theorem Stops.bind_of {f : α → Job β} (hw : Stops H P work)
    (hf : ∀ h a, (∀ x ∈ h, H x) → Ends work h a → Stops H P (f a)) : Stops H P (work >>= f) := by
  intro h e hh he
  obtain ⟨a, h₁, h₂, rfl, ha, he⟩ | ⟨e', he, heq⟩ := endsIn_bind.1 he
  · obtain ⟨hh₁, hh₂⟩ := forall_mem_append.1 hh
    exact hf h₁ a hh₁ ha h₂ e hh₂ he
  · cases heq
    exact hw h e hh he

theorem Stops.bind {f : α → Job β} (hw : Stops H P work) (hf : ∀ a, Stops H P (f a)) :
    Stops H P (work >>= f) :=
  hw.bind_of fun _ a _ _ => hf a

theorem Stops.ite {c : Prop} [Decidable c] {work' : Job α} (h : Stops H P work)
    (h' : Stops H P work') : Stops H P (if c then work else work') := by
  split
  · exact h
  · exact h'

theorem stops_reply {x : Except IoError α} (h : ∀ e, x = .error e → P (.failure (.of (.io e)))) :
    Stops H P (reply x) := by
  cases x with
  | ok a => exact stops_pure a
  | error e => exact stops_fail (h e rfl)

theorem stops_op_reply {o : Op} {f : o.Reply → Except IoError α}
    (hf : ∀ r, H ⟨o, r⟩ → ∃ a, f r = .ok a) : Stops H P (op o >>= fun r => reply (f r)) := by
  refine (stops_op o).bind_of fun h r hh hr => ?_
  obtain rfl := ends_op.1 hr
  obtain ⟨a, ha⟩ := hf r (hh _ mem_cons_self)
  rw [ha]
  exact stops_pure a

theorem stops_checked {x : Except Overflow α} (h : ∀ o, x = .error o → P (.overflow o)) :
    Stops H P (checked x) := by
  cases x with
  | ok a => exact stops_pure a
  | error o => exact stops_throw (h o rfl)

theorem Stops.explain {p : Problem} (hp : ∀ f, P (.failure f) → P (.failure (f.within p)))
    (hw : Stops H P work) : Stops H P (explain p work) := by
  intro h e hh he
  rw [EndsIn, run_explain] at he
  obtain ⟨x, h₁, h₂, rfl, hx, hend⟩ := Action.ends_bind.1 he
  have hh₁ := (forall_mem_append.1 hh).1
  rcases x with (f | o) | a
  · cases (ends_done_iff.1 hend).2
    exact hp f (hw h₁ _ hh₁ hx)
  · cases (ends_done_iff.1 hend).2
    exact hw h₁ _ hh₁ hx
  · cases (ends_done_iff.1 hend).2

/-- An attempt at work ends early only where the work ends with an overflow. -/
theorem stops_attempt {P' : Stop → Prop} (hw : Stops H P' work)
    (hP : ∀ o, P' (.overflow o) → P (.overflow o)) : Stops H P (attempt work) := by
  intro h e hh he
  obtain ⟨x, h₁, h₂, rfl, hx, hend⟩ := Action.ends_bind.1 he
  have hok : Stops H P' (do return Except.ok (ε := Failure) (← work)) :=
    hw.bind fun _ => stops_pure _
  rcases x with (f | o) | a
  · cases (ends_done_iff.1 hend).2
  · cases (ends_done_iff.1 hend).2
    exact hP o (hok h₁ _ (forall_mem_append.1 hh).1 hx)
  · cases (ends_done_iff.1 hend).2

theorem Stops.attempt (hw : Stops H P work) : Stops H P (attempt work) :=
  stops_attempt hw fun _ => id

theorem Stops.orElseAfter {cleanup : Job Unit} (hc : Stops H P cleanup) (hw : Stops H P work) :
    Stops H P (orElseAfter cleanup work) := by
  intro h e hh he
  obtain ⟨a, -, heq⟩ | ⟨e', h₁, h₂, z, rfl, hwork, hcleanup, heq⟩ := endsIn_orElseAfter he
  · cases heq
  · obtain ⟨hh₁, hh₂⟩ := forall_mem_append.1 hh
    cases z with
    | ok u =>
      cases heq
      exact hw h₁ e hh₁ hwork
    | error e'' =>
      cases heq
      exact hc h₂ e hh₂ hcleanup

theorem stops_mapM {f : α → Job β} {l : List α} (h : ∀ a ∈ l, Stops H P (f a)) :
    Stops H P (l.mapM f) := by
  induction l with
  | nil => exact stops_pure _
  | cons a l ih =>
    obtain ⟨ha, hl⟩ := forall_mem_cons.1 h
    rw [mapM_cons]
    exact ha.bind fun _ => (ih hl).bind fun _ => stops_pure _

theorem stops_foldlM {f : β → α → Job β} (l : List α)
    (hf : ∀ b, ∀ a ∈ l, Stops H P (f b a)) (b : β) :
    Stops H P (l.foldlM f b) := by
  induction l generalizing b with
  | nil => exact stops_pure _
  | cons a l ih =>
    rw [foldlM_cons]
    exact (hf b a mem_cons_self).bind fun b' => ih (fun b a ha => hf b a (.tail _ ha)) b'

theorem stops_forIn {f : α → β → Job (ForInStep β)} {l : List α}
    (h : ∀ a ∈ l, ∀ b, Stops H P (f a b))
    (b : β) : Stops H P (forIn l b f) := by
  induction l generalizing b with
  | nil => exact stops_pure _
  | cons a l ih =>
    obtain ⟨ha, hl⟩ := forall_mem_cons.1 h
    rw [forIn_cons]
    refine (ha b).bind fun next => ?_
    cases next with
    | done b => exact stops_pure _
    | yield b => exact ih hl b

/-! ## Failures only -/

abbrev Contained (work : Job α) : Prop := Stops (fun _ => True) (fun e => ∃ f, e = .failure f) work

theorem Contained.attempt (hw : Contained work) : Stops H P (attempt work) := by
  have hfails : Stops H (fun e => ∃ f, e = .failure f) work :=
    hw.mono (fun _ _ => trivial) fun _ => id
  refine stops_attempt hfails ?_
  rintro o ⟨f, hf⟩
  cases hf

theorem Contained.explain {p : Problem} (hw : Contained work) : Contained (explain p work) :=
  Stops.explain (fun f _ => ⟨f.within p, rfl⟩) hw

theorem contained_refuse (p : Problem) : Contained (refuse p : Job α) := stops_fail ⟨_, rfl⟩

theorem contained_op_reply {o : Op} {f : o.Reply → Except IoError α} :
    Contained (op o >>= fun r => reply (f r)) :=
  (stops_op o).bind fun _ => stops_reply fun _ _ => ⟨_, rfl⟩

section Operations

variable {p : Path}

theorem contained_readText : Contained (readText p) := by
  refine contained_op_reply.bind fun bytes => ?_
  split
  · exact stops_pure _
  · exact contained_refuse _

theorem contained_ensureDir : Contained (ensureDir p) := contained_op_reply.explain

end Operations

end PatchTriage.Job
