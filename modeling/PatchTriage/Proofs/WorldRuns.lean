import PatchTriage.Proofs.Crew
import PatchTriage.Proofs.Places

/-!
# Work done by itself

`Job.run` does work on a world by itself. The run of a sequence is the run of its first part,
followed by the run of the rest on the world that the first part has left (`Job.run_bind_of_ok`,
`Job.run_bind_of_error`). What every operation of some work keeps, the work keeps (`Job.Uses.run`),
so that work that writes at given places leaves all else as it was (`Job.Uses.apart`).
-/

namespace PatchTriage

open List Job World

def Host.bare : Host := fun _ _ => .error .notFound

variable {α β : Type} {host : Host} {w w' : World}

namespace World

theorem eq_of_runCommand_error {c : Invocation} {limit : Option Nat} {cancellable : Bool}
    {e : IoError} (h : w.runCommand host c limit cancellable = (.error e, w')) : w' = w := by
  rw [runCommand] at h
  split at h
  · exact (Prod.mk.inj h).2.symm
  · cases h

theorem tree_of_runCommand {c : Invocation} {limit : Option Nat} {cancellable : Bool} {o : Output}
    (h : w.runCommand host c limit cancellable = (.ok o, w')) :
    ∃ start r, start.program = c.program ∧ host start w.tree = .ok r ∧ w'.tree = r.tree := by
  rw [runCommand] at h
  split at h
  · cases h
  · rename_i r hstarted
    obtain ⟨-, rfl⟩ := Prod.mk.inj h
    simp only [bind, Except.bind] at hstarted
    split at hstarted
    · split at hstarted
      · cases hstarted
      · exact ⟨_, r, rfl, hstarted, rfl⟩
    · cases hstarted

end World

namespace Action

theorem run_bind (host : Host) (a : Action α) (f : α → Action β) (w : World) :
    (a.bind f).run host w = (f (a.run host w).1).run host (a.run host w).2 := by
  induction a generalizing w with
  | done x => rfl
  | step o next ih => exact ih _ _

/-- **From steps to runs.**  What the operations of an action keep, its run keeps. -/
theorem Uses.run {P : Op → Prop} {I : World → Prop} {a : Action α} (ha : a.Uses P)
    (hstep : ∀ o w, P o → I w → I (o.perform host w).2) (hw : I w) : I (a.run host w).2 := by
  induction a generalizing w with
  | done x => exact hw
  | step o next ih => exact ih _ (ha.2 _) (hstep o w ha.1 hw)

end Action

namespace Job

variable {work : Job α} {f : α → Job β}

theorem Uses.run {P : Op → Prop} {I : World → Prop} (hwork : Uses P work)
    (hstep : ∀ o w, P o → I w → I (o.perform host w).2) (hw : I w) : I (work.run host w).2 :=
  Action.Uses.run hwork hstep hw

/-! ## One thing after another -/

theorem run_pure (a : α) : (pure a : Job α).run host w = (.ok a, w) := rfl

variable {a : α}

theorem run_bind_of_ok (h : work.run host w = (.ok a, w')) :
    (work >>= f).run host w = (f a).run host w' := by
  rw [run] at h
  rw [run, run_bind, Action.run_bind, h]
  rfl

theorem run_bind_of_error {e : Stop} (h : work.run host w = (.error e, w')) :
    (work >>= f).run host w = (.error e, w') := by
  rw [run] at h
  rw [run, run_bind, Action.run_bind, h]
  rfl

theorem run_op_bind {o : Op} {f : o.Reply → Job β} :
    (op o >>= f).run host w = (f (o.perform host w).1).run host (o.perform host w).2 :=
  run_bind_of_ok rfl

theorem run_bind_eq_ok_iff {b : β} {w'' : World} : (work >>= f).run host w = (.ok b, w'') ↔
      ∃ a w', work.run host w = (.ok a, w') ∧ (f a).run host w' = (.ok b, w'') := by
  rcases hx : work.run host w with ⟨e | a, w'⟩
  · rw [run_bind_of_error hx]
    simp
  · rw [run_bind_of_ok hx]
    simp

theorem run_explain_eq_ok_iff {p : Problem} :
    (explain p work).run host w = (.ok a, w') ↔ work.run host w = (.ok a, w') := by
  rw [run, run_explain, Action.run_bind, run]
  rcases Action.run host (ExceptT.run work) w with ⟨(f | o) | b, w₁⟩ <;> simp [Action.run]

theorem run_reply_eq_ok_iff {x : Except IoError α} :
    (reply x).run host w = (.ok a, w') ↔ x = .ok a ∧ w' = w := by
  cases x with
  | ok b =>
    rw [reply, run_pure]
    simp [eq_comm]
  | error e =>
    show ((.error _, w) : Except Stop α × World) = (.ok a, w') ↔ _
    simp

/-- The tree is what the first part has left, if the rest does not change it. -/
theorem tree_run_bind (hf : ∀ a w, ((f a).run host w).2.tree = w.tree) :
    ((work >>= f).run host w).2.tree = (work.run host w).2.tree := by
  rcases hx : work.run host w with ⟨e | a, w'⟩
  · rw [run_bind_of_error hx]
  · rw [run_bind_of_ok hx]
    exact hf a w'

theorem run_tryCatch_of_ok {handler : Stop → Job α} (h : work.run host w = (.ok a, w')) :
    (tryCatch work handler).run host w = (.ok a, w') := by
  have hwork : Action.run host work w = (.ok a, w') := h
  show Action.run host (Action.bind work _) w = _
  rw [Action.run_bind, hwork]
  rfl

theorem run_tryCatch_of_error {handler : Stop → Job α} {e : Stop}
    (h : work.run host w = (.error e, w')) :
    (tryCatch work handler).run host w = (handler e).run host w' := by
  have hwork : Action.run host work w = (.error e, w') := h
  show Action.run host (Action.bind work _) w = _
  rw [Action.run_bind, hwork]
  rfl

theorem run_attempt_of_ok (h : work.run host w = (.ok a, w')) :
    (attempt work).run host w = (.ok (.ok a), w') :=
  run_tryCatch_of_ok (run_bind_of_ok h)

theorem run_orElseAfter_of_ok {cleanup : Job Unit} (h : work.run host w = (.ok a, w')) :
    (orElseAfter cleanup work).run host w = (.ok a, w') :=
  run_tryCatch_of_ok h

/-- The cleanup is done where the work has ended early. The stop goes on after it, if not another.
-/
theorem run_orElseAfter_of_error (cleanup : Job Unit) {e : Stop}
    (h : work.run host w = (.error e, w')) :
    ∃ e', (orElseAfter cleanup work).run host w = (.error e', (cleanup.run host w').2) := by
  rw [orElseAfter, run_tryCatch_of_error h]
  rcases hcleanup : cleanup.run host w' with ⟨e' | u, w''⟩
  · exact ⟨e', run_bind_of_error hcleanup⟩
  · exact ⟨e, run_bind_of_ok hcleanup⟩

section Command

variable {c : Invocation} {limit : Nat} {cancellable : Bool}

theorem run_command_eq_ok_iff {o : Output} :
    (command c limit cancellable).run host w = (.ok o, w') ↔
    w.runCommand host c (some limit) cancellable = (.ok o, w') := by
  rw [command, run_explain_eq_ok_iff, run_op_bind, run_reply_eq_ok_iff, Prod.ext_iff,
    eq_comm (a := w')]
  rfl

theorem eq_of_run_command_error {e : Stop}
    (h : (command c limit cancellable).run host w = (.error e, w')) : w' = w := by
  have hrun : (op (.run c (some limit) cancellable) >>= fun r => reply r).run host w =
      (reply (w.runCommand host c (some limit) cancellable).1).run host
        (w.runCommand host c (some limit) cancellable).2 := run_op_bind
  rcases hc : w.runCommand host c (some limit) cancellable with ⟨e' | o, w₁⟩
  · rw [hc] at hrun
    rw [command, explain, run_tryCatch_of_error hrun] at h
    obtain rfl := eq_of_runCommand_error hc
    exact (Prod.mk.inj h).2.symm
  · rw [run_command_eq_ok_iff.2 hc] at h
    cases h

end Command

/-! ## Lists of work that only looks -/

theorem run_mapM_of_forall {g : α → β} {l : List α}
    (h : ∀ a ∈ l, (f a).run host w = (.ok (g a), w)) :
    (l.mapM f).run host w = (.ok (l.map g), w) := by
  induction l with
  | nil => rfl
  | cons a l ih =>
    obtain ⟨ha, hl⟩ := forall_mem_cons.1 h
    rw [mapM_cons, run_bind_of_ok ha, run_bind_of_ok (ih hl)]
    rfl

theorem run_foldlM {f : β → α → Job β} {g : β → α → β}
    (h : ∀ b a, (f b a).run host w = (.ok (g b a), w))
    (l : List α) (b : β) : (l.foldlM f b).run host w = (.ok (l.foldl g b), w) := by
  induction l generalizing b with
  | nil => rfl
  | cons a l ih => rw [foldlM_cons, run_bind_of_ok (h b a), ih, foldl_cons]

theorem eq_map_of_run_mapM {g : α → β} {l : List α} {bs : List β}
    (hf : ∀ a ∈ l, ∀ b w', (f a).run host w = (.ok b, w') → b = g a ∧ w' = w)
    (h : (l.mapM f).run host w = (.ok bs, w')) : bs = l.map g ∧ w' = w := by
  induction l generalizing bs w' with
  | nil =>
    cases h
    exact ⟨rfl, rfl⟩
  | cons a l ih =>
    obtain ⟨ha, hl⟩ := forall_mem_cons.1 hf
    rw [mapM_cons] at h
    obtain ⟨b, w₁, hb, hrest⟩ := run_bind_eq_ok_iff.1 h
    obtain ⟨rfl, rfl⟩ := ha b w₁ hb
    obtain ⟨bs', w₂, hbs, hcons⟩ := run_bind_eq_ok_iff.1 hrest
    obtain ⟨rfl, rfl⟩ := ih hl hbs
    cases hcons
    exact ⟨rfl, rfl⟩

end Job

/-! ## Work that writes at given places -/

open FileTree

/-- The operations that change files at places of `S` below `R`, and make directories at places of
`D`. -/
def Op.WritesAt (R : Place) (S D : Place → Prop) : Op → Prop
  | write p _ | append p _ | setExecutable p | removeFile p => ∃ x, Stands R p x ∧ S x
  | createDirs p => Path.isAbsolute p = true ∧ ∃ ps q, pieces p = R ++ ps ∧ resolve [] ps = some q ∧
      ∀ ps' q', ps' <+: ps → resolve [] ps' = some q' → D q'
  | _ => False

structure FileTree.Apart (R : Place) (S D : Place → Prop) (t t' : FileTree) : Prop where
  rooted : Rooted R t'
  same : ∀ x, ¬ S x → ¬ D x → t'.node? (R ++ x) = t.node? (R ++ x)

section WritesAt

variable {R : Place} {S D : Place → Prop} {t t' : FileTree} {w : World} {host : Host} {o : Op}

theorem FileTree.Touches.apart {x : Place} (h : Touches t t' (R ++ x))
    (ht : Rooted R t) (hx : S x) :
    Apart R S D t t' :=
  ⟨h.rooted ht, fun _ hy _ => h.elsewhere _ fun heq => hy (append_cancel_left heq ▸ hx)⟩

theorem World.change_apart {x : Except IoError FileTree} (hw : Rooted R w.tree)
    (h : ∀ t, x = .ok t → Apart R S D w.tree t) : Apart R S D w.tree (w.change x).2.tree := by
  cases x with
  | ok t => exact h t rfl
  | error e => exact ⟨hw, fun _ _ _ => rfl⟩

theorem Op.WritesAt.perform (host : Host) (ho : o.WritesAt R S D) (hw : Rooted R w.tree) :
    Apart R S D w.tree (o.perform host w).2.tree := by
  cases o with
  | write p bytes =>
    obtain ⟨x, hp, hx⟩ := ho
    exact change_apart hw fun t ht => (hp.touches_modify hw ht).apart hw hx
  | append p bytes =>
    obtain ⟨x, hp, hx⟩ := ho
    exact change_apart hw fun t ht => (hp.touches_modify hw ht).apart hw hx
  | setExecutable p =>
    obtain ⟨x, hp, hx⟩ := ho
    exact change_apart hw fun t ht => (hp.touches_setExecutable hw ht).apart hw hx
  | removeFile p =>
    obtain ⟨x, hp, hx⟩ := ho
    refine change_apart hw fun t ht => ?_
    obtain ⟨hdir, rfl⟩ := hp.removeFile hw ht
    exact (Touches.erase hdir).apart hw hx
  | createDirs p =>
    obtain ⟨habs, ps, q, hps, hq, hD⟩ := ho
    have hadds : AddsDirs _ w.tree (w.tree.createDirs w.cwd p).2 :=
      addsDirs_createDirs hw habs hps hq
    refine ⟨hadds.rooted hw, fun x _ hx => ?_⟩
    rcases hadds (R ++ x) with hsame | ⟨-, -, ps', q', hpre, hq', hplace⟩
    · exact hsame
    · exact absurd (append_cancel_left hplace ▸ hD ps' q' hpre hq') hx
  | _ => exact False.elim ho

theorem Job.Uses.apart {α : Type} {work : Job α} (h : Uses (Op.WritesAt R S D) work)
    (hw : Rooted R w.tree) : Apart R S D w.tree (work.run host w).2.tree := by
  refine h.run (I := fun w' => Apart R S D w.tree w'.tree) (fun o w' ho hw' => ?_) ⟨hw,
    fun _ _ _ => rfl⟩
  have hstep := ho.perform host hw'.rooted
  exact ⟨hstep.rooted, fun x hS hD => (hstep.same x hS hD).trans (hw'.same x hS hD)⟩

end WritesAt

end PatchTriage
