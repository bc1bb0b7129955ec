import PatchTriage.Proofs.LoadedPatches
import PatchTriage.Proofs.QuietWork

/-!
# The records of a run

A run has at most one record for each patch, and it is found by the id of the patch.
-/

namespace PatchTriage

open List Job

theorem Job.Gives.bind_of {α β : Type} {Q : β → Prop} {R : α → Prop} {work : Job α}
    {f : α → Job β} (hw : Gives R work) (hf : ∀ a, R a → Gives Q (f a)) : Gives Q (work >>= f) := by
  intro h b hb
  obtain ⟨a, h₁, h₂, -, ha, hb⟩ := ends_bind.1 hb
  exact hf a (hw h₁ a ha) h₂ b hb

/-! ## The ids of loaded patches -/

theorem index_eq_of_id_eq {patches : List Patch} {i j : Nat} {p q : Patch}
    (hids : (patches.map Patch.id).Nodup) (hp : patches[i]? = some p) (hq : patches[j]? = some q)
    (hid : p.id = q.id) : i = j := by
  have hplace : (patches.map Patch.id)[i]? = (patches.map Patch.id)[j]? := by
    rw [getElem?_map, getElem?_map, hp, hq]
    exact congrArg some hid
  have hlt : i < (patches.map Patch.id).length := by
    rw [length_map]
    exact (List.getElem?_eq_some_iff.1 hp).1
  exact (getElem?_inj hlt hids).1 hplace

namespace Population

variable (opts : Options) (base : Path)

theorem State.gives_take (s : State) (path : Path) :
    Gives (fun s' => ∃ bytes, s' = s.add opts base (path, bytes)) (s.take opts base path) := by
  rw [take]
  simp only [add]
  cases s.meet opts base path with
  | inl s' => exact gives_pure ⟨none, rfl⟩
  | inr taken => exact .bind fun answer => gives_pure ⟨_, rfl⟩

/-- Whatever is read, the state is that after files with some contents. -/
theorem State.gives_foldlM_take (files : List Path) (s : State) :
    Gives (fun s' => ∃ fs : List (Path × Option Bytes), s' = fs.foldl (add opts base) s)
      (files.foldlM (take opts base) s) := by
  induction files generalizing s with
  | nil => exact gives_pure ⟨[], rfl⟩
  | cons path files ih =>
    rw [foldlM_cons]
    refine (gives_take opts base s path).bind_of ?_
    rintro _ ⟨bytes, rfl⟩ h s' hs'
    obtain ⟨fs, rfl⟩ := ih _ h s' hs'
    exact ⟨(path, bytes) :: fs, rfl⟩

theorem gives_loadFiles (files : List Path) :
    Gives (fun r => (r.patches.map Patch.id).Nodup) (loadFiles opts base files) := by
  refine (State.gives_foldlM_take opts base _ _).bind_of ?_
  rintro _ ⟨fs, rfl⟩
  have hcounts : State.Counts {} [] := fun _ => rfl
  rw [report_foldl_add opts base _ hcounts]
  exact gives_pure (nodup_ids_fates _ _).1

theorem gives_load (location : Path) :
    Gives (fun r => (r.patches.map Patch.id).Nodup) (load location opts) := by
  refine .bind fun isDir => .ite ?_ (.bind fun isFile => .ite ?_ (gives_fail _))
  · exact .bind fun _ => gives_loadFiles opts _ _
  · exact gives_loadFiles opts _ _

end Population

namespace Run

/-- **The patches of a run have different ids.** -/
theorem gives_prepare (o : Arguments.Options) :
    Gives (fun p => (p.population.patches.map Patch.id).Nodup) (prepare o) := by
  refine .bind fun _ => .bind fun c => (Population.gives_load _ _).bind_of fun loaded hloaded => ?_
  have hids : ((loaded.patches.map Partition.assign).map Patch.id).Nodup := by
    rw [map_map]
    exact hloaded
  dsimp only
  split
  · exact gives_fail_bind _ _
  · exact .bind fun _ => gives_pure hids

/-! ## The records of an account -/

def recordOf (p : Patch) (r : PatchResult) : Record :=
  { patchId := p.id, cls := r.cls, reason := r.reason, timedOut := r.timedOut, path := p.path
    exportName := p.exportName }

/-- **The records** are those of the patches that were worked on, in order. -/
theorem records_account (stageOf : Text → Stage) (patches : List Patch)
    (outcomes : List (Outcome PatchResult)) :
    (account stageOf patches outcomes).records =
      (patches.zip outcomes).filterMap fun (p, o) => (resultOf stageOf p o).map (recordOf p) := by
  have hfold : ∀ (entries : List (Patch × Outcome PatchResult)) (a : Account),
      (entries.foldl (Account.add stageOf) a).records = a.records ++
        entries.filterMap fun (p, o) => (resultOf stageOf p o).map (recordOf p) := by
    intro entries
    induction entries with
    | nil => simp
    | cons entry entries ih =>
      intro a
      obtain ⟨p, o⟩ := entry
      rw [foldl_cons, ih, Account.add]
      cases hresult : resultOf stageOf p o with
      | none => simp [hresult]
      | some r => simp [hresult, recordOf]
  exact hfold _ {}

variable {stageOf : Text → Stage} {patches : List Patch} {outcomes : List (Outcome PatchResult)}
  {i : Nat} {p : Patch} {o : Outcome PatchResult} {r : PatchResult}

theorem recordOf_mem (hp : patches[i]? = some p) (ho : outcomes[i]? = some o)
    (hr : resultOf stageOf p o = some r) :
    recordOf p r ∈ (account stageOf patches outcomes).records := by
  rw [records_account]
  refine mem_filterMap.2 ⟨(p, o), mem_of_getElem? (i := i) ?_, ?_⟩
  · exact getElem?_zip_eq_some.2 ⟨hp, ho⟩
  · simp [hr]

/-- **The record of a patch is found by its id.** -/
theorem eq_recordOf_of_mem (hids : (patches.map Patch.id).Nodup) (hp : patches[i]? = some p)
    (ho : outcomes[i]? = some o) (hr : resultOf stageOf p o = some r) {record : Record}
    (hmem : record ∈ (account stageOf patches outcomes).records) (hid : record.patchId = p.id) :
    record = recordOf p r := by
  rw [records_account] at hmem
  obtain ⟨⟨q, o'⟩, hentry, hrecord⟩ := mem_filterMap.1 hmem
  obtain ⟨r', hr', rfl⟩ := Option.map_eq_some_iff.1 hrecord
  obtain ⟨j, hj⟩ := mem_iff_getElem?.1 hentry
  obtain ⟨hq, ho'⟩ := getElem?_zip_eq_some.1 hj
  obtain rfl : j = i := index_eq_of_id_eq hids hq hp hid
  rw [hp] at hq
  rw [ho] at ho'
  cases hq
  cases ho'
  rw [hr] at hr'
  cases hr'
  rfl

end Run

end PatchTriage
