import PatchTriage.Proofs.FileWork
import PatchTriage.Proofs.Names
import PatchTriage.Proofs.VerdictStore

/-!
# The output directory

All that a run under the debugger writes lies below the output directory, and all but recorded
verdicts beside the store.
-/

namespace PatchTriage

open Job PatchTriage.Path Layout Oracle

open Text

open FileTree

/-! ## Paths of the output directory -/

/-- A name with a dot in it that does not consist of dots is a name of its own, and not that of the
store. -/
theorem FileTree.isComponent_of_dot {n : Text} {c : Char} (hslash : '/' ∉ n) (hdot : '.' ∈ n)
    (hc : c ∈ n) (hne : c ≠ '.') : IsComponent n ∧ n ≠ storeName := by
  refine ⟨⟨?_, hslash, ?_, ?_⟩, ?_⟩
  · rintro rfl; cases hc
  · rintro rfl; simp at hc; exact hne hc
  · rintro rfl; simp at hc; exact hne hc
  · rintro rfl; exact absurd hdot (by decide)

namespace Layout

variable {l : Layout} {R : Place}

/-- The output directory of a layout is the place `R`. -/
structure At (l : Layout) (R : Place) : Prop where
  root : l.root = pathOf R
  names : ∀ n ∈ R, IsComponent n

namespace At

variable (hl : l.At R)

include hl

variable {d : Text}

theorem stands_dir (hd : IsComponent d) : Stands R (join l.root d) [d] := by
  rw [hl.root]
  exact (stands_pathOf hl.names).join_name hd

theorem allBeside_dir (hd : IsComponent d) (hne : d ≠ storeName) : AllBeside R (join l.root d) := by
  have hroot : AllBeside R l.root := hl.root ▸ allBeside_pathOf hl.names
  exact hroot.join hd.noSlash (hroot.beside.join_name hd hne)

theorem allBeside_safe (hd : IsComponent d) (hne : d ≠ storeName) (x : Text) :
    AllBeside R (join (join l.root d) (pathSafe x)) := by
  have hslash := slash_not_mem_pathSafe x
  refine (hl.allBeside_dir hd hne).join hslash ?_
  suffices h : ∃ q, resolve [d] (pieces (pathSafe x)) = some q ∧ q.head? ≠ some storeName by
    obtain ⟨q, hq, hhead⟩ := h
    exact ⟨q, (hl.stands_dir hd).join (isAbsolute_of_not_mem hslash) hq, hhead⟩
  have hhead : [d].head? ≠ some storeName := by simpa using hne
  rw [pieces_pathSafe]
  split_ifs with hempty
  · exact ⟨[d], rfl, hhead⟩
  · by_cases hhere : pathSafe x = ['.']
    · exact ⟨[d], by rw [hhere]; rfl, hhead⟩
    · by_cases hup : pathSafe x = ['.', '.']
      · exact ⟨[], by rw [hup]; rfl, by simp⟩
      · exact ⟨[d, pathSafe x], by simp [resolve, hhere, hup], by simpa using hne⟩

theorem allBeside_scripts : AllBeside R l.scripts := by
  rw [scripts]
  split
  · exact hl.allBeside_safe (by constructor <;> decide) (by decide) _
  · exact hl.allBeside_dir (by constructor <;> decide) (by decide)

variable (id : Text)

theorem allBeside_patchSnapshots : AllBeside R (l.patchSnapshots id) :=
  hl.allBeside_safe (by constructor <;> decide) (by decide) id

theorem allBeside_errors : AllBeside R l.errors :=
  hl.allBeside_dir (by constructor <;> decide) (by decide)

omit hl in
theorem isComponent_errorLog : IsComponent ('p' :: pathSafe id ++ ".err") ∧
      'p' :: pathSafe id ++ ".err" ≠ storeName := by
  refine isComponent_of_dot (c := 'p') ?_ (by simp) (by simp) (by decide)
  simp [slash_not_mem_pathSafe]

theorem beside_errorLog : Beside R (l.errorLog id) :=
  hl.allBeside_errors.beside.join_name (isComponent_errorLog id).1 (isComponent_errorLog id).2

theorem pieces_partitions : pieces l.partitions = R ++ [storeName] := by
  show pieces (join l.root storeName) = _
  rw [hl.root, pieces_join isComponent_storeName.isAbsolute, pieces_pathOf hl.names,
    isComponent_storeName.pieces]

theorem standsInStore_verdicts : StandsInStore R l.partitions [] := by
  refine ⟨?_, [], hl.pieces_partitions, rfl⟩
  show isAbsolute (join l.root storeName) = true
  rw [hl.root]
  exact isAbsolute_join rfl

theorem parent?_errorLog : parent? (l.errorLog id) = some l.errors :=
  parent?_join (by rw [hl.root]; rfl) (by constructor <;> decide) (isComponent_errorLog id).1

theorem beside_script {stem : Text} (hstem : '/' ∉ stem) : Beside R (script l.scripts stem) := by
  obtain ⟨hn, hne⟩ : IsComponent (stem ++ ".gdb") ∧ stem ++ ".gdb" ≠ storeName :=
    isComponent_of_dot (c := 'g') (by simp [hstem]) (by simp) (by simp) (by decide)
  exact hl.allBeside_scripts.beside.join_name hn hne

theorem beside_frontend {stem : Text} (hstem : '/' ∉ stem) :
    Beside R (frontend l.scripts stem) := by
  obtain ⟨hn, hne⟩ : IsComponent (stem ++ ".frontend.sh") ∧
      stem ++ ".frontend.sh" ≠ storeName :=
    isComponent_of_dot (c := 'f') (by simp [hstem]) (by simp) (by simp) (by decide)
  exact hl.allBeside_scripts.beside.join_name hn hne

end At

end Layout

/-! ## Work beside the store -/

namespace UnderDebugger

variable {s : Setup} {R : Place} {p : Patch} {compiled : List Compiled}
    {scripts : ScriptSet} {test : Text}

theorem slash_not_mem_stem {kind : Text} (hkind : '/' ∉ kind) : '/' ∉ stem p test kind := by
  simp [stem, slash_not_mem_pathSafe, hkind]

theorem uses_invoke : Uses (Op.Beside R) (invoke s p test scripts) := by
  have hinvocation (program : Option Path) : Uses (Op.Beside R) (invocation s test program) := by
    rw [invocation]
    split
    · exact (uses_scriptCommand trivial).bind fun _ => uses_pure _
    · exact (uses_scriptCommand trivial).bind fun _ => uses_pure _
    · exact uses_fail _
  have hrun (program : Option Path) (env : List (Text × Text)) (cancellable : Bool) :
      Uses (Op.Beside R) (run s test program env cancellable) :=
    (hinvocation program).bind fun _ => uses_command trivial
  rw [invoke]
  split
  · exact hrun ..
  · exact hrun ..

variable (hl : s.layout.At R)

include hl

theorem uses_write {stem text : Text} (hstem : '/' ∉ stem) :
    Uses (Op.Beside R) (ScriptSet.write s stem text) := by
  refine (uses_ensureDir hl.allBeside_scripts).bind fun _ =>
    (uses_writeText (hl.beside_script hstem)).bind fun _ => ?_
  cases s.config.binary with
  | none => exact uses_pure _
  | some binary =>
    have hfrontend := hl.beside_frontend hstem
    exact Uses.bind (uses_writeWrapper (fun _ => hfrontend) hfrontend) fun _ => uses_pure _

theorem uses_finish {o : Output} : Uses (Op.Beside R) (finish s p test o) := by
  have hrecord (context : Text) :
      Uses (Op.Beside R) (FailureLog.record s.layout p.id context o) := by
    refine FailureLog.uses_record (fun dir hdir => ?_) fun _ => hl.beside_errorLog p.id
    rw [hl.parent?_errorLog, Option.mem_some_iff] at hdir
    exact hdir ▸ hl.allBeside_errors
  exact .ite (uses_pure _) ((hrecord _).bind fun _ => uses_pure _)

theorem uses_runPlain : Uses (Op.Beside R) (runPlain s p scripts test) :=
  uses_invoke.bind fun _ => uses_finish hl

theorem uses_runForSignature : Uses (Op.Beside R) (runForSignature s p compiled test) := by
  have hdump {kind : Text} (hslash : '/' ∉ kind) (hdot : '.' ∈ kind) :
      Beside R (join (s.layout.patchSnapshots p.id) (pathSafe test ++ '_' :: kind)) := by
    obtain ⟨hn, hne⟩ := isComponent_of_dot (n := pathSafe test ++ '_' :: kind) (c := '_')
      (by simp [slash_not_mem_pathSafe, hslash]) (by simp [hdot]) (by simp) (by decide)
    exact (hl.allBeside_patchSnapshots p.id).beside.join_name hn hne
  refine (uses_ensureDir (hl.allBeside_patchSnapshots p.id)).bind fun _ =>
    (uses_removeStale (hdump (by decide) (by decide))).bind fun _ =>
    (uses_removeStale (hdump (by decide) (by decide))).bind fun _ =>
    (uses_removeStale (hdump (by decide) (by decide))).bind fun _ =>
    (uses_write hl (slash_not_mem_stem (by decide))).bind fun _ =>
    uses_invoke.bind fun _ => Dump.uses_signature (fun _ => trivial) (fun _ => trivial) _ _

theorem uses_runForLocation : Uses (Op.Beside R) (runForLocation s p compiled test) :=
  (uses_write hl (slash_not_mem_stem (by decide))).bind fun _ => uses_invoke

end UnderDebugger

end PatchTriage
