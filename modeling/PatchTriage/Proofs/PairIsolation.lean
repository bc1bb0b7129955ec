import PatchTriage.Proofs.CachedRuns
import PatchTriage.Proofs.Descents

/-!
# Tests with directories of their own

The verdicts of a test are kept in the directory that its name, made safe, leads to. Requests for
one test change no answer of another one (`Verdicts.answers_stay`), provided that the two names lead
to different directories. Making a name safe may make it that of another test
(`Verdicts.tests_share_verdicts`).
-/

namespace PatchTriage

open List Text

namespace FileTree

/-! ## Additions to a tree -/

/-- Everything is as it was, but for new directories, and new files at places of `F`. -/
structure Adds (F : Place → Prop) (t t' : FileTree) : Prop where
  keeps : ∀ k n, t.node? k = some n → t'.node? k = some n
  adds : ∀ k n, t'.node? k = some n → t.node? k = some n ∨ n = .dir ∨ (F k ∧ Node.IsFile n)

section Adds

variable {F G : Place → Prop} {t t' t'' : FileTree} {R : Place}

theorem Adds.refl (F : Place → Prop) (t : FileTree) : Adds F t t :=
  ⟨fun _ _ h => h, fun _ _ h => .inl h⟩

theorem Adds.trans (h : Adds F t t') (h' : Adds F t' t'') : Adds F t t'' := by
  refine ⟨fun k n hk => h'.keeps k n (h.keeps k n hk), fun k n hk => ?_⟩
  rcases h'.adds k n hk with hk' | hnew
  · exact h.adds k n hk'
  · exact .inr hnew

theorem Adds.rooted (h : Adds F t t') (ht : Rooted R t) : Rooted R t' := by
  refine ⟨⟨ht.names, fun k hk => h.keeps k _ (ht.dirs k hk)⟩, fun q target hl => ?_⟩
  rcases h.adds _ _ hl with hl | hdir | ⟨-, hfile⟩
  · exact ht.noLinks q target hl
  · cases hdir
  · exact hfile

theorem AddsDirs.toAdds {S : Place → Prop} (h : AddsDirs S t t') : Adds F t t' := by
  refine ⟨fun k n => h.keeps, fun k n hk => ?_⟩
  rcases h k with hsame | ⟨-, hdir, -⟩
  · exact .inl (hsame ▸ hk)
  · exact .inr (.inl (Option.some.inj (hk.symm.trans hdir)))

theorem Adds.put_file {k : Place} {bytes : Bytes} (hk : t.node? k = none) (hF : F k) :
    Adds F t (t.put k (.file bytes false)) := by
  have hroot : k ≠ [] := by rintro rfl; simp at hk
  refine ⟨fun k' n hn => ?_, fun k' n hn => ?_⟩
  · rw [node?_put_of_ne (by rintro rfl; rw [hk] at hn; cases hn)]
    exact hn
  · by_cases hne : k' = k
    · subst hne
      rw [node?_put_self hroot] at hn
      cases hn
      exact .inr (.inr ⟨hF, trivial⟩)
    · rw [node?_put_of_ne hne] at hn
      exact .inl hn

end Adds

/-! ## Files seen through additions -/

section Descends

variable {R : Place} {p : Path} {q : Place} {t t' : FileTree}

/-- **Additions elsewhere do not show.** -/
theorem Descends.isFile_eq {F : Place → Prop} {cwd cwd' : Place} (hp : Descends R p q)
    (ht : Rooted R t) (hhoused : t.Housed) (h : Adds F t t') (hF : ¬ F (R ++ q)) :
    t'.isFile cwd' p = t.isFile cwd p := by
  have ht' := h.rooted ht
  rw [Bool.eq_iff_iff]
  constructor
  · intro hfile'
    obtain ⟨n, hn, hisFile⟩ := hp.stands.node_of_isFile ht' hfile'
    -- the file is not one of those added
    have hold {m : Node} (hm : Node.IsFile m) (hk : t'.node? (R ++ q) = some m) :
        t.node? (R ++ q) = some m := by
      rcases h.adds _ _ hk with hk | rfl | ⟨hadded, -⟩
      · exact hk
      · exact hm.elim
      · exact absurd hadded hF
    refine hp.isFile ht' ht (fun m => hold) (fun q₀ hpre hdir => ?_) hfile'
    refine hhoused.dir_of_prefix ((prefix_append_right_inj R).2 hpre) ?_ (hold hisFile hn)
    intro heq
    rw [heq, hn] at hdir
    cases hdir
    exact hisFile
  · exact hp.isFile ht ht' (fun m _ => h.keeps _ m) (fun q₀ _ => h.keeps _ _)

end Descends

end FileTree

open FileTree

/-! ## What requests add -/

/-- The operations that look for files, make one directory and create one marker. -/
theorem Op.Makes.adds {R : Place} {w : World} {dir marker : Path} {x y : Place} {o : Op}
    (host : Host) (ho : o.Makes dir marker) (hdir : Stands R dir x) (hmarker : Stands R marker y)
    (hw : Rooted R w.tree) : Adds (· = R ++ y) w.tree (o.perform host w).2.tree := by
  cases o with
  | isFile p => exact .refl _ _
  | createDirs p =>
    obtain rfl : p = dir := ho
    obtain ⟨habs, ps, hps, hx⟩ := hdir
    exact (addsDirs_createDirs hw habs hps hx).toAdds
  | createNew p bytes =>
    obtain rfl : p = marker := ho
    show Adds _ w.tree (w.change (w.tree.createNew w.cwd p bytes)).2.tree
    cases hmade : w.tree.createNew w.cwd p bytes with
    | error e => exact .refl _ _
    | ok t =>
      obtain ⟨hnone, rfl⟩ := hmarker.createNew hw hmade
      exact .put_file hnone rfl
  | _ => exact False.elim ho

namespace Verdicts

inductive Request where
  | loop (reason : Text)
  | verdict (signature : Text) (v : Verdict) (digest : Text)
  deriving DecidableEq

variable {c : Verdicts} {R Q : Place} {partition test : Text} {host : Host} {w : World}

def Request.work (c : Verdicts) (partition test : Text) : Request → Job Unit
  | loop reason => c.markLoop partition test reason
  | verdict signature v digest => do let _ ← c.record partition test signature v digest

/-- Whether the signature of a request is the name of a directory, as all digests are. -/
def Request.IsProper : Request → Prop
  | loop _ => True
  | verdict signature _ _ => IsComponent (pathSafe signature)

instance : DecidablePred Request.IsProper
  | .loop _ => inferInstanceAs (Decidable True)
  | .verdict signature _ _ => inferInstanceAs (Decidable (IsComponent (pathSafe signature)))

/-- The world after requests, one after another, whether they are granted or fail. -/
def serve (c : Verdicts) (host : Host) (partition test : Text)
    (requests : List Request) (w : World) :
    World :=
  requests.foldl (fun w r => ((r.work c partition test).run host w).2) w

inductive MarkerOf (pair : Place) : Place → Prop
  | loop : MarkerOf pair (pair ++ [loopMarker])
  | verdict (signature : Text) (v : Verdict) : MarkerOf pair (pair ++ [signature] ++ [v.marker])

/-- The place of a marker tells the directory that it was put in. -/
theorem MarkerOf.unique {a b x : Place} (ha : MarkerOf a x) (hb : MarkerOf b x) : a = b := by
  cases ha with
  | loop =>
    generalize hx : a ++ [loopMarker] = x at hb
    cases hb with
    | loop => exact (append_inj' hx rfl).1
    | verdict signature v =>
      have hlast := (append_inj' hx rfl).2
      exact absurd (cons.inj hlast).1.symm (marker_ne_loopMarker v)
  | verdict signature v =>
    generalize hx : a ++ [signature] ++ [v.marker] = x at hb
    cases hb with
    | loop =>
      have hlast := (append_inj' hx rfl).2
      exact absurd (cons.inj hlast).1 (marker_ne_loopMarker v)
    | verdict signature' v' => exact (append_inj' (append_inj' hx rfl).1 rfl).1

theorem stands_pairDir (hc : Stands R c.root Q) (hpart : IsComponent partition) (test : Text) :
    Stands R (c.pairDir partition test) (Q ++ pairPlace partition test) :=
  (hc.join_name hpart).join (isAbsolute_of_not_mem (slash_not_mem_pathSafe test))
    (resolve_pathSafe Q partition test)

theorem descends_pairDir (hc : Descends R c.root Q) (hpart : IsComponent partition)
    (htest : pathSafe test ≠ ['.', '.']) :
    Descends R (c.pairDir partition test) (Q ++ pairPlace partition test) := by
  refine ⟨stands_pairDir hc.stands hpart test, ?_⟩
  rw [pairDir, pieces_join (isAbsolute_of_not_mem (slash_not_mem_pathSafe test)),
    pieces_pathSafe, mem_append, not_or]
  refine ⟨(hc.join_name hpart).down, ?_⟩
  split_ifs
  · simp
  · simpa using Ne.symm htest

theorem Request.adds {r : Request} (hr : r.IsProper) (hc : Stands R c.root Q)
    (hpart : IsComponent partition) (host : Host) (test : Text) (hw : Rooted R w.tree) :
    Adds (fun k => ∃ q, k = R ++ q ∧ MarkerOf (Q ++ pairPlace partition test) q) w.tree
      ((r.work c partition test).run host w).2.tree := by
  have hpair := stands_pairDir hc hpart test
  have hstep {dir marker : Path} {x y : Place} (hdir : Stands R dir x) (hmarker : Stands R marker y)
      (hy : MarkerOf (Q ++ pairPlace partition test) y) {work : Job Unit}
      (hwork : Job.Uses (Op.Makes dir marker) work) :
      Adds (fun k => ∃ q, k = R ++ q ∧ MarkerOf (Q ++ pairPlace partition test) q) w.tree
        (work.run host w).2.tree := by
    refine (hwork.run (I := fun w' => Adds _ w.tree w'.tree ∧
      Rooted R w'.tree) ?_ ⟨.refl _ _, hw⟩).1
    rintro o w' ho ⟨hadds, hw'⟩
    have hmakes := ho.adds host hdir hmarker hw'
    have hmore : Adds (fun k => ∃ q, k = R ++ q ∧ MarkerOf (Q ++ pairPlace partition test) q)
        w'.tree (o.perform host w').2.tree := by
      refine ⟨hmakes.keeps, fun k n hk => ?_⟩
      rcases hmakes.adds k n hk with h | h | ⟨h, hfile⟩
      · exact .inl h
      · exact .inr (.inl h)
      · exact .inr (.inr ⟨⟨y, h, hy⟩, hfile⟩)
    exact ⟨hadds.trans hmore, hmore.rooted hw'⟩
  cases r with
  | loop reason => exact hstep hpair (hpair.join_name isComponent_loopMarker) .loop uses_markLoop
  | verdict signature v digest =>
    have hdir := hpair.join_name (show IsComponent (pathSafe signature) from hr)
    exact hstep hdir (hdir.join_name v.isComponent_marker) (.verdict _ v)
      (uses_record.bind fun _ => Job.uses_pure _)

theorem serve_adds (hc : Stands R c.root Q) (hpart : IsComponent partition)
    {requests : List Request}
    (hrequests : ∀ r ∈ requests, r.IsProper) (host : Host) (test : Text) (hw : Rooted R w.tree) :
    Adds (fun k => ∃ q, k = R ++ q ∧ MarkerOf (Q ++ pairPlace partition test) q) w.tree
      (c.serve host partition test requests w).tree := by
  induction requests generalizing w with
  | nil => exact .refl _ _
  | cons r requests ih =>
    obtain ⟨hr, hrest⟩ := forall_mem_cons.1 hrequests
    have hfirst := Request.adds hr hc hpart host test hw
    exact hfirst.trans (ih hrest (hfirst.rooted hw))

/-! ## Answers -/

theorem run_isLoop : ((c.isLoop partition test).run host w).1 =
    .ok (w.tree.isFile w.cwd (c.loopPath partition test)) := rfl

theorem run_lookup (signature : Text) : ((c.lookup partition test signature).run host w).1 =
    .ok (match w.tree.isFile w.cwd (c.markerPath partition test signature .pass),
        w.tree.isFile w.cwd (c.markerPath partition test signature .fail) with
      | true, false => some .pass
      | false, true => some .fail
      | _, _ => none) := rfl

/-- **Requests for one test do not change the answers for another one** whose name leads to another
directory. -/
theorem answers_stay {test' : Text} (hc : Descends R c.root Q) (hw : Rooted R w.tree)
    (hhoused : w.tree.Housed) (hpart : IsComponent partition)
    (hup : pathSafe test ≠ ['.', '.'])
    (hne : pairPlace partition test ≠ pairPlace partition test') (requests : List Request)
    (hrequests : ∀ r ∈ requests, r.IsProper) :
    let w' := c.serve host partition test' requests w
    ((c.isLoop partition test).run host w').1 = ((c.isLoop partition test).run host w).1 ∧
      ∀ signature, IsComponent (pathSafe signature) →
        ((c.lookup partition test signature).run host w').1 =
          ((c.lookup partition test signature).run host w).1 := by
  intro w'
  have hadds := serve_adds hc.stands hpart hrequests host test' hw
  have hpair := descends_pairDir hc hpart hup
  have hsame {p : Path} {q : Place} (hp : Descends R p q)
      (hq : MarkerOf (Q ++ pairPlace partition test) q) :
      w'.tree.isFile w'.cwd p = w.tree.isFile w.cwd p := by
    refine hp.isFile_eq hw hhoused hadds ?_
    rintro ⟨q', heq, hq'⟩
    obtain rfl := append_cancel_left heq
    exact hne (append_cancel_left (hq.unique hq'))
  constructor
  · rw [run_isLoop, run_isLoop, loopPath, hsame (hpair.join_name isComponent_loopMarker) .loop]
  · intro signature hsignature
    have hmarker (v : Verdict) :=
      hsame ((hpair.join_name hsignature).join_name v.isComponent_marker)
      (.verdict _ v)
    rw [run_lookup, run_lookup, markerPath, markerPath, signatureDir, hmarker, hmarker]

def freshDesk : World := { tree := [(["out"], .dir)], cwd := [] }

def deskVerdicts : Verdicts := { root := "/out/partitions" }

theorem answers_stay_freshDesk :
    let w' := deskVerdicts.serve .bare "f.c_10" "t/1"
      [.loop "r", .verdict "abc" .pass "d"] freshDesk
    w'.tree.length = 7 ∧
    ((deskVerdicts.isLoop "f.c_10" "t2").run .bare w').1 =
      ((deskVerdicts.isLoop "f.c_10" "t2").run .bare freshDesk).1 ∧
    ∀ signature, IsComponent (pathSafe signature) →
      ((deskVerdicts.lookup "f.c_10" "t2" signature).run .bare w').1 =
        ((deskVerdicts.lookup "f.c_10" "t2" signature).run .bare freshDesk).1 := by
  have hproper : freshDesk.tree.Proper := by decide +kernel
  have hrooted : Rooted ["out"] freshDesk.tree :=
    rooted_of_entries (by decide +kernel) (by decide +kernel) (by decide +kernel)
  have hroot : Descends ["out"] deskVerdicts.root ["partitions"] :=
    ⟨⟨rfl, ["partitions"], by decide +kernel, by decide +kernel⟩, by decide +kernel⟩
  refine ⟨by decide +kernel, ?_⟩
  exact answers_stay hroot hrooted hproper.housed (by decide +kernel) (by decide +kernel)
    (by decide +kernel) _ (by decide +kernel)

/-- Two tests whose names are made safe in the same way have their verdicts in common: what is
recorded for the one is found for the other. -/
theorem tests_share_verdicts :
    ((deskVerdicts.lookup "f.c_10" "t_1" "abc").run .bare freshDesk).1 = .ok none ∧
    ((deskVerdicts.lookup "f.c_10" "t_1" "abc").run .bare
      (deskVerdicts.serve .bare "f.c_10" "t/1" [.verdict "abc" .pass "d"] freshDesk)).1 =
        .ok (some .pass) := by
  decide +kernel

end Verdicts

end PatchTriage
