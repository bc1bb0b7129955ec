import PatchTriage.Proofs.Crew
import PatchTriage.Proofs.Places
import PatchTriage.Verdicts

/-!
# Racing for a marker

A verdict is recorded in three steps that others may come between: a look for the marker of the
opposite verdict, the creation of the marker itself, and a second look. A marker that is there
stays, so every answer that it is missing stands in the trace before every answer that it is there
(`Crew.Lasting.order`).
-/

namespace PatchTriage

open PatchTriage.Action FileTree Exchange World Crew Utf8

namespace World

def Has (p : Path) (w : World) : Prop := w.tree.isFile w.cwd p = true

def Occupied (p : Path) (w : World) : Prop := w.tree.Occupied w.cwd p

/-- Things have been added to a world, and nothing has been changed or taken away. -/
structure Grows (w w' : World) : Prop where
  tree : w.tree.Extends w'.tree
  cwd : w'.cwd = w.cwd

variable {w w' : World} {p : Path}

theorem Grows.refl (w : World) : Grows w w := ⟨.refl _, rfl⟩

theorem Grows.has (h : Grows w w') (hp : w.Has p) : w'.Has p := by
  rw [Has, h.cwd]
  exact h.tree.isFile hp

theorem Grows.occupied (h : Grows w w') (hp : w.Occupied p) : w'.Occupied p := by
  rw [Occupied, h.cwd]
  exact h.tree.occupied hp

theorem change_eq_ok_iff {x : Except IoError FileTree} :
    (w.change x).1 = .ok () ↔ ∃ t, x = .ok t ∧ (w.change x).2 = { w with tree := t } := by
  cases x with
  | ok t | error e => simp [change]

theorem change_eq_error_iff {x : Except IoError FileTree} {e : IoError} :
    (w.change x).1 = .error e ↔ x = .error e := by
  cases x with
  | ok t | error e' => simp [change]

end World

/-! ## What exchanges tell about a path -/

section Exchanges

variable {host : Host} {p : Path} {bytes : Bytes}

theorem Exchange.shows_isFile : Shows host (Has p) ⟨.isFile p, true⟩ := fun _ h => h

theorem Exchange.denies_isFile : Denies host (Has p) ⟨.isFile p, false⟩ := by
  intro w h hp
  rw [show (Op.perform host w (.isFile p)).1 = true from hp] at h
  cases h

theorem Exchange.shows_createNew : Shows host (Has p) ⟨.createNew p bytes, .ok ()⟩ := by
  intro w h
  obtain ⟨t, ht, hw⟩ := change_eq_ok_iff.1 h
  show Has p (w.change _).2
  rw [hw]
  exact (createNew_spec ht).2.2

theorem Exchange.denies_createNew : Denies host (Has p) ⟨.createNew p bytes, .ok ()⟩ := by
  intro w h hp
  obtain ⟨t, ht, -⟩ := change_eq_ok_iff.1 h
  exact (createNew_spec ht).1 (occupied_of_isFile hp)

theorem Exchange.shows_createNew_refused :
    Shows host (Occupied p) ⟨.createNew p bytes, .error .alreadyExists⟩ := by
  intro w h
  have ht := change_eq_error_iff.1 h
  show Occupied p (w.change _).2
  rw [ht]
  exact occupied_of_createNew ht

end Exchanges

def Op.Grows : Op → Prop
  | isFile _ | createDirs _ | createNew _ _ => True
  | _ => False

theorem Op.Grows.perform {o : Op} (ho : o.Grows) (host : Host) (w : World) :
    World.Grows w (o.perform host w).2 := by
  cases o with
  | isFile p => exact .refl w
  | createDirs p => exact ⟨extends_createDirs, rfl⟩
  | createNew p bytes =>
    show World.Grows w (w.change (w.tree.createNew w.cwd p bytes)).2
    cases ht : w.tree.createNew w.cwd p bytes with
    | ok t => exact ⟨(createNew_spec ht).2.1, rfl⟩
    | error e => exact .refl w
  | _ => exact ho.elim

/-- The operations that look for files, make the one directory and create the one marker. -/
def Op.Makes (dir marker : Path) : Op → Prop
  | isFile _ => True
  | createDirs p => p = dir
  | createNew p _ => p = marker
  | _ => False

theorem Op.Makes.grows {dir marker : Path} {o : Op} (h : o.Makes dir marker) : o.Grows := by
  cases o with
  | isFile _ | createDirs _ | createNew _ _ => trivial
  | _ => exact False.elim h

namespace Verdict

theorem opposite_opposite (v : Verdict) : v.opposite.opposite = v := by cases v <;> rfl

theorem opposite_ne (v : Verdict) : v.opposite ≠ v := by cases v <;> simp [opposite]

theorem eq_or_eq_opposite (u v : Verdict) : u = v ∨ u = v.opposite := by
  cases u <;> cases v <;> simp [opposite]

theorem isComponent_marker (v : Verdict) : IsComponent v.marker := by
  cases v <;> constructor <;> decide

end Verdict

namespace Verdicts

variable {c : Verdicts} {partition test signature digest : Text} {v : Verdict} {h : History}

/-! ## One call -/

def markerPath (c : Verdicts) (partition test signature : Text) (v : Verdict) : Path :=
  Path.join (c.signatureDir partition test signature) v.marker

def secondLook (other : Path) : Action (Except Stop Recording) :=
  .step (.isFile other) fun found => .done (.ok (if found then .conflict else .recorded))

theorem run_record : ExceptT.run (c.record partition test signature v digest) =
    .step (.createDirs (c.signatureDir partition test signature)) fun
      | .error e => .done (.error (.failure
          ((Failure.of (.io e)).within (.create (c.signatureDir partition test signature)))))
      | .ok () => .step (.isFile (c.markerPath partition test signature v.opposite)) fun
        | true => .done (.ok (.observed v.opposite))
        | false =>
          .step (.createNew (c.markerPath partition test signature v) (encode digest)) fun
            | .ok () => secondLook (c.markerPath partition test signature v.opposite)
            | .error e =>
              if e = .alreadyExists then .done (.ok (.observed v))
              else .done (.error (.failure
                ⟨[.create (c.markerPath partition test signature v), .io e]⟩)) := by
  show step _ _ = step _ _
  congr 1
  funext made
  rcases made with e | ⟨⟩
  · rfl
  show step _ _ = step _ _
  congr 1
  funext found
  cases found with
  | true => rfl
  | false =>
    show step _ _ = step _ _
    congr 1
    funext created
    rcases created with e | ⟨⟩
    · cases e <;> rfl
    show step _ _ = step _ _
    congr 1
    funext found
    cases found <;> rfl

/-- **The ways to an end.**  A call observes the opposite verdict at its first look, or its own when
it finds its marker taken, or it creates its marker and looks again. -/
theorem ends_record {r : Recording}
    (he : Job.Ends (c.record partition test signature v digest) h r) :
    ∃ made tail, h = ⟨.createDirs (c.signatureDir partition test signature), made⟩ :: tail ∧
      ((tail = [⟨.isFile (c.markerPath partition test signature v.opposite), true⟩] ∧
          r = .observed v.opposite) ∨
        (tail = [⟨.isFile (c.markerPath partition test signature v.opposite), false⟩,
            ⟨.createNew (c.markerPath partition test signature v) (encode digest),
              .error .alreadyExists⟩] ∧ r = .observed v) ∨
        ∃ found, tail = [⟨.isFile (c.markerPath partition test signature v.opposite), false⟩,
            ⟨.createNew (c.markerPath partition test signature v) (encode digest), .ok ()⟩,
            ⟨.isFile (c.markerPath partition test signature v.opposite), found⟩] ∧
          r = if found then .conflict else .recorded) := by
  rw [Job.Ends, run_record] at he
  obtain ⟨made, tail, rfl, he₁⟩ := ends_step_iff.1 he
  refine ⟨made, tail, rfl, ?_⟩
  rcases made with e | ⟨⟩
  · exact absurd (ends_done_iff.1 he₁).2 (by simp)
  obtain ⟨found, tail, rfl, he₂⟩ := ends_step_iff.1 he₁
  cases found with
  | true =>
    obtain ⟨rfl, hr⟩ := ends_done_iff.1 he₂
    exact .inl ⟨rfl, Except.ok.inj hr⟩
  | false =>
    obtain ⟨created, tail, rfl, he₃⟩ := ends_step_iff.1 he₂
    rcases created with e | ⟨⟩
    · by_cases htaken : e = .alreadyExists
      · subst htaken
        obtain ⟨rfl, hr⟩ := ends_done_iff.1 he₃
        exact .inr (.inl ⟨rfl, Except.ok.inj hr⟩)
      · simp only [htaken, if_false] at he₃
        exact absurd (ends_done_iff.1 he₃).2 (by simp)
    · obtain ⟨found, tail, rfl, he₄⟩ := ends_step_iff.1 he₃
      obtain ⟨rfl, hr⟩ := ends_done_iff.1 he₄
      exact .inr (.inr ⟨found, rfl, Except.ok.inj hr⟩)

/-- A call that has created a marker has created its own, and its second look decides. -/
theorem takes_record_of_created {b : Action (Except Stop Recording)} {p : Path} {bytes : Bytes}
    (ht : (ExceptT.run (c.record partition test signature v digest)).Takes h b)
    (hcreated : (⟨.createNew p bytes, .ok ()⟩ : Exchange) ∈ h) :
    p = c.markerPath partition test signature v ∧ ∃ start : History, start.length = 2 ∧
      ((h = start ++ [⟨.createNew p bytes, .ok ()⟩] ∧
          b = secondLook (c.markerPath partition test signature v.opposite)) ∨
        ∃ found, h = start ++ [⟨.createNew p bytes, .ok ()⟩,
            ⟨.isFile (c.markerPath partition test signature v.opposite), found⟩] ∧
          b = .done (.ok (if found then .conflict else .recorded))) := by
  rw [run_record] at ht
  rcases h with _ | ⟨e₁, h⟩
  · cases hcreated
  obtain ⟨made, rfl, ht₁⟩ := takes_step_iff.1 ht
  rcases made with e | ⟨⟩
  · obtain ⟨rfl, -⟩ := takes_done_iff.1 ht₁
    simp at hcreated
  rcases h with _ | ⟨e₂, h⟩
  · simp at hcreated
  obtain ⟨found, rfl, ht₂⟩ := takes_step_iff.1 ht₁
  cases found with
  | true =>
    obtain ⟨rfl, -⟩ := takes_done_iff.1 ht₂
    simp at hcreated
  | false =>
    rcases h with _ | ⟨e₃, h⟩
    · simp at hcreated
    obtain ⟨created, rfl, ht₃⟩ := takes_step_iff.1 ht₂
    rcases created with e | ⟨⟩
    · have hdone : h = [] := by
        by_cases htaken : e = .alreadyExists
        · simp only [htaken, if_true] at ht₃
          exact (takes_done_iff.1 ht₃).1
        · simp only [htaken, if_false] at ht₃
          exact (takes_done_iff.1 ht₃).1
      subst hdone
      simp at hcreated
    · rcases h with _ | ⟨e₄, h⟩
      · obtain ⟨rfl, rfl⟩ : p = c.markerPath partition test signature v ∧
            bytes = encode digest := by simpa using hcreated
        exact ⟨rfl, [_, _], rfl, .inl ⟨rfl, takes_nil_iff.1 ht₃⟩⟩
      · obtain ⟨found, rfl, ht₄⟩ := takes_step_iff.1 ht₃
        obtain ⟨rfl, rfl⟩ := takes_done_iff.1 ht₄
        obtain ⟨rfl, rfl⟩ : p = c.markerPath partition test signature v ∧
            bytes = encode digest := by simpa using hcreated
        exact ⟨rfl, [_, _], rfl, .inr ⟨found, rfl, rfl⟩⟩

theorem uses_record : Job.Uses (Op.Makes (c.signatureDir partition test signature)
    (c.markerPath partition test signature v)) (c.record partition test signature v digest) := by
  rw [Job.Uses, run_record]
  refine ⟨rfl, fun made => ?_⟩
  rcases made with e | ⟨⟩
  · trivial
  refine ⟨trivial, fun found => ?_⟩
  cases found with
  | true => trivial
  | false =>
    refine ⟨rfl, fun created => ?_⟩
    rcases created with e | ⟨⟩
    · show Action.Uses _ (if e = .alreadyExists then _ else _)
      split <;> trivial
    · exact ⟨trivial, fun found => trivial⟩

/-! ## Markers that are files -/

/-- The path `dir` goes down from `R` to the place `q` below it, and where a marker belongs there,
there is a file or nothing. -/
structure Sited (dir : Path) (R q : Place) (w : World) : Prop where
  rooted : Rooted R w.tree
  stands : Stands R dir q
  down : (pieces dir).length = (R ++ q).length
  file : ∀ (v : Verdict) n, w.tree.node? (R ++ (q ++ [v.marker])) = some n → Node.IsFile n

/-- Things have been added to a world, but where markers belong in the place `k` only files. -/
def GrowsBeside (k : Place) (w w' : World) : Prop :=
  Grows w w' ∧ ∀ (v : Verdict) n, w'.tree.node? (k ++ [v.marker]) = some n →
    w.tree.node? (k ++ [v.marker]) = some n ∨ Node.IsFile n

namespace Sited

variable {dir : Path} {R q : Place} {w w' : World}

theorem grows (h : Sited dir R q w) (hw : GrowsBeside (R ++ q) w w') : Sited dir R q w' where
  rooted := ⟨⟨h.rooted.names, fun k hk => hw.1.tree.keeps k _ (h.rooted.dirs k hk)⟩,
    fun k target hk => h.rooted.noLinks k target (hw.1.tree.noLink _ _ hk)⟩
  stands := h.stands
  down := h.down
  file u n hn := by
    rw [← List.append_assoc] at hn
    exact (hw.2 u n hn).elim (fun hn => h.file u n (by rwa [← List.append_assoc])) id

theorem perform {o : Op} {v : Verdict} (h : Sited dir R q w)
    (ho : o.Makes dir (Path.join dir v.marker))
    (host : Host) : Sited dir R q (o.perform host w).2 := by
  refine h.grows ⟨ho.grows.perform host w, fun u n hn => ?_⟩
  rw [List.append_assoc] at hn ⊢
  cases o with
  | isFile p => exact .inl hn
  | createDirs p =>
    obtain rfl := ho
    obtain ⟨habs, ps, hps, hq⟩ := h.stands
    have hadds : AddsDirs _ w.tree (w.tree.createDirs w.cwd p).2 :=
      addsDirs_createDirs h.rooted habs hps hq
    obtain hsame | ⟨-, -, ps', q', hprefix, hq', hk⟩ := hadds (R ++ (q ++ [u.marker]))
    · exact .inl (hsame ▸ hn)
    · -- no directory on the way is as far down as a marker
      have hdown := h.down
      have hshort := length_resolve_le hq'
      have hle := hprefix.length_le
      have hlength := congrArg List.length hk
      simp only [hps, List.length_append, List.length_cons, List.length_nil] at hdown hshort hlength
      omega
  | createNew p bytes =>
    obtain rfl := ho
    have hp := h.stands.join_name v.isComponent_marker
    replace hn : (w.change (w.tree.createNew w.cwd _ bytes)).2.tree.node? _ = some n := hn
    cases ht : w.tree.createNew w.cwd (Path.join dir v.marker) bytes with
    | error e => exact .inl (by rwa [ht] at hn)
    | ok t =>
      obtain ⟨-, rfl⟩ := hp.createNew h.rooted ht
      rw [ht, change, node?_put (by simp)] at hn
      split at hn
      · cases hn
        exact .inr trivial
      · exact .inl hn
  | _ => exact ho.elim

end Sited

/-! ## Any number of calls -/

section Race

variable {ι : Type} [DecidableEq ι]

/-- Calls that record a verdict each for the same signature, at their beginning. -/
def race (c : Verdicts) (partition test signature : Text) (verdict : ι → Verdict)
    (digest : ι → Text)
    (w : World) : Crew ι (Except Stop Recording) :=
  { world := w
    threads := fun i => ExceptT.run (c.record partition test signature (verdict i) (digest i)) }

def creation (c : Verdicts) (partition test signature : Text) (v : Verdict) (digest : Text) :
    Exchange :=
  ⟨.createNew (c.markerPath partition test signature v) (encode digest), .ok ()⟩

variable {host : Host} {verdict : ι → Verdict} {digest : ι → Text} {w : World}
  {s : Crew ι (Except Stop Recording)} {i j : ι}
  (hs : Reaches host Grows (race c partition test signature verdict digest w) s)

theorem lasting_race {Q : World → Prop} (hQ : ∀ w w', Grows w w' → Q w → Q w') :
    Lasting host Grows (race c partition test signature verdict digest w) Q :=
  .of_uses (fun _ => uses_record.mono fun _ => Op.Makes.grows)
    (fun _ w ho => hQ _ _ (ho.perform host w)) hQ

theorem lasting_has (p : Path) :
    Lasting host Grows (race c partition test signature verdict digest w) (Has p) :=
  lasting_race fun _ _ h => h.has

include hs

theorem ends_of_race {r : Recording} (hi : s.threads i = .done (.ok r)) :
    Job.Ends (c.record partition test signature (verdict i) (digest i)) (s.historyOf i) r := by
  have ht := hs.takes_historyOf rfl i
  rw [hi] at ht
  exact ht

theorem creation_unique {n m : Nat} {p : Path} {bytes bytes' : Bytes}
    (hn : s.trace[n]? = some (i, ⟨.createNew p bytes, .ok ()⟩))
    (hm : s.trace[m]? = some (j, ⟨.createNew p bytes', .ok ()⟩)) : n = m :=
  Nat.le_antisymm ((lasting_has p).order hs rfl hm hn shows_createNew denies_createNew)
    ((lasting_has p).order hs rfl hn hm shows_createNew denies_createNew)

/-- A call that records its verdict has found the opposite marker missing after it created its
own. -/
theorem missing_after_creation (hi : s.threads i = .done (.ok .recorded)) : ∃ a b : Nat, a < b ∧
      s.trace[a]? = some (i, creation c partition test signature (verdict i) (digest i)) ∧
      s.trace[b]? = some (i, (⟨.isFile (c.markerPath partition test signature
        (verdict i).opposite), false⟩ : Exchange)) := by
  obtain ⟨f, hmono, hf⟩ := s.positions i
  obtain ⟨made, tail, hh, ⟨-, hr⟩ | ⟨-, hr⟩ | ⟨found, rfl, hr⟩⟩ := ends_record (ends_of_race hs hi)
  · cases hr
  · cases hr
  · cases found with
    | true => cases hr
    | false =>
      refine ⟨f 2, f 3, hmono (by simp), hf 2 _ ?_, hf 3 _ ?_⟩
      · rw [hh]; rfl
      · rw [hh]; rfl

/-- **One winner.**  No two calls record their verdicts. -/
theorem recorded_unique (hi : s.threads i = .done (.ok .recorded))
    (hj : s.threads j = .done (.ok .recorded)) : i = j := by
  obtain ⟨a, b, hab, ha, hb⟩ := missing_after_creation hs hi
  obtain ⟨a', b', hab', ha', hb'⟩ := missing_after_creation hs hj
  rcases (verdict j).eq_or_eq_opposite (verdict i) with hv | hv
  · rw [hv] at ha'
    have hn := creation_unique hs ha ha'
    rw [hn, ha'] at ha
    cases ha
    rfl
  · -- each of them looked, and found nothing, before the other had created its marker
    rw [hv, Verdict.opposite_opposite] at hb'
    rw [hv] at ha'
    have h₁ : b' ≤ a := (lasting_has _).order hs rfl ha hb' shows_createNew denies_isFile
    have h₂ : b ≤ a' := (lasting_has _).order hs rfl ha' hb shows_createNew denies_isFile
    omega

/-- **What is observed is there.**  What another call's verdict was taken from is a file. -/
theorem occupied_of_observed {v : Verdict} (hi : s.threads i = .done (.ok (.observed v))) :
    s.world.Occupied (c.markerPath partition test signature v) ∧
      (v ≠ verdict i → s.world.Has (c.markerPath partition test signature v)) := by
  obtain ⟨f, -, hf⟩ := s.positions i
  obtain ⟨made, tail, hh, ⟨rfl, hr⟩ | ⟨rfl, hr⟩ | ⟨found, -, hr⟩⟩ :=
    ends_record (ends_of_race hs hi)
  · cases hr
    have hlook := hf 1 _ (by rw [hh]; rfl)
    have hthere := (lasting_has _).holds hs rfl hlook shows_isFile
    exact ⟨occupied_of_isFile hthere, fun _ => hthere⟩
  · cases hr
    have hrefused := hf 2 _ (by rw [hh]; rfl)
    refine ⟨?_, fun hne => absurd rfl hne⟩
    exact (lasting_race fun _ _ h => h.occupied).holds hs rfl hrefused
      shows_createNew_refused
  · cases found <;> cases hr

/-- What is observed is a file, if nothing else was put where markers belong. -/
theorem has_of_observed {R q : Place} {v : Verdict} (hi : s.threads i = .done (.ok (.observed v)))
    (hdir : Sited (c.signatureDir partition test signature) R q w)
    (hbeside : Reaches host (GrowsBeside (R ++ q))
      (race c partition test signature verdict digest w) s) :
    s.world.Has (c.markerPath partition test signature v) := by
  have hlasting : Lasting host (GrowsBeside (R ++ q))
      (race c partition test signature verdict digest w)
      (Sited (c.signatureDir partition test signature) R q) := by
    refine .of_uses (P := fun o => ∃ v : Verdict, o.Makes (c.signatureDir partition test signature)
      (c.markerPath partition test signature v)) ?_ ?_ fun _ _ hw h => h.grows hw
    · exact fun i => uses_record.mono fun o ho => ⟨verdict i, ho⟩
    · exact fun o w ⟨v, ho⟩ h => h.perform ho host
  have hsited := hlasting.of_reaches .refl hbeside hdir
  exact (hsited.stands.join_name v.isComponent_marker).isFile_of_occupied hsited.rooted
    (hsited.file v) (occupied_of_observed hs hi).1

/-- **The later marker means conflict.**  A call that has created its marker after the opposite one
was created has ended in conflict, or will with its next operation. -/
theorem conflict_of_later {n m : Nat} (hv : verdict i ≠ verdict j) (hnm : n < m)
    (hn : s.trace[n]? = some (i, creation c partition test signature (verdict i) (digest i)))
    (hm : s.trace[m]? = some (j, creation c partition test signature (verdict j) (digest j))) :
    (s.act host j).threads j = .done (.ok .conflict) := by
  have hopp : (verdict j).opposite = verdict i := by
    rcases (verdict i).eq_or_eq_opposite (verdict j) with h | h
    · exact absurd h hv
    · exact h.symm
  have hmem : creation c partition test signature (verdict j) (digest j) ∈ s.historyOf j :=
    mem_part_iff.2 (List.mem_of_getElem? hm)
  obtain ⟨-, start, hlen, ⟨hh, hb⟩ | ⟨found, hh, hb⟩⟩ :=
    takes_record_of_created (hs.takes_historyOf rfl j) hmem
  · -- the second look is still to come
    have hthere := (lasting_has _).holds hs rfl hn shows_createNew
    rw [act_threads_self hb, hopp]
    show done (Except.ok (if s.world.tree.isFile s.world.cwd _ then _ else _)) = _
    rw [hthere]
    rfl
  · -- the second look is in the trace, after the creation
    obtain ⟨f, hmono, hf⟩ := s.positions j
    have h₂ : s.trace[f 2]? =
        some (j, creation c partition test signature (verdict j) (digest j)) :=
      hf 2 _ (by rw [hh, ← hlen]; simp; rfl)
    have h₃ : s.trace[f 3]? = some (j,
        (⟨.isFile (c.markerPath partition test signature (verdict i)), found⟩ : Exchange)) :=
      hf 3 _ (by rw [hh, show 3 = start.length + 1 by omega, ← hopp]; simp)
    have hm₂ : m = f 2 := creation_unique hs hm h₂
    have hlt : f 2 < f 3 := hmono (by simp)
    rw [act_of_done hb, hb]
    cases found with
    | true => rfl
    | false =>
      have := (lasting_has _).order hs rfl hn h₃ shows_createNew denies_isFile
      omega

/-- **The race for a marker.**  However calls on one signature come between each other, and whatever
is added to the tree meanwhile: at most one of them records its verdict, so that opposite verdicts
are never both recorded; a verdict is observed only where its marker is, which is a file if nothing
else was put there; and of two calls that have created the two markers, the one that came later ends
in conflict, at the latest with its next operation. -/
theorem record_race :
    (∀ i j, s.threads i = .done (.ok .recorded) → s.threads j = .done (.ok .recorded) → i = j) ∧
    (∀ i j, verdict i ≠ verdict j →
      ¬ (s.threads i = .done (.ok .recorded) ∧ s.threads j = .done (.ok .recorded))) ∧
    (∀ i v, s.threads i = .done (.ok (.observed v)) →
      s.world.Occupied (c.markerPath partition test signature v) ∧
        (v ≠ verdict i → s.world.Has (c.markerPath partition test signature v)) ∧
        ∀ R q, Sited (c.signatureDir partition test signature) R q w →
          Reaches host (GrowsBeside (R ++ q)) (race c partition test signature verdict digest w) s →
          s.world.Has (c.markerPath partition test signature v)) ∧
    ∀ i j (n m : Nat), verdict i ≠ verdict j → n < m →
      s.trace[n]? = some (i, creation c partition test signature (verdict i) (digest i)) →
      s.trace[m]? = some (j, creation c partition test signature (verdict j) (digest j)) →
      (s.act host j).threads j = .done (.ok .conflict) := by
  refine ⟨fun i j => recorded_unique hs, fun i j hv ⟨hi, hj⟩ => ?_, fun i v hi => ?_,
    fun i j n m hv hnm => conflict_of_later hs hv hnm⟩
  · exact hv (congrArg verdict (recorded_unique hs hi hj))
  · obtain ⟨hthere, hother⟩ := occupied_of_observed hs hi
    exact ⟨hthere, hother, fun R q hdir => has_of_observed hs hi hdir⟩

end Race

/-- Three calls on an empty tree, the second of which has the opposite verdict. -/
def contest : Crew (Fin 3) (Except Stop Recording) :=
  race ⟨"/v"⟩ "p" "t" "s" (fun i => if i = 1 then .fail else .pass) (fun _ => "d")
    { tree := [], cwd := [] }

/-- The calls after both markers have been created, the second by a call that had looked before the
first was there. -/
def contested (host : Host) : Crew (Fin 3) (Except Stop Recording) :=
  contest.play host [0, 0, 1, 1, 0, 0, 1, 2, 2]

/-- The calls after the first has recorded its verdict and the third has found its own. -/
def settled (host : Host) : Crew (Fin 3) (Except Stop Recording) :=
  contest.play host [0, 0, 0, 0, 2, 2, 2]

theorem record_race_contested :
    let host : Host := fun _ _ => .error .notFound
    Reaches host Grows contest (contested host) ∧
      (contested host).threads 0 = .done (.ok .recorded) ∧
      (contested host).threads 2 = .done (.ok (.observed .fail)) ∧
      (contested host).world.Has (markerPath ⟨"/v"⟩ "p" "t" "s" .fail) ∧
      ((contested host).act host 1).threads 1 = .done (.ok .conflict) ∧
      (settled host).threads 2 = .done (.ok (.observed .pass)) ∧
      (settled host).world.Has (markerPath ⟨"/v"⟩ "p" "t" "s" .pass) := by
  intro host
  have hs : Reaches host Grows contest (contested host) := .play _
  have hrecorded : (contested host).threads 0 = .done (.ok .recorded) :=
    result?_eq_some_iff.1 (by decide +kernel)
  have hobserved : (contested host).threads 2 = .done (.ok (.observed .fail)) :=
    result?_eq_some_iff.1 (by decide +kernel)
  have hpass : (contested host).trace[4]? = some (0, creation ⟨"/v"⟩ "p" "t" "s" .pass "d") := by
    decide +kernel
  have hfail : (contested host).trace[6]? = some (1, creation ⟨"/v"⟩ "p" "t" "s" .fail "d") := by
    decide +kernel
  have hown : (settled host).threads 2 = .done (.ok (.observed .pass)) :=
    result?_eq_some_iff.1 (by decide +kernel)
  have hsited : Sited (signatureDir ⟨"/v"⟩ "p" "t" "s") [] ["v", "p", "t", "s"]
      { tree := [], cwd := [] } :=
    { rooted := ⟨⟨by simp, by simp⟩, fun q _ h => by cases q <;> cases h⟩
      stands := ⟨by decide, ["v", "p", "t", "s"], by decide, by decide⟩
      down := by decide
      file := fun _ _ h => by cases h }
  obtain ⟨-, -, hthere, hlater⟩ := record_race hs
  obtain ⟨-, -, hsettled, -⟩ := record_race (s := settled host) (.play _)
  exact ⟨hs, hrecorded, hobserved, (hthere 2 .fail hobserved).2.1 (by decide),
    hlater 0 1 4 6 (by decide) (by decide) hpass hfail, hown,
    (hsettled 2 .pass hown).2.2 [] _ hsited (.play _)⟩

end Verdicts

end PatchTriage
