import PatchTriage.Proofs.RunRecords
import PatchTriage.Proofs.Stops

/-!
# The end of a run

When the patches have been worked on, the run ranks them and writes its reports.
-/

namespace PatchTriage

open List Exchange Report

/-- Whether the exchange is not one in which a file or directory could not be made. -/
def Exchange.granted : Exchange → Bool
  | ⟨.write _ _, r⟩ | ⟨.createDirs _, r⟩ | ⟨.copy _ _, r⟩ => r.isOk
  | _ => true

abbrev Exchange.Granted (e : Exchange) : Prop := e.granted = true

theorem eq_ok_of_isOk {r : Except IoError Unit} (h : r.isOk = true) : ∃ u, r = .ok u := by
  cases r with
  | ok u => exact ⟨u, rfl⟩
  | error e => cases h

open Job

/-! ## What can end the work early -/

namespace Job

variable {P : Stop → Prop} {p : Path}

theorem stops_explain_op_reply {q : Problem} {o : Op} {f : o.Reply → Except IoError Unit}
    (hf : ∀ r, Granted ⟨o, r⟩ → ∃ a, f r = .ok a) :
    Stops Granted P (explain q (op o >>= fun r => reply (f r))) := by
  have hnever : Stops Granted (fun _ => False) (op o >>= fun r => reply (f r)) := stops_op_reply hf
  exact (hnever.explain fun _ => id).mono (fun _ => id) fun _ => False.elim

theorem inherited_contained : Inherited @Contained where
  pure a := stops_pure a
  op _ := stops_op _
  fail _ := stops_fail ⟨_, rfl⟩
  bind hw hnext := hw.bind hnext
  explain _ hw := hw.explain
  attempt hw := hw.attempt
  orElseAfter hcleanup hw := hcleanup.orElseAfter hw
  onFiles _ hsure := hsure.stops

theorem stops_writeText (t : Text) : Stops Granted P (writeText p t) :=
  stops_explain_op_reply fun _ => eq_ok_of_isOk

theorem stops_ensureDir : Stops Granted P (ensureDir p) :=
  stops_explain_op_reply fun _ => eq_ok_of_isOk

end Job

namespace Report

variable {P : Stop → Prop} {l : Layout}

theorem stops_writeJson (p : Path) (v : Json) : Stops Granted P (writeJson p v) := by
  rw [writeJson]
  dsimp only
  split
  · exact stops_ensureDir.bind fun _ => stops_writeText _
  · exact stops_writeText _

theorem stops_exportPatches (records : List Record) :
    Stops Granted P (exportPatches l records) := by
  refine (stops_forIn (fun c _ _ => ?_) _).bind fun _ =>
    (stops_forIn (fun r _ _ => ?_) _).bind fun _ =>
    stops_pure _
  · exact stops_ensureDir.bind fun _ => stops_pure _
  · have hcopy (target : Path) : Stops Granted P
        (explain (.copy r.path target) (do reply (← op (.copy r.path target)))) :=
      stops_explain_op_reply fun _ => eq_ok_of_isOk
    exact (hcopy _).bind fun _ => stops_pure _

theorem stops_scanIssues (dir : Path) : Stops Granted P (scanIssues dir) := by
  refine (stops_op _).bind fun entries => ?_
  split
  · exact stops_pure _
  · refine (stops_mapM fun log _ => ?_).bind fun _ => stops_pure _
    refine contained_readText.attempt.bind fun text => ?_
    split
    · exact stops_pure _
    · exact stops_pure _

end Report

namespace Oracle

variable {s : Setup} {patchId test : Text} {cancellable : Bool}

theorem stops_instrumentedBinary? {H : Exchange → Prop} {P : Stop → Prop} :
    Stops H P (instrumentedBinary? s) := by
  refine (stops_op _).bind fun known => ?_
  split
  · exact stops_pure _
  · have hnoted (made : Option Path) : Stops H P (do op (.setInstrumented made); return made) :=
      (stops_op _).bind fun _ => stops_pure _
    dsimp only
    split
    · exact (stops_pure _).bind hnoted
    · have hmade (binary out : Path) : Stops H P (instrument? s binary out) :=
        (inherited_instrument inherited_contained).attempt.bind fun _ => stops_pure _
      exact (hmade _ _).bind hnoted

end Oracle

namespace Evidence

variable {H : Exchange → Prop} {P : Stop → Prop} {s : Setup}

theorem stops_coverages {id : Text} {record : Text → Path → Job Bool}
    (hrecord : ∀ test out, Contained (record test out)) (tests : List Text) :
    Stops H P (coverages s id record tests) := by
  refine stops_foldlM _ (fun found test _ => Stops.bind ?_ fun c => ?_) _
  · refine Contained.attempt ((hrecord test _).bind fun there => ?_) |>.bind fun _ => stops_pure _
    exact .ite (contained_readText.bind fun _ => stops_pure _) (stops_pure _)
  · split
    · exact stops_pure _
    · exact stops_pure _

/-- Whatever cannot be recorded of the unpatched program is left out. -/
theorem stops_unpatchedCoverage : Stops H P (unpatchedCoverage s) := by
  refine contained_ensureDir.attempt.bind fun made => ?_
  split
  · refine .ite ?_ (Oracle.stops_instrumentedBinary?.bind fun binary => ?_)
    · exact stops_coverages (fun _ _ =>
        Oracle.inherited_suiteCoverage inherited_contained (contained_refuse _)) _
    · split
      · exact stops_coverages (fun _ _ =>
          Oracle.inherited_binaryCoverage inherited_contained (contained_refuse _) _) _
      · exact stops_pure _
  · exact stops_pure _

end Evidence

namespace Run

variable {s : Setup}

def Overflows (s : Setup) (evidence : List (Patch × Evidence)) (o : Overflow) : Prop :=
  ∃ q e unpatched h, (q, e) ∈ evidence ∧ Ends (Evidence.unpatchedCoverage s) h unpatched ∧
    Distances.ofEvidence q.fragments e unpatched = .error o

theorem stops_ranked {H : Exchange → Prop} (evidence : List (Patch × Evidence)) :
    Stops H (fun e => ∃ o, e = .overflow o ∧ Overflows s evidence o) (ranked s evidence) := by
  refine .ite (stops_pure _) ?_
  refine Evidence.stops_unpatchedCoverage.bind_of fun h unpatched _ hunpatched => ?_
  refine (stops_mapM fun entry hentry => ?_).bind fun _ => stops_pure _
  refine (stops_checked fun o ho => ?_).bind fun _ => stops_pure _
  exact ⟨o, rfl, entry.1, entry.2, unpatched, h, hentry, hunpatched, ho⟩

/-- **What can end a run early** if its reports can be written. -/
theorem stops_conclude (p : Prepared) (a : Account) (counters : Counters) (elapsed : Nat) :
    Stops Granted
      (fun e => p.setup.config.onlyValidate = false ∧ ∃ o, e = .overflow o ∧
        Overflows p.setup a.evidence o)
      (conclude p a counters elapsed) := by
  refine (stops_writeJson _ _).bind fun _ => (stops_exportPatches _).bind fun _ => ?_
  refine Stops.bind ?_ fun _ => (stops_scanIssues _).bind fun _ =>
    (stops_writeJson _ _).bind fun _ => (stops_op _).bind fun _ => stops_pure _
  rw [writeRanking]
  split_ifs with honly
  · exact stops_pure _
  -- Only here is there work that may end early though all is granted.
  · have hranked := stops_ranked (H := Granted) (s := p.setup) a.evidence
    exact (hranked.mono (fun _ => id) fun e he => ⟨by simpa using honly, he⟩).bind fun _ =>
      (stops_writeText _).bind fun _ => stops_pure _

end Run

/-! ## What has been written -/

theorem Job.ends_mapM {α β : Type} {f : α → Job β} {l : List α} {h : History} {bs : List β}
    (he : Ends (l.mapM f) h bs) : Forall₂ (fun a b => ∃ h, Ends (f a) h b) l bs := by
  induction l generalizing h bs with
  | nil =>
    obtain ⟨-, rfl⟩ := ends_pure.1 he
    exact .nil
  | cons a l ih =>
    rw [mapM_cons] at he
    obtain ⟨b, h₁, _, _, hb, he⟩ := ends_bind.1 he
    obtain ⟨bs', h₂, _, _, hbs, he⟩ := ends_bind.1 he
    obtain ⟨-, rfl⟩ := ends_pure.1 he
    exact .cons ⟨h₁, hb⟩ (ih hbs)

theorem Report.ends_writeJson {p : Path} {v : Json} {h : History} {u : Unit}
    (he : Ends (writeJson p v) h u) : ⟨.write p (Utf8.encode v.pretty), .ok ()⟩ ∈ h := by
  rw [writeJson] at he
  dsimp only at he
  split at he
  · obtain ⟨_, h₁, h₂, rfl, -, hwrite⟩ := ends_bind.1 he
    exact mem_append_right _ (ends_writeText hwrite ▸ mem_cons_self)
  · exact ends_writeText he ▸ mem_cons_self

namespace Run

variable {s : Setup} {h : History} {evidence : List (Patch × Evidence)}

/-- The ranking has the patches for which there is evidence, each as often as it has some. -/
theorem ends_ranked {order : List Scored} (he : Ends (ranked s evidence) h order) :
    (order.map Scored.patchId).Perm (evidence.map fun entry => entry.1.id) := by
  rw [ranked] at he
  split_ifs at he with hempty
  · obtain ⟨-, rfl⟩ := ends_pure.1 he
    rw [isEmpty_iff.1 hempty]
    exact .nil
  · obtain ⟨unpatched, _, _, -, -, he⟩ := ends_bind.1 he
    obtain ⟨scored, h₁, _, -, hscored, he⟩ := ends_bind.1 he
    obtain ⟨-, rfl⟩ := ends_pure.1 he
    have hids : Forall₂ (· = ·) (evidence.map fun entry => entry.1.id)
        (scored.map Scored.patchId) := by
      rw [forall₂_map_left_iff, forall₂_map_right_iff]
      refine (ends_mapM hscored).imp fun entry b ⟨g, hb⟩ => ?_
      obtain ⟨distances, _, _, -, -, hb⟩ := ends_bind.1 hb
      obtain ⟨-, rfl⟩ := ends_pure.1 hb
      rfl
    rw [forall₂_eq_eq_eq] at hids
    rw [hids]
    exact (mergeSort_perm scored _).map _

/-- What the ranking leaves behind: nothing if patches are only to be validated, and else a file
with a line for each patch for which there is evidence. -/
def RankingWritten (s : Setup) (evidence : List (Patch × Evidence)) (h : History) (ranked : Nat) :
    Prop :=
  if s.config.onlyValidate then ranked = 0
  else ∃ order : List Scored,
    ⟨.write s.layout.score (Utf8.encode (Scored.render order)), .ok ()⟩ ∈ h ∧
      (order.map Scored.patchId).Perm (evidence.map fun entry => entry.1.id) ∧
      ranked = order.length

theorem RankingWritten.mono {h' : History} {ranked : Nat} (hr : RankingWritten s evidence h ranked)
    (hsub : h ⊆ h') : RankingWritten s evidence h' ranked := by
  unfold RankingWritten at hr ⊢
  split_ifs at hr ⊢ with honly
  · exact hr
  · obtain ⟨order, hmem, hr⟩ := hr
    exact ⟨order, hsub hmem, hr⟩

theorem ends_writeRanking {ranked : Nat} (he : Ends (writeRanking s evidence) h ranked) :
    RankingWritten s evidence h ranked := by
  rw [writeRanking] at he
  unfold RankingWritten
  split_ifs at he ⊢ with honly
  · exact (ends_pure.1 he).2
  · obtain ⟨order, h₁, h₂, rfl, horder, he⟩ := ends_bind.1 he
    obtain ⟨_, h₃, h₄, rfl, hwrite, he⟩ := ends_bind.1 he
    obtain ⟨-, rfl⟩ := ends_pure.1 he
    refine ⟨order, ?_, ends_ranked horder, rfl⟩
    rw [ends_writeText hwrite]
    simp

structure Reported (p : Prepared) (a : Account) (counters : Counters) (h : History)
    (summary : Summary) : Prop where
  results : ⟨.write p.setup.layout.result (Utf8.encode (rows a.records).pretty), .ok ()⟩ ∈ h
  account : ⟨.write p.setup.layout.summary (Utf8.encode (summaryJson summary).pretty), .ok ()⟩ ∈ h
  ranking : RankingWritten p.setup a.evidence h summary.ranked
  classes : summary.classes = Class.count (a.records.map Record.cls)
  skipped : summary.skipped = a.skipped
  timedOut : summary.timedOut = a.timedOut
  counters : summary.counters = counters

/-- **What a run has written** when it comes to its summary. -/
theorem ends_conclude {p : Prepared} {a : Account} {counters : Counters} {elapsed : Nat}
    {summary : Summary} (he : Ends (conclude p a counters elapsed) h summary) :
    Reported p a counters h summary := by
  obtain ⟨_, h₁, h', rfl, hresults, he⟩ := ends_bind.1 he
  obtain ⟨_, h₂, h', rfl, -, he⟩ := ends_bind.1 he
  obtain ⟨ranked, h₃, h', rfl, hranking, he⟩ := ends_bind.1 he
  obtain ⟨issues, h₄, h', rfl, -, he⟩ := ends_bind.1 he
  obtain ⟨_, h₅, h', rfl, hsummary, he⟩ := ends_bind.1 he
  obtain ⟨_, h₆, h', rfl, -, he⟩ := ends_bind.1 he
  obtain ⟨-, rfl⟩ := ends_pure.1 he
  refine ⟨?_, ?_, ?_, rfl, rfl, rfl, rfl⟩
  · exact mem_append_left _ (ends_writeJson hresults)
  · have hmem := ends_writeJson hsummary
    simp only [mem_append]
    exact .inr (.inr (.inr (.inr (.inl hmem))))
  · refine (ends_writeRanking hranking).mono fun e hmem => ?_
    simp only [mem_append]
    exact .inr (.inr (.inl hmem))

end Run

end PatchTriage
