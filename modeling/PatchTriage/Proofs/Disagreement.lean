import PatchTriage.Proofs.RecordedVerdicts

/-!
# Calls that disagree

Two calls on one partition and test may come to opposite verdicts for one signature. Then a `LOOP`
marker is to say that its verdicts are not to be trusted. The two calls alone need not see it: each
may find its marker taken by a third call that has not looked for the opposite one yet. But whoever
created the later of the two markers looks again, and finds the other.
-/

namespace PatchTriage

open Job List Exchange World Verdicts Crew Verdict Sha256

open Text

open FileTree

/-! ## Marking a conflict -/

namespace Verdicts

theorem ends_markLoop {c : Verdicts} {partition test reason : Text} {h : History}
    (he : Ends (c.markLoop partition test reason) h ()) :
    ∃ made created, h = [⟨.createDirs (c.pairDir partition test), made⟩,
        ⟨.createNew (c.loopPath partition test) (Utf8.encode reason), created⟩] ∧
      (created = .ok () ∨ created = .error .alreadyExists) := by
  obtain ⟨_, h₁, h', rfl, hdir, he₁⟩ := ends_bind.1 he
  obtain ⟨made, h₂, h₃, rfl, hmade, hreply⟩ := ends_bind.1 (ends_explain.1 hdir)
  obtain rfl := ends_op.1 hmade
  obtain ⟨rfl, -⟩ := ends_reply.1 hreply
  obtain ⟨_, h₂, h₃, rfl, hmarker, hdone⟩ := ends_bind.1 he₁
  obtain ⟨rfl, -⟩ := ends_pure.1 hdone
  obtain ⟨created, h₃, h₄, rfl, hcreated, hanswer⟩ := ends_bind.1 hmarker
  obtain rfl := ends_op.1 hcreated
  suffices hnew : h₄ = [] ∧ (created = .ok () ∨ created = .error .alreadyExists) by
    obtain ⟨rfl, hnew⟩ := hnew
    exact ⟨made, created, rfl, hnew⟩
  rcases created with e | ⟨⟩
  · by_cases htaken : e = .alreadyExists
    · subst htaken
      exact ⟨(ends_pure.1 hanswer).1, .inr rfl⟩
    · cases e <;> first | exact absurd hanswer not_ends_fail | exact absurd rfl htaken
  · exact ⟨(ends_pure.1 hanswer).1, .inl rfl⟩

end Verdicts

namespace UnderDebugger.Call

/-- At the beginning each marker that matters to a call with the given signature is a file, or there
is nothing where it belongs. -/
structure Tidy (s : Setup) (R : Place) (w : World) (k : Call) (signature : Text) : Prop where
  named : IsComponent (pathSafe k.test)
  loop : w.tree.node? (inStore R (k.place ++ [loopMarker])) = none ∨
    w.Has (s.verdicts.loopPath k.partition k.test)
  marker : ∀ v : Verdict, w.tree.node? (inStore R (k.place ++ [signature, v.marker])) = none ∨
    w.Has (s.verdicts.markerPath k.partition k.test signature v)

theorem loopPath_congr {s : Setup} {k k' : Call} (hpartition : k'.partition = k.partition)
    (htest : pathSafe k'.test = pathSafe k.test) :
    s.verdicts.loopPath k'.partition k'.test = s.verdicts.loopPath k.partition k.test := by
  rw [loopPath, loopPath, pairDir, pairDir, hpartition, htest]

theorem Tidy.congr {s : Setup} {R : Place} {w : World} {k k' : Call} {signature : Text}
    (h : Tidy s R w k signature) (hpartition : k'.partition = k.partition)
    (htest : pathSafe k'.test = pathSafe k.test) : Tidy s R w k' signature := by
  have hplace : k'.place = k.place := (place_eq_iff h.named).2 ⟨hpartition, htest⟩
  refine ⟨htest ▸ h.named, ?_, fun v => ?_⟩
  · rw [hplace, loopPath_congr hpartition htest]
    exact h.loop
  · rw [hplace, markerPath_congr hpartition htest]
    exact h.marker v

/-- The end of a call that has come to a verdict: it is recorded, and then settled what to do about
it. -/
theorem record_of_judged {s : Setup} {R : Place} {k : Call} {h : History}
    {outcome ran : TestOutcome}
    {signature : Text} (hl : s.layout.At R) (he : Ends (k.work s) h outcome)
    (hc : k.course? s h = some (.judged signature ran)) :
    ∃ digest h₁ h₂ h₃ r, h = h₁ ++ (h₂ ++ h₃) ∧ (∀ e ∈ h₁, e.op.Beside R) ∧
      Ends (s.verdicts.record k.partition k.test signature (ofPassed ran.passed) digest) h₂ r ∧
      Ends (k.settle s (ofPassed ran.passed) r) h₃ () := by
  rw [work_eq] at he
  obtain ⟨c, g₁, g, rfl, hcourse, he₁⟩ := ends_bind.1 he
  obtain rfl : Course.judged signature ran = c :=
    Option.some.inj (hc.symm.trans (result?_eq_some_iff.2 ⟨g₁, g, rfl, hcourse⟩))
  obtain ⟨digest, g₂, g', rfl, hdigest, he₂⟩ := ends_bind.1 he₁
  obtain ⟨r, g₃, g'', rfl, hrecord, he₃⟩ := ends_bind.1 he₂
  obtain ⟨_, g₄, g₅, rfl, hsettle, hdone⟩ := ends_bind.1 he₃
  obtain ⟨rfl, -⟩ := ends_pure.1 hdone
  refine ⟨digest, g₁ ++ g₂, g₃, g₄, r, by simp, fun e hmem => ?_, hrecord, hsettle⟩
  rcases mem_append.1 hmem with hmem | hmem
  · exact (uses_course hl).of_mem hcourse hmem
  · exact (Dump.uses_digest (fun _ => trivial) _).of_mem hdigest hmem

section Together

variable {ι : Type} [DecidableEq ι] {s : Setup} {R : Place} {host : Host} {w : World}
  {calls : ι → Call} {σ σ' : Crew ι (Except Stop TestOutcome)} {i j : ι} {signature : Text}
  {v : Verdict} (h₀ : Sheltered s R host w)
  (hσ : Reaches host (Elsewhere R) (crew s calls w) σ)

include h₀ hσ

/-! ## Directories in the store -/

omit [DecidableEq ι] h₀ hσ in
theorem pieces_pairDir (hl : s.layout.At R) (k : Call) :
    ∃ ps, pieces (s.verdicts.pairDir k.partition k.test) = R ++ ps ∧ ps.length ≤ 3 := by
  have hslash := slash_not_mem_pathSafe k.test
  have hpartition : IsComponent k.partition := isComponent_partition
  refine ⟨storeName :: k.partition :: pieces (pathSafe k.test), ?_, ?_⟩
  · rw [pairDir, pieces_join (isAbsolute_of_not_mem hslash), pieces_join hpartition.isAbsolute,
      hpartition.pieces]
    show pieces s.layout.partitions ++ _ ++ _ = _
    rw [hl.pieces_partitions]
    simp
  · rw [pieces_of_not_mem hslash]
    split_ifs <;> simp

/-- A directory that a call has put in the store is that of a partition or test, or of a
signature. -/
theorem dir_put {e : Exchange} {n : Nat} {x : Place} (hn : σ.trace[n]? = some (i, e))
    (hputs : e.Puts R (storeName :: x) .dir) :
    x.length ≤ 2 ∨ ∃ m, x = (calls i).place ++ [hex m] := by
  cases hputs with
  | @dir p made ps ps' _ hps hpre hq =>
    have hlength := length_resolve_le hq
    obtain ⟨ps₀, hps₀, hshort⟩ := pieces_pairDir h₀.layout (calls i)
    have hbeside : ¬ AllBeside R p := by
      rintro ⟨-, ps₁, hps₁, hall⟩
      obtain rfl : ps₁ = ps := append_cancel_left (hps₁.symm.trans hps)
      obtain ⟨q, hq', hhead⟩ := hall ps' hpre
      rw [hq] at hq'
      cases hq'
      exact hhead rfl
    -- up to the directory of the test there are three names, that of the store among them
    have hupper (h : ps' <+: ps₀) : x.length ≤ 2 := by
      have := h.length_le
      simp only [length_cons, length_nil] at hlength
      omega
    rcases does_at h₀ hσ hn with hb | ⟨c, hc, hdoes⟩
    · exact absurd hb hbeside
    cases hdoes with
    | beside hb => exact absurd hb hbeside
    | markLoop hmakes =>
      obtain rfl : p = s.verdicts.pairDir (calls i).partition (calls i).test := hmakes
      obtain rfl : ps₀ = ps := append_cancel_left (hps₀.symm.trans hps)
      exact .inl (hupper hpre)
    | @record signature outcome _ hmakes =>
      obtain rfl : p = s.verdicts.signatureDir (calls i).partition (calls i).test signature :=
        hmakes
      have hsig := signature_of_course? hc rfl
      have hstands := (standsInStore_signatureDir (k := calls i) h₀.layout hsig).stands
      obtain ⟨m, rfl⟩ := hsig
      have hjoin : pieces (s.verdicts.signatureDir (calls i).partition (calls i).test
          (hex m)) = R ++ (ps₀ ++ [hex m]) := by
        rw [signatureDir, pathSafe_hex,
          pieces_join (isComponent_hex m).isAbsolute, hps₀, (isComponent_hex m).pieces,
          append_assoc]
      obtain rfl : ps₀ ++ [hex m] = ps := append_cancel_left (hjoin.symm.trans hps)
      rcases prefix_concat_iff.1 hpre with rfl | hpre
      · have hplace := hstands.unique ⟨hstands.1, _, hps, hq⟩
        exact .inr ⟨m, (cons.inj hplace).2.symm⟩
      · exact .inl (hupper hpre)

/-- Where no call makes a directory there is a file or nothing, if it was so at the beginning. -/
theorem file_of_long {p : Path} {x : Place} (hlong : 2 < x.length)
    (hname : ∀ k m, x ≠ (calls k).place ++ [hex m]) (hp : StandsInStore R p x)
    (hstart : w.tree.node? (inStore R x) = none ∨ w.Has p) {n : Node}
    (hn : σ.world.tree.node? (inStore R x) = some n) : Node.IsFile n := by
  rcases (tending h₀).putBy hσ hn with hn₀ | ⟨m, k, e, hm, hputs⟩
  · rcases hstart with hnone | hhas
    · exact absurd (hnone.symm.trans hn₀) (by simp)
    · obtain ⟨n', hn', hfile⟩ := hp.stands.node_of_isFile h₀.rooted hhas
      obtain rfl : n = n' := Option.some.inj (hn₀.symm.trans hn')
      exact hfile
  · cases hputs with
    | file _ => trivial
    | dir hps hpre hq =>
      rcases dir_put h₀ hσ hm (.dir hps hpre hq) with hshort | ⟨d, hx⟩
      · omega
      · exact absurd hx (hname k d)

theorem file_of_loop (ht : Tidy s R w (calls i) signature) {n : Node}
    (hn : σ.world.tree.node? (inStore R ((calls i).place ++ [loopMarker])) = some n) :
    Node.IsFile n := by
  refine file_of_long h₀ hσ ?_ (fun k m hx => ?_) (standsInStore_loopPath h₀.layout) ht.loop hn
  · rw [place_eq_of_isComponent ht.named]
    simp
  · have hlast : loopMarker = hex m := by simpa using congrArg getLast? hx
    have hmem : 'L' ∈ hex m := hlast ▸ (by decide : 'L' ∈ loopMarker)
    exact absurd (Bytes.mem_hexDigits hmem) (by decide)

/-- Where a marker belongs there is a file, or nothing. -/
theorem file_of_marker (hsig : ∃ m, signature = hex m)
    (ht : Tidy s R w (calls i) signature) {n : Node}
    (hn : σ.world.tree.node? (inStore R ((calls i).place ++ [signature, v.marker])) = some n) :
    Node.IsFile n := by
  refine file_of_long h₀ hσ ?_ (fun k m hx => ?_) (standsInStore_markerPath h₀.layout hsig)
    (ht.marker v) hn
  · rw [place_eq_of_isComponent ht.named]
    simp
  · have hlength := congrArg length hx
    have hshort : (calls k).place.length ≤ 2 := length_pairPlace_le
    rw [place_eq_of_isComponent ht.named] at hlength
    simp only [length_append, length_cons, length_nil] at hlength
    omega

/-- After an attempt to create a marker it is there, if only files can be there. -/
theorem has_of_new {p : Path} {x : Place} {bytes : Bytes} {created : Except IoError Unit} {n : Nat}
    (hp : StandsInStore R p x)
    (hfile : ∀ σ₁, Reaches host (Elsewhere R) (crew s calls w) σ₁ → ∀ n,
      σ₁.world.tree.node? (inStore R x) = some n → Node.IsFile n)
    (hn : σ.trace[n]? = some (i, ⟨.createNew p bytes, created⟩))
    (hcreated : created = .ok () ∨ created = .error .alreadyExists) : σ.world.Has p := by
  have hlasting : Lasting host (Elsewhere R) (crew s calls w) (Has p) := (tending h₀).lasting_has hp
  rcases hcreated with rfl | rfl
  · exact hlasting.holds hσ rfl hn shows_createNew
  · obtain ⟨σ₁, hσ₁, -, ⟨next, hnext⟩, hreply, hrest⟩ := hσ.moment_at (Nat.zero_le n) hn
    refine hlasting.of_reaches (hσ₁.act i) hrest ?_
    have hoccupied := shows_createNew_refused _ hreply
    rw [← act_world hnext] at hoccupied
    exact hp.stands.isFile_of_occupied ((tending h₀).rooted_of_reaches (hσ₁.act i))
      (hfile _ (hσ₁.act i)) hoccupied

/-! ## Calls that have finished -/

section Finished

variable {outcome ran : TestOutcome} (ht : Tidy s R w (calls i) signature)
  (hi : σ.threads i = .done (.ok outcome))
  (hc : (calls i).course? s (σ.historyOf i) = some (.judged signature ran))
  (hno : ¬ σ.world.Has (s.verdicts.loopPath (calls i).partition (calls i).test))

include ht hi hc hno

/-- A call that has finished and left no `LOOP` marker has found the opposite marker missing, and
its own taken, or created it and found the opposite one still missing. -/
theorem ways_of_judged : ∃ digest h₁ made tail,
    let marker := s.verdicts.markerPath (calls i).partition (calls i).test signature
    let v := ofPassed ran.passed
    σ.historyOf i = h₁ ++ made :: ⟨.isFile (marker v.opposite), false⟩ :: tail ∧
      (∀ e ∈ h₁, e.op.Beside R) ∧
      made.op = .createDirs (s.verdicts.signatureDir (calls i).partition (calls i).test signature) ∧
      (tail = [⟨.createNew (marker v) (Utf8.encode digest), .error .alreadyExists⟩] ∨
        tail = [⟨.createNew (marker v) (Utf8.encode digest), .ok ()⟩,
          ⟨.isFile (marker v.opposite), false⟩]) := by
  obtain ⟨digest, h₁, h₂, h₃, r, hh, hbeside, hrecord, hsettle⟩ :=
    record_of_judged h₀.layout (ends_of_reaches hσ hi) hc
  have hnever (reason : Text)
      (hloop : Ends (s.verdicts.markLoop (calls i).partition (calls i).test reason) h₃ ()) :
      False := by
    obtain ⟨f, -, hf⟩ := σ.positions i
    obtain ⟨made, created, rfl, hcreated⟩ := ends_markLoop hloop
    have hn := hf (h₁.length + h₂.length + 1) _ (by rw [hh]; simp [Nat.add_assoc]; rfl)
    exact hno (has_of_new h₀ hσ (standsInStore_loopPath h₀.layout)
      (fun σ₁ hσ₁ n => file_of_loop h₀ hσ₁ ht) hn hcreated)
  obtain ⟨made, tail, rfl, ⟨rfl, rfl⟩ | ⟨rfl, rfl⟩ | ⟨found, rfl, rfl⟩⟩ := ends_record hrecord
  · rw [settle, if_neg (opposite_ne _)] at hsettle
    exact (hnever _ hsettle).elim
  · rw [settle, if_pos rfl] at hsettle
    obtain ⟨rfl, -⟩ := ends_pure.1 hsettle
    exact ⟨digest, h₁, _, _, by rw [hh, append_nil], hbeside, rfl, .inl rfl⟩
  · cases found with
    | true => exact (hnever _ hsettle).elim
    | false =>
      obtain ⟨rfl, -⟩ := ends_pure.1 hsettle
      exact ⟨digest, h₁, _, _, by rw [hh, append_nil], hbeside, rfl, .inr rfl⟩

/-- Then its own marker is there, and it has once found the opposite one missing. -/
theorem owned_of_judged :
    σ.world.Has (s.verdicts.markerPath (calls i).partition (calls i).test signature
      (ofPassed ran.passed)) ∧
    ∃ n : Nat, σ.trace[n]? = some (i, (⟨.isFile (s.verdicts.markerPath (calls i).partition
      (calls i).test signature (ofPassed ran.passed).opposite), false⟩ : Exchange)) := by
  obtain ⟨f, -, hf⟩ := σ.positions i
  obtain ⟨digest, h₁, made, tail, hh, -, -, htail⟩ := ways_of_judged h₀ hσ ht hi hc hno
  have hsig := signature_of_course? hc rfl
  have hown (created : Except IoError Unit) (rest : History)
      (hrest : tail = ⟨.createNew (s.verdicts.markerPath (calls i).partition (calls i).test
        signature (ofPassed ran.passed)) (Utf8.encode digest), created⟩ :: rest)
      (hcreated : created = .ok () ∨ created = .error .alreadyExists) :
      σ.world.Has (s.verdicts.markerPath (calls i).partition (calls i).test signature
        (ofPassed ran.passed)) := by
    have hn := hf (h₁.length + 2) _ (by rw [hh, hrest]; simp; rfl)
    exact has_of_new h₀ hσ (standsInStore_markerPath h₀.layout hsig)
      (fun σ₁ hσ₁ n => file_of_marker h₀ hσ₁ hsig ht) hn hcreated
  refine ⟨?_, f (h₁.length + 1), hf _ _ (by rw [hh]; simp)⟩
  rcases htail with htail | htail
  · exact hown _ _ htail (.inr rfl)
  · exact hown _ _ htail (.inl rfl)

/-- And if it has created its own marker, it has found the opposite one missing after that. -/
theorem missing_after_creation {n : Nat} {bytes : Bytes}
    (hn : σ.trace[n]? = some (i, ⟨.createNew (s.verdicts.markerPath (calls i).partition
      (calls i).test signature (ofPassed ran.passed)) bytes, .ok ()⟩)) :
    ∃ m : Nat, n < m ∧ σ.trace[m]? = some (i, (⟨.isFile (s.verdicts.markerPath (calls i).partition
      (calls i).test signature (ofPassed ran.passed).opposite), false⟩ : Exchange)) := by
  obtain ⟨f, hmono, hf⟩ := σ.positions i
  obtain ⟨digest, h₁, made, tail, hh, hbeside, hmade, htail⟩ := ways_of_judged h₀ hσ ht hi hc hno
  have hmem := mem_part_iff.2 (mem_of_getElem? hn)
  rw [← historyOf, hh, mem_append, mem_cons, mem_cons] at hmem
  rcases hmem with hmem | rfl | hmem | hmem
  · exact (hbeside _ hmem).elim
  · cases hmade
  · cases hmem
  rcases htail with rfl | rfl
  · cases mem_singleton.1 hmem
  · have hcreation := hf (h₁.length + 2) _ (by rw [hh]; simp; rfl)
    have hlook := hf (h₁.length + 3) _ (by rw [hh]; simp; rfl)
    have hlasting : Lasting host (Elsewhere R) (crew s calls w) _ :=
      lasting_marker h₀ (calls i) (signature_of_course? hc rfl) (ofPassed ran.passed)
    have hbefore : n ≤ f (h₁.length + 2) :=
      hlasting.order hσ rfl hcreation hn shows_createNew denies_createNew
    exact ⟨_, hbefore.trans_lt (hmono (by simp)), hlook⟩

end Finished

/-! ## Two markers -/

/-- A marker that was once missing and is there now has been created by a call that came to its
verdict. -/
theorem creator_of_marker (ht : Tidy s R w (calls i) signature) (hsig : ∃ m, signature = hex m)
    {n : Nat} (hmissing : σ.trace[n]? = some (j, ⟨.isFile (s.verdicts.markerPath (calls i).partition
      (calls i).test signature v), false⟩))
    (hthere : σ.world.Has (s.verdicts.markerPath (calls i).partition (calls i).test signature v)) :
    ∃ (k : ι) (ran : TestOutcome) (m : Nat) (bytes : Bytes), (calls k).partition =
      (calls i).partition ∧
      pathSafe (calls k).test = pathSafe (calls i).test ∧
      (calls k).course? s (σ.historyOf k) = some (.judged signature ran) ∧
      ofPassed ran.passed = v ∧
      σ.trace[m]? = some (k, ⟨.createNew (s.verdicts.markerPath (calls k).partition (calls k).test
        signature v) bytes, .ok ()⟩) := by
  have hstands : StandsInStore R
      (s.verdicts.markerPath (calls i).partition (calls i).test signature v)
    _ := standsInStore_markerPath h₀.layout hsig
  obtain ⟨node, hnode, hfile⟩ :=
    hstands.stands.node_of_isFile ((tending h₀).rooted_of_reaches hσ) hthere
  rcases (tending h₀).putBy hσ hnode with hstart | ⟨m, k, e, hm, hputs⟩
  · rcases ht.marker v with hnone | hhas
    · exact absurd (hnone.symm.trans hstart) (by simp)
    · -- it would have been there all the time
      obtain ⟨σ₁, hσ₁, -, -, hreply, -⟩ := hσ.moment_at (Nat.zero_le n) hmissing
      have hlasting : Lasting host (Elsewhere R) (crew s calls w) _ :=
        (tending h₀).lasting_has hstands
      exact absurd (hlasting.of_reaches .refl hσ₁ hhas) (denies_isFile _ hreply)
  · obtain ⟨ran, bytes, hplace, hk, hv, rfl⟩ := marker_put h₀ hσ hm hputs hfile
    obtain ⟨hpartition, htest⟩ := (place_eq_iff ht.named).1 hplace
    exact ⟨k, ran, m, bytes, hpartition, htest, hk, hv, hm⟩

/-- Of two calls that have created the two markers and finished, one has marked the conflict. -/
theorem loop_of_creators {i j : ι} {n m : Nat} {bytes bytes' : Bytes} {ran ran' : TestOutcome}
    (ht : Tidy s R w (calls i) signature) (hpartition : (calls j).partition = (calls i).partition)
    (htest : pathSafe (calls j).test = pathSafe (calls i).test) (hnm : n < m)
    (hdiffer : ofPassed ran.passed = (ofPassed ran'.passed).opposite)
    (hn : σ.trace[n]? = some (i, ⟨.createNew (s.verdicts.markerPath (calls i).partition
      (calls i).test signature (ofPassed ran.passed)) bytes, .ok ()⟩))
    (hm : σ.trace[m]? = some (j, ⟨.createNew (s.verdicts.markerPath (calls j).partition
      (calls j).test signature (ofPassed ran'.passed)) bytes', .ok ()⟩))
    {outcome : TestOutcome} (hj : σ.threads j = .done (.ok outcome))
    (hc : (calls j).course? s (σ.historyOf j) = some (.judged signature ran')) :
    σ.world.Has (s.verdicts.loopPath (calls j).partition (calls j).test) := by
  by_contra hno
  obtain ⟨l, hml, hl⟩ := missing_after_creation h₀ hσ (ht.congr hpartition htest) hj hc hno hm
  rw [← hdiffer, markerPath_congr hpartition htest] at hl
  have hlasting : Lasting host (Elsewhere R) (crew s calls w) _ :=
    lasting_marker h₀ (calls i) (signature_of_course? hc rfl) (ofPassed ran.passed)
  have hln : l ≤ n := hlasting.order hσ rfl hn hl shows_createNew denies_isFile
  omega

/-- **Disagreement ends trust.**  Two calls on one partition and test have come to opposite verdicts
for one signature and have finished, and so has every call that has created a marker of that
signature. Then there is a `LOOP` marker, and it stays, whatever other calls do, and whatever goes
on beside the store. -/
theorem loop_of_disagreement {ran ran' outcome outcome' : TestOutcome}
    (ht : Tidy s R w (calls i) signature) (hpartition : (calls j).partition = (calls i).partition)
    (htest : pathSafe (calls j).test = pathSafe (calls i).test)
    (hci : (calls i).course? s (σ.historyOf i) = some (.judged signature ran))
    (hcj : (calls j).course? s (σ.historyOf j) = some (.judged signature ran'))
    (hdiffer : ran.passed ≠ ran'.passed) (hi : σ.threads i = .done (.ok outcome))
    (hj : σ.threads j = .done (.ok outcome'))
    (hcreators : ∀ k v bytes, (⟨.createNew (s.verdicts.markerPath (calls i).partition (calls i).test
      signature v) bytes, .ok ()⟩ : Exchange) ∈ σ.historyOf k → ∃ o, σ.threads k = .done (.ok o))
    (hσ' : Reaches host (Elsewhere R) σ σ') :
    σ'.world.Has (s.verdicts.loopPath (calls i).partition (calls i).test) := by
  have hlasting : Lasting host (Elsewhere R) (crew s calls w) _ :=
    (tending h₀).lasting_has (standsInStore_loopPath (k := calls i) h₀.layout)
  refine hlasting.of_reaches hσ hσ' ?_
  by_contra hno
  have hsig := signature_of_course? hci rfl
  have hopposite : ofPassed ran'.passed = (ofPassed ran.passed).opposite := by
    cases hp : ran.passed <;> cases hp' : ran'.passed
    · exact absurd (hp.trans hp'.symm) hdiffer
    · rfl
    · rfl
    · exact absurd (hp.trans hp'.symm) hdiffer
  -- both markers are there, and each was missing when the other call looked first
  obtain ⟨hown, n, hn⟩ := owned_of_judged h₀ hσ ht hi hci hno
  obtain ⟨hown', n', hn'⟩ := owned_of_judged h₀ hσ (ht.congr hpartition htest) hj hcj
    (by rwa [loopPath_congr hpartition htest])
  rw [markerPath_congr hpartition htest, hopposite] at hown' hn'
  rw [opposite_opposite] at hn'
  obtain ⟨k, rank, m, bytes, hkp, hkt, hck, hvk, hm⟩ := creator_of_marker h₀ hσ ht hsig hn' hown
  obtain ⟨l, ranl, m', bytes', hlp, hlt, hcl, hvl, hm'⟩ := creator_of_marker h₀ hσ ht hsig hn hown'
  have hfinished {k : ι} {m : Nat} {v : Verdict} {bytes : Bytes}
      (hkp : (calls k).partition = (calls i).partition)
      (hkt : pathSafe (calls k).test = pathSafe (calls i).test)
      (hm : σ.trace[m]? = some (k, ⟨.createNew (s.verdicts.markerPath (calls k).partition
        (calls k).test signature v) bytes, .ok ()⟩)) : ∃ o, σ.threads k = .done (.ok o) := by
    rw [markerPath_congr hkp hkt] at hm
    exact hcreators k v bytes (mem_part_iff.2 (mem_of_getElem? hm))
  obtain ⟨ok, hk⟩ := hfinished hkp hkt hm
  obtain ⟨ol, hl⟩ := hfinished hlp hlt hm'
  rw [← hvk] at hm
  rw [← hvl] at hm'
  have hkl : ofPassed ranl.passed = (ofPassed rank.passed).opposite := by
    rw [hvl, hvk]
  rcases Nat.lt_trichotomy m m' with hmm | rfl | hmm
  · have hloop :=
      loop_of_creators h₀ hσ (ht.congr hkp hkt) (hlp.trans hkp.symm) (hlt.trans hkt.symm) hmm
      (by rw [hkl, opposite_opposite]) hm hm' hl hcl
    rw [loopPath_congr hlp hlt] at hloop
    exact hno hloop
  · obtain rfl : k = l := congrArg Prod.fst (Option.some.inj (hm.symm.trans hm'))
    cases hck.symm.trans hcl
    exact opposite_ne _ hkl.symm
  · have hloop :=
      loop_of_creators h₀ hσ (ht.congr hlp hlt) (hkp.trans hlp.symm) (hkt.trans hlt.symm) hmm
      hkl hm' hm hk hck
    rw [loopPath_congr hkp hkt] at hloop
    exact hno hloop

end Together

/-! ## Three calls -/

def trio (i : Caller) : Call :=
  trial (if i = .first then "a" else if i = .second then "b" else "c") 1 "t"

/-- The host of those calls, on which the test passes for the first of them alone. -/
def trioHost : Host := dumper (fun _ => []) (fun id => id = "a")

/-- The first call records its verdict, and the second finds the opposite marker taken by the third,
which has not looked again yet. -/
def stalled : Crew Caller (Except Stop TestOutcome) :=
  (crew site trio ground).play trioHost
    (.replicate 28 .second ++ .replicate 28 .third ++ .replicate 28 .first ++ [.third, .second])

def settled : Crew Caller (Except Stop TestOutcome) := stalled.play trioHost (.replicate 3 .third)

theorem stalled_eval :
    (stalled.threads .first).result? = some (.ok { testId := "t", passed := true }) ∧
    (stalled.threads .second).result? = some (.ok { testId := "t", passed := false }) ∧
    (trio .first).course? site (stalled.historyOf .first) =
      some (.judged (hex []) { testId := "t", passed := true }) ∧
    (trio .second).course? site (stalled.historyOf .second) =
      some (.judged (hex []) { testId := "t", passed := false }) ∧
    stalled.world.tree.isFile stalled.world.cwd
      (site.verdicts.loopPath (trio .first).partition (trio .first).test) = false := by
  decide +kernel

theorem settled_eval :
    (settled.threads .first).result? = some (.ok { testId := "t", passed := true }) ∧
    (settled.threads .second).result? = some (.ok { testId := "t", passed := false }) ∧
    (settled.threads .third).result? = some (.ok { testId := "t", passed := false }) ∧
    (trio .first).course? site (settled.historyOf .first) =
      some (.judged (hex []) { testId := "t", passed := true }) ∧
    (trio .second).course? site (settled.historyOf .second) =
      some (.judged (hex []) { testId := "t", passed := false }) := by
  decide +kernel

theorem tidy_ground {k : Call} (h : IsComponent (pathSafe k.test)) (signature : Text) :
    Tidy site base ground k signature :=
  ⟨h, .inl (node?_inStore_ground _), fun _ => .inl (node?_inStore_ground _)⟩

theorem loop_of_disagreement_settled :
    Sheltered site base trioHost ground ∧ Tidy site base ground (trio .first) (Sha256.hex []) ∧
    Reaches trioHost (Elsewhere base) (crew site trio ground) settled ∧
    (∀ k, ∃ o, settled.threads k = .done (.ok o)) ∧
    settled.world.Has (site.verdicts.loopPath (trio .first).partition (trio .first).test) := by
  have h₀ := sheltered_ground (fun _ => []) (fun id => id = "a")
  have ht : Tidy site base ground (trio .first) (Sha256.hex []) :=
    tidy_ground (by constructor <;> decide) _
  have hσ : Reaches trioHost (Elsewhere base) (crew site trio ground) settled :=
    Reaches.trans (.play _) (.play _)
  obtain ⟨hfirst, hsecond, hthird, hjudged, hjudged'⟩ := settled_eval
  rw [Action.result?_eq_some_iff] at hfirst hsecond hthird
  have hall (k : Caller) : ∃ o, settled.threads k = .done (.ok o) := by
    cases k with
    | first => exact ⟨_, hfirst⟩
    | second => exact ⟨_, hsecond⟩
    | third => exact ⟨_, hthird⟩
  have hpartition : (trio .second).partition = (trio .first).partition := rfl
  have htest : pathSafe (trio .second).test = pathSafe (trio .first).test := rfl
  exact ⟨h₀, ht, hσ, hall,
    loop_of_disagreement h₀ hσ ht hpartition htest hjudged hjudged' (by decide)
    hfirst hsecond (fun k _ _ _ => hall k) .refl⟩

def aliases (i : Caller) : Call :=
  if i = .first then trial "a" 1 "LOOP"
  else if i = .second then trial "a" 1 "." else trial "c" 1 "."

/-- The first call makes a directory where the marker for the other two belongs. -/
def aliased : Crew Caller (Except Stop TestOutcome) :=
  (crew site aliases ground).play trioHost
    (.replicate 28 .first ++ .replicate 15 .third ++ .replicate 28 .second ++ .replicate 20 .third)

theorem aliased_eval :
    (aliased.threads .second).result? = some (.ok { testId := ".", passed := true }) ∧
    (aliased.threads .third).result? = some (.ok { testId := ".", passed := false }) ∧
    (aliases .second).course? site (aliased.historyOf .second) =
      some (.judged (hex []) { testId := ".", passed := true }) ∧
    (aliases .third).course? site (aliased.historyOf .third) =
      some (.judged (hex []) { testId := ".", passed := false }) ∧
    aliased.world.tree.isFile aliased.world.cwd
      (site.verdicts.loopPath (aliases .second).partition (aliases .second).test) = false := by
  decide +kernel

def blocked : World :=
  { tree := ground.tree.putDir (inStore base ["f_1", "t", hex [], pass.marker]), cwd := [] }

def unblocked : Crew Caller (Except Stop TestOutcome) :=
  (crew site trio blocked).play trioHost (.replicate 28 .first ++ .replicate 30 .second)

theorem unblocked_eval : (∀ e ∈ blocked.tree, e.2 = .dir) ∧ blocked.tree.node? base = some .dir ∧
    (unblocked.threads .first).result? = some (.ok { testId := "t", passed := true }) ∧
    (unblocked.threads .second).result? = some (.ok { testId := "t", passed := false }) ∧
    (trio .first).course? site (unblocked.historyOf .first) =
      some (.judged (hex []) { testId := "t", passed := true }) ∧
    (trio .second).course? site (unblocked.historyOf .second) =
      some (.judged (hex []) { testId := "t", passed := false }) ∧
    unblocked.world.tree.isFile unblocked.world.cwd
      (site.verdicts.loopPath (trio .first).partition (trio .first).test) = false := by
  decide +kernel

/-- Two calls on one partition and test disagree and have finished, and there is no `LOOP`
marker. -/
def Unmarked (w : World) (calls : Caller → Call) (σ : Crew Caller (Except Stop TestOutcome)) :
    Prop :=
  Sheltered site base trioHost w ∧
  Reaches trioHost (Elsewhere base) (crew site calls w) σ ∧
  ∃ i j signature ran ran', (calls i).partition = (calls j).partition ∧
    (calls i).test = (calls j).test ∧
    (calls i).course? site (σ.historyOf i) = some (.judged signature ran) ∧
    (calls j).course? site (σ.historyOf j) = some (.judged signature ran') ∧
    ran.passed ≠ ran'.passed ∧
    σ.threads i = .done (.ok ran) ∧ σ.threads j = .done (.ok ran') ∧
    ¬ σ.world.Has (site.verdicts.loopPath (calls i).partition (calls i).test)

/-- **Disagreement without a mark.**  Two calls that disagree may have finished before there is a
`LOOP` marker, while a third call has still to look. For the test `.` there is none at all if a test
is called `LOOP`, whose directory takes the place of the marker. And there is none if something
other than a file stands where the marker of a verdict belongs. -/
theorem disagreement_without_loop :
    Unmarked ground trio stalled ∧ Unmarked ground aliases aliased ∧
      Unmarked blocked trio unblocked := by
  have hno {σ : Crew Caller (Except Stop TestOutcome)} {p : Path}
      (h : σ.world.tree.isFile σ.world.cwd p = false) : ¬ σ.world.Has p := by
    rw [Has, h]
    exact Bool.noConfusion
  refine ⟨?_, ?_, ?_⟩
  · obtain ⟨hfirst, hsecond, hjudged, hjudged', hloop⟩ := stalled_eval
    rw [Action.result?_eq_some_iff] at hfirst hsecond
    exact ⟨sheltered_ground _ _, .play _, .first, .second, _, _, _, rfl, rfl, hjudged, hjudged',
      by decide, hfirst, hsecond, hno hloop⟩
  · obtain ⟨hfirst, hsecond, hjudged, hjudged', hloop⟩ := aliased_eval
    rw [Action.result?_eq_some_iff] at hfirst hsecond
    exact ⟨sheltered_ground _ _, .play _, .second, .third, _, _, _, rfl, rfl, hjudged, hjudged',
      by decide, hfirst, hsecond, hno hloop⟩
  · obtain ⟨hdirs, hbase, hfirst, hsecond, hjudged, hjudged', hloop⟩ := unblocked_eval
    rw [Action.result?_eq_some_iff] at hfirst hsecond
    exact ⟨sheltered_of_dirs hdirs hbase _ _, .play _, .first, .second, _, _, _, rfl, rfl,
      hjudged, hjudged',
      by decide, hfirst, hsecond, hno hloop⟩

end UnderDebugger.Call

end PatchTriage
