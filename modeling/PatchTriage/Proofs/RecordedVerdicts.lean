import PatchTriage.Proofs.CachedRuns

/-!
# Where cached verdicts come from

A call whose outcome is cached has not run its test to the end. What is such an outcome worth, among
any number of calls and from a store without files?
-/

namespace PatchTriage.UnderDebugger.Call

open Text List Job Exchange World Verdicts Crew Sha256

open FileTree

/-! ## Places for verdicts -/

theorem place_eq_of_isComponent {k : Call} (h : IsComponent (pathSafe k.test)) :
    k.place = [k.partition, pathSafe k.test] :=
  pairPlace_of_isComponent h

/-- Two calls file their verdicts at the same place if they are on the same partition and test, and
only then if the test has a directory of its own. -/
theorem place_eq_iff {k k' : Call} (h : IsComponent (pathSafe k.test)) : k'.place = k.place ↔
      k'.partition = k.partition ∧ pathSafe k'.test = pathSafe k.test := by
  constructor
  · intro hplace
    rw [place_eq_of_isComponent h, place, pairPlace] at hplace
    split_ifs at hplace
    · simp at hplace
    · simp only [cons.injEq, and_true] at hplace
      exact hplace
  · rintro ⟨hpartition, htest⟩
    rw [place_eq_of_isComponent h, place_eq_of_isComponent (htest ▸ h), hpartition, htest]

theorem markerPath_congr {s : Setup} {k k' : Call} (hpartition : k'.partition = k.partition)
    (htest : pathSafe k'.test = pathSafe k.test) (signature : Text) (v : Verdict) :
    s.verdicts.markerPath k'.partition k'.test signature v =
      s.verdicts.markerPath k.partition k.test signature v := by
  rw [markerPath, markerPath, signatureDir, signatureDir, pairDir, pairDir, hpartition, htest]

/-! ## Cached outcomes -/

section Alone

variable {s : Setup} {k : Call} {h : History} {outcome : TestOutcome}

/-- The outcome of a test that was run for its verdict is not cached. -/
theorem fresh_of_execution {signature : Text} {c : Course}
    (he : Ends (k.execution s signature) h c) :
    ∃ outcome, outcome.cached = false ∧
      (c = .stopped outcome ∨ c = .strayed outcome ∨ c = .judged signature outcome) := by
  obtain ⟨o, outcome, _, _, _, -, -, hfinish, hc⟩ := ends_execution he
  refine ⟨outcome, gives_finish o _ _ hfinish, ?_⟩
  rcases hc with ⟨-, rfl⟩ | ⟨-, same, -, rfl⟩
  · exact .inl rfl
  · cases same with
    | true => exact .inr (.inr rfl)
    | false => exact .inr (.inl rfl)

theorem known_of_cached (he : Ends (k.work s) h outcome) (hcached : outcome.cached = true) :
    ∃ signature v, k.course? s h = some (.known signature v) ∧ outcome.passed = v.passed := by
  rw [work_eq] at he
  obtain ⟨c, h₁, h₂, rfl, hc, he⟩ := ends_bind.1 he
  suffices hknown : ∃ signature v, c = .known signature v ∧ outcome.passed = v.passed by
    obtain ⟨signature, v, rfl, hv⟩ := hknown
    exact ⟨signature, v, result?_eq_some_iff.2 ⟨h₁, h₂, rfl, hc⟩, hv⟩
  -- in every other course the outcome is that of a run
  have hran (hfresh : outcome.cached = false) : False :=
    Bool.noConfusion (hfresh.symm.trans hcached)
  obtain rfl | ⟨signature, _, _, _, -, -, ⟨v, -, -, rfl⟩ | ⟨-, hexec⟩⟩ := ends_course hc
  · exact (hran (gives_runPlain _ _ he)).elim
  · obtain ⟨-, rfl⟩ := ends_pure.1 he
    exact ⟨signature, v, rfl, rfl⟩
  · obtain ⟨ran, hfresh, hc⟩ := fresh_of_execution hexec
    have hgives : Gives (· = ran) (k.complete s c) := by
      rcases hc with rfl | rfl | rfl
      · exact gives_pure rfl
      · exact .bind fun _ => gives_pure rfl
      · exact .bind fun _ => .bind fun _ => .bind fun _ => gives_pure rfl
    exact (hran (hgives _ _ he ▸ hfresh)).elim

end Alone

/-! ## Calls at work together -/

section Together

def NoFiles (R : Place) (t : FileTree) : Prop :=
  ∀ x n, t.node? (inStore R x) = some n → ¬ Node.IsFile n

variable {ι : Type} [DecidableEq ι] {s : Setup} {R : Place} {host : Host} {w : World}
  {calls : ι → Call} {σ σ' : Crew ι (Except Stop TestOutcome)} {i j : ι} {signature : Text}
  {v : Verdict} (h₀ : Sheltered s R host w)
  (hσ : Reaches host (Elsewhere R) (crew s calls w) σ)

include h₀ in
theorem lasting_marker (k : Call) (hsig : ∃ m, signature = hex m) (v : Verdict) :
    Lasting host (Elsewhere R) (crew s calls w)
      (Has (s.verdicts.markerPath k.partition k.test signature v)) :=
  (tending h₀).lasting_has (standsInStore_markerPath h₀.layout hsig)

theorem looks_of_known (hi : (calls i).course? s (σ.historyOf i) = some (.known signature v)) :
    ∃ n m : Nat, n < m ∧
      σ.trace[n]? = some (i, (⟨.isFile (s.verdicts.markerPath (calls i).partition (calls i).test
        signature .pass), v.passed⟩ : Exchange)) ∧
      σ.trace[m]? = some (i, (⟨.isFile (s.verdicts.markerPath (calls i).partition (calls i).test
        signature .fail), !v.passed⟩ : Exchange)) := by
  obtain ⟨f, hmono, hf⟩ := σ.positions i
  obtain ⟨h₁, h₂, hh, he⟩ := result?_eq_some_iff.1 hi
  obtain ⟨rest, rfl⟩ := ends_course_known he
  refine ⟨f (rest.length + 1), f (rest.length + 2), hmono (by simp), hf _ _ ?_, hf _ _ ?_⟩
  · rw [hh]; simp
  · rw [hh]; simp

include h₀ hσ

theorem has_of_known (hi : (calls i).course? s (σ.historyOf i) = some (.known signature v)) :
    σ.world.Has (s.verdicts.markerPath (calls i).partition (calls i).test signature v) := by
  obtain ⟨n, m, -, hpass, hfail⟩ := looks_of_known hi
  have hlasting : Lasting host (Elsewhere R) (crew s calls w) _ :=
    lasting_marker h₀ (calls i) (signature_of_course? hi rfl) v
  cases v with
  | pass => exact hlasting.holds hσ rfl hpass shows_isFile
  | fail => exact hlasting.holds hσ rfl hfail shows_isFile

/-- **Where a verdict comes from.**  Behind a verdict that was found stands a call that files its
verdicts at the same place, and has come to this verdict by a run from the state that gave the
signature. -/
theorem judged_of_known (hempty : NoFiles R w.tree)
    (hi : (calls i).course? s (σ.historyOf i) = some (.known signature v)) :
    ∃ j outcome, (calls j).place = (calls i).place ∧
      (calls j).course? s (σ.historyOf j) = some (.judged signature outcome) ∧
      Verdict.ofPassed outcome.passed = v := by
  have hsig := signature_of_course? hi rfl
  obtain ⟨node, hnode, hfile⟩ := (standsInStore_markerPath h₀.layout hsig).stands.node_of_isFile
    ((tending h₀).rooted_of_reaches hσ) (has_of_known h₀ hσ hi)
  rcases (tending h₀).putBy hσ hnode with hstart | ⟨n, j, e, hn, hputs⟩
  · exact absurd hfile (hempty _ _ hstart)
  obtain ⟨outcome, _, hplace, hj, hv, -⟩ := marker_put h₀ hσ hn hputs hfile
  exact ⟨j, outcome, hplace, hj, hv⟩

/-- **Opposite verdicts.**  If two calls have found opposite verdicts for the same signature, then
the one that found the pass made both its looks between the two looks of the other. -/
theorem nested_of_known (hpartition : (calls j).partition = (calls i).partition)
    (htest : pathSafe (calls j).test = pathSafe (calls i).test)
    (hi : (calls i).course? s (σ.historyOf i) = some (.known signature .pass))
    (hj : (calls j).course? s (σ.historyOf j) = some (.known signature .fail)) :
    let marker := s.verdicts.markerPath (calls i).partition (calls i).test signature
    ∃ a b c d : Nat, a < b ∧ b < c ∧ c < d ∧
      σ.trace[a]? = some (j, ⟨.isFile (marker .pass), false⟩) ∧
      σ.trace[b]? = some (i, ⟨.isFile (marker .pass), true⟩) ∧
      σ.trace[c]? = some (i, ⟨.isFile (marker .fail), false⟩) ∧
      σ.trace[d]? = some (j, ⟨.isFile (marker .fail), true⟩) := by
  intro marker
  obtain ⟨b, c, hbc, hb, hc⟩ := looks_of_known hi
  obtain ⟨a, d, had, ha, hd⟩ := looks_of_known hj
  rw [markerPath_congr hpartition htest] at ha hd
  have hlasting (v : Verdict) : Lasting host (Elsewhere R) (crew s calls w) _ :=
    lasting_marker h₀ (calls i) (signature_of_course? hi rfl) v
  have hab : a ≤ b := (hlasting .pass).order hσ rfl hb ha shows_isFile denies_isFile
  have hcd : c ≤ d := (hlasting .fail).order hσ rfl hd hc shows_isFile denies_isFile
  refine ⟨a, b, c, d, hab.lt_of_ne ?_, hbc, hcd.lt_of_ne ?_, ha, hb, hc, hd⟩
  · rintro rfl
    rw [ha] at hb
    cases hb
  · rintro rfl
    rw [hc] at hd
    cases hd

/-- **Once a `LOOP` marker is there.**  A call that has not yet started is not given a verdict. -/
theorem not_cached_of_loop (hstart : σ.historyOf i = [])
    (hloop : σ.world.Has (s.verdicts.loopPath (calls i).partition (calls i).test))
    (hσ' : Reaches host (Elsewhere R) σ σ') {outcome : TestOutcome}
    (hi : σ'.threads i = .done (.ok outcome)) : outcome.cached = false := by
  by_contra hcached
  obtain ⟨signature, v, hknown, -⟩ :=
    known_of_cached (ends_of_reaches (hσ.trans hσ') hi) (Bool.eq_true_of_not_eq_false hcached)
  obtain ⟨h₁, h₂, hh, he⟩ := result?_eq_some_iff.1 hknown
  obtain ⟨rest, rfl⟩ := ends_course_known he
  obtain ⟨f, -, hf⟩ := σ'.positions i
  have hlook := hf 0 _ (by rw [hh]; rfl)
  -- that look was made after the marker had come, and before it can have gone
  have hlate : σ.trace.length ≤ f 0 := by
    by_contra hearly
    obtain ⟨τ, htrace, -⟩ := hσ'.takes
    rw [htrace, getElem?_append_left (Nat.lt_of_not_le hearly)] at hlook
    have hmem := mem_part_iff.2 (mem_of_getElem? hlook)
    rw [← historyOf, hstart] at hmem
    cases hmem
  obtain ⟨σ₁, hσ₁, -, -, hreply, -⟩ := hσ'.moment_at hlate hlook
  have hlasting : Lasting host (Elsewhere R) (crew s calls w) _ :=
    (tending h₀).lasting_has (standsInStore_loopPath (k := calls i) h₀.layout)
  exact denies_isFile _ hreply (hlasting.of_reaches hσ hσ₁ hloop)

/-- **What cached outcomes are worth.**  However calls come between each other, from a store without
files, and whatever else goes on beside the store:

* an outcome is cached only if the call has found a verdict for its signature in the store;
* behind such a verdict stands a call that has come to it by a run to the end with the same
  signature, neither timed out nor cancelled, from the state that gave the signature, and that files
  its verdicts at the same place, which is that of the same partition and test if the test has a
  directory of its own;
* opposite verdicts for one signature are found only by looks of one call between the looks of
  another;
* a call that starts when there is a `LOOP` marker does not have its outcome cached. -/
theorem cached_provenance (hempty : NoFiles R w.tree) :
    (∀ i outcome, σ.threads i = .done (.ok outcome) → outcome.cached = true →
      ∃ signature v, (calls i).course? s (σ.historyOf i) = some (.known signature v) ∧
        outcome.passed = v.passed) ∧
    (∀ i signature v, (calls i).course? s (σ.historyOf i) = some (.known signature v) →
      ∃ j outcome, (calls j).course? s (σ.historyOf j) = some (.judged signature outcome) ∧
        Verdict.ofPassed outcome.passed = v ∧ (calls j).place = (calls i).place ∧
        (IsComponent (pathSafe (calls i).test) → (calls j).partition = (calls i).partition ∧
          pathSafe (calls j).test = pathSafe (calls i).test)) ∧
    (∀ i j signature, (calls j).partition = (calls i).partition →
      pathSafe (calls j).test = pathSafe (calls i).test →
      (calls i).course? s (σ.historyOf i) = some (.known signature .pass) →
      (calls j).course? s (σ.historyOf j) = some (.known signature .fail) →
      let marker := s.verdicts.markerPath (calls i).partition (calls i).test signature
      ∃ a b c d : Nat, a < b ∧ b < c ∧ c < d ∧
        σ.trace[a]? = some (j, ⟨.isFile (marker .pass), false⟩) ∧
        σ.trace[b]? = some (i, ⟨.isFile (marker .pass), true⟩) ∧
        σ.trace[c]? = some (i, ⟨.isFile (marker .fail), false⟩) ∧
        σ.trace[d]? = some (j, ⟨.isFile (marker .fail), true⟩)) ∧
    ∀ i σ' outcome, σ.historyOf i = [] →
      σ.world.Has (s.verdicts.loopPath (calls i).partition (calls i).test) →
      Reaches host (Elsewhere R) σ σ' → σ'.threads i = .done (.ok outcome) →
      outcome.cached = false := by
  refine ⟨fun i outcome hi => known_of_cached (ends_of_reaches hσ hi), fun i signature v hi => ?_,
    fun i j signature => nested_of_known h₀ hσ,
    fun i σ' outcome hstart hloop hσ' => not_cached_of_loop h₀ hσ hstart hloop hσ'⟩
  obtain ⟨j, outcome, hplace, hj, hv⟩ := judged_of_known h₀ hσ hempty hi
  exact ⟨j, outcome, hj, hv, hplace, fun hname => (place_eq_iff hname).1 hplace⟩

end Together

/-! ## Calls on a small host -/

def base : Place := ["v"]

def dumpPlace (id test kind : Text) : Place :=
  base ++ [("snapshots" : Text), pathSafe id, pathSafe test ++ '_' :: kind]

def fill (t : FileTree) (k : Place) (bytes : Bytes) : FileTree :=
  if t.node? k = some .dir then t else t.put k (.file bytes false)

variable (before : Text → Bytes)

/-- A host on which every command leaves the dumps of the test that it is started for in the output
directory `/v`, and passes or fails by the patch. All dumps are empty but the one of the state
before the patch, which holds what `before` says. -/
def dumper (passes : Text → Bool) : Host := fun start t =>
  let id := (start.env.lookup patchIdVariable).getD []
  let dump := dumpPlace id (start.args.getLastD [])
  .ok { tree := fill (fill (fill t (dump "before.core") (before id)) (dump "after.core") [])
          (dump "location.core") []
        exit := some (.code (if passes id then 0 else 1)) }

def site : Setup := .ofConfig { outputDir := "/v", testSuite := some "/t", partition := true }

def ground : World := { tree := put [] base .dir, cwd := [] }

def trial (id : Text) (line : Nat) (test : Text) : Call where
  patch := Partition.assign { id, path := [], fragments := [(⟨"f", line⟩, {})] }
  compiled := []
  scripts := ⟨[], none⟩
  test
  assigned := rfl

theorem fill_spares {t : FileTree} (ht : Rooted base t) (id test kind : Text) (bytes : Bytes) :
    Spares base t (fill t (dumpPlace id test kind) bytes) := by
  rw [fill]
  split_ifs with hdir
  · exact ⟨ht, fun _ => rfl⟩
  · refine (Touches.put hdir fun _ => Node.noConfusion).spares ht ?_
    show some ("snapshots" : Text) ≠ some storeName
    decide

theorem dumper_spares (passes : Text → Bool) : (dumper before passes).Spares base := by
  intro start t r ht hr
  cases hr
  have h₁ := fill_spares ht ((start.env.lookup patchIdVariable).getD []) (start.args.getLastD [])
    "before.core" (before ((start.env.lookup patchIdVariable).getD []))
  have h₂ := h₁.trans (fill_spares h₁.rooted ((start.env.lookup patchIdVariable).getD [])
    (start.args.getLastD []) "after.core" [])
  exact h₂.trans (fill_spares h₂.rooted _ _ _ _)

theorem eq_dir_of_node? {t : FileTree} (h : ∀ e ∈ t, e.2 = .dir) {k : Place} {n : Node}
    (hn : t.node? k = some n) : n = .dir := by
  rw [node?] at hn
  split_ifs at hn
  · exact (Option.some.inj hn).symm
  · induction t with
    | nil => cases hn
    | cons e t ih =>
      rw [SortedList.find?] at hn
      split_ifs at hn
      · exact (Option.some.inj hn).symm.trans (h e mem_cons_self)
      · exact ih (fun e he => h e (mem_cons_of_mem _ he)) hn

theorem sheltered_of_dirs {w : World} (hdirs : ∀ e ∈ w.tree, e.2 = .dir)
    (hbase : w.tree.node? base = some .dir) (before : Text → Bytes) (passes : Text → Bool) :
    Sheltered site base (dumper before passes) w := by
  have hname : IsComponent "v" := by constructor <;> decide
  refine ⟨⟨by decide, by simpa [base] using hname⟩, dumper_spares before passes, ⟨⟨?_, ?_⟩, ?_⟩⟩
  · intro n hn
    obtain rfl : n = "v" := mem_singleton.1 hn
    exact ⟨hname, hname.ne_here, hname.ne_up, by decide⟩
  · intro k hk
    rcases prefix_concat_iff.1 (show k <+: [] ++ [("v" : Text)] from hk) with rfl | hk
    · exact hbase
    · rw [prefix_nil.1 hk]
      rfl
  · intro q target hlink
    exact Node.noConfusion (eq_dir_of_node? hdirs hlink)

theorem sheltered_ground (passes : Text → Bool) :
    Sheltered site base (dumper before passes) ground :=
  sheltered_of_dirs (by decide) (by decide) before passes

theorem node?_inStore_ground (x : Place) : ground.tree.node? (inStore base x) = none := by
  rw [ground, node?_put_of_ne (by simp [inStore])]
  rfl

theorem noFiles_ground : NoFiles base ground.tree := by
  intro x n hn
  rw [node?_inStore_ground] at hn
  cases hn

def rivals : Fin 5 → Call := fun i =>
  trial (if i = 0 then "a" else if i = 1 then "b" else if i = 2 then "c"
    else if i = 3 then "d" else "e")
    1 "t"

/-- The host of those calls, on which the test fails for the second of them. -/
def rivalHost : Host := dumper (fun _ => []) (fun id => id ≠ "b")

/-- The first two calls record opposite verdicts. The third finds the one while the fourth, which
has looked for it before, goes on to find the other. Then the second marks the conflict. -/
def torn : Crew (Fin 5) (Except Stop TestOutcome) :=
  (crew site rivals ground).play rivalHost
    (.replicate 26 0 ++ .replicate 28 1 ++ .replicate 14 3 ++ [0] ++ .replicate 15 2
      ++ [1, 3, 1, 1, 1])

theorem torn_eval : (torn.threads 2).result? =
    some (.ok { testId := "t", passed := true, cached := true }) ∧
    (torn.threads 3).result? = some (.ok { testId := "t", passed := false, cached := true }) ∧
    (rivals 2).course? site (torn.historyOf 2) = some (.known (hex []) .pass) ∧
    (rivals 3).course? site (torn.historyOf 3) = some (.known (hex []) .fail) ∧
    torn.world.tree.isFile torn.world.cwd
      (site.verdicts.loopPath (rivals 4).partition (rivals 4).test) = true ∧
    torn.historyOf 4 = [] ∧
    ((torn.play rivalHost (.replicate 30 4)).threads 4).result? =
      some (.ok { testId := "t", passed := true, cached := false }) := by
  decide +kernel

theorem cached_provenance_torn :
    Sheltered site base rivalHost ground ∧ NoFiles base ground.tree ∧
    Reaches rivalHost (Elsewhere base) (crew site rivals ground) torn ∧
    (∃ signature v, (rivals 2).course? site (torn.historyOf 2) = some (.known signature v) ∧
      v.passed = true) ∧
    (∃ j outcome, (rivals j).course? site (torn.historyOf j) =
      some (.judged (Sha256.hex []) outcome) ∧
      Verdict.ofPassed outcome.passed = .pass ∧ (rivals j).partition = (rivals 2).partition) ∧
    (let marker := site.verdicts.markerPath (rivals 2).partition (rivals 2).test (Sha256.hex [])
      ∃ a b c d : Nat, a < b ∧ b < c ∧ c < d ∧
        torn.trace[a]? = some (3, ⟨.isFile (marker .pass), false⟩) ∧
        torn.trace[b]? = some (2, ⟨.isFile (marker .pass), true⟩) ∧
        torn.trace[c]? = some (2, ⟨.isFile (marker .fail), false⟩) ∧
        torn.trace[d]? = some (3, ⟨.isFile (marker .fail), true⟩)) ∧
    ∃ outcome, (torn.play rivalHost (.replicate 30 4)).threads 4 = .done (.ok outcome) ∧
      outcome.cached = false := by
  have h₀ := sheltered_ground (fun _ => []) (fun id => id ≠ "b")
  have hσ : Reaches rivalHost (Elsewhere base) (crew site rivals ground) torn := .play _
  obtain ⟨hpass, -, hknown, hknown', hloop, hstart, hlate⟩ := torn_eval
  rw [Action.result?_eq_some_iff] at hpass hlate
  obtain ⟨hcached, hjudged, hnested, hlooped⟩ := cached_provenance h₀ hσ noFiles_ground
  obtain ⟨signature, v, hv, hpassed⟩ := hcached 2 _ hpass rfl
  obtain ⟨j, outcome, hj, hverdict, -, hpair⟩ := hjudged 2 _ _ hknown
  have hafter : Reaches rivalHost (Elsewhere base) torn
      (torn.play rivalHost (.replicate 30 4)) := .play _
  refine ⟨h₀, noFiles_ground, hσ, ⟨signature, v, hv, hpassed.symm⟩, ⟨j, outcome, hj, hverdict, ?_⟩,
    hnested 2 3 _ rfl rfl hknown hknown', _, hlate, hlooped 4 _ _ hstart hloop hafter hlate⟩
  exact (hpair (by constructor <;> decide)).1

inductive Caller where
  | first
  | second
  | third
  deriving DecidableEq

/-- Three calls for the test `..`, the first on another partition than the other two. -/
def strays (i : Caller) : Call :=
  if i = .first then trial "a" 1 ".."
  else if i = .second then trial "b" 2 ".." else trial "c" 2 ".."

/-- The host of those calls, on which the second of them changes the state in another way. -/
def strayHost : Host := dumper (fun id => if id = "b" then [0] else []) (fun _ => true)

def astray : Crew Caller (Except Stop TestOutcome) :=
  (crew site strays ground).play strayHost
    (.replicate 28 .first ++ .replicate 28 .second ++ .replicate 15 .third)

theorem astray_eval :
    (astray.threads .third).result? =
      some (.ok { testId := "..", passed := true, cached := true }) ∧
    (strays .first).partition ≠ (strays .third).partition ∧
    ((strays .second).course? site (astray.historyOf .second)).bind Course.signature? ≠
      some (hex []) ∧
    (strays .third).course? site (astray.historyOf .third) = some (.known (hex []) .pass) := by
  decide +kernel

/-- **What cached outcomes are not worth.**  For the test `..` a call is given a verdict that no
call on its partition has come to for its signature. And of two calls on one partition, test and
signature one can be told that the test passes, and the other that it fails. -/
theorem cached_without_judged :
    (Sheltered site base strayHost ground ∧ NoFiles base ground.tree ∧
      Reaches strayHost (Elsewhere base) (crew site strays ground) astray ∧
      astray.threads .third = .done (.ok { testId := "..", passed := true, cached := true }) ∧
      (strays .third).course? site (astray.historyOf .third) = some (.known (Sha256.hex []) .pass) ∧
      ∀ j outcome, (strays j).partition = (strays .third).partition →
        (strays j).course? site (astray.historyOf j) ≠ some (.judged (Sha256.hex []) outcome)) ∧
    Sheltered site base rivalHost ground ∧
      Reaches rivalHost (Elsewhere base) (crew site rivals ground) torn ∧
      torn.threads 2 = .done (.ok { testId := "t", passed := true, cached := true }) ∧
      torn.threads 3 = .done (.ok { testId := "t", passed := false, cached := true }) ∧
      (rivals 2).partition = (rivals 3).partition ∧
      (rivals 2).course? site (torn.historyOf 2) = some (.known (Sha256.hex []) .pass) ∧
      (rivals 3).course? site (torn.historyOf 3) = some (.known (Sha256.hex []) .fail) := by
  obtain ⟨hcached, hpartition, hother, hknown⟩ := astray_eval
  obtain ⟨hpass, hfail, hknown₂, hknown₃, -⟩ := torn_eval
  rw [Action.result?_eq_some_iff] at hcached hpass hfail
  refine ⟨⟨sheltered_ground _ _, noFiles_ground, .play _, hcached, hknown, ?_⟩,
    sheltered_ground _ _, .play _, hpass, hfail, rfl, hknown₂, hknown₃⟩
  intro j outcome hj hjudged
  cases j with
  | first => exact hpartition hj
  | second => exact hother (by rw [hjudged]; rfl)
  | third => cases hknown.symm.trans hjudged

end PatchTriage.UnderDebugger.Call
