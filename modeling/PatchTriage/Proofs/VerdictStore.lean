import PatchTriage.Layout
import PatchTriage.Proofs.MarkerRace
import PatchTriage.Proofs.WorldRuns

/-!
# The store of verdicts

Recorded verdicts lie in one directory below the output directory, and the rest of a run goes on
beside it. This file says once what all of that can do to the store, as long as commands leave it
alone (`Host.Spares`).
-/

namespace PatchTriage

open List PatchTriage.Path Exchange World

def storeName : Text := "partitions"

def inStore (R x : Place) : Place := R ++ storeName :: x

namespace FileTree

variable {R : Place} {p : Path}

/-- A change that leaves the store of `R` alone, and `R` a directory without symbolic links. -/
structure Spares (R : Place) (t t' : FileTree) : Prop where
  rooted : Rooted R t'
  store : ∀ x, t'.node? (inStore R x) = t.node? (inStore R x)

theorem Spares.trans {t₁ t₂ t₃ : FileTree} (h₁ : Spares R t₁ t₂) (h₂ : Spares R t₂ t₃) :
    Spares R t₁ t₃ :=
  ⟨h₂.rooted, fun x => (h₂.store x).trans (h₁.store x)⟩

/-- The path `p` means the place `x` in the store, and does not leave the store on its way. -/
def StandsInStore (R : Place) (p : Path) (x : Place) : Prop :=
  isAbsolute p = true ∧ ∃ ps, pieces p = R ++ storeName :: ps ∧ resolve [] ps = some x

theorem isComponent_storeName : IsComponent storeName :=
  ⟨by decide, by decide, by decide, by decide⟩

theorem StandsInStore.stands {x : Place} (h : StandsInStore R p x) :
    Stands R p (storeName :: x) := by
  obtain ⟨habs, ps, hps, hx⟩ := h
  refine ⟨habs, storeName :: ps, hps, ?_⟩
  rw [resolve_name isComponent_storeName]
  exact resolve_below (b := [storeName]) hx

theorem StandsInStore.join {n : Path} {x x' : Place} (h : StandsInStore R p x)
    (hn : isAbsolute n = false) (hx : resolve x (pieces n) = some x') :
    StandsInStore R (join p n) x' := by
  obtain ⟨habs, ps, hps, hx₀⟩ := h
  refine ⟨isAbsolute_join habs, ps ++ pieces n, ?_, ?_⟩
  · rw [pieces_join hn, hps, append_assoc, cons_append]
  · rw [resolve_append, hx₀]
    exact hx

theorem StandsInStore.join_name {n : Text} {x : Place} (h : StandsInStore R p x)
    (hn : IsComponent n) :
    StandsInStore R (Path.join p n) (x ++ [n]) := by
  refine h.join hn.isAbsolute ?_
  rw [hn.pieces, resolve_name hn]
  rfl

def Beside (R : Place) (p : Path) : Prop := ∃ q, Stands R p q ∧ q.head? ≠ some storeName

theorem Beside.join_name {n : Text} (h : Beside R p) (hn : IsComponent n)
    (hne : n ≠ storeName) : Beside R (join p n) := by
  obtain ⟨q, hp, hq⟩ := h
  refine ⟨q ++ [n], hp.join_name hn, ?_⟩
  cases q with
  | nil => simpa using hne
  | cons d q => simpa using hq

/-- The path `p` and all paths above it down from `R` mean places that are not in the store. -/
def AllBeside (R : Place) (p : Path) : Prop :=
  isAbsolute p = true ∧ ∃ ps, pieces p = R ++ ps ∧
    ∀ ps', ps' <+: ps → ∃ q, resolve [] ps' = some q ∧ q.head? ≠ some storeName

theorem AllBeside.beside (h : AllBeside R p) : Beside R p := by
  obtain ⟨habs, ps, hps, hall⟩ := h
  obtain ⟨q, hq, hne⟩ := hall ps (prefix_refl ps)
  exact ⟨q, ⟨habs, ps, hps, hq⟩, hne⟩

theorem allBeside_pathOf (hR : ∀ n ∈ R, IsComponent n) : AllBeside R (pathOf R) := by
  refine ⟨rfl, [], by rw [pieces_pathOf hR, append_nil], fun ps' hps' => ⟨[], ?_, by simp⟩⟩
  rw [prefix_nil.1 hps']
  rfl

theorem AllBeside.join {n : Text} (h : AllBeside R p) (hn : '/' ∉ n)
    (hb : Beside R (Path.join p n)) : AllBeside R (Path.join p n) := by
  obtain ⟨habs, ps, hps, hall⟩ := h
  obtain ⟨q, ⟨-, ps', hps', hq⟩, hne⟩ := hb
  have hrel : isAbsolute n = false := isAbsolute_of_not_mem hn
  have hjoin : pieces (Path.join p n) = R ++ (ps ++ pieces n) := by
    rw [pieces_join hrel, hps, append_assoc]
  obtain rfl : ps' = ps ++ pieces n := append_cancel_left (hps'.symm.trans hjoin)
  refine ⟨isAbsolute_join habs, _, hjoin, fun ps' hpre => ?_⟩
  rw [pieces_of_not_mem hn] at hpre hq
  split_ifs at hpre hq with hempty
  · rw [append_nil] at hpre
    exact hall ps' hpre
  · rcases prefix_concat_iff.1 hpre with rfl | hpre
    · exact ⟨q, hq, hne⟩
    · exact hall ps' hpre

theorem StandsInStore.isFile {t t' : FileTree} {cwd cwd' : Place} {x : Place}
    (hp : StandsInStore R p x) (ht : Rooted R t) (ht' : Rooted R t')
    (hkeeps : ∀ x n, t.node? (inStore R x) = some n → t'.node? (inStore R x) = some n)
    (h : t.isFile cwd p = true) : t'.isFile cwd' p = true := by
  obtain ⟨habs, ps, hps, hx⟩ := hp
  obtain ⟨hu, hopen, k, n, hl, hk, hn⟩ := isFile_iff.1 h
  have hstore (x : Place) : inStore R x = (R ++ [storeName]) ++ x := by simp [inStore]
  have hno : ∀ q target, t.node? ((R ++ [storeName]) ++ q) ≠ some (.link target) :=
    fun q target => by
    rw [append_assoc]; exact ht.noLinks _ target
  have hno' : ∀ q target, t'.node? ((R ++ [storeName]) ++ q) ≠ some (.link target) :=
    fun q target => by
    rw [append_assoc]; exact ht'.noLinks _ target
  rw [startOf_of_isAbsolute habs, hps, ht.toHasDir.leads_iff (nil_append R)] at hl
  cases hl with
  | name hR hname hlink hl =>
    obtain ⟨rfl, hl'⟩ := hl.of_dirs hno hno' (append_nil _).symm hx fun q₁ _ _ _ hq₁ => by
      rw [← hstore] at hq₁ ⊢
      exact hkeeps q₁ _ hq₁
    refine isFile_iff.2 ⟨hu, hopen, (R ++ [storeName]) ++ x, n, ?_, ?_, hn⟩
    · rw [startOf_of_isAbsolute habs, hps, ht'.toHasDir.leads_iff (nil_append R)]
      exact .name ⟨ht'.dirs R (prefix_refl R), rfl⟩ hname (fun target => ht'.noLinks _ target) hl'
    · rw [← hstore] at hk ⊢
      exact hkeeps x n hk
  | link _ _ hlink | follow _ _ hlink => exact absurd hlink (ht.noLinks _ _)

end FileTree

open FileTree

def Host.Spares (R : Place) (host : Host) : Prop :=
  ∀ start t r, Rooted R t → host start t = .ok r → FileTree.Spares R t r.tree

/-- Operations that change nothing outside the output directory `R`, and in its store only make new
files and new directories. -/
def Op.Tame (R : Place) : Op → Prop
  | write p _ | append p _ | setExecutable p | removeFile p => Beside R p
  | createDirs p | createNew p _ => ∃ q, Stands R p q
  | rename _ _ | copy _ _ => False
  | _ => True

def Op.Beside (R : Place) : Op → Prop
  | createDirs p => AllBeside R p
  | createNew _ _ => False
  | o => o.Tame R

theorem Op.Beside.tame {R : Place} {o : Op} (h : o.Beside R) : o.Tame R := by
  cases o with
  | createDirs p =>
    obtain ⟨q, hq, -⟩ := AllBeside.beside h
    exact ⟨q, hq⟩
  | createNew p bytes => exact False.elim h
  | _ => exact h

/-- What an exchange has put at a place below the output directory `R`. -/
inductive Exchange.Puts (R : Place) : Exchange → Place → Node → Prop
  | file {p : Path} {bytes : Bytes} {q : Place} : Stands R p q →
      Puts R ⟨.createNew p bytes, .ok ()⟩ q (.file bytes false)
  | dir {p : Path} {made : Except IoError Unit} {ps ps' : List Text} {q : Place} :
      pieces p = R ++ ps → ps' <+: ps → resolve [] ps' = some q →
        Puts R ⟨.createDirs p, made⟩ q .dir

/-- What an exchange does to the store of `R`: what is there stays, and what is new the exchange has
put there. -/
structure Exchange.Tends (R : Place) (e : Exchange) (t t' : FileTree) : Prop where
  rooted : Rooted R t'
  keeps : ∀ x n, t.node? (inStore R x) = some n → t'.node? (inStore R x) = some n
  puts : ∀ x n, t'.node? (inStore R x) = some n → t.node? (inStore R x) = some n ∨
    e.Puts R (storeName :: x) n

section Perform

variable {R : Place} {host : Host} {w : World} {o : Op}

theorem Exchange.tends_of_spares {e : Exchange} {t t' : FileTree} (h : Spares R t t') :
    e.Tends R t t' :=
  ⟨h.rooted, fun x _ hn => (h.store x).trans hn, fun x _ hn => .inl ((h.store x).symm.trans hn)⟩

theorem FileTree.Touches.spares {t t' : FileTree} {q : Place} (h : Touches t t' (R ++ q))
    (ht : Rooted R t) (hq : q.head? ≠ some storeName) : Spares R t t' := by
  refine ⟨h.rooted ht, fun x => h.elsewhere _ fun heq => hq ?_⟩
  rw [inStore, append_cancel_left_eq] at heq
  rw [← heq]
  rfl

theorem Op.WritesAt.spares (ho : o.WritesAt R (fun q => q.head? ≠ some storeName) fun _ => False)
    (hw : Rooted R w.tree) : Spares R w.tree (o.perform host w).2.tree := by
  have hapart := ho.perform host hw
  exact ⟨hapart.rooted, fun x => hapart.same _ (fun hx => hx rfl) not_false⟩

theorem World.runCommand_spares (hhost : host.Spares R) (hw : Rooted R w.tree)
    (command : Invocation)
    (limit : Option Nat) (cancellable : Bool) :
    Spares R w.tree (w.runCommand host command limit cancellable).2.tree := by
  rcases hrun : w.runCommand host command limit cancellable with ⟨e | o, w'⟩
  · rw [eq_of_runCommand_error hrun]
    exact ⟨hw, fun _ => rfl⟩
  · obtain ⟨start, r, -, hr, htree⟩ := tree_of_runCommand hrun
    rw [htree]
    exact hhost _ _ _ hw hr

/-- **What tame operations do to the store.** -/
theorem Op.Tame.perform (ho : o.Tame R) (hhost : host.Spares R) (hw : Rooted R w.tree) :
    Tends R ⟨o, (o.perform host w).1⟩ w.tree (o.perform host w).2.tree := by
  have hsame : Spares R w.tree w.tree := ⟨hw, fun _ => rfl⟩
  cases o with
  | write _ _ | append _ _ | setExecutable _ | removeFile _ =>
    exact tends_of_spares (Op.WritesAt.spares ho hw)
  | createDirs p =>
    obtain ⟨q, habs, ps, hps, hq⟩ := ho
    have hadds : AddsDirs _ w.tree (w.tree.createDirs w.cwd p).2 :=
      addsDirs_createDirs hw habs hps hq
    refine ⟨hadds.rooted hw, fun x n hn => hadds.keeps hn, fun x n hn => ?_⟩
    rcases hadds (inStore R x) with hk | ⟨-, hd, ps', q', hpre, hq', hplace⟩
    · exact .inl (hk ▸ hn)
    · obtain rfl : q' = storeName :: x := (append_cancel_left hplace).symm
      obtain rfl : n = .dir := Option.some.inj (hn.symm.trans hd)
      exact .inr (.dir hps hpre hq')
  | createNew p bytes =>
    obtain ⟨q, hp⟩ := ho
    show Tends R ⟨.createNew p bytes, (w.change (w.tree.createNew w.cwd p bytes)).1⟩ w.tree
      (w.change (w.tree.createNew w.cwd p bytes)).2.tree
    cases ht : w.tree.createNew w.cwd p bytes with
    | error e => exact tends_of_spares hsame
    | ok t =>
      obtain ⟨hnone, rfl⟩ := hp.createNew hw ht
      have hroot : R ++ q ≠ [] := by intro h; rw [h] at hnone; simp at hnone
      have htouches : Touches w.tree (w.tree.put (R ++ q) (.file bytes false)) (R ++ q) :=
        .put (by simp [hnone]) nofun
      refine ⟨htouches.rooted hw, fun x n hn => ?_, fun x n hn => ?_⟩
      · refine (htouches.elsewhere _ fun hplace => ?_).trans hn
        rw [hplace, hnone] at hn
        cases hn
      · by_cases hplace : inStore R x = R ++ q
        · obtain rfl : storeName :: x = q := append_cancel_left hplace
          have hfile := node?_put_self hroot w.tree (.file bytes false)
          obtain rfl : Node.file bytes false = n := Option.some.inj (hfile.symm.trans hn)
          exact .inr (.file hp)
        · exact .inl ((htouches.elsewhere _ hplace).symm.trans hn)
  | run command limit cancellable =>
    exact tends_of_spares (runCommand_spares hhost hw command limit cancellable)
  | rename _ _ | copy _ _ => exact ho.elim
  | _ => exact tends_of_spares hsame

end Perform

/-! ## Calls at work together -/

def World.Elsewhere (R : Place) (w w' : World) : Prop := Spares R w.tree w'.tree

namespace Crew

variable {ι α : Type} [DecidableEq ι]

structure Tending (R : Place) (host : Host) (s : Crew ι α) : Prop where
  host : host.Spares R
  rooted : Rooted R s.world.tree
  tame : ∀ i, (s.threads i).Uses (Op.Tame R)
  fresh : s.trace = []

namespace Tending

variable {R : Place} {host : Host} {s₀ s : Crew ι α} (h₀ : Tending R host s₀)
  (hs : Reaches host (Elsewhere R) s₀ s)

include h₀ hs

theorem uses (i : ι) : (s.threads i).Uses (Op.Tame R) := by
  obtain ⟨τ, -, htakes⟩ := hs.takes
  exact (h₀.tame i).takes (htakes i)

theorem rooted_of_reaches : Rooted R s.world.tree := by
  induction hs with
  | refl => exact h₀.rooted
  | other _ hw _ => exact hw.rooted
  | @act s i hs ih =>
    cases hi : s.threads i with
    | done x => rw [act_of_done hi]; exact ih
    | step o next =>
      have huses := h₀.uses hs i
      rw [hi] at huses
      rw [act_world hi]
      exact (huses.1.perform h₀.host ih).rooted

theorem tends {i : ι} {o : Op} {next : o.Reply → Action α} (hi : s.threads i = .step o next) :
    Tends R ⟨o, (o.perform host s.world).1⟩ s.world.tree (s.act host i).world.tree := by
  have huses := h₀.uses hs i
  rw [hi] at huses
  rw [act_world hi]
  exact huses.1.perform h₀.host (h₀.rooted_of_reaches hs)

/-- **The store is accounted for.**  What is in it was there at the beginning, or an exchange in the
trace has put it there. -/
theorem putBy {x : Place} {n : Node} (hn : s.world.tree.node? (inStore R x) = some n) :
    s₀.world.tree.node? (inStore R x) = some n ∨
      ∃ (m : Nat) (i : ι) (e : Exchange), s.trace[m]? = some (i, e) ∧
        e.Puts R (storeName :: x) n := by
  induction hs with
  | refl => exact .inl hn
  | other _ hw ih => exact ih (hw.store x ▸ hn)
  | @act s i hs ih =>
    cases hi : s.threads i with
    | done y => rw [act_of_done hi] at hn ⊢; exact ih hn
    | step o next =>
      rw [act_trace hi]
      rcases (h₀.tends hs hi).puts x n hn with hn | hputs
      · rcases ih hn with hstart | ⟨m, j, e, hm, he⟩
        · exact .inl hstart
        · exact .inr ⟨m, j, e,
            List.getElem?_append_left (List.getElem?_eq_some_iff.1 hm).1 ▸ hm, he⟩
      · exact .inr ⟨s.trace.length, i, _, getElem?_concat_length .., hputs⟩

omit hs

/-- **Markers last.** -/
theorem lasting_has {p : Path} {x : Place} (hp : StandsInStore R p x) :
    Lasting host (Elsewhere R) s₀ (Has p) := by
  intro s hs hq
  have hw := h₀.rooted_of_reaches hs
  refine ⟨fun i => ?_, fun w' hw' => ?_⟩
  · cases hi : s.threads i with
    | done x => rw [act_of_done hi]; exact hq
    | step o next =>
      have htends := h₀.tends hs hi
      exact hp.isFile hw htends.rooted htends.keeps hq
  · exact hp.isFile hw hw'.rooted (fun x n hn => (hw'.store x).trans hn) hq

end Tending

end Crew

end PatchTriage
