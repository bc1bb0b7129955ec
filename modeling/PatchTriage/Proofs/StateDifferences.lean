import Mathlib.Data.List.Forall2
import PatchTriage.Proofs.WorldRuns
import PatchTriage.Snapshot.Dump

/-!
# States without a difference

What an empty difference of two images says about the states that they hold (`Snapshot.State`),
which are their sections or, if an image has none, its bytes.
-/

namespace PatchTriage

open List Job

namespace Snapshot

/-! ## Windows and their changes -/

def Window.shift (base : Nat) (w : Window) : Window := ⟨base + w.start, w.pairs⟩

variable {start base : Nat} {begun pairs : List (UInt8 × UInt8)}

theorem windowsFrom_shift : windowsFrom (base + start) begun pairs =
      (windowsFrom start begun pairs).map (Window.shift base) := by
  induction pairs generalizing start begun with
  | nil => cases begun <;> simp [windowsFrom, Window.shift]
  | cons pair pairs ih =>
    rw [windowsFrom, windowsFrom]
    split
    · rw [Nat.add_assoc, ih, map_cons, Window.shift]
    · exact ih

/-- The windows over two byte strings lose no byte. -/
theorem pairs_windowsFrom :
    (windowsFrom start begun pairs).flatMap Window.pairs = begun.reverse ++ pairs := by
  induction pairs generalizing start begun with
  | nil => cases begun <;> simp [windowsFrom]
  | cons pair pairs ih =>
    rw [windowsFrom]
    split <;> simp [ih]

/-- A window that changes: where it is, and what is added to each of its bytes. -/
structure Change where
  addr : Nat
  deltas : Bytes

def Change.line (c : Change) : Text := renderAddress c.addr ++ renderBytes c.deltas ++ ['\n']

def Window.change (w : Window) : Change := ⟨w.start, w.pairs.map fun (a, b) => b - a⟩

/-- The changes of those windows that are not the same on both sides. -/
def changes (ws : List Window) : List Change := (ws.filter fun w => !w.isEqual).map Window.change

theorem changes_cons (w : Window) (ws : List Window) :
    changes (w :: ws) = if w.isEqual then changes ws else w.change :: changes ws := by
  rw [changes, filter_cons]
  cases w.isEqual <;> rfl

theorem changes_eq_nil_iff {ws : List Window} :
    changes ws = [] ↔ ∀ p ∈ ws.flatMap Window.pairs, p.1 = p.2 := by
  have hequal (w : Window) : w.isEqual = true ↔ ∀ p ∈ w.pairs, p.1 = p.2 := by simp [Window.isEqual]
  simp only [changes, map_eq_nil_iff, filter_eq_nil_iff, Bool.not_eq_true', Bool.not_eq_false,
    hequal, mem_flatMap]
  exact ⟨fun h p ⟨w, hw, hp⟩ => h w hw p hp, fun h w hw p hp => h p ⟨w, hw, hp⟩⟩

theorem flatMap_line_eq_nil_iff {cs : List Change} : cs.flatMap Change.line = [] ↔ cs = [] := by
  cases cs <;> simp [Change.line]

theorem render_eq (base : Nat) (w : Window) : w.render base = if w.isEqual then .ok [] else
      if base + w.start < Word.bound then .ok (w.shift base).change.line else .error .add := by
  rw [Window.render, Word.add]
  split
  · rfl
  · split <;> rfl

theorem flatten_mapM_render (base : Nat) (ws : List Window) :
    (ws.mapM (Window.render base)).map flatten =
      if ∀ c ∈ changes (ws.map (Window.shift base)), c.addr < Word.bound then
        .ok ((changes (ws.map (Window.shift base))).flatMap Change.line)
      else .error .add := by
  induction ws with
  | nil => rfl
  | cons w ws ih =>
    have hstep : ((w :: ws).mapM (Window.render base)).map flatten =
        (w.render base).bind fun line =>
          ((ws.mapM (Window.render base)).map flatten).map (line ++ ·) := by
      rw [mapM_cons]
      cases w.render base <;> cases ws.mapM (Window.render base) <;> rfl
    have hequal : (w.shift base).isEqual = w.isEqual := rfl
    have haddr : (w.shift base).change.addr = base + w.start := rfl
    rw [hstep, ih, render_eq, map_cons, changes_cons, hequal]
    by_cases hw : w.isEqual
    · rw [if_pos hw, if_pos hw]
      split <;> simp [Except.bind, Except.map]
    · rw [if_neg hw, if_neg hw]
      by_cases hfits : base + w.start < Word.bound
      · rw [if_pos hfits]
        simp only [forall_mem_cons, haddr, hfits, true_and, flatMap_cons]
        split <;> rfl
      · rw [if_neg hfits]
        simp only [forall_mem_cons, haddr, hfits, false_and, if_false]
        rfl

/-- The difference of two byte strings has the lines of their changes, whose addresses must be
words. -/
theorem diffBytes_eq (base : Nat) (old new : Bytes) : diffBytes base old new =
      if ∀ c ∈ changes (windowsFrom base [] (old.zip new)), c.addr < Word.bound then
        .ok ((changes (windowsFrom base [] (old.zip new))).flatMap Change.line)
      else .error .add := by
  have hlines : diffBytes base old new =
      ((windows old new).mapM (Window.render base)).map flatten := by
    unfold diffBytes
    cases (windows old new).mapM (Window.render base) <;> rfl
  have hwindows : windowsFrom base [] (old.zip new) =
      (windows old new).map (Window.shift base) := by
    rw [windows, ← windowsFrom_shift, Nat.add_zero]
  rw [hlines, hwindows, flatten_mapM_render]

variable {x y : Bytes}

theorem forall_zip_eq_iff : (∀ p ∈ x.zip y, p.1 = p.2) ↔ x <+: y ∨ y <+: x := by
  induction x generalizing y with
  | nil => simp
  | cons a x ih =>
    cases y with
    | nil => simp
    | cons b y =>
      simp only [zip_cons_cons, forall_mem_cons, ih, cons_prefix_cons]
      grind

theorem diffBytes_eq_nil_iff {old new : Bytes} :
    diffBytes base old new = .ok [] ↔ old <+: new ∨ new <+: old := by
  have hpairs : changes (windowsFrom base [] (old.zip new)) = [] ↔
      ∀ p ∈ old.zip new, p.1 = p.2 := by
    rw [changes_eq_nil_iff, pairs_windowsFrom, reverse_nil, nil_append]
  rw [diffBytes_eq, ← forall_zip_eq_iff, ← hpairs]
  constructor
  · intro h
    split at h
    · exact flatMap_line_eq_nil_iff.1 (Except.ok.inj h)
    · cases h
  · intro h
    simp [h]

/-! ## Sections -/

variable {a b : Section}

theorem diffSections_nil (a : Section) (old : List Section) :
    diffSections (a :: old) [] = (diffSections old []).map (renderOneSided '-' a ++ ·) := by
  rw [diffSections]
  cases diffSections old [] <;> rfl

theorem diffSections_of_lt (h : b.addr < a.addr) (old new : List Section) :
    diffSections (a :: old) (b :: new) =
      (diffSections (a :: old) new).map (renderOneSided '+' b ++ ·) := by
  have htake : (b :: new).takeWhile (·.addr < a.addr) = b :: new.takeWhile (·.addr < a.addr) := by
    simp [h]
  have hdrop : (b :: new).dropWhile (·.addr < a.addr) = new.dropWhile (·.addr < a.addr) := by
    simp [h]
  rw [diffSections, diffSections, htake, hdrop]
  cases new.dropWhile fun s : Section => decide (s.addr < a.addr) with
  | nil => cases diffSections old [] <;> simp [Except.map, bind, Except.bind, pure, Except.pure]
  | cons c rest =>
    dsimp only
    split
    · cases diffBytes a.addr a.data c.data <;> cases diffSections old rest <;>
        simp [Except.map, bind, Except.bind, pure, Except.pure]
    · cases diffSections old (c :: rest) <;> simp [Except.map, bind, Except.bind, pure, Except.pure]

theorem diffSections_of_gt (h : a.addr < b.addr) (old new : List Section) :
    diffSections (a :: old) (b :: new) =
      (diffSections old (b :: new)).map (renderOneSided '-' a ++ ·) := by
  have hb : ¬ b.addr < a.addr := by omega
  have htake : (b :: new).takeWhile (·.addr < a.addr) = [] := by simp [hb]
  have hdrop : (b :: new).dropWhile (·.addr < a.addr) = b :: new := by simp [hb]
  rw [diffSections, htake, hdrop]
  dsimp only
  rw [if_neg (Nat.ne_of_lt h)]
  cases diffSections old (b :: new) <;> rfl

theorem diffSections_of_eq (h : a.addr = b.addr) (old new : List Section) :
    diffSections (a :: old) (b :: new) =
      (diffBytes a.addr a.data b.data).bind fun lines =>
        (diffSections old new).map (lines ++ ·) := by
  have htake : (b :: new).takeWhile (·.addr < a.addr) = [] := by simp [h]
  have hdrop : (b :: new).dropWhile (·.addr < a.addr) = b :: new := by simp [h]
  rw [diffSections, htake, hdrop]
  dsimp only
  rw [if_pos h]
  cases diffBytes a.addr a.data b.data <;> cases diffSections old new <;> rfl

theorem map_append_eq_nil_iff {s : Text} {x : Except Overflow Text} :
    x.map (s ++ ·) = .ok [] ↔ s = [] ∧ x = .ok [] := by
  cases x <;> simp [Except.map]

theorem renderOneSided_ne_nil (mark : Char) (s : Section) : renderOneSided mark s ≠ [] := by
  simp [renderOneSided]

def SectionsAgree (a b : Section) : Prop :=
  a.addr = b.addr ∧ (a.data <+: b.data ∨ b.data <+: a.data)

/-- A section that only one side has is always seen, one that has grown is not. -/
theorem diffSections_eq_nil_iff {old new : List Section} :
    diffSections old new = .ok [] ↔ Forall₂ SectionsAgree old new := by
  induction old generalizing new with
  | nil =>
    cases new with
    | nil => simp [diffSections]
    | cons b new => simp [diffSections, renderOneSided_ne_nil]
  | cons a old ih =>
    cases new with
    | nil => simp [diffSections_nil, map_append_eq_nil_iff, renderOneSided_ne_nil]
    | cons b new =>
      rw [forall₂_cons, SectionsAgree]
      rcases Nat.lt_trichotomy a.addr b.addr with h | h | h
      · simp [diffSections_of_gt h, map_append_eq_nil_iff, renderOneSided_ne_nil, Nat.ne_of_lt h]
      · rw [diffSections_of_eq h, ← @diffBytes_eq_nil_iff a.addr, ← ih]
        cases diffBytes a.addr a.data b.data with
        | error e => simp [Except.bind]
        | ok lines => simp [Except.bind, map_append_eq_nil_iff, h]
      · simp [diffSections_of_lt h, map_append_eq_nil_iff, renderOneSided_ne_nil, Nat.ne_of_gt h]

/-! ## Images as they are -/

def sizeLine (m n : Nat) : Text :=
  if m = n then [] else "size " ++ Text.ofNat m ++ ' ' :: Text.ofNat n ++ ['\n']

theorem diffRaw_eq (old new : Bytes) :
    diffRaw old new = (diffBytes 0 old new).map (sizeLine old.length new.length ++ ·) := by
  unfold diffRaw sizeLine
  cases diffBytes 0 old new with
  | error e => rfl
  | ok lines =>
    by_cases h : old.length = new.length <;>
      simp [h, Except.map, bind, Except.bind, pure, Except.pure]

theorem eq_of_prefix (h : x <+: y ∨ y <+: x) (hlength : x.length = y.length) : x = y := by
  rcases h with h | h
  · exact h.eq_of_length hlength
  · exact (h.eq_of_length hlength.symm).symm

theorem diffRaw_eq_nil_iff {old new : Bytes} : diffRaw old new = .ok [] ↔ old = new := by
  rw [diffRaw_eq, map_append_eq_nil_iff, diffBytes_eq_nil_iff, sizeLine]
  constructor
  · rintro ⟨hsize, h⟩
    by_cases hlength : old.length = new.length
    · exact eq_of_prefix h hlength
    · simp [hlength] at hsize
  · rintro rfl
    simp

/-! ## States -/

/-- The state that an image holds. -/
inductive State where
  | sections (list : List Section)
  | raw (bytes : Bytes)
  deriving DecidableEq

namespace State

def of (image : Bytes) : Except Overflow State :=
  (Image.sections? image).map fun found => found.elim (raw image) sections

theorem of_eq {image : Bytes} {found : Option (List Section)}
    (h : Image.sections? image = .ok found) : of image = .ok (found.elim (raw image) sections) := by
  rw [of, h]
  rfl

inductive Agrees : State → State → Prop
  | sections {a b : List Section} (h : Forall₂ SectionsAgree a b) : Agrees (sections a) (sections b)
  | raw (bytes : Bytes) : Agrees (raw bytes) (raw bytes)

def sizes : State → List Nat
  | sections list => list.map (·.data.length)
  | raw bytes => [bytes.length]

theorem Agrees.refl (s : State) : s.Agrees s := by
  cases s with
  | sections list => exact .sections (forall₂_same.2 fun _ _ => ⟨rfl, .inl (prefix_refl _)⟩)
  | raw bytes => exact .raw bytes

theorem eq_of_sectionsAgree {a b : List Section} (h : Forall₂ SectionsAgree a b)
    (hsizes : a.map (·.data.length) = b.map (·.data.length)) : a = b := by
  induction h with
  | nil => rfl
  | @cons s t a b hst _ ih =>
    obtain ⟨hsize, hrest⟩ := cons.inj hsizes
    obtain ⟨haddr, hdata⟩ := hst
    have hdata : s.data = t.data := eq_of_prefix hdata hsize
    obtain rfl : s = t := by cases s; cases t; simp_all
    rw [ih hrest]

theorem agrees_iff_of_sizes {s t : State} (hsizes : s.sizes = t.sizes) : s.Agrees t ↔ s = t := by
  constructor
  · intro h
    cases h with
    | sections h => exact congrArg _ (eq_of_sectionsAgree h hsizes)
    | raw bytes => rfl
  · rintro rfl
    exact .refl s

end State

theorem diff_of_sections {a b : List Section} (hx : Image.sections? x = .ok (some a))
    (hy : Image.sections? y = .ok (some b)) : diff x y = diffSections a b := by
  rw [diff, hx, hy]
  rfl

theorem diff_of_raw {a b : Option (List Section)} (hx : Image.sections? x = .ok a)
    (hy : Image.sections? y = .ok b) (h : a = none ∨ b = none) : diff x y = diffRaw x y := by
  rw [diff, hx, hy]
  rcases h with rfl | rfl
  · rfl
  · cases a <;> rfl

/-- The difference is empty exactly if the images are the same or have sections at the same
addresses, where one continues the other. -/
theorem diff_eq_nil_iff :
    diff x y = .ok [] ↔ ∃ s t, State.of x = .ok s ∧ State.of y = .ok t ∧ s.Agrees t := by
  cases hx : Image.sections? x with
  | error e => simp [diff, State.of, hx, Except.map, bind, Except.bind]
  | ok a =>
    cases hy : Image.sections? y with
    | error e => simp [diff, State.of, hx, hy, Except.map, bind, Except.bind]
    | ok b =>
      have hstates : (∃ s t, State.of x = .ok s ∧ State.of y = .ok t ∧ s.Agrees t) ↔
          (a.elim (State.raw x) State.sections).Agrees (b.elim (State.raw y) State.sections) := by
        simp [State.of_eq hx, State.of_eq hy]
      -- an image with sections is never the same as one without
      have hne (h : a ≠ b) : x ≠ y := by
        rintro rfl
        exact h (Except.ok.inj (hx.symm.trans hy))
      rw [hstates]
      rcases a with - | a <;> rcases b with - | b
      · rw [diff_of_raw hx hy (.inl rfl), diffRaw_eq_nil_iff]
        constructor
        · rintro rfl
          exact .raw x
        · rintro ⟨⟩
          rfl
      · rw [diff_of_raw hx hy (.inl rfl), diffRaw_eq_nil_iff]
        exact iff_of_false (hne (by simp)) (by rintro ⟨⟩)
      · rw [diff_of_raw hx hy (.inr rfl), diffRaw_eq_nil_iff]
        exact iff_of_false (hne (by simp)) (by rintro ⟨⟩)
      · rw [diff_of_sections hx hy, diffSections_eq_nil_iff]
        exact ⟨.sections, by rintro ⟨h⟩; exact h⟩

end Snapshot

/-! ## Images with given sections -/

namespace Image

def wordBytes (size n : Nat) : Bytes := (range size).map fun i => UInt8.ofNat (n / Nat.pow 256 i)

def sectionHeader (kind : Nat) (s : Section) (offset : Nat) : Bytes :=
  replicate 4 0 ++ wordBytes 4 kind ++ replicate 8 0 ++ wordBytes 8 s.addr ++
    wordBytes 8 offset ++ wordBytes 8 s.data.length ++ replicate 24 0

def sectionHeaders : (offset : Nat) → List (Nat × Section) → Bytes
  | _, [] => []
  | offset, (kind, s) :: rest =>
    sectionHeader kind s offset ++ sectionHeaders (offset + s.data.length) rest

def magic : Bytes := [0x7f, 0x45, 0x4c, 0x46]

/-- An image with sections of the given kinds: a header, the data, and the headers of the sections.
-/
def ofSections (entries : List (Nat × Section)) : Bytes :=
  let data := entries.flatMap fun e => e.2.data
  magic ++ [2, 1] ++ replicate 34 0 ++ wordBytes 8 (headerSize + data.length) ++
    replicate 10 0 ++ wordBytes 2 headerSize ++ wordBytes 2 entries.length ++
    replicate 2 0 ++ data ++ sectionHeaders headerSize entries

def single (data : Bytes) : Bytes := ofSections [(progbits, ⟨0x1000, data⟩)]

end Image

/-! ## Dumps -/

open Snapshot

def World.Dumps (w : World) (p : Path) (image : Bytes) : Prop :=
  w.tree.isFile w.cwd p = true ∧ w.tree.read w.cwd p = .ok image

def World.Holds (w : World) (p : Path) (s : State) : Prop := ∃ x, w.Dumps p x ∧ State.of x = .ok s

theorem World.Holds.unique {w : World} {p : Path} {s t : State} (hs : w.Holds p s)
    (ht : w.Holds p t) : s = t := by
  obtain ⟨x, hx, hs⟩ := hs
  obtain ⟨y, hy, ht⟩ := ht
  obtain rfl : x = y := by simpa [hx.2] using hy.2
  simpa [hs] using ht

namespace Dump

variable {α : Type} {host : Host} {w w' : World} {p q r : Path}

/-- What `f` makes of the difference of two dumps; `missing` if one of them is not there. -/
def onDiff (missing : α) (f : Text → α) (p q : Path) : Job α := do
  if !(← isFile p) then return missing
  if !(← isFile q) then return missing
  let x ← read p
  let y ← read q
  let t ← checked (diff x y)
  return f t

theorem signature_eq :
    signature p q = onDiff none (fun t => some (Sha256.hex (Utf8.encode t))) p q := rfl

theorem sameState_eq : sameState p q = onDiff false isEmpty p q := rfl

theorem run_read {x : Bytes} : (read p).run host w = (.ok x, w') ↔
    w.tree.read w.cwd p = .ok x ∧ w' = w := by
  rw [read, Job.run_explain_eq_ok_iff, Job.read, Job.run_op_bind]
  exact run_reply_eq_ok_iff

theorem run_checked {x : Except Overflow α} {a : α} :
    (checked x).run host w = (.ok a, w') ↔ x = .ok a ∧ w' = w := by
  cases x with
  | ok b =>
    rw [checked, run_pure]
    simp [eq_comm]
  | error o =>
    show ((.error _, w) : Except Stop α × World) = (.ok a, w') ↔ _
    simp

theorem run_unless_missing {missing : α} {rest : Job α} : (do
      if !(← isFile p) then return missing
      rest).run host w =
      if w.tree.isFile w.cwd p then rest.run host w else (.ok missing, w) := by
  rw [isFile, run_op_bind]
  show (if (!w.tree.isFile w.cwd p) = true then (pure missing : Job α) else rest).run host w = _
  cases w.tree.isFile w.cwd p <;> rfl

theorem run_onDiff {missing b : α} {f : Text → α} :
    (onDiff missing f p q).run host w = (.ok b, w') ↔
      w' = w ∧ (b = missing ∧ (w.tree.isFile w.cwd p && w.tree.isFile w.cwd q) = false ∨
        ∃ x y t, w.Dumps p x ∧ w.Dumps q y ∧ diff x y = .ok t ∧ b = f t) := by
  have hmissing : ((.ok missing, w) : Except Stop α × World) = (.ok b, w') ↔
      w' = w ∧ b = missing := by
    rw [Prod.mk.injEq, Except.ok.injEq, and_comm, eq_comm, @eq_comm _ b]
  rw [onDiff, run_unless_missing, run_unless_missing]
  cases hp : w.tree.isFile w.cwd p with
  | false => simp [World.Dumps, hp, hmissing]
  | true =>
    cases hq : w.tree.isFile w.cwd q with
    | false => simp [World.Dumps, hq, hmissing]
    | true =>
      simp only [if_true, run_bind_eq_ok_iff, run_read, run_checked, run_pure,
        Prod.mk.injEq, Except.ok.injEq, World.Dumps, hp, hq, true_and, Bool.and_self,
          Bool.true_eq_false,
        and_false, false_or]
      constructor
      · rintro ⟨x, w₁, ⟨hx, rfl⟩, y, w₂, ⟨hy, rfl⟩, t, w₃, ⟨ht, rfl⟩, rfl, rfl⟩
        exact ⟨rfl, x, y, t, hx, hy, ht, rfl⟩
      · rintro ⟨rfl, x, y, t, hx, hy, ht, rfl⟩
        exact ⟨x, _, ⟨hx, rfl⟩, y, _, ⟨hy, rfl⟩, t, _, ⟨ht, rfl⟩, rfl, rfl⟩

theorem run_onDiff_iff {missing b : α} (hb : b ≠ missing) {f : Text → α} :
    (onDiff missing f p q).run host w = (.ok b, w') ↔
      w' = w ∧ ∃ x y t, w.Dumps p x ∧ w.Dumps q y ∧ diff x y = .ok t ∧ b = f t := by
  simp [run_onDiff, hb]

theorem run_sameState_iff : (sameState p q).run host w = (.ok true, w) ↔
    ∃ s t, w.Holds p s ∧ w.Holds q t ∧ s.Agrees t := by
  have hempty (t : Text) : true = t.isEmpty ↔ t = [] := by cases t <;> simp
  rw [sameState_eq, run_onDiff_iff (by simp)]
  simp only [hempty, true_and]
  constructor
  · rintro ⟨x, y, t, hx, hy, ht, rfl⟩
    obtain ⟨s, t, hs, ht, h⟩ := diff_eq_nil_iff.1 ht
    exact ⟨s, t, ⟨x, hx, hs⟩, ⟨y, hy, ht⟩, h⟩
  · rintro ⟨s, t, ⟨x, hx, hs⟩, ⟨y, hy, ht⟩, h⟩
    exact ⟨x, y, [], hx, hy, diff_eq_nil_iff.2 ⟨s, t, hs, ht, h⟩, rfl⟩

/-- **States without a difference.**  The difference of two images is empty exactly if both are the
same images without sections, or both have sections at the same addresses and at each of them the
data of one begin with the data of the other. Such states are the same if the sizes of their parts
are. Two dumps are said to hold the same state exactly if both are there and have no difference, and
where sizes are the same this is transitive. -/
theorem sameState_iff :
    (∀ x y, diff x y = .ok [] ↔ ∃ s t, State.of x = .ok s ∧ State.of y = .ok t ∧ s.Agrees t) ∧
    (∀ s t : State, s.sizes = t.sizes → (s.Agrees t ↔ s = t)) ∧
    ((sameState p q).run host w = (.ok true, w) ↔ ∃ s t, w.Holds p s ∧ w.Holds q t ∧ s.Agrees t) ∧
    ((∀ s t, w.Holds p s → w.Holds q t → s.sizes = t.sizes) →
      (sameState p q).run host w = (.ok true, w) → (sameState q r).run host w = (.ok true, w) →
      (sameState p r).run host w = (.ok true, w)) := by
  refine ⟨fun x y => diff_eq_nil_iff, fun s t => State.agrees_iff_of_sizes, run_sameState_iff, ?_⟩
  intro hsizes hpq hqr
  rw [run_sameState_iff] at hpq hqr ⊢
  obtain ⟨s, t, hs, ht, hst⟩ := hpq
  obtain ⟨t', u, ht', hu, htu⟩ := hqr
  obtain rfl := ht.unique ht'
  obtain rfl := (State.agrees_iff_of_sizes (hsizes s t hs ht)).1 hst
  exact ⟨s, u, hs, hu, htu⟩

/-- Dumps of one state in two images that differ in a section of another kind, and of a state in
which the section has grown. -/
def siblings : World where
  tree :=
    let image (x : UInt8) := Image.ofSections [(Image.progbits, ⟨0x1000, [1, 2]⟩), (8, ⟨0, [x]⟩)]
    [(["first"], .file (image 0) false), (["other"], .file (image 9) false),
      (["third"], .file (Image.single [1, 2, 3]) false)]
  cwd := []

theorem sameState_iff_siblings :
    let same (p q : Path) : Prop := (sameState p q).run Host.bare siblings = (.ok true, siblings)
    (∀ s t, siblings.Holds "first" s → siblings.Holds "other" t → s.sizes = t.sizes) ∧
    same "first" "other" ∧ same "other" "third" ∧ same "first" "third" := by
  intro same
  have hholds (p : Path) (h : p = "first" ∨ p = "other") :
      siblings.Holds p (.sections [⟨0x1000, [1, 2]⟩]) := by
    rcases h with rfl | rfl <;> exact ⟨_, ⟨by decide +kernel, rfl⟩, by decide +kernel⟩
  have hsizes (s t : State) (hs : siblings.Holds "first" s) (ht : siblings.Holds "other" t) :
      s.sizes = t.sizes := by
    rw [hs.unique (hholds _ (.inl rfl)), ht.unique (hholds _ (.inr rfl))]
  have hfirst : same "first" "other" := by decide +kernel
  have hother : same "other" "third" := by decide +kernel
  exact ⟨hsizes, hfirst, hother, sameState_iff.2.2.2 hsizes hfirst hother⟩

def growth : World where
  tree :=
    [(["left"], .file (Image.single [1, 2]) false), (["middle"], .file (Image.single [1]) false),
      (["right"], .file (Image.single [1, 3]) false)]
  cwd := []

/-- A section that has only grown is not seen: different states are said to be the same, and two
states that are the same as a third one may differ from each other. -/
theorem grown_section_unseen :
    (sameState "left" "middle").run Host.bare growth = (.ok true, growth) ∧
    (sameState "middle" "right").run Host.bare growth = (.ok true, growth) ∧
    (sameState "left" "right").run Host.bare growth = (.ok false, growth) ∧
    State.of (Image.single [1, 2]) = .ok (.sections [⟨0x1000, [1, 2]⟩]) ∧
    State.of (Image.single [1]) = .ok (.sections [⟨0x1000, [1]⟩]) := by
  decide +kernel

end Dump

end PatchTriage
