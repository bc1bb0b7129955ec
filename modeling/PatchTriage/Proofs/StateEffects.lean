import Mathlib.Data.List.Chain
import PatchTriage.Proofs.Names
import PatchTriage.Proofs.StateDifferences

/-!
# The effect that a difference tells of

Two images that come after a third one, and have the same layout as it (`Snapshot.Alike`), hold the
same state exactly if they have the same difference to it.
-/

namespace PatchTriage

open List Text Image

namespace Text

/-! ## Hexadecimal numbers read back -/

theorem hexValue_append (n : Nat) (s t : Text) :
    hexValue n (s ++ t) = hexValue (hexValue n s) t := foldl_append

theorem hexValue_hexOfNat (n : Nat) : hexValue 0 (hexOfNat n) = n := by
  have hdigit : ∀ d < 16, (hexDigit? (Nat.digitChar d)).getD 0 = d := by decide
  induction n using Nat.strongRecOn with
  | ind n ih =>
    by_cases hn : n < 16
    · rw [hexOfNat, Nat.toDigits_of_lt_base hn]
      simpa [hexValue] using hdigit n hn
    · have hlast := hdigit (n % 16) (Nat.mod_lt _ (by decide))
      rw [hexOfNat, Nat.toDigits_of_base_le (by decide) (by omega), hexValue_append, ← hexOfNat,
        ih (n / 16) (by omega), hexValue, foldl_cons, hlast, foldl_nil]
      omega

theorem hexValue_paddedHex (width n : Nat) : hexValue 0 (paddedHex width n) = n := by
  have hzeros (k : Nat) : hexValue 0 (replicate k '0') = 0 := by
    induction k with
    | zero => rfl
    | succ k ih => exact ih
  rw [paddedHex, padLeft, hexValue_append, hzeros, hexValue_hexOfNat]

theorem paddedHex_append_inj {width m n : Nat} {s t : Text} (hs : ∀ c ∈ s.head?, c ∉ hexDigits)
    (ht : ∀ c ∈ t.head?, c ∉ hexDigits) (h : paddedHex width m ++ s = paddedHex width n ++ t) :
    m = n ∧ s = t := by
  have hdigits {k : Nat} {r : Text} (hr : ∀ c ∈ r.head?, c ∉ hexDigits) :
      (paddedHex width k ++ r).takeWhile (hexDigits.contains ·) = paddedHex width k := by
    rw [takeWhile_append_of_pos fun c hc => by simpa using mem_hexDigits_of_mem_paddedHex hc]
    cases r with
    | nil => simp
    | cons c r =>
      have hc : c ∉ hexDigits := hr c rfl
      simp [hc]
  have hhead : paddedHex width m = paddedHex width n := (hdigits hs).symm.trans (h ▸ hdigits ht)
  refine ⟨?_, ?_⟩
  · rw [← hexValue_paddedHex width m, hhead, hexValue_paddedHex]
  · rw [hhead] at h
    exact append_cancel_left h

end Text

def Sha256.Collide (m m' : Bytes) : Prop := m ≠ m' ∧ hex m = hex m'

theorem Utf8.encode_inj {s t : Text} (h : encode s = encode t) : s = t := by
  have hstrings : String.ofList s = String.ofList t := by
    rw [← String.toByteArray_inj, String.toByteArray_ofList, String.toByteArray_ofList,
      utf8Encode, utf8Encode]
    exact congrArg _ h
  simpa using congrArg String.toList hstrings

theorem Dump.run_signature {host : Host} {w : World} {p q : Path} {x y : Bytes} {t : Text}
    (hp : w.Dumps p x) (hq : w.Dumps q y) (ht : Snapshot.diff x y = .ok t) :
    (signature p q).run host w = (.ok (some (Sha256.hex (Utf8.encode t))), w) := by
  rw [signature_eq, run_onDiff_iff (by simp)]
  exact ⟨rfl, x, y, t, hp, hq, ht, rfl⟩

theorem Image.sections?_of_pairwise {image : Bytes} {found : List Section}
    (h : (readSections image).run = .ok (some found))
    (hfound : found.Pairwise fun a b => a.addr ≤ b.addr) :
    sections? image = .ok (some found) := by
  have hsorted : found.mergeSort (fun a b => decide (a.addr ≤ b.addr)) = found :=
    mergeSort_of_pairwise (by simpa using hfound)
  rw [sections?, h]
  show Except.ok (some (found.mergeSort _)) = _
  rw [hsorted]

namespace Snapshot

/-! ## Lines read back -/

theorem head_of_renderBytes {x : Bytes} {s : Text} {c : Char}
    (hc : c ∈ (renderBytes x ++ '\n' :: s).head?) : c ∉ hexDigits := by
  cases x with
  | nil =>
    obtain rfl : '\n' = c := by simpa [renderBytes] using hc
    decide
  | cons b x =>
    obtain rfl : ' ' = c := by simpa [renderBytes] using hc
    decide

theorem renderBytes_append_inj {x y : Bytes} {s t : Text}
    (h : renderBytes x ++ '\n' :: s = renderBytes y ++ '\n' :: t) : x = y ∧ s = t := by
  induction x generalizing y with
  | nil =>
    cases y with
    | nil => exact ⟨rfl, (cons.inj h).2⟩
    | cons b y => exact absurd (cons.inj h).1 (by decide)
  | cons a x ih =>
    cases y with
    | nil => exact absurd (cons.inj h).1 (by decide)
    | cons b y =>
      have htail : paddedHex 2 a.toNat ++ (renderBytes x ++ '\n' :: s) =
          paddedHex 2 b.toNat ++ (renderBytes y ++ '\n' :: t) := by
        simpa [renderBytes] using h
      obtain ⟨hbyte, hrest⟩ := paddedHex_append_inj (fun _ => head_of_renderBytes)
        (fun _ => head_of_renderBytes) htail
      obtain ⟨rfl, rfl⟩ := ih hrest
      exact ⟨by rw [UInt8.toNat.inj hbyte], rfl⟩

theorem line_append (c : Change) (t : Text) :
    c.line ++ t = paddedHex 16 c.addr ++ (renderBytes c.deltas ++ '\n' :: t) := by
  simp [Change.line, renderAddress]

/-- The lines of a difference can be read back. -/
theorem flatMap_line_inj {cs ds : List Change}
    (h : cs.flatMap Change.line = ds.flatMap Change.line) : cs = ds := by
  induction cs generalizing ds with
  | nil => exact (flatMap_line_eq_nil_iff.1 h.symm).symm
  | cons c cs ih =>
    cases ds with
    | nil => exact flatMap_line_eq_nil_iff.1 h
    | cons d ds =>
      rw [flatMap_cons, flatMap_cons, line_append, line_append] at h
      obtain ⟨haddr, hrest⟩ := paddedHex_append_inj (fun _ => head_of_renderBytes)
        (fun _ => head_of_renderBytes) h
      obtain ⟨hdeltas, htail⟩ := renderBytes_append_inj hrest
      obtain rfl : c = d := by cases c; cases d; simp_all
      rw [ih htail]

theorem head_of_flatMap_line {cs : List Change} {c : Char}
    (hc : c ∈ (cs.flatMap Change.line).head?) : c ∈ hexDigits := by
  cases cs with
  | nil => simp at hc
  | cons d cs =>
    rw [flatMap_cons, line_append, head?_append_of_ne_nil _ (paddedHex_ne_nil _ _)] at hc
    exact mem_hexDigits_of_mem_paddedHex (mem_of_mem_head? hc)

theorem sizeLine_append_inj {m n n' : Nat} {cs ds : List Change}
    (h : sizeLine m n ++ cs.flatMap Change.line = sizeLine m n' ++ ds.flatMap Change.line) :
    n = n' ∧ cs = ds := by
  have hother {k : Nat} {t : Text} (hk : m ≠ k) (es : List Change) :
      es.flatMap Change.line ≠ sizeLine m k ++ t := by
    intro h
    have hs : 's' ∈ (es.flatMap Change.line).head? := by
      rw [h, sizeLine, if_neg hk]
      rfl
    exact absurd (head_of_flatMap_line hs) (by decide)
  have hnone : sizeLine m m = [] := if_pos rfl
  by_cases hn : m = n <;> by_cases hn' : m = n'
  · subst hn hn'
    exact ⟨rfl, flatMap_line_inj (append_cancel_left h)⟩
  · subst hn
    rw [hnone, nil_append] at h
    exact absurd h (hother hn' cs)
  · subst hn'
    rw [hnone, nil_append] at h
    exact absurd h.symm (hother hn ds)
  · have hfeed {k : Nat} : '\n' ∉ ofNat k := fun hc => absurd (isDigit_of_mem_ofNat hc) (by decide)
    have hsizes : ofNat n ++ '\n' :: cs.flatMap Change.line =
        ofNat n' ++ '\n' :: ds.flatMap Change.line := by
      simpa [sizeLine, hn, hn'] using h
    obtain ⟨hnumber, hlines⟩ := append_cons_inj hfeed hfeed hsizes
    refine ⟨?_, flatMap_line_inj hlines⟩
    rw [← digitsValue_ofNat n, hnumber, digitsValue_ofNat]

/-! ## Windows -/

variable {start base : Nat} {begun pairs : List (UInt8 × UInt8)}

def Window.map (f : UInt8 × UInt8 → UInt8 × UInt8) (w : Window) : Window := ⟨w.start, w.pairs.map f⟩

theorem windowsFrom_map (f : UInt8 × UInt8 → UInt8 × UInt8) :
    windowsFrom start (begun.map f) (pairs.map f) =
      (windowsFrom start begun pairs).map (Window.map f) := by
  induction pairs generalizing start begun with
  | nil => cases begun <;> simp [windowsFrom, Window.map]
  | cons pair pairs ih =>
    rw [map_cons, windowsFrom, windowsFrom, length_map]
    split
    · simp [Window.map, ← ih]
    · rw [← ih, map_cons]

theorem start_of_mem_windowsFrom {w : Window} (hbegun : begun.length < windowSize)
    (hw : w ∈ windowsFrom start begun pairs) :
    start ≤ w.start ∧ w.start < start + (begun.length + pairs.length) := by
  induction pairs generalizing start begun with
  | nil =>
    cases begun with
    | nil => simp [windowsFrom] at hw
    | cons pair begun =>
      obtain rfl : w = ⟨start, (pair :: begun).reverse⟩ := by simpa [windowsFrom] using hw
      exact ⟨Nat.le_refl _, by simp⟩
  | cons pair pairs ih =>
    rw [windowsFrom] at hw
    rw [length_cons]
    split at hw
    · rename_i hfull
      rcases mem_cons.1 hw with rfl | hw
      · exact ⟨Nat.le_refl _, by dsimp only; omega⟩
      · have hbounds := ih (by decide) hw
        rw [length_nil] at hbounds
        omega
    · have hbounds := ih (by rw [length_cons]; omega) hw
      rw [length_cons] at hbounds
      omega

theorem pairwise_windowsFrom (hbegun : begun.length < windowSize) :
    (windowsFrom start begun pairs).Pairwise fun v w => v.start < w.start := by
  induction pairs generalizing start begun with
  | nil => cases begun <;> simp [windowsFrom]
  | cons pair pairs ih =>
    rw [windowsFrom]
    split
    · refine pairwise_cons.2 ⟨fun w hw => ?_, ih (by decide)⟩
      have hbounds := start_of_mem_windowsFrom (by decide) hw
      have hsize : 0 < windowSize := by decide
      dsimp only
      omega
    · exact ih (by rw [length_cons]; omega)

/-! ## Windows known from their changes -/

theorem start_of_mem_changes {c : Change} {ws : List Window} (hc : c ∈ changes ws) :
    ∃ w ∈ ws, w.start = c.addr := by
  obtain ⟨w, hw, rfl⟩ := mem_map.1 hc
  exact ⟨w, (mem_filter.1 hw).1, rfl⟩

def Window.old (w : Window) : Window := w.map fun p => (p.1, p.1)

theorem Window.old_eq_self {w : Window} (h : w.isEqual = true) : w.old = w := by
  have hpairs : w.pairs.map (fun p => (p.1, p.1)) = w.pairs.map id := by
    refine map_congr_left fun p hp => ?_
    have hequal : p.1 = p.2 := by simpa using all_eq_true.1 h p hp
    exact Prod.ext rfl hequal
  rw [old, map, hpairs, map_id]

theorem Window.eq_of_change {v w : Window} (hold : v.old = w.old) (h : v.change = w.change) :
    v = w := by
  obtain ⟨start, ps⟩ := v
  obtain ⟨start', qs⟩ := w
  obtain ⟨rfl, hfirsts⟩ := Window.mk.inj hold
  have hdeltas := (Change.mk.inj h).2
  suffices ps = qs by rw [this]
  dsimp only at hfirsts hdeltas
  clear hold h
  induction ps generalizing qs with
  | nil => simpa using hfirsts
  | cons p ps ih =>
    cases qs with
    | nil => simp at hfirsts
    | cons q qs =>
      simp only [map_cons, cons.injEq] at hfirsts hdeltas
      have hfirst : p.1 = q.1 := (Prod.mk.inj hfirsts.1).1
      have hsecond : p.2 = q.2 := by
        have hdelta := hdeltas.1
        rw [hfirst] at hdelta
        exact (UInt8.sub_left_inj _).1 hdelta
      rw [Prod.ext hfirst hsecond, ih qs hfirsts.2 hdeltas.2]

theorem starts_of_old {ws ws' : List Window} (hold : ws.map Window.old = ws'.map Window.old) :
    ws.map Window.start = ws'.map Window.start := by
  have hstarts := congrArg (map Window.start) hold
  rwa [map_map, map_map] at hstarts

/-- **The changes and the old bytes determine the windows**, because no two of them start at the
same place: so it is known which windows have changed. -/
theorem windows_eq_of_changes {ws ws' : List Window} (hold : ws.map Window.old = ws'.map Window.old)
    (hws : ws.Pairwise fun v w => v.start < w.start) (h : changes ws = changes ws') : ws = ws' := by
  induction ws generalizing ws' with
  | nil => simpa using hold
  | cons w ws ih =>
    cases ws' with
    | nil => simp at hold
    | cons w' ws' =>
      obtain ⟨hlater, hpairwise⟩ := pairwise_cons.1 hws
      obtain ⟨hfirst, hrest⟩ := cons.inj hold
      have hstart : w'.start = w.start := (Window.mk.inj hfirst).1.symm
      have hstarts := starts_of_old hrest
      -- neither list of changes has one at `w.start` behind the first window
      have hnot {c : Change} {vs : List Window} (hvs : vs.map Window.start = ws.map Window.start)
          (hc : c ∈ changes vs) : w.start < c.addr := by
        obtain ⟨v, hv, hvc⟩ := start_of_mem_changes hc
        obtain ⟨u, hu, huv⟩ := mem_map.1 (hvs ▸ mem_map_of_mem hv)
        have hlt := hlater u hu
        omega
      rw [changes_cons, changes_cons] at h
      by_cases hw : w.isEqual = true <;> by_cases hw' : w'.isEqual = true
      · rw [if_pos hw, if_pos hw'] at h
        rw [← Window.old_eq_self hw, hfirst, Window.old_eq_self hw', ih hrest hpairwise h]
      · rw [if_pos hw, if_neg hw'] at h
        have hlt : w.start < w'.start := hnot rfl (h ▸ mem_cons_self)
        omega
      · rw [if_neg hw, if_pos hw'] at h
        exact absurd (hnot hstarts.symm (h ▸ mem_cons_self)) (Nat.lt_irrefl _)
      · rw [if_neg hw, if_neg hw'] at h
        obtain ⟨hchange, hchanges⟩ := cons.inj h
        rw [Window.eq_of_change hfirst hchange, ih hrest hpairwise hchanges]

/-! ## Sections known from their changes -/

theorem changes_append (vs ws : List Window) : changes (vs ++ ws) = changes vs ++ changes ws := by
  simp [changes]

theorem diffBytes_of_fits {old : Bytes} (h : base + old.length ≤ Word.bound) (new : Bytes) :
    diffBytes base old new =
      .ok ((changes (windowsFrom base [] (old.zip new))).flatMap Change.line) := by
  rw [diffBytes_eq, if_pos]
  intro c hc
  obtain ⟨w, hw, hwc⟩ := start_of_mem_changes hc
  have hbounds := start_of_mem_windowsFrom (by decide) hw
  rw [length_nil, length_zip] at hbounds
  omega

def SameExtent (a b : Section) : Prop := a.addr = b.addr ∧ a.data.length = b.data.length

def EndsBefore (a b : Section) : Prop := a.addr + a.data.length ≤ b.addr

instance : Trans EndsBefore EndsBefore EndsBefore where
  trans hab hbc := by
    unfold EndsBefore at *
    omega

def sectionWindows (old new : List Section) : List Window :=
  (old.zip new).flatMap fun p => windowsFrom p.1.addr [] (p.1.data.zip p.2.data)

theorem sectionWindows_cons (a b : Section) (old new : List Section) :
    sectionWindows (a :: old) (b :: new) =
      windowsFrom a.addr [] (a.data.zip b.data) ++ sectionWindows old new := by
  simp [sectionWindows]

variable {old new new' : List Section}

theorem start_of_mem_sectionWindows {w : Window} (hw : w ∈ sectionWindows old new) :
    ∃ a ∈ old, a.addr ≤ w.start ∧ w.start < a.addr + a.data.length := by
  obtain ⟨p, hp, hw⟩ := mem_flatMap.1 hw
  have hbounds := start_of_mem_windowsFrom (by decide) hw
  rw [length_nil, length_zip] at hbounds
  exact ⟨p.1, (of_mem_zip hp).1, by omega, by omega⟩

theorem pairwise_sectionWindows (hold : old.IsChain EndsBefore) :
    (sectionWindows old new).Pairwise fun v w => v.start < w.start := by
  rw [isChain_iff_pairwise] at hold
  induction old generalizing new with
  | nil => simp [sectionWindows]
  | cons a old ih =>
    cases new with
    | nil => simp [sectionWindows]
    | cons b new =>
      obtain ⟨hlater, hrest⟩ := pairwise_cons.1 hold
      rw [sectionWindows_cons, pairwise_append]
      refine ⟨pairwise_windowsFrom (by decide), ih hrest, fun v hv w hw => ?_⟩
      have hbounds := start_of_mem_windowsFrom (by decide) hv
      rw [length_nil, length_zip] at hbounds
      obtain ⟨a', ha', hle, -⟩ := start_of_mem_sectionWindows hw
      have hapart : a.addr + a.data.length ≤ a'.addr := hlater a' ha'
      omega

/-- Sections with the same extents are compared one by one, and without an overflow. -/
theorem diffSections_of_sameExtent (h : Forall₂ SameExtent old new)
    (hfits : ∀ a ∈ old, a.addr + a.data.length ≤ Word.bound) :
    diffSections old new = .ok ((changes (sectionWindows old new)).flatMap Change.line) := by
  induction h with
  | nil => rfl
  | @cons a b old new hab _ ih =>
    obtain ⟨hfit, hfits⟩ := forall_mem_cons.1 hfits
    rw [diffSections_of_eq hab.1, diffBytes_of_fits hfit, ih hfits, sectionWindows_cons,
      changes_append, flatMap_append]
    rfl

theorem old_sectionWindows (h : Forall₂ SameExtent old new) :
    (sectionWindows old new).map Window.old = sectionWindows old old := by
  induction h with
  | nil => rfl
  | @cons a b old new hab _ ih =>
    have hpairs : (a.data.zip b.data).map (fun p => (p.1, p.1)) = a.data.zip a.data := by
      have hfirsts := map_fst_zip (Nat.le_of_eq hab.2)
      calc (a.data.zip b.data).map (fun p => (p.1, p.1))
          = ((a.data.zip b.data).map Prod.fst).map fun x => (x, x) := by simp
        _ = a.data.zip a.data := by rw [hfirsts]; simp [zip_eq_zipWith]
    rw [sectionWindows_cons, sectionWindows_cons, map_append, ih, ← hpairs]
    congr 1
    exact (windowsFrom_map _).symm

theorem data_sectionWindows (h : Forall₂ SameExtent old new) :
    ((sectionWindows old new).flatMap Window.pairs).map Prod.snd = new.flatMap Section.data := by
  induction h with
  | nil => rfl
  | @cons a b old new hab _ ih =>
    rw [sectionWindows_cons, flatMap_append, map_append, ih, pairs_windowsFrom,
      reverse_nil, nil_append, map_snd_zip (Nat.le_of_eq hab.2.symm), flatMap_cons]

theorem eq_of_data (h : Forall₂ SameExtent old new) (h' : Forall₂ SameExtent old new')
    (hdata : new.flatMap Section.data = new'.flatMap Section.data) : new = new' := by
  induction h generalizing new' with
  | nil =>
    cases h'
    rfl
  | @cons a b old new hab _ ih =>
    cases h' with
    | @cons _ b' _ new' hab' h' =>
      obtain ⟨haddr, hlength⟩ := hab
      obtain ⟨haddr', hlength'⟩ := hab'
      rw [flatMap_cons, flatMap_cons] at hdata
      obtain ⟨hfirst, hrest⟩ := append_inj hdata (hlength.symm.trans hlength')
      obtain rfl : b = b' := by cases b; cases b'; simp_all
      rw [ih h' hrest]

/-- The sections after a change are known from those before it and from the changes. -/
theorem sections_eq_of_changes (hold : old.IsChain EndsBefore) (h : Forall₂ SameExtent old new)
    (h' : Forall₂ SameExtent old new')
    (hchanges : changes (sectionWindows old new) = changes (sectionWindows old new')) :
    new = new' := by
  have hwindows : sectionWindows old new = sectionWindows old new' := by
    refine windows_eq_of_changes ?_ (pairwise_sectionWindows hold) hchanges
    rw [old_sectionWindows h, old_sectionWindows h']
  refine eq_of_data h h' ?_
  rw [← data_sectionWindows h, ← data_sectionWindows h', hwindows]

theorem zip_take_length (x y : Bytes) : (x.take y.length).zip y = x.zip y := by
  induction x generalizing y with
  | nil => simp
  | cons a x ih =>
    cases y with
    | nil => rfl
    | cons b y => simp [ih]

/-- Images that are compared as they are: the part of the old one that the new one covers counts as
a section. -/
theorem diffRaw_of_fits {x : Bytes} (hx : x.length ≤ Word.bound) (y : Bytes) :
    diffRaw x y = .ok (sizeLine x.length y.length ++
      (changes (sectionWindows [⟨0, x.take y.length⟩] [⟨0, y⟩])).flatMap Change.line) := by
  rw [diffRaw_eq, diffBytes_of_fits (by omega), sectionWindows_cons, zip_take_length]
  simp [sectionWindows, Except.map]

theorem eq_of_raw_changes {x y z : Bytes} (hy : y.length ≤ x.length)
    (h : sizeLine x.length y.length ++
        (changes (sectionWindows [⟨0, x.take y.length⟩] [⟨0, y⟩])).flatMap Change.line =
      sizeLine x.length z.length ++
        (changes (sectionWindows [⟨0, x.take z.length⟩] [⟨0, z⟩])).flatMap Change.line) : y =
          z := by
  obtain ⟨hlength, hchanges⟩ := sizeLine_append_inj h
  rw [← hlength] at hchanges
  have hextent {v : Bytes} (hv : v.length = y.length) :
      Forall₂ SameExtent [⟨0, x.take y.length⟩] [⟨0, v⟩] := by
    refine .cons ⟨rfl, ?_⟩ .nil
    rw [length_take, hv, Nat.min_eq_left hy]
  have hsections :=
    sections_eq_of_changes (.singleton _) (hextent rfl) (hextent hlength.symm) hchanges
  simpa using hsections

/-! ## Images of the same layout -/

theorem sections?_of_not_magic {x : Bytes} (h : ¬ magic <+: x) : sections? x = .ok none := by
  have hheader : hasHeader x = false := by
    by_contra hheader
    rw [Bool.not_eq_false, hasHeader, Bool.and_eq_true, beq_iff_eq] at hheader
    have hmagic : magic <+: x.take 6 := hheader.2 ▸ by decide
    exact h (hmagic.trans (List.take_prefix 6 x))
  rw [sections?, readSections, hheader]
  rfl

/-- An image that comes after another one and has the same layout: either both have no header and
the new one is not the longer one, or both have sections with the same addresses and sizes, which do
not overlap. All addresses are words. -/
inductive Alike (before after : Bytes) : Prop
  | raw (hbefore : ¬ magic <+: before) (hafter : ¬ magic <+: after)
      (hlength : after.length ≤ before.length) (hfits : before.length ≤ Word.bound)
  | sections {old new : List Section} (hbefore : sections? before = .ok (some old))
      (hafter : sections? after = .ok (some new)) (hextents : Forall₂ SameExtent old new)
      (hchain : old.IsChain EndsBefore) (hfits : ∀ a ∈ old, a.addr + a.data.length ≤ Word.bound)

open State

theorem Alike.diff_eq_iff {before after after' : Bytes} (h : Alike before after)
    (h' : Alike before after') :
    ∃ s s' t t', of after = .ok s ∧ of after' = .ok s' ∧ diff before after = .ok t ∧
      diff before after' = .ok t' ∧ (t = t' ↔ s = s') := by
  cases h with
  | raw hbefore hafter hlength hfits =>
    have hnone := sections?_of_not_magic hbefore
    have hraw {x : Bytes} (hx : ¬ magic <+: x) : diff before x = _ :=
      (diff_of_raw hnone (sections?_of_not_magic hx) (.inl rfl)).trans (diffRaw_of_fits hfits x)
    cases h' with
    | raw _ hafter' hlength' _ =>
      refine ⟨_, _, _, _, of_eq (sections?_of_not_magic hafter),
        of_eq (sections?_of_not_magic hafter'), hraw hafter, hraw hafter',
        fun h => ?_, fun h => ?_⟩
      · rw [eq_of_raw_changes hlength h]
      · rw [show after = after' from raw.inj h]
    | sections hbefore' => exact absurd (hnone.symm.trans hbefore') (by simp)
  | @sections old new hbefore hafter hextents hchain hfits =>
    cases h' with
    | raw hbefore' => exact absurd (hbefore.symm.trans (sections?_of_not_magic hbefore')) (by simp)
    | @sections old' new' hbefore' hafter' hextents' _ _ =>
      obtain rfl : old = old' := by simpa [hbefore] using hbefore'
      refine ⟨_, _, _, _, of_eq hafter, of_eq hafter',
        (diff_of_sections hbefore hafter).trans (diffSections_of_sameExtent hextents hfits),
        (diff_of_sections hbefore hafter').trans (diffSections_of_sameExtent hextents' hfits),
        fun h => ?_, fun h => ?_⟩
      · rw [sections_eq_of_changes hchain hextents hextents' (flatMap_line_inj h)]
        rfl
      · rw [show new = new' from sections.inj h]

/-- **The difference determines the effect.**  Let two images have the same layout as the one before
them. Then their differences to it come without an overflow, and are the same exactly if both images
hold the same state. So the signatures of dumps of them are the same exactly if the states are, but
for collisions of digests. -/
theorem difference_determines_state {before after after' : Bytes} (h : Alike before after)
    (h' : Alike before after') :
    ∃ s s' t t', of after = .ok s ∧ of after' = .ok s' ∧ diff before after = .ok t ∧
      diff before after' = .ok t' ∧ (t = t' ↔ s = s') ∧
      ∀ (host : Host) (w : World) (p q q' : Path), w.Dumps p before → w.Dumps q after →
        w.Dumps q' after' → ∃ g g', (Dump.signature p q).run host w = (.ok (some g), w) ∧
          (Dump.signature p q').run host w = (.ok (some g'), w) ∧
          (g = g' ↔ s = s' ∨ Sha256.Collide (Utf8.encode t) (Utf8.encode t')) := by
  obtain ⟨s, s', t, t', hs, hs', ht, ht', hiff⟩ := h.diff_eq_iff h'
  refine ⟨s, s', t, t', hs, hs', ht, ht', hiff, fun host w p q q' hp hq hq' => ?_⟩
  refine ⟨_, _, Dump.run_signature hp hq ht, Dump.run_signature hp hq' ht', ?_⟩
  rw [← hiff, Sha256.Collide]
  constructor
  · intro hdigests
    by_cases hsame : t = t'
    · exact .inl hsame
    · exact .inr ⟨fun hbytes => hsame (Utf8.encode_inj hbytes), hdigests⟩
  · rintro (rfl | ⟨-, hdigests⟩)
    · rfl
    · exact hdigests

/-- An image with two sections of program data, and one of another kind between them. -/
def double (x y : Bytes) : Bytes :=
  ofSections [(progbits, ⟨0x1000, x⟩), (8, ⟨0x1800, [7]⟩), (progbits, ⟨0x2000, y⟩)]

theorem difference_determines_state_double :
    let before := double (replicate 18 0) [1, 2]
    let after := double (replicate 18 3) [1, 2]
    let after' := double (replicate 18 0) [1, 5]
    Alike before after ∧ Alike before after' ∧
    ∃ s s' t t', of after = .ok s ∧ of after' = .ok s' ∧ diff before after = .ok t ∧
      diff before after' = .ok t' ∧ (t = t' ↔ s = s') := by
  intro before after after'
  have hsections {x y : Bytes}
      (h : (readSections (double x y)).run = .ok (some [⟨0x1000, x⟩, ⟨0x2000, y⟩])) :
      sections? (double x y) = .ok (some [⟨0x1000, x⟩, ⟨0x2000, y⟩]) :=
    sections?_of_pairwise h (by simp)
  have halike (x y : Bytes) (hx : x.length = 18) (hy : y.length = 2)
      (h : (readSections (double x y)).run = .ok (some [⟨0x1000, x⟩, ⟨0x2000, y⟩])) :
      Alike before (double x y) := by
    refine .sections (hsections (by decide +kernel)) (hsections h) ?_ ?_ ?_
    · exact .cons ⟨rfl, by simp [hx]⟩ (.cons ⟨rfl, by simp [hy]⟩ .nil)
    · simp [EndsBefore]
    · simp [Word.bound]
  have hfilled : Alike before after := halike _ _ rfl rfl (by decide +kernel)
  have hedited : Alike before after' := halike _ _ rfl rfl (by decide +kernel)
  obtain ⟨s, s', t, t', hs, hs', ht, ht', hiff, -⟩ := difference_determines_state hfilled hedited
  exact ⟨hfilled, hedited, s, s', t, t', hs, hs', ht, ht', hiff⟩

end Snapshot

end PatchTriage
