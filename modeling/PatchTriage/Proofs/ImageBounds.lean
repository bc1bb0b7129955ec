import PatchTriage.Proofs.Listings
import PatchTriage.Proofs.StateEffects

/-!
# Where the comparison of images overflows

Images are read and compared by arithmetic on words of 64 bits that are taken from the images
themselves. Only the first header can overflow, as the next ones are not that far away, and windows
past the last address (`Snapshot.overflows_iff`).
-/

namespace PatchTriage

open Image Word List

def InMemory (image : Bytes) : Prop := image.length < Nat.pow 2 63

instance {image : Bytes} : Decidable (InMemory image) := inferInstanceAs (Decidable (_ < _))

namespace Image

variable {image : Bytes}

/-! ## Numbers -/

def field (image : Bytes) (start size : Nat) : Nat := littleEndian ((image.drop start).take size)

theorem littleEndian_lt (bytes : Bytes) : littleEndian bytes < Nat.pow 256 bytes.length := by
  induction bytes with
  | nil => decide
  | cons b bytes ih =>
    have hb : b.toNat < 256 := b.toNat_lt
    have hpow : Nat.pow 256 (bytes.length + 1) = 256 * Nat.pow 256 bytes.length := Nat.mul_comm _ _
    rw [littleEndian, foldr_cons, length_cons, hpow]
    rw [littleEndian] at ih
    omega

theorem field_lt (image : Bytes) (start size : Nat) : field image start size < Nat.pow 256 size :=
  Nat.lt_of_lt_of_le (littleEndian_lt _) (Nat.pow_le_pow_right (by decide) (length_take_le ..))

theorem run_bind {α β : Type} (x : Reading α) (f : α → Reading β) :
    (x >>= f).run = x.run.bind fun a => a.elim (.ok none) fun a => (f a).run := by
  show OptionT.run (OptionT.bind x f) = _
  rw [OptionT.bind, OptionT.run]
  show Except.bind x.run _ = _
  congr 1
  funext a
  cases a <;> rfl

theorem run_addr (a b : Nat) :
    (addr a b).run = if a + b < bound then .ok (some (a + b)) else .error .add := by
  show Except.bind (add a b) _ = _
  rw [add]
  split <;> rfl

theorem run_number (image : Bytes) (start : Nat) {size : Nat} (hsize : 0 < size) :
    (number image start size).run =
      if start + size < bound then
        .ok (if start + size ≤ image.length then some (field image start size) else none)
      else .error .add := by
  rw [number, run_bind, run_addr]
  split
  · have hlength : ((image.drop start).take size).length = size ↔ start + size ≤ image.length := by
      rw [length_take, length_drop]
      omega
    show OptionT.run (if ((image.drop start).take size).length = size then pure _ else failure) = _
    by_cases h : start + size ≤ image.length
    · rw [if_pos (hlength.2 h), if_pos h]
      rfl
    · rw [if_neg (mt hlength.1 h), if_neg h]
      rfl
  · rfl

theorem run_checked (n : Nat) : (checked n).run = .ok (if n < bound then some n else none) := by
  rw [checked]
  split <;> rfl

/-! ## Headers -/

def table (image : Bytes) : Nat := field image 0x28 8

def entrySize (image : Bytes) : Nat := field image 0x3a 2

def count (image : Bytes) : Nat := field image 0x3c 2

def headerAt (image : Bytes) (index : Nat) : Nat := table image + index * entrySize image

/-- The place of the data of a header lies inside the image, and so does the data. -/
def Placed (image : Bytes) (header : Nat) : Prop :=
  header + 40 ≤ image.length ∧
    field image (header + 24) 8 + field image (header + 32) 8 ≤ image.length

/-- What is read of a header lies inside the image: its kind and, if that is program data, the
data. -/
def Fits (image : Bytes) (header : Nat) : Prop :=
  header + 8 ≤ image.length ∧ (field image (header + 4) 4 = progbits → Placed image header)

instance (header : Nat) : Decidable (Placed image header) := inferInstanceAs (Decidable (_ ∧ _))

instance (header : Nat) : Decidable (Fits image header) := inferInstanceAs (Decidable (_ ∧ _))

def dataOf (image : Bytes) (header : Nat) : Section :=
  ⟨field image (header + 16) 8,
    (image.drop (field image (header + 24) 8)).take (field image (header + 32) 8)⟩

def sectionOf (image : Bytes) (header : Nat) : Option Section :=
  if field image (header + 4) 4 = progbits then some (dataOf image header) else none

theorem run_fieldAt {β : Type} (header : Nat) {offset size stop : Nat} (hsize : 0 < size)
    (hstop : offset + size = stop) (f : Nat → Reading β) :
    (addr header offset >>= fun start => number image start size >>= f).run =
      if header + stop < bound then
        if header + stop ≤ image.length then (f (field image (header + offset) size)).run
        else .ok none
      else .error .add := by
  subst hstop
  rw [run_bind, run_addr, ← Nat.add_assoc]
  by_cases hstart : header + offset < bound
  · rw [if_pos hstart]
    show (number image (header + offset) size >>= f).run = _
    rw [run_bind, run_number _ _ hsize]
    split
    · split <;> rfl
    · rfl
  · rw [if_neg hstart, if_neg (by omega)]
    rfl

theorem run_placement {header : Nat} (hheader : header + 40 < bound)
    (himage : image.length < bound) : (do
      let address ← number image (← addr header 16) 8
      let offset ← number image (← addr header 24) 8
      let size ← number image (← addr header 32) 8
      let stop ← checked (offset + size)
      if stop ≤ image.length then return some (Section.mk address ((image.drop offset).take size))
      else failure : Reading (Option Section)).run =
      .ok (if Placed image header then some (some (dataOf image header)) else none) := by
  have hfits (stop : Nat) (h : stop ≤ 40) : header + stop < bound := by omega
  have hshort (stop : Nat) (h : stop ≤ 40) (hout : ¬ header + stop ≤ image.length) :
      ¬ Placed image header := fun hplaced => hout (Nat.le_trans (by omega) hplaced.1)
  rw [run_fieldAt header (by decide) (rfl : 16 + 8 = 24), if_pos (hfits 24 (by decide))]
  by_cases haddress : header + 24 ≤ image.length
  · rw [if_pos haddress, run_fieldAt header (by decide) (rfl : 24 + 8 = 32),
      if_pos (hfits 32 (by decide))]
    by_cases hoffset : header + 32 ≤ image.length
    · rw [if_pos hoffset, run_fieldAt header (by decide) (rfl : 32 + 8 = 40), if_pos hheader]
      by_cases hsize : header + 40 ≤ image.length
      · rw [if_pos hsize, run_bind, run_checked]
        by_cases hdata : field image (header + 24) 8 + field image (header + 32) 8 ≤ image.length
        · have hplaced : Placed image header := ⟨hsize, hdata⟩
          rw [if_pos (Nat.lt_of_le_of_lt hdata himage), if_pos hplaced]
          show OptionT.run (if _ ≤ image.length then pure _ else failure) = _
          rw [if_pos hdata]
          rfl
        · have hnot : ¬ Placed image header := fun h => hdata h.2
          rw [if_neg hnot]
          split
          · show OptionT.run (if _ ≤ image.length then pure _ else failure) = _
            rw [if_neg hdata]
            rfl
          · rfl
      · rw [if_neg hsize, if_neg (hshort 40 (by decide) hsize)]
    · rw [if_neg hoffset, if_neg (hshort 32 (by decide) hoffset)]
  · rw [if_neg haddress, if_neg (hshort 24 (by decide) haddress)]

/-- The headers that follow one inside the image are not past the last address either. -/
def Addressable (image : Bytes) : Prop := image.length + Nat.pow 256 2 < bound

theorem run_sectionAt (himage : Addressable image) {header : Nat} :
    (sectionAt image header).run =
      if header + 8 < bound then
        .ok (if Fits image header then some (sectionOf image header) else none)
      else .error .add := by
  have hlarge : 1000 < Nat.pow 256 2 := by decide
  rw [Addressable] at himage
  rw [sectionAt, run_fieldAt header (by decide) (rfl : 4 + 4 = 8)]
  split
  · by_cases hkind : header + 8 ≤ image.length
    · rw [if_pos hkind]
      by_cases hprogbits : field image (header + 4) 4 = progbits
      · have hfits : Fits image header ↔ Placed image header := by simp [Fits, hkind, hprogbits]
        rw [if_neg (not_not_intro hprogbits), sectionOf, if_pos hprogbits]
        simp only [hfits]
        exact run_placement (by omega) (by omega)
      · have hfits : Fits image header := ⟨hkind, fun h => absurd h hprogbits⟩
        rw [if_pos hprogbits, if_pos hfits, sectionOf, if_neg hprogbits]
        rfl
    · rw [if_neg hkind, if_neg fun h => hkind h.1]
  · rfl

/-! ## The table of headers -/

def entryAt (image : Bytes) (index : Nat) : Reading (Option Section) := do
  sectionAt image (← checked (headerAt image index))

theorem run_entryAt (himage : Addressable image) {index : Nat}
    (hindex : headerAt image index + 8 < bound) :
    (entryAt image index).run = .ok (if Fits image (headerAt image index) then
      some (sectionOf image (headerAt image index)) else none) := by
  rw [entryAt, run_bind, run_checked, if_pos (by omega)]
  show (sectionAt image (headerAt image index)).run = _
  rw [run_sectionAt himage, if_pos hindex]

/-- Behind a header that lies inside the image, the next one does not overflow. -/
theorem Fits.next {index : Nat} (h : Fits image (headerAt image index))
    (himage : Addressable image) :
    headerAt image (index + 1) + 8 < bound := by
  have hsize : entrySize image < Nat.pow 256 2 := field_lt image 0x3a 2
  have hnext : headerAt image (index + 1) = headerAt image index + entrySize image := by
    rw [headerAt, headerAt, Nat.succ_mul, Nat.add_assoc]
  have hinside := h.1
  rw [Addressable] at himage
  omega

/-- **The headers one after another.**  If the first one does not overflow, none of them does, and
there is something to read exactly if all of them lie inside the image. -/
theorem run_entries (himage : Addressable image) {n start : Nat}
    (hstart : headerAt image start + 8 < bound) :
    ((range' start n).mapM (entryAt image)).run =
      .ok (if ∀ i ∈ range' start n, Fits image (headerAt image i) then
        some ((range' start n).map fun i => sectionOf image (headerAt image i)) else none) := by
  induction n generalizing start with
  | zero => rfl
  | succ n ih =>
    rw [range'_succ, mapM_cons, run_bind, run_entryAt himage hstart]
    simp only [forall_mem_cons]
    by_cases hfits : Fits image (headerAt image start)
    · rw [if_pos hfits]
      show (_ >>= fun _ => _ : Reading (List (Option Section))).run = _
      rw [run_bind, ih (hfits.next himage)]
      by_cases hrest : ∀ i ∈ range' (start + 1) n, Fits image (headerAt image i)
      · rw [if_pos hrest, if_pos ⟨hfits, hrest⟩]
        rfl
      · rw [if_neg hrest, if_neg fun h => hrest h.2]
        rfl
    · rw [if_neg hfits, if_neg fun h => hfits h.1]
      rfl

/-- The image begins as one with sections, and its headers are not too small. -/
def Tabled (image : Bytes) : Prop := hasHeader image = true ∧ headerSize ≤ entrySize image

/-- The first header begins less than eight bytes before the last address. -/
def Overruns (image : Bytes) : Prop := Tabled image ∧ 0 < count image ∧ bound ≤ table image + 8

/-- The headers of an image and their data lie inside it. -/
def Legible (image : Bytes) : Prop :=
  Tabled image ∧ ∀ i < count image, Fits image (headerAt image i)

instance : Decidable (Tabled image) := inferInstanceAs (Decidable (_ ∧ _))
instance : Decidable (Overruns image) := inferInstanceAs (Decidable (_ ∧ _))
instance : Decidable (Legible image) := inferInstanceAs (Decidable (_ ∧ _))

def held (image : Bytes) : List Section :=
  (range (count image)).filterMap fun i => sectionOf image (headerAt image i)

theorem run_table (himage : Addressable image) (h : Tabled image) :
    ((range (count image)).mapM (entryAt image) >>= fun entries =>
      pure (entries.filterMap id) : Reading (List Section)).run =
      if Overruns image then .error .add
      else .ok (if Legible image then some (held image) else none) := by
  have hfirst : headerAt image 0 = table image := by rw [headerAt, Nat.zero_mul, Nat.add_zero]
  have hlegible : Legible image ↔ ∀ i ∈ range' 0 (count image), Fits image (headerAt image i) := by
    simp [Legible, h, mem_range']
  rw [run_bind, range_eq_range']
  by_cases hoverruns : Overruns image
  · obtain ⟨-, hcount, hlast⟩ := hoverruns
    obtain ⟨n, hn⟩ : ∃ n, count image = n + 1 := ⟨count image - 1, by omega⟩
    have htable : headerAt image 0 < bound := hfirst ▸ field_lt image 0x28 8
    have hentry : (entryAt image 0).run = .error .add := by
      rw [entryAt, run_bind, run_checked, if_pos htable]
      show (sectionAt image (headerAt image 0)).run = _
      rw [run_sectionAt himage, if_neg (by omega)]
    rw [if_pos ⟨h, hcount, hlast⟩, hn, range'_succ, mapM_cons, run_bind, hentry]
    rfl
  · rw [if_neg hoverruns]
    have hentries : ((range' 0 (count image)).mapM (entryAt image)).run = .ok (if Legible image then
          some ((range' 0 (count image)).map fun i => sectionOf image (headerAt image i))
          else none) := by
      simp only [hlegible]
      by_cases hcount : 0 < count image
      · have hstart : headerAt image 0 + 8 < bound := by
          rw [hfirst]
          exact Nat.not_le.1 fun hlast => hoverruns ⟨h, hcount, hlast⟩
        exact run_entries himage hstart
      · rw [Nat.eq_zero_of_not_pos hcount]
        rfl
    rw [hentries]
    by_cases hall : Legible image
    · rw [if_pos hall, if_pos hall, held, range_eq_range']
      show Except.ok (some (filterMap id (map _ _))) = _
      rw [filterMap_map]
      rfl
    · rw [if_neg hall, if_neg hall]
      rfl

theorem run_readSections (himage : Addressable image) : (readSections image).run =
      if Overruns image then .error .add
      else .ok (if Legible image then some (held image) else none) := by
  have hnone (h : ¬ Tabled image) : (if Overruns image then Except.error Overflow.add
      else .ok (if Legible image then some (held image) else none)) = .ok none := by
    rw [if_neg fun ho => h ho.1, if_neg fun hl => h hl.1]
  rw [readSections]
  by_cases hheader : hasHeader image = true
  · have hlength : 64 ≤ image.length := by
      rw [hasHeader, Bool.and_eq_true] at hheader
      exact of_decide_eq_true hheader.1
    have hnumber (start size : Nat) (hsize : 0 < size) (hstop : start + size ≤ 64) :
        (number image start size).run = .ok (some (field image start size)) := by
      have hbound : 64 < bound := by decide
      rw [run_number _ _ hsize, if_pos (by omega), if_pos (by omega)]
    have hread (f : Nat → Nat → Nat → Reading (List Section)) :
        (number image 0x28 8 >>= fun t => number image 0x3a 2 >>= fun s =>
          number image 0x3c 2 >>= fun n => f t s n).run =
        (f (table image) (entrySize image) (count image)).run := by
      simp only [run_bind, hnumber 0x28 8 (by decide) (by decide),
        hnumber 0x3a 2 (by decide) (by decide),
        hnumber 0x3c 2 (by decide) (by decide)]
      rfl
    simp only [hheader, Bool.not_true, Bool.false_eq_true, if_false]
    rw [hread]
    by_cases hsize : headerSize ≤ entrySize image
    · rw [if_neg (by omega)]
      exact run_table himage ⟨hheader, hsize⟩
    · rw [if_pos (by omega), hnone fun h => hsize h.2]
      rfl
  · rw [hnone fun h => hheader h.1]
    rw [Bool.not_eq_true] at hheader
    rw [hheader]
    rfl

theorem Addressable.sections?_eq (himage : Addressable image) :
    sections? image =
      if Overruns image then .error .add
      else .ok (if Legible image then
        some ((held image).mergeSort fun a b => decide (a.addr ≤ b.addr)) else none) := by
  rw [sections?, run_readSections himage]
  split
  · rfl
  · split <;> rfl

theorem sections?_eq (himage : InMemory image) :
    sections? image =
      if Overruns image then .error .add
      else .ok (if Legible image then
        some ((held image).mergeSort fun a b => decide (a.addr ≤ b.addr)) else none) :=
  Addressable.sections?_eq <| by
    have hbound : Nat.pow 2 63 + Nat.pow 256 2 < bound := by decide
    rw [InMemory] at himage
    rw [Addressable]
    omega

end Image

namespace Snapshot

/-! ## Windows past the last address -/

variable {start base : Nat} {begun pairs : List (UInt8 × UInt8)}

theorem windowsFrom_begun (hbegun : begun.length < windowSize) :
    windowsFrom start begun pairs = if begun = [] ∧ pairs = [] then [] else
      ⟨start, begun.reverse ++ pairs.take (windowSize - begun.length)⟩ ::
        windowsFrom (start + windowSize) [] (pairs.drop (windowSize - begun.length)) := by
  induction pairs generalizing begun with
  | nil => cases begun <;> simp [windowsFrom]
  | cons pair pairs ih =>
    rw [if_neg (by simp), windowsFrom]
    by_cases hfull : begun.length + 1 = windowSize
    · have hone : windowSize - begun.length = 1 := by omega
      rw [if_pos hfull, hone]
      simp
    · obtain ⟨n, hn⟩ : ∃ n, windowSize - begun.length = n + 1 :=
        ⟨windowSize - begun.length - 1, by omega⟩
      have hrest : windowSize - (pair :: begun).length = n := by rw [length_cons]; omega
      rw [if_neg hfull, ih (by rw [length_cons]; omega), if_neg (by simp), hrest, hn]
      simp

theorem windowsFrom_eq (hpairs : pairs ≠ []) : windowsFrom base [] pairs =
      ⟨base, pairs.take windowSize⟩ :: windowsFrom (base + windowSize) []
        (pairs.drop windowSize) := by
  rw [windowsFrom_begun (by decide), if_neg fun h => hpairs h.2]
  rfl

theorem mem_changes_cons {c : Change} {w : Window} {ws : List Window} :
    c ∈ changes (w :: ws) ↔ ((∃ p ∈ w.pairs, p.1 ≠ p.2) ∧ c = w.change) ∨ c ∈ changes ws := by
  have hequal : w.isEqual = true ↔ ¬ ∃ p ∈ w.pairs, p.1 ≠ p.2 := by simp [Window.isEqual]
  rw [changes_cons]
  by_cases hw : w.isEqual = true
  · rw [if_pos hw]
    simp [hequal.1 hw]
  · rw [if_neg hw, mem_cons]
    simp [not_not.1 (mt hequal.2 hw)]

/-- There is a change at or past an address exactly if a byte changes in a window that starts there.
-/
theorem exists_change_iff {n : Nat} : (∃ c ∈ changes (windowsFrom base [] pairs), n ≤ c.addr) ↔
      ∃ i p, pairs[i]? = some p ∧ p.1 ≠ p.2 ∧ n ≤ base + i / windowSize * windowSize := by
  have hnext (i : Nat) :
      (windowSize + i) / windowSize * windowSize = windowSize + i / windowSize * windowSize := by
    rw [Nat.add_div_left _ (by decide), Nat.succ_mul, Nat.add_comm]
  induction hlength : pairs.length using Nat.strongRecOn generalizing base pairs with
  | ind k ih =>
    by_cases hpairs : pairs = []
    · subst hpairs
      simp [windowsFrom, changes]
    · have hpos : 0 < pairs.length := length_pos_iff.2 hpairs
      have hrest := @ih (pairs.drop windowSize).length (by
        have hsize : 0 < windowSize := by decide
        rw [length_drop]
        omega) (base + windowSize) _ rfl
      rw [windowsFrom_eq hpairs]
      simp only [mem_changes_cons]
      constructor
      · rintro ⟨c, ⟨⟨p, hp, hne⟩, rfl⟩ | hc, hn⟩
        · obtain ⟨i, hi⟩ := mem_iff_getElem?.1 hp
          rw [getElem?_take] at hi
          split at hi
          · rename_i hlt
            exact ⟨i, p, hi, hne, by rw [Nat.div_eq_of_lt hlt, Nat.zero_mul]; exact hn⟩
          · cases hi
        · obtain ⟨i, p, hp, hne, hn⟩ := hrest.1 ⟨c, hc, hn⟩
          rw [getElem?_drop] at hp
          exact ⟨windowSize + i, p, hp, hne, by rw [hnext, ← Nat.add_assoc]; exact hn⟩
      · rintro ⟨i, p, hp, hne, hn⟩
        by_cases hlt : i < windowSize
        · rw [Nat.div_eq_of_lt hlt, Nat.zero_mul] at hn
          have hmem : p ∈ pairs.take windowSize :=
            mem_iff_getElem?.2 ⟨i, by rw [getElem?_take, if_pos hlt, hp]⟩
          exact ⟨_, .inl ⟨⟨p, hmem, hne⟩, rfl⟩, hn⟩
        · obtain ⟨j, rfl⟩ := Nat.exists_eq_add_of_le (Nat.not_lt.1 hlt)
          rw [hnext, ← Nat.add_assoc] at hn
          obtain ⟨c, hc, hn⟩ := hrest.2 ⟨j, p, by rw [getElem?_drop, hp], hne, hn⟩
          exact ⟨c, .inr hc, hn⟩

/-- A byte changes in a window past the last address. -/
def Beyond (a b : Section) : Prop :=
  ∃ (i : Nat) (x y : UInt8), a.data[i]? = some x ∧ b.data[i]? = some y ∧ x ≠ y ∧
    bound ≤ a.addr + i / windowSize * windowSize

theorem diffBytes_overflows_iff {a b : Section} :
    (∃ o, diffBytes a.addr a.data b.data = .error o) ↔ Beyond a b := by
  have hbytes : (∃ o, diffBytes a.addr a.data b.data = .error o) ↔
      ∃ c ∈ changes (windowsFrom a.addr [] (a.data.zip b.data)), bound ≤ c.addr := by
    rw [diffBytes_eq]
    split
    · rename_i hfits
      simpa using hfits
    · rename_i hfits
      simpa using hfits
  rw [hbytes, exists_change_iff, Beyond]
  refine exists_congr fun i => ?_
  simp only [Prod.exists, getElem?_zip_eq_some, and_assoc]

/-! ## Sections that are compared -/

/-- Two sections are at one address, and in the order of their lists the same one there. -/
def Partners (old new : List Section) (a b : Section) : Prop :=
  (a, b) ∈ (old.filter (·.addr = a.addr)).zip (new.filter (·.addr = a.addr))

variable {a b c d : Section} {old new : List Section}

instance : Decidable (Partners old new a b) := inferInstanceAs (Decidable (_ ∈ _))

theorem filter_addr_eq_nil {n : Nat} (hold : old.Pairwise fun s t => s.addr ≤ t.addr)
    (h : ∀ s ∈ old.head?, n < s.addr) : old.filter (·.addr = n) = [] := by
  cases old with
  | nil => rfl
  | cons s old =>
    have hs : n < s.addr := h s rfl
    have hrest := (pairwise_cons.1 hold).1
    simp only [filter_eq_nil_iff, forall_mem_cons, decide_eq_true_eq]
    exact ⟨by omega, fun t ht => by have := hrest t ht; omega⟩

theorem partners_of_lt (hnew : (b :: new).Pairwise fun s t => s.addr ≤ t.addr)
    (h : a.addr < b.addr) :
    Partners (a :: old) (b :: new) c d ↔ Partners old (b :: new) c d := by
  rw [Partners, Partners]
  by_cases hc : a.addr = c.addr
  · have hnone : (b :: new).filter (·.addr = c.addr) = [] :=
      filter_addr_eq_nil hnew (by simpa [← hc] using h)
    rw [hnone, zip_nil_right, zip_nil_right]
  · rw [filter_cons_of_neg (by simpa using hc)]

theorem partners_of_gt (hold : (a :: old).Pairwise fun s t => s.addr ≤ t.addr)
    (h : b.addr < a.addr) :
    Partners (a :: old) (b :: new) c d ↔ Partners (a :: old) new c d := by
  rw [Partners, Partners]
  by_cases hc : b.addr = c.addr
  · have hnone : (a :: old).filter (·.addr = c.addr) = [] :=
      filter_addr_eq_nil hold (by simpa [← hc] using h)
    rw [hnone, zip_nil_left, zip_nil_left]
  · have hskip : (b :: new).filter (·.addr = c.addr) = new.filter (·.addr = c.addr) :=
      filter_cons_of_neg (by simpa using hc)
    rw [hskip]

theorem partners_of_eq (h : a.addr = b.addr) :
    Partners (a :: old) (b :: new) c d ↔ (c = a ∧ d = b) ∨ Partners old new c d := by
  rw [Partners, Partners, filter_cons, filter_cons, ← h]
  by_cases hc : a.addr = c.addr
  · simp [hc]
  · have hne : c ≠ a := by
      rintro rfl
      exact hc rfl
    simp [hc, hne]

theorem map_isError_iff {α β : Type} {f : α → β} {x : Except Overflow α} :
    (∃ o, x.map f = .error o) ↔ ∃ o, x = .error o := by
  cases x <;> simp [Except.map]

/-- **Sections that are compared.**  The comparison overflows exactly if it does for two partners.
-/
theorem diffSections_overflows_iff (hold : old.Pairwise fun s t => s.addr ≤ t.addr)
    (hnew : new.Pairwise fun s t => s.addr ≤ t.addr) :
    (∃ o, diffSections old new = .error o) ↔ ∃ a b, Partners old new a b ∧ Beyond a b := by
  induction old generalizing new with
  | nil => simp [diffSections, Partners]
  | cons a old ih =>
    have hrest := (pairwise_cons.1 hold).2
    induction new with
    | nil =>
      rw [diffSections_nil, map_isError_iff, ih hrest hnew]
      simp [Partners]
    | cons b new ihnew =>
      rcases Nat.lt_trichotomy a.addr b.addr with h | h | h
      · rw [diffSections_of_gt h, map_isError_iff, ih hrest hnew]
        simp only [partners_of_lt hnew h]
      · have hfirst : (∃ c d, Partners (a :: old) (b :: new) c d ∧ Beyond c d) ↔
            Beyond a b ∨ ∃ c d, Partners old new c d ∧ Beyond c d := by
          simp only [partners_of_eq h, or_and_right, exists_or]
          simp
        rw [hfirst, ← ih hrest (pairwise_cons.1 hnew).2, ← diffBytes_overflows_iff,
          diffSections_of_eq h]
        cases diffBytes a.addr a.data b.data with
        | error o => simp [Except.bind]
        | ok lines =>
          simp only [Except.bind, map_isError_iff]
          simp
      · rw [diffSections_of_lt h, map_isError_iff]
        simp only [partners_of_gt hold h]
        exact ihnew (pairwise_cons.1 hnew).2

theorem filter_mergeSort (l : List Section) (n : Nat) :
    (l.mergeSort fun a b => decide (a.addr ≤ b.addr)).filter (·.addr = n) =
      l.filter (·.addr = n) := by
  apply SortedList.filter_mergeSort <;> simp <;> omega

theorem partners_mergeSort : Partners (old.mergeSort fun a b => decide (a.addr ≤ b.addr))
      (new.mergeSort fun a b => decide (a.addr ≤ b.addr)) a b ↔ Partners old new a b := by
  rw [Partners, Partners, filter_mergeSort, filter_mergeSort]

theorem pairwise_mergeSort (l : List Section) :
    (l.mergeSort fun a b => decide (a.addr ≤ b.addr)).Pairwise fun a b => a.addr ≤ b.addr := by
  have hsorted : (l.mergeSort fun a b => decide (a.addr ≤ b.addr)).Pairwise
      fun a b => decide (a.addr ≤ b.addr) = true :=
    List.pairwise_mergeSort (by simp; omega) (by simp; omega) l
  simpa using hsorted

/-- **Where the comparison of images overflows.**  It does exactly if the first header of an image
begins less than eight bytes before the last address, or a byte of two sections that are compared
changes in a window past that address. An image whose headers, as far as they are read, or data do
not lie inside it has no sections, and then the images are compared as they are. -/
theorem overflows_iff {x y : Bytes} (hx : InMemory x) (hy : InMemory y) :
    ((∃ o, diff x y = .error o) ↔
      Overruns x ∨ Overruns y ∨ Legible x ∧ Legible y ∧
        ∃ a b, Partners (held x) (held y) a b ∧ Beyond a b) ∧
    (∀ z ∈ [x, y], ¬ Overruns z → ¬ Legible z → sections? z = .ok none) ∧
    (¬ Overruns x → ¬ Overruns y → ¬ (Legible x ∧ Legible y) →
      diff x y = diffRaw x y) := by
  have hnone {z : Bytes} (hz : InMemory z) (ho : ¬ Overruns z) (hl : ¬ Legible z) :
      sections? z = .ok none := by
    rw [sections?_eq hz, if_neg ho, if_neg hl]
  have hsome {z : Bytes} (hz : InMemory z) (ho : ¬ Overruns z) (hl : Legible z) :
      sections? z =
        .ok (some ((held z).mergeSort fun a b => decide (a.addr ≤ b.addr))) := by
    rw [sections?_eq hz, if_neg ho, if_pos hl]
  have hraw (hox : ¬ Overruns x) (hoy : ¬ Overruns y)
      (hl : ¬ (Legible x ∧ Legible y)) : diff x y = diffRaw x y := by
    by_cases hlx : Legible x
    · exact diff_of_raw (hsome hx hox hlx) (hnone hy hoy fun hly => hl ⟨hlx, hly⟩) (.inr rfl)
    · exact diff_of_raw (hnone hx hox hlx) (sections?_eq hy ▸ if_neg hoy) (.inl rfl)
  refine ⟨?_, ?_, hraw⟩
  · by_cases hox : Overruns x
    · have hdiff : diff x y = .error .add := by
        rw [diff, sections?_eq hx, if_pos hox]
        rfl
      exact ⟨fun _ => .inl hox, fun _ => ⟨_, hdiff⟩⟩
    · by_cases hoy : Overruns y
      · have hdiff : diff x y = .error .add := by
          rw [diff, sections?_eq hx, if_neg hox, sections?_eq hy, if_pos hoy]
          rfl
        exact ⟨fun _ => .inr (.inl hoy), fun _ => ⟨_, hdiff⟩⟩
      · simp only [hox, hoy, false_or]
        by_cases hl : Legible x ∧ Legible y
        · rw [diff_of_sections (hsome hx hox hl.1) (hsome hy hoy hl.2),
            diffSections_overflows_iff (pairwise_mergeSort _) (pairwise_mergeSort _)]
          simp only [partners_mergeSort, hl.1, hl.2, true_and]
        · -- Compared as they are, the images begin at address zero and end inside the words.
          have hfits : x.length ≤ bound := Nat.le_of_lt (Nat.lt_trans hx (by decide))
          rw [hraw hox hoy hl, diffRaw_of_fits hfits]
          simpa using fun hlx hly => absurd ⟨hlx, hly⟩ hl
  · intro z hz ho hl
    rcases mem_cons.1 hz with rfl | hz
    · exact hnone hx ho hl
    · obtain rfl := mem_singleton.1 hz
      exact hnone hy ho hl

/-- An image with one section, the last byte of which is in a window past the last address. -/
def farImage (last : UInt8) : Bytes :=
  ofSections [(progbits, ⟨bound - 16, replicate 16 0 ++ [last]⟩)]

/-- A header alone, which says that the headers of the sections begin at `table`. -/
def bareImage (table : Nat) : Bytes :=
  magic ++ [2, 1] ++ replicate 34 0 ++ wordBytes 8 table ++ replicate 10 0 ++
    wordBytes 2 headerSize ++ wordBytes 2 1 ++ replicate 2 0

theorem overflows_far :
    (∃ o, diff (farImage 0) (farImage 1) = .error o) ∧
      diff (bareImage 64) (farImage 1) = diffRaw (bareImage 64) (farImage 1) := by
  have hbeyond : Beyond ⟨bound - 16, replicate 16 0 ++ [0]⟩
      ⟨bound - 16, replicate 16 0 ++ [1]⟩ := ⟨16, 0, 1, by decide +kernel⟩
  refine ⟨(overflows_iff (by decide +kernel) (by decide +kernel)).1.2 (.inr (.inr ?_)),
    (overflows_iff (by decide +kernel) (by decide +kernel)).2.2 (by decide +kernel)
      (by decide +kernel) (by decide +kernel)⟩
  exact ⟨by decide +kernel, by decide +kernel, _, _, by decide +kernel, hbeyond⟩

theorem bareImage_overflows :
    diff (bareImage (bound - 8)) (bareImage (bound - 8)) = .error .add ∧
      diff (bareImage (bound - 9)) (bareImage (bound - 9)) = .ok [] := by
  decide +kernel

end Snapshot

end PatchTriage
