import PatchTriage.Proofs.ImageBounds

/-!
# Reading an image that was written

An image is written as a header, the data of the sections one after another, and the headers of the
sections (`Image.ofSections`). Bytes that were written at a place stand there (`Image.Holds`), and
so do the parts they are made of. Hence every header gives its section back
(`Image.sectionOf_ofSections`), and the image all sections of program data
(`Image.sections?_ofSections`).
-/

namespace PatchTriage.Image

open List

variable {image a b bytes : Bytes} {start size n offset kind : Nat} {s : Section}
  {entries before after : List (Nat × Section)}

/-! ## Bytes at a place -/

@[simp]
theorem length_wordBytes (size n : Nat) : (wordBytes size n).length = size := by simp [wordBytes]

theorem wordBytes_succ (size n : Nat) :
    wordBytes (size + 1) n = UInt8.ofNat n :: wordBytes size (n / 256) := by
  simp [wordBytes, range_succ_eq_map, Nat.pow_succ', Nat.div_div_eq_div_mul]

theorem littleEndian_wordBytes (hn : n < Nat.pow 256 size) :
    littleEndian (wordBytes size n) = n := by
  induction size generalizing n with
  | zero =>
    have hzero : n = 0 := by simpa using hn
    rw [hzero]
    rfl
  | succ size ih =>
    have hpow : Nat.pow 256 (size + 1) = Nat.pow 256 size * 256 := rfl
    have hrest : n / 256 < Nat.pow 256 size := by omega
    have hfirst : (UInt8.ofNat n).toNat = n % 256 := UInt8.toNat_ofNat'
    rw [wordBytes_succ, littleEndian, foldr_cons, hfirst]
    have hn := ih hrest
    rw [littleEndian] at hn
    omega

def Holds (image : Bytes) (start : Nat) (bytes : Bytes) : Prop := bytes <+: image.drop start

namespace Holds

theorem left (h : Holds image start (a ++ b)) : Holds image start a := (prefix_append a b).trans h

theorem right (h : Holds image start (a ++ b)) : Holds image (start + a.length) b := by
  obtain ⟨rest, hrest⟩ := h
  refine ⟨rest, ?_⟩
  rw [← drop_drop, ← hrest, append_assoc, drop_left]

theorem take_eq (h : Holds image start bytes) : (image.drop start).take bytes.length = bytes :=
  (prefix_iff_eq_take.1 h).symm

theorem length_le (h : Holds image start bytes) (hbytes : 0 < bytes.length) :
    start + bytes.length ≤ image.length := by
  have hlength : bytes.length ≤ (image.drop start).length := IsPrefix.length_le h
  rw [length_drop] at hlength
  omega

theorem field_eq (h : Holds image start (wordBytes size n)) (hn : n < Nat.pow 256 size) :
    field image start size = n := by
  have htake := h.take_eq
  rw [length_wordBytes] at htake
  rw [field, htake, littleEndian_wordBytes hn]

end Holds

/-! ## The headers of sections -/

@[simp]
theorem length_sectionHeader : (sectionHeader kind s offset).length = headerSize := by
  simp [sectionHeader, headerSize]

@[simp]
theorem length_sectionHeaders :
    (sectionHeaders offset entries).length = entries.length * headerSize := by
  induction entries generalizing offset with
  | nil => simp [sectionHeaders]
  | cons e rest ih => simp [sectionHeaders, ih, Nat.succ_mul, Nat.add_comm]

def contents (entries : List (Nat × Section)) : Bytes := entries.flatMap fun e => e.2.data

theorem sectionHeaders_append :
    sectionHeaders offset (before ++ after) =
      sectionHeaders offset before ++ sectionHeaders (offset + (contents before).length) after := by
  induction before generalizing offset with
  | nil => rfl
  | cons e rest ih => simp [sectionHeaders, contents, ih, Nat.add_assoc]

theorem field_sectionHeader (h : Holds image start (sectionHeader kind s offset))
    (hkind : kind < Nat.pow 256 4) (haddr : s.addr < Nat.pow 256 8)
    (hoffset : offset < Nat.pow 256 8) (hsize : s.data.length < Nat.pow 256 8) :
    field image (start + 4) 4 = kind ∧ field image (start + 16) 8 = s.addr ∧
    field image (start + 24) 8 = offset ∧ field image (start + 32) 8 = s.data.length := by
  rw [sectionHeader] at h
  refine ⟨Holds.field_eq ?_ hkind, Holds.field_eq ?_ haddr, Holds.field_eq ?_ hoffset,
    Holds.field_eq ?_ hsize⟩
  · simpa using h.left.left.left.left.left.right
  · simpa using h.left.left.left.right
  · simpa using h.left.left.right
  · simpa using h.left.right

/-! ## The image -/

/-- The sections fit into an image: kinds have 32 bits, addresses 64, and there are not too many
sections or data. -/
def Writable (entries : List (Nat × Section)) : Prop :=
  entries.length ≤ 65535 ∧ (contents entries).length < Nat.pow 2 63 ∧
    ∀ e ∈ entries, e.1 < Nat.pow 2 32 ∧ e.2.addr < Nat.pow 2 64

instance : Decidable (Writable entries) := inferInstanceAs (Decidable (_ ∧ _))

theorem holds_ofSections (entries : List (Nat × Section)) :
    Holds (ofSections entries) 0x28 (wordBytes 8 (headerSize + (contents entries).length)) ∧
    Holds (ofSections entries) 0x3a (wordBytes 2 headerSize) ∧
    Holds (ofSections entries) 0x3c (wordBytes 2 entries.length) ∧
    Holds (ofSections entries) headerSize (contents entries) ∧
    Holds (ofSections entries) (headerSize + (contents entries).length)
      (sectionHeaders headerSize entries) := by
  obtain ⟨image, himage⟩ : ∃ image, image = ofSections entries := ⟨_, rfl⟩
  have h : Holds image 0 (ofSections entries) := himage ▸ prefix_rfl
  rw [ofSections] at h
  rw [← himage]
  refine ⟨h.left.left.left.left.left.left.right, h.left.left.left.left.right,
    h.left.left.left.right,
    h.left.right, ?_⟩
  have hheaders := h.right
  rw [length_append, ← Nat.add_assoc] at hheaders
  exact hheaders

theorem length_ofSections (entries : List (Nat × Section)) : (ofSections entries).length =
      headerSize + (contents entries).length + entries.length * headerSize := by
  simp only [ofSections, contents, length_append, length_wordBytes, length_sectionHeaders,
    length_replicate]
  rfl

/-- What the header of the image says of the headers of the sections. -/
theorem Writable.table_eq (h : Writable entries) :
    table (ofSections entries) = headerSize + (contents entries).length ∧
    entrySize (ofSections entries) = headerSize ∧ count (ofSections entries) = entries.length := by
  obtain ⟨htable, hsize, hcount, -, -⟩ := holds_ofSections entries
  obtain ⟨hmany, hdata, -⟩ := h
  have hbound : headerSize + Nat.pow 2 63 < Nat.pow 256 8 := by decide
  have hpow : Nat.pow 256 2 = 65536 := rfl
  exact ⟨htable.field_eq (by omega), hsize.field_eq (by decide), hcount.field_eq (by omega)⟩

theorem Writable.sectionOf_eq (h : Writable (before ++ (kind, s) :: after)) {header : Nat}
    (hheader : header = headerSize + (contents (before ++ (kind, s) :: after)).length +
      before.length * headerSize) :
    let image := ofSections (before ++ (kind, s) :: after)
    Fits image header ∧ sectionOf image header = if kind = progbits then some s else none := by
  intro image
  obtain ⟨-, -, -, hdata, hheaders⟩ := holds_ofSections (before ++ (kind, s) :: after)
  obtain ⟨-, hsize, hwords⟩ := h
  have hcontents : contents (before ++ (kind, s) :: after) =
      contents before ++ (s.data ++ contents after) := by simp [contents]
  rw [sectionHeaders_append, sectionHeaders] at hheaders
  have hwritten := hheaders.right.left
  rw [length_sectionHeaders, ← hheader] at hwritten
  obtain ⟨hkind, haddr⟩ : kind < Nat.pow 256 4 ∧ s.addr < Nat.pow 256 8 :=
    hwords (kind, s) (by simp)
  have hlength := congrArg length hcontents
  rw [length_append, length_append] at hlength
  have hbound : headerSize + Nat.pow 2 63 < Nat.pow 256 8 := by decide
  obtain ⟨hk, ha, ho, hs⟩ := field_sectionHeader hwritten hkind haddr (by omega) (by omega)
  have hinside : header + headerSize ≤ image.length := by
    simpa using hwritten.length_le (by rw [length_sectionHeader]; decide)
  have h64 : headerSize = 64 := rfl
  constructor
  · rw [Fits, Placed, ho, hs]
    omega
  · rw [hcontents] at hdata
    rw [sectionOf, dataOf, hk, ha, ho, hs, hdata.right.left.take_eq]

theorem Writable.entry_eq (h : Writable entries) {i : Nat} (hi : i < entries.length) :
    let image := ofSections entries
    Fits image (headerAt image i) ∧ sectionOf image (headerAt image i) =
      if entries[i].1 = progbits then some entries[i].2 else none := by
  have hsplit : entries.take i ++ (entries[i].1, entries[i].2) ::
      entries.drop (i + 1) = entries := by
    rw [← drop_eq_getElem_cons hi, take_append_drop]
  have hheader : headerAt (ofSections entries) i =
      headerSize + (contents entries).length + (entries.take i).length * headerSize := by
    rw [headerAt, h.table_eq.1, h.table_eq.2.1, length_take_of_le hi.le]
  rw [← hsplit] at h
  have hsection := h.sectionOf_eq rfl
  rwa [hsplit, ← hheader] at hsection

def programData (entries : List (Nat × Section)) : List Section :=
  entries.filterMap fun e => if e.1 = progbits then some e.2 else none

theorem Writable.held_eq (h : Writable entries) :
    held (ofSections entries) = programData entries := by
  have hmap : (range entries.length).map
      (fun i => sectionOf (ofSections entries) (headerAt (ofSections entries) i)) =
      entries.map fun e => if e.1 = progbits then some e.2 else none := by
    refine ext_getElem (by simp) fun i hi hi' => ?_
    rw [length_map] at hi'
    simpa using (h.entry_eq hi').2
  rw [held, h.table_eq.2.2, programData]
  simpa only [filterMap_map, Function.id_comp] using congrArg (filterMap id) hmap

theorem Writable.legible (h : Writable entries) : Legible (ofSections entries) := by
  obtain ⟨htable, hsize, hcount⟩ := h.table_eq
  have hlength : 64 ≤ (ofSections entries).length := by
    rw [length_ofSections, headerSize]
    omega
  refine ⟨⟨?_, hsize.ge⟩, ?_⟩
  · rw [hasHeader, decide_eq_true hlength, Bool.true_and, beq_iff_eq]
    rfl
  · intro i hi
    rw [hcount] at hi
    exact (h.entry_eq hi).1

/-- **Reading an image gives the written sections back.**  Of any sections with kinds of 32 bits and
addresses of 64, at most 65535 of them and with less than 2 ^ 63 bytes of data, those of program
data are found, whole and by address, those at one address in the order they were written. -/
theorem sections?_ofSections {entries : List (Nat × Section)} (h : Writable entries) :
    ∃ found, sections? (ofSections entries) = .ok (some found) ∧
      found.Perm (programData entries) ∧ found.Pairwise (fun a b => a.addr ≤ b.addr) ∧
      ∀ n, found.filter (·.addr = n) = (programData entries).filter (·.addr = n) := by
  have hbound : headerSize + Nat.pow 2 63 + 65535 * headerSize + Nat.pow 256 2 + 8 <
      Word.bound := by
    decide
  have hmany := h.1
  have hdata := h.2.1
  have haddressable : Addressable (ofSections entries) := by
    rw [Addressable, length_ofSections]
    simp only [headerSize] at *
    omega
  have hstart : ¬ Overruns (ofSections entries) := by
    rintro ⟨-, -, hlast⟩
    rw [h.table_eq.1] at hlast
    omega
  refine ⟨_, ?_, mergeSort_perm _ _, Snapshot.pairwise_mergeSort _, Snapshot.filter_mergeSort _⟩
  rw [haddressable.sections?_eq, if_neg hstart, if_pos h.legible, h.held_eq]

/-- Sections that are not in the order of their addresses, two of them at one address. -/
theorem sections?_unordered :
    let entries := [(1, ⟨0x2000, [1, 2]⟩), (8, ⟨0, [9]⟩), (1, ⟨0x1000, [3]⟩), (1, ⟨0x1000, []⟩)]
    Writable entries ∧ ∃ found, sections? (ofSections entries) = .ok (some found) ∧
      found.Perm [⟨0x2000, [1, 2]⟩, ⟨0x1000, [3]⟩, ⟨0x1000, []⟩] ∧
      found.Pairwise (fun a b => a.addr ≤ b.addr) ∧
      found.filter (·.addr = 0x1000) = [⟨0x1000, [3]⟩, ⟨0x1000, []⟩] := by
  intro entries
  have hwritable : Writable entries := by decide
  obtain ⟨found, hread, hperm, hsorted, hstable⟩ := sections?_ofSections hwritable
  exact ⟨hwritable, found, hread, hperm, hsorted, hstable 0x1000⟩

end PatchTriage.Image
