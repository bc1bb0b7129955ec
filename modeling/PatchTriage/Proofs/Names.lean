import PatchTriage.Partition
import PatchTriage.Proofs.Places
import PatchTriage.Proofs.Texts
import PatchTriage.Text.Quoting

/-!
# Names of directories

Recorded verdicts are filed under the name of a partition, the name of a test and a signature. The
name of a partition and a signature are always names of one directory (`Partition.isComponent_name`,
`Sha256.isComponent_hex`). The name of a test, made safe, has no separator in it
(`Text.slash_not_mem_pathSafe`), but it may be empty, `.` or `..`, and then it names no directory of
its own.
-/

namespace PatchTriage

open FileTree List Text

namespace Text

/-! ## Names made safe -/

theorem slash_not_mem_pathSafe (t : Text) : '/' ∉ pathSafe t := by
  intro h
  obtain ⟨c, -, hc⟩ := mem_map.1 h
  split at hc
  · rename_i hsafe
    subst hc
    revert hsafe
    decide
  · cases hc

theorem pieces_pathSafe (t : Text) :
    pieces (pathSafe t) = if pathSafe t = [] then [] else [pathSafe t] :=
  pieces_of_not_mem (slash_not_mem_pathSafe t)

theorem pathSafe_eq_self {t : Text} (h : ∀ c ∈ t, isPathSafe c = true) : pathSafe t = t := by
  have hid : ∀ c ∈ t, (if isPathSafe c = true then c else '_') = id c := fun c hc => if_pos (h c hc)
  rw [pathSafe, map_congr_left hid, map_id]

/-! ## Lower case -/

/-- The characters of a table as a list are read much faster than a text. -/
theorem readImages_ofList (l : List Char) :
    readImages (String.ofList l) = imagesFrom 0 (numbersFrom false 0 l) := by
  rw [readImages, String.toList_ofList]

theorem le_image_of_mem_smallImages : ∀ r ∈ smallImages, 97 ≤ (r.1.first : Int) + r.2 := by
  rw [smallImages, readImages_ofList]
  decide +kernel

/-- ASCII characters that change come after the first sixty-five, and become small letters. -/
theorem smallLetter_of_ascii {c : Char} (hc : c.toNat < 128) :
    smallLetter c = c ∨ 65 ≤ c.toNat ∧ 97 ≤ (smallLetter c).toNat := by
  have hall : ∀ n < 128, (Char.ofNat n).toLower = Char.ofNat n ∨
      65 ≤ n ∧ 97 ≤ (Char.ofNat n).toLower.toNat := by decide
  have h := hall c.toNat hc
  rw [Char.ofNat_toNat] at h
  rwa [smallLetter, if_pos hc]

theorem ofNat_ne {x : Char} (hx : x ≠ '\x00') {n : Nat} (hn : n ≠ x.toNat) : Char.ofNat n ≠ x := by
  by_cases hvalid : n.isValidChar
  · rw [Char.ofNat, dif_pos hvalid]
    intro h
    exact hn (congrArg Char.toNat h)
  · rw [Char.ofNat, dif_neg hvalid]
    exact hx.symm

theorem smallLetter_ne {x c : Char} (hx : x ≠ '\x00') (hlow : x.toNat < 97) (hc : c ≠ x) :
    smallLetter c ≠ x := by
  by_cases hascii : c.toNat < 128
  · rcases smallLetter_of_ascii hascii with h | ⟨-, h⟩
    · rwa [h]
    · rintro rfl
      omega
  · have himage := le_image_of_mem_smallImages
    rw [smallLetter, if_neg hascii]
    generalize smallImages = table at himage ⊢
    induction table with
    | nil => exact hc
    | cons r table ih =>
      obtain ⟨hr, htable⟩ := forall_mem_cons.1 himage
      rw [imageOf]
      split_ifs
      · exact hc
      · exact ofNat_ne hx (by omega)
      · exact ih htable

/-- Lower case brings in no character that comes before the small letters. -/
theorem mem_of_mem_lowercaseFrom {x : Char} (hx : x ≠ '\x00') (hlow : x.toNat < 97)
    {t before : Text}
    (h : x ∈ lowercaseFrom before t) : x ∈ t := by
  induction t generalizing before with
  | nil => exact h
  | cons c t ih =>
    rw [lowercaseFrom, mem_append] at h
    rcases h with h | h
    · by_contra hne
      rw [mem_cons, not_or] at hne
      have hsmall : smallLetter c ≠ x := smallLetter_ne hx hlow (Ne.symm hne.1)
      have hletter {y : Char} (hy : 97 ≤ y.toNat) : x ≠ y := by
        rintro rfl
        omega
      rw [lowerChar] at h
      split_ifs at h
      · exact hletter (by decide) (mem_singleton.1 h)
      · exact hletter (by decide) (mem_singleton.1 h)
      · rcases mem_cons.1 h with h | h
        · exact hletter (by decide) h
        · exact hletter (by decide) (mem_singleton.1 h)
      · exact hsmall (mem_singleton.1 h).symm
    · exact mem_cons_of_mem c (ih h)

theorem underscore_mem_lowercaseFrom {t : Text} (ht : '_' ∈ t) (before : Text) :
    '_' ∈ lowercaseFrom before t := by
  induction t generalizing before with
  | nil => cases ht
  | cons c t ih =>
    rw [lowercaseFrom, mem_append]
    rcases mem_cons.1 ht with rfl | ht
    · have hself : smallLetter '_' = '_' := by decide
      exact .inl (by simp [lowerChar, hself])
    · exact .inr (ih ht _)

theorem replace_char (a b : Char) (t : Text) :
    replace [a] [b] t = t.map fun c => if c = a then b else c := by
  rw [replace]
  induction t with
  | nil => rfl
  | cons c t ih =>
    rw [replaceFrom, map_cons]
    by_cases hc : c = a
    · simpa [startsWith, hc] using ih
    · have hne : ¬ a = c := fun h => hc h.symm
      simpa [startsWith, hc, hne] using ih

/-! ## Hexadecimal digits -/

def hexDigits : List Char := "0123456789abcdef".toList

theorem mem_hexDigits_of_mem_hexOfNat {n : Nat} {c : Char} (hc : c ∈ hexOfNat n) :
    c ∈ hexDigits := by
  have hdigit : ∀ d < 16, Nat.digitChar d ∈ hexDigits := by decide
  induction n using Nat.strongRecOn with
  | ind n ih =>
    by_cases hn : n < 16
    · rw [hexOfNat, Nat.toDigits_of_lt_base hn, mem_singleton] at hc
      exact hc ▸ hdigit n hn
    · rw [hexOfNat, Nat.toDigits_of_base_le (by decide) (by omega), mem_append, mem_singleton] at hc
      rcases hc with hc | rfl
      · exact ih (n / 16) (by omega) hc
      · exact hdigit _ (Nat.mod_lt _ (by decide))

theorem mem_hexDigits_of_mem_paddedHex {width n : Nat} {c : Char} (hc : c ∈ paddedHex width n) :
    c ∈ hexDigits := by
  rcases mem_append.1 hc with hc | hc
  · rw [(mem_replicate.1 hc).2]
    decide
  · exact mem_hexDigits_of_mem_hexOfNat hc

theorem paddedHex_ne_nil (width n : Nat) : paddedHex width n ≠ [] :=
  append_ne_nil_of_right_ne_nil _ Nat.toDigits_ne_nil

theorem isPathSafe_of_mem_hexDigits {c : Char} (hc : c ∈ hexDigits) : isPathSafe c = true := by
  have hall : hexDigits.all isPathSafe = true := by decide +kernel
  exact all_eq_true.1 hall c hc

end Text

/-! ## Signatures -/

theorem Bytes.mem_hexDigits {bytes : Bytes} {c : Char} (hc : c ∈ hex bytes) : c ∈ hexDigits := by
  obtain ⟨b, -, hb⟩ := mem_flatMap.1 hc
  exact mem_hexDigits_of_mem_paddedHex hb

theorem Bytes.hex_ne_nil {bytes : Bytes} (h : bytes ≠ []) : hex bytes ≠ [] := by
  obtain ⟨b, bytes, rfl⟩ := exists_cons_of_ne_nil h
  rw [hex, flatMap_cons]
  exact append_ne_nil_of_left_ne_nil (paddedHex_ne_nil 2 b.toNat) _

theorem Sha256.digest_ne_nil (message : Bytes) : digest message ≠ [] := by simp [digest, bigEndian]

theorem Sha256.isComponent_hex (message : Bytes) : IsComponent (hex message) := by
  have hmem {c : Char} (hc : c ∈ hex message) : c ∈ hexDigits := Bytes.mem_hexDigits hc
  refine ⟨Bytes.hex_ne_nil (digest_ne_nil message), fun h => ?_, fun h => ?_, fun h => ?_⟩
  · exact absurd (hmem h) (by decide)
  · exact absurd (hmem (c := '.') (by simp [h])) (by decide)
  · exact absurd (hmem (c := '.') (by simp [h])) (by decide)

theorem Sha256.pathSafe_hex (message : Bytes) : pathSafe (hex message) = hex message :=
  pathSafe_eq_self fun _ hc => isPathSafe_of_mem_hexDigits (Bytes.mem_hexDigits hc)

/-! ## Partitions -/

namespace Partition

/-- The name of a break point has neither of the two separators in it. -/
theorem not_mem_pointName {x : Char} (hx : x = '/' ∨ x = ':') (b : BreakPoint) :
    x ∉ pointName b := by
  intro h
  have hmem : x ∈ replace [':'] ['_'] (without '/' b.render) := by
    rcases hx with rfl | rfl <;> exact mem_of_mem_lowercaseFrom (by decide) (by decide) h
  rw [replace_char] at hmem
  obtain ⟨c, hc, heq⟩ := mem_map.1 hmem
  split at heq
  · subst heq
    exact absurd hx (by decide)
  · subst heq
    rcases hx with rfl | rfl <;> simp_all [without]

theorem underscore_mem_pointName (b : BreakPoint) : '_' ∈ pointName b := by
  refine underscore_mem_lowercaseFrom ?_ _
  show '_' ∈ replace [':'] ['_'] _
  rw [replace_char]
  refine mem_map.2 ⟨':', ?_, if_pos rfl⟩
  simp [without, BreakPoint.render]

theorem not_mem_joined {x : Char} (hx : x = '/' ∨ x = ':') (points : List BreakPoint) :
    x ∉ joined points := by
  intro h
  rcases mem_join h with h | ⟨t, ht, h⟩
  · rcases hx with rfl | rfl <;> exact absurd h (by decide)
  · obtain ⟨b, -, rfl⟩ := mem_map.1 ht
    exact not_mem_pointName hx b h

theorem underscore_mem_joined {points : List BreakPoint} (h : joined points ≠ []) :
    '_' ∈ joined points := by
  rw [joined] at h ⊢
  cases hl : SortedList.distinct BreakPoint.compare points with
  | nil => rw [hl] at h; exact absurd rfl h
  | cons b l => exact mem_join_cons (underscore_mem_pointName b) ..

/-- **A partition is named by one directory.** -/
theorem isComponent_name (points : List BreakPoint) : IsComponent (name points) := by
  rw [name]
  split
  · -- a digest, which has no separator in it and does not begin with a dot
    refine ⟨by simp, fun h => ?_, by simp, by simp⟩
    rcases mem_cons.1 h with h | h
    · cases h
    · exact (Sha256.isComponent_hex _).noSlash (mem_of_mem_take h)
  · split
    · exact ⟨by decide, by decide, by decide, by decide⟩
    · rename_i hne
      have hscore : '_' ∈ joined points := underscore_mem_joined (by simpa using hne)
      refine ⟨by simpa using hne, not_mem_joined (.inl rfl) points, fun h => ?_, fun h => ?_⟩
      · rw [h] at hscore; exact absurd hscore (by decide)
      · rw [h] at hscore; exact absurd hscore (by decide)

end Partition

end PatchTriage
