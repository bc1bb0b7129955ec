import Mathlib.Data.List.Chain
import PatchTriage.Proofs.FragmentMap
import PatchTriage.Proofs.Names

/-!
# Partitions

Patches are grouped by the name of the set of break points that they edit. The name is that of a
joined text, which can be read back if the names of the files have no two underscores next to each
other, but not in general (`Partition.locations_share_partition`).
-/

namespace PatchTriage

open SortedList List Text

namespace Text

/-! ## Characters that lower case leaves alone -/

theorem smallLetter_of_lt {c : Char} (hc : c.toNat < 65) : smallLetter c = c :=
  (smallLetter_of_ascii (by omega)).resolve_right fun h => by omega

theorem lowercaseFrom_eq_self {t : Text} (ht : ∀ c ∈ t, c.toNat < 65 ∨ c = '_') (before : Text) :
    lowercaseFrom before t = t := by
  induction t generalizing before with
  | nil => rfl
  | cons c t ih =>
    obtain ⟨hc, ht⟩ := forall_mem_cons.1 ht
    have hsmall : smallLetter c = c := by
      rcases hc with hc | rfl
      · exact smallLetter_of_lt hc
      · decide
    have hne {x : Char} (hx : 96 ≤ x.toNat) : c ≠ x := by
      rintro rfl
      rcases hc with hc | rfl
      · omega
      · exact absurd hx (by decide)
    rw [lowercaseFrom, lowerChar, if_neg (hne (by decide)), if_neg (hne (by decide)), hsmall, ih ht,
      singleton_append]

theorem CharSet.holds_eq_false {s : CharSet} {c : Char} (hadded : inStretches c s.added = false)
    (hcategories : ∀ k ∈ s.categories, k.holds c = false) : s.holds c = false := by
  have hany : s.categories.any (fun k => k.holds c) = false := by simpa using hcategories
  simp [CharSet.holds, hadded, hany]

/-- The characters of a table as a list are read much faster than a text. -/
theorem readStretches_ofList (l : List Char) :
    readStretches (String.ofList l) = stretchesFrom 0 (numbersFrom false 0 l) := by
  rw [readStretches, String.toList_ofList]

theorem category_holds_underscore {k : Category}
    (hk : k ∈ [Category.lu, .ll, .lt, .lm, .mn, .me, .sk, .cf]) : k.holds '_' = false := by
  simp only [mem_cons, not_mem_nil, or_false] at hk
  rcases hk with rfl | rfl | rfl | rfl | rfl | rfl | rfl | rfl <;>
    (rw [Category.holds, if_neg (by decide), Category.stretches, Category.table,
      readStretches_ofList]
     decide +kernel)

/-- An underscore has no case, and a cased neighbour is not sought behind it. -/
theorem underscore_caseless : isCased '_' = false ∧ isCaseIgnorable '_' = false := by
  have hcased : casedChars.categories = [.lu, .ll, .lt, .lm] := by decide +kernel
  have hignorable : caseIgnorableChars.categories = [.lm, .mn, .me, .sk, .cf] := by decide +kernel
  rw [isCased, isCaseIgnorable]
  constructor
  · refine CharSet.holds_eq_false ?_ fun k hk => category_holds_underscore ?_
    · rw [casedChars, CharSet.ofTexts]
      dsimp only
      rw [readStretches_ofList]
      decide +kernel
    · rw [hcased] at hk
      revert k
      decide
  · refine CharSet.holds_eq_false ?_ fun k hk => category_holds_underscore ?_
    · rw [caseIgnorableChars, CharSet.ofTexts]
      dsimp only
      rw [readStretches_ofList]
      decide +kernel
    · rw [hignorable] at hk
      revert k
      decide

theorem meetsCased_cons (c : Char) (t : Text) :
    meetsCased (c :: t) = if isCaseIgnorable c then meetsCased t else isCased c := by
  rw [meetsCased, dropWhile_cons]
  by_cases h : isCaseIgnorable c
  · rw [if_pos h, if_pos h, meetsCased]
  · rw [if_neg h, if_neg h, head?_cons]

theorem meetsCased_append {x : Char} (hcased : isCased x = false)
    (hignorable : isCaseIgnorable x = false)
    (s t : Text) : meetsCased (s ++ x :: t) = meetsCased s := by
  induction s with
  | nil =>
    rw [nil_append, meetsCased_cons, hignorable, hcased]
    rfl
  | cons c s ih => rw [cons_append, meetsCased_cons, meetsCased_cons, ih]

theorem lowercaseFrom_append {x : Char} (hcased : isCased x = false)
    (hignorable : isCaseIgnorable x = false) (before s t : Text) :
    lowercaseFrom before (s ++ x :: t) =
      lowercaseFrom before s ++ lowercaseFrom (s.reverse ++ before) (x :: t) := by
  induction s generalizing before with
  | nil => rfl
  | cons c s ih =>
    rw [cons_append, lowercaseFrom, lowercaseFrom, ih, lowerChar, lowerChar,
      meetsCased_append hcased hignorable, append_assoc, reverse_cons, append_assoc]
    rfl

/-! ## Joined texts -/

def NotBothUnderscores (a b : Char) : Prop := a ≠ '_' ∨ b ≠ '_'

instance : DecidableRel NotBothUnderscores := fun _ _ => instDecidableOr

theorem not_isChain_underscores (s t : Text) :
    ¬ (s ++ '_' :: '_' :: t).IsChain NotBothUnderscores := by
  intro h
  have hpair := (isChain_cons_cons.1 (isChain_append.1 h).2.1).1
  exact hpair.elim (· rfl) (· rfl)

/-- The first separator of a joined text is the one behind the first piece. -/
theorem append_separator_inj {s s' r r' : Text} (hs : (s ++ ['_']).IsChain NotBothUnderscores)
    (hs' : (s' ++ ['_']).IsChain NotBothUnderscores)
    (h : s ++ '_' :: '_' :: r = s' ++ '_' :: '_' :: r') : s = s' ∧ r = r' := by
  have hlonger {s s' r r' : Text} (hs : (s ++ ['_']).IsChain NotBothUnderscores) {a : Text}
      (ha : s = s' ++ a) (h : '_' :: '_' :: r' = a ++ '_' :: '_' :: r) : s' = s ∧ r' = r := by
    rcases a with - | ⟨c, - | ⟨d, a⟩⟩
    · simpa [ha] using h
    · obtain rfl : '_' = c := (cons.inj h).1
      exact absurd hs (by simpa [ha] using not_isChain_underscores s' [])
    · obtain ⟨rfl, htail⟩ := cons.inj h
      obtain rfl : '_' = d := (cons.inj htail).1
      exact absurd hs (by simpa [ha] using not_isChain_underscores s' (a ++ ['_']))
  rcases append_eq_append_iff.1 h with ⟨a, ha, h⟩ | ⟨a, ha, h⟩
  · exact hlonger hs' ha h
  · exact (hlonger hs ha h).imp Eq.symm Eq.symm

/-- **Joined pieces can be read back** if no piece has two underscores in it or an underscore at its
end. -/
theorem join_inj {l l' : List Text} (hl : ∀ s ∈ l, s ≠ [] ∧ (s ++ ['_']).IsChain NotBothUnderscores)
    (hl' : ∀ s ∈ l', s ≠ [] ∧ (s ++ ['_']).IsChain NotBothUnderscores)
    (h : join "__" l = join "__" l') : l = l' := by
  have hsingle (s : Text) : join "__" [s] = s := by simp [join]
  have hmore (s t : Text) (l : List Text) :
      join "__" (s :: t :: l) = s ++ '_' :: '_' :: join "__" (t :: l) := join_cons_cons "__" s t l
  have hnot {s u : Text} (hs : (s ++ ['_']).IsChain NotBothUnderscores) (r : Text) :
      s ≠ u ++ '_' :: '_' :: r := by
    rintro rfl
    exact not_isChain_underscores u (r ++ ['_']) (by simpa using hs)
  induction l generalizing l' with
  | nil =>
    rcases l' with - | ⟨s, - | ⟨t, l'⟩⟩
    · rfl
    · exact absurd (h.trans (hsingle s)).symm (hl' s mem_cons_self).1
    · rw [hmore] at h
      exact absurd h.symm (by simp [join])
  | cons s l ih =>
    obtain ⟨⟨hs, hchain⟩, hl⟩ := forall_mem_cons.1 hl
    rcases l with - | ⟨t, l⟩ <;> rcases l' with - | ⟨s', - | ⟨t', l'⟩⟩
    · exact absurd ((hsingle s).symm.trans h) hs
    · rw [hsingle, hsingle] at h
      rw [h]
    · rw [hsingle, hmore] at h
      exact absurd h (hnot hchain _)
    · rw [hmore] at h
      exact absurd h (by simp [join])
    · rw [hmore, hsingle] at h
      exact absurd h.symm (hnot (hl' s' mem_cons_self).2 _)
    · rw [hmore, hmore] at h
      obtain ⟨⟨-, hchain'⟩, htail⟩ := forall_mem_cons.1 hl'
      obtain ⟨rfl, hrest⟩ := append_separator_inj hchain hchain' h
      rw [ih hl htail hrest]

theorem byteLength_le (t : Text) : byteLength t ≤ 4 * t.length := by
  induction t with
  | nil => exact Nat.le_refl 0
  | cons c t ih =>
    have hc := Char.utf8Size_le_four c
    have hcons : byteLength (c :: t) = c.utf8Size + byteLength t := rfl
    rw [hcons, length_cons]
    omega

end Text

namespace Partition

/-! ## The name of a break point -/

def fileName (file : Text) : Text := lowercase (replace ":" "_" (without '/' file))

theorem pointName_eq (b : BreakPoint) : pointName b = fileName b.file ++ '_' :: ofNat b.line := by
  have hdigit {c : Char} (hc : c ∈ ofNat b.line) : c.toNat < 65 ∧ c ≠ '/' ∧ c ≠ ':' := by
    have hc := isDigit_of_mem_ofNat hc
    refine ⟨?_, ?_, ?_⟩
    · simp only [Char.isDigit, Bool.and_eq_true, decide_eq_true_eq, ge_iff_le,
        UInt32.le_iff_toNat_le] at hc
      have hhigh : c.toNat ≤ 57 := hc.2
      omega
    · rintro rfl
      exact absurd hc (by decide)
    · rintro rfl
      exact absurd hc (by decide)
  have hwithout : without '/' b.render = without '/' b.file ++ ':' :: ofNat b.line := by
    have hdigits : (ofNat b.line).filter (· ≠ '/') = ofNat b.line :=
      filter_eq_self.2 fun c hc => by simpa using (hdigit hc).2.1
    rw [BreakPoint.render, without, filter_append, filter_cons_of_pos (by decide), hdigits]
    rfl
  have hreplace : replace [':'] ['_'] (without '/' b.file ++ ':' :: ofNat b.line) =
      replace [':'] ['_'] (without '/' b.file) ++ '_' :: ofNat b.line := by
    have hdigits : (ofNat b.line).map (fun c => if c = ':' then '_' else c) = ofNat b.line :=
      (map_congr_left fun c hc => if_neg (hdigit hc).2.2).trans (map_id _)
    rw [replace_char, replace_char, map_append, map_cons, hdigits, if_pos rfl]
  have hself : ∀ c ∈ '_' :: ofNat b.line, c.toNat < 65 ∨ c = '_' :=
    forall_mem_cons.2 ⟨.inr rfl, fun c hc => .inl (hdigit hc).1⟩
  show lowercaseFrom [] (replace [':'] ['_'] _) = _
  rw [hwithout, hreplace, lowercaseFrom_append Text.underscore_caseless.1 underscore_caseless.2,
    lowercaseFrom_eq_self hself]
  rfl

/-- A file and a line are read back from a name at its last underscore. -/
theorem eq_of_pointName_eq {b b' : BreakPoint} (h : pointName b = pointName b') :
    fileName b.file = fileName b'.file ∧ b.line = b'.line := by
  have hnot (n : Nat) : '_' ∉ (ofNat n).reverse := fun hmem =>
    absurd (isDigit_of_mem_ofNat (mem_reverse.1 hmem)) (by decide)
  have hreverse (b : BreakPoint) :
      (pointName b).reverse = (ofNat b.line).reverse ++ '_' :: (fileName b.file).reverse := by
    simp [pointName_eq]
  obtain ⟨hline, hfile⟩ := append_cons_inj (hnot b.line) (hnot b'.line)
    ((hreverse b).symm.trans ((congrArg reverse h).trans (hreverse b')))
  refine ⟨reverse_injective hfile, ?_⟩
  rw [← digitsValue_ofNat b.line, reverse_injective hline, digitsValue_ofNat]

/-! ## The name of a set -/

variable {A B : List BreakPoint}

theorem name_congr (h : ∀ b, b ∈ A ↔ b ∈ B) : name A = name B := by
  have hdistinct : distinct BreakPoint.compare A = distinct BreakPoint.compare B := distinct_congr h
  have hjoined : joined A = joined B := by rw [joined, joined, hdistinct]
  simp only [name, hjoined]

def shortDigest (long : Text) : Text := (Sha256.hex (Utf8.encode long)).take 32

/-- The three kinds of names: only a joined text has an underscore in it. -/
theorem name_cases (A : List BreakPoint) :
    (maxNameLength < byteLength (joined A) ∧ name A = 'h' :: shortDigest (joined A) ∧
      '_' ∉ name A) ∨
    (joined A = [] ∧ name A = "no-location".toList) ∨
    (byteLength (joined A) ≤ maxNameLength ∧ name A = joined A ∧ '_' ∈ name A) := by
  rw [name]
  split
  · rename_i hlong
    refine .inl ⟨hlong, rfl, fun hmem => ?_⟩
    rcases mem_cons.1 hmem with hmem | hmem
    · cases hmem
    · exact absurd (Bytes.mem_hexDigits (mem_of_mem_take hmem)) (by decide)
  · rename_i hshort
    split
    · rename_i hempty
      exact .inr (.inl ⟨by simpa using hempty, rfl⟩)
    · rename_i hne
      exact .inr (.inr ⟨Nat.le_of_not_lt hshort, rfl, underscore_mem_joined (by simpa using hne)⟩)

theorem name_wellFormed (A : List BreakPoint) :
    name A ≠ [] ∧ byteLength (name A) ≤ 200 ∧ '/' ∉ name A ∧ ':' ∉ name A := by
  rcases name_cases A with ⟨-, hname, -⟩ | ⟨-, hname⟩ | ⟨hshort, hname, hmem⟩
  · have hlength := byteLength_le ('h' :: shortDigest (joined A))
    have htake : (shortDigest (joined A)).length ≤ 32 := length_take_le ..
    have hnot {x : Char} (hx : x ∉ hexDigits) (hne : x ≠ 'h') : x ∉ 'h' :: shortDigest (joined A) :=
      fun hmem => (mem_cons.1 hmem).elim hne fun hmem =>
        hx (Bytes.mem_hexDigits (mem_of_mem_take hmem))
    rw [hname]
    refine ⟨cons_ne_nil _ _, ?_, hnot (by decide) (by decide), hnot (by decide) (by decide)⟩
    rw [length_cons] at hlength
    omega
  · rw [hname]
    decide
  · rw [hname] at hmem ⊢
    exact ⟨ne_nil_of_mem hmem, hshort, not_mem_joined (.inl rfl) A, not_mem_joined (.inr rfl) A⟩

def DigestsDiffer (A B : List BreakPoint) : Prop :=
  maxNameLength < byteLength (joined A) → maxNameLength < byteLength (joined B) →
    shortDigest (joined A) = shortDigest (joined B) → joined A = joined B

/-- Two sets have one name exactly if their joined texts are the same, but for collisions of
digests. -/
theorem name_eq_iff (hdigests : DigestsDiffer A B) : name A = name B ↔ joined A = joined B := by
  refine ⟨fun h => ?_, fun h => by simp only [name, h]⟩
  have hnone : '_' ∉ "no-location".toList := by decide
  rcases name_cases A with ⟨hlong, hname, hno⟩ | ⟨hempty, hname⟩ | ⟨-, hname, hmem⟩ <;>
    rcases name_cases B with ⟨hlong', hname', hno'⟩ | ⟨hempty', hname'⟩ | ⟨-, hname', hmem'⟩
  · rw [hname, hname'] at h
    exact hdigests hlong hlong' (cons.inj h).2
  · rw [hname, hname'] at h
    cases h
  · exact absurd hmem' (h ▸ hno)
  · rw [hname, hname'] at h
    cases h
  · rw [hempty, hempty']
  · exact absurd hmem' (by rwa [← h, hname])
  · exact absurd hmem (h ▸ hno')
  · exact absurd hmem (by rwa [h, hname'])
  · rw [← hname, h, hname']

/-! ## Sets of one name -/

structure Legible (files : List Text) : Prop where
  distinct : ∀ f ∈ files, ∀ g ∈ files, fileName f = fileName g → f = g
  /-- There are no two underscores next to each other, nor an underscore at the end. -/
  separate : ∀ f ∈ files, (fileName f ++ ['_']).IsChain NotBothUnderscores

theorem isChain_pointName {b : BreakPoint}
    (h : (fileName b.file ++ ['_']).IsChain NotBothUnderscores) :
    (pointName b ++ ['_']).IsChain NotBothUnderscores := by
  have hdigit {c : Char} (hc : c ∈ ofNat b.line) : c ≠ '_' := by
    rintro rfl
    exact absurd (isDigit_of_mem_ofNat hc) (by decide)
  have hsplit : pointName b ++ ['_'] = (fileName b.file ++ ['_']) ++ (ofNat b.line ++ ['_']) := by
    simp [pointName_eq]
  rw [hsplit, isChain_append]
  refine ⟨h, isChain_append.2 ⟨?_, .singleton _, ?_⟩, ?_⟩
  · exact Pairwise.isChain (pairwise_of_forall_mem_list fun c hc _ _ => .inl (hdigit hc))
  · exact fun c hc _ _ => .inl (hdigit (mem_of_getLast? hc))
  · intro _ _ c hc
    obtain ⟨d, ds, hds⟩ := exists_cons_of_ne_nil (ofNat_ne_nil b.line)
    rw [hds, cons_append, head?_cons] at hc
    obtain rfl := Option.some.inj hc
    exact .inr (hdigit (hds ▸ mem_cons_self))

/-- The break points can be read back from a joined text, if their files are told apart there. -/
theorem subset_of_joined_eq (hlegible : Legible ((A ++ B).map BreakPoint.file))
    (h : joined A = joined B) : ∀ b ∈ A, b ∈ B := by
  have hmem (l : List BreakPoint) {b : BreakPoint} : b ∈ distinct BreakPoint.compare l ↔ b ∈ l :=
    mem_distinct_iff
  have hfile {b : BreakPoint} (hb : b ∈ A ++ B) : b.file ∈ (A ++ B).map BreakPoint.file :=
    mem_map.2 ⟨b, hb, rfl⟩
  have hpiece {l : List BreakPoint} (hl : ∀ b ∈ l, b ∈ A ++ B) :
      ∀ s ∈ (distinct BreakPoint.compare l).map pointName,
        s ≠ [] ∧ (s ++ ['_']).IsChain NotBothUnderscores := by
    intro s hs
    obtain ⟨b, hb, rfl⟩ := mem_map.1 hs
    refine ⟨by simp [pointName_eq], isChain_pointName (hlegible.separate _ (hfile ?_))⟩
    exact hl b ((hmem l).1 hb)
  have hnames := join_inj (hpiece fun b hb => mem_append_left B hb)
    (hpiece fun b hb => mem_append_right A hb) h
  intro b hb
  have hname : pointName b ∈ (distinct BreakPoint.compare B).map pointName :=
    hnames ▸ mem_map.2 ⟨b, (hmem A).2 hb, rfl⟩
  obtain ⟨b', hb', heq⟩ := mem_map.1 hname
  obtain ⟨hsame, hline⟩ := eq_of_pointName_eq heq
  have hfiles := hlegible.distinct b'.file (hfile (mem_append_right A ((hmem B).1 hb'))) b.file
    (hfile (mem_append_left B hb)) hsame
  have hpoint : b' = b := by
    cases b'
    cases b
    simp_all
  exact hpoint ▸ (hmem B).1 hb'

/-- **Which patches share a partition.**  If no two digests of long names are the same, two patches
share a partition exactly if their joined texts are the same. If the files that they edit are told
apart in those texts, they share it exactly if they edit the same break points. -/
theorem same_partition_iff {p q : Patch}
    (hdigests : DigestsDiffer p.fragments.breakPoints q.fragments.breakPoints) :
    ((assign p).partition = (assign q).partition ↔
      joined p.fragments.breakPoints = joined q.fragments.breakPoints) ∧
    (Legible ((p.fragments.breakPoints ++ q.fragments.breakPoints).map BreakPoint.file) →
      ((assign p).partition = (assign q).partition ↔
        ∀ b, b ∈ p.fragments.breakPoints ↔ b ∈ q.fragments.breakPoints)) := by
  have hassign : (assign p).partition = (assign q).partition ↔
      name p.fragments.breakPoints = name q.fragments.breakPoints := Option.some_inj
  refine ⟨hassign.trans (name_eq_iff hdigests),
    fun hlegible => hassign.trans ⟨fun h b => ?_, name_congr⟩⟩
  have hjoined := (name_eq_iff hdigests).1 h
  refine ⟨fun hb => subset_of_joined_eq hlegible hjoined b hb,
    fun hb => subset_of_joined_eq ⟨fun f hf g hg => ?_, fun f hf => ?_⟩ hjoined.symm b hb⟩
  · exact hlegible.distinct f (by simpa [or_comm] using hf) g (by simpa [or_comm] using hg)
  · exact hlegible.separate f (by simpa [or_comm] using hf)

def patchAt (points : List BreakPoint) : Patch where
  id := "a.patch"
  path := "a.patch"
  fragments := points.map fun b => (b, { inserted := ["x = 5;".toList] })

/-- Files of one name in two directories, of which one has an underscore and a capital letter in it.
-/
theorem same_partition_apart :
    let p := patchAt [⟨"lib/Main_loop.c", 10⟩, ⟨"util.c", 3⟩]
    let q := patchAt [⟨"main_loop.c", 10⟩, ⟨"util.c", 3⟩]
    DigestsDiffer p.fragments.breakPoints q.fragments.breakPoints ∧
    Legible ((p.fragments.breakPoints ++ q.fragments.breakPoints).map BreakPoint.file) ∧
    (assign p).partition ≠ (assign q).partition := by
  intro p q
  have hdigests : DigestsDiffer p.fragments.breakPoints q.fragments.breakPoints :=
    fun hlong => absurd hlong (by decide +kernel)
  have hlegible : Legible
      ((p.fragments.breakPoints ++ q.fragments.breakPoints).map BreakPoint.file) :=
    ⟨by decide +kernel, by decide +kernel⟩
  refine ⟨hdigests, hlegible, fun h => ?_⟩
  have hsame := ((same_partition_iff hdigests).2 hlegible).1 h ⟨"main_loop.c", 10⟩
  exact absurd (hsame.2 (by decide)) (by decide)

/-- **Different places in one partition**: files that differ by a slash, a colon or the case of a
letter, and a file whose name reads like two break points. -/
theorem locations_share_partition :
    let shares (A B : List BreakPoint) : Prop :=
      (∃ b, b ∈ A ∧ b ∉ B) ∧ (assign (patchAt A)).partition = (assign (patchAt B)).partition
    shares [⟨"Main.c", 10⟩] [⟨"main.c", 10⟩] ∧ shares [⟨"a/b.c", 10⟩] [⟨"ab.c", 10⟩] ∧
    shares [⟨"a:b.c", 10⟩] [⟨"a_b.c", 10⟩] ∧
      shares [⟨"a.c", 1⟩, ⟨"b.c", 2⟩] [⟨"a.c_1__b.c", 2⟩] := by
  intro shares
  refine ⟨⟨⟨_, mem_cons_self, by decide⟩, by decide +kernel⟩,
    ⟨⟨_, mem_cons_self, by decide⟩, by decide +kernel⟩,
    ⟨⟨_, mem_cons_self, by decide⟩, by decide +kernel⟩,
    ⟨⟨_, mem_cons_self, by decide⟩, by decide +kernel⟩⟩

/-! ## The groups -/

variable (patches : List Patch)

theorem groups_concat (p : Patch) :
    groups (patches ++ [p]) = insertWith compare (· ++ ·) (name p.fragments.breakPoints)
      [p.id] (groups patches) := by
  rw [groups, foldl_append]
  rfl

theorem ascending_groups : SortedList.Ascending compare (groups patches) := by
  induction patches using reverseRecOn with
  | nil => exact .nil
  | append_singleton patches p ih =>
    rw [groups_concat]
    exact ih.insertWith _ _ _

/-- The ids of the patches to which the name of a partition is attached. -/
def members (n : Text) (patches : List Patch) : List Text :=
  (patches.filter fun p => (assign p).partition = some n).map Patch.id

theorem members_concat (n : Text) (patches : List Patch) (p : Patch) : members n (patches ++ [p]) =
      members n patches ++ if name p.fragments.breakPoints = n then [p.id] else [] := by
  rw [members, members, filter_append, map_append]
  congr 1
  by_cases hn : name p.fragments.breakPoints = n <;> simp [assign, hn]

theorem find?_groups (n : Text) (patches : List Patch) : find? Text.compare n (groups patches) =
      if members n patches = [] then none else some (members n patches) := by
  induction patches using reverseRecOn with
  | nil => rfl
  | append_singleton patches p ih =>
    rw [groups_concat, members_concat]
    by_cases hn : name p.fragments.breakPoints = n
    · rw [if_pos hn, if_neg (by simp), ← hn, find?_insertWith (ascending_groups patches), hn, ih]
      split <;> simp_all [Option.merge]
    · rw [if_neg hn, append_nil, find?_insertWith_of_ne (Ne.symm hn), ih]

theorem groups_perm : ((groups patches).flatMap Prod.snd).Perm (patches.map Patch.id) := by
  have hinsert (n : Text) (ids : List Text) (m : List (Text × List Text)) :
      ((insertWith compare (· ++ ·) n ids m).flatMap Prod.snd).Perm
        (m.flatMap Prod.snd ++ ids) := by
    induction m with
    | nil => simp [insertWith]
    | cons first m ih =>
      rw [insertWith]
      cases Text.compare n first.1 with
      | lt => exact perm_append_comm
      | eq => simpa using (@perm_append_comm _ ids (m.flatMap Prod.snd)).append_left first.2
      | gt => simpa using ih.append_left first.2
  induction patches using reverseRecOn with
  | nil => exact .refl _
  | append_singleton patches p ih =>
    rw [groups_concat, map_append]
    exact (hinsert ..).trans (ih.append_right [p.id])

/-- **Partitioning is a function of the set of break points and loses no patch.**  The name of a set
does not depend on the order of its break points or on repetitions, it is neither empty nor longer
than 200 bytes, and it has neither a slash nor a colon in it. A group has the patches to which its
name is attached, in their order; the names of the groups ascend, no group is empty, and every patch
is in one of them. -/
theorem groups_account (patches : List Patch) :
    (∀ A B : List BreakPoint, (∀ b, b ∈ A ↔ b ∈ B) → name A = name B) ∧
    (∀ A : List BreakPoint, name A ≠ [] ∧ byteLength (name A) ≤ 200 ∧
      '/' ∉ name A ∧ ':' ∉ name A) ∧
    (∀ n ids, (n, ids) ∈ groups patches ↔
      ids ≠ [] ∧ ids = (patches.filter fun p => (assign p).partition = some n).map Patch.id) ∧
    ((groups patches).map Prod.fst).Pairwise (compare · · = .lt) ∧
    ((groups patches).flatMap Prod.snd).Perm (patches.map Patch.id) := by
  refine ⟨fun A B h => name_congr h, name_wellFormed, fun n ids => ?_,
    pairwise_map.2 (ascending_groups patches), groups_perm patches⟩
  rw [mem_iff_find? (ascending_groups patches), find?_groups]
  show _ ↔ ids ≠ [] ∧ ids = members n patches
  split <;> grind

end Partition

end PatchTriage
