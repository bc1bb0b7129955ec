import Mathlib.Data.List.Infix
import Mathlib.Data.List.TakeWhile
import PatchTriage.Text.Basic

/-!
# Laws of texts

The cuts of `Text` in the terms of lists: a text begins with another if that is a prefix of it
(`Text.dropHead?_eq_some_iff`), it contains another if that is an infix of it
(`Text.contains_iff`), and exchanging a text that does not occur changes nothing
(`Text.replace_eq_self`). Writing a number and reading it gives the number
(`Text.readBelow?_ofNat`).
-/

namespace PatchTriage.Text

open List

variable {c sep : Char} {t : Text}

/-! ## Beginnings -/

theorem startsWith_iff {head : Text} : startsWith head t = true ↔ head <+: t :=
  isPrefixOf_iff_prefix

theorem startsWith_append (head rest : Text) : startsWith head (head ++ rest) = true :=
  startsWith_iff.2 (prefix_append head rest)

theorem head?_of_startsWith {head : Text} (h : startsWith head t = true)
    (hc : head.head? = some c) :
    t.head? = some c := by
  obtain ⟨rest, rfl⟩ := startsWith_iff.1 h
  rw [head?_append, hc]
  rfl

theorem dropHead?_append (head rest : Text) : dropHead? head (head ++ rest) = some rest := by
  induction head with
  | nil => simp [dropHead?]
  | cons h head ih => simp [dropHead?, ih]

theorem dropHead?_eq_some_iff {head rest : Text} :
    dropHead? head t = some rest ↔ t = head ++ rest := by
  constructor
  · intro h
    induction head generalizing t with
    | nil => simpa [dropHead?] using h
    | cons a head ih =>
      cases t with
      | nil => simp [dropHead?] at h
      | cons c t =>
        rw [dropHead?] at h
        split at h
        · rename_i hac
          rw [ih h, hac, cons_append]
        · cases h
  · rintro rfl
    exact dropHead?_append head rest

theorem dropHead?_eq_none_iff {head : Text} : dropHead? head t = none ↔ ¬ head <+: t := by
  rw [Option.eq_none_iff_forall_ne_some]
  constructor
  · rintro h ⟨rest, rfl⟩
    exact h rest (dropHead?_append head rest)
  · intro h rest hrest
    exact h ⟨rest, (dropHead?_eq_some_iff.1 hrest).symm⟩

/-! ## Occurrences -/

theorem cut?_eq_some_iff {a b : Text} : cut? sep t = some (a, b) ↔ t = a ++ sep :: b ∧ sep ∉ a := by
  induction t generalizing a with
  | nil => simp [cut?]
  | cons c t ih =>
    rw [cut?]
    by_cases hc : c = sep
    · rw [if_pos hc, hc]
      cases a with
      | nil => simp [eq_comm]
      | cons a' a => simpa using fun h _ hne => absurd h hne
    · rw [if_neg hc, Option.map_eq_some_iff]
      constructor
      · rintro ⟨⟨a', b'⟩, hcut, heq⟩
        cases heq
        obtain ⟨rfl, hnot⟩ := ih.1 hcut
        exact ⟨rfl, by simp [hnot, Ne.symm hc]⟩
      · rintro ⟨heq, hnot⟩
        cases a with
        | nil => exact absurd (cons.inj heq).1 hc
        | cons a' a =>
          cases heq
          exact ⟨(a, b), ih.2 ⟨rfl, fun h => hnot (.tail _ h)⟩, rfl⟩

theorem cutLast?_append {a b : Text} (hb : sep ∉ b) :
    cutLast? sep (a ++ sep :: b) = some (a, b) := by
  have hcut : cut? sep (a ++ sep :: b).reverse = some (b.reverse, a.reverse) :=
    cut?_eq_some_iff.2 ⟨by simp, by simpa using hb⟩
  rw [cutLast?, hcut]
  simp

variable {needle : Text}

theorem contains_cons : contains needle (c :: t) = true ↔
    needle <+: c :: t ∨ contains needle t = true := by
  rw [contains, contains, breakOn?]
  cases hdrop : dropHead? needle (c :: t) with
  | some rest => simp [dropHead?_eq_some_iff.1 hdrop]
  | none => simp [dropHead?_eq_none_iff.1 hdrop]

theorem contains_iff : contains needle t = true ↔ needle <:+: t := by
  induction t with
  | nil => cases needle <;> simp [contains, breakOn?]
  | cons c t ih => rw [contains_cons, ih, infix_cons_iff]

theorem contains_eq_false_iff : contains needle t = false ↔ ¬ needle <:+: t := by
  rw [← contains_iff, Bool.not_eq_true]

theorem replace_eq_self (new : Text) (h : contains needle t = false) :
    replace needle new t = t := by
  rw [contains_eq_false_iff] at h
  rw [replace]
  induction t with
  | nil => rfl
  | cons c t ih =>
    have hhead : startsWith needle (c :: t) = false := by
      rw [← Bool.not_eq_true, startsWith_iff]
      exact fun hp => h hp.isInfix
    rw [replaceFrom, hhead, ih fun hi => h (hi.trans (suffix_cons c t).isInfix)]
    rfl

/-! ## Cuts at a character -/

theorem before_eq_self (h : sep ∉ t) : before sep t = t := by
  rw [before, takeWhile_eq_self_iff]
  intro c hc
  have hne : c ≠ sep := by
    rintro rfl
    exact h hc
  simpa using hne

theorem afterLast_eq_self (h : sep ∉ t) : afterLast sep t = t := by
  rw [afterLast, before_eq_self (by simpa using h), reverse_reverse]

theorem append_cons_inj {s s' t' : Text} (hs : sep ∉ s) (hs' : sep ∉ s')
    (h : s ++ sep :: t = s' ++ sep :: t') : s = s' ∧ t = t' := by
  have hbefore {s : Text} (hs : sep ∉ s) (t : Text) : before sep (s ++ sep :: t) = s := by
    rw [before, takeWhile_append_of_pos, takeWhile_cons_of_neg (by simp), append_nil]
    intro c hc
    simpa using ne_of_mem_of_not_mem hc hs
  have heq : s = s' := by rw [← hbefore hs t, h, hbefore hs' t']
  subst heq
  simpa using h

/-! ## White space -/

theorem without_eq_self (h : c ∉ t) : without c t = t := by
  rw [without, filter_eq_self]
  intro a ha
  have hne : a ≠ c := by
    rintro rfl
    exact h ha
  simpa using hne

theorem dropWhile_eq_self {p : Char → Bool} (h : ∀ c ∈ t.head?, p c = false) :
    t.dropWhile p = t := by
  cases t with
  | nil => rfl
  | cons c t => exact dropWhile_cons_of_neg (by simp [h c rfl])

theorem dropEndWhile_append {p : Char → Bool} {m b : Text} (hb : ∀ c ∈ b, p c = true)
    (hlast : ∀ c ∈ m.getLast?, p c = false) : dropEndWhile p (m ++ b) = m := by
  have hkeep : m.reverse.dropWhile p = m.reverse :=
    dropWhile_eq_self fun c hc => hlast c (by rwa [head?_reverse] at hc)
  rw [dropEndWhile, reverse_append, dropWhile_append_of_pos (by simpa using hb), hkeep,
    reverse_reverse]

/-- What stands between white space, if it neither begins nor ends with any. -/
theorem trim_append_append {a m b : Text} (ha : ∀ c ∈ a, isBlank c = true)
    (hb : ∀ c ∈ b, isBlank c = true) (hfirst : ∀ c ∈ m.head?, isBlank c = false)
    (hlast : ∀ c ∈ m.getLast?, isBlank c = false) : trim (a ++ m ++ b) = m := by
  have hfront : (a ++ m ++ b).dropWhile isBlank = (m ++ b).dropWhile isBlank := by
    rw [append_assoc, dropWhile_append_of_pos ha]
  rw [trim, dropBothWhile, hfront]
  cases m with
  | nil =>
    rw [nil_append, dropWhile_eq_nil_iff.2 hb]
    rfl
  | cons c m =>
    have hkeep : ((c :: m) ++ b).dropWhile isBlank = (c :: m) ++ b :=
      dropWhile_eq_self fun c' hc' => hfirst c' hc'
    rw [hkeep, dropEndWhile_append hb hlast]

theorem trim_eq_self (h : ∀ c ∈ t, isBlank c = false) : trim t = t := by
  have hself := trim_append_append (a := []) (m := t) (b := []) (by simp) (by simp)
    (fun c hc => h c (mem_of_head? hc)) fun c hc => h c (mem_of_getLast? hc)
  simpa using hself

theorem trim_eq_nil (h : ∀ c ∈ t, isBlank c = true) : trim t = [] := by
  rw [trim, dropBothWhile, dropWhile_eq_nil_iff.2 h]
  rfl

theorem isBlank_of_all (h : (t.all fun c => !isBlank c) = true) : ∀ c ∈ t, isBlank c = false := by
  intro c hc
  simpa using all_eq_true.1 h c hc

theorem exists_trim (t : Text) : ∃ a b, (∀ c ∈ a, isBlank c = true) ∧ (∀ c ∈ b, isBlank c = true) ∧
    t = a ++ trim t ++ b ∧ (∀ c ∈ (trim t).head?, isBlank c = false) ∧
    ∀ c ∈ (trim t).getLast?, isBlank c = false := by
  have hends : t.dropWhile isBlank =
      trim t ++ ((t.dropWhile isBlank).reverse.takeWhile isBlank).reverse := by
    rw [trim, dropBothWhile, dropEndWhile, ← reverse_append, takeWhile_append_dropWhile,
      reverse_reverse]
  have hnot : ∀ s : Text, ∀ c ∈ (s.dropWhile isBlank).head?, isBlank c = false := by
    intro s c hc
    have hhead := head?_dropWhile_not isBlank s
    rw [Option.mem_def.1 hc] at hhead
    simpa using hhead
  refine ⟨t.takeWhile isBlank, ((t.dropWhile isBlank).reverse.takeWhile isBlank).reverse,
    fun c hc => mem_takeWhile_imp hc, fun c hc => mem_takeWhile_imp (mem_reverse.1 hc),
    ?_, ?_, ?_⟩
  · rw [append_assoc, ← hends, takeWhile_append_dropWhile]
  · intro c hc
    refine hnot t c ?_
    rw [hends, head?_append, Option.mem_def.1 hc]
    rfl
  · intro c hc
    rw [trim, dropBothWhile, dropEndWhile, getLast?_reverse] at hc
    exact hnot _ c hc

theorem trim_between {a b : Text} (ha : ∀ c ∈ a, isBlank c = true) (hb : ∀ c ∈ b, isBlank c = true)
    (t : Text) : trim (a ++ t ++ b) = trim t := by
  obtain ⟨a', b', ha', hb', ht, hfirst, hlast⟩ := exists_trim t
  have hcut : a ++ t ++ b = (a ++ a') ++ trim t ++ (b' ++ b) := by
    rw [ht, trim_append_append ha' hb' hfirst hlast]
    simp
  rw [hcut, trim_append_append (forall_mem_append.2 ⟨ha, ha'⟩)
    (forall_mem_append.2 ⟨hb', hb⟩) hfirst hlast]

/-- A run of other characters before white space continues a word and ends it. -/
theorem wordsFrom_append {word w : Text} (hword : word ++ w ≠ []) (hw : ∀ c ∈ w, isBlank c = false)
    (hc : isBlank c = true) (t : Text) :
    wordsFrom word (w ++ c :: t) = (word ++ w) :: words t := by
  induction w generalizing word with
  | nil =>
    have hne : word ≠ [] := by simpa using hword
    simp [wordsFrom, hc, hne, words]
  | cons a w ih =>
    rw [cons_append, wordsFrom, hw a mem_cons_self, if_neg (by simp),
      ih (by simp) fun c hc => hw c (mem_cons_of_mem a hc)]
    simp

theorem words_append {w : Text} (hne : w ≠ []) (hw : ∀ c ∈ w, isBlank c = false)
    (hc : isBlank c = true)
    (t : Text) : words (w ++ c :: t) = w :: words t :=
  wordsFrom_append (by simpa using hne) hw hc t

/-! ## Joins -/

theorem join_cons_cons (sep s t : Text) (l : List Text) :
    join sep (s :: t :: l) = s ++ (sep ++ join sep (t :: l)) := by
  simp [join, intercalate]

theorem mem_join {sep : Text} {l : List Text} (h : c ∈ join sep l) : c ∈ sep ∨ ∃ t ∈ l, c ∈ t := by
  induction l with
  | nil => cases h
  | cons s l ih =>
    cases l with
    | nil => exact .inr ⟨s, by simp, by simpa [join, intercalate] using h⟩
    | cons t l =>
      rw [join_cons_cons, mem_append, mem_append] at h
      rcases h with h | h | h
      · exact .inr ⟨s, by simp, h⟩
      · exact .inl h
      · rcases ih h with h | ⟨u, hu, hc⟩
        · exact .inl h
        · exact .inr ⟨u, mem_cons_of_mem s hu, hc⟩

theorem mem_join_cons {s : Text} (h : c ∈ s) (sep : Text) (l : List Text) :
    c ∈ join sep (s :: l) := by
  cases l with
  | nil => simpa [join, intercalate] using h
  | cons t l => rw [join_cons_cons]; exact mem_append_left _ h

/-! ## Numbers -/

theorem isDigit_of_mem_ofNat {n : Nat} (hc : c ∈ ofNat n) : c.isDigit = true :=
  Nat.isDigit_of_mem_toDigits (by decide) (by decide) hc

theorem ofNat_ne_nil (n : Nat) : ofNat n ≠ [] := Nat.toDigits_ne_nil

theorem digitsValue_ofNat (n : Nat) : digitsValue 0 (ofNat n) = n :=
  Nat.ofDigitChars_toDigits (by decide) (by decide)

theorem isBlank_of_isDigit (hc : c.isDigit = true) : isBlank c = false := by
  simp only [Char.isDigit, Bool.and_eq_true, decide_eq_true_eq, ge_iff_le,
    UInt32.le_iff_toNat_le] at hc
  have hlow : 48 ≤ c.toNat := hc.1
  have hhigh : c.toNat ≤ 57 := hc.2
  simp only [isBlank, Bool.or_eq_false_iff, Bool.and_eq_false_iff, decide_eq_false_iff_not,
    beq_eq_false_iff_ne]
  omega

theorem readDigits?_eq_some_iff {n : Nat} :
    readDigits? t = some n ↔ t ≠ [] ∧ (∀ c ∈ t, c.isDigit = true) ∧ digitsValue 0 t = n := by
  rw [readDigits?, Option.ite_none_right_eq_some]
  simp [and_assoc]

/-- A text that writes the number `n`: decimal digits after an optional `+`. -/
def Numeral (n : Nat) (t : Text) : Prop :=
  ∃ ds, (t = ds ∨ t = '+' :: ds) ∧ ds ≠ [] ∧ (∀ c ∈ ds, c.isDigit = true) ∧
    Nat.ofDigitChars 10 ds 0 = n

theorem readNat?_eq_some_iff {n : Nat} : readNat? t = some n ↔ Numeral n t := by
  constructor
  · intro h
    rw [readNat?.eq_def] at h
    split at h
    · exact ⟨_, .inr rfl, readDigits?_eq_some_iff.1 h⟩
    · exact ⟨t, .inl rfl, readDigits?_eq_some_iff.1 h⟩
  · rintro ⟨ds, rfl | rfl, hds⟩
    · rw [readNat?.eq_def]
      split
      · exact absurd (hds.2.1 '+' mem_cons_self) (by decide)
      · exact readDigits?_eq_some_iff.2 hds
    · exact readDigits?_eq_some_iff.2 hds

theorem readBelow?_eq_some_iff {bound n : Nat} :
    readBelow? bound t = some n ↔ Numeral n t ∧ n < bound := by
  rw [readBelow?, Option.filter_eq_some_iff, readNat?_eq_some_iff, decide_eq_true_eq]

/-- **Reading a written number.** -/
theorem readBelow?_ofNat {bound n : Nat} (hn : n < bound) : readBelow? bound (ofNat n) = some n :=
  readBelow?_eq_some_iff.2
    ⟨⟨ofNat n, .inl rfl, ofNat_ne_nil n, fun _ => isDigit_of_mem_ofNat, digitsValue_ofNat n⟩, hn⟩

end PatchTriage.Text
