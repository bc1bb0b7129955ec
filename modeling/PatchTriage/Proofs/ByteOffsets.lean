import PatchTriage.Proofs.Listings
import PatchTriage.Proofs.LiteralLines

/-!
# Cuts at byte offsets

Limits and places in a text are counted in bytes of its UTF-8 form, but a text is cut between
characters.
-/

namespace PatchTriage

open List

namespace Text

theorem length_encode (t : Text) : (Utf8.encode t).length = byteLength t := by
  induction t with
  | nil => rfl
  | cons c t ih =>
    rw [Utf8.encode, flatMap_cons, length_append, String.length_utf8EncodeChar]
    exact congrArg _ ih

/-! ## Limits -/

/-- A shortened text begins exactly with those beginnings of the text that fit. -/
theorem prefix_truncate_iff {limit : Nat} {t p : Text} :
    p <+: truncate limit t ↔ p <+: t ∧ byteLength p ≤ limit := by
  induction t generalizing limit p with
  | nil =>
    rw [truncate, prefix_nil]
    exact ⟨fun h => ⟨h, h ▸ Nat.zero_le _⟩, And.left⟩
  | cons c t ih =>
    cases p with
    | nil => exact ⟨fun _ => ⟨List.nil_prefix, Nat.zero_le _⟩, fun _ => nil_prefix⟩
    | cons d p =>
      have hsize : byteLength (d :: p) = d.utf8Size + byteLength p := rfl
      rw [truncate, hsize, cons_prefix_cons]
      split
      · rw [cons_prefix_cons, ih]
        constructor
        · rintro ⟨rfl, hp, hfits⟩
          exact ⟨⟨rfl, hp⟩, by omega⟩
        · rintro ⟨⟨rfl, hp⟩, hfits⟩
          exact ⟨rfl, hp, by omega⟩
      · -- a character that does not fit ends the text, whatever stands behind it
        rw [prefix_nil]
        constructor
        · rintro ⟨⟩
        · rintro ⟨⟨rfl, -⟩, hfits⟩
          omega

theorem eq_of_prefixes {s t : Text} (h : ∀ p, p <+: s ↔ p <+: t) : s = t :=
  ((h s).1 prefix_rfl).eq_of_length_le ((h t).2 prefix_rfl).length_le

theorem truncate_truncate (m n : Nat) (t : Text) :
    truncate m (truncate n t) = truncate (min m n) t := by
  refine eq_of_prefixes fun p => ?_
  rw [prefix_truncate_iff, prefix_truncate_iff, prefix_truncate_iff, and_assoc, Nat.le_min,
    and_comm (a := byteLength p ≤ m)]

/-- **The longest beginning of a text that fits.** It ends between two characters, has at most as
many bytes as are allowed, and every beginning of the text that has no more is one of it. A text
that fits stays whole, a second cut at the same limit changes nothing, and of two limits the smaller
one counts. -/
theorem truncate_longest (n m : Nat) (t : Text) :
    truncate n t <+: t ∧ (Utf8.encode (truncate n t)).length ≤ n ∧
      (∀ p, p <+: t → (Utf8.encode p).length ≤ n → p <+: truncate n t) ∧
      ((Utf8.encode t).length ≤ n → truncate n t = t) ∧
      truncate n (truncate n t) = truncate n t ∧
      truncate m (truncate n t) = truncate (min m n) t := by
  simp only [length_encode]
  obtain ⟨hbegins, hfits⟩ := prefix_truncate_iff.1 (prefix_refl (truncate n t))
  refine ⟨hbegins, hfits, fun p hp hle => prefix_truncate_iff.2 ⟨hp, hle⟩, fun hle => ?_, ?_,
    truncate_truncate m n t⟩
  · exact hbegins.eq_of_length_le (prefix_truncate_iff.2 ⟨prefix_refl t, hle⟩).length_le
  · rw [truncate_truncate, min_self]

/-! ## Places -/

theorem fromByte_append (a b : Text) : fromByte (byteLength a) (a ++ b) = b := by
  have hcut : truncate (byteLength a) (a ++ b) = a := by
    obtain ⟨x, hx⟩ : a <+: truncate (byteLength a) (a ++ b) :=
      prefix_truncate_iff.2 ⟨prefix_append a b, le_refl _⟩
    have hfits := (prefix_truncate_iff.1 (prefix_refl (truncate (byteLength a) (a ++ b)))).2
    rw [← hx, byteLength_append] at hfits
    cases x with
    | nil => rw [← hx, append_nil]
    | cons c x => exact absurd (byteLength_pos (cons_ne_nil c x)) (by omega)
  rw [fromByte, hcut, drop_left]

end Text

namespace Inserted

open Text

/-! ## Ends of conditions -/

/-- As many parentheses are closed as are opened, but not any earlier. -/
def Closed (t : Text) : Prop :=
  t ≠ [] ∧ t.count '(' = t.count ')' ∧ ∀ p, p <+: t → p ≠ [] → p ≠ t → p.count ')' < p.count '('

/-- **What the scan keeps.** With `depth` parentheses open, either the cut is where they are all
closed for the first time, or they never are and nothing is cut off. -/
theorem cutBalanced_of_pos {depth : Nat} (hdepth : 0 < depth) {t a b : Text}
    (hcut : cutBalanced depth t = (a, b)) :
    depth + a.count '(' = a.count ')' ∧ (∀ p, p <+: a → p ≠ a → p.count ')' < depth + p.count '(') ∨
      b = [] ∧ ∀ p, p <+: t → p.count ')' < depth + p.count '(' := by
  induction t generalizing depth a with
  | nil =>
    cases hcut
    exact .inr ⟨rfl, fun p hp => by rw [prefix_nil.1 hp]; simpa using hdepth⟩
  | cons c t ih =>
    obtain ⟨next, hnext⟩ :
        ∃ n, n = if c = '(' then depth + 1 else if c = ')' then depth - 1 else depth :=
      ⟨_, rfl⟩
    have hcount (q : Text) :
        depth + (c :: q).count '(' + q.count ')' = next + q.count '(' + (c :: q).count ')' := by
      rw [count_cons, count_cons]
      split_ifs at hnext with hopen hclose
      · simp [hopen, hnext]; omega
      · simp [hclose, hnext]; omega
      · simp [hopen, hclose, hnext]
    have hnil : ([] : Text).count ')' < depth + ([] : Text).count '(' := hdepth
    simp only [cutBalanced, ← hnext] at hcut
    split_ifs at hcut with hclosed
    · cases hcut
      refine .inl ⟨?_, fun p hp hne => ?_⟩
      · have := hcount []
        simp only [count_nil] at this
        omega
      · rcases prefix_cons_iff.1 hp with rfl | ⟨q, rfl, hq⟩
        · exact hnil
        · exact absurd (by rw [prefix_nil.1 hq]) hne
    · cases hcut
      have hpos : 0 < next := by
        refine Nat.pos_of_ne_zero fun hzero => ?_
        split_ifs at hnext with hopen hclose
        · omega
        · exact hclosed ⟨hclose, hzero⟩
        · omega
      rcases ih hpos rfl with ⟨hsame, hless⟩ | ⟨hall, hless⟩
      · refine .inl ⟨by have := hcount (cutBalanced next t).1; omega, fun p hp hne => ?_⟩
        rcases prefix_cons_iff.1 hp with rfl | ⟨q, rfl, hq⟩
        · exact hnil
        · have := hcount q
          have := hless q hq fun heq => hne (by rw [heq])
          omega
      · refine .inr ⟨hall, fun p hp => ?_⟩
        rcases prefix_cons_iff.1 hp with rfl | ⟨q, rfl, hq⟩
        · exact hnil
        · have := hcount q
          have := hless q hq
          omega

theorem closed_or_open (t : Text) : Closed ('(' :: (cutBalanced 1 t).1) ∨
    (cutBalanced 1 t).2 = [] ∧ ∀ p, p <+: '(' :: t → ¬ Closed p := by
  have hopen (q : Text) :
      ('(' :: q).count '(' = 1 + q.count '(' ∧ ('(' :: q).count ')' = q.count ')' := by
    simp [Nat.add_comm]
  rcases cutBalanced_of_pos Nat.one_pos (t := t) rfl with ⟨hsame, hless⟩ | ⟨hall, hless⟩
  · refine .inl ⟨cons_ne_nil _ _, by rw [(hopen _).1, (hopen _).2, hsame],
      fun p hp hne hproper => ?_⟩
    obtain ⟨q, rfl, hq⟩ := (prefix_cons_iff.1 hp).resolve_left hne
    rw [(hopen q).1, (hopen q).2]
    exact hless q hq fun heq => hproper (by rw [heq])
  · refine .inr ⟨hall, fun p hp hclosed => ?_⟩
    obtain ⟨q, rfl, hq⟩ := (prefix_cons_iff.1 hp).resolve_left hclosed.1
    have hcount := hclosed.2.1
    rw [(hopen q).1, (hopen q).2] at hcount
    exact absurd (hless q hq) (by omega)

theorem split_if {head t : Text} (hhead : '(' ∉ head) (hsemicolon : ';' ∈ head ++ '(' :: t)
    (hif : startsWithKeyword "if" (trimStart (head ++ '(' :: t)) = true) :
    split (head ++ '(' :: t) =
      if isBlankText (cutBalanced 1 t).2 then [head ++ '(' :: (cutBalanced 1 t).1]
      else [head ++ '(' :: (cutBalanced 1 t).1, (cutBalanced 1 t).2] := by
  have hbefore : ∀ c ∈ head, decide (c ≠ '(') = true :=
    fun c hc => decide_eq_true fun heq => hhead (heq ▸ hc)
  have hcut : cutCondition? (head ++ '(' :: t) =
      some (head, '(' :: (cutBalanced 1 t).1, (cutBalanced 1 t).2) := by
    rw [cutCondition?, if_pos (by simp), takeWhile_append_of_pos hbefore,
      dropWhile_append_of_pos hbefore]
    simp [cutBalanced]
  have hfor : startsWithKeyword "for" (trimStart (head ++ '(' :: t)) = false := by
    refine Bool.eq_false_iff.2 fun hfor => ?_
    have hf := Statement.head?_of_startsWithKeyword (c := 'f') rfl hfor
    rw [Statement.head?_of_startsWithKeyword (c := 'i') rfl hif] at hf
    cases hf
  simp only [split, hsemicolon, not_true_eq_false, hfor, hif, hcut]
  simp

/-- **Where a condition ends.** Behind a parenthesis there is a place between two characters up to
which as many parentheses are closed as are opened, and no earlier; or there is none, and it is the
end of the text. If it is the first parenthesis of a line that begins with `if`, then the line is
cut there in two, or loses what stands behind if that is blank. -/
theorem conditionEnd_closes {t head tail : Text} (ht : t = head ++ '(' :: tail) :
    (∃ condition rest, '(' :: tail = condition ++ rest ∧
      byteLength (head ++ condition) = conditionEnd t (byteLength head) ∧
      byteLength head < conditionEnd t (byteLength head) ∧
      conditionEnd t (byteLength head) ≤ byteLength t ∧
      (Closed condition ∨ conditionEnd t (byteLength head) = byteLength t ∧
        ∀ p, p <+: '(' :: tail → ¬ Closed p)) ∧
    ('(' ∉ head → ';' ∈ t → startsWithKeyword "if" (trimStart t) = true →
      ∃ front rest, front ++ rest = t ∧ byteLength front = conditionEnd t (byteLength head) ∧
        split t = if isBlankText rest then [front] else [front, rest]) := by
  subst ht
  have hend : conditionEnd (head ++ '(' :: tail) (byteLength head) =
      byteLength (head ++ '(' :: (cutBalanced 1 tail).1) := by
    rw [conditionEnd, fromByte_append, byteLength_append]
    rfl
  have hparts : '(' :: tail = '(' :: (cutBalanced 1 tail).1 ++ (cutBalanced 1 tail).2 := by
    rw [cons_append, cutBalanced_append]
  have hlength : byteLength (head ++ '(' :: tail) =
      byteLength (head ++ '(' :: (cutBalanced 1 tail).1) + byteLength (cutBalanced 1 tail).2 := by
    rw [hparts, ← append_assoc, byteLength_append]
  rw [hend, hlength]
  refine ⟨⟨_, _, hparts, rfl, ?_, Nat.le_add_right .., (closed_or_open tail).imp_right ?_⟩,
    fun hhead hsemicolon hif => ⟨_, _, ?_, rfl, split_if hhead hsemicolon hif⟩⟩
  · rw [byteLength_append]
    exact Nat.lt_add_of_pos_right (byteLength_pos (cons_ne_nil _ _))
  · rintro ⟨hall, hopen⟩
    exact ⟨by rw [hall]; rfl, hopen⟩
  · rw [append_assoc, ← hparts]

theorem conditionEnd_closes_umlaut : conditionEnd "if (ä(x)) f(ä);" (byteLength "if ") = 10 ∧
    ∃ front rest, front ++ rest = ("if (ä(x)) f(ä);" : Text) ∧
      byteLength front = conditionEnd "if (ä(x)) f(ä);" (byteLength "if ") ∧
        split "if (ä(x)) f(ä);" = if isBlankText rest then [front] else [front, rest] :=
  have hplace : ("if (ä(x)) f(ä);" : Text) = "if " ++ '(' :: "ä(x)) f(ä);" := by decide
  ⟨by decide, (conditionEnd_closes hplace).2 (by decide) (by decide) (by decide)⟩

end Inserted

end PatchTriage
