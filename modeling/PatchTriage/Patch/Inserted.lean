import PatchTriage.Text.Basic

/-!
# Inserted lines

An inserted line of a diff may hold several statements. `Inserted.split` cuts it into the lines of
a fragment: a `for` header stays whole, an `if` is cut behind its condition, and any other line is
cut at its semicolons.
-/

namespace PatchTriage.Inserted

/-- Whether `t` begins with `keyword`, followed by a space or an opening parenthesis. -/
def startsWithKeyword (keyword t : Text) : Bool :=
  match Text.dropHead? keyword t with
  | some (' ' :: _) | some ('(' :: _) => true
  | _ => false

/-- Cuts a text behind the parenthesis that brings the nesting down from `depth` to zero. -/
def cutBalanced (depth : Nat) : Text → Text × Text
  | [] => ([], [])
  | c :: t =>
    let depth' := if c = '(' then depth + 1 else if c = ')' then depth - 1 else depth
    if c = ')' ∧ depth' = 0 then ([c], t)
    else
      let (a, b) := cutBalanced depth' t
      (c :: a, b)

/-- The byte offset behind the condition whose parenthesis is at the offset `start`. -/
def conditionEnd (t : Text) (start : Nat) : Nat :=
  start + Text.byteLength (cutBalanced 0 (Text.fromByte start t)).1

/-- Cuts a text in three: what stands before its first `(`, from there to the `)` that closes it
(to the end when none does), and the rest. -/
def cutCondition? (t : Text) : Option (Text × Text × Text) :=
  if '(' ∈ t then
    let (condition, rest) := cutBalanced 0 (t.dropWhile (· ≠ '('))
    some (t.takeWhile (· ≠ '('), condition, rest)
  else none

def split (content : Text) : List Text :=
  let start := Text.trimStart content
  let statements := (Text.splitOn ';' content).filter fun part => 1 < Text.byteLength part
  if ';' ∉ content then [content]
  else if startsWithKeyword "for" start then [content]
  else if startsWithKeyword "if" start then
    match cutCondition? content with
    | some (head, condition, rest) =>
      if Text.isBlankText rest then [head ++ condition] else [head ++ condition, rest]
    | none => statements
  else statements

end PatchTriage.Inserted
