import PatchTriage.Shell.Test
import PatchTriage.Shell.Tools.Options

/-!
# The programs `test` and `[`

How some words are read depends on how many they are; only where that does not settle it, they are
joined by `-a` and `-o`.
-/

namespace PatchTriage.Shell.Tools.Condition

open Message

structure Setting where
  files : Test.Files
  last : Raw

abbrev Check := ReaderT Setting (StateT (List Raw) (Except Message))

def missing {α : Type} : Check α := do throw ("missing argument after " ++ word (← read).last)

def left : Check (List Raw) := get

def skip (n : Nat) : Check Unit := modify (·.drop n)

def advance : Check Unit := do
  skip 1
  if (← left).isEmpty then missing

def isRelation (t : Raw) : Bool :=
  t = "==".toList || (t ∈ Test.binaryOperators && t ≠ ['<'] && t ≠ ['>'])

def number (t : Raw) : Check Int := do
  let isBlank (c : Char) : Bool := c = ' ' || c = '\t'
  let (negative, digits) := Number.sign (t.dropWhile isBlank)
  let ds := digits.takeWhile Char.isDigit
  if ds.isEmpty || !(digits.drop ds.length).all isBlank then throw ("invalid integer " ++ word t)
  let n : Int := Text.digitsValue 0 ds
  return if negative then -n else n

/-! ## Single conditions -/

def text : Check Bool := do
  let w := (← left).headD []
  skip 1
  return !w.isEmpty

def properties : List Char := 'N' :: Test.unaryLetters

def isProperty (t : Raw) : Bool := t matches ['-', _]

def property : Check Bool := do
  let op := (← left).headD []
  if !properties.any fun c => op = ['-', c] then throw (word op ++ ": unary operator expected")
  advance
  let arg := (← left).headD []
  skip 1
  match String.ofList op with
  | "-z" => return arg.isEmpty
  | "-n" => return !arg.isEmpty
  | "-t" =>
    let _ ← number arg
    return false
  | _ => return Test.property (← read).files op arg

def operand (isLength : Bool) (t : Raw) : Check Int :=
  if isLength then return t.length else number t

def relation (lengthFirst : Bool) : Check Bool := do
  if lengthFirst then skip 1
  let ws ← left
  let a := ws.headD []
  let op := (ws.drop 1).headD []
  let after := ws.drop 2
  let lengthLast := 2 ≤ after.length && after.headD [] = "-l".toList
  let b := (if lengthLast then after.drop 1 else after).headD []
  match Test.comparison? (String.ofList op) with
  | some holds =>
    let x ← operand lengthFirst a
    let y ← operand lengthLast b
    skip (if lengthLast then 4 else 3)
    return holds x y
  | none =>
    skip (if lengthLast then 4 else 3)
    let files := (← read).files
    let isThere (t : Raw) : Bool := (files.status? t).isSome
    let ofFiles (holds : Bool) : Check Bool := do
      if lengthFirst || lengthLast then throw (plain (op ++ " does not accept -l"))
      return holds
    match String.ofList op with
    | "-nt" => ofFiles (files.isNewer a b || (isThere a && !isThere b))
    | "-ot" => ofFiles (files.isNewer b a || (isThere b && !isThere a))
    | "-ef" => ofFiles (files.isSame a b)
    | "!=" => return (if lengthLast then op else a) ≠ b
    | _ => return (if lengthLast then op else a) = b

/-! ## Conditions by the number of their words -/

def two : Check Bool := do
  let w := (← left).headD []
  if w = (['!'] : Raw) then
    skip 1
    return !(← text)
  else if isProperty w then property
  else missing

def three (joined : Check Bool) : Check Bool := do
  match ← left with
  | a :: op :: rest =>
    if isRelation op then relation false
    else if a = (['!'] : Raw) then
      advance
      return !(← two)
    else if a = (['('] : Raw) && rest.head? = some [')'] then
      skip 1
      let b ← text
      skip 1
      return b
    else if op = "-a".toList || op = "-o".toList then joined
    else throw (word op ++ ": binary operator expected")
  | _ => missing

def counted (n : Nat) (joined : Check Bool) : Check Bool := do
  match n with
  | 1 => text
  | 2 => two
  | 3 => three joined
  | n =>
    let ws ← left
    if n = 4 && ws.headD [] = ['!'] then
      advance
      return !(← three joined)
    else if n = 4 && ws.headD [] = ['('] && (ws.drop 3).headD [] = [')'] then
      skip 1
      let b ← two
      skip 1
      return b
    else joined

/-! ## Conditions that are joined -/

def negations : (fuel : Nat) → (odd : Bool) → Check Bool
  | 0, odd => return odd
  | fuel + 1, odd => do
    if (← left).headD [] = ['!'] then
      advance
      negations fuel (!odd)
    else return odd

def countInside (ws : List Raw) : Nat :=
  let n := 1 + ((ws.drop 1).takeWhile (· ≠ [')'])).length
  if n ≤ 4 then n else ws.length

def term (joined : Check Bool) : Check Bool := do
  let odd ← negations ((← left).length + 1) false
  let holds ← match ← left with
    | [] => missing
    | w :: ws =>
      if w = (['('] : Raw) then do
        advance
        let b ← counted (countInside ws) joined
        match ← left with
        | [] => throw (word [')'] ++ " expected")
        | w :: _ =>
          if w ≠ [')'] then throw (word [')'] ++ " expected, found " ++ word w)
          skip 1
          pure b
      else if 3 ≤ ws.length && w = "-l".toList && isRelation ((ws.drop 1).headD []) then
        relation true
      else if 2 ≤ ws.length && isRelation (ws.headD []) then relation false
      else if isProperty w then property
      else text
  return holds != odd

def chain (mark : String) (join : Bool → Bool → Bool) (next : Check Bool) : (fuel : Nat) →
    Bool → Check Bool
  | 0, holds => return holds
  | fuel + 1, holds => do
    let b ← next
    let holds := join holds b
    if (← left).headD [] = mark.toList then
      skip 1
      chain mark join next fuel holds
    else return holds

def joinedUpTo : (fuel : Nat) → Check Bool
  | 0 => missing
  | fuel + 1 => do
    if (← left).isEmpty then missing
    let n := (← left).length + 1
    chain "-o" (· || ·) (chain "-a" (· && ·) (term (joinedUpTo fuel)) n true) n false

def condition : Check Bool := do
  let n := (← left).length
  let b ← counted n (joinedUpTo (n + 1))
  match ← left with
  | [] => return b
  | w :: _ => throw ("extra argument " ++ word w)

def holds (files : Test.Files) (words : List Raw) : Except Message Bool :=
  if words.isEmpty then .ok false
  else (StateT.run (ReaderT.run condition { files, last := words.getLastD [] }) words).map Prod.fst

def run (isBracketed : Bool) (program : Raw) (args : List Raw) : Proc Unit := do
  let files : Test.Files := { machine := ← Proc.machine, pid := (← Proc.get).pid }
  let result := if isBracketed && args.getLast? ≠ some [']'] then .error ("missing " ++ word [']'])
    else holds files (if isBracketed then args.dropLast else args)
  match result with
  | .ok b => Proc.setStatus (if b then 0 else 1)
  | .error message =>
    complain program message
    Proc.setStatus 2

end PatchTriage.Shell.Tools.Condition
