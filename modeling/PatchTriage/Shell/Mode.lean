import PatchTriage.Text.Utf8

/-!
# Modes of files

A mode has three bits each for the owner, a group and all others, and three more.
-/

namespace PatchTriage.Shell.Mode

def all : Nat := 4095

def permissions : Nat := 511

def read : Nat := 4

def write : Nat := 2

def enter : Nat := 1

def owner : Nat := 64

def sticky : Nat := 512

def ofGroup : Nat := 1024

def ofOwner : Nat := 2048

def has (mode bits : Nat) : Bool := mode &&& bits != 0

def without (mode bits : Nat) : Nat := mode &&& (all - (bits &&& all))

def allows (mode : Nat) (isOwn : Bool) (bit : Nat) : Bool :=
  has mode (if isOwn then bit * owner else bit)

def forAll (bit : Nat) : Nat := bit * 73

def letters (mode : Nat) : Raw :=
  let ofClass (weight : Nat) (special : Bool) (small large : Char) : Raw :=
    let x := has mode weight
    [if has mode (weight * 4) then 'r' else '-', if has mode (weight * 2) then 'w' else '-',
      if special then (if x then small else large) else if x then 'x' else '-']
  ofClass 64 (has mode ofOwner) 's' 'S' ++ ofClass 8 (has mode ofGroup) 's' 'S'
    ++ ofClass 1 (has mode sticky) 't' 'T'

def digits (width mode : Nat) : Raw := Text.padLeft width '0' (Nat.toDigits 8 mode)

def isDigit (c : Char) : Bool := '0' ≤ c && c ≤ '7'

def ofDigits (ds : Raw) : Nat := ds.foldl (fun n c => n * 8 + (c.toNat - '0'.toNat)) 0

def isSign (c : Char) : Bool := c = '+' || c = '-' || c = '='

/-! ## Changes of a mask -/

def weights (who : Raw) : List Nat :=
  let all := who.isEmpty || 'a' ∈ who
  [('u', 64), ('g', 8), ('o', 1)].filterMap fun (c, weight) =>
    if all || c ∈ who then some weight else none

def letterBits? (was : Nat) : Char → Option Nat
  | 'r' => some read
  | 'w' => some write
  | 'x' => some enter
  | 'X' => some (if has was (forAll enter) then enter else 0)
  | 's' => some 0
  | 'u' => some (was / 64 % 8)
  | 'g' => some (was / 8 % 8)
  | 'o' => some (was % 8)
  | _ => none

def change (classes : List Nat) (sign : Char) (bits mode : Nat) : Nat :=
  classes.foldl (fun mode weight =>
    let now := mode / weight % 8
    let new :=
      if sign = '=' then bits else if sign = '+' then now ||| bits else now - (now &&& bits)
    mode - now * weight + new * weight) mode

def clause? (was : Nat) (classes : List Nat) : (fuel : Nat) → Raw → Nat → Option (Nat × Raw)
  | 0, _, _ => none
  | _ + 1, [], mode => some (mode, [])
  | fuel + 1, c :: t, mode =>
    if isSign c then
      let names := t.takeWhile fun c => (letterBits? was c).isSome
      let bits := names.foldl (fun b c => b ||| (letterBits? was c).getD 0) 0
      clause? was classes fuel (t.drop names.length) (change classes c bits mode)
    else if c = ',' then some (mode, t)
    else none

def clauses? (was : Nat) : (fuel : Nat) → Raw → Nat → Option Nat
  | 0, _, _ => none
  | _ + 1, [], mode => some mode
  | fuel + 1, t, mode => do
    let who := t.takeWhile fun c => c ∈ "ugoa".toList
    let rest := t.drop who.length
    if rest.head? = some ',' then none
    let (mode, rest) ← clause? was (weights who) (rest.length + 1) rest mode
    clauses? was fuel rest mode

def changed? (t : Raw) (mode : Nat) : Option Nat := clauses? mode (t.length + 1) t mode

/-! ## Modes of new directories -/

inductive Value where
  | bits (n : Nat)
  | copied (n : Nat)
  | passable (n : Nat)

structure Change where
  sign : Char
  affected : Nat
  value : Value
  mentioned : Nat

def affectedBits : Char → Nat
  | 'u' => 2048 + 448
  | 'g' => 1024 + 56
  | 'o' => 512 + 7
  | _ => all

def valueBits : Char → Nat
  | 'r' => forAll read
  | 'w' => forAll write
  | 'x' => forAll enter
  | 's' => ofOwner + ofGroup
  | 't' => sticky
  | _ => 0

def changesOf? (affected : Nat) : (fuel : Nat) → Raw → Option (List Change × Raw)
  | 0, _ => none
  | fuel + 1, sign :: t =>
    if !isSign sign then none
    else do
      let change (value : Value) (bits : Nat) : Change :=
        { sign, affected, value, mentioned := if affected = 0 then bits else affected &&& bits }
      let (c, rest) ← match t with
        | 'u' :: t => pure (change (.copied 448) 448, t)
        | 'g' :: t => pure (change (.copied 56) 56, t)
        | 'o' :: t => pure (change (.copied 7) 7, t)
        | t =>
          let ds := t.takeWhile isDigit
          let names := t.takeWhile fun c => c ∈ "rwxXst".toList
          if !ds.isEmpty then
            let rest := t.drop ds.length
            let isEnd := rest.isEmpty || rest.head? = some ','
            if affected ≠ 0 || !isEnd || all < ofDigits ds then none
            else
              pure ({ sign, affected := all, value := .bits (ofDigits ds), mentioned := all }, rest)
          else
            let bits := names.foldl (fun b c => b ||| valueBits c) 0
            let value := if 'X' ∈ names then Value.passable bits else .bits bits
            pure (change value bits, t.drop names.length)
      if rest.head?.any isSign then
        let (cs, rest) ← changesOf? affected fuel rest
        return (c :: cs, rest)
      else return ([c], rest)
  | _ + 1, [] => none

def changes? : (fuel : Nat) → Raw → Option (List Change)
  | 0, _ => none
  | fuel + 1, t => do
    let who := t.takeWhile fun c => c ∈ "ugoa".toList
    let affected := who.foldl (fun b c => b ||| affectedBits c) 0
    let rest := t.drop who.length
    let (cs, rest) ← changesOf? affected (rest.length + 1) rest
    match rest with
    | [] => return cs
    | ',' :: rest => return cs ++ (← changes? fuel rest)
    | _ => none

def Change.apply (mask : Nat) (mode : Nat) (c : Change) : Nat :=
  let value := match c.value with
    | .bits n => n
    | .copied n =>
      let now := mode &&& n
      [read, write, enter].foldl
        (fun b bit => if has now (forAll bit) then b ||| forAll bit else b) now
    | .passable n => n ||| forAll enter
  let omitted := without (ofOwner + ofGroup) c.mentioned
  let scope := if c.affected = 0 then without all mask else c.affected
  let value := without (value &&& scope) omitted
  if c.sign = '=' then
    let preserved := (if c.affected = 0 then 0 else without all c.affected) ||| omitted
    (mode &&& preserved) ||| value
  else if c.sign = '+' then mode ||| value
  else without mode value

def ofText? (mask : Nat) (t : Raw) : Option Nat := do
  if t.head?.any isDigit then
    if t.all isDigit && ofDigits t ≤ all then some (ofDigits t) else none
  else return (← changes? (t.length + 1) t).foldl (Change.apply mask) permissions

end PatchTriage.Shell.Mode
