import PatchTriage.Shell.Command

/-!
# Arithmetic

Expressions on 64-bit integers, which wrap around.
-/

namespace PatchTriage.Shell

namespace Number

def wrap (n : Int) : Int := Int.bmod n 18446744073709551616

def least : Int := -9223372036854775808

def greatest : Int := 9223372036854775807

def clamp (n : Int) : Int := max least (min greatest n)

def digit? (c : Char) : Option Nat :=
  if c.isDigit then some (c.toNat - '0'.toNat)
  else if 'a' ≤ c && c ≤ 'z' then some (c.toNat - 'a'.toNat + 10)
  else if 'A' ≤ c && c ≤ 'Z' then some (c.toNat - 'A'.toNat + 10)
  else none

variable (base : Nat)

def isDigitOf (c : Char) : Bool := (digit? c).any (· < base)

def digits (t : Raw) : Nat × Raw :=
  let ds := t.takeWhile (isDigitOf base)
  (ds.foldl (fun n c => n * base + (digit? c).getD 0) 0, t.drop ds.length)

def unsigned? (t : Raw) : Option (Nat × Raw) :=
  let plain (base : Nat) : Option (Nat × Raw) :=
    if t.head?.any (isDigitOf base) then some (digits base t) else none
  match base, t with
  | 0, '0' :: x :: d :: rest =>
    if (x = 'x' || x = 'X') && isDigitOf 16 d then some (digits 16 (d :: rest)) else plain 8
  | 0, '0' :: _ => plain 8
  | 0, _ => plain 10
  | base, _ => plain base

def isSpace (c : Char) : Bool := c = ' ' || ('\t' ≤ c && c ≤ '\r')

def sign : Raw → Bool × Raw
  | '-' :: t => (true, t)
  | '+' :: t => (false, t)
  | t => (false, t)

def signed? (t : Raw) : Option (Int × Raw) :=
  let (negative, t) := sign (t.dropWhile isSpace)
  (unsigned? base t).map fun (n, rest) => (if negative then -(n : Int) else n, rest)

def whole? (t : Raw) : Option Int :=
  (signed? base t).bind fun (n, rest) =>
    if rest.all isSpace && clamp n = n then some n else none

def render (n : Int) : Raw := if n < 0 then '-' :: Text.ofNat n.natAbs else Text.ofNat n.natAbs

end Number

namespace Arithmetic

inductive BinaryOp where
  | mul | div | rem | add | sub | shiftLeft | shiftRight | less | lessEq | greater | greaterEq | eq
  | ne | bitAnd | bitXor | bitOr
  deriving DecidableEq

def BinaryOp.precedence : BinaryOp → Nat
  | mul | div | rem => 0
  | add | sub => 1
  | shiftLeft | shiftRight => 2
  | less | lessEq | greater | greaterEq => 3
  | eq | ne => 4
  | bitAnd => 5
  | bitXor => 6
  | bitOr => 7

def maxPrecedence : Nat := 8

inductive Token where
  | finished
  | number (n : Int)
  | variable (name : Raw)
  | binary (op : BinaryOp)
  | assign (op : Option BinaryOp)
  | and
  | or
  | not
  | bitNot
  | leftParen
  | rightParen
  | question
  | colon
  | unknown
  deriving DecidableEq

inductive Problem where
  | mistake (message : Raw)
  | noNumber (value : Raw)
  | readOnly (name : Raw)
  | trap

def operatorNames : List (String × Token) :=
  [("<<=", .assign (some .shiftLeft)), (">>=", .assign (some .shiftRight)),
    ("==", .binary .eq), ("!=", .binary .ne), ("<=", .binary .lessEq), (">=", .binary .greaterEq),
    ("<<", .binary .shiftLeft), (">>", .binary .shiftRight), ("&&", .and), ("||", .or),
    ("*=", .assign (some .mul)), ("/=", .assign (some .div)), ("%=", .assign (some .rem)),
    ("+=", .assign (some .add)), ("-=", .assign (some .sub)), ("&=", .assign (some .bitAnd)),
    ("^=", .assign (some .bitXor)), ("|=", .assign (some .bitOr)),
    ("=", .assign none), ("<", .binary .less), (">", .binary .greater), ("|", .binary .bitOr),
    ("&", .binary .bitAnd), ("^", .binary .bitXor), ("!", .not), ("~", .bitNot),
    ("(", .leftParen), (")", .rightParen), ("*", .binary .mul), ("/", .binary .div),
    ("%", .binary .rem), ("+", .binary .add), ("-", .binary .sub), ("?", .question),
    (":", .colon)]

def operators : List (Raw × Token) := operatorNames.map fun (name, token) => (name.toList, token)

open Number

def nextToken (t : Raw) : Token × Raw :=
  match t.dropWhile fun c => c = ' ' || c = '\t' || c = '\n' with
  | [] => (.finished, [])
  | c :: rest =>
    let t := c :: rest
    if c.isDigit then
      match unsigned? 0 t with
      | some (n, rest) => (.number (clamp n), rest)
      | none => (.unknown, t)
    else if isNameStart c then
      let name := nameHead t
      (.variable name, t.drop name.length)
    else
      match operators.findSome? fun (text, token) => (Text.dropHead? text t).map (token, ·) with
      | some found => found
      | none => (.unknown, t)

structure State where
  rest : Raw
  token : Token := .finished
  lookup : Raw → Option Raw
  isReadOnly : Raw → Bool
  assigned : List (Raw × Raw) := []

abbrev Eval := ExceptT Problem (StateM State)

def advance : Eval Token := do
  let s ← get
  let (t, rest) := nextToken s.rest
  set { s with rest, token := t }
  return t

def mistake {α : Type} (message : Raw) : Eval α := throw (.mistake message)

def valueOf (name : Raw) : Eval Int := do
  let s ← get
  let value := ((s.assigned.lookup name).orElse fun _ => s.lookup name).getD []
  if value.all isSpace then return 0
  match whole? 0 value with
  | some n => return n
  | none => throw (.noNumber value)

def assign (name : Raw) (n : Int) : Eval Int := do
  let s ← get
  if s.isReadOnly name then throw (.readOnly name)
  set { s with assigned := (name, render n) :: s.assigned }
  return n

def ofBool (b : Bool) : Int := if b then 1 else 0

def apply (op : BinaryOp) (a b : Int) : Eval Int := do
  let unsigned (n : Int) : Nat := (n % 18446744073709551616).toNat
  let bits (f : Nat → Nat → Nat) : Int := wrap (f (unsigned a) (unsigned b))
  match op with
  | .mul => return wrap (a * b)
  | .div | .rem =>
    if b = 0 then mistake "division by zero"
    if a = least && b = -1 then throw .trap
    return if op = .div then Int.tdiv a b else Int.tmod a b
  | .add => return wrap (a + b)
  | .sub => return wrap (a - b)
  | .shiftLeft => return wrap (a * (Nat.shiftLeft 1 (unsigned b % 64) : Nat))
  | .shiftRight => return Int.fdiv a (Nat.shiftLeft 1 (unsigned b % 64) : Nat)
  | .less => return ofBool (a < b)
  | .lessEq => return ofBool (a ≤ b)
  | .greater => return ofBool (a > b)
  | .greaterEq => return ofBool (a ≥ b)
  | .eq => return ofBool (a = b)
  | .ne => return ofBool (a ≠ b)
  | .bitAnd => return bits Nat.land
  | .bitXor => return bits Nat.xor
  | .bitOr => return bits Nat.lor

/-- The value of an expression from its first token on. `idle` tells that the value does not
count. -/
abbrev Rule := (idle : Bool) → Token → Eval Int

def primary (assignment : Rule) : (fuel : Nat) → Rule
  | 0, _, _ => mistake "expecting primary"
  | fuel + 1, idle, t => do
    match t with
    | .leftParen =>
      let n ← assignment idle (← advance)
      if (← get).token ≠ .rightParen then mistake "expecting ')'"
      let _ ← advance
      return n
    | .number n =>
      let _ ← advance
      return n
    | .variable name =>
      let _ ← advance
      if idle then return 0 else valueOf name
    | .binary .add => primary assignment fuel idle (← advance)
    | .binary .sub => return wrap (-(← primary assignment fuel idle (← advance)))
    | .not => return ofBool ((← primary assignment fuel idle (← advance)) = 0)
    | .bitNot => return -(← primary assignment fuel idle (← advance)) - 1
    | _ => mistake "expecting primary"

def operations (value : Rule) (idle : Bool) : (fuel : Nat) → (a : Int) → BinaryOp →
    (limit : Nat) → Eval Int
  | 0, _, _, _ => mistake "expecting primary"
  | fuel + 1, a, op, limit => do
    let b ← value idle (← advance)
    let b ← match (← get).token with
      | .binary next =>
        if next.precedence < op.precedence then operations value idle fuel b next op.precedence
        else pure b
      | _ => pure b
    let a ← if idle then pure b else apply op a b
    match (← get).token with
    | .binary next =>
      if next.precedence < limit then operations value idle fuel a next limit else return a
    | _ => return a

def operation (assignment : Rule) (fuel : Nat) : Rule := fun idle t => do
  let value := primary assignment fuel
  let a ← value idle t
  match (← get).token with
  | .binary op => operations value idle fuel a op maxPrecedence
  | _ => return a

/-- Operands between marks; after one that is `decisive` the others do not count. -/
def chain (mark : Token) (decisive : Bool) (operand : Rule) : (steps : Nat) → Rule
  | 0, _, _ => mistake "expecting primary"
  | steps + 1, idle, t => do
    let a ← operand idle t
    if (← get).token ≠ mark then return a
    let isDecided : Bool := (a ≠ 0) = decisive
    let b ← chain mark decisive operand steps (idle || isDecided) (← advance)
    return ofBool (if isDecided then decisive else b ≠ 0)

def disjunction (assignment : Rule) (fuel : Nat) : Rule :=
  chain .or true (chain .and false (operation assignment fuel) fuel) fuel

def choice (assignment : Rule) (fuel : Nat) : (steps : Nat) → Rule
  | 0, _, _ => mistake "expecting primary"
  | steps + 1, idle, t => do
    let a ← disjunction assignment fuel idle t
    if (← get).token ≠ .question then return a
    let b ← assignment (idle || a = 0) (← advance)
    if (← get).token ≠ .colon then mistake "expecting ':'"
    let c ← choice assignment fuel steps (idle || a ≠ 0) (← advance)
    return if a ≠ 0 then b else c

def assignment (fuel : Nat) : (depth : Nat) → Rule
  | 0, _, _ => mistake "expecting primary"
  | depth + 1, idle, t => do
    let inner : Rule := fun idle t => assignment fuel depth idle t
    match t with
    | .variable name =>
      -- What follows a variable decides what it is for.
      let s ← get
      match nextToken s.rest with
      | (.assign op, rest) =>
        set { s with rest }
        let n ← inner idle (← advance)
        if idle then return n
        match op with
        | none => assign name n
        | some op => assign name (← apply op (← valueOf name) n)
      | _ => choice inner fuel fuel idle t
    | _ => choice inner fuel fuel idle t

def evaluate (lookup : Raw → Option Raw) (isReadOnly : Raw → Bool)
    (expression : Raw) : Except Problem Int × List (Raw × Raw) :=
  let fuel := expression.length + 2
  let whole : Eval Int := do
    let n ← assignment fuel fuel false (← advance)
    if (← get).token ≠ .finished then mistake "expecting EOF"
    return n
  let (result, s) := Id.run (whole.run { rest := expression, lookup, isReadOnly })
  (result, s.assigned)

end Arithmetic

end PatchTriage.Shell
