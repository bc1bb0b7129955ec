import PatchTriage.Shell.Arithmetic
import PatchTriage.Shell.Machine

/-!
# Tests

The conditions of `test`.
-/

namespace PatchTriage.Shell.Test

inductive Arity where
  | unary | binary | not | and | or | paren
  deriving DecidableEq

def unaryLetters : List Char :=
  "rwxefdcbpugkstznhOGLS".toList

def binaryOperators : List Raw :=
  ["=", "!=", "<", ">", "-eq", "-ne", "-ge", "-gt", "-le", "-lt", "-nt", "-ot", "-ef"]

def arity? (t : Raw) : Option Arity :=
  match t with
  | ['!'] => some .not
  | ['-', 'a'] => some .and
  | ['-', 'o'] => some .or
  | ['('] | [')'] => some .paren
  | ['-', c] => if c ∈ unaryLetters then some .unary else none
  | t => if t ∈ binaryOperators then some .binary else none

structure Files where
  machine : Machine
  pid : Nat

variable (files : Files)

structure Status where
  node : Node
  facts : Facts
  names : List Place

def Files.status? (t : Raw) (follow : Bool := true) : Option Status := do
  let m := files.machine
  let (place, n) ← (m.stat files.pid follow (Raw.toText t)).toOption
  return { node := n, facts := m.factsOf place n, names := m.names place }

inductive Lexeme where
  | finished
  | operand
  | operator (a : Arity)
  deriving DecidableEq

def isOperand : List Raw → Bool
  | [] => true
  | [_] => false
  | next :: _ => arity? next = some .binary

def lexeme : List Raw → Lexeme
  | [] => .finished
  | w :: rest =>
    match arity? w with
    | none => .operand
    | some a =>
      if a = .unary && isOperand rest then .operand
      else if w = ['('] && rest.isEmpty then .operand
      else .operator a

abbrev Eval := StateT (List Raw) (Except Raw)

def mistake {α : Type} (op : Raw) (message : String) : Eval α :=
  if op.isEmpty then throw message.toList else throw (op ++ ": " ++ message.toList)

def word : Eval Raw := do return ((← get).head?).getD []

def advance : Eval Unit := modify (·.drop 1)

def number (t : Raw) : Eval Int :=
  match Number.whole? 10 t with
  | some n => return n
  | none => throw ("Illegal number: " ++ t)

def Files.isPipe (fd : Nat) : Bool :=
  match files.machine.openFile? files.pid fd with
  | some (_, { channel := .removed _, .. }) | none => false
  | some _ => true

def Status.holds (s : Status) (letter : Char) : Bool :=
  let allows (bit : Nat) : Bool := Mode.allows s.facts.mode s.facts.isOwn bit
  match letter, s.node with
  | 'e', _ => true
  | 'r', _ => allows Mode.read
  | 'w', _ => allows Mode.write
  | 'x', _ => allows Mode.enter
  | 'd', n => n = .dir
  | 'f', .file _ _ | 'f', .tool _ => true
  | 'f', .device (.descriptor fd) => !files.isPipe fd
  | 'c', .device d => !(d matches .descriptor _)
  | 'p', .device (.descriptor fd) => files.isPipe fd
  | 's', n => !(n matches .file [] _ | .device _)
  | 'u', _ => Mode.has s.facts.mode Mode.ofOwner
  | 'g', _ => Mode.has s.facts.mode Mode.ofGroup
  | 'k', _ => Mode.has s.facts.mode Mode.sticky
  | 'h', n | 'L', n => (n matches .link _)
  | 'O', _ | 'G', _ => s.facts.isOwn
  | _, _ => false

def property (op arg : Raw) : Bool :=
  match op with
  | ['-', letter] =>
    (files.status? arg (letter ≠ 'h' && letter ≠ 'L')).any (·.holds files letter)
  | _ => false

def Files.isNewer (a b : Raw) : Bool :=
  (files.status? a).any fun x => (files.status? b).any (·.facts.modified < x.facts.modified)

def Files.isSame (a b : Raw) : Bool :=
  (files.status? a).any fun x => (files.status? b).any fun y => x.names.any (y.names.contains ·)

def unary (op arg : Raw) : Eval Bool := do
  match String.ofList op with
  | "-z" => return arg.isEmpty
  | "-n" => return !arg.isEmpty
  | "-t" =>
    let _ ← number arg
    return false
  | _ => return property files op arg

def comparison? : String → Option (Int → Int → Bool)
  | "-eq" => some (· = ·)
  | "-ne" => some (· ≠ ·)
  | "-lt" => some (· < ·)
  | "-le" => some (· ≤ ·)
  | "-gt" => some (· > ·)
  | "-ge" => some (· ≥ ·)
  | _ => none

def binary (op a b : Raw) : Eval Bool := do
  if let some holds := comparison? (String.ofList op) then
    let x ← number a
    return holds x (← number b)
  match String.ofList op with
  | "=" => return a = b
  | "!=" => return a ≠ b
  | "<" => return Text.compare a b = .lt
  | ">" => return Text.compare a b = .gt
  | "-nt" => return files.isNewer a b
  | "-ot" => return files.isNewer b a
  | "-ef" => return files.isSame a b
  | _ => return false

abbrev Rule := Lexeme → Eval Bool

def primary (disjunction : Rule) (first : Lexeme) : Eval Bool := do
  match first with
  | .finished => return false
  | .operator .paren =>
    if (← word) = [')'] then binaryOrText
    else
      advance
      let inner := lexeme (← get)
      if inner = .operator .paren && (← word) = [')'] then return false
      let result ← disjunction inner
      advance
      if !(lexeme (← get) = .operator .paren && (← word) = [')']) then
        mistake [] "closing paren expected"
      return result
  | .operator .unary =>
    let op ← word
    advance
    if (← get).isEmpty then mistake op "argument expected"
    unary files op (← word)
  | _ => binaryOrText
where
  binaryOrText : Eval Bool := do
    let a ← word
    match lexeme ((← get).drop 1) with
    | .operator .binary =>
      advance
      let op ← word
      advance
      if (← get).isEmpty then mistake op "argument expected"
      binary files op a (← word)
    | _ => return !a.isEmpty

def negation (files : Files) (disjunction : Rule) : (fuel : Nat) → Rule
  | 0, _ => return false
  | fuel + 1, first => do
    if first ≠ .operator .not then primary files disjunction first
    else
      let next := lexeme ((← get).drop 1)
      if next ≠ .finished then advance
      return !(← negation files disjunction fuel next)

def chain (mark : Arity) (join : Bool → Bool → Bool) (next : Rule) : (fuel : Nat) → Bool → Rule
  | 0, result, _ => return result
  | fuel + 1, result, first => do
    let holds ← next first
    let result := join result holds
    if lexeme ((← get).drop 1) ≠ .operator mark then return result
    advance
    advance
    chain mark join next fuel result (lexeme (← get))

def disjunction (files : Files) : (depth : Nat) → Rule
  | 0, _ => return false
  | depth + 1, first => do
    let n := (← get).length + 1
    let term := negation files (disjunction files depth) n
    chain .or (· || ·) (chain .and (· && ·) term n true) n false first

def evaluate (first : Lexeme) (words : List Raw) : Except Raw Bool := do
  let (result, rest) ← (disjunction files (words.length + 1) first).run words
  match rest with
  | op :: _ :: _ =>
    if op.isEmpty then throw ("unexpected operator" : Raw)
    else throw (op ++ ": unexpected operator")
  | _ => return result

/-- How the words of a test are taken: whether the result is negated, the first lexeme, and the
words to evaluate. Three words with a relation in the middle are one; of three or four words the
outer ones may be parentheses, or the first may negate the others, which counts once. -/
def reading (negated : Bool) : (words : List Raw) → Bool × Lexeme × List Raw
  | [a, op, b] =>
    if arity? op = some .binary then (negated, .operand, [a, op, b])
    else if a = ['('] && b = [')'] then (negated, lexeme [op], [op])
    else if a = ['!'] then (true, lexeme [op, b], [op, b])
    else (negated, lexeme [a, op, b], [a, op, b])
  | [a, b, c, d] =>
    if a = ['('] && d = [')'] then (negated, lexeme [b, c], [b, c])
    else if a = ['!'] then reading true [b, c, d]
    else (negated, lexeme [a, b, c, d], [a, b, c, d])
  | words => (negated, lexeme words, words)
termination_by words => words.length

def holds (words : List Raw) : Except Raw Bool := do
  if words.isEmpty then return false
  let (negated, first, words) := reading false words
  return (← evaluate files first words) ^^ negated

end PatchTriage.Shell.Test
