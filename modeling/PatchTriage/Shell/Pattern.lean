import PatchTriage.Text.Utf8

/-!
# Patterns

`?` stands for one character, `*` for any number of them, brackets for one of a set, and a quoted
character for itself.
-/

namespace PatchTriage.Shell

structure PatternChar where
  char : Char
  literal : Bool

abbrev Pattern := List PatternChar

namespace CharClass

def holds? (name : Raw) : Option (Char → Bool) :=
  let isGraph (c : Char) : Bool := '!' ≤ c && c ≤ '~'
  let isBlank (c : Char) : Bool := c = ' ' || c = '\t'
  let classes : List (Raw × (Char → Bool)) :=
    [("alnum", Char.isAlphanum), ("alpha", Char.isAlpha), ("blank", isBlank),
      ("cntrl", fun c => c < ' ' || c = '\x7f'), ("digit", Char.isDigit), ("graph", isGraph),
      ("lower", Char.isLower), ("print", fun c => isGraph c || c = ' '),
      ("punct", fun c => isGraph c && !c.isAlphanum),
      ("space", fun c => c = ' ' || ('\t' ≤ c && c ≤ '\r')), ("upper", Char.isUpper),
      ("xdigit", fun c => c.isDigit || ('a' ≤ c && c ≤ 'f') || ('A' ≤ c && c ≤ 'F'))]
  classes.lookup name

end CharClass

namespace Pattern

def isSpecial (p : PatternChar) (c : Char) : Bool := !p.literal && p.char = c

def isBetween (low high c : Char) : Bool :=
  let key (c : Char) : Nat := (c.toNat + 128) % 256
  key low ≤ key c && key c ≤ key high

def charClass? (p : Pattern) : Option ((Char → Bool) × Pattern) :=
  match p with
  | c :: rest =>
    if !isSpecial c ':' then none
    else
      let name := (rest.map (·.char)).takeWhile (· ≠ ':')
      match rest.drop name.length with
      | colon :: close :: after =>
        if isSpecial colon ':' && isSpecial close ']' then (CharClass.holds? name).map (·, after)
        else none
      | _ => none
  | [] => none

/-- Whether `c` is in the set of a bracket expression, of which `first` comes next; none if it does
not end. -/
def setFrom (c : Char) (found : Bool) : (fuel : Nat) → PatternChar → Pattern →
    Option (Bool × Pattern)
  | 0, _, _ => none
  | fuel + 1, first, rest =>
    let continueWith (found : Bool) (rest : Pattern) : Option (Bool × Pattern) :=
      match rest with
      | [] => none
      | next :: rest =>
        if isSpecial next ']' then some (found, rest) else setFrom c found fuel next rest
    let member (low : Char) (rest : Pattern) : Option (Bool × Pattern) :=
      match rest with
      | dash :: high :: after =>
        if isSpecial dash '-' && !isSpecial high ']' then
          let (high, after) := if isSpecial high '\\' then
              match after with
              | h :: after => (h, after)
              | [] => (high, [])
            else (high, after)
          continueWith (found || isBetween low high.char c) after
        else continueWith (found || low = c) rest
      | _ => continueWith (found || low = c) rest
    if isSpecial first '[' then
      match charClass? rest with
      | some (isMember, after) => continueWith (found || isMember c) after
      | none => member '[' rest
    else if isSpecial first '\\' then
      match rest with
      | next :: rest => member next.char rest
      | [] => none
    else member first.char rest

def bracket? (c : Char) (p : Pattern) : Option (Bool × Pattern) :=
  let (inverted, p) := match p with
    | first :: rest => if isSpecial first '!' then (true, rest) else (false, p)
    | [] => (false, [])
  match p with
  | [] => none
  | first :: rest =>
    (setFrom c false (p.length + 1) first rest).map fun (found, after) => (found != inverted, after)

def matchUpTo : (fuel : Nat) → Pattern → Raw → Bool
  | 0, _, _ => false
  | _ + 1, [], t => t.isEmpty
  | fuel + 1, p :: ps, t =>
    let same (c : Char) (ps : Pattern) : Bool :=
      match t with
      | [] => false
      | d :: t => c = d && matchUpTo fuel ps t
    if p.literal then same p.char ps
    else
      match p.char with
      | '\\' =>
        match ps with
        | [] => same '\\' []
        | next :: ps => same next.char ps
      | '?' =>
        match t with
        | [] => false
        | _ :: t => matchUpTo fuel ps t
      | '*' =>
        matchUpTo fuel ps t || (match t with
          | [] => false
          | _ :: t => matchUpTo fuel (p :: ps) t)
      | '[' =>
        match t with
        | [] => false
        | c :: rest =>
          match bracket? c ps with
          | some (found, after) => found && matchUpTo fuel after rest
          | none => same '[' ps
      | c => same c ps

def accepts (p : Pattern) (t : Raw) : Bool := matchUpTo (p.length + t.length + 1) p t

def isClosed : Pattern → Bool
  | ⟨'\\', false⟩ :: _ :: next :: p | _ :: next :: p => isSpecial next ']' || isClosed (next :: p)
  | _ => false

def hasWildcards : Pattern → Bool
  | [] => false
  | ⟨'*', false⟩ :: _ | ⟨'?', false⟩ :: _ => true
  | ⟨'\\', false⟩ :: _ :: p => hasWildcards p
  | ⟨'[', false⟩ :: p =>
    isClosed (match p with
      | ⟨'!', false⟩ :: p => p
      | p => p) || hasWildcards p
  | _ :: p => hasWildcards p

def unescaped : Pattern → Raw
  | [] => []
  | ⟨'\\', false⟩ :: next :: p => next.char :: unescaped p
  | c :: p => c.char :: unescaped p

def textEnd : Char := '\x00'

def upToEnd (t : Raw) : Raw := t.takeWhile (· ≠ textEnd)

/-- Cuts what matches off a text of one or more parts, at its front or at its end. What is compared
with the pattern reaches only to the end of a part. -/
def trim (p : Pattern) (atEnd longest : Bool) (t : Raw) : Raw :=
  let places := if atEnd = longest then List.range ((upToEnd t).length + 1)
    else (List.range (t.length + 1)).reverse
  let found :=
    places.find? fun n => Pattern.accepts p (upToEnd (if atEnd then t.drop n else t.take n))
  match found with
  | none => t
  | some n => if atEnd then t.take n else t.drop n

end Pattern

end PatchTriage.Shell
