import PatchTriage.Shell.Tools.Regex.Basic

/-!
# The exact reading of expressions

The reading by which the parts of a line are found that match, token by token (`Exact.token`).
-/

namespace PatchTriage.Shell.Regex.Exact

variable (d : Dialect)

inductive Token where
  | char (c : Char)
  | raw (c : Char)
  | star
  | plus
  | question
  | openBounds
  | closeBounds
  | alt
  | opening
  | closing
  | bracket
  | any
  | edge (e : Edge)
  | again (number : Nat)
  | word (isNegated : Bool)
  | space (isNegated : Bool)
  | lone
  | finish
  deriving DecidableEq

def operator? : Char → Option Token
  | '(' => some .opening
  | ')' => some .closing
  | '|' => some .alt
  | '+' => some .plus
  | '?' => some .question
  | '\x7b' => some .openBounds
  | '\x7d' => some .closeBounds
  | _ => none

def escaped (c : Char) : Token :=
  match c with
  | '<' => .edge .wordStart
  | '>' => .edge .wordEnd
  | 'b' => .edge .word
  | 'B' => .edge .inside
  | '\x60' => .edge .textStart
  | '\'' => .edge .textEnd
  | 'w' => .word false
  | 'W' => .word true
  | 's' => .space false
  | 'S' => .space true
  | c =>
    if '1' ≤ c && c ≤ '9' then .again (c.toNat - '0'.toNat)
    else ((operator? c).filter fun _ => !d.extended).getD (.raw c)

def plain (anchors : Bool) (c : Char) (rest : Text) : Token :=
  let endsLine := d.extended || match rest with
    | [] => true
    | '\\' :: c :: _ => c = ')' || c = '|'
    | _ => false
  match c with
  | '.' => .any
  | '[' => .bracket
  | '*' => .star
  | '^' => if d.extended || anchors then .edge .lineStart else .char c
  | '$' => if endsLine then .edge .lineEnd else .char c
  | c => ((operator? c).filter fun _ => d.extended).getD (.char c)

def token (anchors : Bool) : Text → Token × Text
  | [] => (.finish, [])
  | ['\\'] => (.lone, [])
  | '\\' :: c :: rest => (escaped d c, rest)
  | c :: rest => (plain d anchors c rest, rest)

structure Cursor where
  token : Token
  rest : Text
  groups : Nat := 0
  complete : List Nat := []

abbrev Read := StateT Cursor (Except Raw)

def advance (anchors : Bool) : Read Unit :=
  modify fun s =>
    let (token, rest) := token d anchors s.rest
    { s with token, rest }

/-! ## Repetitions -/

inductive Count where
  | absent
  | value (n : Nat)
  | wrong

def Token.char? : Token → Option Char
  | .char c | .raw c => some c
  | _ => none

def Count.extend (n : Count) (t : Token) : Count :=
  match n, t.char? with
  | .absent, some c => if c.isDigit then .value (c.toNat - '0'.toNat) else .wrong
  | .value n, some c =>
    if c.isDigit then .value (min (maxRepetitions + 1) (10 * n + (c.toNat - '0'.toNat))) else .wrong
  | _, _ => .wrong

def count (d : Dialect) : (fuel : Nat) → Count → Read Count
  | 0, _ => return .wrong
  | fuel + 1, n => do
    advance d false
    match (← get).token with
    | .finish => return .wrong
    | .closeBounds => return n
    | t => if t.char? = some ',' then return n else count d fuel (n.extend t)

def badBounds : Raw := "Invalid content of \\\x7b\\\x7d"

/-- Reads the bounds of a repetition. What is no bounds in an extended expression opens with a
character. -/
def bounds : Read (Option (Nat × Option Nat)) := do
  let front ← get
  let fuel := front.rest.length + 1
  let least ← match ← count d fuel .absent with
    | .absent => if (← get).token.char? = some ',' then pure (.value 0) else throw badBounds
    | n => pure n
  let most ← match least, (← get).token with
    | .value n, .closeBounds => pure (.value n)
    | .value _, t => if t.char? = some ',' then count d fuel .absent else pure .wrong
    | _, _ => pure .wrong
  let checked (least : Nat) (most : Option Nat) : Read (Option (Nat × Option Nat)) := do
    if most.getD least < least || (← get).token ≠ .closeBounds then throw badBounds
    if maxRepetitions < most.getD least then throw ("Regular expression too big" : Raw)
    return some (least, most)
  match least, most with
  | .value a, .value b => checked a (some b)
  | .value a, .absent => checked a none
  | _, _ =>
    if d.extended then
      set { front with token := .char '\x7b' }
      return none
    else if (← get).token = .finish then throw ("Unmatched \\\x7b" : Raw)
    else throw badBounds

def repetitions (d : Dialect) : (fuel : Nat) → Regex → Read Regex
  | 0, r => return r
  | fuel + 1, r => do
    let repeated (least : Nat) (most : Option Nat) : Read Regex := do
      advance d false
      repetitions d fuel (.rep r least most)
    match (← get).token with
    | .star => repeated 0 none
    | .plus => repeated 1 none
    | .question => repeated 0 (some 1)
    | .openBounds =>
      match ← bounds d with
      | some (least, most) => repeated least most
      | none => return r
    | _ => return r

/-! ## Expressions -/

def Token.endsSequence (nest : Nat) : Token → Bool
  | .alt | .finish => true
  | .closing => 0 < nest
  | _ => false

def operand (r : Regex) : Read Regex := do
  advance d false
  repetitions d ((← get).rest.length + 1) r

mutual

def alternatives (d : Dialect) : (fuel nest : Nat) → Read Regex
  | 0, _ => return .empty
  | fuel + 1, nest => do
    let known := (← get).complete
    moreAlternatives d fuel nest known (← sequence d fuel nest)

def moreAlternatives (d : Dialect) : (fuel nest : Nat) → (known : List Nat) → Regex → Read Regex
  | 0, _, _, r => return r
  | fuel + 1, nest, known, r => do
    if (← get).token ≠ .alt then return r
    advance d true
    if (← get).token.endsSequence nest then moreAlternatives d fuel nest known (.alt r .empty)
    else
      let found := (← get).complete
      modify ({ · with complete := known })
      let next ← sequence d fuel nest
      modify fun s => { s with complete := s.complete ++ found }
      moreAlternatives d fuel nest known (.alt r next)

def sequence (d : Dialect) : (fuel nest : Nat) → Read Regex
  | 0, _ => return .empty
  | fuel + 1, nest => do
    let r ← expression d fuel nest
    if (← get).token.endsSequence nest then return r
    return .seq r (← sequence d fuel nest)

def expression (d : Dialect) : (fuel nest : Nat) → Read Regex
  | 0, _ => return .empty
  | fuel + 1, nest => do
    let set (p : Char → Bool) (isNegated : Bool) : Regex :=
      .char fun c => d.locale.isSound c && p c != isNegated
    let literal (c : Char) : Read Regex := operand d (.char (oneChar d c))
    let loose (c : Char) : Read Regex :=
      if d.extended then do
        advance d false
        expression d fuel nest
      else literal c
    match (← get).token with
    | .char c => literal c
    | .raw c => if c.toNat < 128 then operand d (.char (d.fold · = c)) else literal c
    | .any => operand d (.char d.locale.isSound)
    | .word isNegated => operand d (set d.locale.isWordChar isNegated)
    | .space isNegated => operand d (set d.locale.isSpace isNegated)
    | .star => loose '*'
    | .plus => loose '+'
    | .question => loose '?'
    | .openBounds => loose '\x7b'
    | .closeBounds => literal '\x7d'
    | .closing => if d.extended then literal ')' else throw ("Unmatched ) or \\)" : Raw)
    | .bracket =>
      let (accepts, rest) ← Bracket.read d (← get).rest
      modify ({ · with rest })
      operand d (.char accepts)
    | .again n =>
      if n ∈ (← get).complete then operand d (.again n)
      else throw ("Invalid back reference" : Raw)
    | .opening =>
      let n := (← get).groups + 1
      modify ({ · with groups := n })
      advance d true
      let r ← if (← get).token = .closing then pure .empty else alternatives d fuel (nest + 1)
      if (← get).token ≠ .closing then throw ("Unmatched ( or \\(" : Raw)
      modify fun s => { s with complete := n :: s.complete }
      operand d (.group n r)
    | .edge e =>
      advance d false
      return .edge e
    | .lone => throw ("Trailing backslash" : Raw)
    | .alt | .finish => return .empty

end

def parse (d : Dialect) (t : Text) : Except Raw Regex := do
  let (token, rest) := token d true t
  return (← (alternatives d (4 * t.length + 8) 0).run { token, rest }).1

def mayGoBack : Text → Bool
  | '\\' :: c :: rest => ('1' ≤ c && c ≤ '9') || mayGoBack rest
  | _ :: rest => mayGoBack rest
  | [] => false

end PatchTriage.Shell.Regex.Exact
