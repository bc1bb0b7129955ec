import PatchTriage.Shell.Tools.Regex.Basic

/-!
# The reading of expressions that tells whether lines match

A reading that only tells whether a line matches (`Screen.read`), of all expressions of a search at
once.
-/

namespace PatchTriage.Shell.Regex.Screen

variable (d : Dialect)

structure Part where
  regex : Option Regex
  wide : Regex

namespace Part

def of (r : Regex) : Part := { regex := some r, wide := r }

def unknown : Part := { regex := none, wide := .rep (.char fun _ => true) 0 none }

def seq (a b : Part) : Part :=
  { regex := do return .seq (← a.regex) (← b.regex), wide := .seq a.wide b.wide }

def alt (a b : Part) : Part :=
  { regex := do return .alt (← a.regex) (← b.regex), wide := .alt a.wide b.wide }

def rep (a : Part) (least : Nat) (most : Option Nat) : Part :=
  if most = some 0 then of .empty
  else { regex := a.regex.map (.rep · least most), wide := .rep a.wide least most }

end Part

inductive Token where
  | operand (r : Part)
  | rep (least : Nat) (most : Option Nat)
  | alt
  | opening
  | closing
  | finish

structure Scan where
  rest : Text
  token : Token := .finish
  isStart : Bool := true
  anchors : Bool := true
  nest : Nat := 0
  warnings : List Raw := []

abbrev Read := ExceptT Raw (StateM Scan)

/-! ## Letters -/

def loneSmalls : List Char :=
  (Text.readStretches "GzaEuaDaaCsadadaBnaNbaEvaoabaeabaBaabaeaKCkaLfa").map fun s =>
    Char.ofNat s.first

def counterparts (c : Char) : List Char :=
  if !d.ignoreCase then [c]
  else
    let capital := d.locale.upper c
    let smalls := d.locale.lower capital :: (if d.locale = .utf8 then loneSmalls else [])
    c :: capital :: smalls.filter fun x => d.locale.upper x = capital

/-! ## Bracket expressions -/

structure Members where
  accepts : Char → Bool := fun _ => false
  isKnown : Bool := true
  hasOthers : Bool := false
  endsInColon : Bool := false
  hasParts : Bool := false

namespace Members

def add (m : Members) (p : Char → Bool) : Members :=
  { m with accepts := fun c => p c || m.accepts c }

def single (m : Members) (c : Char) : Members :=
  let m := { m with hasOthers := m.hasOthers || c ≠ ':', endsInColon := c = ':' }
  if !d.locale.isSound c then { m with isKnown := false }
  else
    let cs := counterparts d c
    m.add (· ∈ cs)

def range (m : Members) (a b : Char) : Members :=
  let m := { m with hasParts := true, endsInColon := false }
  let isIn (c : Char) : Bool := a ≤ c && c ≤ b
  if d.locale = .bytes || (a.isDigit && b.isDigit) then
    m.add fun c => isIn c || (d.ignoreCase && (isIn c.toUpper || isIn c.toLower))
  else { m with isKnown := false }

def part (m : Members) (mark : Char) (name : Text) : Except Raw Members :=
  let m := { m with hasParts := true, endsInColon := false }
  let unknown := { m with isKnown := false }
  if mark ≠ ':' then .ok unknown
  else
    match Bracket.classOf d name with
    | none => .error "invalid character class"
    | some p => .ok (if d.locale = .bytes || name = "digit".toList then m.add p else unknown)

end Members

def unbalanced : Raw := "unbalanced ["

def members (d : Dialect) : (fuel : Nat) → (isFirst : Bool) → Text → Members →
    Except Raw (Members × Text)
  | 0, _, _, _ => .error unbalanced
  | _ + 1, _, [], _ => .error unbalanced
  | fuel + 1, isFirst, c :: rest, m =>
    let isMark : Char → Bool := fun x => x = ':' || x = '.' || x = '='
    if c = ']' && !isFirst then .ok (m, rest)
    else if c = '[' && rest.head?.any isMark then
      match Bracket.name? (rest.headD ':') (rest.drop 1) with
      | none => .error unbalanced
      | some (name, after) => do members d fuel false after (← m.part d (rest.headD ':') name)
    else
      match rest with
      | '-' :: high :: after =>
        let isSymbol := high = '[' && after.head? = some '.'
        if isSymbol then members d fuel false rest { m.single d c with isKnown := false }
        else if high = ']' then members d fuel false rest (m.single d c)
        else members d fuel false after (m.range d c high)
      | rest => members d fuel false rest (m.single d c)

/-- Reads a bracket expression after its opening: the characters that it stands for, if that is
known. -/
def bracket (t : Text) : Except Raw (Option (Char → Bool) × Text) := do
  let negated := t.head? = some '^'
  let body := if negated then t.drop 1 else t
  let (m, rest) ← members d (body.length + 1) true body {}
  if body.head? = some ':' && m.hasOthers && m.endsInColon && !m.hasParts then
    throw ("character class syntax is [[:space:]], not [:space:]" : Raw)
  let isKnown := m.isKnown && (d.locale = .bytes || !negated)
  return (if isKnown then some fun c => m.accepts c != negated else none, rest)

/-! ## Tokens -/

def bounds? (t : Text) : Option ((Nat × Option Nat) × Text) :=
  let digits (t : Text) : Option Nat × Text :=
    let ds := t.takeWhile Char.isDigit
    (if ds.isEmpty then none else some (Text.digitsValue 0 ds), t.drop ds.length)
  let close : Text → Option Text
    | '\x7d' :: rest => if d.extended then some rest else none
    | '\\' :: '\x7d' :: rest => if d.extended then none else some rest
    | _ => none
  let (low, rest) := digits t
  match rest with
  | ',' :: rest =>
    let (high, rest) := digits rest
    let least := low.getD 0
    if high.getD least < least then none else (close rest).map fun rest => ((least, high), rest)
  | rest => do
    let n ← low
    return ((n, some n), ← close rest)

def operand (r : Part) : Read Unit :=
  modify ({ · with token := .operand r, isStart := false, anchors := false })

def edge (e : Edge) : Read Unit :=
  let isKnown := d.locale = .bytes || e = .lineStart || e = .lineEnd
  let r : Part := if isKnown then .of (.edge e) else { regex := none, wide := .empty }
  modify ({ · with token := .operand r, anchors := false })

def literal (c : Char) : Read Unit :=
  let cs := counterparts d c
  operand (if d.locale.isSound c then .of (.char (· ∈ cs)) else .unknown)

def set (p : Char → Bool) (isNegated : Bool) : Read Unit :=
  operand (if d.locale = .bytes then .of (.char fun c => p c != isNegated) else .unknown)

def operator (c : Char) (shown : Raw) (least : Nat) (most : Option Nat) : Read Unit := do
  if (← get).isStart && !d.extended then literal d c
  else
    if (← get).isStart then
      let warning := shown ++ " at start of expression"
      modify fun s => { s with warnings := s.warnings ++ [warning] }
    modify ({ · with token := .rep least most, anchors := false })

def interval : Read Unit := do
  let isStart := (← get).isStart
  match bounds? d (← get).rest with
  | none =>
    if d.extended || isStart then literal d '\x7b'
    else throw ("invalid content of \\\x7b\\\x7d" : Raw)
  | some ((least, most), rest) =>
    operator d '\x7b' "\x7b...\x7d" least most
    if d.extended || !isStart then
      if maxRepetitions < most.getD 0 then throw ("regular expression too big" : Raw)
      modify ({ · with rest, isStart := false })

def alternative : Read Unit := modify ({ · with token := .alt, isStart := true, anchors := true })

/-- Takes a character for operators and groups as the present token, unless it is a plain one; a
backslash in front decides. -/
def special (c : Char) : Read Unit := do
  match c with
  | '+' => operator d c [c] 1 none
  | '?' => operator d c [c] 0 (some 1)
  | '\x7b' => interval d
  | '|' => alternative
  | '(' => modify fun s =>
    { s with token := .opening, isStart := true, anchors := true, nest := s.nest + 1 }
  | ')' =>
    if d.extended && (← get).nest = 0 then literal d c
    else modify fun s =>
      { s with token := .closing, isStart := false, anchors := false, nest := s.nest - 1 }
  | c => literal d c

def endsLine : Text → Bool
  | [] => true
  | '\\' :: c :: _ => d.extended || c = ')' || c = '|'
  | c :: rest => d.extended || c = '\n' || ((c = ')' || c = '|') && !rest.isEmpty)

def advance : Read Unit := do
  let s ← get
  match s.rest with
  | [] => MonadState.set { s with token := .finish }
  | ['\\'] => throw ("unfinished \\ escape" : Raw)
  | '\\' :: c :: rest =>
    MonadState.set { s with rest }
    match c with
    | '<' => edge d .wordStart
    | '>' => edge d .wordEnd
    | 'b' => edge d .word
    | 'B' => edge d .inside
    | '\x60' => edge d .lineStart
    | '\'' => edge d .lineEnd
    | 'w' => set d d.locale.isWordChar false
    | 'W' => set d d.locale.isWordChar true
    | 's' => set d d.locale.isSpace false
    | 'S' => set d d.locale.isSpace true
    | c =>
      if '1' ≤ c && c ≤ '9' then operand .unknown
      else if d.extended then literal d c
      else special d c
  | c :: rest =>
    MonadState.set { s with rest }
    match c with
    | '^' => if d.extended || s.anchors then edge d .lineStart else literal d c
    | '$' => if endsLine d rest then edge d .lineEnd else literal d c
    | '*' => operator d c [c] 0 none
    | '\n' => alternative
    | '.' => operand (.of (.char d.locale.isSound))
    | '[' =>
      let (accepts, rest) ← (bracket d rest : Except Raw _)
      modify ({ · with rest })
      operand ((accepts.map fun p => Part.of (.char p)).getD .unknown)
    | c => if d.extended then special d c else literal d c

/-! ## Expressions -/

def repetitions (d : Dialect) : (fuel : Nat) → Part → Read Part
  | 0, r => return r
  | fuel + 1, r => do
    match (← get).token with
    | .rep least most =>
      advance d
      repetitions d fuel (r.rep least most)
    | _ => return r

mutual

def alternatives (d : Dialect) : (fuel : Nat) → Read Part
  | 0 => return .of .empty
  | fuel + 1 => do
    let r ← sequence d fuel
    match (← get).token with
    | .alt =>
      advance d
      return r.alt (← alternatives d fuel)
    | _ => return r

def sequence (d : Dialect) : (fuel : Nat) → Read Part
  | 0 => return .of .empty
  | fuel + 1 => do
    let first ← match (← get).token with
      | .alt | .closing | .finish => return .of .empty
      | .operand r =>
        advance d
        pure r
      | .rep _ _ => pure (.of .empty)
      | .opening =>
        advance d
        let r ← alternatives d fuel
        if !((← get).token matches .closing) then throw ("unbalanced (" : Raw)
        advance d
        pure r
    let r ← repetitions d ((← get).rest.length + 1) first
    return r.seq (← sequence d fuel)

end

def whole (fuel : Nat) : Read Part := do
  advance d
  let r ← alternatives d fuel
  if !((← get).token matches .finish) then throw ("unbalanced )" : Raw)
  return r

structure Reading where
  warnings : List Raw
  result : Except Raw Part

def read (t : Text) : Reading :=
  let (result, s) := (whole d (4 * t.length + 8)).run.run { rest := t }
  { warnings := s.warnings, result }

def wrapped (wholeLine wholeWord : Bool) (t : Text) : Text :=
  let front : Text := if d.extended then ['('] else ['\\', '(']
  let back : Text := if d.extended then [')'] else ['\\', ')']
  let bar : Text := if d.extended then ['|'] else ['\\', '|']
  let outside := "[^[:alnum:]_]".toList
  if wholeLine then '^' :: front ++ t ++ back ++ ['$']
  else if wholeWord then
    front ++ '^' :: bar ++ outside ++ back ++ front ++ t ++ back ++ front ++ outside ++ bar
      ++ '$' :: back
  else t

end PatchTriage.Shell.Regex.Screen
