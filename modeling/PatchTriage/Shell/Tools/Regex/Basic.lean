import PatchTriage.Shell.Locale

/-!
# Regular expressions

Basic and extended regular expressions, with back references.
-/

namespace PatchTriage.Shell

inductive Edge where
  | lineStart | lineEnd | textStart | textEnd | wordStart | wordEnd | word | inside
  deriving DecidableEq

inductive Regex where
  | empty
  | char (accepts : Char → Bool)
  | edge (e : Edge)
  | group (number : Nat) (r : Regex)
  | again (number : Nat)
  | seq (a b : Regex)
  | alt (a b : Regex)
  | rep (a : Regex) (least : Nat) (most : Option Nat)

namespace Regex

/-! ## Matching -/

structure Subject where
  chars : Array Char
  locale : Locale
  ignoreCase : Bool
  isCut : Bool := false
  hasLines : Bool := false

namespace Subject

variable (t : Subject)

def wordAt (i : Nat) : Bool := t.chars[i]?.any t.locale.isWordChar

def wordBefore (i : Nat) : Bool := 0 < i && t.wordAt (i - 1)

/-- Whether the character at a position counts for the edges of words; a stray byte counts as the
character of its number. -/
def joinsAt (i : Nat) : Bool :=
  t.chars[i]?.any fun c => t.locale.isWordChar (t.locale.numbered c)

def joinsBefore (i : Nat) : Bool := 0 < i && t.joinsAt (i - 1)

def isEdge (i : Nat) : Edge → Bool
  | .lineStart | .textStart => i = 0
  | .lineEnd => i = t.chars.size && !t.isCut
  | .textEnd => i = t.chars.size
  | .wordStart => !t.joinsBefore i && t.joinsAt i
  | .wordEnd => t.joinsBefore i && !t.joinsAt i
  | .word => t.joinsBefore i != t.joinsAt i
  | .inside => t.joinsBefore i == t.joinsAt i

def part (i j : Nat) : Array Char :=
  let cs := t.chars.extract i j
  if t.ignoreCase then cs.map t.locale.upper else cs

end Subject

structure Reached where
  start : Nat
  position : Nat
  groups : List (Nat × Nat × Nat) := []
  awaits : Bool := false
  deriving DecidableEq

def Reached.atEdge (t : Subject) (s : Reached) (e : Edge) : List Reached :=
  if t.isEdge s.position e then [s]
  else if !t.hasLines then []
  else
    match e with
    | .lineStart => if s.start < s.position && t.chars[s.position - 1]? = some '\n' then [s] else []
    | .lineEnd => if t.chars[s.position]? = some '\n' then [{ s with awaits := true }] else []
    | _ => []

def repeated (step : Reached → List Reached) : (rounds : Nat) → (least : Nat) →
    List Reached → List Reached
  | 0, least, reached => if least = 0 then reached else []
  | rounds + 1, 0, reached =>
    let new := (reached.flatMap step).eraseDups.filter fun j => j ∉ reached
    if new.isEmpty then reached else reached ++ repeated step rounds 0 new
  | rounds + 1, least + 1, reached => repeated step rounds least (reached.flatMap step).eraseDups

def ends (t : Subject) (tracked : Bool) : Regex → Reached → List Reached
  | empty, s => [s]
  | char accepts, s =>
    match t.chars[s.position]? with
    | some c => if accepts c then [{ s with position := s.position + 1, awaits := false }] else []
    | none => []
  | edge e, s => s.atEdge t e
  | group number r, s =>
    let found := ends t tracked r s
    if tracked then
      found.map fun r =>
        { r with groups := (number, s.position, r.position) :: r.groups.filter (·.1 ≠ number) }
    else found
  | again number, s =>
    match s.groups.find? (·.1 = number) with
    | none => []
    | some (_, i, j) =>
      let stop := s.position + (j - i)
      if t.part s.position stop = t.part i j then [{ s with position := stop }] else []
  | seq a b, s => ((ends t tracked a s).flatMap (ends t tracked b)).eraseDups
  | alt a b, s => (ends t tracked a s ++ ends t tracked b s).eraseDups
  | rep a least most, s =>
    repeated (ends t tracked a) (most.getD (least + t.chars.size + 1)) least [s]

def endsFrom (r : Regex) (t : Subject) (tracked : Bool) (start : Nat) : List Nat :=
  ((ends t tracked r { start, position := start }).filter (!·.awaits)).map (·.position)

def isIn (r : Regex) (t : Subject) : Bool :=
  (List.range (t.chars.size + 1)).any fun i => !(r.endsFrom t false i).isEmpty

def concat (rs : List Regex) : Regex := rs.foldr .seq .empty

structure Dialect where
  extended : Bool
  ignoreCase : Bool
  locale : Locale

def Dialect.fold (d : Dialect) (c : Char) : Char := if d.ignoreCase then d.locale.upper c else c

def oneChar (d : Dialect) (c : Char) : Char → Bool := fun x => x = c || d.fold x = d.fold c

def exactly (d : Dialect) (t : Text) : Regex := concat (t.map fun c => .char (oneChar d c))

def maxRepetitions : Nat := 32767

end Regex

end PatchTriage.Shell

namespace PatchTriage.Shell.Regex

/-! ## Sets of characters between brackets -/

inductive Element where
  | char (c : Char)
  | class (name : Text)
  | symbol (name : Text)
  | equivalents (name : Text)

namespace Bracket

def name? (mark : Char) : Text → Option (Text × Text)
  | [] => none
  | c :: t =>
    if c = mark && t.head? = some ']' then some ([], t.drop 1)
    else (name? mark t).map fun (n, r) => (c :: n, r)

def maxName : Nat := 31

def unmatched : Raw := "Unmatched [, [^, [:, [., or [="

def badRange : Raw := "Invalid range end"

def badSymbol : Raw := "Invalid collation character"

variable (d : Dialect)

def element (mayBeDash : Bool) (t : Text) : Except Raw (Element × Text) :=
  let named (mark : Char) (rest : Text) : Except Raw (Element × Text) :=
    match name? mark rest with
    | none => .error unmatched
    | some (name, after) =>
      if maxName < (d.locale.encode name).length then .error unmatched
      else if mark = ':' then .ok (.class name, after)
      else if mark = '.' then .ok (.symbol name, after)
      else .ok (.equivalents name, after)
  match t with
  | [] => .error unmatched
  | '[' :: ':' :: rest => named ':' rest
  | '[' :: '.' :: rest => named '.' rest
  | '[' :: '=' :: rest => named '=' rest
  | '-' :: rest =>
    if mayBeDash || rest.head? = some ']' then .ok (.char '-', rest) else .error badRange
  | c :: rest => .ok (.char c, rest)

def isSymbol (l : Locale) (c : Char) : Bool := l = .bytes || c.toNat < 128

def symbol : Text → Except Raw Char
  | [c] => if isSymbol d.locale (d.fold c) then .ok (d.fold c) else .error badSymbol
  | _ => .error badSymbol

/-- The characters of a class; capital letters and small ones are all letters where case does not
count. -/
def classOf (name : Text) : Option (Char → Bool) :=
  let isCase := name = "upper".toList || name = "lower".toList
  d.locale.holds? (if d.ignoreCase && isCase then "alpha" else name)

def accepts : Element → Except Raw (Char → Bool)
  | .char c => .ok (· = d.fold c)
  | .class name =>
    match classOf d name with
    | some f => .ok f
    | none => .error "Invalid character class name"
  | .symbol name | .equivalents name => do
    let c ← symbol d name
    return (· = c)

def beginsRange : Element → Bool
  | .char _ | .symbol _ => true
  | .class _ | .equivalents _ => false

def range (low high : Element) : Except Raw (Char → Bool) := do
  let bound : Element → Except Raw Char
    | .char c | .symbol [c] => symbol d [c]
    | .symbol _ => .error badSymbol
    | .class _ | .equivalents _ => .error badRange
  if !beginsRange low || !beginsRange high then throw badRange
  let a ← bound low
  let b ← bound high
  if b < a then throw badRange
  return fun c => a ≤ c && c ≤ b

def elements (d : Dialect) : (fuel : Nat) → (isFirst : Bool) → Text →
    Except Raw ((Char → Bool) × Text)
  | 0, _, _ => .error unmatched
  | fuel + 1, isFirst, t => do
    if !isFirst && t.head? = some ']' then return (fun _ => false, t.drop 1)
    let (low, rest) ← element d isFirst t
    let isRange : Bool ← match beginsRange low, rest with
      | true, [] | true, ['-'] => throw unmatched
      | true, '-' :: next :: _ => pure (next ≠ ']')
      | _, _ => pure false
    let (here, rest) ← if isRange then do
        let (high, rest) ← element d true (rest.drop 1)
        pure (← range d low high, rest)
      else do pure (← accepts d low, rest)
    if rest.isEmpty then throw unmatched
    let (more, rest) ← elements d fuel false rest
    return (fun c => here c || more c, rest)

def read (t : Text) : Except Raw ((Char → Bool) × Text) := do
  let negated := t.head? = some '^'
  let body := if negated then t.drop 1 else t
  if body.isEmpty then throw ("Invalid regular expression" : Raw)
  let (accepts, rest) ← elements d (body.length + 1) true body
  return (fun c => d.locale.isSound c && accepts (d.fold c) != negated, rest)

end Bracket

end PatchTriage.Shell.Regex
