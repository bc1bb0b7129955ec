import PatchTriage.Shell.Tools.Backtrack.CharSet

/-!
# The grammar of expressions with ways back

How references, escapes, repetitions, groups and alternatives are written. A text is read twice: the
first reading finds the groups, so that the second one knows them before they are written.
-/

namespace PatchTriage.Shell.Tools.Backtrack

open Parse

/-! ## References -/

def startsNumber : Text → Bool
  | [] => false
  | c :: t => c.isDigit || ((c = '+' || c = '-') && t.head?.any Char.isDigit)

def number? : Parse (Option Nat) := do
  let t ← rest
  if !startsNumber t then return none
  let sign := t.head?.filter fun c => !c.isDigit
  if sign.isSome then skip 1
  let n := valueOf 10 (← Parse.stretch Char.isDigit)
  if 65535 < n then fail .groupSize
  let groups := (← get).groups
  match sign with
  | none => return some n
  | some c =>
    if n = 0 then fail "a relative value of zero is not allowed"
    if c = '+' then return some (groups + n)
    if groups < n then fail .missingGroup
    return some (groups - n + 1)

def refer (n : Nat) : Parse Unit := later (.group n)

def maxName : Nat := 32

def name (finish : Char) : Parse Text := do
  match ← rest with
  | [] => fail .nameExpected
  | c :: _ => if c.isDigit then fail "subpattern name must start with a non-digit"
  let t ← Parse.stretch isWordChar
  if maxName < t.length then fail "subpattern name is too long (maximum 32 code units)"
  if t.isEmpty then fail .nameExpected
  match ← rest with
  | c :: _ => if c ≠ finish then fail .nameEnd
  | [] => fail .nameEnd
  skip 1
  return t

def named (t : Text) : Parse (List Nat) := do
  later (.name t)
  let r ← get
  return ((r.known.filter (·.1 = t)).map Prod.snd).reverse

def again (numbers : List Nat) : Parse Expression := do
  return .again numbers (← get).flags.ignoreCase

def callOf (numbers : List Nat) : Parse Expression :=
  return match numbers with
    | n :: _ => .call n
    | [] => .again [] false

def closing : Char → Char
  | '<' => '>'
  | '\x7b' => '\x7d'
  | c => c

def namedReference : Parse Expression := do
  match ← rest with
  | c :: _ =>
    if c ∉ ['<', '\'', '\x7b'] then fail .malformedName
    skip 1
    again (← named (← name (closing c)))
  | [] => fail .malformedName

def generalReference : Parse Expression := do
  match ← rest with
  | [] => fail .malformedReference
  | c :: t =>
    if c = '<' || c = '\'' then
      skip 1
      match ← number? with
      | some n =>
        if (← next .malformedReference) ≠ closing c then fail .malformedReference
        if n ≠ 0 then refer n
        return .call n
      | none => callOf (← named (← name (closing c)))
    else
      let isBraced := c = '\x7b'
      if isBraced then
        if t.length < 2 || !startsNumber t then return ← namedReference
        skip 1
      match ← number? with
      | none => fail .malformedReference
      | some n =>
        if isBraced then if !(← accepts "\x7d") then fail .malformedReference
        if n = 0 then fail .missingGroup
        refer n
        again [n]

/-! ## Escapes -/

def lineBreak (u : Setup) : Expression :=
  let one (c : Char) : Bool := if u.narrowBreaks then c = '\r' || c = '\n' else isVertical c
  .atomic (.alt 0 (.seq (.char (· = '\r')) (.char (· = '\n'))) (.char one))

def inLine (r : Reading) : Expression :=
  let n := r.setup.newline
  let near : Expression := .char fun c => r.locale.isSound c && !n.holds c
  if n = .pair then .seq (.ahead false (.seq (.char (· = '\r')) (.char (· = '\n')))) near else near

def escape : Parse (Expression × Bool) := do
  let c ← next .lastBackslash
  let l := (← get).locale
  match ← charEscape? c false with
  | some c => return (← literal c, true)
  | none =>
    match ← setEscape? c false with
    | some p => return (.char fun c => l.isSound c && p c, true)
    | none =>
      match c with
      | 'A' => return (.place .textStart, false)
      | 'z' => return (.place .textEnd, false)
      | 'Z' => return (.place .lastBreak, false)
      | 'G' => return (.place .searchStart, false)
      | 'b' => return (.place .wordEdge, false)
      | 'B' => return (.place .wordInside, false)
      | 'K' =>
        if (← get).asserting then
          later (.fault
            "\\K is not allowed in lookarounds (but see PCRE2_EXTRA_ALLOW_LOOKAROUND_BSK)")
        return (.keep, false)
      | 'N' => return (inLine (← get), true)
      | 'R' => return (lineBreak (← get).setup, true)
      | 'X' => return (.cluster, true)
      | 'C' => return (if l = .bytes then .char fun _ => true else .byte, true)
      | 'g' => return (← generalReference, true)
      | 'k' => return (← namedReference, true)
      | c =>
        if !c.isDigit then fail (refusal c)
        let n := valueOf 10 (c :: (← Parse.stretch Char.isDigit))
        if 65535 < n then fail .groupSize
        refer n
        return (← again [n], true)

/-! ## Repetitions -/

def bounds? : Parse (Option (Nat × Option Nat)) := do
  if ← accepts "*" then return some (0, none)
  if ← accepts "+" then return some (1, none)
  if ← accepts "?" then return some (0, some 1)
  match ← rest with
  | '\x7b' :: t =>
    if !isBounds t then return none
    skip 1
    return some (← writtenBounds)
  | _ => return none

def greed : Parse Greed := do
  let ungreedy := (← get).flags.ungreedy
  if ← accepts "?" then return if ungreedy then .most else .fewest
  if ← accepts "+" then return .possessive
  return if ungreedy then .fewest else .most

def passIgnored : (fuel : Nat) → Parse Unit
  | 0 => return ()
  | fuel + 1 => do
    let r ← get
    if r.quoting then
      if ← accepts "\\E" then
        set { ← get with quoting := false }
        passIgnored fuel
    else if ← accepts "\\Q" then
      set { ← get with quoting := true }
      passIgnored fuel
    else if ← accepts "\\E" then passIgnored fuel
    else if ← accepts "(?#" then
      let _ ← Parse.stretch (· ≠ ')')
      let _ ← next "missing ) after (?# comment"
      passIgnored fuel
    else if r.flags.extended then
      match r.rest with
      | c :: _ =>
        if isSpace c then
          skip 1
          passIgnored fuel
        else if c = '#' then
          let _ ← Parse.stretch (· ≠ '\n')
          passIgnored fuel
      | [] => return ()

def ignore : Parse Unit := do passIgnored ((← rest).length + 1)

def repetition (e : Expression) (mayRepeat : Bool) : Parse Expression := do
  ignore
  if (← get).quoting then return e
  match ← bounds? with
  | none => return e
  | some (least, most) =>
    if !mayRepeat then fail .nothingToRepeat
    return .rep e least most (← greed)

/-! ## Groups -/

def branches : List Expression → Expression
  | [] => .empty
  | [e] => e
  | e :: es => .alt 0 e (branches es)

def Flags.set (f : Flags) (c : Char) (value : Bool) : Option Flags :=
  match c with
  | 'i' => some { f with ignoreCase := value }
  | 'm' => some { f with multiline := value }
  | 's' => some { f with dotAll := value }
  | 'x' => some { f with extended := value, looseSets := false }
  | 'n' => some { f with noCapture := value }
  | 'U' => some { f with ungreedy := value }
  | 'J' => some { f with duplicates := value }
  | _ => none

def flagsUpTo : (fuel : Nat) → (value : Bool) → Flags → Parse Flags
  | 0, _, f => return f
  | fuel + 1, value, f => do
    match ← rest with
    | [] => fail .unclosed
    | c :: _ =>
      if c = ')' || c = ':' then return f
      skip 1
      if c = '-' then
        if !value then fail "invalid hyphen in option setting"
        flagsUpTo fuel false f
      else if c = 'x' && (← rest).head? = some 'x' then
        skip 1
        flagsUpTo fuel value { f with extended := value, looseSets := value }
      else
        match f.set c value with
        | some f => flagsUpTo fuel value f
        | none => fail "unrecognized character after (? or (?-"

def newGroup (name : Option Text) : Parse Nat := do
  let r ← get
  let n := r.groups + 1
  match name with
  | some t =>
    if !r.flags.duplicates && r.names.any fun (k, m) => k = t && m ≠ n then
      fail "two named subpatterns have the same name (PCRE2_DUPNAMES not set)"
    set { r with groups := n, names := (t, n) :: r.names }
  | none => set { r with groups := n }
  return n

def verb? : String → Option Expression
  | "F" | "FAIL" => some .fail
  | "ACCEPT" => some .accept
  | "COMMIT" => some (.verb .commit)
  | "PRUNE" => some (.verb .prune)
  | "THEN" => some (.verb (.alternative 0))
  | "SKIP" => some (.verb .skip)
  | _ => none

def asserted (p : Parse Expression) : Parse Expression := do
  let outer := (← get).asserting
  modify fun r => { r with asserting := true }
  let e ← p
  modify fun r => { r with asserting := outer }
  return e

def close (fault : Fault) : Parse Unit := do if !(← accepts ")") then fail fault

def numberedCall : Parse Expression := do
  match ← number? with
  | none => fail .digitExpected
  | some n =>
    close .unclosed
    if n ≠ 0 then refer n
    return .call n

def namedCall (finish : Char) : Parse Expression := do callOf (← named (← name finish))

def callout : Parse Unit := do
  match ← rest with
  | c :: _ =>
    if c = ')' || c.isDigit then
      let n := valueOf 10 (← Parse.stretch Char.isDigit)
      if 255 < n then fail "number after (?C is greater than 255"
      close "closing parenthesis for (?C expected"
    else fail "unrecognized string delimiter follows (?C"
  | [] => fail .unclosed

inductive Condition where
  | isSet (numbers : List Nat)
  | never
  | define
  | assertion

def condition : Parse Condition := do
  match ← rest with
  | [] => fail .unclosed
  | c :: t =>
    if c = '?' || c = '*' then return .assertion
    if startsNumber (c :: t) then
      let n := (← number?).getD 0
      close .unclosedCondition
      if n = 0 then fail .missingGroup
      refer n
      return .isSet [n]
    if ← accepts "DEFINE)" then return .define
    if ← accepts "R)" then return .never
    if c = '<' || c = '\'' then
      skip 1
      let numbers ← named (← name (closing c))
      close .unclosedCondition
      return .isSet numbers
    return .isSet (← named (← name ')'))

/-- The call of a group by its number; or options, which hold up to the end of the group around them
or for what is inside of theirs. -/
def optioned (t : Text) (inside : Parse Expression) : Parse (Expression × Bool) := do
  if startsNumber t then return (← numberedCall, true)
  if t.head? = some '+' then fail .digitExpected
  let r ← get
  let start : Flags := if ← accepts "^" then
      { duplicates := r.flags.duplicates, ungreedy := r.flags.ungreedy }
    else r.flags
  let f ← flagsUpTo (t.length + 1) true start
  modify fun r => { r with flags := f }
  if ← accepts ")" then return (.empty, false)
  skip 1
  let e ← inside
  modify fun now => { now with flags := r.flags }
  return (e, true)

mutual

def alternatives (resets : Bool) (base : Nat) : (fuel : Nat) → Parse (List Expression)
  | 0 => return []
  | fuel + 1 => do
    let e ← sequence fuel
    if !(← accepts "|") then return [e]
    let reached := (← get).groups
    if resets then modify fun r => { r with groups := base }
    let es ← alternatives resets base fuel
    modify fun r => { r with groups := max r.groups reached }
    return e :: es

def sequence : (fuel : Nat) → Parse Expression
  | 0 => return .empty
  | fuel + 1 => do
    ignore
    let r ← get
    match r.rest with
    | [] => return .empty
    | c :: _ =>
      if !r.quoting && (c = '|' || c = ')') then return .empty
      if !r.quoting then if (← bounds?).isSome then fail .nothingToRepeat
      skip 1
      let (e, mayRepeat) ← if r.quoting then do pure (← literal c, true) else part fuel c
      let e ← repetition e mayRepeat
      return .seq e (← sequence fuel)

def part : (fuel : Nat) → (c : Char) → Parse (Expression × Bool)
  | 0, _ => return (.empty, false)
  | fuel + 1, c => do
    let r ← get
    match c with
    | '^' => return (.place (if r.flags.multiline then .lineStart else .front), false)
    | '$' => return (.place (if r.flags.multiline then .lineEnd else .textEnd), false)
    | '.' => return (if r.flags.dotAll then .char r.locale.isSound else inLine r, true)
    | '[' =>
      if ← accepts "[:<:]]" then
        return (.seq (.place .wordEdge) (.ahead true (.char r.setup.isWordChar)), false)
      if ← accepts "[:>:]]" then
        return (.seq (.place .wordEdge) (.behind true 1 (.char r.setup.isWordChar)), false)
      if isNamedClass r.rest then
        fail (if r.rest.head? = some ':' then
          "POSIX named classes are supported only within a class" else .collating)
      return (← bracketed, true)
    | '(' => group fuel
    | '\\' => escape
    | c => return (← literal c, true)

def body (resets : Bool) : (fuel : Nat) → Parse (List Expression)
  | 0 => return []
  | fuel + 1 => do
    let r ← get
    let es ← alternatives resets r.groups fuel
    close .unclosed
    modify fun after => { after with flags := r.flags }
    return es

def group : (fuel : Nat) → Parse (Expression × Bool)
  | 0 => return (.empty, false)
  | fuel + 1 => do
    let r ← get
    match r.rest with
    | '?' :: _ =>
      skip 1
      special fuel
    | '*' :: c :: _ =>
      if c.isAlpha || c = ':' then
        skip 1
        named' fuel
      else capturing none fuel
    | _ =>
      if r.flags.noCapture then return (branches (← body false fuel), true) else capturing none fuel

def capturing (name : Option Text) : (fuel : Nat) → Parse (Expression × Bool)
  | 0 => return (.empty, false)
  | fuel + 1 => do
    let n ← newGroup name
    return (.group n (branches (← body false fuel)), true)

def named' : (fuel : Nat) → Parse (Expression × Bool)
  | 0 => return (.empty, false)
  | fuel + 1 => do
    let t := String.ofList (← Parse.stretch fun c => c.isAlphanum || c = '_')
    if t.toList.head?.any Char.isLower then
      if !(← accepts ":") then fail .unknownAssertion
      let inside : Parse Expression := do return branches (← body false fuel)
      match t with
      | "pla" | "positive_lookahead" | "napla" | "non_atomic_positive_lookahead" =>
        return (.ahead true (← asserted inside), true)
      | "nla" | "negative_lookahead" => return (.ahead false (← asserted inside), true)
      | "plb" | "positive_lookbehind" | "naplb" | "non_atomic_positive_lookbehind" =>
        return (.behind true 0 (← asserted inside), true)
      | "nlb" | "negative_lookbehind" => return (.behind false 0 (← asserted inside), true)
      | "atomic" => return (.atomic (← inside), true)
      | "sr" | "script_run" => return (← inside, true)
      | "asr" | "atomic_script_run" => return (.atomic (← inside), true)
      | _ => fail .unknownAssertion
    else
      if ← accepts ":" then let _ ← Parse.stretch (· ≠ ')')
      close .unknownVerb
      match verb? t with
      | some e => return (e, false)
      | none => if t.isEmpty || t = "MARK" then return (.empty, false) else fail .unknownVerb

def special : (fuel : Nat) → Parse (Expression × Bool)
  | 0 => return (.empty, false)
  | fuel + 1 => do
    let inside : Parse Expression := do return branches (← body false fuel)
    match ← rest with
    | [] => fail .unclosed
    | c :: t =>
      if c ∉ ":|>=*!<'PR&C(".toList then return ← optioned (c :: t) inside
      skip 1
      match c with
      | ':' => return (← inside, true)
      | '|' => return (branches (← body true fuel), true)
      | '>' => return (.atomic (← inside), true)
      | '!' => return (.ahead false (← asserted inside), true)
      | '<' =>
        let d := t.headD c
        if d ∉ ['=', '*', '!'] then return ← capturing (some (← name '>')) fuel
        skip 1
        return (.behind (d ≠ '!') 0 (← asserted inside), true)
      | '\'' => capturing (some (← name c)) fuel
      | 'P' =>
        if ← accepts "<" then capturing (some (← name '>')) fuel
        else if ← accepts "=" then return (← again (← named (← name ')')), true)
        else if ← accepts ">" then return (← namedCall ')', true)
        else fail (if t.isEmpty then .unclosed else "unrecognized character after (?P")
      | 'R' =>
        close "(?R (recursive pattern call) must be followed by a closing parenthesis"
        return (.call 0, true)
      | '&' => return (← namedCall ')', true)
      | 'C' =>
        callout
        return (.empty, false)
      | '(' => conditional fuel
      | _ => return (.ahead true (← asserted inside), true)

def conditional : (fuel : Nat) → Parse (Expression × Bool)
  | 0 => return (.empty, false)
  | fuel + 1 => do
    let c ← condition
    let test ← match c with
      | .isSet numbers => pure (.isSet numbers)
      | .never | .define => pure .fail
      | .assertion => do
        let (e, _) ← group fuel
        match e with
        | .ahead _ _ | .behind _ _ _ => pure e
        | _ => fail "assertion expected after (?( or (?(?C)"
    let es ← body false fuel
    match c, es with
    | .define, [e] => return (.define e, true)
    | .define, es =>
      later (.last "DEFINE subpattern contains more than one branch")
      return (.define (branches es), true)
    | _, [yes] => return (.given test yes, true)
    | _, [yes, no] => return (.choice test yes no, true)
    | _, yes :: others =>
      later (.last "conditional subpattern contains more than two branches")
      return (.choice test yes (branches others), true)
    | _, [] => return (.empty, true)

end

/-! ## The width of expressions

It has to be known of what is looked for before a place. -/

/-- The number of characters that an expression always matches, and whether nothing after it counts.
-/
def Expression.extent (called : Nat → Except Fault Nat) : Expression → Except Fault (Nat × Bool)
  | char _ _ => .ok (1, false)
  | byte => .error "\\C is not allowed in a lookbehind assertion in UTF-8 mode"
  | cluster => .error .variableLookbehind
  | fail | accept => .ok (0, true)
  | group _ e | atomic e | given _ e => do return ((← e.extent called).1, false)
  | seq a b => do
    let (n, isEnd) ← a.extent called
    if isEnd then return (n, true)
    let (m, isEnd) ← b.extent called
    return (n + m, isEnd)
  | alt _ a b | choice _ a b => do
    let n := (← a.extent called).1
    if (← b.extent called).1 = n then .ok (n, false) else .error .variableLookbehind
  | rep e least most _ => do
    let n := (← e.extent called).1
    if most = some least then .ok (n * least, false) else .error .variableLookbehind
  | call n | again [n] _ => do return (← called n, false)
  | again [] _ => .error .missingGroup
  | again _ _ => .error .variableLookbehind
  | _ => .ok (0, false)

def Expression.width (called : Nat → Except Fault Nat) (e : Expression) : Except Fault Nat := do
  return (← e.extent called).1

/-- The number of characters that a group always matches, with groups in it called to at most
`depth`. -/
def groupWidth (bodies : List (Nat × Expression)) : (depth : Nat) → Nat → Except Fault Nat
  | 0, _ | _, 0 => .error .variableLookbehind
  | depth + 1, n =>
    match bodies.lookup n with
    | some e => e.width (groupWidth bodies depth)
    | none => .error .missingGroup

def Expression.widest (called : Nat → Except Fault Nat) : Expression → Except Fault Nat
  | alt _ a b => do return max (← a.width called) (← widest called b)
  | e => e.width called

/-- An expression whose assertions on what stands before know how far to look, and whose verbs know
the alternatives around them; `isOpen` tells that those before belong to the same chain. -/
def Expression.measured (called : Nat → Except Fault Nat) : (level : Nat) → (isOpen : Bool) →
    Expression → Except Fault Expression
  | level, _, behind isThere _ e => do
    return .behind isThere (← e.widest called) (← e.measured called level false)
  | level, _, ahead isThere e => do return .ahead isThere (← e.measured called level false)
  | level, _, group n e => do return .group n (← e.measured called level false)
  | level, _, atomic e => do return .atomic (← e.measured called level false)
  | level, _, rep e least most g => do return .rep (← e.measured called level false) least most g
  | level, _, seq a b => do
    return .seq (← a.measured called level false) (← b.measured called level false)
  | level, isOpen, alt _ a b => do
    let level := if isOpen then level else level + 1
    return .alt level (← a.measured called level false) (← b.measured called level true)
  | level, _, choice a b c => do
    return .choice (← a.measured called level false) (← b.measured called level false)
      (← c.measured called level false)
  | level, _, given a b => do
    return .given (← a.measured called level false) (← b.measured called level false)
  | level, _, define e => do return .define (← e.measured called level false)
  | level, _, verb (.alternative _) => .ok (.verb (.alternative level))
  | _, _, e => .ok e

/-! ## Readings -/

def whole : Parse Expression := do
  let es ← alternatives false 0 (4 * (← Parse.rest).length + 8)
  if !(← Parse.rest).isEmpty then fail "unmatched closing parenthesis"
  return branches es

def Later.fault? (r : Reading) : Later → Option Fault
  | .group n => if r.groups < n then some .missingGroup else none
  | .name t => if r.names.any (·.1 = t) then none else some .missingGroup
  | .fault f => some f
  | .last _ => none

def Later.last? : Later → Option Fault
  | .last f => some f
  | _ => none

def Setup.with? (u : Setup) : String → Option Setup
  | "UTF" | "UTF8" | "NO_AUTO_POSSESS" | "NO_DOTSTAR_ANCHOR" => some u
  | "UCP" => some { u with isUnicode := true }
  | "CR" => some { u with newline := .carriageReturn }
  | "LF" => some { u with newline := .lineFeed }
  | "CRLF" => some { u with newline := .pair }
  | "ANYCRLF" => some { u with newline := .either }
  | "ANY" => some { u with newline := .any }
  | "NUL" => some { u with newline := .null }
  | "BSR_ANYCRLF" => some { u with narrowBreaks := true }
  | "BSR_UNICODE" => some { u with narrowBreaks := false }
  | "NOTEMPTY" => some { u with mayBeEmpty := false }
  | "NOTEMPTY_ATSTART" => some { u with mayStartEmpty := false }
  | "NO_START_OPT" => some { u with looksAhead := false }
  | "NO_JIT" => some { u with isCompiled := false }
  | _ => none

def limitWords : List String := ["LIMIT_DEPTH=", "LIMIT_HEAP=", "LIMIT_MATCH=", "LIMIT_RECURSION="]

def setup : (fuel : Nat) → Setup → Text → Except Fault (Setup × Text)
  | 0, u, t => .ok (u, t)
  | fuel + 1, u, t =>
    match t with
    | '(' :: '*' :: body =>
      match limitWords.find? fun w => Text.startsWith w.toList body with
      | some w =>
        let after := body.drop w.length
        let digits := after.takeWhile Char.isDigit
        match digits, after.drop digits.length with
        | _ :: _, ')' :: rest => setup fuel u rest
        | _, _ => .error .unknownVerb
      | none =>
        let word := body.takeWhile (· ≠ ')')
        match u.with? (String.ofList word) with
        | some u =>
          if word.length < body.length then setup fuel u (body.drop (word.length + 1))
          else .ok (u, t)
        | none => .ok (u, t)
    | t => .ok (u, t)

def parse (locale : Locale) (ignoreCase : Bool) (t : Text) : Except Fault (Expression × Setup) := do
  let (setup, t) ← setup t.length {} t
  let start : Reading := { locale, setup, rest := t, flags := { ignoreCase } }
  let (_, r) ← StateT.run whole start
  let (e, _) ← StateT.run whole { start with known := r.names }
  let bodies := e.groups
  let e ← e.measured (groupWidth bodies (bodies.length + 1)) 0 false
  let checks := r.later.reverse
  match checks.findSome? (Later.fault? r) <|> checks.findSome? Later.last? with
  | some f => throw f
  | none => return (e, setup)

end PatchTriage.Shell.Tools.Backtrack
