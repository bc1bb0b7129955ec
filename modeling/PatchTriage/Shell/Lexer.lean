import PatchTriage.Shell.Command

/-!
# Tokens and words

`Reader` is what is left of a script, and `Read` the monad of reading steps, which fail with a
mistake of syntax. Characters make tokens.
-/

namespace PatchTriage.Shell

inductive Keyword where
  | not | caseWord | doWord | done | elif | elseWord | esac | fi | forWord | ifWord | inWord
  | thenWord | untilWord | whileWord | opening | closing
  deriving DecidableEq

def Keyword.table : List (Raw × Keyword) :=
  [("!", .not), ("case", .caseWord), ("do", .doWord), ("done", .done), ("elif", .elif),
    ("else", .elseWord), ("esac", .esac), ("fi", .fi), ("for", .forWord), ("if", .ifWord),
    ("in", .inWord), ("then", .thenWord), ("until", .untilWord), ("while", .whileWord),
    (['\x7b'], .opening), (['\x7d'], .closing)]

inductive Token where
  | endOfFile
  | newline
  | redirection
  | word
  | semicolon
  | background
  | andThen
  | orElse
  | pipe
  | leftParen
  | rightParen
  | endOfCase
  | keyword (k : Keyword)
  deriving DecidableEq

def Token.name (t : Token) : Raw :=
  let shown (s : Raw) : Raw := '"' :: s ++ ['"']
  match t with
  | .endOfFile => "end of file"
  | .newline => "newline"
  | .redirection => "redirection"
  | .word => "word"
  | .semicolon => shown ";"
  | .background => shown "&"
  | .andThen => shown "&&"
  | .orElse => shown "||"
  | .pipe => shown "|"
  | .leftParen => shown "("
  | .rightParen => shown ")"
  | .endOfCase => shown ";;"
  | .keyword k => shown (((Keyword.table.find? (·.2 = k)).map Prod.fst).getD [])

structure Lookup where
  skipNewlines : Bool := false
  keywords : Bool := false
  aliases : Bool := false
  endMark : Bool := false

structure PendingDocument where
  number : Nat
  mark : Raw
  stripTabs : Bool
  expanded : Bool

structure OpenAlias where
  name : Raw
  rest : Nat
  chained : Bool

structure SyntaxError where
  line : Nat
  message : Raw

inductive Stop where
  | mistake (e : SyntaxError)
  | starved

structure Reader where
  input : Raw
  hasMore : Bool := false
  line : Nat := 1
  pushedBack : Bool := false
  last : Token := .newline
  word : Word := []
  wordQuoted : Bool := false
  redirect : Nat × RedirectKind := (0, .input)
  stripTabs : Bool := false
  lookup : Lookup := {}
  pending : List PendingDocument := []
  documents : List (Nat × Word) := []
  nextDocument : Nat := 0
  aliases : List (Raw × Raw) := []
  openAliases : List OpenAlias := []

def Reader.feed (r : Reader) (more : Option Raw) : Reader :=
  let t := more.getD []
  { r with
    input := r.input ++ t, hasMore := more.isSome
    openAliases := r.openAliases.map fun a => { a with rest := a.rest + t.length } }

abbrev Read := StateT Reader (Except Stop)

namespace Read

def maxSteps : Nat := 1000000000

def repeatUpTo {σ α : Type} (onEnd : Read α) (step : σ → Read (σ ⊕ α)) : (fuel : Nat) → σ → Read α
  | 0, _ => onEnd
  | fuel + 1, s => do
    match ← step s with
    | .inl s => repeatUpTo onEnd step fuel s
    | .inr a => return a

def fail {α : Type} (message : Raw) : Read α := do throw (.mistake ⟨(← get).line, message⟩)

def failSyntax {α : Type} (message : Raw) : Read α := fail ("Syntax error: " ++ message)

def iterate {σ α : Type} (start : σ) (step : σ → Read (σ ⊕ α)) : Read α :=
  repeatUpTo (fail "Out of space") step maxSteps start

def unexpected {α : Type} (expected : Option Token) : Read α := do
  let found := (← get).last.name ++ " unexpected"
  match expected with
  | none => failSyntax found
  | some t => failSyntax (found ++ " (expecting " ++ t.name ++ [')'])

def char? : Read (Option Char) := do
  let r ← get
  match r.input with
  | [] => if r.hasMore then throw .starved else return none
  | c :: rest =>
    set { r with input := rest }
    return some c

def putBack (c : Option Char) : Read Unit :=
  modify fun r => { r with input := c.toList ++ r.input }

def nextLine : Read Unit := modify fun r => { r with line := r.line + 1 }

def joinedChar? : Read (Option Char) :=
  iterate () fun _ => do
    match ← char? with
    | some '\\' =>
      match ← char? with
      | some '\n' =>
        nextLine
        return .inl ()
      | c =>
        putBack c
        return .inr (some '\\')
    | c => return .inr c

end Read

/-! ## Tokens -/

open Read

inductive Mode where
  | plain | double | single | arith
  deriving DecidableEq

structure Level where
  mode : Mode
  params : Nat := 0
  quotedParams : Nat := 0
  innerQuotes : Bool := false
  ofParam : Bool := false
  quoting : Bool
  parens : Nat := 0

inductive ParamFront where
  | value
  | senseless
  | length
  | default (d : Default) (orEmpty : Bool)
  | trim (atEnd longest : Bool)

inductive Opening where
  | param (name : Raw) (front : ParamFront)
  | arith

def ParamFront.op (word : Word) : ParamFront → ParamOp
  | value => .value
  | senseless => .senseless
  | length => .length
  | default d orEmpty => .default d orEmpty word
  | trim atEnd longest => .trim atEnd longest word

def Opening.part (inner : Word) : Opening → Part
  | param name front => .param name (front.op inner)
  | arith => .arith inner

structure WordState where
  level : Level
  outer : List Level := []
  parts : List Part := []
  openings : List (Opening × List Part) := []
  quoted : Bool := false

namespace WordState

def start (mode : Mode) : WordState := { level := { mode, quoting := mode = .double } }

def onLevel (f : Level → Level) (w : WordState) : WordState := { w with level := f w.level }

def push (p : Part) (w : WordState) : WordState := { w with parts := p :: w.parts }

def pushChar (c : Char) (w : WordState) : WordState :=
  w.push (if w.level.mode = .plain || w.level.mode = .arith then .char c else .quoted c)

def pushMark (document : Bool) (w : WordState) : WordState := if document then w else w.push .mark

def «open» (o : Opening) (w : WordState) : WordState :=
  { w with parts := [], openings := (o, w.parts) :: w.openings }

def close (w : WordState) : WordState :=
  match w.openings with
  | [] => w
  | (o, before) :: openings => { w with parts := o.part w.parts.reverse :: before, openings }

def pushLevel (l : Level) (w : WordState) : WordState :=
  { w with level := l, outer := w.level :: w.outer }

def popLevel (w : WordState) : WordState :=
  match w.outer with
  | [] => w
  | l :: outer => { w with level := l, outer }

end WordState

namespace Lexer

def isSpecialParam (c : Char) : Bool := c.isDigit || c ∈ ['!', '#', '$', '*', '-', '?', '@']

def isDelimiter (c : Char) : Bool := c ∈ ['<', '>', '(', ')', ';', '&', '|', ' ', '\t']

def default? : Char → Option Default
  | '-' => some .use
  | '+' => some .useIfSet
  | '?' => some .complain
  | '=' => some .assign
  | _ => none

def nameFrom (first : Char) (goesOn : Char → Bool) : Read (Raw × Option Char) :=
  iterate [first] fun name => do
    match ← joinedChar? with
    | some c => return if goesOn c then .inl (c :: name) else .inr (name.reverse, some c)
    | none => return .inr (name.reverse, none)

inductive Asked where
  | value
  | of (front : ParamFront)

def askedAfter (c : Option Char) : Read Asked := do
  match c with
  | some ':' =>
    match ← joinedChar? with
    | some '\x7d' => return .of .value
    | c => return defaulted c true
  | some '\x7d' => return .value
  | some '%' => trimmed true '%'
  | some '#' => trimmed false '#'
  | c => return defaulted c false
where
  defaulted (c : Option Char) (orEmpty : Bool) : Asked :=
    .of (((c.bind default?).map (.default · orEmpty)).getD .senseless)
  trimmed (atEnd : Bool) (mark : Char) : Read Asked := do
    let c ← joinedChar?
    if c == some mark then return .of (.trim atEnd true)
    putBack c
    return .of (.trim atEnd false)

def bracedParam : Read (Raw × Asked) := do
  let plain (first : Char) (goesOn : Char → Bool) : Read (Raw × Asked) := do
    let (name, c) ← nameFrom first goesOn
    return (name, ← askedAfter c)
  let length (first : Char) (goesOn : Char → Bool) : Read (Raw × Asked) := do
    let (name, c) ← nameFrom first goesOn
    putBack c
    return (name, .of (if c == some '\x7d' then .length else .senseless))
  let senseless (c : Option Char) : Read (Raw × Asked) := do
    putBack c
    return ([], .of .senseless)
  match ← joinedChar? with
  | none => senseless none
  | some '\x7d' => senseless (some '\x7d')
  | some c =>
    if isNameStart c then plain c isNameChar
    else if c.isDigit then plain c Char.isDigit
    else
      let next ← joinedChar?
      if c = '#' then
        match next with
        | some d =>
          if isNameStart d then length d isNameChar
          else if d.isDigit then length d Char.isDigit
          else
            let after ← joinedChar?
            if d = '\x7d' || after != some '\x7d' then
              putBack after
              return (['#'], ← askedAfter (some d))
            else if isSpecialParam d then
              putBack after
              return ([d], .of .length)
            else senseless after
        | none => return (['#'], ← askedAfter none)
      else if isSpecialParam c then return ([c], ← askedAfter next)
      else senseless next

def expansion (substitution : Read (Option Command)) (w : WordState) : Read WordState := do
  let c ← joinedChar?
  let literal : Read WordState := do
    putBack c
    return w.push (if w.level.mode = .plain then .char '$' else .quoted '$')
  if (← get).lookup.endMark then return ← literal
  match c with
  | some '(' =>
    let c ← joinedChar?
    if c == some '(' then return (w.open .arith).pushLevel { mode := .arith, quoting := true }
    putBack c
    return w.push (.command (← substitution))
  | some '\x7b' =>
    let (name, asked) ← bracedParam
    match asked with
    | .value => return w.push (.param name .value)
    | .of front =>
      let mode := match front with
        | .trim _ _ => Mode.plain
        | _ => if w.level.mode = .arith then .double else w.level.mode
      let w := w.open (.param name front)
      let w :=
        if mode ≠ w.level.mode || w.level.innerQuotes then
          w.pushLevel { mode, ofParam := true, quoting := mode ≠ .plain }
        else w
      return w.onLevel fun l =>
        { l with params := l.params + 1, quotedParams := l.quotedParams + l.quoting.toNat }
  | some c =>
    if isNameStart c then
      let (name, next) ← nameFrom c isNameChar
      putBack next
      return w.push (.param name .value)
    else if isSpecialParam c then return w.push (.param [c] .value)
    else literal
  | none => literal

def backquoted (quoting : Bool) : Read Raw :=
  iterate [] fun text => do
    match ← joinedChar? with
    | some '\x60' => return .inr text.reverse
    | some '\\' =>
      match ← char? with
      | some c =>
        if c ∈ ['\\', '\x60', '$'] || (quoting && c = '"') then return .inl (c :: text)
        else return .inl (c :: '\\' :: text)
      | none => Read.failSyntax "EOF in backquote substitution"
    | some '\n' =>
      Read.nextLine
      return .inl ('\n' :: text)
    | some c => return .inl (c :: text)
    | none => Read.failSyntax "EOF in backquote substitution"

def atLineStart (document : Option PendingDocument) (c : Option Char) : Read (Option Char) := do
  match document with
  | none => return c
  | some d =>
    let c ← if d.stripTabs then
        Read.iterate c fun c => do
          if c == some '\t' then return .inl (← Read.char?) else return .inr c
      else pure c
    Read.putBack c
    let r ← get
    if r.hasMore && (Text.dropHead? r.input d.mark).isSome then throw .starved
    match Text.dropHead? d.mark r.input with
    | some [] =>
      if c.isSome then set { r with input := [] }
      return none
    | some ('\n' :: rest) =>
      set { r with input := rest, line := r.line + 1 }
      return none
    | _ => Read.char?

inductive Effect where
  | next (w : WordState)
  | newLine (w : WordState)
  | finished (w : WordState)

def escaped (document : Bool) (w : WordState) : Read WordState := do
  match ← Read.char? with
  | none => return w.push (.quoted '\\')
  | some c =>
    let l := w.level
    let kept := l.quoting && c ≠ '\\' && c ≠ '\x60' && c ≠ '$'
      && (c ≠ '"' || (document && l.params = 0)) && (c ≠ '\x7d' || l.params = 0)
    let w := if kept then w.push (.quoted '\\') else w
    return { w.push (.quoted c) with quoted := true }

def toggleQuotes (document : Bool) (w : WordState) : WordState :=
  (w.onLevel fun l => if 0 < l.params then { l with innerQuotes := !l.innerQuotes }
    else l).pushMark document

def endQuotes (document : Bool) (c : Char) (w : WordState) : WordState :=
  if document && w.level.params = 0 then w.push (.quoted c)
  else
    let w := w.onLevel fun l =>
      if l.quotedParams = 0 then { l with mode := .plain, quoting := false } else l
    let w := { w with quoted := true }
    if c = '"' then toggleQuotes document w else w.pushMark document

def endParam (w : WordState) : WordState :=
  let l := w.level
  if l.innerQuotes || l.params = 0 then w.pushChar '\x7d'
  else
    let w := w.onLevel fun l => { l with params := l.params - 1 }
    let w :=
      if l.params = 1 && l.ofParam then w.popLevel
      else w.onLevel fun l => { l with quotedParams := l.quotedParams - 1 }
    w.close

def endParen (w : WordState) : Read WordState := do
  if 0 < w.level.parens then
    return (w.pushChar ')').onLevel fun l => { l with parens := l.parens - 1 }
  let c ← Read.joinedChar?
  if c == some ')' then return w.close.popLevel
  Read.putBack c
  return w.pushChar ')'

def backquote (inside : Raw → Read (Option Command)) (w : WordState) : Read WordState := do
  if (← get).lookup.endMark then return { w.push (.char '\x60') with quoted := true }
  let text ← backquoted w.level.quoting
  return w.push (.command (← inside text))

structure Inner where
  parens : Read (Option Command)
  backquotes : Raw → Read (Option Command)

variable (inner : Inner)

def effect (document : Bool) (c : Char) (w : WordState) : Read Effect := do
  let isFree := w.level.mode = .plain && w.level.params = 0
  let other : Effect := if isFree && isDelimiter c then .finished w else .next (w.pushChar c)
  match w.level.mode with
  | .single =>
    if c = '\'' && !document then return .next (endQuotes document c w)
    if c = '\n' then
      Read.nextLine
      return .newLine (w.pushChar c)
    return other
  | mode =>
    match c with
    | '\n' =>
      if isFree then return .finished w
      Read.nextLine
      return .newLine (w.pushChar c)
    | '\\' => return .next (← escaped document w)
    | '$' => return .next (← expansion inner.parens w)
    | '\x60' => return .next (← backquote inner.backquotes w)
    | '\x7d' => return .next (endParam w)
    | '"' =>
      if mode = .plain then
        let w := w.onLevel fun l => { l with mode := .double, quoting := true }
        return .next (toggleQuotes document w)
      else if mode = .double then return .next (endQuotes document c w)
      else return other
    | '\'' =>
      if mode = .plain then
        return .next ((w.onLevel fun l => { l with mode := .single }).pushMark document)
      else return other
    | '(' =>
      if mode = .arith then
        return .next ((w.pushChar c).onLevel fun l => { l with parens := l.parens + 1 })
      else return other
    | ')' => if mode = .arith then return .next (← endParen w) else return other
    | _ => return other

def wordFrom (mode : Mode) (document : Option PendingDocument)
    (first : Option Char) : Read (WordState × Option Char) := do
  let first ← atLineStart document first
  let (w, c) ← iterate (WordState.start mode, first) fun (w, c) => do
    match c with
    | none => return .inr (w, none)
    | some c =>
      let next (w : WordState) : Read (Option Char) :=
        if w.level.mode = .single then char? else joinedChar?
      match ← effect inner document.isSome c w with
      | .finished w => return .inr (w, some c)
      | .next w => return .inl (w, ← next w)
      | .newLine w => return .inl (w, ← atLineStart document (← next w))
  if w.level.mode = .arith then failSyntax "Missing '))'"
  if w.level.mode ≠ .plain && document.isNone then failSyntax "Unterminated quoted string"
  if w.level.params ≠ 0 then failSyntax "Missing '\x7d'"
  return (w, c)

def redirection (c : Char) (fd : Option Nat) : Read Unit := do
  let next ← joinedChar?
  let plain (kind : RedirectKind) : Read RedirectKind := do
    putBack next
    return kind
  let kind ← if c = '>' then
      match next with
      | some '>' => pure .append
      | some '|' => pure .overwrite
      | some '&' => pure .duplicateOutput
      | _ => plain .output
    else
      match next with
      | some '<' => do
        let after ← joinedChar?
        if after != some '-' then putBack after
        modify fun r => { r with
          stripTabs := after == some '-', nextDocument := r.nextDocument + 1 }
        pure (.document (← get).nextDocument)
      | some '&' => pure .duplicateInput
      | some '>' => pure .inputOutput
      | _ => plain .input
  modify fun r => { r with redirect := (fd.getD (if c = '>' then 1 else 0), kind) }

def wordToken (first : Option Char) : Read Token := do
  let (w, c) ← wordFrom inner .plain none first
  let word := w.parts.reverse
  let fd? : Option (Option Nat) :=
    if w.quoted then none
    else
      match word with
      | [] => some none
      | [.char d] => if d.isDigit then some (some (d.toNat - '0'.toNat)) else none
      | _ => none
  match c, fd? with
  | some '>', some fd | some '<', some fd =>
    redirection (c.getD '>') fd
    return .redirection
  | _, _ =>
    putBack c
    modify fun r => { r with word, wordQuoted := w.quoted }
    return .word

def nextToken : Read Token := do
  let twice (c : Char) (double single : Token) : Read Token := do
    let next ← joinedChar?
    if next == some c then return double
    putBack next
    return single
  iterate () fun _ => do
    match ← joinedChar? with
    | some ' ' | some '\t' => return .inl ()
    | some '#' =>
      let r ← get
      let rest := r.input.dropWhile (· ≠ '\n')
      if r.hasMore && rest.isEmpty then throw .starved
      set { r with input := rest }
      return .inl ()
    | some '\n' =>
      nextLine
      return .inr .newline
    | none => return .inr .endOfFile
    | some '&' => return .inr (← twice '&' .andThen .background)
    | some '|' => return .inr (← twice '|' .orElse .pipe)
    | some ';' => return .inr (← twice ';' .endOfCase .semicolon)
    | some '(' => return .inr .leftParen
    | some ')' => return .inr .rightParen
    | c => return .inr (← wordToken inner c)

def token : Read Token := do
  let r ← get
  if r.pushedBack then
    set { r with pushedBack := false }
    return r.last
  let t ← nextToken inner
  modify fun r => { r with last := t }
  return t

def readDocuments : Read Unit := do
  let pending := (← get).pending
  modify fun r => { r with pending := [] }
  for d in pending do
    let mode := if d.expanded then Mode.double else .single
    let first ← if d.expanded then joinedChar? else char?
    let (w, _) ← wordFrom inner mode (some d) first
    modify fun r => { r with documents := (d.number, w.parts.reverse) :: r.documents }

end Lexer

end PatchTriage.Shell
