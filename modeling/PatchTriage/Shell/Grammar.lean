import PatchTriage.Shell.Lexer

/-!
# The grammar of commands

Commands are read by recursive descent, a script by complete lines (`Grammar.line`): a line may
change how the next one is read, and a mistake shows only when it is reached.
-/

namespace PatchTriage.Shell

open Read

inductive ListKind where
  | line
  | body
  | optional
  deriving DecidableEq

structure Grammar where
  list : ListKind → Read (Option Command)
  command : Read Command

namespace Grammar

variable (g : Grammar)

def inner : Lexer.Inner where
  parens := do
    let before := (← get).pending
    modify fun r => { r with pending := [] }
    let c ← g.list .optional
    -- The token after the list has been pushed back.
    let r ← get
    if !(r.pushedBack && r.last = .rightParen) then unexpected (some .rightParen)
    -- A here-document that has been asked for and not been read is empty.
    let missing := r.pending.map fun d => (d.number, ([] : Word))
    set { r with pushedBack := false, pending := before, documents := missing ++ r.documents
                 lookup := {} }
    return c
  backquotes text := do
    let r ← get
    set { r with input := text, hasMore := false, line := 1, pending := [], openAliases := [] }
    let c ← g.list .optional
    modify fun after =>
      { after with input := r.input, hasMore := r.hasMore, line := r.line, pending := r.pending
                   openAliases := r.openAliases, pushedBack := false, lookup := {} }
    return c

def replaceAlias (text : Raw) : Read Bool := do
  let r ← get
  let left := r.input.length
  let isOpen := r.openAliases.filter fun a => a.rest ≤ left
  match r.aliases.lookup text with
  | none => return false
  | some [] => return !isOpen.any (·.name = text)
  | some value =>
    if isOpen.any (·.name = text) then return false
    let chained := match value.getLast? with
      | some c => c = ' ' || c = '\t'
      | none => false
    set { r with
          input := value ++ r.input
          openAliases := { name := text, rest := left, chained } :: isOpen }
    return true

def token (g : Grammar) : Read Token := do
  let asked := (← get).lookup
  iterate asked fun asked => do
    let chained := (← get).openAliases.filter (·.chained)
    let t ← Lexer.token g.inner
    let t ← if asked.skipNewlines then
        iterate t fun t => do
          if t = .newline then
            Lexer.readDocuments g.inner
            modify fun r => { r with lookup := {} }
            return .inl (← Lexer.token g.inner)
          else return .inr t
      else pure t
    let passed ← if chained.isEmpty then pure false
      else do
        let left := (← get).input.length
        pure (chained.any fun a => left < a.rest)
    if passed then
      modify fun r => { r with
        openAliases := r.openAliases.map fun a => { a with chained := false } }
    let r ← get
    set { r with lookup := {} }
    if t ≠ .word || r.wordQuoted then return .inr t
    match r.word.plain? with
    | none => return .inr t
    | some text =>
      let keyword := if asked.keywords || r.lookup.keywords then Keyword.table.lookup text else none
      match keyword with
      | some k =>
        modify fun r => { r with last := .keyword k }
        return .inr (.keyword k)
      | none =>
        if asked.aliases || r.lookup.aliases || passed then
          if ← replaceAlias text then return .inl asked
        return .inr t

def pushBack : Read Unit := modify fun r => { r with pushedBack := true }

def expect (l : Lookup) : Read Unit := modify fun r => { r with lookup := l }

def commandStart : Lookup := { skipNewlines := true, keywords := true, aliases := true }

def require (t : Token) : Read Unit := do if (← g.token) ≠ t then unexpected (some t)

def redirectTarget : Read Redirect := do
  let (fd, kind) := (← get).redirect
  let stripTabs := (← get).stripTabs
  if kind matches .document _ then expect { endMark := true }
  if (← g.token) ≠ .word then unexpected none
  let r ← get
  if let .document number := kind then
    let d : PendingDocument :=
      { number, mark := r.word.literal, stripTabs, expanded := !r.wordQuoted }
    set { r with pending := r.pending ++ [d] }
  return .mk fd kind r.word

def redirects : Read (List Redirect) := do
  expect { keywords := true, aliases := true }
  let found ← iterate [] fun found => do
    if (← g.token) = .redirection then return .inl ((← g.redirectTarget) :: found)
    else return .inr found
  pushBack
  return found.reverse

def reservedNames : List Raw :=
  [".", ":", "break", "continue", "eval", "exec", "exit", "export", "local", "readonly", "return",
    "set", "shift", "times", "trap", "unset"]

structure SimpleParts where
  assigns : List Word := []
  words : List Word := []
  redirects : List Redirect := []

def simple : Read Command := do
  let line := (← get).line
  iterate ({} : SimpleParts) fun parts => do
    let first := parts.words.isEmpty
    expect { aliases := first }
    let finished : Read (SimpleParts ⊕ Command) := do
      pushBack
      return .inr (.simple line parts.assigns.reverse parts.words.reverse parts.redirects.reverse)
    match ← g.token with
    | .word =>
      let w := (← get).word
      if first && w.isAssignment then return .inl { parts with assigns := w :: parts.assigns }
      else return .inl { parts with words := w :: parts.words }
    | .redirection =>
      return .inl { parts with redirects := (← g.redirectTarget) :: parts.redirects }
    | .leftParen =>
      match parts with
      | { assigns := [], words := [w], redirects := [] } =>
        g.require .rightParen
        let name := w.plain?.getD []
        if !isName name || reservedNames.contains name then failSyntax "Bad function name"
        expect commandStart
        let line := (← get).line
        return .inr (.define line name (← g.command))
      | _ => finished
    | _ => finished

def body : Read Command := do return (← g.list .body).getD default

def branches : Read (List (Command × Command)) :=
  iterate [] fun found => do
    let condition ← g.body
    g.require (.keyword .thenWord)
    let found := (condition, ← g.body) :: found
    if (← g.token) = .keyword .elif then return .inl found else return .inr found

def conditional : Read Command := do
  let found ← g.branches
  let otherwise ← if (← get).last = .keyword .elseWord then some <$> g.body
    else do
      pushBack
      pure none
  g.require (.keyword .fi)
  let c := found.foldl (fun (rest : Option Command) (condition, body) =>
    some (.ifThen condition body rest)) otherwise
  return c.getD default

def forLoop (line : Nat) : Read Command := do
  let isWord := (← g.token) = .word
  let r ← get
  let var := if isWord && !r.wordQuoted then r.word.plain?.getD [] else []
  if !isName var then failSyntax "Bad for loop variable"
  expect commandStart
  let words ← if (← g.token) = .keyword .inWord then do
      let words ← iterate [] fun words => do
        if (← g.token) = .word then return .inl ((← get).word :: words) else return .inr words
      let t := (← get).last
      if t ≠ .newline && t ≠ .semicolon then unexpected none
      pure words.reverse
    else do
      if (← get).last ≠ .semicolon then pushBack
      pure [[.mark, .param ['@'] .value, .mark]]
  expect commandStart
  g.require (.keyword .doWord)
  let body ← g.body
  g.require (.keyword .done)
  return .forEach line var words body

def arm : Read (List Word × Option Command) := do
  if (← get).last = .leftParen then let _ ← g.token
  let patterns ← iterate [] fun patterns => do
    let patterns := (← get).word :: patterns
    if (← g.token) = .pipe then
      let _ ← g.token
      return .inl patterns
    else return .inr patterns
  if (← get).last ≠ .rightParen then unexpected (some .rightParen)
  return (patterns.reverse, ← g.list .optional)

def choice (line : Nat) : Read Command := do
  g.require .word
  let subject := (← get).word
  expect commandStart
  g.require (.keyword .inWord)
  let patternStart : Lookup := { skipNewlines := true, keywords := true }
  expect patternStart
  let _ ← g.token
  let arms ← iterate [] fun arms => do
    if (← get).last = .keyword .esac then return .inr arms
    let a ← g.arm
    expect patternStart
    let t ← g.token
    if t = .keyword .esac then return .inr (a :: arms)
    if t ≠ .endOfCase then unexpected (some .endOfCase)
    expect patternStart
    let _ ← g.token
    return .inl (a :: arms)
  return .caseOf line subject arms.reverse

def compound (line : Nat) (k : Keyword) : Read Command := do
  match k with
  | .ifWord => g.conditional
  | .whileWord | .untilWord =>
    let condition ← g.body
    g.require (.keyword .doWord)
    let body ← g.body
    g.require (.keyword .done)
    return .loop (k = .untilWord) condition body
  | .forWord => g.forLoop line
  | .caseWord => g.choice line
  | .opening =>
    let c ← g.body
    g.require (.keyword .closing)
    return c
  | _ => unexpected none

def commandOf : Read Command := do
  let line := (← get).line
  match ← g.token with
  | .word | .redirection =>
    pushBack
    g.simple
  | .leftParen =>
    let c ← g.body
    g.require .rightParen
    return .subshell line c (← g.redirects)
  | .keyword k =>
    let c ← g.compound line k
    match ← g.redirects with
    | [] => return c
    | rs => return .redirected line c rs
  | _ => unexpected none

def pipeline : Read Command := do
  let negated := (← g.token) = .keyword .not
  if negated then expect { keywords := true, aliases := true } else pushBack
  let first ← g.command
  let rest ← iterate [] fun rest => do
    if (← g.token) = .pipe then
      expect commandStart
      return .inl ((← g.command) :: rest)
    else return .inr rest
  pushBack
  let c := if rest.isEmpty then first else .pipeline false (first :: rest.reverse)
  return if negated then .negate c else c

def andOr : Read Command := do
  let first ← g.pipeline
  iterate first fun c => do
    match ← g.token with
    | .andThen =>
      expect commandStart
      return .inl (.both c (← g.pipeline))
    | .orElse =>
      expect commandStart
      return .inl (.either c (← g.pipeline))
    | _ =>
      pushBack
      return .inr c

def inBackground (line : Nat) : Command → Command
  | .pipeline _ cs => .pipeline true cs
  | .redirected line c rs => .background line c rs
  | c => .background line c []

def endsList : Token → Bool
  | .endOfFile | .rightParen | .endOfCase => true
  | .keyword k => k ∈ [.doWord, .done, .elif, .elseWord, .esac, .fi, .thenWord, .closing]
  | _ => false

def listOf (kind : ListKind) : Read (Option Command) := do
  let oneLine := kind = .line
  let atEnd (c : Option Command) : Read ((Option Command × Bool) ⊕ Option Command) := do
    Lexer.readDocuments g.inner
    modify fun r => { r with pushedBack := true, last := .endOfFile }
    return .inr c
  iterate ((none : Option Command), decide (kind = .optional)) fun (before, mayEnd) => do
    expect { commandStart with skipNewlines := !oneLine }
    match ← g.token with
    | .newline =>
      Lexer.readDocuments g.inner
      return .inr before
    | .endOfFile => atEnd before
    | t =>
      pushBack
      if !oneLine && mayEnd && endsList t then return .inr before
      let c ← g.andOr
      let t ← g.token
      let line := (← get).line
      let c := if t = .background then inBackground line c else c
      let all := some (match before with | none => c | some b => Command.seq b c)
      match t with
      | .endOfFile => atEnd all
      | .newline =>
        pushBack
        return .inl (all, true)
      | .background | .semicolon => return .inl (all, true)
      | _ =>
        if oneLine then unexpected none
        pushBack
        return .inr all

def upTo : (fuel : Nat) → Grammar
  | 0 => { list := fun _ => fail "Out of space", command := fail "Out of space" }
  | fuel + 1 =>
    let list (kind : ListKind) : Read (Option Command) := fun r => (upTo fuel).listOf kind r
    let command : Read Command := fun r => (upTo fuel).commandOf r
    { list, command }

def maxNesting : Nat := 100000

def line : Read (Option (Option Command)) := do
  let g := upTo maxNesting
  modify fun r => { r with pushedBack := false, lookup := {}, pending := [] }
  match ← g.token with
  | .endOfFile => return none
  | .newline => return some none
  | _ =>
    pushBack
    return some (← g.list .line)

def prompt : Read Word := do
  let noMark : PendingDocument :=
    { number := 0, mark := ['\x00'], stripTabs := false, expanded := true }
  let (w, _) ← Lexer.wordFrom (upTo maxNesting).inner .double (some noMark) (← joinedChar?)
  return w.parts.reverse

def atEnd (r : Reader) : Bool := r.pushedBack && r.last = .endOfFile

end Grammar

end PatchTriage.Shell
