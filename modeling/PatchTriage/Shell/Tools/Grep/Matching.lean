import PatchTriage.Shell.Tools.Backtrack.Grammar
import PatchTriage.Shell.Tools.Grep.Search
import PatchTriage.Shell.Tools.Regex.Exact
import PatchTriage.Shell.Tools.Regex.Screen

/-!
# Matches in lines

What the patterns of a search match in a line. A text comes in blocks (`Search.feed`), no more than
needed (`Search.isDone`); at its end (`Search.close`) there is something to tell (`Search.report`).
-/

namespace PatchTriage.Shell.Tools.Grep

section

variable (s : Search)

inductive Patterns where
  | fixed (rs : List Regex)
  /-- The longest match counts of those that start first. Expressions come with whether they have
  back references. The `screen` says whether a line matches, if it is understood. -/
  | longest (rs : List (Regex × Bool)) (screen : Regex.Screen.Part)
  | ordered (p : Backtrack.Expression.Plan)

def Search.orderedPattern : Except Message Backtrack.Expression.Plan :=
  let read (t : Text) (whole : Backtrack.Expression → Backtrack.Expression) :
      Except Message Backtrack.Expression.Plan :=
    match Backtrack.parse s.locale s.ignoreCase t with
    | .ok (e, setup) => .ok ((whole e).plan setup)
    | .error f => .error f.message
  match s.patterns with
  | [(p, _)] =>
    let t := s.locale.decode p
    if s.wholeLine then read t fun e => .seq (.place .front) (.seq e (.place .textEnd))
    else if s.wholeWord then read ("(?<!\\w)(?:" ++ t ++ ")(?!\\w)") id
    else read t id
  | [] => .ok (Backtrack.Expression.fail.plan {})
  | _ => .error "the -P option only supports a single pattern"

def Search.dialect : Regex.Dialect :=
  { extended := s.matcher = some .extended, ignoreCase := s.ignoreCase, locale := s.locale }

def Search.exactPatterns : Except (List Message) (List (Regex × Bool)) :=
  let results := s.patterns.map fun (p, place) =>
    let p := s.locale.decode p
    match Regex.Exact.parse s.dialect p with
    | .ok r => .ok (r, Regex.Exact.mayGoBack p)
    | .error e =>
      let front : Raw := match place with
        | some (file, line) => file ++ [':'] ++ Text.ofNat line ++ ": "
        | none => []
      Except.error (front ++ e)
  let errors := results.filterMap fun
    | .error e => some (Message.plain e)
    | .ok _ => none
  if !errors.isEmpty then .error errors
  else
    let (tracked, plain) := (results.filterMap Except.toOption).partition Prod.snd
    match plain.map Prod.fst with
    | [] => .ok tracked
    | r :: rs => .ok ((rs.foldl .alt r, false) :: tracked)

def Search.compile : Except (List Message) (Patterns × List Raw) :=
  match s.matcher with
  | some .ordered =>
    match s.orderedPattern with
    | .ok p => .ok (.ordered p, [])
    | .error m => .error [m]
  | some .fixed =>
    .ok (.fixed (s.patterns.map fun (p, _) => Regex.exactly s.dialect (s.locale.decode p)), [])
  | _ =>
    if s.patterns.isEmpty then .ok (.fixed [], [])
    else do
      let exact ← s.exactPatterns
      let text := s.locale.decode (Text.join ['\n'] (s.patterns.map Prod.fst))
      let reading :=
        Regex.Screen.read s.dialect (Regex.Screen.wrapped s.dialect s.wholeLine s.wholeWord text)
      match reading.result with
      | .ok screen => .ok (.longest exact screen, reading.warnings)
      | .error e =>
        .error (reading.warnings.map (fun w => Message.plain ("warning: " ++ w))
          ++ [Message.plain e])

/-! ## Longest matches -/

def Search.subject (line : Array Char) : Regex.Subject :=
  { chars := line, locale := s.locale, ignoreCase := s.ignoreCase, hasLines := true }

def longestAt? (p : Regex × Bool) (t : Regex.Subject) (i : Nat) : Option Nat :=
  (p.1.endsFrom t p.2 i).max?

def longestFrom? (p : Regex × Bool) (t : Regex.Subject) (start : Nat) : Option (Nat × Nat) :=
  (List.range' start (t.chars.size + 1 - start)).findSome? fun i =>
    (longestAt? p t i).map fun j => (i, j)

variable (t : Regex.Subject)

def offsetOf (i : Nat) : Nat := (t.locale.encode (t.chars.extract 0 i).toList).length

def firstBytes (n : Nat) : Regex.Subject :=
  { t with
    chars := (t.locale.decode ((t.locale.encode t.chars.toList).take n)).toArray, isCut := true }

/-- The match from `i` to `j` if it is a whole word, or else the next one that is: first those that
start at the same position, in less and less of the line, then later ones. The bytes that the line
is cut to are counted from `start`, so that there may be too few of them. -/
def wordFrom? (p : Regex × Bool) (t : Regex.Subject) (start : Nat) : (fuel i j : Nat) →
    Option (Nat × Nat)
  | 0, _, _ => none
  | fuel + 1, i, j =>
    if !t.wordBefore i && !t.wordAt j then some (i, j)
    else
      let size := offsetOf t j - 1 - offsetOf t start
      let shorter :=
        if i < j && offsetOf t i ≤ size then (longestAt? p (firstBytes t size) i).filter (i < ·)
        else none
      match shorter with
      | some k => wordFrom? p t start fuel i k
      | none =>
        match longestFrom? p t (i + 1) with
        | some (i, j) => wordFrom? p t start fuel i j
        | none => none

def firstWord? (p : Regex × Bool) (t : Regex.Subject) (start : Nat) : Option (Nat × Nat) :=
  (longestFrom? p t start).bind fun (i, j) =>
    wordFrom? p t start ((t.chars.size + 2) * (t.chars.size + 2)) i j

def Search.showsEnds (ps : Patterns) : Bool := s.wholeLine && s.wholeWord && ps matches .longest _ _

def Search.partOf? (start : Nat) (p : Regex × Bool) : Option (Nat × Nat) :=
  if s.wholeWord && s.wholeLine then
    (longestFrom? p t start).filter fun (i, j) => i = start && j = t.chars.size
  else if s.wholeWord then firstWord? p t start
  else longestFrom? p t start

def Search.holdsIn (p : Regex × Bool) : Bool :=
  if s.wholeLine then longestFrom? p t 0 = some (0, t.chars.size)
  else (s.partOf? t 0 p).isSome

def firstPart? (parts : List (Nat × Nat)) : Option (Nat × Nat) :=
  parts.foldl (fun best (i, j) =>
    match best with
    | none => some (i, j)
    | some (a, b) => if i < a || (i = a && b < j) then some (i, j) else best) none

/-! ## Texts as they are -/

def Search.counts (line : Regex.Subject) (i j : Nat) : Bool :=
  if s.wholeLine then i = 0 && j = line.chars.size
  else if s.wholeWord then !line.wordBefore i && !line.wordAt j
  else true

def Search.findText? (rs : List Regex) (t : Regex.Subject) (start : Nat) : Option (Nat × Nat) :=
  (List.range' start (t.chars.size + 1 - start)).findSome? fun i =>
    let ends := rs.flatMap fun r => (r.endsFrom t false i).filter (s.counts t i)
    ends.max?.map fun j => (i, j)

/-! ## Lines -/

structure Part where
  start : Nat
  stop : Nat
  isSplit : Bool := false

def exhausted : Raw := "exceeded PCRE's backtracking limit"

def isPassed (l : Locale) (c : Char) : Bool :=
  let b := (l.numbered c).toNat
  !l.isSound c && (b < 0xc2 || 0xf4 < b)

/-- The first match of an expression with ways back. What stands before `base` is not looked at, nor
stray bytes at the start. -/
def Search.findOrdered (p : Backtrack.Expression.Plan) (line : Array Char)
    (base start : Nat) : Except Raw (Option Part) :=
  let passed := ((line.extract start line.size).toList.takeWhile (isPassed s.locale)).length
  let base := if 0 < passed then start + passed else base
  let first := start + passed
  let base := if first = line.size then first else base
  let t : Backtrack.Subject :=
    { chars := line.extract base line.size, locale := s.locale, origin := first - base
      isFront := first = 0, newline := p.setup.newline, isWordChar := p.setup.isWordChar
      pairsRegions := !p.setup.isCompiled
      fold := Backtrack.foldOf s.locale }
  match p.find t with
  | .found f => .ok (some ⟨base + f.start, base + f.position, f.inside ≠ 0⟩)
  | .spent => if t.chars.isEmpty then .ok none else .error exhausted
  | _ => .ok none

def Search.find? (ps : Patterns) (line : Array Char) (base start : Nat) :
    Except Raw (Option Part) :=
  let whole (q : Nat × Nat) : Part := { start := q.1, stop := q.2 }
  match ps with
  | .fixed rs => .ok ((s.findText? rs (s.subject line) start).map whole)
  | .longest rs _ => .ok ((firstPart? (rs.filterMap (s.partOf? (s.subject line) start))).map whole)
  | .ordered p => s.findOrdered p line base start

def Search.accepts (ps : Patterns) (line : Array Char) : Except Raw Bool :=
  match ps with
  | .longest rs screen =>
    let t := s.subject line
    let screened := { t with hasLines := false }
    match screen.regex with
    | some r => .ok (r.isIn screened)
    | none => .ok (screen.wide.isIn screened && rs.any (s.holdsIn t))
  | _ => (s.find? ps line 0 0).map Option.isSome

/-- The parts of a line that match and are not empty, and why no more of them can be told. A part
with the end of the line is the last one. After an empty part before a character of several bytes,
the search begins anew behind it. -/
def Search.parts (s : Search) (ps : Patterns) (line : Array Char) : (fuel base start : Nat) →
    List Part × Option Raw
  | 0, _, _ => ([], none)
  | fuel + 1, base, start =>
    match s.find? ps line base start with
    | .error problem => ([], some problem)
    | .ok none => ([], none)
    | .ok (some q) =>
      if s.showsEnds ps then ([q], none)
      else if q.start < q.stop || q.isSplit then
        let (rest, problem) := Search.parts s ps line fuel 0 (max q.stop (q.start + 1))
        (q :: rest, problem)
      else
        let width := (s.locale.encodeChar (line.getD q.start '\x00')).length
        Search.parts s ps line fuel (if 1 < width then q.start + 1 else 0) (q.start + 1)

end

/-! ## The search of one text -/

variable (s : Search)

structure Line where
  chars : Array Char
  number : Nat
  offset : Nat

def Search.bytes (line : Array Char) (i j : Nat) : Raw := s.locale.encode (line.extract i j).toList

/-- Whether a text can be shown as one: all its bytes belong to characters, or that does not matter.
-/
def Search.isText (cs : Array Char) : Bool := s.binary = .asText || cs.all s.locale.isSound

def Search.paint (s : Search) (color : Palette → Raw) (t : Raw) : Raw :=
  if s.colored then s.palette.paint (color s.palette) t else t

structure Heading where
  name : Option Raw
  width : Nat := 0

def Heading.number (h : Heading) (n : Nat) : Raw :=
  let t := Text.ofNat n
  List.replicate (h.width - t.length) ' ' ++ t

def Search.nameFront (name : Option Raw) (mark : Char) : Raw :=
  match name with
  | some n => s.paint (·.fileName) n ++ (match s.nameEnd with
    | some c => [c]
    | none => s.paint (·.separator) [mark])
  | none => []

def Search.front (s : Search) (h : Heading) (mark : Char) (number offset : Nat) (t : Raw) :
    Raw :=
  let counted (asked : Bool) (color : Palette → Raw) (n : Nat) : Raw :=
    if asked then s.paint color (h.number n) ++ s.paint (·.separator) [mark] else []
  let front := s.nameFront h.name mark ++ counted s.numbered (·.lineNumber) number
    ++ counted s.offsets (·.offset) offset
  if s.initialTab && !front.isEmpty && !t.isEmpty then front ++ ['\t'] else front

def Search.lineColors (selected : Bool) : Raw × Raw :=
  let p := s.palette
  let swapped := s.inverted && p.isReversed
  (if selected then p.selectedMatch else p.contextMatch,
    if selected != swapped then p.selectedLine else p.contextLine)

variable (ps : Patterns)

def Search.partBytes (line : Array Char) (i j : Nat) : Raw :=
  s.bytes line i j ++ if s.showsEnds ps then [s.delimiter] else []

/-- A line with its end in colors; `matching` says whether parts of it may match. A carriage return
at its end is colored only after something else. -/
def Search.painted (selected matching : Bool) (line : Array Char) :
    Raw :=
  if !s.colored then s.bytes line 0 line.size ++ [s.delimiter]
  else
    let p := s.palette
    let (matchColor, lineColor) := s.lineColors selected
    let parts :=
      if matching && !matchColor.isEmpty then (s.parts ps line (line.size + 1) 0 0).1 else []
    let step (q : Raw × Nat) (part : Part) : Raw × Nat :=
      let (done, first) := q
      (done ++ p.start lineColor ++ s.bytes line first part.start
        ++ p.paint matchColor (s.partBytes ps line part.start part.stop), part.stop)
    let (done, first) := parts.foldl step ([], 0)
    let size := line.size
    let last := if first < size && line.back? == some '\r' then size - 1 else size
    let tail := s.bytes line first last
    done ++ (if tail.isEmpty then [] else p.paint lineColor tail) ++ s.bytes line last size
      ++ if s.showsEnds ps && !parts.isEmpty then [] else [s.delimiter]

structure Shown where
  output : List Raw := []
  isText : Bool := true
  problem : Option Raw := none

def Search.shown (s : Search) (ps : Patterns) (h : Heading) (selected : Bool) (l : Line) : Shown :=
  let size := l.chars.size
  let matching := selected != s.inverted
  if s.onlyMatch then
    if !matching then {}
    else
      let (parts, problem) := s.parts ps l.chars (size + 1) 0 0
      let isText (q : Part) : Bool :=
        s.binary = .asText || (!q.isSplit && s.isText (l.chars.extract q.start q.stop))
      let shown (q : Part) : Raw :=
        let offset := if s.offsets then l.offset + (s.bytes l.chars 0 q.start).length else 0
        let t := s.partBytes ps l.chars q.start q.stop
        let front := s.front h (if s.inverted then '-' else ':') l.number offset t
        front ++ s.paint (fun _ => (s.lineColors selected).1) t ++ [s.delimiter]
      { problem, isText := parts.all isText,
        output := ((parts.takeWhile isText).map shown).reverse }
  else if s.isText l.chars then
    let front :=
      s.front h (if selected then ':' else '-') l.number l.offset (s.bytes l.chars 0 size)
    { output := [front ++ s.painted ps selected matching l.chars] }
  else { isText := false }

structure Progress where
  output : List Raw := []
  count : Nat := 0
  garbled : Bool := false
  problem : Option Raw := none
  used : Bool := false
  hasShown : Bool := false
  held : List Line := []
  pending : Nat := 0
  inRun : Bool := false
  stop : Nat := 0
  number : Nat := 1
  offset : Nat := 0
  rest : Raw := []
  nulls : Option Nat := none
  isSkipped : Bool := false

variable (p : Progress)

def Progress.show (l : Line) (r : Shown) : Progress :=
  let p := { p with output := r.output ++ p.output, problem := p.problem <|> r.problem }
  if r.isText then { p with held := p.held.takeWhile (l.number < ·.number), hasShown := true }
  else { p with garbled := true }

def Search.follow (s : Search) (ps : Patterns) (h : Heading) : (times : Nat) → List Line →
    Progress → Progress
  | 0, _, p => { p with pending := 0 }
  | n, [], p => { p with pending := n }
  | n + 1, l :: ls, p =>
    let r := s.shown ps h false l
    s.follow ps h n (if r.isText then ls else l :: ls) (p.show l r)

def Search.finish (h : Heading) (p : Progress) : Progress :=
  if p.pending = 0 then p else s.follow ps h p.pending p.held.reverse { p with hasShown := true }

def Search.showsLines : Bool := !s.quiet && !s.unseen && !s.count && s.list.isNone

def Search.isAtLimit : Bool := s.limit = some (p.count : Int)

/-- Whether no more lines are selected: they are as many as may be, or one is enough, as for no text
that is not counted. -/
def Search.isFull : Bool :=
  let needsOne := s.quiet || s.unseen || s.list.isSome || (p.nulls.isSome && !s.count)
  s.isAtLimit p || (needsOne && p.nulls.getD 0 < p.count)

/-- Shows what stands before selected lines: what is wanted after those before, a mark between, and
context. -/
def Search.lead (h : Heading) (p : Progress) : Progress :=
  let p := s.finish ps h p
  let before := (p.held.take (s.before.getD 0)).reverse
  let isNext := p.hasShown && before.length = p.held.length
  let apart := (s.before.isSome || s.after.isSome) && p.used && !isNext
  let p := match apart, s.separator with
    | true, some t => { p with output := (s.paint (·.separator) t ++ ['\n']) :: p.output }
    | _, _ => p
  before.foldl (fun p l => p.show l (s.shown ps h false l)) p

/-- Whether nothing is selected: lines that do not match are taken in runs, of which a limit below
zero leaves nothing. -/
def Search.takesNone : Bool := s.inverted && s.limit.getD 0 < 0 && !s.quiet

def Search.takeLine (h : Heading) (p : Progress) (l : Line) : Progress :=
  let shows := s.showsLines && p.nulls.isNone
  let p := if shows && !p.inRun then s.lead ps h p else p
  let pending := if shows then s.after.getD 0 else 0
  let p := { p with held := l :: p.held, inRun := s.inverted, used := true, pending }
  if s.takesNone then p
  else
    let p := { p with count := p.count + 1, stop := p.offset }
    if shows then p.show l (s.shown ps h true l) else p

def Search.step (h : Heading) (p : Progress) (t : Raw) : Progress :=
  let l : Line := ⟨(s.locale.decode t).toArray, p.number, p.offset⟩
  let p := { p with number := p.number + 1, offset := p.offset + t.length + 1 }
  let passed : Progress := { p with held := l :: p.held, inRun := false }
  if p.problem.isSome then p
  else if s.isFull p then passed
  else
    match s.accepts ps l.chars with
    | .error problem => { p with problem := some problem }
    | .ok isMatch => if isMatch != s.inverted then s.takeLine ps h p l else passed

/-- What a block of bytes does to a search. From the first null character on this is no text, and
null characters end lines, too. -/
def Search.feed (h : Heading) (p : Progress) (block : Raw) :
    Progress :=
  let isFirst := p.nulls.isNone && s.delimiter = '\n' && s.binary ≠ .asText && '\x00' ∈ block
  if isFirst && s.binary = .skip then { p with isSkipped := true, count := 0, garbled := false }
  else
    let p := if isFirst then { p with nulls := some p.count } else p
    let ended := if p.nulls.isSome then block.map fun c => if c = '\x00' then '\n' else c else block
    let pieces := Text.splitOn s.delimiter (p.rest ++ ended)
    let p := { p with rest := pieces.getLast?.getD [] }
    s.finish ps h (pieces.dropLast.foldl (s.step ps h) p)

def Search.isDone : Bool := p.problem.isSome || p.isSkipped || (s.isFull p && p.pending = 0)

def Search.close (h : Heading) (p : Progress) : Progress :=
  if p.rest.isEmpty then p else s.finish ps h (s.step ps h { p with rest := [] } p.rest)

structure Report where
  output : Raw := []
  count : Nat := 0
  isBinary : Bool := false
  used : Bool := false
  stop : Option Nat := none
  problem : Option Raw := none

def Search.report (h : Heading) (name : Raw) (p : Progress) : Report :=
  let shown := p.output.reverse.flatten
  let r : Report :=
    { count := p.count, used := p.used, stop := if s.isAtLimit p then some p.stop else none }
  let nameLine : Raw := s.paint (·.fileName) name ++ [s.nameEnd.getD '\n']
  if p.problem.isSome then { output := shown, problem := p.problem }
  else if s.quiet || s.unseen then r
  else
    match s.list with
    | some wanted => { r with output := if (0 < p.count) = wanted then nameLine else [] }
    | none =>
      if s.count then { r with output := s.nameFront h.name ':' ++ Text.ofNat p.count ++ ['\n'] }
      else
        let isBinary : Bool := match p.nulls with
          | some n => n < p.count
          | none => p.garbled && s.binary = .tell
        { r with output := shown, isBinary }

end PatchTriage.Shell.Tools.Grep
