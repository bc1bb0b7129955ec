import PatchTriage.Shell.Tools.Backtrack.Script

/-!
# Expressions with ways back

Alternatives are tried in order, and the first way that leads to the end is the match. There are
assertions on what stands around, parts without a way back, calls of groups, and verbs that end the
search. What comes after an expression is a parameter of `Expression.run`, so that a part that fails
later is tried again in another way.
-/

namespace PatchTriage.Shell.Tools.Backtrack

/-! ## Clusters of characters

Whether two characters are seen as one depends on their classes (`Joint.of`, `Joint.joins`), as of
Unicode 14. -/

open Text

inductive Joint where
  | carriageReturn | lineFeed | control | pictograph | extend | prepend | spacing | joiner | leading
  | vowel | trailing | openSyllable | closedSyllable | region | other
  deriving DecidableEq

namespace Joint

def table : List (Joint × CharSet) :=
  [(.control, .ofTexts "Zl Zp Cc Cf" "MGzaDGRbiBWMIiacBdDtExJhFIl"
      "kadaCGpfIiaByaOvbDdaIUcbDNDwaqaBWFZvDr"),
    (.pictograph, Property.charsOf "extpict"),
    (.extend, .ofTexts "Mn Me"
      "DRyazaNvazaDzazaJbatbEaazaEqaqaFBiaBVraGCwbDAOlbHLfazaNhanaJiaBInaCRTtajeNCbeBSXYvDr" ""),
    (.prepend, .ofTexts "" "CHcfIiaByaOvbDdaBRoaDUGlaqaJlbCVsacaJpaCwfBAza" ""),
    (.spacing, .ofTexts "Mc" "FJvaEya"
      "DRyazaNvazaDzazaJbatbEaazaEqaqaWqbmaBqcdgwaefdalcDSfacbIbaHYnbBUIeacaBNRlazaNhanaJiaOfbUhaCRT
  taje"),
    (.leading, .ofTexts "" "GLkDrCFOrBc" ""),
    (.vowel, .ofTexts "" "GPcCtCWZxw" ""),
    (.trailing, .ofTexts "" "GRwDjCWXoBw" ""),
    (.region, Property.charsOf "ri")]

def of (c : Char) : Joint :=
  if c = '\r' then .carriageReturn
  else if c = '\n' then .lineFeed
  else if c.toNat = 0x200d then .joiner
  else if 0xac00 ≤ c.toNat && c.toNat ≤ 0xd7a3 then
    if (c.toNat - 0xac00) % 28 = 0 then .openSyllable else .closedSyllable
  else ((table.find? fun (_, cs) => cs.holds c).map Prod.fst).getD .other

def joins : (before after : Joint) → Bool
  | .carriageReturn, .lineFeed => true
  | .carriageReturn, _ | .lineFeed, _ | .control, _ => false
  | _, .extend | _, .joiner | _, .spacing => true
  | .prepend, after => after ∉ [.carriageReturn, .lineFeed, .control]
  | .leading, after => after ∈ [.leading, .vowel, .openSyllable, .closedSyllable]
  | .vowel, after | .openSyllable, after => after = .vowel || after = .trailing
  | .trailing, after | .closedSyllable, after => after = .trailing
  | .region, after => after = .region
  | .pictograph, after => after = .pictograph
  | _, _ => false

end Joint

/-! ## What holds for a whole expression

It is said at its very start (`Setup`). -/

inductive Newline where
  | carriageReturn | lineFeed | pair | either | any | null
  deriving DecidableEq

structure Setup where
  newline : Newline := .lineFeed
  isUnicode : Bool := false
  narrowBreaks : Bool := false
  mayBeEmpty : Bool := true
  mayStartEmpty : Bool := true
  looksAhead : Bool := true
  isCompiled : Bool := true

def isVertical (c : Char) : Bool :=
  ('\n' ≤ c && c ≤ '\r') || Text.inStretches c (Text.readStretches "FdaLZnb")

namespace Newline

def lengthAt (n : Newline) (chars : Array Char) (i : Nat) : Nat :=
  let isPair := chars[i]? = some '\r' && chars[i + 1]? = some '\n'
  let one (p : Char → Bool) : Nat := if chars[i]?.any p then 1 else 0
  match n with
  | .carriageReturn => one (· = '\r')
  | .lineFeed => one (· = '\n')
  | .null => one (· = '\x00')
  | .pair => if isPair then 2 else 0
  | .either => if isPair then 2 else one fun c => c = '\r' || c = '\n'
  | .any => if isPair then 2 else one isVertical

def isBefore (n : Newline) (chars : Array Char) (i : Nat) : Bool :=
  match n with
  | .pair => 2 ≤ i && n.lengthAt chars (i - 2) = 2
  | _ => 1 ≤ i && 0 < n.lengthAt chars (i - 1)

def holds (n : Newline) (c : Char) : Bool := n ≠ .pair && 0 < n.lengthAt #[c] 0

end Newline

/-! ## Expressions -/

inductive Greed where
  | most
  | fewest
  | possessive

inductive Place where
  | textStart | front | textEnd | lastBreak | lineStart | lineEnd | wordEdge | wordInside
  | searchStart
  deriving DecidableEq

inductive Verb where
  | commit
  | prune
  | skip
  | alternative (level : Nat)

inductive Expression where
  | empty
  | fail
  | accept
  | char (accepts : Char → Bool) (certain : Option (Char × Bool) := none)
  | byte
  | cluster
  | place (p : Place)
  | keep
  | verb (v : Verb)
  | group (number : Nat) (e : Expression)
  | again (numbers : List Nat) (ignoreCase : Bool)
  | isSet (numbers : List Nat)
  | seq (a b : Expression)
  | alt (level : Nat) (a b : Expression)
  | rep (e : Expression) (least : Nat) (most : Option Nat) (greed : Greed)
  | ahead (isThere : Bool) (e : Expression)
  | behind (isThere : Bool) (width : Nat) (e : Expression)
  | atomic (e : Expression)
  | call (number : Nat)
  | choice (test yes no : Expression)
  | given (test yes : Expression)
  | define (e : Expression)

structure Spot where
  position : Nat
  inside : Nat := 0
  start : Nat
  groups : List (Nat × Nat × Nat) := []
  deriving DecidableEq

inductive Outcome where
  | found (s : Spot)
  | none
  | cut (next : Option Nat)
  | leave (level : Nat)
  | spent
  deriving DecidableEq

abbrev Trial := StateM Nat Outcome

namespace Trial

@[inline] def orElse (a : Trial) (b : Unit → Trial) : Trial := do
  match ← a with
  | .none => b ()
  | r => return r

@[inline] def orNext (level : Nat) (a : Trial) (b : Unit → Trial) : Trial := do
  let closed (r : Outcome) : Outcome := if r = .leave level then .none else r
  match closed (← a) with
  | .none => return closed (← b ())
  | r => return r

@[inline] def counted (a : Trial) : Trial := do
  match ← get with
  | 0 => return .spent
  | n + 1 =>
    set n
    a

@[inline] def settled (a : Trial) (next : Spot → Trial) : Trial := do
  match ← a with
  | .found s => next s
  | r => return r

@[inline] def decided (a : Trial) (yes : Spot → Trial) (no : Trial) : Trial := do
  match ← a with
  | .found s => yes s
  | .spent => return .spent
  | _ => no

end Trial

@[inline] def failed : Trial := return .none

@[inline] def reached (s : Spot) : Trial := return .found s

abbrev Next := Spot → Trial

structure Subject where
  chars : Array Char
  locale : Locale
  origin : Nat
  isFront : Bool := true
  isWordChar : Char → Bool
  fold : Char → Char
  newline : Newline := .lineFeed
  pairsRegions : Bool := false

namespace Subject

variable (t : Subject)

def wordAt (i : Nat) : Bool := t.chars[i]?.any t.isWordChar

def wordBefore (i : Nat) : Bool := 0 < i && t.wordAt (i - 1)

def isPlace (i : Nat) : Place → Bool
  | .textStart => i = 0
  | .front => i = 0 && t.isFront
  | .textEnd => i = t.chars.size
  | .lastBreak =>
    i = t.chars.size || (let n := t.newline.lengthAt t.chars i; 0 < n && i + n = t.chars.size)
  | .lineStart => if i = 0 then t.isFront else i < t.chars.size && t.newline.isBefore t.chars i
  | .lineEnd => i = t.chars.size || 0 < t.newline.lengthAt t.chars i
  | .wordEdge => t.wordBefore i != t.wordAt i
  | .wordInside => t.wordBefore i == t.wordAt i
  | .searchStart => i = t.origin

def again? (ignoreCase : Bool) (i j position : Nat) : Option Nat :=
  let fold := if ignoreCase then t.fold else id
  let stop := position + (j - i)
  let same (k : Nat) : Bool := t.chars[i + k]?.map fold == t.chars[position + k]?.map fold
  if stop ≤ t.chars.size && (List.range (j - i)).all same then some stop else none

def regionsBefore (i : Nat) : Nat :=
  ((t.chars.extract 0 i).toList.reverse.takeWhile fun c => Joint.of c = .region).length

/-- Where the characters end that are seen as one with those before a position, the last of which
has a class. -/
def clusterEnd (t : Subject) : (fuel : Nat) → (before : Joint) → (i : Nat) → Nat
  | 0, _, i => i
  | fuel + 1, before, i =>
    match t.chars[i]? with
    | none => i
    | some c =>
      let after := Joint.of c
      let isSplit :=
        t.pairsRegions && before = .region && after = .region && t.regionsBefore (i - 1) % 2 = 1
      if !t.locale.isSound c || !before.joins after || isSplit then i
      else
        let isPassed := before = .pictograph && (after = .extend || after = .joiner)
        t.clusterEnd fuel (if isPassed then before else after) (i + 1)

end Subject

def repeated (fewest : Bool) (step : Spot → Next → Trial) : (rounds : Nat) → (least : Nat) →
    (most : Option Nat) → Spot → Next → Trial
  | 0, least, _, s, next => if least = 0 then next s else failed
  | rounds + 1, least + 1, most, s, next =>
    step s fun s => (repeated fewest step rounds least (most.map (· - 1)) s next).counted
  | _ + 1, 0, some 0, s, next => next s
  | rounds + 1, 0, most, s, next =>
    let more (_ : Unit) : Trial := step s fun s' =>
      if s'.position = s.position && s'.inside = s.inside then next s'
      else (repeated fewest step rounds 0 (most.map (· - 1)) s' next).counted
    if fewest then (next s).orElse more else (more ()).orElse fun _ => next s

/-- How many characters from a position on are accepted, one after another, at most `limit` of them.
-/
def stretch (t : Subject) (accepts : Char → Bool) : (limit : Nat) → (position : Nat) → Nat
  | 0, _ => 0
  | limit + 1, i =>
    match t.chars[i]? with
    | some c => if accepts c then stretch t accepts limit (i + 1) + 1 else 0
    | none => 0

def longestFirst (s : Spot) (next : Next) : (more : Nat) → Trial
  | 0 => (next s).counted
  | more + 1 =>
    (next { s with position := s.position + (more + 1) }).counted.orElse fun _ =>
      longestFirst s next more

def shortestFirst (next : Next) : (more : Nat) → Spot → Trial
  | 0, s => (next s).counted
  | more + 1, s =>
    (next s).counted.orElse fun _ => shortestFirst next more { s with position := s.position + 1 }

def repeatedChar (t : Subject) (accepts : Char → Bool) (least : Nat) (most : Option Nat)
    (greed : Greed) (s : Spot) (next : Next) : Trial :=
  let n := stretch t accepts (most.getD (t.chars.size - s.position)) s.position
  if n < least then failed
  else
    let after : Spot := { s with position := s.position + least }
    match greed with
    | .most => longestFirst after next (n - least)
    | .fewest => shortestFirst next (n - least) after
    | .possessive => next { s with position := s.position + n }

def preceding (step : Spot → Next → Trial) (s : Spot) : (starts : List Nat) → Trial
  | [] => failed
  | i :: starts =>
    (step { s with position := i } fun s' =>
      if s'.position = s.position then reached s'
      else failed).decided reached (preceding step s starts)

namespace Expression

/-- Follows an expression from a spot, and then what comes after it. `called` follows a group, and
`finish` what is left before its end. -/
def run (t : Subject) (first : Nat) (called : Nat → Spot → Next → Trial) (finish : Next) :
    Expression → Spot → Next → Trial
  | empty, s, next => next s
  | fail, _, _ => failed
  | accept, s, _ => finish s
  | char accepts _, s, next =>
    match t.chars[s.position]? with
    | some c =>
      if s.inside = 0 && accepts c then next { s with position := s.position + 1 } else failed
    | none => failed
  | byte, s, next =>
    match t.chars[s.position]? with
    | some c =>
      if (t.locale.encodeChar c).length ≤ s.inside + 1 then
        next { s with position := s.position + 1, inside := 0 }
      else next { s with inside := s.inside + 1 }
    | none => failed
  | cluster, s, next =>
    match t.chars[s.position]? with
    | some c =>
      if s.inside = 0 && t.locale.isSound c then
        next { s with position := t.clusterEnd t.chars.size (Joint.of c) (s.position + 1) }
      else failed
    | none => failed
  | place p, s, next => if s.inside = 0 && t.isPlace s.position p then next s else failed
  | keep, s, next => next { s with start := s.position }
  | verb v, s, next =>
    (next s).orElse fun _ =>
      return match v with
        | .commit => .cut none
        | .prune => .cut (some (first + 1))
        | .skip => .cut (some (max s.position (first + 1)))
        | .alternative 0 => .cut (some (first + 1))
        | .alternative level => .leave level
  | group number e, s, next =>
    run t first called finish e s fun s' =>
      next { s' with
        groups := (number, s.position, s'.position) :: s'.groups.filter (·.1 ≠ number) }
  | again numbers ignoreCase, s, next =>
    match numbers.findSome? fun n => s.groups.find? (·.1 = n) with
    | none => failed
    | some (_, i, j) =>
      match t.again? ignoreCase i j s.position with
      | some stop => next { s with position := stop }
      | none => failed
  | isSet numbers, s, next => if s.groups.any (·.1 ∈ numbers) then next s else failed
  | seq a b, s, next => run t first called finish a s fun s => run t first called finish b s next
  | alt level a b, s, next =>
    (run t first called finish a s next).orNext level fun _ => run t first called finish b s next
  | rep (char accepts _) least most greed, s, next => repeatedChar t accepts least most greed s next
  | rep e least most greed, s, next =>
    let rounds := least + t.chars.size + 2
    let step (finish : Next) (s : Spot) (next : Next) : Trial := run t first called finish e s next
    match greed with
    | .most => repeated false (step finish) rounds least most s next
    | .fewest => repeated true (step finish) rounds least most s next
    | .possessive => (repeated false (step reached) rounds least most s reached).settled next
  | ahead isThere e, s, next =>
    (run t first called reached e s reached).decided
      (fun s' => if isThere then next { s with groups := s'.groups } else failed)
      (if isThere then failed else next s)
  | behind isThere width e, s, next =>
    let starts := (List.range (min width s.position + 1)).map fun n => s.position - n
    (preceding (run t first called reached e) s starts).decided
      (fun s' => if isThere then next { s with groups := s'.groups } else failed)
      (if isThere then failed else next s)
  | atomic e, s, next => (run t first called reached e s reached).settled next
  | call number, s, next => called number s fun s' => next { s' with groups := s.groups }
  | choice test yes no, s, next =>
    (run t first called reached test s reached).decided
      (fun s' => run t first called finish yes { s with groups := s'.groups } next)
      (run t first called finish no s next)
  | given test yes, s, next =>
    (run t first called reached test s reached).decided
      (fun s' => run t first called finish yes { s with groups := s'.groups } next)
      (next s)
  | define _, s, next => next s

def maxCalls : Nat := 2000

def calledUpTo (t : Subject) (first : Nat) (finish : Next) (bodies : List (Nat × Expression)) :
    (depth : Nat) → (number : Nat) → Spot → Next → Trial
  | 0, _, _, _ => return .spent
  | depth + 1, number, s, next =>
    match bodies.lookup number with
    | some e => run t first (calledUpTo t first finish bodies depth) finish e s next
    | none => failed

def groups : Expression → List (Nat × Expression)
  | group number e => (number, .group number e) :: groups e
  | seq a b | alt _ a b => groups a ++ groups b
  | rep e _ _ _ | ahead _ e | behind _ _ e | atomic e | define e => groups e
  | choice test yes no => groups test ++ groups yes ++ groups no
  | given test yes => groups test ++ groups yes
  | _ => []

def mayAccept : Expression → Bool
  | accept => true
  | group _ e | rep e _ _ _ | ahead _ e | behind _ _ e | atomic e | define e => e.mayAccept
  | seq a b | alt _ a b | given a b => a.mayAccept || b.mayAccept
  | choice test yes no => test.mayAccept || yes.mayAccept || no.mayAccept
  | _ => false

def needed? : Expression → Option (Char → Bool)
  | char accepts (some _) => some accepts
  | group _ e | atomic e => e.needed?
  | seq a b => b.needed? <|> a.needed?
  | rep e least _ _ => if 0 < least then e.needed? else none
  | _ => none

inductive Lead where
  | unset
  | unknown
  | certain (c : Char) (ignoreCase : Bool) (accepts : Char → Bool)

def Lead.both : Lead → Lead → Lead
  | .certain a i p, .certain b j _ => if a = b && i = j then .certain a i p else .unknown
  | .unset, .unset => .unset
  | _, _ => .unknown

def lead : Expression → Lead
  | char accepts (some (c, ignoreCase)) => .certain c ignoreCase accepts
  | char _ none | byte | cluster | again _ _ | call _ | choice _ _ _ | given _ _ | define _
  | accept => .unknown
  | empty | fail | keep | verb _ | ahead _ _ | behind _ _ _ | isSet _ => .unset
  | place p => if p = .lineStart then .unknown else .unset
  | group _ e | atomic e => e.lead
  | seq a b =>
    match a.lead with
    | .unset => b.lead
    | l => l
  | alt _ a b => a.lead.both b.lead
  | rep e least _ _ =>
    match e.lead with
    | .unset => .unset
    | l => if 0 < least then l else .unknown

def maxWays : Nat := 10000000

structure Plan where
  expression : Expression
  bodies : List (Nat × Expression)
  first : Option (Char → Bool) := none
  needed : Option (Char → Bool) := none
  setup : Setup := {}

def Plan.counts (p : Plan) (t : Subject) (s : Spot) : Bool :=
  s.start ≠ s.position || s.inside ≠ 0 ||
    (p.setup.mayBeEmpty && (p.setup.mayStartEmpty || s.start ≠ t.origin))

/-- The first match from a position on, trying at most `fuel` positions, as long as the character
follows that is needed. -/
def findFrom (t : Subject) (p : Plan) : (fuel : Nat) → (first : Nat) → Outcome
  | 0, _ => .none
  | fuel + 1, first =>
    let isMissing := p.needed.any fun accepts => !t.chars.any accepts first
    let isPassed := match p.first, t.chars[first]? with
      | some accepts, some c => !accepts c
      | _, _ => false
    if t.chars.size < first || isMissing then .none
    else if isPassed then findFrom t p fuel (first + 1)
    else
      let finish (s : Spot) : Trial := if p.counts t s then reached s else failed
      let called := calledUpTo t first finish p.bodies maxCalls
      let start : Spot := { position := first, start := first }
      match (run t first called finish p.expression start finish).run maxWays with
      | (.none, _) => findFrom t p fuel (first + 1)
      | (.cut (some next), _) => findFrom t p fuel next
      | (r, _) => r

def plan (e : Expression) (setup : Setup) : Plan :=
  let first := match e.lead with
    | .certain _ _ accepts => some accepts
    | _ => none
  { expression := e, bodies := (0, e) :: e.groups, setup
    first := if setup.looksAhead then first else none
    needed := if e.mayAccept || !setup.looksAhead then none else e.needed? }

def Plan.find (p : Plan) (t : Subject) : Outcome := findFrom t p (t.chars.size + 2) t.origin

end Expression

end PatchTriage.Shell.Tools.Backtrack
