import PatchTriage.Shell.Tools.Backtrack.Expression

/-!
# Characters and sets of characters

How characters and sets of them are written: by escapes, by properties, and between brackets.
-/

namespace PatchTriage.Shell.Tools.Backtrack

/-! ## Mistakes -/

/-- What is wrong with a text. -/
structure Fault where
  message : Raw

instance : Coe String Fault := ⟨fun s => ⟨s⟩⟩

namespace Fault

def lastBackslash : Fault := "\\ at end of pattern"

def boundsSize : Fault := "number too big in \x7b\x7d quantifier"

def unclosedClass : Fault := "missing terminating ] for character class"

def nothingToRepeat : Fault := "quantifier does not follow a repeatable item"

def collating : Fault := "POSIX collating elements are not supported"

def unclosed : Fault := "missing closing parenthesis"

def missingGroup : Fault := "reference to non-existent subpattern"

def unclosedCondition : Fault := "missing closing parenthesis for condition"

def variableLookbehind : Fault := "lookbehind assertion is not fixed length"

def digitExpected : Fault := "digit expected after (?+ or (?-"

def unsupportedEscape : Fault :=
  "PCRE2 does not support \\F, \\L, \\l, \\N\x7bname\x7d, \\U, or \\u"

def nameEnd : Fault := "syntax error in subpattern name (missing terminator?)"

def malformedProperty : Fault := "malformed \\P or \\p sequence"

def unknownProperty : Fault := "unknown property after \\P or \\p"

def rangeWithClass : Fault := "invalid range in character class"

def malformedReference : Fault :=
  "\\g is not followed by a braced, angle-bracketed, or quoted name/number or by a plain number"

def unknownVerb : Fault := "(*VERB) not recognized or malformed"

def groupSize : Fault := "subpattern number is too big"

def nameExpected : Fault := "subpattern name expected"

def hexDigit : Fault := "non-hex character in \\x\x7b\x7d (closing brace missing?)"

def malformedName : Fault := "\\k is not followed by a braced, angle-bracketed, or quoted name"

def unknownAssertion : Fault := "(*alpha_assertion) not recognized"

end Fault

open Script

/-! ## Letters up to their case

Characters that are one letter, as of Unicode 14, are known by a small one (`caseless`). -/

open Text

def caseless (c : Char) : Char := if c ∈ ['İ', 'ı'] then c else Letters.small (Letters.capital c)

/-! ## The state of reading -/

structure Flags where
  ignoreCase : Bool := false
  multiline : Bool := false
  dotAll : Bool := false
  extended : Bool := false
  looseSets : Bool := false
  noCapture : Bool := false
  ungreedy : Bool := false
  duplicates : Bool := false

inductive Later where
  | group (number : Nat)
  | name (t : Text)
  | fault (f : Fault)
  | last (f : Fault)

structure Reading where
  locale : Locale
  setup : Setup := {}
  rest : Text
  flags : Flags := {}
  quoting : Bool := false
  groups : Nat := 0
  names : List (Text × Nat) := []
  known : List (Text × Nat) := []
  asserting : Bool := false
  later : List Later := []

abbrev Parse := StateT Reading (Except Fault)

namespace Parse

def fail {α : Type} (f : Fault) : Parse α := throw f

def rest : Parse Text := do return (← get).rest

def skip (n : Nat) : Parse Unit := modify fun r => { r with rest := r.rest.drop n }

def begins (t : String) : Parse Bool := do return startsWith t.toList (← rest)

def accepts (t : String) : Parse Bool := do
  if ← begins t then
    skip t.length
    return true
  return false

def next (fault : Fault) : Parse Char := do
  match ← rest with
  | [] => fail fault
  | c :: t =>
    modify fun r => { r with rest := t }
    return c

def stretch (p : Char → Bool) : Parse Text := do
  let t := (← rest).takeWhile p
  skip t.length
  return t

def later (l : Later) : Parse Unit := modify fun r => { r with later := l :: r.later }

end Parse

open Parse

/-! ## Characters -/

def valueOf (base : Nat) (t : Text) : Nat := t.foldl (fun n c => n * base + (hexDigit? c).getD 0) 0

variable (c : Char)

def isOctal : Bool := '0' ≤ c && c ≤ '7'

def isHex : Bool := (hexDigit? c).isSome

def maxCode (l : Locale) : Nat := if l = .utf8 then 0x10ffff else 0xff

def octalEscape (first : Char) : Parse Char := do
  let more := ((← rest).take 2).takeWhile isOctal
  skip more.length
  let n := valueOf 8 (first :: more)
  if (← get).locale = .bytes && 0xff < n then
    fail "octal value is greater than \\377 in 8-bit non-UTF-8 mode"
  return Char.ofNat n

def bracedCode (base : Nat) (isDigit : Char → Bool) (fault : Fault) : Parse Char := do
  match ← rest with
  | [] | '\x7d' :: _ => fail "digits missing in \\x\x7b\x7d or \\o\x7b\x7d or \\N\x7bU+\x7d"
  | _ => pure ()
  let ds ← Parse.stretch isDigit
  let n := valueOf base ds
  if maxCode (← get).locale < n then
    fail "character code point value in \\x\x7b\x7d or \\o\x7b\x7d is too large"
  if !(← accepts "\x7d") then fail fault
  return Char.ofNat n

def maxRepetitions : Nat := 65535

def isBounds (t : Text) : Bool :=
  let low := t.takeWhile Char.isDigit
  let after := match t.drop low.length with
    | ',' :: t => t.dropWhile Char.isDigit
    | t => t
  !low.isEmpty && after.head? == some '\x7d'

def writtenBounds : Parse (Nat × Option Nat) := do
  let low := valueOf 10 (← Parse.stretch Char.isDigit)
  if maxRepetitions < low then fail .boundsSize
  let high ← if ← accepts "," then
      let ds ← Parse.stretch Char.isDigit
      pure (if ds.isEmpty then none else some (valueOf 10 ds))
    else pure (some low)
  skip 1
  match high with
  | some n =>
    if maxRepetitions < n then fail .boundsSize
    if n < low then fail "numbers out of order in \x7b\x7d quantifier"
  | none => pure ()
  return (low, high)

/-- The character in braces after `\N`, if it is one and not bounds, which in a set have to be
right. -/
def namedCode? (inClass : Bool) : Parse (Option Char) := do
  match ← rest with
  | '\x7b' :: t =>
    if isBounds t then
      if inClass then
        skip 1
        let _ ← writtenBounds
      return none
    if !startsWith ['U', '+'] t then fail .unsupportedEscape
    if (← get).locale = .bytes then fail "\\N\x7bU+dddd\x7d is supported only in Unicode (UTF) mode"
    skip 3
    return some (← bracedCode 16 isHex .hexDigit)
  | _ => return none

/-- The character that an escape stands for, by its first character; none if it is of another kind.
-/
def charEscape? (inClass : Bool) : Parse (Option Char) := do
  match c with
  | 'a' => return some '\x07'
  | 'e' => return some '\x1b'
  | 'f' => return some '\x0c'
  | 'n' => return some '\n'
  | 'r' => return some '\r'
  | 't' => return some '\t'
  | 'b' => return if inClass then some '\x08' else none
  | 'g' => return if inClass then some 'g' else none
  | 'N' => namedCode? inClass
  | '0' => return some (← octalEscape '0')
  | 'o' =>
    if !(← accepts "\x7b") then fail "missing opening brace after \\o"
    return some
      (← bracedCode 8 isOctal "non-octal character in \\o\x7b\x7d (closing brace missing?)")
  | 'x' =>
    if ← accepts "\x7b" then return some (← bracedCode 16 isHex .hexDigit)
    let ds := ((← rest).take 2).takeWhile isHex
    skip ds.length
    return some (Char.ofNat (valueOf 16 ds))
  | 'c' =>
    let d ← next "\\c at end of pattern"
    if d < ' ' || '~' < d then fail "\\c must be followed by a printable ASCII character"
    return some (Char.ofNat (d.toUpper.toNat ^^^ 0x40))
  | c =>
    if c.isDigit then
      let number := valueOf 10 (c :: (← rest).takeWhile Char.isDigit)
      let isGroup := !inClass && (number < 10 || '8' ≤ c || number ≤ (← get).groups)
      if isGroup then return none
      if '8' ≤ c then return some c
      return some (← octalEscape c)
    return if c.isAlpha then none else some c

/-! ## Sets -/

def isHorizontal : Bool := inStretches c (readStretches "jaxaEyaIHkaPiaDAgkBlaBwaFXxa")

def isWordChar : Bool := c.isAlphanum || c = '_'

def isSpace : Bool := c = ' ' || ('\t' ≤ c && c ≤ '\r')

def wordChars : CharSet := Property.charsOf "xwd"

def anyDigits : CharSet := Property.charsOf "nd"

def anySpaces : CharSet := Property.charsOf "xsp"

namespace Setup

def isWordChar (u : Setup) : Char → Bool :=
  if u.isUnicode then wordChars.holds else Backtrack.isWordChar

def isDigit (u : Setup) : Char → Bool := if u.isUnicode then anyDigits.holds else Char.isDigit

def isSpace (u : Setup) : Char → Bool := if u.isUnicode then anySpaces.holds else Backtrack.isSpace

end Setup

def maxProperty : Nat := 48

def property? (name : Text) : Option (Char → Bool) :=
  let kind := name.takeWhile fun c => c ≠ ':' && c ≠ '='
  let value := name.drop (kind.length + 1)
  if kind.length = name.length then
    match find? name with
    | some s => some s.uses
    | none => Property.holds? name
  else
    match String.ofList kind with
    | "bidiclass" | "bc" => Property.holds? ("bidi".toList ++ value)
    | "script" | "sc" => (find? value).map owns
    | "scriptextensions" | "scx" => (find? value).map uses
    | _ => none

def property : Parse (Char → Bool) := do
  let c ← next .malformedProperty
  if c ≠ '\x7b' then
    if !c.isAlpha then fail .malformedProperty
    match property? [c.toLower] with
    | some p => return p
    | none => fail .unknownProperty
  let negated ← accepts "^"
  let written ← Parse.stretch (· ≠ '\x7d')
  if !(← accepts "\x7d") then fail .malformedProperty
  let name := (written.filter fun c => c ≠ '_' && c ≠ '-' && !isSpace c).map Char.toLower
  if maxProperty < name.length then fail .malformedProperty
  match property? name with
  | some p => return fun c => p c != negated
  | none => fail .unknownProperty

/-- The set that an escape stands for, by its first character. Outside of brackets, a compiled
expression has only the first 128 characters in the sets of what is no digit, no blank and no word
character. -/
def setEscape? (inClass : Bool) : Parse (Option (Char → Bool)) := do
  let r ← get
  let u := r.setup
  let isNear := !inClass && r.locale = .utf8 && u.isCompiled && !u.isUnicode
  let others (p : Char → Bool) : Option (Char → Bool) :=
    some fun c => !p c && (!isNear || c.toNat < 128)
  match c with
  | 'd' => return some u.isDigit
  | 'D' => return others u.isDigit
  | 's' => return some u.isSpace
  | 'S' => return others u.isSpace
  | 'w' => return some u.isWordChar
  | 'W' => return others u.isWordChar
  | 'h' => return some isHorizontal
  | 'H' => return some (!isHorizontal ·)
  | 'v' => return some isVertical
  | 'V' => return some (!isVertical ·)
  | 'p' => return some (← property)
  | 'P' =>
    let p ← property
    return some (!p ·)
  | _ => return none

def refusal : Fault :=
  if c ∈ ['F', 'L', 'l', 'U', 'u'] then .unsupportedEscape else "unrecognized character follows \\"

/-- The length of the name in a class such as `[:alpha:]`, after its mark; none if it is no class.
-/
def className? (mark : Char) : Text → Option Nat
  | '\\' :: c :: t =>
    if c = ']' || c = '\\' then (className? mark t).map (· + 2)
    else (className? mark (c :: t)).map (· + 1)
  | a :: b :: t =>
    if (a = '[' && b = mark) || a = ']' then none
    else if a = mark && b = ']' then some 0
    else (className? mark (b :: t)).map (· + 1)
  | _ => none

def isNamedClass : Text → Bool
  | mark :: t => mark ∈ [':', '.', '='] && (className? mark t).isSome
  | [] => false

def isHidden : Bool := c.toNat = 0x61c || (0x2066 ≤ c.toNat && c.toNat ≤ 0x2069)

def anyClass? (name : Text) : Option (Char → Bool) :=
  let chars (name : String) : Option (Char → Bool) := some (Property.charsOf name).holds
  let isFormat (c : Char) : Bool := Category.holds .cf c && !isHidden c
  match String.ofList name with
  | "alpha" => chars "l"
  | "lower" => chars "ll"
  | "upper" => chars "lu"
  | "alnum" => chars "xan"
  | "space" => chars "xsp"
  | "blank" => some isHorizontal
  | "cntrl" => chars "cc"
  | "digit" => chars "nd"
  | "word" => chars "xwd"
  | "graph" =>
    let separators := Property.charsOf "z"
    let others := Property.charsOf "c"
    some fun c => !separators.holds c && (!others.holds c || (isFormat c && c.toNat ≠ 0x180e))
  | "print" =>
    let others := Property.charsOf "c"
    some fun c => c.toNat ≠ 0x2028 && c.toNat ≠ 0x2029 && (!others.holds c || isFormat c)
  | "punct" =>
    let marks := Property.charsOf "p"
    let symbols := Property.charsOf "s"
    some fun c => marks.holds c || (c.toNat < 128 && symbols.holds c)
  | _ => none

/-- The characters of a class. Capital and small letters are all letters where case does not count,
but for those of all scripts. -/
def classOf? (r : Reading) (name : Text) : Option (Char → Bool) :=
  let near := match String.ofList name with
    | "word" => some isWordChar
    | "ascii" => some fun c => c.toNat < 128
    | _ => CharClass.holds? name
  let isCase := name = "upper".toList || name = "lower".toList
  if r.setup.isUnicode then (anyClass? name) <|> near
  else if r.flags.ignoreCase && isCase then some Char.isAlpha
  else near

/-! ## Members of sets -/

inductive Member where
  | range (low high : Char)
  | listed (accepts : Char → Bool)
  | property (accepts : Char → Bool)
  | near (accepts : Char → Bool) (hasFar : Option Bool)

def namedClass : Parse Member := do
  let mark ← next .unclosedClass
  if mark ≠ ':' then fail .collating
  let negated ← accepts "^"
  let name ← Parse.stretch (· ≠ ':')
  skip 2
  let r ← get
  let isKnown := r.setup.isUnicode && (anyClass? name).isSome
  match classOf? r name with
  | some p =>
    let accepts (c : Char) : Bool := p c != negated
    return if isKnown then .property accepts else .near accepts (some negated)
  | none => fail "unknown POSIX class name"

def escapedMember (u : Setup) (c : Char) (accepts : Char → Bool) : Member :=
  if c ∈ ['p', 'P'] then .property accepts
  else if c ∈ ['h', 'H', 'v', 'V'] then .listed accepts
  else if u.isUnicode then .property accepts
  else .near accepts (if c.isUpper then some true else none)

/-! ## Letters up to their case -/

def foldOf (l : Locale) (c : Char) : Char :=
  match l with
  | .bytes => c.toLower
  | .utf8 => caseless c

def caseMates (l : Locale) (c : Char) : List Char :=
  match l with
  | .bytes => [c.toLower, c.toUpper, c]
  | .utf8 =>
    let first := caseless c
    let capitals := first.toUpper :: codesFor first smallImages
    let all := first :: capitals ++ capitals.flatMap (codesFor · Letters.variants)
    all.filter (caseless · = first)

namespace Member

def holds (c : Char) (mates : List Char) : Member → Bool
  | range low high => mates.any fun x => low ≤ x && x ≤ high
  | listed accepts | property accepts | near accepts _ => accepts c

def holdsFar (c : Char) (mates : List Char) : Member → Bool
  | near _ _ => false
  | m => m.holds c mates

def isFar (mates : Char → List Char) : Member → Bool
  | range low high =>
    let near := (List.range' low.toNat (256 - low.toNat)).map Char.ofNat
    let isWide (c : Char) : Bool := 0xff < c.toNat
    isWide high || near.any fun c => c ≤ high && (mates c).any isWide
  | near _ _ => false
  | _ => true

def isProperty : Member → Bool
  | property _ => true
  | _ => false

def hasFar : Member → Option Bool
  | near _ far => far
  | _ => none

end Member

structure Building where
  members : List Member := []
  last : Option Char := none
  first : Option Char := none

def Building.char (b : Building) (c : Char) : Parse Building := do
  match b.first with
  | some low =>
    if c < low then fail "range out of order in character class"
    return { members := .range low c :: b.members }
  | none => return { members := .range c c :: b.members, last := some c }

def Building.class (b : Building) (m : Member) : Parse Building := do
  if b.first.isSome then fail .rangeWithClass
  match ← rest with
  | '-' :: c :: _ => if c ≠ ']' then fail .rangeWithClass
  | _ => pure ()
  return { members := m :: b.members }

def members : (fuel : Nat) → (isFirst : Bool) → Building → Parse (List Member)
  | 0, _, _ => fail .unclosedClass
  | fuel + 1, isFirst, b => do
    let quoting := (← get).quoting
    let c ← next .unclosedClass
    if quoting then
      let isEnd := c = '\\' && (← rest).head? = some 'E'
      if isEnd then
        skip 1
        modify fun r => { r with quoting := false }
        members fuel isFirst b
      else members fuel false (← b.char c)
    else if (← get).flags.looseSets && (c = ' ' || c = '\t') then members fuel isFirst b
    else if c = ']' && !isFirst then
      return if b.first.isSome then .range '-' '-' :: b.members else b.members
    else if c = '[' && isNamedClass (← rest) then
      if b.first.isSome then fail .rangeWithClass
      let m ← namedClass
      members fuel false (← b.class m)
    else if c = '-' && b.last.isSome then
      members fuel false { b with first := b.last, last := none }
    else if c = '\\' then
      let c ← next .lastBackslash
      if c = 'E' then members fuel isFirst b
      else if c = 'Q' then
        modify fun r => { r with quoting := true }
        members fuel isFirst b
      else
        match ← charEscape? c true with
        | some c => members fuel false (← b.char c)
        | none =>
          if b.first.isSome && c ∈ "dDsSwWhHvVpP".toList then fail .rangeWithClass
          match ← setEscape? c true with
          | some p => members fuel false (← b.class (escapedMember (← get).setup c p))
          | none =>
            if c = 'N' then fail "\\N is not supported in a class"
            if c ∈ "ABCGKRXZbgkz".toList then fail "escape sequence is invalid in character class"
            fail (refusal c)
    else members fuel false (← b.char c)

def matesIn (r : Reading) (c : Char) : List Char :=
  if r.flags.ignoreCase then caseMates r.locale c else [c]

/-- Whether the characters after the first 256 that members do not name belong to a set, and whether
those that members name count; the members come with the last one first. Only the last one that says
something of those characters counts: it names them by a property, or it says that they are no
members, or else all are alike. -/
def farOf (r : Reading) (negated : Bool) (ms : List Member) : Bool × Bool :=
  let last := (ms.findSome? Member.hasFar).getD false
  let isUnicode := r.setup.isUnicode
  if ms.any (Member.isFar (matesIn r)) && (isUnicode || ms.any Member.isProperty || !last) then
    let all := if isUnicode then ms.any (·.hasFar = some true) else last && !negated
    (all != negated, !all)
  else (negated != last, false)

/-- Whether a character belongs to a set up to case; `far` is what is known of the characters after
the first 256. -/
def inSet (r : Reading) (negated : Bool) (ms : List Member) (far : Bool × Bool) (c : Char) : Bool :=
  let mates := matesIn r c
  r.locale.isSound c &&
    if r.locale = .utf8 && 0xff < c.toNat then far.1 != (far.2 && ms.any (Member.holdsFar c mates))
    else ms.any (Member.holds c mates) != negated

def single? (negated : Bool) : List Member → Option Char
  | [.range low high] => if low = high && !negated then some low else none
  | _ => none

/-- A character that stands for itself. It is certain unless it is one of several of more than one
byte that differ by their case. -/
def literal : Parse Expression := do
  let r ← get
  let i := r.flags.ignoreCase
  let isSingle := !i || r.locale = .bytes || (c :: caseMates r.locale c).all fun x => x.toNat < 128
  return .char (if i then fun x => foldOf r.locale x = foldOf r.locale c else (· = c))
    (if isSingle then some (c, i) else none)

def bracketed : Parse Expression := do
  let negated ← accepts "^"
  let r ← get
  let ms ← members (r.rest.length + 1) true {}
  match single? negated ms with
  | some c => literal c
  | none =>
    let far := farOf r negated ms
    return .char (inSet r negated ms far)

end PatchTriage.Shell.Tools.Backtrack
