import PatchTriage.Shell.Builtins.Basic

/-!
# Variables, arguments and options

The commands on variables (`export`, `readonly`, `local`, `unset`), on options and arguments (`set`,
`shift`), and those that read (`getopts`, `read`).
-/

namespace PatchTriage.Shell.Builtins

open Proc

variable (args : List Raw)

/-! ## Showing variables -/

def sortedVariables (s : State) : List (Raw × Variable) :=
  let order (a b : Raw × Variable) : Ordering := Text.compare a.1 b.1
  SortedList.sort order s.vars

def listing (front : Raw) (vars : List (Raw × Variable)) : Raw :=
  vars.flatMap fun (name, v) =>
    let value : Raw := match v.value with
      | some t => '=' :: quoted t
      | none => []
    front ++ name ++ value ++ ['\n']

/-! ## Marking variables -/

/-- Marks variables and may set them; without arguments, or with `-p`, shows those that are marked.
-/
def markVariables (name : Raw) (isMarked : Variable → Bool) (f : Variable → Variable)
    (args : List Raw) : Proc Result := do
  let (os, names) ← options "p" "" args
  if !os.isEmpty || names.isEmpty then
    let vars := (sortedVariables (← get)).filter fun (_, v) => isMarked v
    return { output := listing (name ++ [' ']) vars }
  forEach names fun t => do
    let s ← get
    if '=' ∈ t then
      let name ← checkedName t
      assign name (t.drop (name.length + 1))
      mark name f
    else if (s.vars.lookup t).isSome then mark t f
    else
      let name ← checkedName t
      mark name f
  done 0

def exportVariables : Proc Result :=
  markVariables "export" (·.exported) (fun v => { v with exported := true }) args

def freezeVariables : Proc Result :=
  markVariables "readonly" (·.readOnly) (fun v => { v with readOnly := true }) args

def localVariables : Proc Result := do
  if (← get).scopes.isEmpty then fail "not in a function"
  forEach args fun t => if t = (['-'] : Raw) then makeOptionsLocal else makeLocal t false
  done 0

def unset : Proc Result := do
  let (os, names) ← options "vf" "" args
  let functions := (os.getLast?.map Prod.fst) == some 'f'
  forEach names fun name =>
    if functions then modify fun s => { s with functions := s.functions.filter (·.1 ≠ name) }
    else unsetVariable name
  done 0

/-! ## Options -/

def optionTable : List (String × Char) :=
  [("errexit", 'e'), ("noglob", 'f'), ("ignoreeof", 'I'), ("interactive", 'i'), ("monitor", 'm'),
    ("noexec", 'n'), ("stdin", 's'), ("xtrace", 'x'), ("verbose", 'v'), ("vi", 'V'), ("emacs", 'E'),
    ("noclobber", 'C'), ("allexport", 'a'), ("notify", 'b'), ("nounset", 'u'), ("privileged", 'p'),
    ("nolog", '\x01'), ("debug", '\x02')]

def setOption (s : State) (letter : Char) (on : Bool) : State :=
  let others := s.options.filter (· ≠ letter)
  if !on then { s with options := others }
  else
    let others :=
      if letter = 'V' then others.filter (· ≠ 'E')
      else if letter = 'E' then others.filter (· ≠ 'V')
      else others
    { s with options := letter :: others }

structure OptionMode where
  atStart : Bool

structure OptionsRead where
  rest : List Raw
  clears : Bool := false
  asText : Bool := false

def optionLines (s : State) (forReader : Bool) : Raw :=
  let lines := optionTable.flatMap fun (name, letter) =>
    let on := s.has letter
    if forReader then
      name.toList ++ List.replicate (16 - name.length) ' '
        ++ (if on then ("on" : Raw) else "off") ++ ['\n']
    else "set " ++ [if on then '-' else '+'] ++ "o " ++ name.toList ++ ['\n']
  if forReader then "Current option settings\n" ++ lines else lines

def setLetter (mode : OptionMode) (on : Bool) (r : OptionsRead) (c : Char) : Proc OptionsRead := do
  if c = 'c' && mode.atStart then return { r with asText := true }
  else if c = 'l' && mode.atStart then return r
  else if c = 'o' then
    match r.rest with
    | [] =>
      let _ ← write 1 (optionLines (← get) on)
      return r
    | name :: rest =>
      match optionTable.lookup (String.ofList name) with
      | some letter =>
        modify (setOption · letter on)
        return { r with rest }
      | none => fail ("Illegal option -o " ++ name)
  else if ' ' < c && optionTable.any (·.2 = c) then
    modify (setOption · c on)
    return r
  else fail ("Illegal option -" ++ [c])

def setOptionsUpTo (mode : OptionMode) : (fuel : Nat) → List Raw → Proc OptionsRead
  | 0, args => return { rest := args }
  | fuel + 1, args =>
    match args with
    | ['-'] :: rest => do
      if !mode.atStart then modify fun s => setOption (setOption s 'x' false) 'v' false
      return { rest }
    | ['-', '-'] :: rest => return { rest, clears := !mode.atStart }
    | (sign :: cs) :: rest =>
      if sign = '-' || sign = '+' then do
        let r ← cs.foldlM (setLetter mode (sign = '-')) { rest }
        let more ← setOptionsUpTo mode fuel r.rest
        return { more with asText := r.asText || more.asText }
      else return { rest := args }
    | args => return { rest := args }

def setOptions (mode : OptionMode) (args : List Raw) : Proc OptionsRead :=
  setOptionsUpTo mode (args.length + 1) args

def refuseMonitor : Proc Unit := do
  if (← get).has 'm' then
    modify (setOption · 'm' false)
    complain "can't access tty; job control turned off"

def setArguments : Proc Unit := modify fun s => { s with args, cursor := {} }

def set : Proc Result := do
  if args.isEmpty then
    let vars := (sortedVariables (← get)).filter fun (_, v) => v.value.isSome
    return { output := listing [] vars }
  let r ← setOptions { atStart := false } args
  refuseMonitor
  if r.clears || !r.rest.isEmpty then setArguments r.rest
  done 0

def shift (args : List Raw) : Proc Result := do
  let n ← match args with
    | [] => pure 1
    | t :: _ => number t
  let s ← get
  if s.args.length < n then fail "can't shift that many"
  setArguments (s.args.drop n)
  done 0

/-! ## Reading options -/

structure NextOption where
  letter : Char := '?'
  value : Option Raw := none
  complaint : Option Raw := none
  isEnd : Bool := false
  cursor : OptionCursor

def knownOption? (letter : Char) : (spec : Raw) → Option Bool
  | [] => none
  | c :: rest =>
    let valued := rest.head? == some ':'
    if c = letter then some valued
    else
      match rest with
      | ':' :: rest => knownOption? letter rest
      | rest => knownOption? letter rest

def optionText (cursor : OptionCursor) : Option (Raw × Nat) :=
  let inside : Raw :=
    if cursor.index ≤ 1 then []
    else
      match cursor.offset, args[cursor.index - 2]? with
      | some offset, some arg => arg.drop offset
      | _, _ => []
  if !inside.isEmpty then some (inside, cursor.index)
  else
    match args[cursor.index - 1]? with
    | some ('-' :: c :: cs) => some (c :: cs, cursor.index + 1)
    | _ => none

def nextOption (spec : Raw) (args : List Raw) (cursor : OptionCursor) : NextOption :=
  match optionText args cursor with
  | none => { isEnd := true, cursor := { index := cursor.index } }
  | some (['-'], index) =>
    if args[index - 2]? = some ['-', '-'] && cursor.index ≠ index then
      { isEnd := true, cursor := { index } }
    else find ['-'] index
  | some (text, index) => find text index
where
  find (text : Raw) (index : Nat) : NextOption :=
    let silent := spec.head? == some ':'
    let letter := text.headD '?'
    let rest := text.drop 1
    let length := ((args[index - 2]?).getD []).length
    let here : OptionCursor := { index, offset := some (length - rest.length) }
    match knownOption? letter spec with
    | none =>
      if silent then { value := some [letter], cursor := here }
      else { complaint := some ("Illegal option -" ++ [letter]), cursor := here }
    | some false => { letter, value := some [], cursor := here }
    | some true =>
      if !rest.isEmpty then { letter, value := some rest, cursor := { index } }
      else
        match args[index - 1]? with
        | some value => { letter, value := some value, cursor := { index := index + 1 } }
        | none =>
          if silent then { letter := ':', value := some [letter], cursor := { index } }
          else
            { complaint := some ("No arg for -" ++ [letter] ++ " option")
              cursor := { index } }

def getopts (args : List Raw) : Proc Result := do
  match args with
  | spec :: var :: given =>
    let s ← get
    let args := if given.isEmpty then s.args else given
    let cursor := if args.length + 1 < s.cursor.index then {} else s.cursor
    let o := nextOption spec args cursor
    if let some t := o.complaint then writeError (t ++ ['\n'])
    if !o.isEnd then
      match o.value with
      | some v => assign "OPTARG" v
      | none => unsetVariable "OPTARG"
    refuseReadOnly "OPTIND"
    assign "OPTIND" (Text.ofNat o.cursor.index)
    setVariable var [o.letter]
    modify fun s => { s with cursor := o.cursor }
    done (if o.isEnd then 1 else 0)
  | _ => fail "Usage: getopts optstring var [arg...]"

/-! ## Reading lines -/

structure LineState where
  expansion : Expansion := {}
  start : Nat := 0
  escaping : Bool := false

def LineState.step (raw : Bool) (s : LineState) (c : Char) : LineState × Bool :=
  let e := s.expansion
  if c = '\x00' then (s, false)
  else if s.escaping then
    let e := e.addRegion s.start false
    let e := if c = '\n' then e else e.add [c] true
    ({ expansion := e, start := e.items.size }, false)
  else if !raw && c = '\\' then ({ s with escaping := true }, false)
  else if c = '\n' then (s, true)
  else ({ s with expansion := e.add [c] false }, false)

def LineState.steps (raw : Bool) (s : LineState) : Raw → LineState × Bool
  | [] => (s, false)
  | c :: t =>
    match s.step raw c with
    | (s, true) => (s, true)
    | (s, false) => steps raw s t

def read : Proc Result := do
  let (os, names) ← options "r" "p" args
  if names.isEmpty then fail "arg count"
  let raw := os.any (·.1 = 'r')
  let (line, complete) ← iterate ({} : LineState) fun s => do
    match ← readLine 0 with
    | .error _ | .ok [] => return .inr (s, false)
    | .ok t =>
      match s.steps raw t with
      | (s, true) => return .inr (s, true)
      | (s, false) => return .inl s
  let e := line.expansion.addRegion line.start false
  let fields := (e.fields (← get).separators? (some names.length)).map Expansion.text
  forEach (names.zipIdx) fun (name, i) => setVariable name (fields[i]?.getD [])
  done (if complete then 0 else 1)

end PatchTriage.Shell.Builtins
