import PatchTriage.Shell.Tools.Copy.Plan

/-!
# The program `cp`

Copies files, and directories with all that is in them. If the target may be overwritten
(`replacement`), a file (`copyContents`), a link, or a directory with what is in it (`copyUpTo`) is
made there.
-/

namespace PatchTriage.Shell.Tools.Copy

open Proc Redirection Shell.Mode

variable (plan : Plan)

structure Progress where
  isTracked : Bool := false
  sources : List Place := []
  targets : List Place := []
  copied : List (Place × Raw) := []
  hasMadeDir : Bool := false
  isDone : Bool := false

abbrev quoted (t : Raw) : Message := Message.name t

def refuse (message : Message) : Proc Bool := do
  complain plan.program message
  return false

def refuseFile (what : String) (file : Raw) (e : IoError) : Proc Bool :=
  refuse plan ((what.toList ++ [' '] : Raw) ++ quoted file ++ ": " ++ systemMessage e)

def asks (program : Raw) (question : Message) : Proc Bool := do
  writeError (program ++ ": " ++ question.render (← locale) ++ "? ")
  match ← readLine 0 with
  | .ok (c :: _) => return c = 'y' || c = 'Y'
  | _ => return false

/-- Does something at a name, whose last link is not followed. -/
def atName {α : Type} (path : Raw) (f : Machine → FileTree.Entry → Except IoError α × Machine) :
    Proc (Except IoError α) :=
  call fun pid m =>
    match m.locate pid false (Raw.toText path) with
    | .error e => (.error e, m)
    | .ok entry => f m entry

def placeAt? (path : Raw) : Proc (Option Place) := do
  return (← atName path fun m entry => (.ok entry.place, m)).toOption

def isSameName (a b : Raw) : Proc Bool := do
  let place ← placeAt? a
  return place.isSome && place = (← placeAt? b)

def isRegular (n : Node) : Bool := n matches .file _ _ | .tool _

def isLink (n : Node) : Bool := n matches .link _

def mayMake (m : Machine) (e : FileTree.Entry) : Except IoError Unit :=
  if (m.tree.node? e.place).isSome then .error .alreadyExists
  else if !m.mayChange e.place.dropLast then .error .permissionDenied
  else .ok ()

def make (target : Raw) (replaces : Bool) (f : Machine → Place → Machine)
    (refusal : IoError → Proc Bool) : Proc Bool := do
  let made : Except IoError Unit ← atName target fun m entry =>
    match mayMake m entry with
    | .ok () => if entry.closed then (.error .notFound, m) else (.ok (), f m entry.place)
    | .error .alreadyExists =>
      if replaces && m.mayRemove entry.place then (.ok (), f (m.remove entry.place) entry.place)
      else (.error (if replaces then .permissionDenied else .alreadyExists), m)
    | .error e => (.error e, m)
  match made with
  | .ok () => return true
  | .error e => refusal e

/-! ## Files that are overwritten -/

def backupNumber? (base name : Raw) : Option Nat :=
  let front := base ++ ['.', '~']
  if !Text.startsWith front name || name.getLast? ≠ some '~' then none
  else
    let digits := (name.drop front.length).dropLast
    if digits.isEmpty || digits.head? = some '0' || !digits.all Char.isDigit then none
    else some (Number.digits 10 digits).1

def backupPath (naming : Naming) (tree : FileTree) (place : Place) (target : Raw) : Raw :=
  let base := Raw.ofText (place.getLastD (Raw.toText []))
  let numbers := (tree.children place.dropLast).filterMap fun (name, _) =>
    backupNumber? base (Raw.ofText name)
  let last := numbers.foldl max 0
  if naming = .numbered || (naming = .existing && 0 < last) then
    target ++ ['.', '~'] ++ Text.ofNat (last + 1) ++ ['~']
  else target ++ plan.suffix

def base (path : Raw) : Raw :=
  ((Text.splitOn '/' (Text.dropEndWhile (· = '/') path)).getLast?).getD []

def moveAway (place : Place) (n : Node) (path : Raw) : Proc (Except IoError Unit) :=
  atName path fun m entry =>
    if !m.mayRemove place then (.error .permissionDenied, m)
    else
      let f := m.factsOf place n
      let m := (m.remove place).remove entry.place
      (.ok (), { m with tree := m.tree.put entry.place n }.setFacts entry.place f)

inductive Replacement where
  | stop (ok : Bool)
  | free (backup : Option Raw)
  | over

variable (source target : Raw)

/-- Whether a file may be copied to one that may be the same; and whether there is nothing to do. -/
def sameFileOk (src dst : Place × Node) : Proc (Bool × Bool) := do
  let m ← machine
  let same := m.isSame src.1 dst.1
  if same && plan.making = .names then return (true, true)
  let sameName ← isSameName source target
  let bothLinks := isLink src.2 && isLink dst.2
  if plan.follow = .never && bothLinks then
    if !sameName && plan.backup.isNone && same then return (true, true)
    return (!sameName, false)
  if plan.follow ≠ .never && !same then return (true, false)
  let (srcLink, dstLink) ← if plan.follow = .never then pure (src, dst)
    else do
      match ← stat source false, ← stat target false with
      | .ok a, .ok b => pure (a, b)
      | _, _ => return (true, false)
  let sameLink := m.isSame srcLink.1 dstLink.1
  if plan.follow ≠ .never && isLink srcLink.2 && isLink dstLink.2 && plan.removesFirst then
    return (true, false)
  if plan.backup.isSome then
    if !sameLink then
      return (!(plan.follow ≠ .never && isLink srcLink.2 && !isLink dstLink.2), false)
    return (!sameName, false)
  if !isLink srcLink.2 && !isLink dstLink.2 then
    if !sameLink then return (true, false)
    if plan.making = .names then return (true, true)
  if plan.making = .symbolicLinks && isLink dstLink.2 then return (true, false)
  if plan.follow = .never then
    match ← stat source, ← stat target with
    | .ok a, .ok b =>
      if !m.isSame a.1 b.1 then return (true, false)
      if plan.making = .names then return (true, !isLink dstLink.2)
    | _, _ => return (true, false)
  return (false, false)

def agreed (target : Raw) (k : Place) (old : Node) : Proc Bool := do
  let m ← machine
  let mode := (m.factsOf k old).mode
  if isLink old || m.allows k old write then asks plan.program ("overwrite " ++ quoted target)
  else if plan.removesFirst || plan.force then
    asks plan.program ("replace " ++ quoted target ++ ", overriding mode "
      ++ digits 4 mode ++ " (" ++ letters mode ++ [')'])
  else
    asks plan.program ("unwritable " ++ quoted target ++ " (mode "
      ++ digits 4 mode ++ ", " ++ letters mode ++ "); try anyway")

def isBackup (place : Place) : Proc Bool := do
  if base source ≠ base target ++ plan.suffix then return false
  match ← stat (target ++ plan.suffix) with
  | .ok (k, _) => return (← machine).isSame k place
  | .error _ => return false

def keepTarget (naming : Naming) (place : Place) (dst : Place × Node) : Proc Replacement := do
  if naming ≠ .numbered && (← isBackup plan source target place) then
    return .stop (← refuse plan ("backing up " ++ quoted target
      ++ " might destroy source;  " ++ quoted source ++ " not copied"))
  let path := backupPath plan naming (← tree) dst.1 target
  match ← moveAway dst.1 dst.2 path with
  | .ok () => return .free (some path)
  | .error e => return .stop (← refuseFile plan "cannot backup" target e)

def removeTarget (target : Raw) (k : Place) : Proc Bool := do
  let isGone ← call fun _ m => if m.mayRemove k then (true, m.remove k) else (false, m)
  if !isGone then refuseFile plan "cannot remove" target .permissionDenied
  else
    if plan.verbose then tell ("removed " ++ quoted target ++ ['\n'])
    return true

def replacement (isOperand : Bool) (src dst : Place × Node) (progress : Progress) :
    Proc Replacement := do
  let m ← machine
  let (mayCopy, isDone) ← if plan.existing = .keep then pure (true, false)
    else sameFileOk plan source target src dst
  if !mayCopy then
    return .stop (← refuse plan (quoted source ++ " and " ++ quoted target ++ " are the same file"))
  let isDir : Bool := src.2 = .dir
  let age (x : Place × Node) : Nat := (m.factsOf x.1 x.2).modified
  if plan.update && !isDir && age src ≤ age dst then return .stop true
  if !isDir && plan.existing = .keep then return .stop true
  if !isDir && plan.existing = .ask then
    if !(← agreed plan target dst.1 dst.2) then return .stop true
  if isDone then return .stop true
  if dst.2 ≠ .dir then
    if isDir then
      return .stop (← refuse plan ("cannot overwrite non-directory " ++ quoted target
        ++ " with directory " ++ quoted source))
    let isNew := (← placeAt? target).any progress.targets.contains
    if isOperand && plan.backup ≠ some .numbered && isNew then
      return .stop (← refuse plan ("will not overwrite just-created " ++ quoted target
        ++ " with " ++ quoted source))
  else if !isDir then
    return .stop (← refuse plan ("cannot overwrite directory " ++ quoted target
      ++ " with non-directory"))
  let isDots := base source = ['.'] || base source = ['.', '.']
  if dst.2 = .dir then return .over
  match plan.backup with
  | some naming => if isDots then return .over else keepTarget plan source target naming src.1 dst
  | none =>
    let severalNames := plan.preserved.links && 1 < (m.names dst.1).length
    let isSpecial := plan.follow = .never && !isRegular src.2
    if plan.removesFirst || (!plan.bare && (severalNames || isSpecial)) then
      let place := (← placeAt? target).getD dst.1
      if ← removeTarget plan target place then return .free none else return .stop false
    else return .over

/-! ## Making files -/

def never {α : Type} : Proc α :=
  iterate () fun _ => do
    spend endlessTime
    return .inl ()

def sourceDescriptor : Nat := 3

def contents (source : Raw) (n : Node) : Proc (Except IoError Node) := do
  match ← openAt sourceDescriptor { read := true } source with
  | .error e => return .error e
  | .ok () =>
    let found ← match n with
      | .file _ _ | .tool _ => pure n
      | .device .null => pure (.file [] false)
      | .device (.descriptor _) => do
        let t ← readAll sourceDescriptor
        pure (.file (Raw.toBytes (t.toOption.getD [])) false)
      | _ => never
    close sourceDescriptor
    return .ok found

def overwrite (m : Machine) (k : Place) (n : Node) : Machine :=
  match n with
  | .file bytes _ => m.setContents k bytes
  | .tool t =>
    let m := m.setContents k []
    if m.allows k (.tool t) enter then { m with tree := m.tree.put k (.tool t) } else m
  | _ => m

def targetDescriptor : Nat := 4

def openTarget (target : Raw) (mode : Nat) (isNew : Bool) : Proc (Except IoError Channel) :=
  call fun pid m =>
    let openMode : OpenMode :=
      if isNew then { write := true, create := true, exclusive := !plan.throughLinks }
      else { write := true, truncate := !plan.bare }
    match m.openPath pid openMode mode (Raw.toText target) with
    | .ok (f, m) => (.ok f.channel, m.addFile pid targetDescriptor f)
    | .error .isADirectory =>
      (.error (if isNew && target.getLast? = some '/' then .notADirectory else .isADirectory), m)
    | .error e => (.error e, m)

def finish (isNew : Bool) (facts : Facts) (k : Place) (default : Nat) : Proc Unit :=
  onMachine fun _ m =>
    let p := plan.preserved
    let m := if p.mode then m.setMode k facts.mode
      else if p.dropsMode && isNew then m.setMode k (without default plan.mask)
      else m
    match p.times, m.tree.node? k with
    | true, some n => m.setFacts k { m.factsOf k n with modified := facts.modified }
    | _, _ => m

def copyContents (src : Place × Node) (isNew : Bool) : Proc Bool := do
  let facts := (← machine).factsOf src.1 src.2
  let newMode := without (facts.mode &&& permissions) plan.mask
  match ← contents source src.2 with
  | .error e => refuse plan ("cannot open " ++ quoted source ++ " for reading: " ++ systemMessage e)
  | .ok n =>
    let fail (e : IoError) : Proc Bool := refuseFile plan "cannot create regular file" target e
    let first ← if isNew then pure (.error .notFound) else openTarget plan target newMode false
    let (opened, isNew) ← match first with
      | .ok k => pure (Except.ok k, false)
      | .error e => do
        if !isNew && e ≠ .notFound then
          if !plan.force then return ← fail e
          if let some place ← placeAt? target then
            if !(← removeTarget plan target place) then return false
        pure (← openTarget plan target newMode true, true)
    match opened with
    | .error .alreadyExists =>
      refuse plan ("not writing through dangling symlink " ++ quoted target)
    | .error e => fail e
    | .ok channel =>
      let written ← match channel, n with
        | .file k, n => do
          if !plan.bare then onMachine fun _ m => overwrite m k n
          finish plan isNew facts k 438
          pure (.ok ())
        | _, .file bytes _ => write targetDescriptor (if plan.bare then [] else Raw.ofBytes bytes)
        | _, _ => pure (.ok ())
      close targetDescriptor
      match written with
      | .ok () => return true
      | .error message => refuse plan ("error writing " ++ quoted target ++ ": " ++ message)

def refuseLink (kind : String) (e : IoError) : Proc Bool :=
  refuse plan (("cannot create " ++ kind ++ " link ").toList ++ quoted target ++ " to "
    ++ quoted source ++ ": " ++ systemMessage e)

def linkTo : Proc Bool := do
  let cwd ← call fun pid m => (m.cwd pid, m)
  let isHere := (← placeAt? target).all (·.dropLast = cwd)
  if source.head? ≠ some '/' && !isHere then
    refuse plan (Message.nameIfNeeded target
      ++ ": can make relative symbolic links only in current directory")
  else
    make target plan.force (fun m k => m.create k (.link (Raw.toText source)) 511)
      (refuseLink plan source target "symbolic")

def nameAs (place : Place) (replaces : Bool) : Proc Bool :=
  make target replaces (fun m k => m.link place k) (refuseLink plan source target "hard")

def makeFile (src : Place × Node) (isNew : Bool) : Proc Bool := do
  let reads := !plan.recursive || plan.contents
  match plan.making, src.2 with
  | .symbolicLinks, _ => linkTo plan source target
  | .names, _ => nameAs plan source target src.1 (plan.force || plan.existing = .ask)
  | .copies, .link text =>
    make target plan.force (fun m k => m.create k (.link text) 511)
      (refuseFile plan "cannot create symbolic link" target)
  | .copies, n =>
    if isRegular n || reads then copyContents plan source target src isNew
    else
      let refusal := refuseFile plan "cannot create special file" target
      -- Only a privileged user makes devices.
      if ← make target false (fun m _ => m) refusal then refusal .notPermitted else return false

/-! ## Directories -/

def makeDir (target : Raw) (mode : Nat) : Proc (Except IoError Place) :=
  atName target fun m entry =>
    match mayMake m entry with
    | .error e => (.error e, m)
    | .ok () => (.ok entry.place, m.create entry.place .dir (without mode plan.mask ||| 448))

def onceMore (isOperand : Bool) (earlier : Raw) : Proc (Option Bool) := do
  if ← isSameName source earlier then
    return some (← refuse plan ("cannot copy a directory, " ++ quoted plan.named.1
      ++ ", into itself, " ++ quoted plan.named.2))
  else if ← isSameName target earlier then
    complain plan.program ("warning: source directory " ++ quoted plan.named.1
      ++ " specified more than once")
    return some true
  else if plan.follow = .always || (isOperand && plan.follow = .operands) then return none
  else
    return some (← refuse plan ("will not create hard link " ++ quoted target
      ++ " to directory " ++ quoted earlier))

def isFreshLink (progress : Progress) (target : Raw) : Proc Bool := do
  match ← stat target false with
  | .ok (k, n) => return isLink n && progress.targets.contains k
  | .error _ => return false

def Progress.note (progress : Progress) (isOperand : Bool) (target : Raw) : Proc Progress := do
  if !isOperand || !progress.isTracked then return progress
  match ← stat target false with
  | .ok (k, _) => return { progress with targets := k :: progress.targets }
  | .error _ => return progress

abbrev Copier :=
  Plan → (source target : Raw) → (isOperand isNew : Bool) → Progress → Proc (Bool × Progress)

variable (isOperand : Bool) (src : Place × Node) (dst : Option (Place × Node)) (progress : Progress)

def copyDir (copy : Copier) : Proc (Bool × Progress) := do
  let isNew := dst.isNone
  let facts := (← machine).factsOf src.1 .dir
  let made ← match dst with
    | some (k, .dir) => pure (.ok k)
    | _ => makeDir plan target facts.mode
  match made with
  | .error e => return (← refuseFile plan "cannot create directory" target e, progress)
  | .ok k =>
    let progress := if isNew && !progress.hasMadeDir then
        { progress with copied := (k, target) :: progress.copied, hasMadeDir := true }
      else progress
    if plan.verbose && isNew then tell (quoted source ++ " -> " ++ quoted target ++ ['\n'])
    let names : Except IoError (List (Text × Node)) ← call fun pid m => (m.list pid src.1, m)
    let (ok, progress) ← match names with
      | .error e => do pure (← refuseFile plan "cannot access" source e, progress)
      | .ok names => do
        let plan' := if plan.follow = .operands then { plan with follow := .never } else plan
        let inside (dir name : Raw) : Raw :=
          if dir.getLast? = some '/' then dir ++ name else dir ++ '/' :: name
        iterate (names, true, progress) fun (names, ok, progress) => do
          match names, progress.isDone with
          | [], _ | _, true => return .inr (ok, progress)
          | (name, _) :: names, false =>
            let name := Raw.ofText name
            let (copied, progress) ← copy plan' (inside source name)
              (inside target name) false isNew progress
            return .inl (names, ok && copied, progress)
    if isNew then onMachine fun _ m => m.setMode k (without facts.mode plan.mask)
    finish plan isNew facts k permissions
    return (ok, ← progress.note isOperand target)

def makeOther : Proc (Bool × Progress) := do
  if ← makeFile plan source target src dst.isNone then
    return (true, ← progress.note isOperand target)
  else return (false, progress)

/-- Copies a file or a directory; `dst` is what is at the target, and `copy` copies what is in a
directory. -/
def copyNode (copy : Copier) (backup : Option Raw) : Proc (Bool × Progress) := do
  let isDir : Bool := src.2 = .dir
  if isOperand && progress.isTracked && plan.backup.isNone && (← isFreshLink progress target) then
    return (← refuse plan ("will not copy " ++ quoted source
      ++ " through just-created symlink " ++ quoted target), progress)
  if plan.verbose && !isDir then
    let note : Message := match backup with
      | some path => " (backup: " ++ quoted path ++ [')']
      | none => Message.plain []
    tell (quoted source ++ " -> " ++ quoted target ++ note ++ ['\n'])
  let makes (progress : Progress) : Proc (Bool × Progress) :=
    if isDir then copyDir plan source target isOperand src dst progress copy
    else makeOther plan source target isOperand src dst progress
  let names := (← machine).names src.1
  match progress.copied.find? fun (k, _) => names.contains k with
  | none =>
    let remembers := if isDir then isOperand else plan.preserved.links && 1 < names.length
    makes (if remembers then { progress with copied := (src.1, target) :: progress.copied }
      else progress)
  | some (_, path) =>
    if isDir then
      match ← onceMore plan source target isOperand path with
      | some ok => return (ok, { progress with isDone := !ok && (← isSameName source path) })
      | none => makes progress
    else if !plan.preserved.links then makes progress
    else
      match ← stat path false with
      | .ok (k, _) => return (← nameAs plan path target k true, progress)
      | .error _ => makes progress

def copyUpTo : (fuel : Nat) → Copier
  | 0 => fun _ _ _ _ _ progress => return (false, progress)
  | fuel + 1 => fun plan source target isOperand isNew progress => do
    let follows := plan.follow = .always || (plan.follow = .operands && isOperand)
    match ← stat source follows with
    | .error e => return (← refuseFile plan "cannot stat" source e, progress)
    | .ok src =>
      let n := src.2
      if n = .dir && !plan.recursive then
        return (← refuse plan ("-r not specified; omitting directory " ++ quoted source), progress)
      let place ← placeAt? source
      let isTracked := isOperand && progress.isTracked
      let isKnown := place.any progress.sources.contains
      if isTracked && n ≠ .dir && plan.backup.isNone && isKnown then
        complain plan.program ("warning: source file " ++ quoted source
          ++ " specified more than once")
        return (true, progress)
      let progress :=
        if isTracked then { progress with sources := place.toList ++ progress.sources } else progress
      let reads := !plan.recursive || plan.contents
      let looksAtLink := (!isRegular n && (!reads || n = .dir || isLink n))
        || plan.making ≠ .copies || plan.backup.isSome || plan.removesFirst
      let found ← if isNew then pure (.error .notFound) else stat target (!looksAtLink)
      let copies (dst : Option (Place × Node)) : Option Raw → Proc (Bool × Progress) :=
        copyNode plan source target isOperand src dst progress (copyUpTo fuel)
      match found with
      | .error .notFound => copies none none
      | .error e => return (← refuseFile plan "cannot stat" target e, progress)
      | .ok dst =>
        match ← replacement plan source target isOperand src dst progress with
        | .stop ok => return (ok, progress)
        | .free backup => copies none backup
        | .over => copies (some dst) none

def maxDepth : Nat := 4096

/-! ## Operands -/

def targetIn (dir source : Raw) : Raw :=
  let last := base source
  if last = ['.', '.'] then dir
  else
    let front := Text.dropEndWhile (· = '/') dir
    if front.isEmpty && !dir.isEmpty then '/' :: last else front ++ '/' :: last

def below (dir path : Raw) : Raw :=
  let front := Text.dropEndWhile (· = '/') dir
  if path.head? = some '/' then front ++ path else front ++ '/' :: path

def above (path : Raw) : List Raw :=
  let ends := (List.range path.length).filter fun i =>
    0 < i && path[i]? == some '/' && path[i - 1]? != some '/'
  ends.map fun i => path.take i

def dirAt (path : Raw) : Proc (Except IoError Place) := do
  match ← stat path with
  | .ok (k, .dir) => return .ok k
  | .ok _ => return .error .notADirectory
  | .error e => return .error e

def makeParents (dir file : Raw) : Proc Bool :=
  iterate (above file) fun paths => do
    let fail (message : Message) : Proc (List Raw ⊕ Bool) := do
      complain plan.program message
      return .inr false
    match paths with
    | [] => return .inr true
    | path :: paths =>
      let target := below dir path
      match ← stat target with
      | .ok (_, .dir) => return .inl paths
      | .ok _ => fail (quoted target ++ " exists but is not a directory")
      | .error _ =>
        match ← dirAt path with
        | .error e =>
          fail ("failed to get attributes of " ++ quoted path ++ ": " ++ systemMessage e)
        | .ok k =>
          match ← makeDir plan target ((← machine).factsOf k .dir).mode with
          | .error e => fail ("cannot make directory " ++ quoted target ++ ": " ++ systemMessage e)
          | .ok _ =>
            if plan.verbose then tell (path ++ " -> " ++ target ++ ['\n'])
            return .inl paths

def copyInto (dir : Raw) (files : List Raw) : Proc Unit := do
  let start : Progress := { isTracked := 1 < files.length }
  let ok ← iterate (files, true, start) fun (files, ok, progress) => do
    match files with
    | [] => return .inr ok
    | file :: files =>
      let bare := Text.dropEndWhile (· = '/') file
      let target := if plan.parents then below dir bare else targetIn dir file
      let isReady ← if plan.parents then makeParents plan dir bare else pure true
      if !isReady then return .inl (files, false, progress)
      let (copied, progress) ← copyUpTo maxDepth { plan with named := (file, target) } file target
        true false { progress with hasMadeDir := false, isDone := false }
      return .inl (files, ok && copied, progress)
  setStatus (if ok then 0 else 1)

def giveUp (program : Raw) (message : Message) : Proc Unit := do
  complain program message
  setStatus 1

/-- Where a file is copied to. One that is copied to itself goes to the name under which it is kept.
-/
def ofItself : Proc (Plan × Raw) := do
  match plan.force, plan.backup, ← stat target with
  | true, some naming, .ok (place, n) =>
    if source = target && isRegular n then
      return ({ plan with backup := none }, backupPath plan naming (← tree) place target)
    return (plan, target)
  | _, _, _ => return (plan, target)

def copyOne (isNew : Bool) : Proc Unit := do
  let (plan, target) ← ofItself plan source target
  let (ok, _) ← copyUpTo maxDepth
    { plan with named := (source, target) } source target true isNew {}
  setStatus (if ok then 0 else 1)

def copyOperands (a : Arguments) : Proc Unit := do
  let program := plan.program
  let bare (files : List Raw) : List Raw :=
    if a.has '\x10' then files.map (Text.dropEndWhile (· = '/')) else files
  match a.last? 't', a.has 'T', a.operands with
  | _, _, [] => misuse program "missing file operand"
  | some _, true, _ =>
    giveUp program "cannot combine --target-directory (-t) and --no-target-directory (-T)"
  | some dir, false, files =>
    match ← dirAt dir with
    | .ok _ => copyInto plan dir (bare files)
    | .error e => giveUp program ("target directory " ++ quoted dir ++ ": " ++ systemMessage e)
  | none, _, [first] => misuse program ("missing destination file operand after " ++ quoted first)
  | none, true, first :: target :: rest =>
    match rest with
    | extra :: _ => misuse program ("extra operand " ++ quoted extra)
    | [] =>
      if plan.parents then misuse program "with --parents, the destination must be a directory"
      else copyOne plan first target false
  | none, false, first :: rest =>
    let target := rest.getLastD []
    match ← dirAt target with
    | .ok _ => copyInto plan target (bare a.operands.dropLast)
    | .error e =>
      if 1 < rest.length then giveUp program ("target " ++ quoted target ++ ": " ++ systemMessage e)
      else if plan.parents then misuse program "with --parents, the destination must be a directory"
      else copyOne plan first target (e = .notFound)

def run (program : Raw) (args : List Raw) : Proc Unit := do
  let a ← Arguments.ofProcess specs args
  forEach (a.options.filter fun (c, t) => c = '\x12' && !t.isEmpty) fun _ =>
    complain program "warning: ignoring --context; it requires an SELinux-enabled kernel"
  let s ← get
  let dirs := a.options.filter fun (c, _) => c = 't'
  match a.problem, dirs with
  | _, _ :: _ :: _ => giveUp program "multiple target directories specified"
  | some e, _ => misuse program e
  | none, _ =>
    if a.asksAbout then setStatus 0
    else
      match Plan.ofArguments program s.value? s.mask a with
      | .error e => misuse program e
      | .ok plan => copyOperands plan a

end PatchTriage.Shell.Tools.Copy
