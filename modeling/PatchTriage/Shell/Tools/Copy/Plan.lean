import PatchTriage.Shell.Tools.Options

/-!
# How files are copied

The options of `cp`, and the plan that they make: what is copied, which links are followed, what
becomes of files that are there, and what is kept of a file besides its contents.
-/

namespace PatchTriage.Shell.Tools.Copy

def kept (subject : String) : Choices :=
  { subject, several := true
    groups :=
      [["mode"], ["timestamps"], ["ownership"], ["links"], ["context"], ["xattr"], ["all"]] }

def backups (subject : String) : Choices :=
  ⟨subject, [["none", "off"], ["simple", "never"], ["existing", "nil"], ["numbered", "t"]], false⟩

def specs : List OptionSpec :=
  readSpecs "a:archive \x01:attributes-only \x02?backup \x03:copy-contents L:dereference f:force
    i:interactive l:link n:no-clobber P:no-dereference"
    ++ [⟨'\x06', ["no-preserve"], .argument (some (kept "--no-preserve"))⟩]
    ++ readSpecs "T:no-target-directory x:one-file-system \x07:parents:path"
    ++ [⟨'\x05', ["preserve"], .optional (some (kept "--preserve"))⟩]
    ++ readSpecs "R:recursive \x0e:remove-destination"
    ++ [⟨'\x0f', ["sparse"],
      .argument (some ⟨"--sparse", [["never"], ["auto"], ["always"]], false⟩)⟩]
    ++ readSpecs "\x10:strip-trailing-slashes"
    ++ [⟨'\x08', ["reflink"],
      .optional (some ⟨"--reflink", [["auto"], ["always"], ["never"]], false⟩)⟩]
    ++ readSpecs "S=suffix s:symbolic-link t=target-directory u:update v:verbose \x12?context b d H
    p r Z" ++ Arguments.common

inductive Existing where
  | overwrite
  | keep
  | ask
  deriving DecidableEq

inductive Naming where
  | simple
  | numbered
  | existing
  deriving DecidableEq

inductive Follow where
  | never
  | operands
  | always
  deriving DecidableEq

inductive Making where
  | copies
  | names
  | symbolicLinks
  deriving DecidableEq

structure Preserved where
  mode : Bool := false
  dropsMode : Bool := false
  times : Bool := false
  links : Bool := false

structure Plan where
  program : Raw
  recursive : Bool
  verbose : Bool
  existing : Existing
  update : Bool := false
  follow : Follow
  making : Making := .copies
  preserved : Preserved
  bare : Bool := false
  contents : Bool := false
  removesFirst : Bool := false
  force : Bool := false
  backup : Option Naming := none
  suffix : Raw := ['~']
  parents : Bool := false
  throughLinks : Bool := false
  mask : Nat := 18
  named : Raw × Raw := ([], [])

def Preserved.option (p : Preserved) (o : Char × Raw) : Preserved :=
  match o with
  | ('a', _) => { mode := true, times := true, links := true }
  | ('d', _) => { p with links := true }
  | ('p', _) => { p with mode := true, dropsMode := false, times := true }
  | ('\x05', t) =>
    if t.isEmpty then { p with mode := true, dropsMode := false, times := true }
    else (Text.splitOn ',' t).foldl (set · true ·) p
  | ('\x06', t) => (Text.splitOn ',' t).foldl (set · false ·) p
  | _ => p
where
  set (p : Preserved) (on : Bool) (word : Raw) : Preserved :=
    match String.ofList word with
    | "mode" => { p with mode := on, dropsMode := !on }
    | "timestamps" => { p with times := on }
    | "links" => { p with links := on }
    | "all" => { mode := on, dropsMode := !on, times := on, links := on }
    | _ => p

def Follow.ofArguments (a : Arguments) : Follow :=
  let said := a.options.foldl (fun f (c, _) =>
    match c with
    | 'a' | 'd' | 'P' => some .never
    | 'H' => some .operands
    | 'L' => some .always
    | _ => f) (none : Option Follow)
  let recursive := a.has 'r' || a.has 'R' || a.has 'a'
  said.getD (if recursive && !a.has 'l' then .never else .always)

def Naming.ofArguments (setting : Option Raw) (a : Arguments) : Except Message (Option Naming) := do
  if !(a.has 'b' || a.has '\x02' || a.has 'S') then return none
  let given := ((a.last? '\x02').getD [])
  let chosen ← match given, setting.getD [] with
    | [], [] => pure ("existing" : Raw)
    | [], t => (backups "$VERSION_CONTROL").choose t
    | t, _ => (backups "backup type").choose t
  match String.ofList chosen with
  | "none" => return none
  | "simple" => return some .simple
  | "numbered" => return some .numbered
  | _ => return some .existing

def Plan.ofArguments (program : Raw) (value? : Raw → Option Raw) (mask : Nat)
    (a : Arguments) : Except Message Plan := do
  let existing := a.options.foldl (fun e (c, _) =>
    match c with
    | 'i' => .ask
    | 'n' => .keep
    | _ => e) Existing.overwrite
  if a.has 'l' && a.has 's' then throw (Message.plain "cannot make both hard and symbolic links")
  if existing = .keep && (a.has 'b' || a.has '\x02' || a.has 'S') then
    throw (Message.plain "options --backup and --no-clobber are mutually exclusive")
  let sparse := (a.last? '\x0f').getD "auto"
  let reflink := (a.last? '\x08').map fun t => t.isEmpty || t = ("always" : Raw)
  if reflink = some true && sparse ≠ "auto".toList then
    throw (Message.plain "--reflink can be used only with --sparse=auto")
  let isSuffix (t : Raw) : Bool := !t.isEmpty && '/' ∉ t
  let suffix := ((a.last? 'S').orElse fun _ => value? "SIMPLE_BACKUP_SUFFIX").filter isSuffix
  return {
    program, recursive := a.has 'r' || a.has 'R' || a.has 'a', verbose := a.has 'v', existing
    update := a.has 'u' && existing ≠ .keep, follow := Follow.ofArguments a
    making := if a.has 'l' then .names else if a.has 's' then .symbolicLinks else .copies
    preserved := a.options.foldl Preserved.option {}, bare := a.has '\x01', contents := a.has '\x03'
    removesFirst := a.has '\x0e', force := a.has 'f'
    backup := ← Naming.ofArguments (value? "VERSION_CONTROL") a, suffix := suffix.getD ['~']
    parents := a.has '\x07', throughLinks := (value? Arguments.strictVariable).isSome, mask }

end PatchTriage.Shell.Tools.Copy
