import PatchTriage.Text.Printable
import PatchTriage.World.Path

/-!
# Problems

Everything that can go wrong, by cause. A `Failure` is a chain of problems, each of which explains
the one after it; the wording of all of them is in `Problem.message`.
-/

namespace PatchTriage

open Text

inductive IoError where
  | notFound | permissionDenied | alreadyExists | notADirectory | isADirectory | directoryNotEmpty
  | invalidInput | invalidData | invalidFilename | storageFull | fileTooLarge | filesystemLoop
  | notPermitted | noSuchDevice | tooManyOpenFiles | uncategorized
  deriving DecidableEq

def IoError.name : IoError → Text
  | notFound => "NotFound"
  | permissionDenied => "PermissionDenied"
  | alreadyExists => "AlreadyExists"
  | notADirectory => "NotADirectory"
  | isADirectory => "IsADirectory"
  | directoryNotEmpty => "DirectoryNotEmpty"
  | invalidInput => "InvalidInput"
  | invalidData => "InvalidData"
  | invalidFilename => "InvalidFilename"
  | storageFull => "StorageFull"
  | fileTooLarge => "FileTooLarge"
  | filesystemLoop => "FilesystemLoop"
  | notPermitted => "PermissionDenied"
  | noSuchDevice | tooManyOpenFiles => "Uncategorized"
  | uncategorized => "Uncategorized"

inductive Problem where
  -- The host.
  | io (kind : IoError)
  | spawn (commandLine : Text)
  | create (path : Path)
  | read (path : Path)
  | readDir (path : Path)
  | write (path : Path)
  | inspect (path : Path)
  | chmod (path : Path)
  | copy (source target : Path)
  | resolvePath (path : Path)
  -- Settings.
  | json
  | readSettings (path : Path)
  | emptySettings (path : Path)
  | parseSettings (path : Path)
  | readMetadata (path : Path)
  | parseMetadata
  | noKeyValue (line : Nat) (text : Text)
  | unknownKey (line : Nat) (key : Text)
  | invalidPatchMode (value : Text)
  | invalidExecMode (value : Text)
  | notBoolean (key value : Text)
  | notNumber (key value : Text)
  | parseTestIds (value : Text)
  | testIdKind (value : Text)
  | missingFile (key : Text) (path : Path)
  | missingDir (key : Text) (path : Path)
  | patchDirMissing (path : Path)
  | patchFileMissing (path : Path)
  | noPatchLocation
  | noTestIds
  | nothingToRun
  | debuggerLacksTests
  | editorLacksTests
  | compilerLacksSource
  | compilerLacksTests
  | createOutputDir (path : Path)
  -- Patches.
  | locationMissing (path : Path)
  | patchFileRequired
  | readPatch (path : Path)
  | noChangedLines (path : Path)
  | onlyRecompilation (path : Path) (sourceFile : Text)
  | configureSource (patchId : Text)
  | noSourceConfigured (patchId : Text)
  | notForDebugger (patchId : Text)
  | notForEditor (patchId : Text)
  -- Commands.
  | parseCommand (template : Text)
  | unclosedQuote
  | emptyTemplate
  | noOracle
  | noSourceDir
  | noBinary
  | runInfoLine
  | runEditor
  | runBuild
  | runInstrumenter
  | instrumenterFailed (binary : Path) (excerpt : Text)
  -- A test that reports a cause of its own.
  | reported (message : Text)
  deriving DecidableEq

namespace Problem

def message : Problem → Text
  | io kind => "<io error " ++ kind.name ++ ['>']
  | spawn commandLine => "spawn " ++ commandLine
  | create path => "create " ++ path
  | read path => "read " ++ path
  | readDir path => "read dir " ++ path
  | write path => "write " ++ path
  | inspect path => "inspect " ++ path
  | chmod path => "chmod " ++ path
  | copy source target => "copy " ++ source ++ " to " ++ target
  | resolvePath path => "resolve " ++ path
  | json => "<json error>"
  | readSettings path => "read config " ++ path
  | emptySettings path => "config file " ++ path ++ " is empty"
  | parseSettings path => "parse config " ++ path
  | readMetadata path => "read metadata " ++ path
  | parseMetadata => "parse metadata JSON"
  | noKeyValue line text =>
    "config line " ++ ofNat line ++ ": expected key:value, got " ++ quoted text
  | unknownKey line key => "config line " ++ ofNat line ++ ": unknown key " ++ quoted key
  | invalidPatchMode value =>
    "invalid patch_mode " ++ quoted value ++ " (expected rewrite, compile, or gdb)"
  | invalidExecMode value =>
    "invalid exec_mode " ++ quoted value
      ++ " (expected sequential, semi-parallel, parallel, or 0-2)"
  | notBoolean key value => key ++ " must be a boolean (got " ++ quoted value ++ [')']
  | notNumber key value => key ++ " must be a non-negative integer (got " ++ quoted value ++ [')']
  | parseTestIds value => "parse test_id_list " ++ quoted value
  | testIdKind value => "test ids must be strings or numbers (got " ++ value ++ [')']
  | missingFile key path => key ++ ' ' :: path ++ " does not exist"
  | missingDir key path => key ++ ' ' :: path ++ " is not a directory"
  | patchDirMissing path => "patch_dir " ++ path ++ " does not exist"
  | patchFileMissing path => "patch_file " ++ path ++ " does not exist"
  | noPatchLocation => "patch_dir or patch_file is required"
  | noTestIds => "test_id_list is missing or empty"
  | nothingToRun => "binary/test_oracle is missing (or configure test_suite/pub_test_script)"
  | debuggerLacksTests => "patch_mode gdb needs binary and test_oracle, or test_suite"
  | editorLacksTests => "patch_mode rewrite needs binary and test_oracle"
  | compilerLacksSource => "patch_mode compile needs source_dir"
  | compilerLacksTests => "patch_mode compile needs test_oracle or test_suite"
  | createOutputDir path => "create output dir " ++ path
  | locationMissing path => "patch location " ++ path ++ " does not exist"
  | patchFileRequired => "--patch-file is required"
  | readPatch path => "read patch " ++ path
  | noChangedLines path => "patch " ++ path ++ " has no changed lines"
  | onlyRecompilation path sourceFile =>
    "patch " ++ path ++ " changes " ++ sourceFile ++ " in a way only recompilation can validate"
  | configureSource patchId =>
    "patch " ++ patchId ++ " requires recompilation; configure source_dir to validate it"
  | noSourceConfigured patchId =>
    "patch " ++ patchId ++ " requires recompilation but no source_dir is configured"
  | notForDebugger patchId =>
    "patch " ++ patchId ++ " requires recompilation and cannot run under the debugger"
  | notForEditor patchId => "patch " ++ patchId ++ " requires recompilation and cannot be rewritten"
  | parseCommand template => "parse command " ++ quoted template
  | unclosedQuote => "missing closing quote"
  | emptyTemplate => "command template is empty"
  | noOracle => "no test oracle or test suite configured"
  | noSourceDir => "recompilation needs source_dir"
  | noBinary => "patch_mode rewrite needs a binary"
  | runInfoLine => "run gdb info line"
  | runEditor => "run e9tool"
  | runBuild => "run build"
  | runInstrumenter => "run e9afl"
  | instrumenterFailed binary excerpt => "e9afl failed for " ++ binary ++ ": " ++ excerpt
  | reported message => message

end Problem

structure Failure where
  chain : List Problem
  deriving DecidableEq

namespace Failure

def of (p : Problem) : Failure := ⟨[p]⟩

def within (p : Problem) (f : Failure) : Failure := ⟨p :: f.chain⟩

def message (f : Failure) : Text := join ": " (f.chain.map Problem.message)

end Failure

end PatchTriage
