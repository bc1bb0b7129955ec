import PatchTriage.Backend.Debugger
import PatchTriage.Proofs.Endings

/-!
# Work on files

Much of what is done for a patch only looks at files and changes them. None of it runs a command or
has to do with the course of the validation.
-/

namespace PatchTriage

open Verdicts

def Op.isOnFiles : Op → Bool
  | .isFile _ | .read _ | .write _ _ | .append _ _ | .createNew _ _ | .setExecutable _
    | .removeFile _
  | .createDirs _ => true
  | _ => false

namespace Job

variable {α : Type} {P : Op → Prop} {work : Job α}

theorem Uses.ite {c : Prop} [Decidable c] {work' : Job α} (h : Uses P work) (h' : Uses P work') :
    Uses P (if c then work else work') := by
  split
  · exact h
  · exact h'

theorem ends_writeText {p : Path} {t : Text} {h : History} {u : Unit}
    (he : Ends (writeText p t) h u) :
    h = [⟨.write p (Utf8.encode t), .ok ()⟩] := by
  obtain ⟨r, h₁, h₂, rfl, hr, hok⟩ := ends_bind.1 (ends_explain.1 he)
  obtain rfl := ends_op.1 hr
  obtain ⟨rfl, rfl⟩ := ends_reply.1 hok
  rfl

/-- Whatever the answers are, the work asks for operations on files only. -/
abbrev OnFiles (work : Job α) : Prop := Uses (fun o => o.isOnFiles = true) work

section Operations

variable {p : Path}

theorem onFiles_op {o : Op} (h : o.isOnFiles = true) : OnFiles (op o) := uses_op.2 h

theorem onFiles_isFile : OnFiles (isFile p) := uses_isFile rfl

theorem onFiles_writeText (t : Text) : OnFiles (writeText p t) := uses_writeText rfl

theorem onFiles_ensureDir : OnFiles (ensureDir p) := uses_ensureDir rfl

theorem onFiles_removeStale : OnFiles (removeStale p) := uses_removeStale rfl

end Operations

end Job

open Job

theorem FailureLog.onFiles_record {l : Layout} {patchId context : Text} {o : Output} :
    OnFiles (record l patchId context o) :=
  uses_record (fun _ _ => rfl) fun _ => rfl

namespace Dump

variable {P : Op → Prop} (hfile : ∀ p, P (.isFile p)) (hread : ∀ p, P (.read p))

include hread

theorem uses_read (p : Path) : Uses P (read p) := .explain _ (Job.uses_read (hread p))

theorem uses_digest (p : Path) : Uses P (digest p) := (uses_read hread p).bind fun _ => uses_pure _

include hfile

theorem uses_signature (before after : Path) : Uses P (signature before after) :=
  (uses_isFile (hfile before)).bind fun _ => .ite (uses_pure _) <|
    (uses_isFile (hfile after)).bind fun _ => .ite (uses_pure _) <|
      (uses_read hread before).bind fun _ => (uses_read hread after).bind fun _ =>
        (uses_checked _).bind fun _ => uses_pure _

theorem uses_sameState (left right : Path) : Uses P (sameState left right) :=
  (uses_isFile (hfile left)).bind fun _ => .ite (uses_pure _) <|
    (uses_isFile (hfile right)).bind fun _ => .ite (uses_pure _) <|
      (uses_read hread left).bind fun _ => (uses_read hread right).bind fun _ =>
        (uses_checked _).bind fun _ => uses_pure _

end Dump

namespace Verdicts

variable {c : Verdicts} {partition test signature : Text}

theorem onFiles_createMarker (p : Path) (contents : Text) : OnFiles (createMarker p contents) := by
  refine (onFiles_op rfl).bind fun made => ?_
  split
  · exact uses_pure _
  · exact uses_pure _
  · exact uses_fail _

theorem onFiles_markLoop (reason : Text) : OnFiles (c.markLoop partition test reason) :=
  onFiles_ensureDir.bind fun _ => (onFiles_createMarker _ _).bind fun _ => uses_pure _

theorem onFiles_lookup : OnFiles (c.lookup partition test signature) :=
  onFiles_isFile.bind fun _ => onFiles_isFile.bind fun _ => uses_pure _

theorem onFiles_record (v : Verdict) (digest : Text) :
    OnFiles (c.record partition test signature v digest) :=
  onFiles_ensureDir.bind fun _ => onFiles_isFile.bind fun _ => .ite (uses_pure _) <|
    (onFiles_createMarker _ _).bind fun _ => .ite (uses_pure _) <|
      onFiles_isFile.bind fun _ => .ite (uses_pure _) (uses_pure _)

end Verdicts

namespace Oracle

variable {s : Setup} {patchId test : Text}

theorem onFiles_settle {passed : Bool} {o : Output} : OnFiles (settle s patchId test passed o) :=
  .ite (uses_pure _) (FailureLog.onFiles_record.bind fun _ => uses_pure _)

theorem uses_writeWrapper {P : Op → Prop} {p : Path} {commandLine : Text}
    (hwrite : ∀ bytes, P (.write p bytes)) (hmode : P (.setExecutable p)) :
    Uses P (writeWrapper p commandLine) :=
  (uses_writeText (hwrite _)).bind fun _ => .explain _ ((uses_op.2 hmode).bind uses_reply)

end Oracle

namespace UnderDebugger

variable {s : Setup} {test : Text}

theorem onFiles_write (stem text : Text) : OnFiles (ScriptSet.write s stem text) := by
  refine onFiles_ensureDir.bind fun _ => (onFiles_writeText _).bind fun _ => ?_
  split
  · exact uses_pure _
  · exact Uses.bind (Oracle.uses_writeWrapper (fun _ => rfl) rfl) fun _ => uses_pure _

theorem onFiles_recordVerdict {c : Verdicts} {partition signature : Text} {after location : Path}
    {passed : Bool} : OnFiles (recordVerdict c partition test signature after location passed) := by
  refine Uses.bind (Dump.uses_sameState (fun _ => rfl) (fun _ => rfl) _ _) fun _ =>
    .ite ?_ (onFiles_markLoop _)
  refine Uses.bind (Dump.uses_digest (fun _ => rfl) _) fun _ =>
    (onFiles_record _ _).bind fun recording => ?_
  cases recording with
  | recorded => exact uses_pure _
  | observed v => exact .ite (uses_pure _) (onFiles_markLoop _)
  | conflict => exact onFiles_markLoop _

end UnderDebugger

end PatchTriage
