import PatchTriage.Debugger.Statement
import PatchTriage.Patch.Basic

/-!
# Edits put into a binary

An edit that inserts a single assignment or call, and removes nothing, can be put into the binary
itself. Its plan says where and what.
-/

namespace PatchTriage

structure Plan where
  breakPoint : BreakPoint
  expression : Text
  deriving DecidableEq

namespace Plan

def expression? : Statement → Option Text
  | .assignment text _ => some text
  | .call text => some text
  | _ => none

/-- The plan of a patch; none if its edit needs more than one expression. -/
def ofPatch? (p : Patch) : Option Plan :=
  match p.requiresRecompilation, p.fragments with
  | false, [(b, f)] =>
    if !f.removed.isEmpty || f.jumpLine.isSome then none
    else
      match f.inserted.filterMap Statement.parse? with
      | [statement] =>
        (expression? statement).bind fun e =>
          if e.any fun c => c = '"' || c = '\'' then none else some ⟨b, e⟩
      | _ => none
  | _, _ => none

/-- The arguments that make the binary editor evaluate an expression at an address. -/
def editorArgs (binary out : Path) (address : Nat) (expression : Text) : List Text :=
  ["-M", "addr==0x" ++ Text.hexOfNat address, "-P",
    "entry(\"" ++ expression ++ "\", base, static addr, state)@patch_hook",
    binary, "-E", ".plt", "-o", out]

end Plan

end PatchTriage
