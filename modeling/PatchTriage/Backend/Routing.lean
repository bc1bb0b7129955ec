import PatchTriage.Patch.Plan
import PatchTriage.Settings.Mode

/-!
# Which way a patch goes

A patch is validated the way the settings say, unless it needs a build: because it adds a
dependency, or because it is to be put into the binary and cannot. Such a patch is compiled, if
there is a source tree.
-/

namespace PatchTriage.Routing

def canRecompile (mode : PatchMode) (hasSource : Bool) : Bool := mode = .compiler || hasSource

def needsBuild (mode : PatchMode) (p : Patch) : Bool :=
  p.requiresRecompilation || (mode = .editor && (Plan.ofPatch? p).isNone)

def route (mode : PatchMode) (hasSource : Bool) (p : Patch) : Except Failure PatchMode :=
  if !needsBuild mode p || mode = .compiler then .ok mode
  else if hasSource then .ok .compiler
  else if p.requiresRecompilation then .error (.of (.noSourceConfigured p.id))
  else .ok mode

end PatchTriage.Routing
