import PatchTriage.Settings.Arguments
import PatchTriage.Settings.ConfigText
import PatchTriage.Settings.Metadata
import PatchTriage.World.Action

/-!
# Sources of settings

Settings come from a metadata document, a settings file and the command line, each over the one
before it.
-/

namespace PatchTriage.Sources

def loadMetadata (p : Path) : Job Layer := do
  let bytes ← Job.explain (.readMetadata p) (Job.read p)
  Job.explain .parseMetadata (Job.lift (Metadata.parse bytes))

def loadSettings (p : Path) : Job Layer := do
  let text ← Job.explain (.readSettings p) (Job.readText p)
  if Text.isBlankText text then Job.refuse (.emptySettings p)
  Job.explain (.parseSettings p) (Job.lift (ConfigText.parse text))

def optional (load : Path → Job Layer) : Option Path → Job Layer
  | none => return {}
  | some p => load p

/-- The settings of all sources; `layer` holds those of the command line. -/
def merge (o : Arguments.Options) (layer : Layer) : Job Layer := do
  let metadata ← optional loadMetadata o.metadata
  let settings ← optional loadSettings o.conf
  return (metadata.overlay settings).overlay layer

def load (o : Arguments.Options) : Job Layer := do merge o (← Job.lift o.toLayer)

end PatchTriage.Sources
