import PatchTriage.Main
import PatchTriage.Proofs.ByteOffsets
import PatchTriage.Proofs.CheckedSettings
import PatchTriage.Proofs.CoverageReports
import PatchTriage.Proofs.DiffSections
import PatchTriage.Proofs.Disagreement
import PatchTriage.Proofs.Distances
import PatchTriage.Proofs.Exports
import PatchTriage.Proofs.Gating
import PatchTriage.Proofs.GuardedCalls
import PatchTriage.Proofs.ImageLayout
import PatchTriage.Proofs.MirroredDifferences
import PatchTriage.Proofs.PairIsolation
import PatchTriage.Proofs.Partitions
import PatchTriage.Proofs.PatchVisibility
import PatchTriage.Proofs.Plans
import PatchTriage.Proofs.QuotedWords
import PatchTriage.Proofs.Ranking
import PatchTriage.Proofs.ResolvedSettings
import PatchTriage.Proofs.RunAccount
import PatchTriage.Proofs.SkippedItems
import PatchTriage.Proofs.SourceNames
import PatchTriage.Proofs.SourceRestored
import PatchTriage.Proofs.StatementParts
