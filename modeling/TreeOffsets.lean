import TreeOffsets.Json.Readable
import TreeOffsets.Main
import TreeOffsets.Proofs.WalkRecursion
import TreeOffsets.Proofs.LocatedTree
import TreeOffsets.Proofs.LineCuts
import TreeOffsets.Proofs.Columns
import TreeOffsets.Proofs.Places
import TreeOffsets.Proofs.FinishedNodes
import TreeOffsets.Proofs.ParserPlaces
import TreeOffsets.Proofs.Utf8Texts
import TreeOffsets.Proofs.DecimalDigits
import TreeOffsets.Proofs.Rounding
import TreeOffsets.Proofs.Differences
import TreeOffsets.Proofs.NumberTokens
import TreeOffsets.Proofs.StringTokens
import TreeOffsets.Proofs.ScalarTokens
import TreeOffsets.Proofs.ReadBack
import TreeOffsets.Proofs.IndentedDocuments
import TreeOffsets.Proofs.PrintableTexts
import TreeOffsets.Proofs.ChunkTexts
import TreeOffsets.Proofs.DiskPaths
import TreeOffsets.Proofs.WrittenFiles
import TreeOffsets.Proofs.InterruptedWrites
import TreeOffsets.Proofs.DistinctNames
import TreeOffsets.Proofs.ParserOutcomes
import TreeOffsets.Proofs.CommandRuns
import TreeOffsets.Proofs.ReportedErrors
import TreeOffsets.Proofs.RunHistories
import TreeOffsets.Proofs.StackOrder
import TreeOffsets.Proofs.AnnotatorHistories
import TreeOffsets.Proofs.LineSpans
import TreeOffsets.Proofs.DocumentOrder
import TreeOffsets.Proofs.Utf16Cuts
import TreeOffsets.Proofs.NarrowLines
import TreeOffsets.Proofs.Lookups
import TreeOffsets.Proofs.TableLaws
import TreeOffsets.Proofs.SourceFiles
import TreeOffsets.Proofs.OverwrittenOffsets
import TreeOffsets.Proofs.Requests
