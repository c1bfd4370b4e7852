import AverageLinkage.CaseCount
import AverageLinkage.Linkage.Arena
import AverageLinkage.Linkage.Finish
import AverageLinkage.Linkage.Exact
import AverageLinkage.Main
import AverageLinkage.Proofs.Components
import AverageLinkage.Proofs.LiveEdges
import AverageLinkage.Proofs.Partition
import AverageLinkage.Proofs.Run
import AverageLinkage.Proofs.Outcome
import AverageLinkage.Proofs.Conservation
import AverageLinkage.Proofs.DenseLinkage
import AverageLinkage.Proofs.ForestShape
import AverageLinkage.Proofs.ForestLeaves
import AverageLinkage.Proofs.EdgeLaws
import AverageLinkage.Proofs.Renaming
import AverageLinkage.Proofs.Locality
import AverageLinkage.Proofs.LinesAndWords
import AverageLinkage.Proofs.GraphGrammar
import AverageLinkage.Proofs.CheckedAccess
import AverageLinkage.Proofs.Labelling
import AverageLinkage.Proofs.Relaxation
import AverageLinkage.Proofs.DoubleBits
import AverageLinkage.Proofs.ShortestDigits
import AverageLinkage.Proofs.NumberText
import AverageLinkage.Proofs.GraphRoundTrip
import AverageLinkage.Proofs.Affinity
import AverageLinkage.Proofs.StageRuns
import AverageLinkage.Proofs.StageComposition
import AverageLinkage.Proofs.Directions
import AverageLinkage.Proofs.EdgeOrder
import AverageLinkage.Proofs.Heights
import AverageLinkage.Proofs.Atomicity
import AverageLinkage.Proofs.PlainMerge
import AverageLinkage.Proofs.JoinedSlots
import AverageLinkage.Proofs.SlotRuns
import AverageLinkage.Proofs.InPlace
import AverageLinkage.Proofs.Origins
import AverageLinkage.Proofs.MergeRecords
import AverageLinkage.Proofs.MergeHeights
import AverageLinkage.Proofs.FirstFault
import AverageLinkage.Proofs.GraphFaults
import AverageLinkage.Proofs.PackedTable
import AverageLinkage.Proofs.TableOutcome
import AverageLinkage.Proofs.AffinityEdges
import AverageLinkage.Proofs.Thresholds
import AverageLinkage.Proofs.TableRoundTrip
import AverageLinkage.Proofs.ForestText
import AverageLinkage.Proofs.SafeRun
import AverageLinkage.Proofs.ReportedMerges
import AverageLinkage.Proofs.CountDoubles
import AverageLinkage.Proofs.SetCalls
import AverageLinkage.Proofs.UnionByRank
import AverageLinkage.Proofs.PlainPatterns
import AverageLinkage.Proofs.LogFilters
