import SortedBlob.Contents
import SortedBlob.Crew
import SortedBlob.Main
import SortedBlob.Sink
import SortedBlob.Source.Faults
import SortedBlob.Proofs.BlobLayout
import SortedBlob.Proofs.Interleaving
import SortedBlob.Proofs.Regions
import SortedBlob.Proofs.RoundTrip
import SortedBlob.Proofs.Thresholds
import SortedBlob.Proofs.IndexReads
import SortedBlob.Proofs.CacheLedger
import SortedBlob.Proofs.Traffic
import SortedBlob.Proofs.Counters
import SortedBlob.Proofs.SearchCost
import SortedBlob.Proofs.RequestBounds
import SortedBlob.Proofs.ToolRoundTrip
import SortedBlob.Proofs.TrailerVerdict
import SortedBlob.Proofs.PartialWrites
import SortedBlob.Proofs.IndexCodec
import SortedBlob.Proofs.RepeatedQueries
import SortedBlob.Proofs.TextLines
import SortedBlob.Proofs.TableFlaws
import SortedBlob.Proofs.TableLayouts
import SortedBlob.Proofs.ToolBuilds
import SortedBlob.Proofs.WindowScan
import SortedBlob.Proofs.RoundRobin
import SortedBlob.Proofs.TrialSources
