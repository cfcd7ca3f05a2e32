import Tlsf.Arena
import Tlsf.Blake3
import Tlsf.Block
import Tlsf.Buffer
import Tlsf.Checked
import Tlsf.Config
import Tlsf.Config.Environment
import Tlsf.Config.Fields
import Tlsf.Config.Json
import Tlsf.Dimensions
import Tlsf.Error
import Tlsf.FreeIndex
import Tlsf.Handle
import Tlsf.Handle.Json
import Tlsf.Json
import Tlsf.Json.Members
import Tlsf.Json.RoundTrip
import Tlsf.Json.Serializer
import Tlsf.Json.Spelling
import Tlsf.Json.Token
import Tlsf.Pool
import Tlsf.Pool.Integrity
import Tlsf.Pool.Liveness
import Tlsf.Pool.Operations
import Tlsf.Pool.Walk
import Tlsf.Proofs.ArenaView
import Tlsf.Proofs.BlockEdits
import Tlsf.Proofs.Carving
import Tlsf.Proofs.Coalescing
import Tlsf.Proofs.Descendants
import Tlsf.Proofs.Effects
import Tlsf.Proofs.Footprint
import Tlsf.Proofs.FiledLists
import Tlsf.Proofs.FreeLinks
import Tlsf.Proofs.IndexMirror
import Tlsf.Proofs.ListMoves
import Tlsf.Proofs.PoolView
import Tlsf.Proofs.Releasing
import Tlsf.Proofs.Resizing
import Tlsf.Proofs.Settling
import Tlsf.Proofs.SizeClasses
import Tlsf.Proofs.Sparing
import Tlsf.Proofs.Tallies
import Tlsf.Proofs.Tiling
import Tlsf.Registry
import Tlsf.Registry.Json
import Tlsf.Serializer
import Tlsf.SizeClass
import Tlsf.SizeWord
import Tlsf.Statistics
import Tlsf.Statistics.Json
import Tlsf.Text.Blank
import Tlsf.Text.Decimal
import Tlsf.Proofs.PoolCalls
import Tlsf.Proofs.FreshPool
import Tlsf.Proofs.Sessions
import Tlsf.Proofs.SessionSteps
import Tlsf.Proofs.SessionRuns
import Tlsf.Proofs.Consistency
import Tlsf.Proofs.LivePointers
import Tlsf.Proofs.FrameLaw
import Tlsf.Proofs.Atomicity
import Tlsf.Proofs.Ancestry
import Tlsf.Proofs.FreeListChecks
import Tlsf.Proofs.Integrity
import Tlsf.Proofs.Surveys
import Tlsf.Proofs.Faultless
import Tlsf.Proofs.Twins
import Tlsf.Proofs.TwinPools
import Tlsf.Proofs.NonInterference
import Tlsf.Proofs.Outcomes
import Tlsf.Proofs.Peaks
import Tlsf.Proofs.Accounting
import Tlsf.Proofs.DamagedPools
import Tlsf.Proofs.Canonical
import Tlsf.Proofs.Owners
import Tlsf.Proofs.ReleaseOrder
import Tlsf.Proofs.Uncounted
import Tlsf.Proofs.RegistryEffects
import Tlsf.Proofs.RegistryAgreement
import Tlsf.Proofs.ClassSearch
import Tlsf.Proofs.Grants
import Tlsf.Proofs.Room
import Tlsf.Proofs.Carriage
import Tlsf.Proofs.Repeating
import Tlsf.Proofs.Undoing
import Tlsf.Proofs.SubtreeOrder
import Tlsf.Proofs.Survivors
import Tlsf.Proofs.Renaming
import Tlsf.Proofs.Pruning
import Tlsf.Proofs.RefusedRepoints
import Tlsf.Proofs.Stomping
import Tlsf.Proofs.PointerChecks
import Tlsf.Proofs.Regions
import Tlsf.Proofs.ConfiguredPools
import Tlsf.Proofs.Filing
import Tlsf.Proofs.Rounding
import Tlsf.Proofs.Requests
import Tlsf.Proofs.BitmapSearch
import Tlsf.Proofs.HeaderFields
import Tlsf.Proofs.SplitAbsorb
import Tlsf.Proofs.JsonTexts
import Tlsf.Proofs.ConfigDocuments
