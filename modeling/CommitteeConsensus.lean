import CommitteeConsensus.Config.Toml
import CommitteeConsensus.Node.Batch
import CommitteeConsensus.Node.Production
import CommitteeConsensus.Proofs.Json.Data
import CommitteeConsensus.Proofs.Chain.ExtraData
import CommitteeConsensus.Proofs.Committee.Stored
import CommitteeConsensus.Proofs.Json.Extent
import CommitteeConsensus.Proofs.Store.Cache
import CommitteeConsensus.Proofs.Committee.Snapshot
import CommitteeConsensus.Proofs.Engine.Governance
import CommitteeConsensus.Proofs.Engine.Settlement
import CommitteeConsensus.Proofs.Node.Replay
import CommitteeConsensus.Proofs.Chain.Index
import CommitteeConsensus.Proofs.Engine.Verification
import CommitteeConsensus.Proofs.Node.Acceptance
import CommitteeConsensus.Proofs.Node.Authorship
import CommitteeConsensus.Proofs.Calendar
import CommitteeConsensus.Proofs.Engine.QueryHistory
import CommitteeConsensus.Proofs.Node.Batch
import CommitteeConsensus.Proofs.Node.Disagreement
import CommitteeConsensus.Proofs.Chain.Extension
import CommitteeConsensus.Proofs.Node.Consistency
import CommitteeConsensus.Proofs.Node.Import
import CommitteeConsensus.Proofs.Node.Reorganisation
import CommitteeConsensus.Proofs.Node.Conservation
import CommitteeConsensus.Proofs.Word
import CommitteeConsensus.Proofs.Committee.Election
import CommitteeConsensus.Proofs.Engine.Interruption
import CommitteeConsensus.Proofs.Node.Publication
import CommitteeConsensus.Proofs.Node.Failure
import CommitteeConsensus.Proofs.Reward.Plan
import CommitteeConsensus.Proofs.Reward.Pool
import CommitteeConsensus.Proofs.Node.Epochs
import CommitteeConsensus.Proofs.Node.Pool
import CommitteeConsensus.Proofs.Node.Participation
import CommitteeConsensus.Proofs.Committee.Rotation
import CommitteeConsensus.Proofs.Node.Departure
import CommitteeConsensus.Proofs.Node.Stall
import CommitteeConsensus.Proofs.Node.Malleability
import CommitteeConsensus.Proofs.Node.Pace
import CommitteeConsensus.Proofs.Store.Map
import CommitteeConsensus.Proofs.SampleLog.Search
import CommitteeConsensus.Proofs.Engine.Windows
import CommitteeConsensus.Proofs.Node.Registration
import CommitteeConsensus.Proofs.Node.Frame
import CommitteeConsensus.Proofs.Committee.Office
import CommitteeConsensus.Proofs.Chain.Branch
import CommitteeConsensus.Proofs.Node.Delivery
import CommitteeConsensus.Proofs.Node.Session
import CommitteeConsensus.Proofs.Node.Withdrawal
import CommitteeConsensus.Proofs.Node.Persistence
import CommitteeConsensus.Proofs.Chain.Commitment
import CommitteeConsensus.Proofs.Committee.Turns
import CommitteeConsensus.Proofs.Committee.Difficulty
import CommitteeConsensus.Proofs.Reward.Range
import CommitteeConsensus.Proofs.Committee.Ranking
import CommitteeConsensus.Proofs.Committee.Seats
import CommitteeConsensus.Proofs.SampleLog.Built
import CommitteeConsensus.Proofs.SampleLog.Growth
import CommitteeConsensus.Proofs.SampleLog.Adjacent
import CommitteeConsensus.Proofs.Node.Contribution
import CommitteeConsensus.Proofs.SampleLog.Trim
import CommitteeConsensus.Proofs.Chain.Roots
import CommitteeConsensus.Proofs.Node.Divergence
import CommitteeConsensus.Proofs.Committee.Record
import CommitteeConsensus.Proofs.SampleLog.Latest
import CommitteeConsensus.Proofs.SampleLog.Halving
