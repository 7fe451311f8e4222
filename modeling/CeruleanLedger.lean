import CeruleanLedger.CompositeKeys
import CeruleanLedger.ChainValidity
import CeruleanLedger.TransactionSigning
import CeruleanLedger.EquivocationRestart
import CeruleanLedger.HeaviestChain
import CeruleanLedger.BlockHeights
import CeruleanLedger.StakeCommittee
import CeruleanLedger.PenaltyLedger
import CeruleanLedger.RoundAgreement
import CeruleanLedger.VoteCollection
import CeruleanLedger.StoreAgreement
import CeruleanLedger.SnapshotRoundTrip
import CeruleanLedger.RaftLogAgreement
import CeruleanLedger.SimulatedReads
import CeruleanLedger.ReadCoverage
import CeruleanLedger.ExecutorTree
import CeruleanLedger.CallTreeLimits
import CeruleanLedger.BatchRecords
import CeruleanLedger.PeerStore
import CeruleanLedger.BlockIntake
import CeruleanLedger.BridgeMinting
import CeruleanLedger.StakeBacking
import CeruleanLedger.VotePower
import CeruleanLedger.ProposalLifecycle
import CeruleanLedger.NftConsent
import CeruleanLedger.ReplicaConvergence
import CeruleanLedger.StorageDeposits
import CeruleanLedger.TokenAccounting
import CeruleanLedger.NftIndexes
import CeruleanLedger.BlockAtomicity
import CeruleanLedger.SecurityTokens
import CeruleanLedger.SlotSchedule
import CeruleanLedger.Economics
import CeruleanLedger.CollateralConservation
import CeruleanLedger.StateProofs
import CeruleanLedger.WalletLedger
import CeruleanLedger.HeightIndex
import CeruleanLedger.InferenceClaims
import CeruleanLedger.EndorsementPlans
import CeruleanLedger.ConfigComposition
import CeruleanLedger.ParallelCommit
import CeruleanLedger.OrderingQueue
import CeruleanLedger.VerifiableChain
import CeruleanLedger.WorldStateAgreement
import CeruleanLedger.GuestSlices
import CeruleanLedger.ReplayGate
import CeruleanLedger.MerkleTrees
import CeruleanLedger.TallyExactness
import CeruleanLedger.DelegationCycles
import CeruleanLedger.ValidatorSelection
import CeruleanLedger.EscrowBooks
import CeruleanLedger.DoubleSigning
import CeruleanLedger.PrivateData
import CeruleanLedger.CallEncoding
