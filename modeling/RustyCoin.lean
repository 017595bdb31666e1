import RustyCoin.Trie.Commitment
import RustyCoin.Trie.RangeProofs
import RustyCoin.Script.MultiSig
import RustyCoin.Script.SigOps
import RustyCoin.Script.Overflow
import RustyCoin.Script.SighashBinding
import RustyCoin.Script.Structured
import RustyCoin.Consensus.StateBinding
import RustyCoin.Consensus.Aborts
import RustyCoin.Consensus.CoinbaseAcceptance
import RustyCoin.Consensus.Persistence
import RustyCoin.Consensus.FailedBlock
import RustyCoin.Consensus.GovernanceLifecycle
import RustyCoin.Consensus.StaleTickets
import RustyCoin.Consensus.Retarget
import RustyCoin.Mempool.BlockTemplate
import RustyCoin.RustyConsensus.TicketSelection
import RustyCoin.RustyConsensus.TicketVotes
import RustyCoin.RustyConsensus.ApplyBlock
import RustyCoin.RustyConsensus.State
import RustyCoin.RustyConsensus.ValidateTransactions
import RustyCoin.Wallet.SignTransaction
import RustyCoin.RustyConsensus.AdaptiveBlockSize
import RustyCoin.Sidechain.CrossChainRuns
import RustyCoin.Sidechain.MessageDelivery
import RustyCoin.RustyMasternode.OxideSend
import RustyCoin.Sidechain.PegOutAuthorization
import RustyCoin.Sidechain.ChallengeRuns
import RustyCoin.Sidechain.ProofValidation
import RustyCoin.RustyCrypto.Dkg
import RustyCoin.RustyMasternode.FerrousShield
import RustyCoin.RustyMasternode.MnListPropagation
import RustyCoin.RustyMasternode.Pose
import RustyCoin.RustyMasternode.Slashing
import RustyCoin.Network.SyncManager
