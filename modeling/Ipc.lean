import Ipc.Lib.Maps
import Ipc.Lib.System
import Ipc.Topdown.Voting
import Ipc.Topdown.VotingInvariant
import Ipc.Contracts.Basic
import Ipc.Contracts.PriorityQueue
import Ipc.Contracts.PriorityQueueInvariant
import Ipc.Contracts.ValidatorSet
import Ipc.Contracts.StakingChangeLog
import Ipc.Contracts.Multisig
import Ipc.Contracts.SubnetActor
import Ipc.Contracts.CheckpointQuorum
import Ipc.Contracts.SubnetIDHelper
import Ipc.Contracts.Gateway
import Ipc.Contracts.GatewayMembership
import Ipc.Contracts.GatewayNonces
import Ipc.Interpreter.Checkpoint
import Ipc.Topdown.Cache
import Ipc.Topdown.Finality
import Ipc.Topdown.Proposal
import Ipc.Topdown.Syncer
import Ipc.Resolver.Votes
import Ipc.VmMessage.Signed
import Ipc.Contracts.ReleaseQueue
import Ipc.Topdown.StoredCache
import Ipc.Contracts.SubnetActorManager
import Ipc.Contracts.GenesisAccounting
import Ipc.Topdown.FindQuorum
import Ipc.Contracts.Quorum
import Ipc.Contracts.QuorumInvariant
import Ipc.Accumulator.Shared
import Ipc.Lib.MerkleTree
import Ipc.Lib.MountainRange
import Ipc.Accumulator.Peaks
import Ipc.Accumulator.Retrieval
import Ipc.Accumulator.Commitment
import Ipc.Contracts.PriorityQueueOrder
import Ipc.Lib.Selection
import Ipc.Contracts.ValidatorSetOrder
import Ipc.Contracts.PriorityQueueRuns
import Ipc.Interpreter.PowerDiff
import Ipc.Accumulator.PeakCount
import Ipc.Lib.Abi
import Ipc.Api.FvmAddress
import Ipc.Api.Evm
import Ipc.Lib.Utf8
import Ipc.Objectstore.List
import Ipc.EthApi.Logs
import Ipc.Interpreter.Objects
import Ipc.Resolver.ProviderCache
import Ipc.Resolver.ProviderHistory
import Ipc.Lib.AsyncWrite
import Ipc.Snapshot.Chunker
import Ipc.Snapshot.ChunkerRuns
import Ipc.Lib.HeapTree
import Ipc.MerkleTree.Core
import Ipc.MerkleTree.Standard
import Ipc.Contracts.CheckpointSignatures
import Ipc.MerkleTree.MultiProof
