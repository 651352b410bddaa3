import OffchainStorage.Lib.KVMap
import OffchainStorage.Lib.Transition
import OffchainStorage.Lib.VecOps
import OffchainStorage.Lib.Ancestry
import OffchainStorage.Lib.AListFold
import OffchainStorage.Lib.TwoLayerMap
import OffchainStorage.Lib.Atomic
import OffchainStorage.Pallet.Module
import OffchainStorage.Pallet.Calls
import OffchainStorage.Pallet.Invariants
import OffchainStorage.ForkTree.Node
import OffchainStorage.ForkTree.Tree
import OffchainStorage.ForkTree.Forest
import OffchainStorage.ForkTree.Attach
import OffchainStorage.ForkTree.Import
import OffchainStorage.ForkTree.Finalize
import OffchainStorage.ForkTree.Run
import OffchainStorage.ForkTree.DryRun
import OffchainStorage.ForkTree.Search
import OffchainStorage.ForkTree.Ancestors
import OffchainStorage.ForkTree.InPlace
import OffchainStorage.Grandpa.Authorities
import OffchainStorage.Grandpa.Forced
import OffchainStorage.Grandpa.Standard
import OffchainStorage.Grandpa.UntilImported
import OffchainStorage.Lib.RustInt
import OffchainStorage.Lib.Scale
import OffchainStorage.Lib.Rounding
import OffchainStorage.Arithmetic.PerThing
import OffchainStorage.Arithmetic.Rational128
import OffchainStorage.Arithmetic.BigUint
import OffchainStorage.Arithmetic.LongDivision
import OffchainStorage.Arithmetic.Helpers128bit
import OffchainStorage.Arithmetic.Rational128Limbs
import OffchainStorage.Arithmetic.Fixed64
import OffchainStorage.Phragmen.Elect
import OffchainStorage.Phragmen.Rounds
import OffchainStorage.Phragmen.Assignments
import OffchainStorage.Phragmen.Support
import OffchainStorage.Lib.WaterFill
import OffchainStorage.Phragmen.Equalize
import OffchainStorage.Lib.Limbs
import OffchainStorage.Overlay.Changes
import OffchainStorage.Overlay.Refinement
import OffchainStorage.Lib.OrderedMap
import OffchainStorage.Overlay.NextKey
import OffchainStorage.Allocator.FreeingBump
import OffchainStorage.Balances.Module
import OffchainStorage.Balances.Currency
import OffchainStorage.Balances.Issuance
import OffchainStorage.StateDb.Commit
import OffchainStorage.StateDb.NonCanonical
import OffchainStorage.StateDb.Pruning
import OffchainStorage.StateDb.Sync
import OffchainStorage.StateDb.Window
import OffchainStorage.StateDb.Pinning
import OffchainStorage.StateDb.Archive
import OffchainStorage.TransactionPool.Ready
import OffchainStorage.TransactionPool.Future
import OffchainStorage.TransactionPool.BasePool
import OffchainStorage.TransactionPool.Unlocks
import OffchainStorage.TransactionPool.Rejection
import OffchainStorage.Runtime.UncheckedExtrinsic
import OffchainStorage.Runtime.Era
import OffchainStorage.Trie.NodeCodec
import OffchainStorage.Trie.Encoding
import OffchainStorage.Sync.Blocks
import OffchainStorage.Sync.AncestorSearch
import OffchainStorage.System.CheckWeight
import OffchainStorage.Lib.Neighbours
import OffchainStorage.Support.LinkedMap
import OffchainStorage.Support.Translate
import OffchainStorage.ClientDb.StorageCache
import OffchainStorage.ClientDb.Import
import OffchainStorage.Lib.Counting
import OffchainStorage.Peerset.PeersState
import OffchainStorage.Peerset.Slots
import OffchainStorage.Democracy.Tally
import OffchainStorage.Democracy.Delegation
import OffchainStorage.Democracy.Threshold
import OffchainStorage.Session.Keys
import OffchainStorage.Support.ChangeMembers
import OffchainStorage.Collective.Motions
import OffchainStorage.ChangesTrie.Configuration
import OffchainStorage.Lib.Tiling
import OffchainStorage.ChangesTrie.BuildIterator
import OffchainStorage.ChangesTrie.SurfaceIterator
import OffchainStorage.ClientApi.Notifications
import OffchainStorage.Runtime.RandomNumberGenerator
import OffchainStorage.ClientDb.LruMap
import OffchainStorage.Session.Rotation
import OffchainStorage.Democracy.Referenda
import OffchainStorage.Staking.SlashingSpans
import OffchainStorage.Lib.ParentLinks
import OffchainStorage.Lib.FallibleState
import OffchainStorage.ClientDb.HeaderMetadata
