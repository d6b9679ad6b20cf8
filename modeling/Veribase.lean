import Veribase.Lib.StrictSort
import Veribase.Lib.Bytes
import Veribase.Primitives.Uint256
import Veribase.Primitives.Transaction
import Veribase.Serialize.CompactSize
import Veribase.Primitives.Block
import Veribase.Primitives.Compact
import Veribase.Consensus.Params
import Veribase.Chain.BlockIndex
import Veribase.Pos.StakeModifier
import Veribase.Net.Headers
import Veribase.Net.BlockWait
import Veribase.Lib.Checks
import Veribase.Validation.CheckBlock
import Veribase.Net.CompactBlocks
import Veribase.Lib.Fault
import Veribase.Script.Script
import Veribase.Script.Interpreter
import Veribase.Validation.ScriptFlags
import Veribase.Pos.Weight
import Veribase.Pos.Kernel
import Veribase.Validation.Contextual
import Veribase.Validation.AcceptBlock
import Veribase.Validation.ProcessBlock
import Veribase.Validation.ConnectBlock
import Veribase.Validation.Supply
import Veribase.Consensus.Merkle
import Veribase.Serialize.Transaction
import Veribase.Net.MerkleBlock
import Veribase.Container.Prevector
import Veribase.Container.PrevectorTester
import Veribase.Serialize.Compressor
import Veribase.Validation.Undo
import Veribase.Validation.Disconnect
import Veribase.Validation.DisconnectInverse
import Veribase.Coins.CoinsViewCache
import Veribase.Wallet.RpcWallet
import Veribase.Mining.Miner
import Veribase.Lib.Relax
import Veribase.Script.Eval
import Veribase.Script.SoftFork
import Veribase.Lib.GreedyMatch
import Veribase.Script.MultiSig
import Veribase.Consensus.Pow
import Veribase.Coins.CacheUsage
import Veribase.Lib.Worklist
import Veribase.Mempool.Ancestors
import Veribase.Lib.FaultFree
import Veribase.Script.Checked
import Veribase.Script.Limits
import Veribase.Script.ScriptNum
import Veribase.Script.ConditionStack
import Veribase.Consensus.MerkleTree
import Veribase.Crypto.Scrypt
import Veribase.Lib.Limbs
import Veribase.Primitives.ArithUint256
import Veribase.Chain.BlockProof
import Veribase.Lib.Ancestry
import Veribase.Chain.Skiplist
import Veribase.Chain.Fork
import Veribase.Validation.CheckQueue
import Veribase.Net.BlockEncodings
import Veribase.Util.MoneyStr
import Veribase.Lib.Radix
import Veribase.Util.Base58
import Veribase.Lib.Bits
import Veribase.Util.Bech32
import Veribase.Util.FixedPoint
import Veribase.Util.ConvertBits
import Veribase.Util.KeyIO
import Veribase.Lib.BitList
import Veribase.Serialize.BitStream
import Veribase.BlockFilter.Golomb
import Veribase.BlockFilter.GcsFilter
import Veribase.Bloom.RollingBloom
import Veribase.Bloom.Generations
import Veribase.Lib.Mask
import Veribase.Wallet.CoinSelection
import Veribase.Wallet.BranchAndBound
import Veribase.Lib.Tally
import Veribase.Lib.SecondaryIndex
import Veribase.Net.BlockDownload
import Veribase.Net.Orphans
import Veribase.Net.NextBlocks
