import Veribase.Primitives.Uint256

/-!
# Consensus parameters

`consensus/params.h` and the Vericoin main-network values of
`chainparams.cpp`.  `IsProofOfStake(params, nHeight)` (`validation.cpp`) is the
height schedule: every height above `PoSHeight` is proof-of-stake, and below
it the heights listed in `PROOF_OF_STAKE_BLOCKS` (`pos.h`), the stake blocks of
the chain's first era.  That table has 9460 entries; the model carries it in
`posBlocks`, so every statement here holds whatever the table holds.

Heights, times and the `int` parameters are integers; nothing below overflows
at the values the chain uses.
-/

namespace Veribase

/-- `Consensus::Params`, the fields block validation reads, with the table of
early proof-of-stake heights. -/
structure Params where
  BIP34Height : Int
  BIP65Height : Int
  BIP66Height : Int
  CSVHeight : Int
  fIsVericoin : Bool
  posLimit : uint256
  NextTargetV2Height : Int
  /-- `PoSTHeight`, the start of proof-of-stake-time. -/
  PoSTHeight : Int
  /-- `PoSHeight`, the last height that may be proof-of-work. -/
  PoSHeight : Int
  nStakeTargetSpacing : Int
  nStakeMinAge : Int
  nModifierInterval : Int
  powLimit : uint256
  nMaturity : Int
  nTargetTimespan : Int
  /-- `nInitialCoinSupply`, in whole coins. -/
  nInitialCoinSupply : Int
  /-- `VIP1Height`, from which the second minimum fee applies. -/
  VIP1Height : Int
  hashGenesisBlock : uint256
  /-- `PROOF_OF_STAKE_BLOCKS` of `pos.h`. -/
  posBlocks : List Int

/-- The ratio of the last selection section to the first (`pos.h`). -/
def MODIFIER_INTERVAL_RATIO : Int := 3

/-- `IsProofOfStake(consensusParams, nHeight)`: the height schedule. -/
def isProofOfStake (params : Params) (nHeight : Int) : Bool :=
  if !params.fIsVericoin then false
  else if nHeight > params.PoSHeight then true
  else params.posBlocks.contains nHeight

theorem isProofOfStake_of_gt {params : Params} {nHeight : Int} (hv : params.fIsVericoin = true)
    (h : nHeight > params.PoSHeight) : isProofOfStake params nHeight = true := by
  simp [isProofOfStake, hv, h]

/-- The Vericoin main network (`CVericoinParams`), with the table of early
stake heights and the two limits and the genesis hash left as arguments. -/
def vericoinParams (posLimit powLimit hashGenesisBlock : uint256) (posBlocks : List Int) :
    Params where
  BIP34Height := 1
  BIP65Height := 600000
  BIP66Height := 600000
  CSVHeight := 600000
  fIsVericoin := true
  posLimit := posLimit
  NextTargetV2Height := 38424
  PoSTHeight := 608100
  PoSHeight := 20160
  nStakeTargetSpacing := 60
  nStakeMinAge := 8 * 60 * 60
  nModifierInterval := 10 * 60
  powLimit := powLimit
  nMaturity := 500
  nTargetTimespan := 16 * 60
  nInitialCoinSupply := 26751452
  VIP1Height := 0
  hashGenesisBlock := hashGenesisBlock
  posBlocks := posBlocks

end Veribase
