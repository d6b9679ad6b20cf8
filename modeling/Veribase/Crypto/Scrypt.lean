import Veribase.Validation.CheckBlock

/-!
# The scrypt hash and its scratch buffer

`scryptHash(input, output)` (`crypto/scrypt.cpp`) takes the scratch buffer of
`scrypt(N, 1, 1)` from `scrypt_buffer_alloc`, a `malloc` that returns null
when memory runs out.  It zeroes the 32 output bytes first and, on a null
buffer, returns at once with nothing to tell its caller; only with a buffer
does it hash the 80 input bytes.  `CBlockHeader::GetWorkHash` returns what
was written.

`Primitives.Block` takes the scrypt hash as a parameter of `Hashers`; here it
is built from the allocation outcome (`scryptHashers`).  With a buffer it is
the hash of the header.  Without one the work hash
of every header is the zero hash (`getWorkHash_scratchbufNull`), which lies
below every target: `CheckProofOfWork` accepts it for every valid `nBits`,
and the proof-of-work test of `CheckBlock` passes whatever the header holds
(`checkBlockBody_scratchbufNull`).  On Vericoin `GetHash` is the work hash,
so every header then has the same identity.
-/

namespace Veribase

/-- `scryptHash(input, output)`: `scratchbuf` is whether
`scrypt_buffer_alloc()` returned a buffer, and `scrypt_N_1_1_256` the hash
written into `output` when it did. -/
def scryptHash (scrypt_N_1_1_256 : List UInt8 → uint256) (scratchbuf : Bool)
    (input : List UInt8) : uint256 :=
  -- `memset(output, 0, 32); if (!scratchbuf) return;`
  if !scratchbuf then uint256.zero
  else scrypt_N_1_1_256 input

/-- The hash functions of a node whose scratch allocation gave `scratchbuf`. -/
def scryptHashers (Hash scrypt_N_1_1_256 : List UInt8 → uint256) (scratchbuf : Bool) : Hashers :=
  ⟨Hash, scryptHash scrypt_N_1_1_256 scratchbuf⟩

section Scratch

variable (Hash scrypt_N_1_1_256 : List UInt8 → uint256)

/-- Without a buffer, the work hash of every header is the zero hash. -/
theorem getWorkHash_scratchbufNull (h : CBlockHeader) :
    h.getWorkHash (scryptHashers Hash scrypt_N_1_1_256 false) = uint256.zero := rfl

/-- The zero hash meets every target that `CheckProofOfWork` lets through:
a positive, unflagged target within the limit. -/
theorem checkProofOfWork_zero {nBits : UInt32} {powLimit : uint256}
    (hbits : ∃ t, setCompact nBits = (t, false, false) ∧ 0 < t ∧ t ≤ powLimit.uintToArith256) :
    checkProofOfWork uint256.zero nBits powLimit = true := by
  obtain ⟨t, ht, hpos, hle⟩ := hbits
  have hzero : uint256.zero.uintToArith256 = 0 := by decide
  unfold checkProofOfWork
  rw [ht, hzero]
  simp [Nat.pos_iff_ne_zero.mp hpos, Nat.not_lt.mpr hle]

/-- **A failed scratch allocation validates any work.**  When
`scrypt_buffer_alloc` returns null, the work hash of a block is the zero
hash whatever its header, it is the block's identity on Vericoin,
`CheckProofOfWork` accepts it for every valid `nBits`, and `CheckBlock`'s
checks run as if the proof of work were not asked for. -/
theorem checkBlockBody_scratchbufNull (env : CheckBlockEnv) (IsVericoin : Bool)
    (consensusParams : Params) (block : CBlock) (fCheckPOW fCheckMerkleRoot : Bool)
    (hbits : ∃ t, setCompact block.nBits = (t, false, false) ∧ 0 < t ∧
      t ≤ consensusParams.powLimit.uintToArith256) :
    block.getWorkHash (scryptHashers Hash scrypt_N_1_1_256 false) = uint256.zero ∧
      block.getHash (scryptHashers Hash scrypt_N_1_1_256 false) true = uint256.zero ∧
      checkProofOfWork (block.getWorkHash (scryptHashers Hash scrypt_N_1_1_256 false)) block.nBits
        consensusParams.powLimit = true ∧
      checkBlockBody env IsVericoin block (scryptHashers Hash scrypt_N_1_1_256 false) consensusParams
          fCheckPOW fCheckMerkleRoot =
        checkBlockBody env IsVericoin block (scryptHashers Hash scrypt_N_1_1_256 false) consensusParams
          false fCheckMerkleRoot := by
  have hwork := getWorkHash_scratchbufNull Hash scrypt_N_1_1_256 block.toCBlockHeader
  have hpow := checkProofOfWork_zero hbits
  refine ⟨hwork, hwork, by rw [hwork]; exact hpow, ?_⟩
  -- the test `!IsProofOfStake() && fCheckPOW && !CheckProofOfWork(...)` never fires
  unfold checkBlockBody
  rw [hwork, hpow]
  simp

end Scratch

/-- A header of difficulty one at the limit `2^224`, hashed by a node whose
allocation fails: its work is taken whatever scrypt would have given. -/
theorem checkBlockBody_scratchbufNull_difficultyOne :
    let block := CBlock.ofHeader ⟨1, uint256.zero, uint256.zero, 0, 0x1d00ffff, 0, 0⟩
    let params := vericoinParams uint256.zero (uint256.arithToUint256 (2 ^ 224)) uint256.zero []
    (∃ t, setCompact block.nBits = (t, false, false) ∧ 0 < t ∧ t ≤ params.powLimit.uintToArith256) ∧
      checkProofOfWork (block.getWorkHash (scryptHashers (fun _ => uint256.zero)
        (fun _ => uint256.arithToUint256 (2 ^ 255)) false)) block.nBits params.powLimit = true :=
  have hbits : ∃ t, setCompact 0x1d00ffff = (t, false, false) ∧ 0 < t ∧
      t ≤ (uint256.arithToUint256 (2 ^ 224)).uintToArith256 :=
    ⟨0xffff <<< 208, by decide, by decide, by decide⟩
  ⟨hbits, (checkBlockBody_scratchbufNull (fun _ => uint256.zero)
    (fun _ => uint256.arithToUint256 (2 ^ 255)) noKeyEnv true
    (vericoinParams uint256.zero (uint256.arithToUint256 (2 ^ 224)) uint256.zero [])
    (CBlock.ofHeader ⟨1, uint256.zero, uint256.zero, 0, 0x1d00ffff, 0, 0⟩) true true hbits).2.2.1⟩

end Veribase
