import Veribase.Lib.Bytes
import Veribase.Lib.StrictSort

/-!
# `uint256` and its number view

A `uint256` (`base_blob<256>` in `uint256.h`) is 32 bytes.  Two views of the
bytes matter to consensus code.  `UintToArith256` reads them as a
little-endian 256-bit number (`arith_uint256.cpp`).  `GetDataPtr()`
reinterprets the bytes as eight 32-bit words, in the host's byte order; the
node runs on little-endian hosts, so word `i` is the little-endian value of
bytes `4i .. 4i+3`.

The word view determines the blob (`eq_of_getDataPtr`), which is what makes a word-by-word comparison of two hashes a
total order on hashes, and not only on their words.
-/

namespace Veribase

open ByteStream

/-- `uint256`: 32 bytes in memory order. -/
structure uint256 where
  /-- `data[WIDTH]`. -/
  data : List UInt8
  /-- `WIDTH = 32`. -/
  length_data : data.length = 32
deriving DecidableEq

namespace uint256

theorem ext_data {a b : uint256} (h : a.data = b.data) : a = b := by
  cases a
  cases b
  cases h
  rfl

/-- `uint256()`: the null blob. -/
def zero : uint256 := ⟨List.replicate 32 0, by simp⟩

instance : Inhabited uint256 := ⟨zero⟩

/-- `IsNull()`: every byte is zero. -/
def isNull (a : uint256) : Bool := a.data.all (· == 0)

/-- `GetDataPtr()[i]`: the `i`-th 32-bit word, little-endian. -/
def getDataPtr (a : uint256) (i : Nat) : Nat := leValue ((a.data.drop (4 * i)).take 4)

/-- `UintToArith256(a)`: the number whose little-endian bytes are `a`. -/
def uintToArith256 (a : uint256) : Nat := leValue a.data

/-- `ArithToUint256(x)`: the little-endian bytes of `x mod 2^256`. -/
def arithToUint256 (x : Nat) : uint256 := ⟨leBytes 32 x, length_leBytes 32 x⟩

theorem uintToArith256_lt (a : uint256) : a.uintToArith256 < 2 ^ 256 := by
  have h := leValue_lt a.data
  rw [a.length_data, show (256 : Nat) = 2 ^ 8 from rfl, ← Nat.pow_mul] at h
  exact h

@[simp] theorem uintToArith256_arithToUint256 (x : Nat) :
    (arithToUint256 x).uintToArith256 = x % 2 ^ 256 := by
  simp [arithToUint256, uintToArith256, leValue_leBytes]

/-- Byte `k` of a blob is byte `k % 4` of its word `k / 4`. -/
theorem getElem?_data (a : uint256) (k : Nat) :
    a.data[k]? = ((a.data.drop (4 * (k / 4))).take 4)[k % 4]? := by
  rw [List.getElem?_take, if_pos (Nat.mod_lt k (by decide)), List.getElem?_drop]
  congr 1
  omega

/-- The eight words determine the blob. -/
theorem eq_of_getDataPtr {a b : uint256} (h : ∀ i < 8, a.getDataPtr i = b.getDataPtr i) :
    a = b := by
  have hchunk : ∀ i < 8, (a.data.drop (4 * i)).take 4 = (b.data.drop (4 * i)).take 4 := by
    intro i hi
    apply leValue_inj _ (h i hi)
    simp [a.length_data, b.length_data]
  apply ext_data
  apply List.ext_getElem?
  intro k
  by_cases hk : k < 32
  · rw [getElem?_data a, getElem?_data b, hchunk (k / 4) (by omega)]
  · rw [List.getElem?_eq_none (by rw [a.length_data]; omega),
      List.getElem?_eq_none (by rw [b.length_data]; omega)]

end uint256

/-- `uint160`: 20 bytes in memory order. -/
structure uint160 where
  /-- `data[WIDTH]`. -/
  data : List UInt8
  /-- `WIDTH = 20`. -/
  length_data : data.length = 20
deriving DecidableEq

theorem uint160.ext_data {a b : uint160} (h : a.data = b.data) : a = b := by
  cases a
  cases b
  cases h
  rfl

end Veribase
