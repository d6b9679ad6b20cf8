import Mathlib
import Veribase.Primitives.Block

/-!
# Merkle roots and mutation detection

`ComputeMerkleRoot` (`consensus/merkle.cpp`) hashes a list of digests level
by level: an odd level gets its last digest duplicated, and each pair is
compressed by the 64-byte double SHA-256 (`SHA256D64`).  Before a level is
hashed, the function flags the level *mutated* when two digests at an even
position and the next one are equal; that is the defence against
CVE-2012-2459, where a list that repeats its own padding has the root of the
shorter list.

The digests are a type `δ` with a null value (`uint256()`, the root of the
empty list), and the compression is a parameter.  The source's statement
"assuming no double-SHA256 collisions, this will detect all known ways of
changing the transactions without affecting the merkle root" is proved for
lists that need the same number of levels, under an injective compression:

* one level is undone up to a detected duplicate (`eq_of_merkleLevel_eq`):
  equal levels come from equal lists, or from a list `L` and `L` with its
  last digest repeated, and the repeated pair is flagged;
* by induction on the number of levels, equal roots come from equal lists or
  from a list flagged at some level (`computeMerkleRoot_mutation_complete`).

The empty list is the one exception: it needs no level, like a single
digest, and its root is the null digest, which is also the root of the list
holding only the null digest (`computeMerkleRoot_empty_collision`).
-/

namespace Veribase

section Merkle

variable {δ : Type} (null : δ) (hash64 : δ → δ → δ)

/-! ## One level -/

/-- `SHA256D64(out, in, blocks)` over a level: each pair is compressed. -/
def sha256D64 : List δ → List δ
  | a :: b :: rest => hash64 a b :: sha256D64 rest
  | _ => []

/-- `if (hashes.size() & 1) hashes.push_back(hashes.back())`. -/
def padOdd (hashes : List δ) : List δ :=
  if hashes.length % 2 = 1 then hashes ++ [hashes.getLastD null] else hashes

/-- The mutation check of a level: a digest at an even position equal to the
next one. -/
def mutationAt [DecidableEq δ] : List δ → Bool
  | a :: b :: rest => a == b || mutationAt rest
  | _ => false

/-- The next level: the odd level padded, then compressed pair by pair. -/
def merkleLevel (hashes : List δ) : List δ := sha256D64 hash64 (padOdd null hashes)

theorem length_sha256D64 : ∀ hashes : List δ, (sha256D64 hash64 hashes).length = hashes.length / 2
  | [] => by simp [sha256D64]
  | [_] => by simp [sha256D64]
  | a :: b :: rest => by
      rw [sha256D64, List.length_cons, length_sha256D64 rest, List.length_cons, List.length_cons]
      omega

theorem length_merkleLevel (hashes : List δ) :
    (merkleLevel null hash64 hashes).length = (hashes.length + 1) / 2 := by
  rw [merkleLevel, length_sha256D64, padOdd]
  split
  · rw [List.length_append, List.length_singleton]
  · omega

/-- A digest of the compressed level is the compression of its two
children. -/
theorem getD_sha256D64 : ∀ (hashes : List δ) (pos : Nat), pos * 2 + 1 < hashes.length →
    (sha256D64 hash64 hashes).getD pos null =
      hash64 (hashes.getD (pos * 2) null) (hashes.getD (pos * 2 + 1) null)
  | [], _, h => absurd h (by simp)
  | [_], _, h => absurd h (by simp)
  | a :: b :: rest, 0, _ => by simp [sha256D64]
  | a :: b :: rest, pos + 1, h => by
      have hrest : pos * 2 + 1 < rest.length := by
        simp only [List.length_cons] at h
        omega
      rw [sha256D64, List.getD_cons_succ, getD_sha256D64 rest pos hrest]
      simp [Nat.add_mul]

/-- A digest of the next level: the compression of its left child and of its
right child, or of the left child twice when the level is odd and the left
child is its last digest. -/
theorem getD_merkleLevel (hashes : List δ) {pos : Nat} (hpos : pos * 2 < hashes.length) :
    (merkleLevel null hash64 hashes).getD pos null =
      hash64 (hashes.getD (pos * 2) null)
        (if pos * 2 + 1 < hashes.length then hashes.getD (pos * 2 + 1) null
          else hashes.getD (pos * 2) null) := by
  rw [merkleLevel, padOdd]
  split
  · rename_i hodd
    rw [getD_sha256D64 null hash64 _ pos (by simp; omega), List.getD_append _ _ _ _ hpos]
    split
    · rw [List.getD_append _ _ _ _ ‹_›]
    · -- the padding: a copy of the last digest, which is the left child
      have hlast : pos * 2 + 1 = hashes.length := by omega
      rw [hlast, List.getD_append_right _ _ _ _ le_rfl, Nat.sub_self, List.getD_cons_zero,
        List.getLastD_eq_getLast?, List.getLast?_eq_getElem?, ← List.getD_eq_getElem?_getD,
        show hashes.length - 1 = pos * 2 by omega]
  · rw [getD_sha256D64 null hash64 _ pos (by omega), if_pos (by omega)]

/-- `while (hashes.size() > 1)`: each level is flagged, padded and
compressed; what is left at the end is the root, or the null digest for an
empty list. -/
def merkleLoop [DecidableEq δ] (hashes : List δ) (mutation : Bool) : δ × Bool :=
  if 1 < hashes.length then
    merkleLoop (merkleLevel null hash64 hashes) (mutation || mutationAt hashes)
  else (hashes.headD null, mutation)
termination_by hashes.length
decreasing_by
  rw [length_merkleLevel]
  omega

/-- `ComputeMerkleRoot(hashes, &mutated)`: the root and the mutation flag. -/
def computeMerkleRoot [DecidableEq δ] (hashes : List δ) : δ × Bool := merkleLoop null hash64 hashes false

end Merkle

/-- `BlockMerkleRoot(block, &mutated)`: the root of the transaction hashes. -/
def blockMerkleRoot (hash64 : uint256 → uint256 → uint256) (block : CBlock) : uint256 × Bool :=
  computeMerkleRoot uint256.zero hash64 (block.vtx.map CTransaction.getHash)

section Merkle

variable {δ : Type} [DecidableEq δ] {null : δ} {hash64 : δ → δ → δ}

/-! ## The loop -/

theorem merkleLoop_of_lt {hashes : List δ} (mutation : Bool) (h : 1 < hashes.length) :
    merkleLoop null hash64 hashes mutation =
      merkleLoop null hash64 (merkleLevel null hash64 hashes) (mutation || mutationAt hashes) := by
  rw [merkleLoop, if_pos h]

theorem merkleLoop_of_le {hashes : List δ} (mutation : Bool) (h : hashes.length ≤ 1) :
    merkleLoop null hash64 hashes mutation = (hashes.headD null, mutation) := by
  rw [merkleLoop, if_neg (by omega)]

/-- The flag the loop starts with only joins the flags of the levels, and the
root does not depend on it. -/
theorem merkleLoop_flag (hashes : List δ) (mutation : Bool) :
    merkleLoop null hash64 hashes mutation =
      ((merkleLoop null hash64 hashes false).1, mutation || (merkleLoop null hash64 hashes false).2) := by
  by_cases h : 1 < hashes.length
  · -- one level down, both runs continue on the same next level
    rw [merkleLoop_of_lt mutation h, merkleLoop_of_lt false h,
      merkleLoop_flag (merkleLevel null hash64 hashes) (mutation || mutationAt hashes),
      merkleLoop_flag (merkleLevel null hash64 hashes) (false || mutationAt hashes)]
    simp [Bool.or_assoc]
  · rw [merkleLoop_of_le mutation (by omega), merkleLoop_of_le false (by omega)]
    simp
termination_by hashes.length
decreasing_by all_goals (rw [length_merkleLevel]; omega)

/-- A list of two or more digests has the root of its next level, and is
flagged when that level is or when it is itself. -/
theorem computeMerkleRoot_of_lt {hashes : List δ} (h : 1 < hashes.length) :
    computeMerkleRoot null hash64 hashes =
      ((computeMerkleRoot null hash64 (merkleLevel null hash64 hashes)).1,
        mutationAt hashes || (computeMerkleRoot null hash64 (merkleLevel null hash64 hashes)).2) := by
  unfold computeMerkleRoot
  rw [merkleLoop_of_lt false h, Bool.false_or, merkleLoop_flag]

/-! ## Undoing a level -/

/-- A list whose last digest is repeated is flagged on the repeated pair. -/
theorem mutationAt_append_last : ∀ (A : List δ) (x : δ), A.length % 2 = 0 → mutationAt (A ++ [x, x]) = true
  | [], x, _ => by simp [mutationAt]
  | [_], _, hA => by simp at hA
  | a :: b :: A, x, hA => by
      have hA' : A.length % 2 = 0 := by simp at hA; omega
      simp [mutationAt, mutationAt_append_last A x hA']

omit [DecidableEq δ] in
/-- A list of odd length padded: its digests, then its last one again. -/
theorem padOdd_of_odd (null : δ) {L : List δ} (h : L.length % 2 = 1) :
    ∃ A x, L = A ++ [x] ∧ A.length % 2 = 0 ∧ padOdd null L = A ++ [x, x] := by
  have hne : L ≠ [] := by
    rintro rfl
    simp at h
  obtain ⟨A, x, rfl⟩ : ∃ A x, L = A ++ [x] :=
    ⟨L.dropLast, L.getLast hne, (List.dropLast_concat_getLast hne).symm⟩
  have hA : A.length % 2 = 0 := by
    simp at h
    omega
  refine ⟨A, x, rfl, hA, ?_⟩
  rw [padOdd, if_pos h]
  simp

section Injective

variable (hinj : ∀ a b c d, hash64 a b = hash64 c d → a = c ∧ b = d)
include hinj

omit [DecidableEq δ] in
/-- Under an injective compression, equal compressions of two even levels
come from equal levels. -/
theorem eq_of_sha256D64_eq :
    ∀ {A B : List δ}, A.length % 2 = 0 → B.length % 2 = 0 →
      sha256D64 hash64 A = sha256D64 hash64 B → A = B
  | [], [], _, _, _ => rfl
  | [], _ :: _ :: _, _, _, h => by simp [sha256D64] at h
  | _ :: _ :: _, [], _, _, h => by simp [sha256D64] at h
  | a :: b :: A, c :: d :: B, hA, hB, h => by
      simp only [sha256D64, List.cons.injEq] at h
      obtain ⟨hab, hrest⟩ := h
      obtain ⟨rfl, rfl⟩ := hinj a b c d hab
      have hA' : A.length % 2 = 0 := by simp at hA; omega
      have hB' : B.length % 2 = 0 := by simp at hB; omega
      rw [eq_of_sha256D64_eq hA' hB' hrest]
  | [_], _, hA, _, _ => by simp at hA
  | _, [_], _, hB, _ => by simp at hB

/-- **One level undone.**  Two lists with the same next level are equal, or
one of them is the other with its last digest repeated, and that one is
flagged. -/
theorem eq_of_merkleLevel_eq {L₁ L₂ : List δ}
    (h : merkleLevel null hash64 L₁ = merkleLevel null hash64 L₂) :
    L₁ = L₂ ∨ mutationAt L₁ = true ∨ mutationAt L₂ = true := by
  have hlen : (L₁.length + 1) / 2 = (L₂.length + 1) / 2 := by
    rw [← length_merkleLevel null hash64, ← length_merkleLevel null hash64, h]
  have hpad := eq_of_sha256D64_eq hinj (A := padOdd null L₁) (B := padOdd null L₂)
  have h' : sha256D64 hash64 (padOdd null L₁) = sha256D64 hash64 (padOdd null L₂) := h
  rcases Nat.mod_two_eq_zero_or_one L₁.length with h₁ | h₁ <;>
    rcases Nat.mod_two_eq_zero_or_one L₂.length with h₂ | h₂
  · -- both even: the levels were not padded
    left
    have e₁ : padOdd null L₁ = L₁ := by simp [padOdd, h₁]
    have e₂ : padOdd null L₂ = L₂ := by simp [padOdd, h₂]
    rw [e₁, e₂] at hpad h'
    exact hpad h₁ h₂ h'
  · -- `L₂` odd and one shorter: the padded `L₂` is `L₁`, whose last pair is a repeat
    obtain ⟨A, x, rfl, hA, e₂⟩ := padOdd_of_odd null h₂
    have e₁ : padOdd null L₁ = L₁ := by simp [padOdd, h₁]
    rw [e₁, e₂] at hpad h'
    have hL₁ := hpad h₁ (by simp; omega) h'
    exact Or.inr (Or.inl (by rw [hL₁]; exact mutationAt_append_last A x hA))
  · obtain ⟨A, x, rfl, hA, e₁⟩ := padOdd_of_odd null h₁
    have e₂ : padOdd null L₂ = L₂ := by simp [padOdd, h₂]
    rw [e₁, e₂] at hpad h'
    have hL₂ := hpad (by simp; omega) h₂ h'
    exact Or.inr (Or.inr (by rw [← hL₂]; exact mutationAt_append_last A x hA))
  · -- both odd: padding is undone by dropping the repeat
    left
    obtain ⟨A, x, rfl, hA, e₁⟩ := padOdd_of_odd null h₁
    obtain ⟨B, y, rfl, hB, e₂⟩ := padOdd_of_odd null h₂
    rw [e₁, e₂] at hpad h'
    have hAB := hpad (by simp; omega) (by simp; omega) h'
    have hlenAB : A.length = B.length := by
      have := congrArg List.length hAB
      simp at this
      omega
    obtain ⟨rfl, hxy⟩ := List.append_inj hAB hlenAB
    simp only [List.cons.injEq] at hxy
    rw [hxy.1]

end Injective

/-! ## Levels -/

omit [DecidableEq δ] in
/-- A nonempty list needs `⌈log₂ n⌉` levels; the next level needs one less. -/
theorem clog_length_merkleLevel (null : δ) (hash64 : δ → δ → δ) {hashes : List δ}
    (h : 1 < hashes.length) :
    Nat.clog 2 hashes.length = Nat.clog 2 (merkleLevel null hash64 hashes).length + 1 := by
  have hhalf : (hashes.length + 2 - 1) / 2 = (hashes.length + 1) / 2 := by omega
  rw [length_merkleLevel, Nat.clog_of_one_lt (by decide) h, hhalf]

omit [DecidableEq δ] in
theorem length_eq_one_of_clog_eq_zero {hashes : List δ} (hne : hashes ≠ [])
    (h : Nat.clog 2 hashes.length = 0) : hashes.length = 1 := by
  have hpos : 0 < hashes.length := List.length_pos_iff.mpr hne
  by_contra hne1
  have := Nat.clog_pos (b := 2) (by decide) (show 1 < hashes.length by omega)
  omega

omit [DecidableEq δ] in
theorem merkleLevel_ne_nil (null : δ) (hash64 : δ → δ → δ) {hashes : List δ} (h : 1 < hashes.length) :
    merkleLevel null hash64 hashes ≠ [] := by
  intro hnil
  have := length_merkleLevel null hash64 hashes
  rw [hnil, List.length_nil] at this
  omega

/-- By induction on the number of levels: equal roots at the same depth
come from equal lists, or one of the lists is flagged. -/
theorem eq_or_mutated_of_root_eq (hinj : ∀ a b c d, hash64 a b = hash64 c d → a = c ∧ b = d) :
    ∀ (d : Nat) {L₁ L₂ : List δ}, L₁ ≠ [] → L₂ ≠ [] →
      Nat.clog 2 L₁.length = d → Nat.clog 2 L₂.length = d →
      (computeMerkleRoot null hash64 L₁).1 = (computeMerkleRoot null hash64 L₂).1 →
      L₁ = L₂ ∨ (computeMerkleRoot null hash64 L₁).2 = true ∨ (computeMerkleRoot null hash64 L₂).2 = true := by
  intro d
  induction d with
  | zero =>
      -- no level: single digests, which are their own roots
      intro L₁ L₂ hne₁ hne₂ hd₁ hd₂ hroot
      obtain ⟨a, rfl⟩ := List.length_eq_one_iff.mp (length_eq_one_of_clog_eq_zero hne₁ hd₁)
      obtain ⟨b, rfl⟩ := List.length_eq_one_iff.mp (length_eq_one_of_clog_eq_zero hne₂ hd₂)
      left
      simp [computeMerkleRoot, merkleLoop_of_le] at hroot
      rw [hroot]
  | succ d ih =>
      intro L₁ L₂ hne₁ hne₂ hd₁ hd₂ hroot
      have hlt₁ : 1 < L₁.length := by
        by_contra h
        rw [Nat.clog_of_right_le_one (by omega)] at hd₁
        omega
      have hlt₂ : 1 < L₂.length := by
        by_contra h
        rw [Nat.clog_of_right_le_one (by omega)] at hd₂
        omega
      rw [computeMerkleRoot_of_lt hlt₁, computeMerkleRoot_of_lt hlt₂] at hroot ⊢
      have hnext := ih (merkleLevel_ne_nil null hash64 hlt₁) (merkleLevel_ne_nil null hash64 hlt₂)
        (by rw [clog_length_merkleLevel null hash64 hlt₁] at hd₁; omega)
        (by rw [clog_length_merkleLevel null hash64 hlt₂] at hd₂; omega) hroot
      rcases hnext with hlevel | hm₁ | hm₂
      · rcases eq_of_merkleLevel_eq hinj hlevel with heq | hm₁ | hm₂
        · exact Or.inl heq
        · simp [hm₁]
        · simp [hm₂]
      · simp [hm₁]
      · simp [hm₂]

/-- **Mutation detection is complete within a depth.**  Under an injective
compression, two different nonempty lists that need the same number of
levels and have the same root are told apart: one of them is flagged. -/
theorem computeMerkleRoot_mutation_complete
    (hinj : ∀ a b c d, hash64 a b = hash64 c d → a = c ∧ b = d)
    {L₁ L₂ : List δ} (hne₁ : L₁ ≠ []) (hne₂ : L₂ ≠ []) (hne : L₁ ≠ L₂)
    (hdepth : Nat.clog 2 L₁.length = Nat.clog 2 L₂.length)
    (hroot : (computeMerkleRoot null hash64 L₁).1 = (computeMerkleRoot null hash64 L₂).1) :
    (computeMerkleRoot null hash64 L₁).2 = true ∨ (computeMerkleRoot null hash64 L₂).2 = true := by
  rcases eq_or_mutated_of_root_eq hinj _ hne₁ hne₂ rfl hdepth.symm hroot with heq | hm
  · exact absurd heq hne
  · exact hm

end Merkle

/-! ## At an injective compression

Digests are numbers here and the compression is `Nat.pair`, which is
injective, as no function from pairs of `uint256` to `uint256` can be. -/

theorem natPair_injective : ∀ a b c d : Nat, Nat.pair a b = Nat.pair c d → a = c ∧ b = d :=
  fun _ _ _ _ h => Nat.pair_eq_pair.mp h

/-- Three digests against the same three with the last repeated: the longer
list is flagged. -/
theorem computeMerkleRoot_mutation_complete_pair :
    (computeMerkleRoot 0 Nat.pair [1, 2, 3]).2 = true ∨ (computeMerkleRoot 0 Nat.pair [1, 2, 3, 3]).2 = true :=
  computeMerkleRoot_mutation_complete natPair_injective (by simp) (by simp) (by simp) (by decide)
    (by simp [computeMerkleRoot, merkleLoop, merkleLevel, padOdd, sha256D64, mutationAt])

/-- The empty list and the list holding the null digest are different, both
need no level, both have the null root, and neither is flagged. -/
theorem computeMerkleRoot_empty_collision :
    (∀ a b c d : Nat, Nat.pair a b = Nat.pair c d → a = c ∧ b = d) ∧
      ([] : List Nat) ≠ [0] ∧ Nat.clog 2 ([] : List Nat).length = Nat.clog 2 [0].length ∧
      computeMerkleRoot 0 Nat.pair [] = (0, false) ∧ computeMerkleRoot 0 Nat.pair [0] = (0, false) := by
  refine ⟨natPair_injective, by simp, by decide, ?_, ?_⟩
  · simp [computeMerkleRoot, merkleLoop]
  · simp [computeMerkleRoot, merkleLoop]

end Veribase
