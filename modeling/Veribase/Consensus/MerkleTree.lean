import Veribase.Consensus.Merkle

/-!
# The reference merkle tree of the tests

`merkle_tests.cpp` keeps the older computation, `BlockBuildMerkleTree`, to
check `ComputeMerkleRoot` against.  It appends every level to one vector,
`vMerkleTree`, the leaves first, and reads the current level at the offset
`j`.  Node `i / 2` of the next level hashes the nodes `i` and
`min(i+1, nSize-1)`, so an odd level pairs its last node with itself; the
mutation test looks only at the last pair of a level.

One pass of the inner loop appends exactly `merkleLevel` of the current
level (`buildLevel_eq`): after `k` turns the vector is the level followed by
the first `k` nodes of the next one.  So the vector is the leaves followed by
the levels `ComputeMerkleRoot` computes in place, and the two constructions
have the same root for every list (`buildLevels_root`).

Under an injective compression, distinct nodes give distinct nodes on the
next level (`merkleLevel_nodup`): each next node is the hash of a pair whose
left node sits at an even position, and those are distinct.  Neither mutation
test then fires on a list of distinct leaves.
-/

namespace Veribase

section Reference

variable {δ : Type} [DecidableEq δ] (null : δ) (hash64 : δ → δ → δ)

/-- One turn of the inner loop of `BlockBuildMerkleTree` on the level of
`nSize` nodes at offset `j`: the nodes `i = 2 * p` and `min(i+1, nSize-1)`
hashed and pushed, and `mutated` set on two identical hashes ending the
level. -/
def buildPair (j nSize : Nat) (acc : List δ × Bool) (p : Nat) : List δ × Bool :=
  let (vMerkleTree, mutated) := acc
  let i := 2 * p
  let i2 := min (i + 1) (nSize - 1)
  let mutated := mutated || (i2 == i + 1 && i2 + 1 == nSize &&
    vMerkleTree.getD (j + i) null == vMerkleTree.getD (j + i2) null)
  (vMerkleTree ++ [hash64 (vMerkleTree.getD (j + i) null) (vMerkleTree.getD (j + i2) null)],
    mutated)

/-- The inner loop, `for (int i = 0; i < nSize; i += 2)`. -/
def buildLevel (j nSize : Nat) (acc : List δ × Bool) : List δ × Bool :=
  (List.range ((nSize + 1) / 2)).foldl (buildPair null hash64 j nSize) acc

/-- The outer loop, `for (int nSize = vtx.size(); nSize > 1; nSize = (nSize + 1) / 2)`,
with `j` moved past each level. -/
def buildLevels (j nSize : Nat) (acc : List δ × Bool) : List δ × Bool :=
  if 1 < nSize then buildLevels (j + nSize) ((nSize + 1) / 2) (buildLevel null hash64 j nSize acc)
  else acc
termination_by nSize
decreasing_by omega

/-- `BlockBuildMerkleTree(block, &fMutated, vMerkleTree)` on the hashes of
the block's transactions: the root, `fMutated` and the vector. -/
def blockBuildMerkleTree (hashes : List δ) : δ × Bool × List δ :=
  let (vMerkleTree, mutated) := buildLevels null hash64 0 hashes.length (hashes, false)
  (if vMerkleTree.isEmpty then null else vMerkleTree.getLastD null, mutated, vMerkleTree)

/-- What the mutation test of `BlockBuildMerkleTree` finds on a level: an
even number of nodes whose last two are identical. -/
def endsInPair (L : List δ) : Bool :=
  L.length % 2 == 0 && 2 ≤ L.length && L.getD (L.length - 2) null == L.getD (L.length - 1) null

end Reference

section Reference

variable {δ : Type} [DecidableEq δ] {null : δ} {hash64 : δ → δ → δ}

/-! ## One level -/

omit [DecidableEq δ] in
/-- The vector read at the offset of the current level is the level. -/
theorem getD_level (pre L T : List δ) {i : Nat} (hi : i < L.length) :
    (pre ++ L ++ T).getD (pre.length + i) null = L.getD i null := by
  rw [List.append_assoc, List.getD_append_right _ _ _ _ (by omega), Nat.add_sub_cancel_left,
    List.getD_append _ _ _ _ hi]

theorem endsInPair_of_odd {L : List δ} (h : L.length % 2 = 1) : endsInPair null L = false := by
  simp [endsInPair, h]

/-- On a level of `2k + 2` nodes, the test compares the nodes `2k` and
`2k + 1`. -/
theorem endsInPair_of_length {L : List δ} {k : Nat} (h : L.length = 2 * k + 2) :
    endsInPair null L = (L.getD (2 * k) null == L.getD (2 * k + 1) null) := by
  have hsize : (L.length % 2 == 0 && decide (2 ≤ L.length)) = true := by
    rw [h]
    simp
  unfold endsInPair
  rw [hsize, Bool.true_and, h, show 2 * k + 2 - 2 = 2 * k by omega,
    show 2 * k + 2 - 1 = 2 * k + 1 by omega]

/-- A turn of the inner loop pushes the next node of `merkleLevel`, and
flags the level when it reads its last pair and finds it identical. -/
theorem buildPair_eq (pre L : List δ) (m : Bool) {k : Nat} (hk : k < (L.length + 1) / 2) :
    buildPair null hash64 pre.length L.length
        (pre ++ L ++ (merkleLevel null hash64 L).take k, m) k =
      (pre ++ L ++ (merkleLevel null hash64 L).take (k + 1),
        m || (L.length = 2 * k + 2 && L.getD (2 * k) null == L.getD (2 * k + 1) null)) := by
  have hleft : 2 * k < L.length := by omega
  -- the right node is the next one, or the last node again on an odd level
  have hright : min (2 * k + 1) (L.length - 1) < L.length := by omega
  have hnode : hash64 (L.getD (2 * k) null) (L.getD (min (2 * k + 1) (L.length - 1)) null) =
      (merkleLevel null hash64 L).getD k null := by
    rw [getD_merkleLevel null hash64 L (by omega), Nat.mul_comm k 2]
    split
    · rw [show min (2 * k + 1) (L.length - 1) = 2 * k + 1 by omega]
    · rw [show min (2 * k + 1) (L.length - 1) = 2 * k by omega]
  have htake : (merkleLevel null hash64 L).take (k + 1) =
      (merkleLevel null hash64 L).take k ++ [(merkleLevel null hash64 L).getD k null] := by
    have hlen : k < (merkleLevel null hash64 L).length := by
      rw [length_merkleLevel]
      exact hk
    rw [List.take_add_one, List.getElem?_eq_getElem hlen, List.getD_eq_getElem _ _ hlen]
    rfl
  unfold buildPair
  dsimp only
  rw [getD_level pre L _ hleft, getD_level pre L _ hright, hnode, htake, List.append_assoc]
  congr 1
  -- the flag: only the pair `2k`, `2k+1` ending an even level is tested
  by_cases hend : L.length = 2 * k + 2
  · rw [show min (2 * k + 1) (L.length - 1) = 2 * k + 1 by omega]
    simp [hend]
  · have hpair : (min (2 * k + 1) (L.length - 1) == 2 * k + 1 &&
        min (2 * k + 1) (L.length - 1) + 1 == L.length) = false := by
      by_cases h : 2 * k + 1 < L.length - 1 <;> simp <;> omega
    simp [hpair, hend]

/-- After `k` turns of the inner loop, the vector is the level followed by
the first `k` nodes of the next one. -/
theorem foldl_buildPair (pre L : List δ) (m : Bool) :
    ∀ k, k ≤ (L.length + 1) / 2 →
      (List.range k).foldl (buildPair null hash64 pre.length L.length) (pre ++ L, m) =
        (pre ++ L ++ (merkleLevel null hash64 L).take k,
          m || (L.length ≤ 2 * k && endsInPair null L))
  | 0, _ => by
    cases L <;> simp [endsInPair]
  | k + 1, hk => by
    rw [List.range_succ, List.foldl_append, foldl_buildPair pre L m k (by omega), List.foldl_cons,
      List.foldl_nil, buildPair_eq pre L _ (by omega)]
    congr 1
    -- the last pair is read at the turn `k` with `L.length = 2k + 2`, and no other
    rcases (by omega : L.length ≤ 2 * k ∨ L.length = 2 * k + 1 ∨ L.length = 2 * k + 2 ∨
      2 * k + 2 < L.length) with hle | hodd | hend | hgt
    · rw [decide_eq_true hle, decide_eq_true (show L.length ≤ 2 * (k + 1) by omega),
        decide_eq_false (show L.length ≠ 2 * k + 2 by omega)]
      simp only [Bool.true_and, Bool.false_and, Bool.or_false]
    · rw [decide_eq_false (show ¬L.length ≤ 2 * k by omega),
        decide_eq_false (show L.length ≠ 2 * k + 2 by omega), endsInPair_of_odd (by omega)]
      simp only [Bool.false_and, Bool.and_false, Bool.or_false]
    · rw [decide_eq_false (show ¬L.length ≤ 2 * k by omega),
        decide_eq_true (show L.length ≤ 2 * (k + 1) by omega), decide_eq_true hend,
        endsInPair_of_length hend]
      simp only [Bool.true_and, Bool.false_and, Bool.or_false]
    · rw [decide_eq_false (show ¬L.length ≤ 2 * k by omega),
        decide_eq_false (show ¬L.length ≤ 2 * (k + 1) by omega),
        decide_eq_false (show L.length ≠ 2 * k + 2 by omega)]
      simp only [Bool.false_and, Bool.or_false]

/-- **The inner loop appends the next level.**  Run on a vector that ends in
the level, it appends `merkleLevel` of the level, and flags the level when
it ends in an identical pair. -/
theorem buildLevel_eq (pre L : List δ) (m : Bool) :
    buildLevel null hash64 pre.length L.length (pre ++ L, m) =
      (pre ++ L ++ merkleLevel null hash64 L, m || endsInPair null L) := by
  unfold buildLevel
  rw [foldl_buildPair pre L m _ le_rfl,
    List.take_of_length_le (by rw [length_merkleLevel])]
  congr 1
  by_cases h : L.length ≤ 2 * ((L.length + 1) / 2)
  · simp [h]
  · omega

/-! ## The levels -/

/-- **The reference vector ends in the root.**  From a vector ending in a
nonempty level, the outer loop leaves a vector whose last node is the root
`ComputeMerkleRoot` computes from that level. -/
theorem buildLevels_root (pre L : List δ) (m : Bool) (hne : L ≠ []) :
    ((buildLevels null hash64 pre.length L.length (pre ++ L, m)).1).getLastD null =
      (merkleLoop null hash64 L false).1 := by
  by_cases h : 1 < L.length
  · -- one level up: the vector now ends in the next level
    rw [buildLevels, if_pos h, buildLevel_eq, merkleLoop_of_lt false h, merkleLoop_flag,
      ← List.length_append, ← length_merkleLevel null hash64 L]
    exact buildLevels_root (pre ++ L) (merkleLevel null hash64 L) _ (merkleLevel_ne_nil null hash64 h)
  · obtain ⟨a, rfl⟩ : ∃ a, L = [a] := List.length_eq_one_iff.mp (by
      have := List.length_pos_iff.mpr hne
      omega)
    rw [buildLevels, if_neg h, merkleLoop_of_le false (by simp)]
    simp
termination_by L.length
decreasing_by rw [length_merkleLevel]; omega

/-! ## Distinct leaves -/

section Injective

variable (hinj : ∀ a b c d, hash64 a b = hash64 c d → a = c ∧ b = d)
include hinj

omit [DecidableEq δ] hinj in
/-- A node of a compressed level is the hash of a node of the level that is
not its last. -/
theorem exists_of_mem_sha256D64 :
    ∀ {l : List δ} {x : δ}, x ∈ sha256D64 hash64 l → ∃ a b, x = hash64 a b ∧ a ∈ l.dropLast
  | [], _, h => by simp [sha256D64] at h
  | [_], _, h => by simp [sha256D64] at h
  | a :: b :: rest, x, h => by
    rw [sha256D64, List.mem_cons] at h
    rcases h with rfl | h
    · exact ⟨a, b, rfl, by simp⟩
    · obtain ⟨c, d, rfl, hc⟩ := exists_of_mem_sha256D64 h
      have hrest : rest ≠ [] := by
        rintro rfl
        simp at hc
      refine ⟨c, d, rfl, ?_⟩
      rw [List.dropLast_cons_cons, List.dropLast_cons_of_ne_nil hrest]
      exact List.mem_cons_of_mem _ (List.mem_cons_of_mem _ hc)

omit [DecidableEq δ] in
/-- Compressing a level whose nodes before the last are distinct gives
distinct nodes: their left children differ. -/
theorem nodup_sha256D64 : ∀ {l : List δ}, l.dropLast.Nodup → (sha256D64 hash64 l).Nodup
  | [], _ => by simp [sha256D64]
  | [_], _ => by simp [sha256D64]
  | [a, b], _ => by simp [sha256D64]
  | a :: b :: c :: rest, hl => by
    rw [List.dropLast_cons_cons, List.dropLast_cons_cons, List.nodup_cons, List.nodup_cons] at hl
    obtain ⟨ha, -, hrest⟩ := hl
    rw [sha256D64, List.nodup_cons]
    refine ⟨fun hmem => ?_, nodup_sha256D64 hrest⟩
    obtain ⟨a', b', heq, ha'⟩ := exists_of_mem_sha256D64 hmem
    rw [(hinj a b a' b' heq).1] at ha
    exact ha (List.mem_cons_of_mem _ ha')

omit [DecidableEq δ] in
/-- **Distinct nodes stay distinct one level up.** -/
theorem merkleLevel_nodup {L : List δ} (hL : L.Nodup) : (merkleLevel null hash64 L).Nodup := by
  apply nodup_sha256D64 hinj
  unfold padOdd
  split
  · rw [List.dropLast_concat]
    exact hL
  · exact hL.sublist (List.dropLast_sublist L)

omit hinj in
/-- `ComputeMerkleRoot`'s test finds no identical pair on a level of
distinct nodes. -/
theorem mutationAt_of_nodup : ∀ {L : List δ}, L.Nodup → mutationAt L = false
  | [], _ => rfl
  | [_], _ => rfl
  | a :: b :: rest, hL => by
    rw [List.nodup_cons, List.nodup_cons] at hL
    have hab : a ≠ b := fun h => hL.1 (h ▸ List.mem_cons_self)
    simp [mutationAt, hab, mutationAt_of_nodup hL.2.2]

omit hinj in
theorem endsInPair_of_nodup {L : List δ} (hL : L.Nodup) : endsInPair null L = false := by
  unfold endsInPair
  by_cases h : 2 ≤ L.length
  · have hne : (L.getD (L.length - 2) null == L.getD (L.length - 1) null) = false := by
      rw [beq_eq_false_iff_ne, List.getD_eq_getElem _ _ (by omega),
        List.getD_eq_getElem _ _ (by omega)]
      exact fun heq => absurd ((List.Nodup.getElem_inj_iff hL).mp heq) (by omega)
    rw [hne, Bool.and_false]
  · simp [h]

/-- `ComputeMerkleRoot` flags no list of distinct leaves. -/
theorem merkleLoop_of_nodup (L : List δ) (m : Bool) (hL : L.Nodup) :
    (merkleLoop null hash64 L m).2 = m := by
  by_cases h : 1 < L.length
  · rw [merkleLoop_of_lt m h, mutationAt_of_nodup hL, Bool.or_false]
    exact merkleLoop_of_nodup _ m (merkleLevel_nodup hinj hL)
  · rw [merkleLoop_of_le m (by omega)]
termination_by L.length
decreasing_by rw [length_merkleLevel]; omega

/-- `BlockBuildMerkleTree` flags no list of distinct leaves. -/
theorem buildLevels_of_nodup (pre L : List δ) (m : Bool) (hL : L.Nodup) :
    (buildLevels null hash64 pre.length L.length (pre ++ L, m)).2 = m := by
  by_cases h : 1 < L.length
  · rw [buildLevels, if_pos h, buildLevel_eq, endsInPair_of_nodup hL, Bool.or_false,
      ← List.length_append, ← length_merkleLevel null hash64 L]
    exact buildLevels_of_nodup (pre ++ L) _ m (merkleLevel_nodup hinj hL)
  · rw [buildLevels, if_neg h]
termination_by L.length
decreasing_by rw [length_merkleLevel]; omega

end Injective

/-- **The in-place computation is the reference tree.**  `ComputeMerkleRoot`
and the tests' `BlockBuildMerkleTree` give the same root for every list of
leaves, the null digest for the empty list; and under an injective
compression neither flags a list of distinct leaves. -/
theorem computeMerkleRoot_eq_reference (hashes : List δ) :
    (computeMerkleRoot null hash64 hashes).1 = (blockBuildMerkleTree null hash64 hashes).1 ∧
      (computeMerkleRoot null hash64 []).1 = null ∧ (blockBuildMerkleTree null hash64 []).1 = null ∧
      ((∀ a b c d, hash64 a b = hash64 c d → a = c ∧ b = d) → hashes.Nodup →
        (computeMerkleRoot null hash64 hashes).2 = false ∧
          (blockBuildMerkleTree null hash64 hashes).2.1 = false) := by
  refine ⟨?_, by simp [computeMerkleRoot, merkleLoop_of_le],
    by simp [blockBuildMerkleTree, buildLevels], fun hinj hnodup => ⟨?_, ?_⟩⟩
  · cases hashes with
    | nil => simp [computeMerkleRoot, merkleLoop_of_le, blockBuildMerkleTree, buildLevels]
    | cons a rest =>
      have hroot := @buildLevels_root _ _ null hash64 [] (a :: rest) false (List.cons_ne_nil a rest)
      rw [List.nil_append, List.length_nil] at hroot
      unfold blockBuildMerkleTree computeMerkleRoot
      rcases hv : buildLevels null hash64 0 (a :: rest).length (a :: rest, false) with ⟨v, m⟩
      rw [hv] at hroot
      dsimp only at hroot ⊢
      -- `vMerkleTree.back()`, and the null digest of an empty vector, are both `getLastD`
      cases v with
      | nil => simpa using hroot.symm
      | cons b v => simpa using hroot.symm
  · exact merkleLoop_of_nodup hinj hashes false hnodup
  · have := @buildLevels_of_nodup _ _ null _ hinj [] hashes false hnodup
    rw [List.nil_append, List.length_nil] at this
    unfold blockBuildMerkleTree
    exact this

theorem computeMerkleRoot_eq_reference_pair :
    (computeMerkleRoot 0 Nat.pair [1, 2, 3]).1 = (blockBuildMerkleTree 0 Nat.pair [1, 2, 3]).1 ∧
      (computeMerkleRoot 0 Nat.pair [1, 2, 3]).2 = false ∧
      (blockBuildMerkleTree 0 Nat.pair [1, 2, 3]).2.1 = false :=
  ⟨(computeMerkleRoot_eq_reference [1, 2, 3]).1,
    ((computeMerkleRoot_eq_reference [1, 2, 3]).2.2.2 natPair_injective (by decide)).1,
    ((computeMerkleRoot_eq_reference [1, 2, 3]).2.2.2 natPair_injective (by decide)).2⟩

end Reference

end Veribase
