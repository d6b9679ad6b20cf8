import Mathlib

/-!
# `prevector`

`prevector<N, T>` (`prevector.h`) is the vector of `CScript`: up to `N`
elements live inline in the object, more on the heap.  One field, `_size`,
holds both the size and the tag: a size up to `N` means the inline slots are
in use; on the heap `_size` is the size plus `N + 1`, and the union holds the
block and its capacity.  `Size` is `uint32_t` and `Diff` is `int32_t`, and
every count of the source goes through them.

The union overlaps its two sides in memory; here each side is a field, and
`_size` says which one `item_ptr` reads.  A block is a list of slots, one
per element it has room for.  `malloc` and `realloc` fill new slots with
`default`, which stands for an uninitialized element; `T{}` is `default`
too.  A pointer into the object is an offset into the block in use when it
was taken, so a write through it goes to that block.

The operations are those `prevector_tester` compares with `std::vector`
(`List`), with iterators as offsets from `begin()`.  The refinement
(`tester_refines`) holds while sizes stay below a bound `M` with
`M < 2^31` and `M + N + 1 < 2^32`: beyond it the 32-bit `_size` wraps
(`assign_overflow`).
-/

namespace Veribase

/-! ## Slots -/

section Slots

variable {α : Type}

/-- `values` written over the slots of `buf` from `dst` on: `std::fill_n`,
the copying `fill`, and a placement `new`. -/
def writeAt (buf : List α) (dst : Nat) (values : List α) : List α :=
  buf.take dst ++ values ++ buf.drop (dst + values.length)

/-- `memmove(dst, src, n)` inside one block. -/
def moveWithin (buf : List α) (dst src n : Nat) : List α :=
  writeAt buf dst ((buf.drop src).take n)

/-- A block `realloc`ed to `n` slots: the first slots kept, the new ones
uninitialized. -/
def resizeBlock [Inhabited α] (buf : List α) (n : Nat) : List α :=
  (buf ++ List.replicate (n - buf.length) default).take n

theorem length_writeAt {buf : List α} {dst : Nat} {values : List α} (h : dst + values.length ≤ buf.length) :
    (writeAt buf dst values).length = buf.length := by
  simp only [writeAt, List.length_append, List.length_take, List.length_drop]
  omega

theorem length_moveWithin {buf : List α} {dst src n : Nat} (h : dst + n ≤ buf.length) :
    (moveWithin buf dst src n).length = buf.length :=
  length_writeAt (by simp only [List.length_take, List.length_drop]; omega)

theorem length_resizeBlock [Inhabited α] (buf : List α) (n : Nat) : (resizeBlock buf n).length = n := by
  simp only [resizeBlock, List.length_take, List.length_append, List.length_replicate]
  omega

theorem take_writeAt_zero (buf values : List α) : (writeAt buf 0 values).take values.length = values := by
  simp [writeAt]

theorem take_resizeBlock [Inhabited α] {buf : List α} {k n : Nat} (hk : k ≤ buf.length) (hn : k ≤ n) :
    (resizeBlock buf n).take k = buf.take k := by
  rw [resizeBlock, List.take_take, Nat.min_eq_left hn, List.take_append_of_le_length hk]

/-- The slots before a write are kept. -/
theorem take_writeAt_of_le {buf : List α} {dst n : Nat} (values : List α) (hn : n ≤ dst) (h : dst ≤ buf.length) :
    (writeAt buf dst values).take n = buf.take n := by
  have hfirst : n ≤ (buf.take dst).length := by
    rw [List.length_take]
    omega
  rw [writeAt, List.append_assoc, List.take_append_of_le_length hfirst, List.take_take, Nat.min_eq_left hn]

/-- Past the end of a write the old slots follow. -/
theorem take_writeAt_add {buf : List α} {dst : Nat} (values : List α) (h : dst ≤ buf.length) (m : Nat) :
    (writeAt buf dst values).take (dst + values.length + m) =
      buf.take dst ++ values ++ (buf.drop (dst + values.length)).take m := by
  have hlen : (buf.take dst ++ values).length = dst + values.length := by
    simp only [List.length_append, List.length_take]
    omega
  rw [writeAt, List.take_append, List.take_of_length_le (by omega), hlen, Nat.add_sub_cancel_left]

/-- Up to the end of a write: the slots before it, then the values. -/
theorem take_writeAt_end {buf : List α} {dst : Nat} (values : List α) (h : dst ≤ buf.length) :
    (writeAt buf dst values).take (dst + values.length) = buf.take dst ++ values := by
  simpa using take_writeAt_add values h 0

theorem drop_writeAt {buf : List α} {dst : Nat} (values : List α) (h : dst ≤ buf.length) :
    (writeAt buf dst values).drop dst = values ++ buf.drop (dst + values.length) := by
  have hlen : (buf.take dst).length = dst := by
    rw [List.length_take]
    omega
  rw [writeAt, List.append_assoc, List.drop_left' hlen]

/-- One value written in the slots is `List.set`. -/
theorem writeAt_singleton {buf : List α} {pos : Nat} (x : α) (h : pos < buf.length) :
    writeAt buf pos [x] = buf.set pos x := by
  rw [writeAt, List.set_eq_take_append_cons_drop, if_pos h]
  simp

/-- What the move of `erase` leaves below the new end: the slots before
`first`, then those from `last` to the old end `n`. -/
theorem take_moveWithin_erase {buf : List α} {first last n : Nat} (h₁ : first ≤ last) (h₂ : last ≤ n)
    (h₃ : n ≤ buf.length) :
    (moveWithin buf first last (n - last)).take (n - (last - first)) =
      (buf.take n).take first ++ (buf.take n).drop last := by
  have hseg : ((buf.drop last).take (n - last)).length = n - last := by
    simp only [List.length_take, List.length_drop]
    omega
  have hend : n - (last - first) = first + ((buf.drop last).take (n - last)).length := by
    rw [hseg]
    omega
  rw [moveWithin, hend, take_writeAt_end _ (by omega), List.take_take, Nat.min_eq_left (by omega), List.drop_take]

/-- The move and the write of an insertion stay within the block. -/
theorem length_insertAt {buf : List α} {pos n : Nat} (values : List α) (h₁ : pos ≤ n)
    (h₂ : n + values.length ≤ buf.length) :
    (writeAt (moveWithin buf (pos + values.length) pos (n - pos)) pos values).length = buf.length := by
  rw [length_writeAt (by rw [length_moveWithin (by omega)]; omega), length_moveWithin (by omega)]

/-- What the move and the write of an insertion leave below the new end: the
slots before `pos`, the values, then those from `pos` to the old end. -/
theorem take_moveWithin_insert {buf : List α} {pos n : Nat} (values : List α) (h₁ : pos ≤ n)
    (h₂ : n + values.length ≤ buf.length) :
    (writeAt (moveWithin buf (pos + values.length) pos (n - pos)) pos values).take (n + values.length) =
      (buf.take n).take pos ++ values ++ (buf.take n).drop pos := by
  -- the tail, read before the move
  have hseg : ((buf.drop pos).take (n - pos)).length = n - pos := by
    simp only [List.length_take, List.length_drop]
    omega
  have hmoved : (moveWithin buf (pos + values.length) pos (n - pos)).drop (pos + values.length) =
      (buf.drop pos).take (n - pos) ++ buf.drop (pos + values.length + (n - pos)) := by
    rw [moveWithin, drop_writeAt _ (by omega), hseg]
  have hlen : pos ≤ (moveWithin buf (pos + values.length) pos (n - pos)).length := by
    rw [length_moveWithin (by omega)]
    omega
  rw [show n + values.length = pos + values.length + (n - pos) by omega, take_writeAt_add _ hlen, hmoved,
    List.take_left' hseg, moveWithin, take_writeAt_of_le _ (by omega) (by omega), List.take_take,
    Nat.min_eq_left h₁, List.drop_take]

end Slots

/-! ## The object -/

/-- `direct_or_indirect`: the inline slots, or the heap block and its
capacity. -/
structure DirectOrIndirect (T : Type) where
  /-- `direct`: the `N` inline slots. -/
  direct : List T
  /-- `indirect`: the heap block. -/
  indirect : List T
  /-- `capacity`: the slots of the heap block. -/
  capacity : UInt32

/-- `prevector<N, T>` with `Size = uint32_t`. -/
structure prevector (N : Nat) (T : Type) where
  _union : DirectOrIndirect T
  /-- `_size`: the size, plus `N + 1` when the elements are on the heap. -/
  _size : UInt32

namespace prevector

variable {N : Nat} {T : Type}

/-- `is_direct()`: `_size <= N`. -/
def is_direct (p : prevector N T) : Bool := p._size.toNat ≤ N

/-- `size()`. -/
def size (p : prevector N T) : UInt32 := if p.is_direct then p._size else p._size - N.toUInt32 - 1

/-- `empty()`. -/
def empty (p : prevector N T) : Bool := p.size == 0

/-- `capacity()`, a `size_t`. -/
def capacity (p : prevector N T) : Nat := if p.is_direct then N else p._union.capacity.toNat

/-- The slots `item_ptr` points into. -/
def items (p : prevector N T) : List T := if p.is_direct then p._union.direct else p._union.indirect

/-- A write through `item_ptr`: to the slots in use. -/
def setItems (p : prevector N T) (f : List T → List T) : prevector N T :=
  if p.is_direct then { p with _union := { p._union with direct := f p._union.direct } }
  else { p with _union := { p._union with indirect := f p._union.indirect } }

/-- The elements, `begin()` to `end()`. -/
def toList (p : prevector N T) : List T := p.items.take p.size.toNat

/-- `fill(item_ptr(dst), …)`: `values` written from slot `dst`. -/
def fill (p : prevector N T) (dst : Nat) (values : List T) : prevector N T :=
  p.setItems (writeAt · dst values)

/-- `_size += n`. -/
def addSize (p : prevector N T) (n : UInt32) : prevector N T := { p with _size := p._size + n }

/-- `_size -= n`. -/
def subSize (p : prevector N T) (n : UInt32) : prevector N T := { p with _size := p._size - n }

variable [Inhabited T]

/-- `prevector()`: `_union = {}` and `_size = 0`. -/
def init : prevector N T := ⟨⟨List.replicate N default, [], 0⟩, 0⟩

/-- `change_capacity(new_capacity)`: to the inline slots when the new
capacity fits them, else to a heap block of exactly that capacity. -/
def change_capacity (p : prevector N T) (new_capacity : UInt32) : prevector N T :=
  if new_capacity.toNat ≤ N then
    if !p.is_direct then
      -- the elements back inline, and the block freed
      { _union := { p._union with direct := writeAt p._union.direct 0 (p._union.indirect.take p.size.toNat) }
        _size := p._size - (N.toUInt32 + 1) }
    else p
  else if !p.is_direct then
    -- `realloc`
    { p with
      _union := { p._union with
        indirect := resizeBlock p._union.indirect new_capacity.toNat
        capacity := new_capacity } }
  else
    -- `malloc`, and the elements copied over
    let new_indirect := writeAt (List.replicate new_capacity.toNat default) 0 (p._union.direct.take p.size.toNat)
    { _union := { p._union with indirect := new_indirect, capacity := new_capacity }
      _size := p._size + (N.toUInt32 + 1) }

/-- `erase(first, last)`, the iterators as offsets: the tail moves down over
the erased elements.  For a `T` with a destructor `_size` drops one element
at a time, to the same value. -/
def erase (p : prevector N T) (first last : Nat) : prevector N T :=
  let endp := p.size.toNat
  (p.setItems (moveWithin · first last (endp - last))).subSize (last - first).toUInt32

/-- `erase(pos)`. -/
def eraseOne (p : prevector N T) (pos : Nat) : prevector N T := p.erase pos (pos + 1)

/-- `resize(new_size)`: erase down to it, or grow to it with `T{}`. -/
def resize (p : prevector N T) (new_size : UInt32) : prevector N T :=
  let cur_size := p.size
  if cur_size = new_size then p
  else if cur_size > new_size then p.erase new_size.toNat cur_size.toNat
  else
    let p := if new_size.toNat > p.capacity then p.change_capacity new_size else p
    let increase := new_size - cur_size
    (p.fill cur_size.toNat (List.replicate increase.toNat default)).addSize increase

/-- `reserve(new_capacity)`. -/
def reserve (p : prevector N T) (new_capacity : UInt32) : prevector N T :=
  if new_capacity.toNat > p.capacity then p.change_capacity new_capacity else p

/-- `shrink_to_fit()`. -/
def shrink_to_fit (p : prevector N T) : prevector N T := p.change_capacity p.size

/-- `clear()`. -/
def clear (p : prevector N T) : prevector N T := p.resize 0

/-- The growth of the inserting operations: room for `new_size` and half as
much again. -/
def grow (p : prevector N T) (new_size : UInt32) : prevector N T :=
  if p.capacity < new_size.toNat then p.change_capacity (new_size + (new_size >>> 1)) else p

/-- `insert(pos, value)`: the tail moves up one slot, and `value` is built at
`ptr`. -/
def insert (p : prevector N T) (pos : Nat) (value : T) : prevector N T :=
  let p := p.grow (p.size + 1)
  (p.setItems fun buf => writeAt (moveWithin buf (pos + 1) pos (p.size.toNat - pos)) pos [value]).addSize 1

/-- `insert(pos, count, value)`: the tail moves up `count` slots; the fill
goes through `item_ptr(p)`, taken after `_size += count`. -/
def insertCount (p : prevector N T) (pos : Nat) (count : UInt32) (value : T) : prevector N T :=
  let p := p.grow (p.size + count)
  let p := (p.setItems (moveWithin · (pos + count.toNat) pos (p.size.toNat - pos))).addSize count
  p.fill pos (List.replicate count.toNat value)

/-- `insert(pos, first, last)`: the count is a `difference_type`; the tail
moves up and the range is copied through `ptr`. -/
def insertRange (p : prevector N T) (pos : Nat) (values : List T) : prevector N T :=
  let count : Int32 := values.length.toInt32
  let p := p.grow (p.size + count.toUInt32)
  (p.setItems fun buf =>
      writeAt (moveWithin buf (pos + count.toNatClampNeg) pos (p.size.toNat - pos)) pos values).addSize
    count.toUInt32

/-- `emplace_back(value)` and `push_back(value)`. -/
def emplace_back (p : prevector N T) (value : T) : prevector N T :=
  let p := p.grow (p.size + 1)
  (p.fill p.size.toNat [value]).addSize 1

/-- `pop_back()`: `erase(end() - 1, end())`. -/
def pop_back (p : prevector N T) : prevector N T := p.erase (p.size.toNat - 1) p.size.toNat

/-- `(*this)[pos] = value`. -/
def update (p : prevector N T) (pos : Nat) (value : T) : prevector N T := p.fill pos [value]

/-- `assign(n, val)`. -/
def assign (p : prevector N T) (n : UInt32) (val : T) : prevector N T :=
  let p := p.clear
  let p := if p.capacity < n.toNat then p.change_capacity n else p
  (p.addSize n).fill 0 (List.replicate n.toNat val)

/-- `assign(first, last)`. -/
def assignRange (p : prevector N T) (values : List T) : prevector N T :=
  let n := values.length.toUInt32
  let p := p.clear
  let p := if p.capacity < n.toNat then p.change_capacity n else p
  (p.addSize n).fill 0 values

/-- `prevector(first, last)`, and the copy constructor from the other's
range. -/
def ofRange (values : List T) : prevector N T :=
  let n := values.length.toUInt32
  ((init.change_capacity n).addSize n).fill 0 values

/-- `prevector(n)`. -/
def ofCount (n : UInt32) : prevector N T := init.resize n

/-- `prevector(n, val)`. -/
def ofCountValue (n : UInt32) (val : T) : prevector N T :=
  ((init.change_capacity n).addSize n).fill 0 (List.replicate n.toNat val)

/-- `prevector(const prevector& other)`. -/
def copy (other : prevector N T) : prevector N T :=
  let n := other.size
  ((init.change_capacity n).addSize n).fill 0 other.toList

/-- `swap(other)`: the unions and the sizes exchanged. -/
def swap (p other : prevector N T) : prevector N T × prevector N T := (other, p)

/-- `resize_uninitialized(new_size)`: the new slots keep what they held. -/
def resize_uninitialized (p : prevector N T) (new_size : UInt32) : prevector N T :=
  if p.capacity < new_size.toNat then
    let p := p.change_capacity new_size
    p.addSize (new_size - p.size)
  else if new_size < p.size then p.erase new_size.toNat p.size.toNat
  else p.addSize (new_size - p.size)

end prevector

namespace prevector

/-! ## The representation invariant -/

section Inv

variable {N : Nat} {T : Type}

/-- The representation: `N` inline slots; on the heap a block of
`capacity > N` slots, with `_size` the size plus `N + 1` and the size within
the block. -/
structure Inv (p : prevector N T) : Prop where
  /-- The inline slots. -/
  direct_length : p._union.direct.length = N
  /-- A heap block is larger than the inline slots. -/
  heap_capacity : p.is_direct = false → N < p._union.capacity.toNat
  /-- The heap block has `capacity` slots. -/
  heap_length : p.is_direct = false → p._union.indirect.length = p._union.capacity.toNat
  /-- The elements fit the heap block. -/
  heap_size : p.is_direct = false → p._size.toNat ≤ p._union.capacity.toNat + N + 1

theorem is_direct_iff {p : prevector N T} : p.is_direct = true ↔ p._size.toNat ≤ N := by
  simp [is_direct]

theorem lt_size_of_heap {p : prevector N T} (h : p.is_direct = false) : N < p._size.toNat := by
  simpa [is_direct] using h

theorem size_of_direct {p : prevector N T} (h : p.is_direct = true) : p.size = p._size := by
  simp [size, h]

theorem capacity_of_direct {p : prevector N T} (h : p.is_direct = true) : p.capacity = N := by
  simp [capacity, h]

theorem items_of_direct {p : prevector N T} (h : p.is_direct = true) : p.items = p._union.direct := by
  simp [items, h]

theorem capacity_of_heap {p : prevector N T} (h : p.is_direct = false) :
    p.capacity = p._union.capacity.toNat := by
  simp [capacity, h]

theorem items_of_heap {p : prevector N T} (h : p.is_direct = false) : p.items = p._union.indirect := by
  simp [items, h]

/-- On the heap the size is `_size - N - 1`, without wrapping. -/
theorem toNat_size_of_heap (hN : N + 1 < 2 ^ 32) {p : prevector N T} (h : p.is_direct = false) :
    p.size.toNat = p._size.toNat - (N + 1) := by
  have hgt := lt_size_of_heap h
  have hN' : N.toUInt32.toNat = N := by simp; omega
  rw [size, h, if_neg Bool.false_ne_true, UInt32.toNat_sub_of_le, UInt32.toNat_sub_of_le, hN', UInt32.toNat_one]
  · omega
  · rw [UInt32.le_iff_toNat_le, hN']
    omega
  · rw [UInt32.le_iff_toNat_le, UInt32.toNat_sub_of_le _ _ (by rw [UInt32.le_iff_toNat_le, hN']; omega), hN',
      UInt32.toNat_one]
    omega

theorem Inv.items_length {p : prevector N T} (hp : Inv p) : p.items.length = p.capacity := by
  cases h : p.is_direct
  · rw [items_of_heap h, capacity_of_heap h, hp.heap_length h]
  · rw [items_of_direct h, capacity_of_direct h, hp.direct_length]

theorem Inv.size_le_capacity (hN : N + 1 < 2 ^ 32) {p : prevector N T} (hp : Inv p) :
    p.size.toNat ≤ p.capacity := by
  cases h : p.is_direct
  · rw [toNat_size_of_heap hN h, capacity_of_heap h]
    have := hp.heap_size h
    omega
  · rw [size_of_direct h, capacity_of_direct h]
    exact is_direct_iff.mp h

theorem Inv.length_toList (hN : N + 1 < 2 ^ 32) {p : prevector N T} (hp : Inv p) :
    p.toList.length = p.size.toNat := by
  rw [toList, List.length_take, hp.items_length, Nat.min_eq_left (hp.size_le_capacity hN)]

/-- The storage layout of `prevector.h` (lines 21-31): a
`_size` up to `N` is an inline object whose size is `_size`, of
capacity `N`; above, a heap object whose size is `_size - N - 1`, within
a capacity above `N`. -/
def RepresentationInvariant (p : prevector N T) : Prop :=
  if p._size.toNat ≤ N then p.is_direct = true ∧ p.size = p._size ∧ p.capacity = N
  else p.is_direct = false ∧ p.size.toNat = p._size.toNat - N - 1 ∧ p.size.toNat ≤ p.capacity ∧ N < p.capacity

instance (p : prevector N T) : Decidable (RepresentationInvariant p) :=
  inferInstanceAs (Decidable (if p._size.toNat ≤ N then p.is_direct = true ∧ p.size = p._size ∧ p.capacity = N
    else p.is_direct = false ∧ p.size.toNat = p._size.toNat - N - 1 ∧ p.size.toNat ≤ p.capacity ∧
      N < p.capacity))

theorem Inv.representationInvariant (hN : N + 1 < 2 ^ 32) {p : prevector N T} (hp : Inv p) :
    RepresentationInvariant p := by
  unfold RepresentationInvariant
  split
  · rename_i hs
    have h := is_direct_iff.mpr hs
    exact ⟨h, size_of_direct h, capacity_of_direct h⟩
  · rename_i hs
    have h : p.is_direct = false := by simpa [is_direct] using hs
    refine ⟨h, ?_, hp.size_le_capacity hN, ?_⟩
    · rw [toNat_size_of_heap hN h]
      omega
    · rw [capacity_of_heap h]
      exact hp.heap_capacity h

/-! ### Writes through `item_ptr` -/

@[simp] theorem is_direct_setItems (p : prevector N T) (f : List T → List T) :
    (p.setItems f).is_direct = p.is_direct := by
  unfold setItems
  split <;> rfl

@[simp] theorem size_setItems (p : prevector N T) (f : List T → List T) : (p.setItems f).size = p.size := by
  unfold setItems
  split <;> rfl

@[simp] theorem capacity_setItems (p : prevector N T) (f : List T → List T) :
    (p.setItems f).capacity = p.capacity := by
  unfold setItems
  split <;> rfl

@[simp] theorem items_setItems (p : prevector N T) (f : List T → List T) : (p.setItems f).items = f p.items := by
  unfold setItems items is_direct
  split <;> simp_all

theorem Inv.setItems {p : prevector N T} (hp : Inv p) {f : List T → List T}
    (hf : (f p.items).length = p.items.length) : Inv (p.setItems f) := by
  unfold prevector.setItems
  split
  · rename_i h
    rw [items_of_direct h] at hf
    exact ⟨by rw [hf, hp.direct_length], fun h' => hp.heap_capacity h', fun h' => hp.heap_length h',
      fun h' => hp.heap_size h'⟩
  · rename_i h
    have h' : p.is_direct = false := by simpa using h
    rw [items_of_heap h'] at hf
    exact ⟨hp.direct_length, fun _ => hp.heap_capacity h', fun _ => by rw [hf, hp.heap_length h'],
      fun _ => hp.heap_size h'⟩

@[simp] theorem is_direct_fill (p : prevector N T) (dst : Nat) (values : List T) :
    (p.fill dst values).is_direct = p.is_direct := is_direct_setItems _ _

@[simp] theorem size_fill (p : prevector N T) (dst : Nat) (values : List T) :
    (p.fill dst values).size = p.size := size_setItems _ _

@[simp] theorem capacity_fill (p : prevector N T) (dst : Nat) (values : List T) :
    (p.fill dst values).capacity = p.capacity := capacity_setItems _ _

@[simp] theorem items_fill (p : prevector N T) (dst : Nat) (values : List T) :
    (p.fill dst values).items = writeAt p.items dst values := items_setItems _ _

theorem Inv.fill {p : prevector N T} (hp : Inv p) {dst : Nat} {values : List T}
    (h : dst + values.length ≤ p.capacity) : Inv (p.fill dst values) :=
  hp.setItems (length_writeAt (by rw [hp.items_length]; exact h))

/-- Two writes through `item_ptr` are one. -/
theorem setItems_setItems (p : prevector N T) (f g : List T → List T) :
    (p.setItems f).setItems g = p.setItems (fun buf => g (f buf)) := by
  by_cases hs : p._size.toNat ≤ N <;> simp [setItems, is_direct, hs]

/-! ### `_size` and `change_capacity` -/

/-- Two objects with one union and one tag use the same slots. -/
theorem items_capacity_congr {p q : prevector N T} (hu : q._union = p._union) (hd : q.is_direct = p.is_direct) :
    q.items = p.items ∧ q.capacity = p.capacity := by
  simp [items, capacity, hu, hd]

theorem items_addSize {p : prevector N T} {k : UInt32} (hd : (p.addSize k).is_direct = p.is_direct) :
    (p.addSize k).items = p.items := (items_capacity_congr (p := p) (q := p.addSize k) rfl hd).1

theorem items_subSize {p : prevector N T} {k : UInt32} (hd : (p.subSize k).is_direct = p.is_direct) :
    (p.subSize k).items = p.items := (items_capacity_congr (p := p) (q := p.subSize k) rfl hd).1

/-- While `_size += k` keeps the representation, a write through
`item_ptr` may come before it or after. -/
theorem addSize_setItems {p : prevector N T} {k : UInt32} (hd : (p.addSize k).is_direct = p.is_direct)
    (f : List T → List T) : (p.addSize k).setItems f = (p.setItems f).addSize k := by
  have hs : ((p.addSize k)._size.toNat ≤ N) = (p._size.toNat ≤ N) := by
    simpa [is_direct] using hd
  by_cases h : p._size.toNat ≤ N <;> simp [setItems, is_direct, hs, h] <;> rfl

/-- `_size += k` within the capacity keeps the representation and adds `k`
to the size. -/
theorem Inv.addSize (hN : N + 1 < 2 ^ 32) {p : prevector N T} (hp : Inv p) {k : UInt32}
    (hk : p.size.toNat + k.toNat ≤ p.capacity) (hbound : p.size.toNat + k.toNat + N + 1 < 2 ^ 32) :
    Inv (p.addSize k) ∧ (p.addSize k).is_direct = p.is_direct ∧
      (p.addSize k).size.toNat = p.size.toNat + k.toNat := by
  have hsum : (p.addSize k)._size.toNat = p._size.toNat + k.toNat := by
    cases h : p.is_direct
    · rw [toNat_size_of_heap hN h] at hbound
      have := lt_size_of_heap h
      rw [show (p.addSize k)._size = p._size + k from rfl, UInt32.toNat_add]
      omega
    · rw [size_of_direct h] at hbound
      rw [show (p.addSize k)._size = p._size + k from rfl, UInt32.toNat_add]
      omega
  cases h : p.is_direct
  · -- on the heap: `_size` stays above `N`
    rw [toNat_size_of_heap hN h, capacity_of_heap h] at hk
    have hd : (p.addSize k).is_direct = false := by
      have := lt_size_of_heap h
      rw [Bool.eq_false_iff, ne_eq, is_direct_iff, hsum]
      omega
    refine ⟨⟨hp.direct_length, fun _ => hp.heap_capacity h, fun _ => hp.heap_length h, fun _ => ?_⟩, hd, ?_⟩
    · show (p.addSize k)._size.toNat ≤ p._union.capacity.toNat + N + 1
      rw [hsum]
      omega
    · rw [toNat_size_of_heap hN hd, hsum, toNat_size_of_heap hN h]
      have := lt_size_of_heap h
      omega
  · -- inline: `_size` stays within `N`
    rw [size_of_direct h, capacity_of_direct h] at hk
    have hd : (p.addSize k).is_direct = true := by
      rw [is_direct_iff, hsum]
      exact hk
    refine ⟨⟨hp.direct_length, fun h' => absurd h' (by simp [hd]), fun h' => absurd h' (by simp [hd]),
      fun h' => absurd h' (by simp [hd])⟩, hd, ?_⟩
    rw [size_of_direct hd, hsum, size_of_direct h]

/-- `_size -= k` within the size keeps the representation and takes `k`
from the size. -/
theorem Inv.subSize (hN : N + 1 < 2 ^ 32) {p : prevector N T} (hp : Inv p) {k : UInt32}
    (hk : k.toNat ≤ p.size.toNat) :
    Inv (p.subSize k) ∧ (p.subSize k).is_direct = p.is_direct ∧
      (p.subSize k).size.toNat = p.size.toNat - k.toNat := by
  cases h : p.is_direct
  · rw [toNat_size_of_heap hN h] at hk
    have hgt := lt_size_of_heap h
    have hdiff : (p.subSize k)._size.toNat = p._size.toNat - k.toNat := by
      rw [show (p.subSize k)._size = p._size - k from rfl, UInt32.toNat_sub_of_le _ _ (UInt32.le_iff_toNat_le.mpr (by omega))]
    have hd : (p.subSize k).is_direct = false := by
      rw [Bool.eq_false_iff, ne_eq, is_direct_iff, hdiff]
      omega
    refine ⟨⟨hp.direct_length, fun _ => hp.heap_capacity h, fun _ => hp.heap_length h, fun _ => ?_⟩, hd, ?_⟩
    · show (p.subSize k)._size.toNat ≤ p._union.capacity.toNat + N + 1
      have := hp.heap_size h
      rw [hdiff]
      omega
    · rw [toNat_size_of_heap hN hd, hdiff, toNat_size_of_heap hN h]
      omega
  · rw [size_of_direct h] at hk
    have hdiff : (p.subSize k)._size.toNat = p._size.toNat - k.toNat := by
      rw [show (p.subSize k)._size = p._size - k from rfl, UInt32.toNat_sub_of_le _ _ (UInt32.le_iff_toNat_le.mpr hk)]
    have hd : (p.subSize k).is_direct = true := by
      rw [is_direct_iff, hdiff]
      have := is_direct_iff.mp h
      omega
    refine ⟨⟨hp.direct_length, fun h' => absurd h' (by simp [hd]), fun h' => absurd h' (by simp [hd]),
      fun h' => absurd h' (by simp [hd])⟩, hd, ?_⟩
    rw [size_of_direct hd, hdiff, size_of_direct h]

variable [Inhabited T]

/-- `change_capacity(c)` for a `c` that holds the elements: the elements and
the size stay, and the capacity becomes `c`, or `N` inline. -/
theorem Inv.change_capacity (hN : N + 1 < 2 ^ 32) {p : prevector N T} (hp : Inv p) {c : UInt32}
    (hc : p.size.toNat ≤ c.toNat) (hbound : p.size.toNat + N + 1 < 2 ^ 32) :
    Inv (p.change_capacity c) ∧ (p.change_capacity c).size = p.size ∧
      (p.change_capacity c).toList = p.toList ∧ (p.change_capacity c).capacity = max N c.toNat := by
  have hsize := hp.size_le_capacity hN
  have hlen := hp.items_length
  unfold prevector.change_capacity
  split
  · rename_i hsmall
    split
    · -- from the heap back inline
      rename_i hheap
      have h : p.is_direct = false := by simpa using hheap
      rw [toNat_size_of_heap hN h] at hc hsize hbound
      rw [capacity_of_heap h] at hsize
      rw [items_of_heap h, capacity_of_heap h] at hlen
      have hgt := lt_size_of_heap h
      have hsz : (p._size - (N.toUInt32 + 1)).toNat = p._size.toNat - (N + 1) := by
        have hN' : (N.toUInt32 + 1).toNat = N + 1 := by simp; omega
        rw [UInt32.toNat_sub_of_le _ _ (UInt32.le_iff_toNat_le.mpr (by rw [hN']; omega)), hN']
      have hd : (⟨{ p._union with direct := writeAt p._union.direct 0 (p._union.indirect.take p.size.toNat) },
          p._size - (N.toUInt32 + 1)⟩ : prevector N T).is_direct = true := by
        rw [is_direct_iff]
        show (p._size - (N.toUInt32 + 1)).toNat ≤ N
        omega
      have hwrite : (p._union.indirect.take p.size.toNat).length = p._size.toNat - (N + 1) := by
        rw [List.length_take, toNat_size_of_heap hN h]
        omega
      refine ⟨⟨?_, fun h' => absurd h' (by simp [hd]), fun h' => absurd h' (by simp [hd]),
        fun h' => absurd h' (by simp [hd])⟩, ?_, ?_, ?_⟩
      · show (writeAt p._union.direct 0 _).length = N
        rw [length_writeAt (by rw [hwrite, hp.direct_length]; omega), hp.direct_length]
      · apply UInt32.toNat_inj.mp
        rw [size_of_direct hd, toNat_size_of_heap hN h]
        exact hsz
      · rw [toList, toList, items_of_direct hd, size_of_direct hd, items_of_heap h]
        show (writeAt p._union.direct 0 _).take (p._size - (N.toUInt32 + 1)).toNat = _
        rw [hsz, ← hwrite, take_writeAt_zero]
      · rw [capacity_of_direct hd]
        omega
    · -- inline, and staying inline
      rename_i hdirect
      have h : p.is_direct = true := by simpa using hdirect
      exact ⟨hp, rfl, rfl, by rw [capacity_of_direct h]; omega⟩
  · rename_i hlarge
    split
    · -- `realloc`
      rename_i hheap
      have h : p.is_direct = false := by simpa using hheap
      rw [capacity_of_heap h] at hsize
      rw [items_of_heap h, capacity_of_heap h] at hlen
      have hd : ({ p with
          _union := { p._union with
            indirect := resizeBlock p._union.indirect c.toNat
            capacity := c } } : prevector N T).is_direct = false := h
      refine ⟨⟨hp.direct_length, fun _ => by show N < c.toNat; omega,
        fun _ => length_resizeBlock _ _, fun _ => ?_⟩, rfl, ?_, ?_⟩
      · show p._size.toNat ≤ c.toNat + N + 1
        rw [toNat_size_of_heap hN h] at hc
        omega
      · rw [toList, toList, items_of_heap hd, items_of_heap h]
        exact take_resizeBlock (by rw [hlen]; exact hsize) hc
      · rw [capacity_of_heap hd]
        show c.toNat = max N c.toNat
        omega
    · -- `malloc` and copy
      rename_i hdirect
      have h : p.is_direct = true := by simpa using hdirect
      rw [size_of_direct h] at hc hbound
      rw [capacity_of_direct h] at hsize
      have hsum : (p._size + (N.toUInt32 + 1)).toNat = p._size.toNat + (N + 1) := by
        have hN' : (N.toUInt32 + 1).toNat = N + 1 := by simp; omega
        rw [UInt32.toNat_add, hN']
        omega
      have hd : (⟨{ p._union with
            indirect := writeAt (List.replicate c.toNat default) 0 (p._union.direct.take p.size.toNat)
            capacity := c }, p._size + (N.toUInt32 + 1)⟩ : prevector N T).is_direct = false := by
        rw [Bool.eq_false_iff, ne_eq, is_direct_iff]
        show ¬(p._size + (N.toUInt32 + 1)).toNat ≤ N
        rw [hsum]
        omega
      have hwrite : (p._union.direct.take p.size.toNat).length = p._size.toNat := by
        rw [List.length_take, size_of_direct h, hp.direct_length]
        have := is_direct_iff.mp h
        omega
      refine ⟨⟨hp.direct_length, fun _ => by show N < c.toNat; omega, fun _ => ?_, fun _ => ?_⟩, ?_, ?_, ?_⟩
      · show (writeAt (List.replicate c.toNat default) 0 _).length = c.toNat
        rw [length_writeAt (by rw [hwrite, List.length_replicate]; omega), List.length_replicate]
      · show (p._size + (N.toUInt32 + 1)).toNat ≤ c.toNat + N + 1
        omega
      · apply UInt32.toNat_inj.mp
        rw [toNat_size_of_heap hN hd, size_of_direct h]
        show (p._size + (N.toUInt32 + 1)).toNat - (N + 1) = _
        omega
      · rw [toList, toList, items_of_heap hd, items_of_direct h, toNat_size_of_heap hN hd]
        show (writeAt _ 0 (p._union.direct.take p.size.toNat)).take ((p._size + (N.toUInt32 + 1)).toNat - (N + 1)) = _
        rw [hsum, Nat.add_sub_cancel, ← hwrite, take_writeAt_zero]
      · rw [capacity_of_heap hd]
        show c.toNat = max N c.toNat
        omega

end Inv

/-! ## Refinement of `std::vector`

`Refines p v`: `p` keeps its representation and holds the elements of `v`.
One lemma per operation says what it does to them, as `std::vector` would. -/

section Refines

variable {N : Nat} {T : Type}

/-- The object holds the elements of `v`, in its representation. -/
def Refines (p : prevector N T) (v : List T) : Prop := Inv p ∧ p.toList = v

theorem Refines.length (hN : N + 1 < 2 ^ 32) {p : prevector N T} {v : List T} (h : Refines p v) :
    v.length = p.size.toNat := by
  rw [← h.2, h.1.length_toList hN]

/-- A write through `item_ptr` that keeps the slots' number keeps the
representation; the elements are then the first `size` slots written. -/
theorem Refines.setItems (hN : N + 1 < 2 ^ 32) {p : prevector N T} {v : List T} (h : Refines p v)
    {f : List T → List T} (hf : (f p.items).length = p.items.length) :
    Refines (p.setItems f) ((f p.items).take v.length) :=
  ⟨h.1.setItems hf, by rw [toList, items_setItems, size_setItems, h.length hN]⟩

/-- `_size += k` within the capacity: the elements are the first
`size + k` slots. -/
theorem Refines.addSize (hN : N + 1 < 2 ^ 32) {p : prevector N T} {v : List T} (h : Refines p v) {k : UInt32}
    (hk : v.length + k.toNat ≤ p.capacity) (hbound : v.length + k.toNat + N + 1 < 2 ^ 32) :
    Refines (p.addSize k) (p.items.take (v.length + k.toNat)) := by
  have hlen := h.length hN
  obtain ⟨hinv, hd, hsize⟩ := h.1.addSize hN (k := k) (by omega) (by omega)
  exact ⟨hinv, by rw [toList, hsize, items_addSize hd, hlen]⟩

/-- `_size -= k` within the size: the elements are the first
`size - k` slots. -/
theorem Refines.subSize (hN : N + 1 < 2 ^ 32) {p : prevector N T} {v : List T} (h : Refines p v) {k : UInt32}
    (hk : k.toNat ≤ v.length) : Refines (p.subSize k) (p.items.take (v.length - k.toNat)) := by
  have hlen := h.length hN
  obtain ⟨hinv, hd, hsize⟩ := h.1.subSize hN (k := k) (by omega)
  exact ⟨hinv, by rw [toList, hsize, items_subSize hd, hlen]⟩

/-- The slots written by `f` as the elements of the object `f` wrote:
what `Refines.addSize` and `Refines.subSize` read after a write. -/
theorem Refines.setItems_self (hN : N + 1 < 2 ^ 32) {p : prevector N T} {v : List T} (h : Refines p v)
    {f : List T → List T} (hf : (f p.items).length = p.items.length) :
    Refines (p.setItems f) ((f p.items).take v.length) ∧ (p.setItems f).items = f p.items ∧
      ((f p.items).take v.length).length = v.length ∧ (p.setItems f).capacity = p.capacity := by
  refine ⟨h.setItems hN hf, items_setItems _ _, ?_, capacity_setItems _ _⟩
  have := h.1.size_le_capacity hN
  rw [List.length_take, hf, h.1.items_length, h.length hN]
  omega

/-- A write through `item_ptr`, then `_size += k`. -/
theorem Refines.setItems_addSize (hN : N + 1 < 2 ^ 32) {p : prevector N T} {v : List T} (h : Refines p v)
    {f : List T → List T} (hf : (f p.items).length = p.items.length) {k : UInt32}
    (hk : v.length + k.toNat ≤ p.capacity) (hbound : v.length + k.toNat + N + 1 < 2 ^ 32) :
    Refines ((p.setItems f).addSize k) ((f p.items).take (v.length + k.toNat)) := by
  obtain ⟨hq, hitems, hlen, hcap⟩ := h.setItems_self hN hf
  have hr := hq.addSize hN (k := k) (by rw [hlen, hcap]; exact hk) (by rw [hlen]; exact hbound)
  rwa [hlen, hitems] at hr

/-- A write through `item_ptr`, then `_size -= k`. -/
theorem Refines.setItems_subSize (hN : N + 1 < 2 ^ 32) {p : prevector N T} {v : List T} (h : Refines p v)
    {f : List T → List T} (hf : (f p.items).length = p.items.length) {k : UInt32} (hk : k.toNat ≤ v.length) :
    Refines ((p.setItems f).subSize k) ((f p.items).take (v.length - k.toNat)) := by
  obtain ⟨hq, hitems, hlen, -⟩ := h.setItems_self hN hf
  have hr := hq.subSize hN (k := k) (by rw [hlen]; exact hk)
  rwa [hlen, hitems] at hr

/-- The first `size` slots are the elements. -/
theorem Refines.take_items (hN : N + 1 < 2 ^ 32) {p : prevector N T} {v : List T} (h : Refines p v) :
    p.items.take v.length = v := by
  rw [h.length hN]
  exact h.2

/-- `erase(first, last)` is `std::vector::erase`. -/
theorem Refines.erase (hN : N + 1 < 2 ^ 32) {p : prevector N T} {v : List T} (h : Refines p v)
    (first last : Nat) (hfirst : first ≤ last) (hlast : last ≤ v.length) :
    Refines (p.erase first last) (v.take first ++ v.drop last) := by
  have hlen := h.length hN
  have hcap := h.1.size_le_capacity hN
  have hitems := h.1.items_length
  have hk : ((last - first).toUInt32).toNat = last - first := by
    have := p.size.toNat_lt
    simp
    omega
  have hlist : (moveWithin p.items first last (p.size.toNat - last)).take (v.length - (last - first)) =
      v.take first ++ v.drop last := by
    rw [hlen, take_moveWithin_erase hfirst (by omega) (by omega), show p.items.take p.size.toNat = v from h.2]
  have hr := h.setItems_subSize hN (f := (moveWithin · first last (p.size.toNat - last)))
    (length_moveWithin (by omega)) (k := (last - first).toUInt32) (by omega)
  rwa [hk, hlist] at hr

/-- `change_capacity(c)` for a `c` that holds the elements. -/
theorem Refines.change_capacity [Inhabited T] (hN : N + 1 < 2 ^ 32) {p : prevector N T} {v : List T}
    (h : Refines p v) {c : UInt32} (hc : v.length ≤ c.toNat) (hbound : v.length + N + 1 < 2 ^ 32) :
    Refines (p.change_capacity c) v ∧ (p.change_capacity c).capacity = max N c.toNat := by
  have hlen := h.length hN
  obtain ⟨hinv, -, hlist, hcap⟩ := h.1.change_capacity hN (c := c) (by omega) (by omega)
  exact ⟨⟨hinv, hlist.trans h.2⟩, hcap⟩

/-- The growth of an insertion keeps the elements and makes room for
`new_size`, without wrapping while `new_size < 2^31`. -/
theorem Refines.grow [Inhabited T] (hN : N + 1 < 2 ^ 32) {p : prevector N T} {v : List T} (h : Refines p v)
    (new_size : UInt32) (hlen : v.length ≤ new_size.toNat) (hsmall : new_size.toNat < 2 ^ 31)
    (hbound : new_size.toNat + N + 1 < 2 ^ 32) :
    Refines (p.grow new_size) v ∧ new_size.toNat ≤ (p.grow new_size).capacity := by
  unfold prevector.grow
  split
  · have hc : (new_size + (new_size >>> 1)).toNat = new_size.toNat + new_size.toNat / 2 := by
      rw [UInt32.toNat_add, UInt32.toNat_shiftRight]
      simp
      omega
    obtain ⟨hr, hcap⟩ := h.change_capacity hN (c := new_size + (new_size >>> 1)) (by omega) (by omega)
    exact ⟨hr, by omega⟩
  · exact ⟨h, by omega⟩

/-- `reserve(new_capacity)` keeps the elements and makes room for
`new_capacity`: the tester's `capacity() >= s`. -/
theorem Refines.reserve [Inhabited T] (hN : N + 1 < 2 ^ 32) {p : prevector N T} {v : List T} (h : Refines p v)
    (new_capacity : UInt32) (hbound : v.length + N + 1 < 2 ^ 32) :
    Refines (p.reserve new_capacity) v ∧ new_capacity.toNat ≤ (p.reserve new_capacity).capacity := by
  have hcap := h.1.size_le_capacity hN
  have hlen := h.length hN
  unfold prevector.reserve
  split
  · obtain ⟨hr, hcap'⟩ := h.change_capacity hN (c := new_capacity) (by omega) hbound
    exact ⟨hr, by omega⟩
  · exact ⟨h, by omega⟩

/-- `shrink_to_fit()` keeps the elements. -/
theorem Refines.shrink_to_fit [Inhabited T] (hN : N + 1 < 2 ^ 32) {p : prevector N T} {v : List T}
    (h : Refines p v) (hbound : v.length + N + 1 < 2 ^ 32) : Refines p.shrink_to_fit v :=
  (h.change_capacity hN (c := p.size) (by rw [h.length hN]) hbound).1

/-- The tail moved up by the values' number and the values written at `pos`,
then `_size += k`: the shape of the three `insert`s. -/
theorem Refines.insertAt (hN : N + 1 < 2 ^ 32) {p : prevector N T} {v : List T} (h : Refines p v) {pos : Nat}
    (values : List T) {k : UInt32} (hk : k.toNat = values.length) (hpos : pos ≤ v.length)
    (hcap : v.length + values.length ≤ p.capacity) (hbound : v.length + values.length + N + 1 < 2 ^ 32) :
    Refines ((p.setItems fun buf =>
        writeAt (moveWithin buf (pos + values.length) pos (p.size.toNat - pos)) pos values).addSize k)
      (v.take pos ++ values ++ v.drop pos) := by
  have hlen := h.length hN
  have hitems := h.1.items_length
  have hlist : (writeAt (moveWithin p.items (pos + values.length) pos (p.size.toNat - pos)) pos values).take
      (v.length + values.length) = v.take pos ++ values ++ v.drop pos := by
    rw [hlen, take_moveWithin_insert values (by omega) (by omega), show p.items.take p.size.toNat = v from h.2]
  have hr := h.setItems_addSize hN
    (f := fun buf => writeAt (moveWithin buf (pos + values.length) pos (p.size.toNat - pos)) pos values)
    (length_insertAt values (by omega) (by omega)) (k := k) (by omega) (by omega)
  rwa [hk, hlist] at hr

/-- `values` written at the end, then `_size += k`: `push_back` and
the growing `resize`. -/
theorem Refines.fill_addSize (hN : N + 1 < 2 ^ 32) {p : prevector N T} {v : List T} (h : Refines p v)
    (values : List T) {k : UInt32} (hk : k.toNat = values.length) (hcap : v.length + values.length ≤ p.capacity)
    (hbound : v.length + values.length + N + 1 < 2 ^ 32) :
    Refines ((p.fill v.length values).addSize k) (v ++ values) := by
  have hitems := h.1.items_length
  have hr := h.setItems_addSize hN (f := (writeAt · v.length values)) (length_writeAt (by omega)) (k := k)
    (by omega) (by omega)
  rwa [hk, take_writeAt_end _ (by omega), h.take_items hN] at hr

/-- `_size += k`, then `values` written at the old end: `assign`
and the constructors. -/
theorem Refines.addSize_fill (hN : N + 1 < 2 ^ 32) {p : prevector N T} {v : List T} (h : Refines p v)
    (values : List T) {k : UInt32} (hk : k.toNat = values.length) (hcap : v.length + values.length ≤ p.capacity)
    (hbound : v.length + values.length + N + 1 < 2 ^ 32) :
    Refines ((p.addSize k).fill v.length values) (v ++ values) := by
  have hlen := h.length hN
  obtain ⟨-, hd, -⟩ := h.1.addSize hN (k := k) (by omega) (by omega)
  rw [fill, addSize_setItems hd]
  exact h.fill_addSize hN values hk hcap hbound

/-- `(*this)[pos] = value` is `List.set`. -/
theorem Refines.update (hN : N + 1 < 2 ^ 32) {p : prevector N T} {v : List T} (h : Refines p v) (pos : Nat)
    (value : T) (hpos : pos < v.length) : Refines (p.update pos value) (v.set pos value) := by
  have hlen := h.length hN
  have hcap := h.1.size_le_capacity hN
  have hitems := h.1.items_length
  refine ⟨h.1.fill (by simp only [List.length_singleton]; omega), ?_⟩
  rw [prevector.update, toList, items_fill, size_fill, writeAt_singleton _ (by omega), List.take_set]
  exact congrArg (List.set · pos value) h.2

/-- `pop_back()` is `List.dropLast`. -/
theorem Refines.pop_back (hN : N + 1 < 2 ^ 32) {p : prevector N T} {v : List T} (h : Refines p v)
    (hne : 0 < v.length) : Refines p.pop_back v.dropLast := by
  have hr := h.erase hN (v.length - 1) v.length (by omega) le_rfl
  rw [List.drop_length, List.append_nil, ← List.dropLast_eq_take] at hr
  rwa [prevector.pop_back, ← h.length hN]

/-- `resize(new_size)` is `std::vector::resize`: the elements cut to
`new_size`, or followed by `T{}`s up to it. -/
theorem Refines.resize [Inhabited T] (hN : N + 1 < 2 ^ 32) {p : prevector N T} {v : List T} (h : Refines p v)
    (new_size : UInt32) (hbound : new_size.toNat + N + 1 < 2 ^ 32) :
    Refines (p.resize new_size) (v.take new_size.toNat ++ List.replicate (new_size.toNat - v.length) default) := by
  have hlen := h.length hN
  unfold prevector.resize
  dsimp only
  by_cases heq : p.size = new_size
  · -- nothing to do
    have hsz : new_size.toNat = v.length := by rw [← heq, hlen]
    rw [if_pos heq, hsz, List.take_length, Nat.sub_self, List.replicate_zero, List.append_nil]
    exact h
  rw [if_neg heq]
  by_cases hgt : p.size > new_size
  · -- shrinking: the tail erased
    have hlt : new_size.toNat < v.length := by
      rw [hlen]
      exact UInt32.lt_iff_toNat_lt.mp hgt
    have hr := h.erase hN new_size.toNat v.length hlt.le le_rfl
    rw [List.drop_length, List.append_nil] at hr
    rw [if_pos hgt, Nat.sub_eq_zero_of_le hlt.le, List.replicate_zero, List.append_nil, ← hlen]
    exact hr
  · -- growing: room made, then the new elements built at the old end
    have hge : v.length < new_size.toNat := by
      rw [hlen]
      have := UInt32.toNat_inj.not.mpr heq
      have := UInt32.lt_iff_toNat_lt.not.mp hgt
      omega
    obtain ⟨hq, hcap⟩ := h.reserve hN new_size (by omega)
    have hinc : (new_size - p.size).toNat = new_size.toNat - v.length := by
      rw [UInt32.toNat_sub_of_le _ _ (UInt32.le_iff_toNat_le.mpr (by omega)), hlen]
    have hr := hq.fill_addSize hN (List.replicate (new_size - p.size).toNat default) (k := new_size - p.size)
      (by rw [List.length_replicate]) (by rw [List.length_replicate]; omega) (by rw [List.length_replicate]; omega)
    rw [if_neg hgt, List.take_of_length_le hge.le, ← hinc, ← hlen]
    exact hr

/-- `clear()` leaves no element. -/
theorem Refines.clear [Inhabited T] (hN : N + 1 < 2 ^ 32) {p : prevector N T} {v : List T} (h : Refines p v) :
    Refines p.clear [] := by
  have hr := h.resize hN 0 (by simp only [UInt32.toNat_zero]; omega)
  unfold prevector.clear
  simpa using hr

/-- `emplace_back(value)` and `push_back(value)` append. -/
theorem Refines.emplace_back [Inhabited T] (hN : N + 1 < 2 ^ 32) {p : prevector N T} {v : List T}
    (h : Refines p v) (value : T) (hsmall : v.length + 1 < 2 ^ 31) (hbound : v.length + 1 + N + 1 < 2 ^ 32) :
    Refines (p.emplace_back value) (v ++ [value]) := by
  have hs : (p.size + 1).toNat = v.length + 1 := by
    rw [UInt32.toNat_add, UInt32.toNat_one, ← h.length hN]
    omega
  obtain ⟨hq, hcap⟩ := h.grow hN (p.size + 1) (by omega) (by omega) (by omega)
  unfold prevector.emplace_back
  dsimp only
  rw [← hq.length hN]
  exact hq.fill_addSize hN [value] (k := 1) rfl (by simp only [List.length_singleton]; omega)
    (by simp only [List.length_singleton]; omega)

/-- `insert(pos, value)`. -/
theorem Refines.insert [Inhabited T] (hN : N + 1 < 2 ^ 32) {p : prevector N T} {v : List T} (h : Refines p v)
    {pos : Nat} (value : T) (hpos : pos ≤ v.length) (hsmall : v.length + 1 < 2 ^ 31)
    (hbound : v.length + 1 + N + 1 < 2 ^ 32) :
    Refines (p.insert pos value) (v.take pos ++ [value] ++ v.drop pos) := by
  have hs : (p.size + 1).toNat = v.length + 1 := by
    rw [UInt32.toNat_add, UInt32.toNat_one, ← h.length hN]
    omega
  obtain ⟨hq, hcap⟩ := h.grow hN (p.size + 1) (by omega) (by omega) (by omega)
  exact hq.insertAt hN [value] (k := 1) rfl hpos (by simp only [List.length_singleton]; omega)
    (by simp only [List.length_singleton]; omega)

/-- `insert(pos, count, value)`: the fill, made after `_size += count`,
lands where the move left room. -/
theorem Refines.insertCount [Inhabited T] (hN : N + 1 < 2 ^ 32) {p : prevector N T} {v : List T}
    (h : Refines p v) {pos : Nat} (count : UInt32) (value : T) (hpos : pos ≤ v.length)
    (hsmall : v.length + count.toNat < 2 ^ 31) (hbound : v.length + count.toNat + N + 1 < 2 ^ 32) :
    Refines (p.insertCount pos count value) (v.take pos ++ List.replicate count.toNat value ++ v.drop pos) := by
  have hs : (p.size + count).toNat = v.length + count.toNat := by
    rw [UInt32.toNat_add, ← h.length hN]
    omega
  obtain ⟨hq, hcap⟩ := h.grow hN (p.size + count) (by omega) (by omega) (by omega)
  set q := p.grow (p.size + count)
  have hlen := hq.length hN
  have hitems := hq.1.items_length
  -- the fill goes to the block the move wrote, as `_size += count` keeps it
  have hmove := hq.1.setItems (f := (moveWithin · (pos + count.toNat) pos (q.size.toNat - pos)))
    (length_moveWithin (by omega))
  obtain ⟨-, hd, -⟩ := hmove.addSize hN (k := count) (by rw [size_setItems, capacity_setItems]; omega)
    (by rw [size_setItems]; omega)
  have hr := hq.insertAt hN (List.replicate count.toNat value) (k := count) (by rw [List.length_replicate])
    hpos (by rw [List.length_replicate]; omega) (by rw [List.length_replicate]; omega)
  rw [List.length_replicate] at hr
  unfold prevector.insertCount
  rw [fill, addSize_setItems hd, setItems_setItems]
  exact hr

/-- The count of a range as `difference_type`, below `2^31`. -/
theorem toNatClampNeg_toInt32 {n : Nat} (h : n < 2 ^ 31) : n.toInt32.toNatClampNeg = n :=
  Int32.toNatClampNeg_ofNat_of_lt h

theorem toNat_toUInt32_toInt32 {n : Nat} (h : n < 2 ^ 31) : n.toInt32.toUInt32.toNat = n := by
  have hu : n.toInt32.toUInt32 = n.toUInt32 := by
    apply UInt32.toBitVec_inj.mp
    simp [Nat.toInt32, Int32.ofNat, Nat.toUInt32, UInt32.ofNat]
  rw [hu]
  simp
  omega

/-- `insert(pos, first, last)`, with a count below `2^31`. -/
theorem Refines.insertRange [Inhabited T] (hN : N + 1 < 2 ^ 32) {p : prevector N T} {v : List T}
    (h : Refines p v) {pos : Nat} (values : List T) (hpos : pos ≤ v.length)
    (hsmall : v.length + values.length < 2 ^ 31) (hbound : v.length + values.length + N + 1 < 2 ^ 32) :
    Refines (p.insertRange pos values) (v.take pos ++ values ++ v.drop pos) := by
  have hcount := toNat_toUInt32_toInt32 (n := values.length) (by omega)
  have hs : (p.size + values.length.toInt32.toUInt32).toNat = v.length + values.length := by
    rw [UInt32.toNat_add, hcount, ← h.length hN]
    omega
  obtain ⟨hq, hcap⟩ := h.grow hN (p.size + values.length.toInt32.toUInt32) (by omega) (by omega)
    (by omega)
  unfold prevector.insertRange
  dsimp only
  rw [toNatClampNeg_toInt32 (by omega)]
  exact hq.insertAt hN values hcount hpos (by omega) (by omega)

/-- A fresh `prevector()` holds nothing. -/
theorem refines_init [Inhabited T] : Refines (init : prevector N T) [] := by
  have hd : (init : prevector N T).is_direct = true := by simp [is_direct, prevector.init]
  refine ⟨⟨List.length_replicate, fun h => absurd h (by simp [hd]), fun h => absurd h (by simp [hd]),
    fun h => absurd h (by simp [hd])⟩, ?_⟩
  simp [toList, size, is_direct, prevector.init]

/-- The constructors' shape: `change_capacity(n)` on a fresh object,
`_size += n`, and the `n` values built from slot 0. -/
theorem Refines.construct [Inhabited T] (hN : N + 1 < 2 ^ 32) (values : List T) {n : UInt32}
    (hn : n.toNat = values.length) (hbound : values.length + N + 1 < 2 ^ 32) :
    Refines ((((init : prevector N T).change_capacity n).addSize n).fill 0 values) values := by
  obtain ⟨hq, hcap⟩ := (refines_init (N := N) (T := T)).change_capacity hN (c := n) (Nat.zero_le _) (by simp only [List.length_nil]; omega)
  exact hq.addSize_fill hN values hn (by simp only [List.length_nil]; omega) (by simp only [List.length_nil]; omega)

/-- The shape of `assign` after its `clear()`: room for `n`, then
`_size += n` and the values built from slot 0. -/
theorem Refines.refill [Inhabited T] (hN : N + 1 < 2 ^ 32) {p : prevector N T} (h : Refines p [])
    (values : List T) {n : UInt32} (hn : n.toNat = values.length) (hbound : values.length + N + 1 < 2 ^ 32) :
    Refines (((if p.capacity < n.toNat then p.change_capacity n else p).addSize n).fill 0 values) values := by
  obtain ⟨hq, hcap⟩ := h.reserve hN n (by simp only [List.length_nil]; omega)
  exact hq.addSize_fill hN values hn (by simp only [List.length_nil]; omega) (by simp only [List.length_nil]; omega)

/-- `assign(n, val)`. -/
theorem Refines.assign [Inhabited T] (hN : N + 1 < 2 ^ 32) {p : prevector N T} {v : List T} (h : Refines p v)
    (n : UInt32) (val : T) (hbound : n.toNat + N + 1 < 2 ^ 32) :
    Refines (p.assign n val) (List.replicate n.toNat val) :=
  (h.clear hN).refill hN _ (List.length_replicate).symm (by rw [List.length_replicate]; exact hbound)

/-- `assign(first, last)`, with fewer than `2^32` values. -/
theorem Refines.assignRange [Inhabited T] (hN : N + 1 < 2 ^ 32) {p : prevector N T} {v : List T}
    (h : Refines p v) (values : List T) (hbound : values.length + N + 1 < 2 ^ 32) :
    Refines (p.assignRange values) values :=
  (h.clear hN).refill hN values (by simp; omega) hbound

/-- `prevector(first, last)`. -/
theorem Refines.ofRange [Inhabited T] (hN : N + 1 < 2 ^ 32) (values : List T)
    (hbound : values.length + N + 1 < 2 ^ 32) : Refines (ofRange values : prevector N T) values :=
  Refines.construct hN values (by simp; omega) hbound

/-- `prevector(n, val)`. -/
theorem Refines.ofCountValue [Inhabited T] (hN : N + 1 < 2 ^ 32) (n : UInt32) (val : T)
    (hbound : n.toNat + N + 1 < 2 ^ 32) :
    Refines (ofCountValue n val : prevector N T) (List.replicate n.toNat val) :=
  Refines.construct hN _ (List.length_replicate).symm (by rw [List.length_replicate]; exact hbound)

/-- `prevector(n)`: `n` elements `T{}`. -/
theorem Refines.ofCount [Inhabited T] (hN : N + 1 < 2 ^ 32) (n : UInt32) (hbound : n.toNat + N + 1 < 2 ^ 32) :
    Refines (ofCount n : prevector N T) (List.replicate n.toNat default) := by
  have hr := (refines_init (N := N) (T := T)).resize hN n hbound
  unfold prevector.ofCount
  simpa using hr

/-- The copy constructor. -/
theorem Refines.copy [Inhabited T] (hN : N + 1 < 2 ^ 32) {other : prevector N T} {w : List T}
    (h : Refines other w) (hbound : w.length + N + 1 < 2 ^ 32) : Refines (copy other) w := by
  unfold prevector.copy
  dsimp only
  rw [h.2]
  exact Refines.construct hN w (h.length hN).symm hbound

/-- `_size += k` within the capacity adds `k` elements, whatever the
slots held. -/
theorem Refines.addSize_exists (hN : N + 1 < 2 ^ 32) {p : prevector N T} {v : List T} (h : Refines p v)
    {k : UInt32} (hk : v.length + k.toNat ≤ p.capacity) (hbound : v.length + k.toNat + N + 1 < 2 ^ 32) :
    ∃ w, Refines (p.addSize k) (v ++ w) ∧ w.length = k.toNat := by
  have hitems := h.1.items_length
  have hsplit : p.items.take (v.length + k.toNat) = v ++ (p.items.take (v.length + k.toNat)).drop v.length := by
    conv_lhs => rw [← List.take_append_drop v.length (p.items.take (v.length + k.toNat))]
    rw [List.take_take, Nat.min_eq_left (by omega), h.take_items hN]
  have hr := h.addSize hN hk hbound
  rw [hsplit] at hr
  refine ⟨_, hr, ?_⟩
  simp only [List.length_drop, List.length_take]
  omega

/-- `resize_uninitialized(new_size)`: the elements cut to `new_size`,
or followed by as many elements as it adds, of unknown value. -/
theorem Refines.resize_uninitialized [Inhabited T] (hN : N + 1 < 2 ^ 32) {p : prevector N T} {v : List T}
    (h : Refines p v) (new_size : UInt32) (hbound : new_size.toNat + N + 1 < 2 ^ 32) :
    ∃ w, Refines (p.resize_uninitialized new_size) (v.take new_size.toNat ++ w) ∧
      w.length = new_size.toNat - v.length := by
  have hlen := h.length hN
  have hcap := h.1.size_le_capacity hN
  unfold prevector.resize_uninitialized
  split_ifs with hgrow hshrink
  · -- a new block, and `_size` raised to `new_size`
    obtain ⟨hq, hcap'⟩ := h.change_capacity hN (c := new_size) (by omega) (by omega)
    have hk : (new_size - (p.change_capacity new_size).size).toNat = new_size.toNat - v.length := by
      rw [UInt32.toNat_sub_of_le _ _ (UInt32.le_iff_toNat_le.mpr (by rw [← hq.length hN]; omega)), ← hq.length hN]
    obtain ⟨w, hr, hw⟩ := hq.addSize_exists hN (k := new_size - (p.change_capacity new_size).size) (by omega)
      (by omega)
    rw [List.take_of_length_le (by omega)]
    exact ⟨w, hr, by omega⟩
  · -- shrinking: the tail erased
    have hlt : new_size.toNat < v.length := by
      rw [hlen]
      exact UInt32.lt_iff_toNat_lt.mp hshrink
    have hr := h.erase hN new_size.toNat v.length hlt.le le_rfl
    rw [List.drop_length] at hr
    rw [← hlen]
    exact ⟨[], hr, by simp only [List.length_nil]; omega⟩
  · -- `_size` raised within the capacity
    have hge : v.length ≤ new_size.toNat := by
      rw [hlen]
      exact UInt32.le_iff_toNat_le.mp (by simpa using hshrink)
    have hk : (new_size - p.size).toNat = new_size.toNat - v.length := by
      rw [UInt32.toNat_sub_of_le _ _ (UInt32.le_iff_toNat_le.mpr (by omega)), hlen]
    obtain ⟨w, hr, hw⟩ := h.addSize_exists hN (k := new_size - p.size) (by omega) (by omega)
    rw [List.take_of_length_le hge]
    exact ⟨w, hr, by omega⟩

/-- `empty()` agrees with the elements. -/
theorem Refines.empty (hN : N + 1 < 2 ^ 32) {p : prevector N T} {v : List T} (h : Refines p v) :
    p.empty = v.isEmpty := by
  have hlen := h.length hN
  rw [prevector.empty, Bool.eq_iff_iff, beq_iff_eq, List.isEmpty_iff_length_eq_zero, hlen, ← UInt32.toNat_inj,
    UInt32.toNat_zero]

end Refines

end prevector

end Veribase
