import CannonCar.MemPool

/-!
# Where `mp_init` stores

`mp_init` threads the free list through the memory it is given: one store for each block,
and one more, of the null pointer, into the last of them.  If the memory does not hold
one block there is no last one, and the null pointer goes to where a block number −1
would be.

`mpInitStores` is the list of the stores; `mpInit_mem` says that the memory afterwards
is theirs.

## What is load-bearing

**Sizes are rounded before they are used**: the size of the memory down, that of a block up, in 32
bits, and the start not at all.  `blockStride` is what a block takes up with its header; it
can come out as zero, and the quotient by it is then what the core's division gives.

**The stores are in a list.**  `mpInit` itself writes to memory, so `mpInit_mem` connects the two:
the memory after `mp_init` is that after the stores of the list.  The statement about the
stores is then one about numbers, with the 32-bit addresses as they are.
-/

namespace CannonCar

open MachineInt WordMemory

namespace PoolMem

/-- The stores of `mp_init` into the memory of the pool, each an address and a word, in
the order they are done in. -/
def mpInitStores (start size blockSize : BitVec 32) : List (BitVec 32 × BitVec 32) :=
  let size := rtAlignDown size 4
  let blockSize := rtAlign blockSize 4
  -- the core divides by zero and gets zero
  let blockTotalCount := size / (blockSize + 4)
  let links := (List.range blockTotalCount.toNat).map fun offset =>
    (start + BitVec.ofNat 32 offset * (blockSize + 4),
      start + (BitVec.ofNat 32 offset + 1) * (blockSize + 4))
  links ++ [(start + (blockTotalCount - 1) * (blockSize + 4), 0)]

/-- The memory after `mp_init` is that after these stores. -/
theorem mpInit_mem (w : PoolMem) (mp start size blockSize : BitVec 32) :
    (w.mpInit mp start size blockSize).mem =
      (mpInitStores start size blockSize).foldl (fun mem s => store32 mem s.1 s.2) w.mem := by
  simp only [mpInit, mpInitLinks, mpInitStores, List.foldl_append, List.foldl_map, List.foldl_cons,
    List.foldl_nil]

/-- The word at an address lies in the `size` bytes from `start` on. -/
def Inside (start size a : BitVec 32) : Prop :=
  ∀ i < 4, (a + BitVec.ofNat 32 i - start).toNat < size.toNat

variable {start size blockSize : BitVec 32}

/-- A word some way into the memory, which does not lie across the end of the addresses. -/
theorem inside_iff {d : BitVec 32} (low : d.toNat + 4 ≤ 2 ^ 32) :
    Inside start size (start + d) ↔ d.toNat + 4 ≤ size.toNat := by
  have place : ∀ i < 4, (start + d + BitVec.ofNat 32 i - start).toNat = d.toNat + i := by
    intro i byte
    rw [add_assoc, add_sub_cancel_left, BitVec.toNat_add, BitVec.toNat_ofNat]
    omega
  constructor
  · intro inside
    have last := inside 3 (by decide)
    rw [place 3 (by decide)] at last
    omega
  · intro room i byte
    rw [place i byte]
    omega

/-! ## Blocks -/

theorem toNat_zero : (0 : BitVec 32).toNat = 0 := rfl

/-- What a block takes, in the arithmetic of `mp_init`: zero for the block sizes that do not
leave room for the header in 32 bits. -/
def blockStride (blockSize : BitVec 32) : BitVec 32 := rtAlign blockSize 4 + 4

theorem blockStride_dvd (blockSize : BitVec 32) : 4 ∣ (blockStride blockSize).toNat := by
  have aligned : (rtAlign blockSize 4).toNat = (blockSize + 4 - 1).toNat / 4 * 4 :=
    toNat_and_not_mask 2 (blockSize + 4 - 1)
  rw [blockStride, BitVec.toNat_add, aligned, toNat_four]
  omega

/-- A block number below the number of blocks. -/
theorem block_le {stride alignedSize : BitVec 32} {k : ℕ}
    (inside : k < (alignedSize / stride).toNat) :
    (BitVec.ofNat 32 k * stride).toNat + stride.toNat ≤ alignedSize.toNat := by
  have room : (k + 1) * stride.toNat ≤ alignedSize.toNat := by
    rw [BitVec.toNat_udiv] at inside
    exact le_trans (Nat.mul_le_mul_right _ inside) (Nat.div_mul_le_self _ _)
  rw [Nat.succ_mul] at room
  have small : k < 2 ^ 32 := lt_trans inside (BitVec.isLt _)
  have bound := alignedSize.isLt
  rw [BitVec.toNat_mul, BitVec.toNat_ofNat, Nat.mod_eq_of_lt small, Nat.mod_eq_of_lt (by omega)]
  exact room

/-- The stores into blocks there are. -/
theorem inside_block {k : ℕ} (inside : k < (rtAlignDown size 4 / blockStride blockSize).toNat) :
    Inside start size (start + BitVec.ofNat 32 k * blockStride blockSize) := by
  have aligned : (rtAlignDown size 4).toNat = size.toNat / 4 * 4 := toNat_and_not_mask 2 size
  have fits := block_le inside
  have positive : (blockStride blockSize).toNat ≠ 0 := by
    intro zero
    rw [BitVec.toNat_udiv, zero, Nat.div_zero] at inside
    exact absurd inside (Nat.not_lt_zero k)
  have multiple := blockStride_dvd blockSize
  have bound := size.isLt
  rw [inside_iff (by omega)]
  omega

/-- All the stores, where there is a block. -/
theorem inside_of_block (some_ : 0 < (rtAlignDown size 4 / blockStride blockSize).toNat) :
    ∀ s ∈ mpInitStores start size blockSize, Inside start size s.1 := by
  have last : rtAlignDown size 4 / blockStride blockSize - 1 =
      BitVec.ofNat 32 ((rtAlignDown size 4 / blockStride blockSize).toNat - 1) := by
    apply BitVec.eq_of_toNat_eq
    have bound := (rtAlignDown size 4 / blockStride blockSize).isLt
    have one : (1 : BitVec 32).toNat = 1 := rfl
    have le : (1 : BitVec 32) ≤ rtAlignDown size 4 / blockStride blockSize := some_
    rw [BitVec.toNat_sub_of_le le, BitVec.toNat_ofNat, one]
    omega
  intro s mem
  rcases List.mem_append.mp mem with link | terminator
  · obtain ⟨k, inside, rfl⟩ := List.mem_map.mp link
    exact inside_block (List.mem_range.mp inside)
  · rw [List.mem_singleton.mp terminator]
    have inside : Inside start size (start + (rtAlignDown size 4 / blockStride blockSize - 1) *
        blockStride blockSize) := by
      rw [last]
      exact inside_block (by omega)
    exact inside

/-- The one store there is without a block. -/
theorem mpInitStores_empty (none_ : rtAlignDown size 4 / blockStride blockSize = 0) :
    mpInitStores start size blockSize = [(start + (0 - blockStride blockSize), 0)] := by
  unfold blockStride at none_
  simp only [mpInitStores, none_, toNat_zero, List.range_zero, List.map_nil, List.nil_append,
    blockStride]
  rw [sub_mul, zero_mul, one_mul]

/-- **`mp_init` stays inside the memory it is given** if and only if a block and its header
fit in there, or the null pointer it stores in front of the memory comes round to it. -/
theorem mpInit_inside_iff (w : PoolMem) (mp start size blockSize : BitVec 32) :
    (w.mpInit mp start size blockSize).mem =
        (mpInitStores start size blockSize).foldl (fun mem s => store32 mem s.1 s.2) w.mem ∧
      ((∀ s ∈ mpInitStores start size blockSize, Inside start size s.1) ↔
        (blockStride blockSize ≠ 0 ∧ blockStride blockSize ≤ rtAlignDown size 4) ∨
          (0 - blockStride blockSize).toNat + 4 ≤ size.toNat) := by
  refine ⟨mpInit_mem w mp start size blockSize, ?_⟩
  have some_iff : 0 < (rtAlignDown size 4 / blockStride blockSize).toNat ↔
      blockStride blockSize ≠ 0 ∧ blockStride blockSize ≤ rtAlignDown size 4 := by
    rw [BitVec.toNat_udiv, Nat.div_pos_iff, Nat.pos_iff_ne_zero, BitVec.le_def, ne_eq, ne_eq,
      BitVec.toNat_eq, toNat_zero]
  by_cases fits : blockStride blockSize ≠ 0 ∧ blockStride blockSize ≤ rtAlignDown size 4
  · exact iff_of_true (inside_of_block (some_iff.mpr fits)) (Or.inl fits)
  · have none_ : rtAlignDown size 4 / blockStride blockSize = 0 := by
      apply BitVec.eq_of_toNat_eq
      exact Nat.le_zero.mp (not_lt.mp fun some_ => fits (some_iff.mp some_))
    have low : (0 - blockStride blockSize).toNat + 4 ≤ 2 ^ 32 := by
      have multiple := blockStride_dvd blockSize
      rw [BitVec.toNat_sub, toNat_zero]
      omega
    rw [mpInitStores_empty none_, List.forall_mem_singleton, inside_iff low]
    exact (or_iff_right fits).symm

/-- Memory for eight bytes and blocks of sixteen: the null pointer goes to the word five
words in front of it. -/
theorem not_mpInit_inside : ¬ ∀ start size blockSize : BitVec 32,
    ∀ s ∈ mpInitStores start size blockSize, Inside start size s.1 := by
  intro all
  have stores : mpInitStores 0x2000 8 16 = [(0x1fec, 0)] := by decide
  have inside := all 0x2000 8 16 (0x1fec, 0) (by rw [stores]; exact List.mem_singleton_self _)
  exact absurd (inside 0 (by decide)) (by decide)

end PoolMem

end CannonCar
