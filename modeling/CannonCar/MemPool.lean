import CannonCar.Foundation.MachineInt
import CannonCar.Foundation.Trajectory
import CannonCar.Foundation.WordMemory

/-!
# Memory pools

`mp_init`, `mp_alloc` and `mp_free` of `mempool.c`.  A pool is cut into blocks, each
behind a header of one word.  The headers of the free blocks are a list threaded through
the memory itself; the header of a block handed out holds the address of the pool it
came from, which is how `mp_free` finds the pool.

What holds over every run is `Ok`: the nodes of a pool are its free list and the headers
of its blocks in use, in some order.  Everything is read off that and off where the
nodes lie (`node_separate`): it says what an operation on one node does to all the
others, of its own pool and of every other.

Control blocks are objects of their own and are kept apart from the memory of the pools.

## What is load-bearing

**Any number of pools.**  A run is over a list of pools that are `Separate`: neither their memory
nor their control blocks overlap.  Each operation is on one of them, and the frame argument
(`node_separate`, `Chain.congr`) is what keeps the others in order.

**The caller's part.**  `Legal` says what a program may do: allocate anywhere, free what it holds,
and write to the usable bytes of what it holds.  A write to a header is not legal, a write to
every byte behind it up to the block size is.

**Lists are in the memory.**  The free list is a `Chain` through 32-bit words at byte addresses, and
`mp_free` reads the pool out of the word in front of the block.  Nothing is known of a block
but that word, so what ties a block to its pool is the invariant.
-/

namespace CannonCar

open MachineInt Trajectory WordMemory

/-! ## The source -/

/-- `RT_ALIGN`. -/
def rtAlign (size align : BitVec 32) : BitVec 32 := (size + align - 1) &&& ~~~(align - 1)

/-- `RT_ALIGN_DOWN`. -/
def rtAlignDown (size align : BitVec 32) : BitVec 32 := size &&& ~~~(align - 1)

/-- `struct mempool`. -/
structure Mempool where
  startAddress : BitVec 32
  size : BitVec 32
  blockSize : BitVec 32
  blockList : BitVec 32
  blockTotalCount : BitVec 32
  blockFreeCount : BitVec 32

/-- The memory of the pools, and the control blocks by their addresses. -/
structure PoolMem where
  mem : Mem
  pools : BitVec 32 → Mempool

namespace PoolMem

/-- The loop of `mp_init`: the header of every block points to the next block. -/
def mpInitLinks (mem : Mem) (blockPtr stride : BitVec 32) (n : ℕ) : Mem :=
  (List.range n).foldl (fun mem offset =>
    store32 mem (blockPtr + BitVec.ofNat 32 offset * stride)
      (blockPtr + (BitVec.ofNat 32 offset + 1) * stride)) mem

/-- `mp_init`. -/
def mpInit (w : PoolMem) (mp start size blockSize : BitVec 32) : PoolMem :=
  let size := rtAlignDown size 4
  let blockSize := rtAlign blockSize 4
  let blockTotalCount := size / (blockSize + 4)
  let mem := mpInitLinks w.mem start (blockSize + 4) blockTotalCount.toNat
  { mem := store32 mem (start + (blockTotalCount - 1) * (blockSize + 4)) 0
    pools := Function.update w.pools mp
      { startAddress := start, size := size, blockSize := blockSize, blockList := start,
        blockTotalCount := blockTotalCount, blockFreeCount := blockTotalCount } }

/-- `mp_alloc`, with the pointer it returns. -/
def mpAlloc (w : PoolMem) (mp : BitVec 32) : PoolMem × BitVec 32 :=
  let p := w.pools mp
  if p.blockFreeCount ≠ 0 then
    let blockPtr := p.blockList
    ({ mem := store32 w.mem blockPtr mp
       pools := Function.update w.pools mp
        { p with blockFreeCount := p.blockFreeCount - 1, blockList := load32 w.mem blockPtr } },
      blockPtr + 4)
  else (w, 0)

/-- `mp_free`. -/
def mpFree (w : PoolMem) (block : BitVec 32) : PoolMem :=
  let blockPtr := block - 4
  let mp := load32 w.mem blockPtr
  let p := w.pools mp
  { mem := store32 w.mem blockPtr p.blockList
    pools := Function.update w.pools mp
      { p with blockFreeCount := p.blockFreeCount + 1, blockList := blockPtr } }

end PoolMem

/-! ## Pools and their callers -/

/-- The arguments of a call of `mp_init`. -/
structure PoolSpec where
  mp : BitVec 32
  start : BitVec 32
  size : BitVec 32
  blockSize : BitVec 32

namespace PoolSpec

/-- `mp->block_size`. -/
def aligned (s : PoolSpec) : BitVec 32 := rtAlign s.blockSize 4

/-- `mp->block_total_count`. -/
def total (s : PoolSpec) : BitVec 32 := rtAlignDown s.size 4 / (s.aligned + 4)

/-- What one block takes, header included. -/
def stride (s : PoolSpec) : ℕ := s.aligned.toNat + 4

/-- The header of the block number `k`. -/
def node (s : PoolSpec) (k : ℕ) : BitVec 32 := s.start + BitVec.ofNat 32 k * (s.aligned + 4)

/-- All headers. -/
def nodes (s : PoolSpec) : List (BitVec 32) := (List.range s.total.toNat).map s.node

/-- The pool has a block, rounding up its block size does not overflow, and its memory is
an object: not at the null address, and with an end that has an address. -/
structure Ok (s : PoolSpec) : Prop where
  total_pos : 1 ≤ s.total.toNat
  rounds : s.blockSize.toNat + 3 < 2 ^ 32
  start_ne : s.start ≠ 0
  fits : s.start.toNat + s.size.toNat < 2 ^ 32

/-- Two pools with control blocks and memory of their own. -/
structure Separate (s t : PoolSpec) : Prop where
  mp_ne : s.mp ≠ t.mp
  apart : s.start.toNat + s.size.toNat ≤ t.start.toNat ∨
    t.start.toNat + t.size.toNat ≤ s.start.toNat

end PoolSpec

/-- What callers do: they take a block from a pool, give one back, write a byte. -/
inductive PoolOp
  | alloc (mp : BitVec 32)
  | free (block : BitVec 32)
  | write (address : BitVec 32) (value : BitVec 8)

/-- The pools, and the blocks handed out and not given back, with the pool each was taken
from. -/
structure PoolRun where
  sys : PoolMem
  live : List (BitVec 32 × BitVec 32)

namespace PoolRun

/-- One operation. -/
def step (r : PoolRun) : PoolOp → PoolRun
  | .alloc mp =>
      let (sys, block) := r.sys.mpAlloc mp
      { sys := sys, live := if block = 0 then r.live else (mp, block) :: r.live }
  | .free block =>
      { sys := r.sys.mpFree block, live := r.live.eraseP fun e => e.2 = block }
  | .write address value =>
      { r with sys := { r.sys with mem := Function.update r.sys.mem address value } }

/-- The bytes a block in use offers. -/
def usable (r : PoolRun) (e : BitVec 32 × BitVec 32) : ℕ := (r.sys.pools e.1).blockSize.toNat

/-- Blocks are taken from pools there are, only blocks in use are given back, and only
bytes of blocks in use are written. -/
def Legal (specs : List PoolSpec) (r : PoolRun) : PoolOp → Prop
  | .alloc mp => ∃ s ∈ specs, s.mp = mp
  | .free block => ∃ e ∈ r.live, e.2 = block
  | .write address _ => ∃ e ∈ r.live,
      e.2.toNat ≤ address.toNat ∧ address.toNat < e.2.toNat + r.usable e

instance (specs : List PoolSpec) (r : PoolRun) : ∀ op, Decidable (Legal specs r op)
  | .alloc mp => inferInstanceAs (Decidable (∃ s ∈ specs, s.mp = mp))
  | .free block => inferInstanceAs (Decidable (∃ e ∈ r.live, e.2 = block))
  | .write address _ => inferInstanceAs (Decidable (∃ e ∈ r.live,
      e.2.toNat ≤ address.toNat ∧ address.toNat < e.2.toNat + r.usable e))

/-- All pools initialised, one after the other, nothing handed out yet. -/
def setup (specs : List PoolSpec) (w : PoolMem) : PoolRun where
  sys := specs.foldl (fun w s => w.mpInit s.mp s.start s.size s.blockSize) w
  live := []

end PoolRun

/-! ## Where the nodes lie -/

@[simp] theorem toNat_four : (4 : BitVec 32).toNat = 4 := rfl

namespace PoolSpec

variable {s t : PoolSpec}

theorem aligned_toNat (ok : s.Ok) : s.aligned.toNat = (s.blockSize.toNat + 3) / 4 * 4 := by
  have sum : (s.blockSize + 4 - 1).toNat = s.blockSize.toNat + 3 := by
    have rounds := ok.rounds
    have one : (1 : BitVec 32).toNat = 1 := rfl
    rw [BitVec.toNat_sub, BitVec.toNat_add, toNat_four, one]
    omega
  rw [aligned, rtAlign]
  have clear := toNat_and_not_mask 2 (s.blockSize + 4 - 1)
  rw [sum] at clear
  exact clear

theorem alignedSize_toNat (s : PoolSpec) : (rtAlignDown s.size 4).toNat = s.size.toNat / 4 * 4 :=
  toNat_and_not_mask 2 s.size

/-- The header does not make the block size wrap, or the pool would have no block. -/
theorem stride_toNat (ok : s.Ok) : (s.aligned + 4).toNat = s.stride := by
  have pos := ok.total_pos
  rw [stride, BitVec.toNat_add, toNat_four]
  by_contra wraps
  have top : s.aligned.toNat + 4 = 2 ^ 32 := by
    have isLt := s.aligned.isLt
    have multiple := aligned_toNat ok
    omega
  have zero : s.aligned + 4 = 0 := by
    apply BitVec.eq_of_toNat_eq
    rw [BitVec.toNat_add, toNat_four, top]
    rfl
  rw [total, zero, BitVec.toNat_udiv] at pos
  exact absurd pos (by simp)

/-- The blocks fill no more than the memory of the pool. -/
theorem total_mul_stride_le (ok : s.Ok) : s.total.toNat * s.stride ≤ s.size.toNat := by
  rw [total, BitVec.toNat_udiv, stride_toNat ok, alignedSize_toNat]
  exact le_trans (Nat.div_mul_le_self _ _) (Nat.div_mul_le_self _ _)

theorem node_toNat (ok : s.Ok) {k : ℕ} (inside : k ≤ s.total.toNat) :
    (s.node k).toNat = s.start.toNat + k * s.stride := by
  have room := le_trans (Nat.mul_le_mul_right s.stride inside) (total_mul_stride_le ok)
  have fits := ok.fits
  have small : k < 2 ^ 32 := lt_of_le_of_lt inside s.total.isLt
  rw [node, BitVec.toNat_add, BitVec.toNat_mul, stride_toNat ok, BitVec.toNat_ofNat,
    Nat.mod_eq_of_lt small, Nat.mod_eq_of_lt (by omega : k * s.stride < 2 ^ 32),
    Nat.mod_eq_of_lt (by omega)]

theorem mem_nodes {x : BitVec 32} : x ∈ s.nodes ↔ ∃ k < s.total.toNat, s.node k = x := by
  simp only [nodes, List.mem_map, List.mem_range]

theorem length_nodes (s : PoolSpec) : s.nodes.length = s.total.toNat := by
  rw [nodes, List.length_map, List.length_range]

/-- A node and its block lie inside the pool. -/
theorem node_mem (ok : s.Ok) {x : BitVec 32} (node : x ∈ s.nodes) :
    s.start.toNat ≤ x.toNat ∧ x.toNat + s.stride ≤ s.start.toNat + s.size.toNat := by
  obtain ⟨k, inside, rfl⟩ := mem_nodes.mp node
  have room := le_trans (Nat.mul_le_mul_right s.stride inside) (total_mul_stride_le ok)
  rw [node_toNat ok inside.le]
  rw [Nat.succ_mul] at room
  omega

theorem four_le_stride (s : PoolSpec) : 4 ≤ s.stride := Nat.le_add_left 4 _

instance : Std.Symm Separate := ⟨fun _ _ h => ⟨h.mp_ne.symm, h.apart.symm⟩⟩

/-- Two nodes of a pool, each with its block, lie one behind the other. -/
theorem node_separate_within (ok : s.Ok) {x y : BitVec 32} (nodex : x ∈ s.nodes)
    (nodey : y ∈ s.nodes) (ne : x ≠ y) :
    x.toNat + s.stride ≤ y.toNat ∨ y.toNat + s.stride ≤ x.toNat := by
  obtain ⟨k, insidex, rfl⟩ := mem_nodes.mp nodex
  obtain ⟨l, insidey, rfl⟩ := mem_nodes.mp nodey
  rw [node_toNat ok insidex.le, node_toNat ok insidey.le]
  rcases lt_trichotomy k l with before | rfl | after
  · have gap := Nat.mul_le_mul_right s.stride before
    rw [Nat.succ_mul] at gap
    omega
  · exact absurd rfl ne
  · have gap := Nat.mul_le_mul_right s.stride after
    rw [Nat.succ_mul] at gap
    omega

theorem nodup_nodes (ok : s.Ok) : s.nodes.Nodup := by
  apply List.Nodup.map_on _ List.nodup_range
  intro k inside l inside' same
  rw [List.mem_range] at inside inside'
  have equal := congrArg BitVec.toNat same
  rw [node_toNat ok inside.le, node_toNat ok inside'.le] at equal
  exact Nat.eq_of_mul_eq_mul_right (Nat.zero_lt_of_lt (four_le_stride s))
    (Nat.add_left_cancel equal)

theorem node_ne_zero (ok : s.Ok) {x : BitVec 32} (node : x ∈ s.nodes) : x ≠ 0 := by
  rintro rfl
  obtain ⟨after, -⟩ := node_mem ok node
  exact ok.start_ne (BitVec.eq_of_toNat_eq (Nat.le_zero.mp after))

/-- The block behind a header. -/
theorem block_toNat (ok : s.Ok) {x : BitVec 32} (node : x ∈ s.nodes) :
    (x + 4).toNat = x.toNat + 4 := by
  obtain ⟨-, inside⟩ := node_mem ok node
  have fits := ok.fits
  have stride := four_le_stride s
  rw [BitVec.toNat_add, toNat_four, Nat.mod_eq_of_lt (by omega)]

/-- The words of two headers of a pool. -/
theorem node_apart_of_lt (ok : s.Ok) {i n : ℕ} (before : i < n) (inside : n < s.total.toNat) :
    Apart (s.node n) (s.node i) := by
  obtain ⟨-, beforen⟩ := node_mem ok (mem_nodes.mpr ⟨n, inside, rfl⟩)
  obtain ⟨-, beforei⟩ := node_mem ok (mem_nodes.mpr ⟨i, before.trans inside, rfl⟩)
  have fits := ok.fits
  have stride := s.four_le_stride
  have gap := Nat.mul_le_mul_right s.stride before
  rw [Nat.succ_mul] at gap
  refine ⟨by omega, by omega, Or.inr ?_⟩
  rw [node_toNat ok inside.le, node_toNat ok (before.trans inside).le]
  omega

theorem node_zero (s : PoolSpec) : s.node 0 = s.start := by
  rw [node, BitVec.ofNat_eq_ofNat, BitVec.zero_mul, BitVec.add_zero]

end PoolSpec

/-- Pools with control blocks and memory of their own. -/
structure Arena (specs : List PoolSpec) : Prop where
  ok : ∀ s ∈ specs, s.Ok
  separate : specs.Pairwise PoolSpec.Separate

namespace Arena

variable {specs : List PoolSpec} {s t : PoolSpec} {x y : BitVec 32}

theorem separate_of_ne (arena : Arena specs) (hs : s ∈ specs) (ht : t ∈ specs) (ne : s ≠ t) :
    s.Separate t :=
  arena.separate.forall hs ht ne

/-- Two nodes, of one pool or of two, lie one behind the other with all of their
blocks. -/
theorem node_separate (arena : Arena specs) (hs : s ∈ specs) (ht : t ∈ specs) (nodex : x ∈ s.nodes)
    (nodey : y ∈ t.nodes) (ne : x ≠ y) :
    x.toNat + s.stride ≤ y.toNat ∨ y.toNat + t.stride ≤ x.toNat := by
  by_cases same : s = t
  · subst same
    exact PoolSpec.node_separate_within (arena.ok s hs) nodex nodey ne
  · obtain ⟨afterx, beforex⟩ := PoolSpec.node_mem (arena.ok s hs) nodex
    obtain ⟨aftery, beforey⟩ := PoolSpec.node_mem (arena.ok t ht) nodey
    rcases (arena.separate_of_ne hs ht same).apart with before | after
    · exact Or.inl (le_trans beforex (le_trans before aftery))
    · exact Or.inr (le_trans beforey (le_trans after afterx))

theorem node_apart (arena : Arena specs) (hs : s ∈ specs) (ht : t ∈ specs) (nodex : x ∈ s.nodes)
    (nodey : y ∈ t.nodes) (ne : x ≠ y) : Apart x y := by
  obtain ⟨-, beforex⟩ := PoolSpec.node_mem (arena.ok s hs) nodex
  obtain ⟨-, beforey⟩ := PoolSpec.node_mem (arena.ok t ht) nodey
  have fitsx := (arena.ok s hs).fits
  have fitsy := (arena.ok t ht).fits
  have stridex := s.four_le_stride
  have stridey := t.four_le_stride
  exact ⟨by omega, by omega,
    (arena.node_separate hs ht nodex nodey ne).imp (by omega) (by omega)⟩

theorem node_ne (arena : Arena specs) (hs : s ∈ specs) (ht : t ∈ specs) (nodex : x ∈ s.nodes)
    (nodey : y ∈ t.nodes) (ne : s ≠ t) : x ≠ y := by
  rintro rfl
  obtain ⟨afterx, beforex⟩ := PoolSpec.node_mem (arena.ok s hs) nodex
  obtain ⟨aftery, beforey⟩ := PoolSpec.node_mem (arena.ok t ht) nodey
  have stridex := s.four_le_stride
  have stridey := t.four_le_stride
  have apart := (arena.separate_of_ne hs ht ne).apart
  omega

end Arena

/-! ## The invariant -/

namespace PoolRun

/-- The headers of the blocks in use that were taken from a pool. -/
def held (r : PoolRun) (s : PoolSpec) : List (BitVec 32) :=
  (r.live.filter fun e => e.1 = s.mp).map fun e => e.2 - 4

/-- What holds of one pool: its free list, in memory as linked, makes up all of its nodes
together with the headers of its blocks in use. -/
structure PoolOk (r : PoolRun) (s : PoolSpec) (frees : List (BitVec 32)) : Prop where
  blockSize : (r.sys.pools s.mp).blockSize = s.aligned
  total : (r.sys.pools s.mp).blockTotalCount = s.total
  chain : Chain (load32 r.sys.mem) 0 (r.sys.pools s.mp).blockList frees
  count : (r.sys.pools s.mp).blockFreeCount.toNat = frees.length
  whole : (frees ++ r.held s).Perm s.nodes

/-- What holds of all pools and of the blocks in use. -/
structure Ok (specs : List PoolSpec) (r : PoolRun) : Prop where
  pool : ∀ s ∈ specs, ∃ frees, PoolOk r s frees
  owner : ∀ e ∈ r.live, load32 r.sys.mem (e.2 - 4) = e.1
  known : ∀ e ∈ r.live, ∃ s ∈ specs, s.mp = e.1

variable {specs : List PoolSpec} {r r' : PoolRun} {s t : PoolSpec} {frees : List (BitVec 32)}
  {x : BitVec 32}

theorem mem_held {e : BitVec 32 × BitVec 32} (live : e ∈ r.live) (from_ : s.mp = e.1) :
    e.2 - 4 ∈ r.held s :=
  List.mem_map.mpr ⟨e, List.mem_filter.mpr ⟨live, by simp [from_]⟩, rfl⟩

namespace PoolOk

theorem free_node (h : PoolOk r s frees) (mem : x ∈ frees) : x ∈ s.nodes :=
  h.whole.subset (List.mem_append_left _ mem)

theorem held_node (h : PoolOk r s frees) (mem : x ∈ r.held s) : x ∈ s.nodes :=
  h.whole.subset (List.mem_append_right _ mem)

theorem nodup (h : PoolOk r s frees) (ok : s.Ok) : (frees ++ r.held s).Nodup :=
  h.whole.nodup_iff.mpr (PoolSpec.nodup_nodes ok)

theorem length (h : PoolOk r s frees) : frees.length + (r.held s).length = s.total.toNat := by
  rw [← List.length_append, h.whole.length_eq, PoolSpec.length_nodes]

/-- What leaves the control block, the headers and the blocks in use of a pool alone. -/
theorem frame (h : PoolOk r s frees) (pools : r'.sys.pools s.mp = r.sys.pools s.mp)
    (words : ∀ x ∈ s.nodes, load32 r'.sys.mem x = load32 r.sys.mem x)
    (held : r'.held s = r.held s) : PoolOk r' s frees where
  blockSize := by rw [pools, h.blockSize]
  total := by rw [pools, h.total]
  chain := by
    rw [pools]
    exact h.chain.congr fun x mem => words x (h.free_node mem)
  count := by rw [pools, h.count]
  whole := by
    rw [held]
    exact h.whole

/-- A store to a header of another pool. -/
theorem other {v : BitVec 32} (h : PoolOk r t frees) (arena : Arena specs) (hs : s ∈ specs)
    (ht : t ∈ specs) (ne : t ≠ s) (nodex : x ∈ s.nodes)
    (mem : r'.sys.mem = store32 r.sys.mem x v) (pools : r'.sys.pools t.mp = r.sys.pools t.mp)
    (held : r'.held t = r.held t) : PoolOk r' t frees := by
  refine h.frame pools (fun y nodey => ?_) held
  rw [mem]
  apply load32_store32_of_apart
  exact arena.node_apart hs ht nodex nodey (arena.node_ne hs ht nodex nodey (Ne.symm ne))

end PoolOk

/-- The header of a block in use. -/
theorem Ok.header (ok : Ok specs r) {e : BitVec 32 × BitVec 32} (live : e ∈ r.live) :
    ∃ s ∈ specs, s.mp = e.1 ∧ e.2 - 4 ∈ s.nodes := by
  obtain ⟨s, hs, from_⟩ := ok.known e live
  obtain ⟨frees, pool⟩ := ok.pool s hs
  exact ⟨s, hs, from_, pool.held_node (mem_held live from_)⟩

/-! ### Initialisation -/

/-- The links of a pool as the loop of `mp_init` leaves them. -/
theorem load32_mpInitLinks (ok : s.Ok) (m : Mem) {n : ℕ} (inside : n ≤ s.total.toNat) :
    (∀ i < n, load32 (PoolMem.mpInitLinks m s.start (s.aligned + 4) n) (s.node i) =
      s.node (i + 1)) ∧
      ∀ y, (∀ i < n, Apart (s.node i) y) →
        load32 (PoolMem.mpInitLinks m s.start (s.aligned + 4) n) y = load32 m y := by
  induction n with
  | zero => exact ⟨nofun, fun _ _ => rfl⟩
  | succ n ih =>
      obtain ⟨links, frame⟩ := ih (Nat.le_of_succ_le inside)
      have unfold_ : PoolMem.mpInitLinks m s.start (s.aligned + 4) (n + 1) =
          store32 (PoolMem.mpInitLinks m s.start (s.aligned + 4) n) (s.node n)
            (s.node (n + 1)) := by
        rw [PoolMem.mpInitLinks, List.range_succ, List.foldl_append, PoolSpec.node, PoolSpec.node,
          BitVec.ofNat_add]
        rfl
      have apart (i : ℕ) (before : i < n) : Apart (s.node n) (s.node i) :=
        PoolSpec.node_apart_of_lt ok before inside
      rw [unfold_]
      refine ⟨fun i before => ?_, fun y away => ?_⟩
      · rcases Nat.lt_succ_iff_lt_or_eq.mp before with earlier | rfl
        · rw [load32_store32_of_apart _ _ (apart i earlier), links i earlier]
        · rw [load32_store32]
      · rw [load32_store32_of_apart _ _ (away n (Nat.lt_succ_self n)),
          frame y fun i before => away i (Nat.lt_succ_of_lt before)]

/-- The pool as `mp_init` leaves it, nothing handed out: all nodes are free, in order. -/
def Ready (w : PoolMem) (s : PoolSpec) : Prop := PoolOk ⟨w, []⟩ s s.nodes

/-- Both halves of what `mp_init` does to the headers. -/
theorem load32_mpInit (ok : s.Ok) (w : PoolMem) {m : Mem}
    (init : (w.mpInit s.mp s.start s.size s.blockSize).mem = m) :
    (∀ i, i + 1 < s.total.toNat → load32 m (s.node i) = s.node (i + 1)) ∧
      load32 m (s.node (s.total.toNat - 1)) = 0 ∧
      ∀ y, (∀ x ∈ s.nodes, Apart x y) → load32 m y = load32 w.mem y := by
  obtain ⟨links, frame⟩ := load32_mpInitLinks ok w.mem le_rfl
  have pos := ok.total_pos
  have last : s.start + (s.total - 1) * (s.aligned + 4) = s.node (s.total.toNat - 1) := by
    have index : s.total - 1 = BitVec.ofNat 32 (s.total.toNat - 1) := by
      apply BitVec.eq_of_toNat_eq
      have isLt := s.total.isLt
      have one : (1 : BitVec 32).toNat = 1 := rfl
      rw [BitVec.toNat_sub, BitVec.toNat_ofNat, one]
      omega
    rw [PoolSpec.node, index]
  have mem : m = store32 (PoolMem.mpInitLinks w.mem s.start (s.aligned + 4) s.total.toNat)
      (s.node (s.total.toNat - 1)) 0 := by
    rw [← last, ← init]
    rfl
  rw [mem]
  refine ⟨fun i before => ?_, load32_store32 _ _ _, fun y away => ?_⟩
  · rw [load32_store32_of_apart _ _ (PoolSpec.node_apart_of_lt ok (by omega) (by omega))]
    exact links i (by omega)
  · have node (i : ℕ) (inside : i < s.total.toNat) : s.node i ∈ s.nodes :=
      PoolSpec.mem_nodes.mpr ⟨i, inside, rfl⟩
    rw [load32_store32_of_apart _ _ (away _ (node _ (by omega)))]
    exact frame y fun i inside => away _ (node i inside)

theorem ready_mpInit (ok : s.Ok) (w : PoolMem) :
    Ready (w.mpInit s.mp s.start s.size s.blockSize) s := by
  obtain ⟨links, last, -⟩ := load32_mpInit ok w rfl
  have control : (w.mpInit s.mp s.start s.size s.blockSize).pools s.mp =
      ⟨s.start, rtAlignDown s.size 4, s.aligned, s.start, s.total, s.total⟩ :=
    Function.update_self _ _ _
  generalize w.mpInit s.mp s.start s.size s.blockSize = w' at links last control ⊢
  have node (i : ℕ) (inside : i < 0 + s.total.toNat) : s.node i ≠ 0 :=
    PoolSpec.node_ne_zero ok (PoolSpec.mem_nodes.mpr ⟨i, by omega, rfl⟩)
  constructor
  · rw [control]
  · rw [control]
  · rw [control, PoolSpec.nodes, List.range_eq_range', ← PoolSpec.node_zero]
    rw [← Nat.zero_add s.total.toNat] at links last
    exact chain_map_range' node links last ok.total_pos
  · rw [control, PoolSpec.length_nodes]
  · exact List.Perm.of_eq (List.append_nil _)

/-- Initialising one pool leaves the others as they are. -/
theorem Ready.mpInit {w : PoolMem} (ready : Ready w s) (oks : s.Ok) (okt : t.Ok)
    (separate : s.Separate t) : Ready (w.mpInit t.mp t.start t.size t.blockSize) s := by
  have arena : Arena [s, t] :=
    ⟨by simpa using ⟨oks, okt⟩, List.pairwise_pair.mpr separate⟩
  have ne : t ≠ s := by
    rintro rfl
    exact separate.mp_ne rfl
  obtain ⟨-, -, frame⟩ := load32_mpInit okt w rfl
  apply ready.frame
  · exact Function.update_of_ne separate.mp_ne _ _
  · intro y nodey
    apply frame
    intro x nodex
    exact arena.node_apart (by simp) (by simp) nodex nodey
      (arena.node_ne (by simp) (by simp) nodex nodey ne)
  · rfl

theorem ready_setup (ok : ∀ s ∈ specs, s.Ok) (separate : specs.Pairwise PoolSpec.Separate)
    (w : PoolMem) : ∀ s ∈ specs, Ready (setup specs w).sys s := by
  have kept (rest : List PoolSpec) (s : PoolSpec) (oks : s.Ok)
      (others : ∀ t ∈ rest, t.Ok ∧ s.Separate t) (w : PoolMem) (ready : Ready w s) :
      Ready (setup rest w).sys s := by
    induction rest generalizing w with
    | nil => exact ready
    | cons t rest ih =>
        obtain ⟨okt, apart⟩ := others t List.mem_cons_self
        exact ih (fun u mem => others u (List.mem_cons_of_mem t mem)) _ (ready.mpInit oks okt apart)
  induction specs generalizing w with
  | nil => exact nofun
  | cons t rest ih =>
      obtain ⟨apart, later⟩ := List.pairwise_cons.mp separate
      obtain ⟨okt, oks⟩ := List.forall_mem_cons.mp ok
      intro s mem
      rcases List.mem_cons.mp mem with rfl | mem
      · exact kept rest s okt (fun u mem => ⟨oks u mem, apart u mem⟩) _ (ready_mpInit okt w)
      · exact ih oks later _ s mem

theorem ok_setup (arena : Arena specs) (w : PoolMem) : Ok specs (setup specs w) where
  pool s hs := ⟨s.nodes, ready_setup arena.ok arena.separate w s hs⟩
  owner := nofun
  known := nofun

/-! ### Taking a block -/

theorem mpAlloc_empty {w : PoolMem} {mp : BitVec 32} (empty : (w.pools mp).blockFreeCount = 0) :
    w.mpAlloc mp = (w, 0) := by
  simp only [PoolMem.mpAlloc, empty, ne_eq, not_true_eq_false, if_false]

theorem mpAlloc_some {w : PoolMem} {mp : BitVec 32} (some_ : (w.pools mp).blockFreeCount ≠ 0) :
    w.mpAlloc mp =
      ({ mem := store32 w.mem (w.pools mp).blockList mp
         pools := Function.update w.pools mp
          { w.pools mp with
            blockFreeCount := (w.pools mp).blockFreeCount - 1
            blockList := load32 w.mem (w.pools mp).blockList } },
        (w.pools mp).blockList + 4) := by
  simp only [PoolMem.mpAlloc, if_pos some_]

theorem count_eq_zero_iff (pool : PoolOk r s frees) :
    (r.sys.pools s.mp).blockFreeCount = 0 ↔ frees = [] := by
  rw [← List.length_eq_zero_iff, ← pool.count]
  exact ⟨fun zero => by rw [zero]; rfl, fun zero => BitVec.eq_of_toNat_eq zero⟩

/-- A header of the free list is none of a block in use. -/
theorem free_ne_header (arena : Arena specs) (ok : Ok specs r) (hs : s ∈ specs)
    (pool : PoolOk r s frees) (free : x ∈ frees) {e : BitVec 32 × BitVec 32} (live : e ∈ r.live) :
    x ≠ e.2 - 4 := by
  obtain ⟨t, ht, from_, node⟩ := ok.header live
  by_cases same : s = t
  · subst same
    exact (List.nodup_append.mp (pool.nodup (arena.ok s hs))).2.2 x free _ (mem_held live from_)
  · exact arena.node_ne hs ht (pool.free_node free) node same

/-- The state after the free block with the header `x` has been handed out by a pool. -/
def take (r : PoolRun) (mp x : BitVec 32) : PoolRun where
  sys :=
    { mem := store32 r.sys.mem x mp
      pools := Function.update r.sys.pools mp
        { r.sys.pools mp with
          blockFreeCount := (r.sys.pools mp).blockFreeCount - 1
          blockList := load32 r.sys.mem x } }
  live := (mp, x + 4) :: r.live

theorem held_take (r : PoolRun) (s : PoolSpec) (x : BitVec 32) :
    (r.take s.mp x).held s = x :: r.held s := by
  rw [held, take, List.filter_cons_of_pos (by simp), List.map_cons, add_sub_cancel_right, held]

theorem held_take_of_ne (r : PoolRun) (x : BitVec 32) (ne : t.mp ≠ s.mp) :
    (r.take s.mp x).held t = r.held t := by
  rw [held, take, List.filter_cons_of_neg (by simpa using ne.symm), held]

/-- A pool whose first free block has been handed out. -/
theorem poolOk_take (arena : Arena specs) (hs : s ∈ specs) {rest : List (BitVec 32)}
    (pool : PoolOk r s (x :: rest)) : PoolOk (r.take s.mp x) s rest := by
  have nodex := pool.free_node List.mem_cons_self
  obtain ⟨-, -, links⟩ := pool.chain
  constructor
  · simp only [take, Function.update_self]
    exact pool.blockSize
  · simp only [take, Function.update_self]
    exact pool.total
  · simp only [take, Function.update_self]
    refine links.congr fun y mem => load32_store32_of_apart _ _ ?_
    apply arena.node_apart hs hs nodex (pool.free_node (List.mem_cons_of_mem x mem))
    rintro rfl
    exact (List.nodup_cons.mp (List.nodup_append.mp (pool.nodup (arena.ok s hs))).1).1 mem
  · have count := pool.count
    rw [List.length_cons] at count
    have one : (1 : BitVec 32).toNat = 1 := rfl
    simp only [take, Function.update_self, BitVec.toNat_sub, one]
    omega
  · rw [held_take]
    exact List.perm_middle.trans pool.whole

theorem ok_take (arena : Arena specs) (ok : Ok specs r) (hs : s ∈ specs) {rest : List (BitVec 32)}
    (pool : PoolOk r s (x :: rest)) :
    Ok specs (r.take s.mp x) := by
  have nodex := pool.free_node List.mem_cons_self
  constructor
  · intro t ht
    by_cases same : t = s
    · subst same
      exact ⟨rest, poolOk_take arena ht pool⟩
    · obtain ⟨frees, others⟩ := ok.pool t ht
      have mp_ne := (arena.separate_of_ne ht hs same).mp_ne
      exact ⟨frees, others.other arena hs ht same nodex rfl (Function.update_of_ne mp_ne _ _)
        (held_take_of_ne r x mp_ne)⟩
  · refine List.forall_mem_cons.mpr ⟨?_, fun e live => ?_⟩
    · rw [take, add_sub_cancel_right, load32_store32]
    · obtain ⟨t, ht, from_, node⟩ := ok.header live
      rw [take, load32_store32_of_apart, ok.owner e live]
      exact arena.node_apart hs ht nodex node
        (free_ne_header arena ok hs pool List.mem_cons_self live)
  · exact List.forall_mem_cons.mpr ⟨⟨s, hs, rfl⟩, ok.known⟩

/-- A pool without free blocks answers with the null pointer and stays as it is. -/
theorem step_alloc_empty (pool : PoolOk r s []) :
    r.sys.mpAlloc s.mp = (r.sys, 0) ∧ r.step (.alloc s.mp) = r := by
  have empty := mpAlloc_empty ((count_eq_zero_iff pool).mpr rfl)
  refine ⟨empty, ?_⟩
  simp only [step, empty, if_true]

/-- A pool with free blocks hands out the first. -/
theorem step_alloc_cons (ok : s.Ok) {rest : List (BitVec 32)} (pool : PoolOk r s (x :: rest)) :
    (r.sys.mpAlloc s.mp).2 = x + 4 ∧ x + 4 ≠ 0 ∧ r.step (.alloc s.mp) = r.take s.mp x := by
  have some_ := mt (count_eq_zero_iff pool).mp (List.cons_ne_nil x rest)
  obtain ⟨first, -, -⟩ := pool.chain
  have answer := mpAlloc_some some_
  rw [first] at answer
  have address : x + 4 ≠ 0 := by
    intro zero
    have value := congrArg BitVec.toNat zero
    rw [PoolSpec.block_toNat ok (pool.free_node List.mem_cons_self)] at value
    exact absurd value (Nat.succ_ne_zero _)
  refine ⟨by rw [answer], address, ?_⟩
  simp only [step, answer, if_neg address, take]

/-! ### Giving a block back -/

theorem mpFree_eq {w : PoolMem} {block mp : BitVec 32} (owner : load32 w.mem (block - 4) = mp) :
    w.mpFree block =
      { mem := store32 w.mem (block - 4) (w.pools mp).blockList
        pools := Function.update w.pools mp
          { w.pools mp with
            blockFreeCount := (w.pools mp).blockFreeCount + 1, blockList := block - 4 } } := by
  rw [PoolMem.mpFree, owner]

/-- The state after the block with the header `x` has come back to a pool, with the blocks
`live` still in use. -/
def give (r : PoolRun) (mp x : BitVec 32) (live : List (BitVec 32 × BitVec 32)) : PoolRun where
  sys :=
    { mem := store32 r.sys.mem x (r.sys.pools mp).blockList
      pools := Function.update r.sys.pools mp
        { r.sys.pools mp with
          blockFreeCount := (r.sys.pools mp).blockFreeCount + 1, blockList := x } }
  live := live

/-- What the step of a release does, with the entry it takes out of the blocks in use. -/
theorem step_free (ok : Ok specs r) {block : BitVec 32} (legal : ∃ e ∈ r.live, e.2 = block) :
    ∃ e before after, e.2 = block ∧ r.live = before ++ e :: after ∧
      r.step (.free block) = r.give e.1 (e.2 - 4) (before ++ after) := by
  obtain ⟨e₀, mem₀, same₀⟩ := legal
  obtain ⟨e, before, after, -, same, split, erased⟩ :=
    List.exists_of_eraseP (p := fun e => decide (e.2 = block)) mem₀ (by simpa using same₀)
  have isBlock : e.2 = block := of_decide_eq_true same
  have live : e ∈ r.live := by
    rw [split]
    exact List.mem_append_right before List.mem_cons_self
  refine ⟨e, before, after, isBlock, split, ?_⟩
  simp only [step, erased]
  rw [← isBlock, mpFree_eq (ok.owner e live)]
  rfl

/-- The header given back is the first of the free list. -/
theorem chain_give (arena : Arena specs) (hs : s ∈ specs) (pool : PoolOk r s frees)
    (node : x ∈ s.nodes) (used : ∀ y ∈ frees, y ≠ x) (live : List (BitVec 32 × BitVec 32)) :
    Chain (load32 (r.give s.mp x live).sys.mem) 0
      ((r.give s.mp x live).sys.pools s.mp).blockList (x :: frees) := by
  simp only [give, Function.update_self]
  refine ⟨rfl, PoolSpec.node_ne_zero (arena.ok s hs) node, ?_⟩
  rw [load32_store32]
  refine pool.chain.congr fun y free => load32_store32_of_apart _ _ ?_
  exact arena.node_apart hs hs node (pool.free_node free) (used y free).symm

/-- A pool that a block has come back to. -/
theorem poolOk_give (arena : Arena specs) (hs : s ∈ specs) (pool : PoolOk r s frees)
    (node : x ∈ s.nodes) (used : ∀ y ∈ frees, y ≠ x) {before after : List (BitVec 32)}
    {live : List (BitVec 32 × BitVec 32)} (heldWith : r.held s = before ++ x :: after)
    (heldWithout : (r.give s.mp x live).held s = before ++ after) :
    PoolOk (r.give s.mp x live) s (x :: frees) := by
  constructor
  · simp only [give, Function.update_self]
    exact pool.blockSize
  · simp only [give, Function.update_self]
    exact pool.total
  · exact chain_give arena hs pool node used _
  · have length := pool.length
    rw [heldWith, List.length_append, List.length_cons] at length
    have count := pool.count
    have isLt := s.total.isLt
    have one : (1 : BitVec 32).toNat = 1 := rfl
    simp only [give, Function.update_self, BitVec.toNat_add, one, List.length_cons]
    omega
  · rw [heldWithout, List.cons_append, ← List.append_assoc]
    refine List.perm_middle.symm.trans ?_
    rw [List.append_assoc, ← heldWith]
    exact pool.whole

theorem ok_free (arena : Arena specs) (ok : Ok specs r) {block : BitVec 32}
    (legal : ∃ e ∈ r.live, e.2 = block) : Ok specs (r.step (.free block)) := by
  obtain ⟨e, before, after, -, split, stepped⟩ := step_free ok legal
  have live : e ∈ r.live := by
    rw [split]
    exact List.mem_append_right before List.mem_cons_self
  have others {f : BitVec 32 × BitVec 32} (mem : f ∈ before ++ after) : f ∈ r.live := by
    rw [split]
    exact List.mem_append.mpr ((List.mem_append.mp mem).imp_right (List.mem_cons_of_mem e))
  obtain ⟨s, hs, from_, nodex⟩ := ok.header live
  obtain ⟨frees, pool⟩ := ok.pool s hs
  rw [stepped, ← from_]
  have notFree (y : BitVec 32) (free : y ∈ frees) : y ≠ e.2 - 4 :=
    free_ne_header arena ok hs pool free live
  generalize header : e.2 - 4 = x at nodex notFree ⊢
  have heldWith : r.held s =
      (r.give s.mp x before).held s ++ x :: (r.give s.mp x after).held s := by
    simpa [held, give, split, from_] using header
  have heldWithout : (r.give s.mp x (before ++ after)).held s =
      (r.give s.mp x before).held s ++ (r.give s.mp x after).held s := by
    simp [held, give]
  have nodup := pool.nodup (arena.ok s hs)
  constructor
  · intro t ht
    by_cases same : t = s
    · subst same
      exact ⟨x :: frees, poolOk_give arena ht pool nodex notFree heldWith heldWithout⟩
    · obtain ⟨frees', pool'⟩ := ok.pool t ht
      have mp_ne := (arena.separate_of_ne ht hs same).mp_ne
      have foreign : e.1 ≠ t.mp := by
        rw [← from_]
        exact mp_ne.symm
      exact ⟨frees', pool'.other arena hs ht same nodex rfl (Function.update_of_ne mp_ne _ _)
        (by simp [held, give, split, foreign])⟩
  · intro f mem
    obtain ⟨t, ht, from', nodey⟩ := ok.header (others mem)
    rw [give, load32_store32_of_apart, ok.owner f (others mem)]
    apply arena.node_apart hs ht nodex nodey
    by_cases same : s = t
    · subst same
      rw [heldWith] at nodup
      have distinct := (List.nodup_middle.mp (List.nodup_append.mp nodup).2.1)
      have inRest : f.2 - 4 ∈ (r.give s.mp x (before ++ after)).held s := mem_held mem from'
      rw [heldWithout] at inRest
      rintro rfl
      exact (List.nodup_cons.mp distinct).1 inRest
    · exact arena.node_ne hs ht nodex nodey same
  · intro f mem
    exact ok.known f (others mem)

/-! ### Writing into a block -/

/-- The block behind a header in use, and what it offers. -/
theorem Ok.usable_eq (ok : Ok specs r) {e : BitVec 32 × BitVec 32} (hs : s ∈ specs)
    (from_ : s.mp = e.1) : r.usable e + 4 = s.stride := by
  obtain ⟨frees, pool⟩ := ok.pool s hs
  rw [usable, ← from_, pool.blockSize, PoolSpec.stride]

theorem block_eq (arena : Arena specs) {e : BitVec 32 × BitVec 32} (hs : s ∈ specs)
    (node : e.2 - 4 ∈ s.nodes) : e.2.toNat = (e.2 - 4).toNat + 4 := by
  rw [← PoolSpec.block_toNat (arena.ok s hs) node, sub_add_cancel]

theorem ok_write (arena : Arena specs) (ok : Ok specs r) {address : BitVec 32} (value : BitVec 8)
    (legal : r.Legal specs (.write address value)) : Ok specs (r.step (.write address value)) := by
  obtain ⟨e, live, first, last⟩ := legal
  obtain ⟨s, hs, owner, nodex⟩ := ok.header live
  have block := block_eq arena hs nodex
  have usable := ok.usable_eq hs owner
  -- the byte written lies behind its own header and before the next
  have words {t : PoolSpec} (ht : t ∈ specs) {y : BitVec 32} (nodey : y ∈ t.nodes) :
      load32 (Function.update r.sys.mem address value) y = load32 r.sys.mem y := by
    have fits := (arena.ok t ht).fits
    have stride := t.four_le_stride
    obtain ⟨-, inside⟩ := PoolSpec.node_mem (arena.ok t ht) nodey
    apply load32_update value (by omega)
    by_cases same : e.2 - 4 = y
    · rw [← same]
      omega
    · rcases arena.node_separate hs ht nodex nodey same with before | after <;> omega
  constructor
  · intro t ht
    obtain ⟨frees, pool⟩ := ok.pool t ht
    exact ⟨frees, pool.frame rfl (fun y nodey => words ht nodey) rfl⟩
  · intro f mem
    obtain ⟨t, ht, -, nodey⟩ := ok.header mem
    exact (words ht nodey).trans (ok.owner f mem)
  · exact ok.known

/-- Every legal operation keeps the invariant. -/
theorem ok_step (arena : Arena specs) (r : PoolRun) (op : PoolOp) (ok : Ok specs r)
    (legal : r.Legal specs op) : Ok specs (r.step op) := by
  cases op with
  | alloc mp =>
      obtain ⟨s, hs, rfl⟩ := legal
      obtain ⟨frees, pool⟩ := ok.pool s hs
      cases frees with
      | nil => rwa [(step_alloc_empty pool).2]
      | cons x rest =>
          rw [(step_alloc_cons (arena.ok s hs) pool).2.2]
          exact ok_take arena ok hs pool
  | free block => exact ok_free arena ok legal
  | write address value => exact ok_write arena ok value legal

/-! ## Integrity -/

/-- What callers can rely on: their blocks are apart, inside their pool and large enough,
no block is handed out twice, the count is the length of the free list, a pool refuses
just when all of its blocks are in use, and a block given back goes to its own pool. -/
structure Integrity (specs : List PoolSpec) (r : PoolRun) : Prop where
  disjoint : r.live.Pairwise fun e f =>
    e.2.toNat + r.usable e ≤ f.2.toNat ∨ f.2.toNat + r.usable f ≤ e.2.toNat
  inside : ∀ e ∈ r.live, ∃ s ∈ specs, s.mp = e.1 ∧ s.blockSize.toNat ≤ r.usable e ∧
    s.start.toNat ≤ e.2.toNat ∧ e.2.toNat + r.usable e ≤ s.start.toNat + s.size.toNat
  fresh : ∀ s ∈ specs, (r.sys.mpAlloc s.mp).2 ≠ 0 → ∀ e ∈ r.live, e.2 ≠ (r.sys.mpAlloc s.mp).2
  count : ∀ s ∈ specs, ∃ frees,
    Chain (load32 r.sys.mem) 0 (r.sys.pools s.mp).blockList frees ∧
      (r.sys.pools s.mp).blockFreeCount.toNat = frees.length
  exhausted : ∀ s ∈ specs, (r.sys.mpAlloc s.mp).2 = 0 ↔
    (r.live.filter fun e => e.1 = s.mp).length = (r.sys.pools s.mp).blockTotalCount.toNat
  returned : ∀ e ∈ r.live,
    (∀ frees, Chain (load32 r.sys.mem) 0 (r.sys.pools e.1).blockList frees →
      Chain (load32 (r.sys.mpFree e.2).mem) 0 ((r.sys.mpFree e.2).pools e.1).blockList
        ((e.2 - 4) :: frees)) ∧
      ∀ mp ≠ e.1, (r.sys.mpFree e.2).pools mp = r.sys.pools mp

/-- The headers of the blocks in use are all different. -/
theorem pairwise_header (arena : Arena specs) (ok : Ok specs r) :
    r.live.Pairwise fun e f => e.2 - 4 ≠ f.2 - 4 := by
  apply pairwise_of_filter Prod.fst
  · intro mp
    by_cases known : ∃ s ∈ specs, s.mp = mp
    · obtain ⟨s, hs, rfl⟩ := known
      obtain ⟨frees, pool⟩ := ok.pool s hs
      exact List.pairwise_map.mp (List.nodup_append.mp (pool.nodup (arena.ok s hs))).2.1
    · have none_ : (r.live.filter fun e => e.1 = mp) = [] := by
        apply List.filter_eq_nil_iff.mpr
        intro e live from_
        obtain ⟨s, hs, owner⟩ := ok.known e live
        exact known ⟨s, hs, owner.trans (of_decide_eq_true from_)⟩
      rw [none_]
      exact List.Pairwise.nil
  · intro e live f live' ne
    obtain ⟨s, hs, owner, node⟩ := ok.header live
    obtain ⟨t, ht, owner', node'⟩ := ok.header live'
    apply arena.node_ne hs ht node node'
    rintro rfl
    exact ne (owner.symm.trans owner')

theorem integrity_of_ok (arena : Arena specs) (ok : Ok specs r) : Integrity specs r where
  disjoint := by
    apply (pairwise_header arena ok).imp_of_mem
    intro e f live live' ne
    obtain ⟨s, hs, owner, node⟩ := ok.header live
    obtain ⟨t, ht, owner', node'⟩ := ok.header live'
    have block := block_eq arena hs node
    have block' := block_eq arena ht node'
    have usable := ok.usable_eq hs owner
    have usable' := ok.usable_eq ht owner'
    rcases arena.node_separate hs ht node node' ne with before | after <;> omega
  inside e live := by
    obtain ⟨s, hs, owner, node⟩ := ok.header live
    have block := block_eq arena hs node
    have usable := ok.usable_eq hs owner
    have aligned := PoolSpec.aligned_toNat (arena.ok s hs)
    obtain ⟨after, before⟩ := PoolSpec.node_mem (arena.ok s hs) node
    rw [PoolSpec.stride] at usable before
    exact ⟨s, hs, owner, by omega, by omega, by omega⟩
  fresh s hs some_ e live := by
    obtain ⟨frees, pool⟩ := ok.pool s hs
    cases frees with
    | nil => exact absurd (congrArg Prod.snd (step_alloc_empty pool).1) some_
    | cons x rest =>
        rw [(step_alloc_cons (arena.ok s hs) pool).1]
        rintro same
        have header := free_ne_header arena ok hs pool List.mem_cons_self live
        exact header (by rw [same, add_sub_cancel_right])
  count s hs := by
    obtain ⟨frees, pool⟩ := ok.pool s hs
    exact ⟨frees, pool.chain, pool.count⟩
  exhausted s hs := by
    obtain ⟨frees, pool⟩ := ok.pool s hs
    have length := pool.length
    rw [held, List.length_map] at length
    rw [pool.total, ← length]
    cases frees with
    | nil =>
        rw [(step_alloc_empty pool).1]
        exact ⟨fun _ => (Nat.zero_add _).symm, fun _ => rfl⟩
    | cons x rest =>
        obtain ⟨answer, address, -⟩ := step_alloc_cons (arena.ok s hs) pool
        rw [answer, List.length_cons]
        exact ⟨fun zero => absurd zero address, fun full => absurd full (by omega)⟩
  returned e live := by
    obtain ⟨s, hs, owner, node⟩ := ok.header live
    obtain ⟨frees, pool⟩ := ok.pool s hs
    have freed : r.sys.mpFree e.2 = (r.give e.1 (e.2 - 4) r.live).sys := mpFree_eq (ok.owner e live)
    rw [freed, ← owner]
    refine ⟨fun frees' chain => ?_, fun mp ne => Function.update_of_ne ne _ _⟩
    rw [chain.unique pool.chain]
    exact chain_give arena hs pool node
      (fun y free => free_ne_header arena ok hs pool free live) r.live

/-- **The integrity of the memory pools.**  Over every run of allocations, releases and
writes on pools that have been initialised, in whatever order and on however many pools,
the blocks and the free lists are in order. -/
theorem mempool_integrity (arena : Arena specs) (w : PoolMem) {ops : List PoolOp}
    (legal : Guarded (Legal specs) step (setup specs w) ops) :
    Integrity specs (run step (setup specs w) ops) :=
  integrity_of_ok arena
    (run_invariant_of_guarded (ok_step arena) (ok_setup arena w) legal)

/-- A pool of two blocks of 5 bytes and one of two blocks of 4. -/
def twoPools : List PoolSpec := [⟨0x100, 0x1000, 32, 5⟩, ⟨0x200, 0x2000, 16, 4⟩]

theorem arena_twoPools : Arena twoPools where
  ok := by
    rintro s mem
    rcases List.mem_pair.mp mem with rfl | rfl
    · exact ⟨by decide +kernel, by decide, by decide, by decide⟩
    · exact ⟨by decide +kernel, by decide, by decide, by decide⟩
  separate := List.pairwise_pair.mpr ⟨by decide, by decide⟩

/-- Memory at power-up. -/
def blank : PoolMem := ⟨fun _ => 0, fun _ => ⟨0, 0, 0, 0, 0, 0⟩⟩

/-- Both pools in use at a time. -/
theorem mempool_integrity_twoPools :
    Integrity twoPools (run step (setup twoPools blank)
      [.alloc 0x100, .alloc 0x200, .alloc 0x100, .write 0x1004 0xFF, .free 0x1010, .alloc 0x100]) :=
  mempool_integrity arena_twoPools blank (by decide +kernel)

end PoolRun

end CannonCar
