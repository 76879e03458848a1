import Mathlib

/-!
# Words in byte memory, and lists threaded through it

A byte-addressed memory with 32-bit addresses; `load32` and `store32` are the
little-endian word accesses.  A store is seen by loads of the same word
(`load32_store32`) and by no load of a word that lies apart (`load32_store32_of_apart`).

`Chain next stop p xs` says that the list starting at `p` has the nodes `xs`: each is
followed by what `next` reads in it, and the last by `stop`.  The list is determined by
the memory (`Chain.unique`) and unchanged by what leaves its nodes alone
(`Chain.congr`).
-/

namespace WordMemory

/-- A byte for every address. -/
abbrev Mem := BitVec 32 → BitVec 8

/-- The word at `a`. -/
def load32 (m : Mem) (a : BitVec 32) : BitVec 32 := m (a + 3) ++ m (a + 2) ++ m (a + 1) ++ m a

/-- The word `v` stored at `a`. -/
def store32 (m : Mem) (a v : BitVec 32) : Mem := fun x =>
  if (x - a).toNat < 4 then v.extractLsb' (8 * (x - a).toNat) 8 else m x

/-- The words at `a` and at `b` have no byte in common, and neither runs past the end of
the address space. -/
structure Apart (a b : BitVec 32) : Prop where
  fits : a.toNat + 4 ≤ 2 ^ 32
  fits' : b.toNat + 4 ≤ 2 ^ 32
  apart : a.toNat + 4 ≤ b.toNat ∨ b.toNat + 4 ≤ a.toNat

theorem Apart.symm {a b : BitVec 32} (h : Apart a b) : Apart b a := ⟨h.fits', h.fits, h.apart.symm⟩

theorem store32_byte (m : Mem) (a v : BitVec 32) (i : ℕ) (byte : i < 4) :
    store32 m a v (a + BitVec.ofNat 32 i) = v.extractLsb' (8 * i) 8 := by
  have offset : (a + BitVec.ofNat 32 i - a).toNat = i := by
    rw [add_sub_cancel_left, BitVec.toNat_ofNat]
    omega
  rw [store32, offset, if_pos byte]

@[simp] theorem load32_store32 (m : Mem) (a v : BitVec 32) : load32 (store32 m a v) a = v := by
  have byte0 : store32 m a v a = v.extractLsb' (8 * 0) 8 := by
    have first := store32_byte m a v 0 (by decide)
    rwa [BitVec.add_zero] at first
  have byte1 : store32 m a v (a + 1) = v.extractLsb' (8 * 1) 8 := store32_byte m a v 1 (by decide)
  have byte2 : store32 m a v (a + 2) = v.extractLsb' (8 * 2) 8 := store32_byte m a v 2 (by decide)
  have byte3 : store32 m a v (a + 3) = v.extractLsb' (8 * 3) 8 := store32_byte m a v 3 (by decide)
  rw [load32, byte0, byte1, byte2, byte3]
  apply BitVec.eq_of_getLsbD_eq
  intro i inside
  simp only [BitVec.getLsbD_append, BitVec.getLsbD_extractLsb']
  by_cases in0 : i < 8
  · simp [in0]
  by_cases in1 : i - 8 < 8
  · rw [if_neg in0, if_pos in1, Nat.add_sub_cancel' (not_lt.mp in0)]
    simp [in1]
  by_cases in2 : i - 8 - 8 < 8
  · have place : 8 * 2 + (i - 8 - 8) = i := by omega
    rw [if_neg in0, if_neg in1, if_pos in2, place]
    simp [in2]
  · have place : 8 * 3 + (i - 8 - 8 - 8) = i := by omega
    have in3 : i - 8 - 8 - 8 < 8 := by omega
    rw [if_neg in0, if_neg in1, if_neg in2, place]
    simp [in3]

/-- A load sees the bytes of its word only. -/
theorem load32_congr {m m' : Mem} {a : BitVec 32}
    (same : ∀ x, (x - a).toNat < 4 → m x = m' x) : load32 m a = load32 m' a := by
  have byte (i : ℕ) (inside : i < 4) : m (a + BitVec.ofNat 32 i) = m' (a + BitVec.ofNat 32 i) := by
    apply same
    rw [add_sub_cancel_left, BitVec.toNat_ofNat]
    omega
  have byte0 : m a = m' a := by
    have first := byte 0 (by decide)
    rwa [BitVec.add_zero] at first
  have byte1 : m (a + 1) = m' (a + 1) := byte 1 (by decide)
  have byte2 : m (a + 2) = m' (a + 2) := byte 2 (by decide)
  have byte3 : m (a + 3) = m' (a + 3) := byte 3 (by decide)
  rw [load32, load32, byte0, byte1, byte2, byte3]

theorem load32_store32_of_apart (m : Mem) {a b : BitVec 32} (v : BitVec 32) (h : Apart a b) :
    load32 (store32 m a v) b = load32 m b := by
  apply load32_congr
  intro x inside
  obtain ⟨fits, fits', apart⟩ := h
  have outside : ¬ (x - a).toNat < 4 := by
    rw [BitVec.toNat_sub] at inside ⊢
    have := x.isLt
    omega
  exact if_neg outside

/-- Writing a byte outside a word leaves the word alone. -/
theorem load32_update {m : Mem} {a x : BitVec 32} (v : BitVec 8) (fits : a.toNat + 4 ≤ 2 ^ 32)
    (outside : x.toNat < a.toNat ∨ a.toNat + 4 ≤ x.toNat) :
    load32 (Function.update m x v) a = load32 m a := by
  apply load32_congr
  intro y inside
  apply Function.update_of_ne
  rintro rfl
  rw [BitVec.toNat_sub] at inside
  have := y.isLt
  omega

/-! ## Threaded lists -/

section Chain

variable {α : Type*}

/-- The list that starts at `p`, node by node. -/
def Chain (next : α → α) (stop : α) : α → List α → Prop
  | p, [] => p = stop
  | p, x :: xs => p = x ∧ x ≠ stop ∧ Chain next stop (next x) xs

variable {next next' : α → α} {stop p : α} {xs ys : List α}

/-- The memory determines the list. -/
theorem Chain.unique (h : Chain next stop p xs) (h' : Chain next stop p ys) : xs = ys := by
  induction xs generalizing p ys with
  | nil =>
      cases ys with
      | nil => rfl
      | cons y ys => exact absurd (h'.1.symm.trans h) h'.2.1
  | cons x xs ih =>
      cases ys with
      | nil => exact absurd (h.1.symm.trans h') h.2.1
      | cons y ys =>
          obtain ⟨rfl, -, rest⟩ := h
          obtain ⟨rfl, -, rest'⟩ := h'
          rw [ih rest rest']

/-- What leaves the nodes alone leaves the list alone. -/
theorem Chain.congr (h : Chain next stop p xs) (same : ∀ x ∈ xs, next' x = next x) :
    Chain next' stop p xs := by
  induction xs generalizing p with
  | nil => exact h
  | cons x xs ih =>
      obtain ⟨start, node, rest⟩ := h
      refine ⟨start, node, ?_⟩
      rw [same x List.mem_cons_self]
      exact ih rest fun y mem => same y (List.mem_cons_of_mem x mem)

/-- Nodes each of which leads to the one after it. -/
theorem chain_map_range' {f : ℕ → α} {j n : ℕ} (node : ∀ i < j + n, f i ≠ stop)
    (link : ∀ i, i + 1 < j + n → next (f i) = f (i + 1)) (last : next (f (j + n - 1)) = stop)
    (some_ : 0 < n) : Chain next stop (f j) ((List.range' j n).map f) := by
  induction n generalizing j with
  | zero => exact absurd some_ (lt_irrefl 0)
  | succ n ih =>
      rw [List.range'_succ, List.map_cons]
      refine ⟨rfl, node j (by omega), ?_⟩
      rcases Nat.eq_zero_or_pos n with rfl | more
      · exact last
      · have shift : j + (n + 1) = j + 1 + n := by omega
        rw [link j (by omega)]
        rw [shift] at node link last
        exact ih node link last more

end Chain

/-- A relation between all the elements of a list, from the relation among those with one
key and the relation between those with different keys. -/
theorem pairwise_of_filter {α κ : Type*} [DecidableEq κ] {R : α → α → Prop} (key : α → κ)
    {xs : List α} (within : ∀ k, (xs.filter fun x => key x = k).Pairwise R)
    (between : ∀ x ∈ xs, ∀ y ∈ xs, key x ≠ key y → R x y) : xs.Pairwise R := by
  induction xs with
  | nil => exact List.Pairwise.nil
  | cons x xs ih =>
      have rest : xs.Pairwise R := by
        apply ih
        · intro k
          exact (within k).sublist ((List.sublist_cons_self x xs).filter _)
        · intro y mem z mem'
          exact between y (List.mem_cons_of_mem x mem) z (List.mem_cons_of_mem x mem')
      refine List.Pairwise.cons (fun y mem => ?_) rest
      by_cases same : key x = key y
      · have here := within (key x)
        rw [List.filter_cons_of_pos (by simp)] at here
        exact List.rel_of_pairwise_cons here (List.mem_filter.mpr ⟨mem, by simp [same]⟩)
      · exact between x List.mem_cons_self y (List.mem_cons_of_mem x mem) same

end WordMemory
