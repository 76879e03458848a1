import CannonCar.Foundation.Blocks
import CannonCar.Kboot.FlashCommand

/-!
# The sectors `flash_erase` erases

`flashErase_eq` counts the commands of `flash_erase` and says where they start.  Where
the range ends in the 24-bit address space and no command fails, these are one command
for each sector the range meets, and nothing else.

## What is load-bearing

The length of the range is rounded up together with the offset of its start in the first
sector, so the number of commands is the number of sectors the range meets (`Blocks.touched`)
and not its length divided by the size of a sector.  The sums are taken in 32 bits; that the
range ends within 24 is what keeps them from wrapping.  The base of the application is a
multiple of every sector size, which is why no sector that is met starts below it.
-/

namespace CannonCar.Kboot

open Blocks

variable {target : Target} {start length : BitVec 32}

/-! ## Commands that succeed -/

/-- A list of commands none of which fails. -/
theorem launchAll_success (commands : ∀ n, fstatStatus (target.fstat n) = .success)
    (ls : List Launch) (m : FlashModule) :
    launchAll target ls m =
      (⟨ls.foldl (fun f l => l.exec target.chip f) m.mem, ls.reverse ++ m.launched⟩,
        .success) := by
  induction ls generalizing m with
  | nil => rfl
  | cons l ls ih =>
      have first : flashCommandSequence target l m =
          (⟨l.exec target.chip m.mem, l :: m.launched⟩, .success) := by
        simp only [flashCommandSequence, commands, if_true]
      rw [launchAll, first]
      simp only [ne_eq, not_true_eq_false, if_false]
      rw [ih, List.foldl_cons, List.reverse_cons, List.append_assoc, List.singleton_append]

/-! ## The erase commands -/

/-- The command that erases the sector at `s`. -/
def eraseAt (s : ℕ) : Launch := ⟨eraseSector, BitVec.ofNat 24 s, []⟩

/-- A sector erased. -/
theorem exec_eraseAt (chip : Ftfx) {s : ℕ} (aligned : chip.sectorSize.toNat ∣ s)
    (inside : s < 2 ^ 24) (f : Flash) (a : ℕ) :
    (eraseAt s).exec chip f a =
      if s ≤ a ∧ a < s + chip.sectorSize.toNat then BitVec.allOnes 32 else f a := by
  have positive : 0 < chip.sectorSize.toNat := by cases chip <;> decide
  obtain ⟨k, rfl⟩ := aligned
  have number :
      (BitVec.ofNat 24 (chip.sectorSize.toNat * k)).toNat / chip.sectorSize.toNat = k := by
    rw [BitVec.toNat_ofNat, Nat.mod_eq_of_lt inside, Nat.mul_div_cancel_left _ positive]
  have sector : a / chip.sectorSize.toNat = k ↔
      chip.sectorSize.toNat * k ≤ a ∧ a < chip.sectorSize.toNat * k + chip.sectorSize.toNat := by
    rw [Nat.div_eq_iff positive, Nat.mul_comm k]
    omega
  rw [eraseAt, Launch.exec, if_pos rfl]
  simp only [number, sector]

/-- Sectors erased one after the other. -/
theorem foldl_eraseAt (chip : Ftfx) {sectors : List ℕ}
    (aligned : ∀ s ∈ sectors, chip.sectorSize.toNat ∣ s) (inside : ∀ s ∈ sectors, s < 2 ^ 24)
    (f : Flash) (a : ℕ) :
    (sectors.map eraseAt).foldl (fun f l => l.exec chip f) f a =
      if ∃ s ∈ sectors, s ≤ a ∧ a < s + chip.sectorSize.toNat then BitVec.allOnes 32 else f a := by
  induction sectors generalizing f with
  | nil => simp only [List.map_nil, List.foldl_nil, List.not_mem_nil, false_and, exists_false,
      if_false]
  | cons s sectors ih =>
      rw [List.map_cons, List.foldl_cons,
        ih (fun t mem => aligned t (List.mem_cons_of_mem _ mem))
          (fun t mem => inside t (List.mem_cons_of_mem _ mem)),
        exec_eraseAt chip (aligned s List.mem_cons_self) (inside s List.mem_cons_self)]
      simp only [List.mem_cons, exists_eq_or_imp]
      by_cases later : ∃ t ∈ sectors, t ≤ a ∧ a < t + chip.sectorSize.toNat
      · rw [if_pos later, if_pos (Or.inr later)]
      · simp only [later, or_false, if_false]

/-! ## The range -/

/-- The number of commands, where the sums of `flash_erase` do not wrap. -/
theorem eraseCount_eq (chip : Ftfx) (inside : start.toNat + length.toNat ≤ 2 ^ 24) :
    eraseCount chip start length = blocks chip.sectorSize.toNat start.toNat length.toNat := by
  have positive : 0 < chip.sectorSize.toNat := by cases chip <;> decide
  have small : chip.sectorSize.toNat ≤ 2 ^ 12 := by cases chip <;> decide
  have down := alignDown_toNat chip start
  have split := Nat.div_add_mod start.toNat chip.sectorSize.toNat
  rw [Nat.mul_comm] at split
  have span : (start - alignDown start chip.sectorSize + length).toNat =
      start.toNat % chip.sectorSize.toNat + length.toNat := by
    rw [BitVec.toNat_add, BitVec.toNat_sub_of_le (BitVec.le_def.mpr (by omega)), down]
    omega
  have up : (start - alignDown start chip.sectorSize + length + chip.sectorSize - 1).toNat =
      start.toNat % chip.sectorSize.toNat + length.toNat + chip.sectorSize.toNat - 1 := by
    rw [BitVec.toNat_sub, BitVec.toNat_add, span]
    have one : (1 : BitVec 32).toNat = 1 := rfl
    rw [one]
    omega
  rw [eraseCount, alignUp, alignDown_toNat, Nat.mul_div_cancel _ positive, up, blocks]

/-- The commands, one for each sector the range meets. -/
theorem strided_eraseSector (chip : Ftfx) (inside : start.toNat + length.toNat ≤ 2 ^ 24) :
    strided eraseSector (alignDown start chip.sectorSize) chip.sectorSize.toNat (fun _ => [])
        (eraseCount chip start length) =
      (touched chip.sectorSize.toNat start.toNat length.toNat).map eraseAt := by
  rw [strided, touched, List.map_map, eraseCount_eq chip inside]
  apply List.map_congr_left
  intro i _
  have down := alignDown_toNat chip start
  have address : alignDown start chip.sectorSize + BitVec.ofNat 32 (i * chip.sectorSize.toNat) =
      BitVec.ofNat 32 ((start.toNat / chip.sectorSize.toNat + i) * chip.sectorSize.toNat) := by
    apply BitVec.eq_of_toNat_eq
    rw [BitVec.toNat_add, BitVec.toNat_ofNat, BitVec.toNat_ofNat, down, Nat.add_mul,
      Nat.add_mod_mod]
  have narrow : ∀ n : ℕ, (BitVec.ofNat 32 n).setWidth 24 = BitVec.ofNat 24 n := by
    intro n
    apply BitVec.eq_of_toNat_eq
    rw [BitVec.toNat_setWidth, BitVec.toNat_ofNat, BitVec.toNat_ofNat,
      Nat.mod_mod_of_dvd _ (by decide)]
  rw [Launch.of, address, narrow, Function.comp_apply, eraseAt]

/-- `flash_erase` of a range erases the sectors at `sectors`, those the range meets, and
returns. -/
structure Erases (target : Target) (start length : BitVec 32) (m : FlashModule)
    (sectors : List ℕ) : Prop where
  ascending : sectors.Pairwise (· < ·)
  meet : ∀ s, s ∈ sectors ↔ target.chip.sectorSize.toNat ∣ s ∧
    ∃ a, (s ≤ a ∧ a < s + target.chip.sectorSize.toNat) ∧
      start.toNat ≤ a ∧ a < start.toNat + length.toNat
  bounds : ∀ s ∈ sectors, applicationBase.toNat ≤ s ∧ s + target.chip.sectorSize.toNat ≤ 2 ^ 24
  success : (flashErase target start length m).2 = .success
  launched : (flashErase target start length m).1.launched =
    (sectors.map eraseAt).reverse ++ m.launched
  mem : ∀ a, (flashErase target start length m).1.mem a =
    if ∃ s ∈ sectors, s ≤ a ∧ a < s + target.chip.sectorSize.toNat then BitVec.allOnes 32
    else m.mem a
  -- the loop has come to its end after one round for each sector
  returns : ∀ fuel, sectors.length ≤ fuel →
    flashEraseLoop target fuel (alignDown start target.chip.sectorSize)
      (alignUp (start - alignDown start target.chip.sectorSize + length)
        target.chip.sectorSize >>> 2) m = flashErase target start length m

/-- One round for each sector is enough. -/
theorem flashErase_returns (inside : start.toNat + length.toNat ≤ 2 ^ 24) (m : FlashModule)
    {fuel : ℕ}
    (enough : (touched target.chip.sectorSize.toNat start.toNat length.toNat).length ≤ fuel) :
    flashEraseLoop target fuel (alignDown start target.chip.sectorSize)
      (alignUp (start - alignDown start target.chip.sectorSize + length)
        target.chip.sectorSize >>> 2) m = flashErase target start length m := by
  obtain ⟨words, value⟩ := alignedLength_eq target.chip start length
  have fits : eraseCount target.chip start length * 2 ^ (target.chip.sectorShift - 2) < 2 ^ 32 := by
    rw [value]
    exact BitVec.isLt _
  rw [length_touched, ← eraseCount_eq target.chip inside] at enough
  rw [flashErase_eq, words]
  exact flashEraseLoop_eq target enough fits _ m

/-- **`flash_erase` erases the sectors the range meets**, each once and in ascending order,
and none below the application.  Its loop ends after one round for each of them. -/
theorem flashErase_touched (some_ : 1 ≤ length.toNat)
    (valid : isValidMemoryRange start length = true)
    (inside : start.toNat + length.toNat ≤ 2 ^ 24)
    (commands : ∀ n, fstatStatus (target.fstat n) = .success) (m : FlashModule) :
    ∃ sectors, Erases target start length m sectors := by
  have positive : 0 < target.chip.sectorSize.toNat := by cases target.chip <;> decide
  have whole : target.chip.sectorSize.toNat ∣ 2 ^ 24 := by cases target.chip <;> decide
  have base : target.chip.sectorSize.toNat ∣ applicationBase.toNat := by
    cases target.chip <;> decide
  have above : applicationBase.toNat ≤ start.toNat := by
    unfold isValidMemoryRange at valid
    split_ifs at valid with outside
    exact BitVec.le_def.mp (BitVec.not_lt.mp fun below => outside (Or.inl below))
  have launches : flashErase target start length m = launchAll target
      ((touched target.chip.sectorSize.toNat start.toNat length.toNat).map eraseAt) m := by
    rw [flashErase_eq, strided_eraseSector target.chip inside]
  have aligned : ∀ s ∈ touched target.chip.sectorSize.toNat start.toNat length.toNat,
      target.chip.sectorSize.toNat ∣ s := fun s mem => ((mem_touched positive).mp mem).1
  have bounds : ∀ s ∈ touched target.chip.sectorSize.toNat start.toNat length.toNat,
      applicationBase.toNat ≤ s ∧ s + target.chip.sectorSize.toNat ≤ 2 ^ 24 := fun s mem =>
    ⟨le_of_mem_touched positive base above mem, add_le_of_mem_touched positive whole inside mem⟩
  have erased := launchAll_success commands
    ((touched target.chip.sectorSize.toNat start.toNat length.toNat).map eraseAt) m
  refine ⟨touched target.chip.sectorSize.toNat start.toNat length.toNat,
    pairwise_touched positive, ?_, bounds, ?_, ?_, ?_, ?_⟩
  · intro s
    rw [mem_touched positive, meets_iff some_ positive]
  · rw [launches, erased]
  · rw [launches, erased]
  · intro a
    have below : ∀ s ∈ touched target.chip.sectorSize.toNat start.toNat length.toNat,
        s < 2 ^ 24 := by
      intro s mem
      have ends := (bounds s mem).2
      omega
    rw [launches, erased]
    exact foldl_eraseAt target.chip aligned below m.mem a
  · intro fuel enough
    exact flashErase_returns inside m enough

/-- Two bytes with the end of a sector between them. -/
theorem flashErase_touched_two :
    let target : Target := ⟨.FTFL, 0x80000, 0x1fff0000, 0x20000, 0, fun _ => 0x80⟩
    ∃ sectors, Erases target 0x57ff 2 ⟨fun _ => 0, []⟩ sectors := by
  intro target
  have commands : fstatStatus 0x80 = .success := by decide
  exact flashErase_touched (by decide) (by decide) (by decide) (fun _ => commands) _

end CannonCar.Kboot
