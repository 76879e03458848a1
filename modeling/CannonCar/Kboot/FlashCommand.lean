import CannonCar.FlashUi
import CannonCar.Kboot.Packet

/-!
# Flash commands of the bootloader

`flash_command_sequence`, `is_valid_memory_range`, `flash_erase` and `flash_program` of
`utilities/kboot/bl_core.c`, for the three flash modules it can be built for.

The two loops write the command registers, launch, and stop at the first command that
fails.  `launchAll` is that and nothing else, for a list of commands; `flashErase_eq` and
`flashProgram_eq` say which list each of the loops works through.  The addresses of
both lists are an arithmetic progression, of which the flash module sees the low 24
bits.

## Modelling decisions

**The flash module decides by `FSTAT`.**  `Target.fstat n` is the status register after the `n`th
command since the start, for an arbitrary function: commands may fail at any point and for
any reason.  A command that fails leaves the memory alone, and is in `launched` all the same.

**Addresses are 32 bits in the code and 24 in the module.**  `Launch.of` keeps the low 24 bits, as
the three address registers do; the range check and the loops work on all 32.

**Loops have fuel, and enough of it.**  The loops count down, and their fuel is the count they
start with, so that running out of it and being done are the same.

The three flash modules differ in the size of a sector, of a program unit, and in the program
command (`Ftfx`); everything is proved for all three.
-/

namespace CannonCar.Kboot

/-! ## The module -/

/-- The flash modules `bl_core.c` knows. -/
inductive Ftfx
  | FTFE
  | FTFL
  | FTFA
  deriving DecidableEq

namespace Ftfx

/-- `TARGET_FLASH_SECTOR_SIZE`. -/
def sectorSize : Ftfx → BitVec 32
  | FTFE => 4096
  | FTFL => 2048
  | FTFA => 1024

/-- `BL_FEATURE_PROGRAM_PHASE`. -/
def programPhase : Ftfx → Bool
  | FTFE => true
  | FTFL => false
  | FTFA => false

/-- `alignmentSize`. -/
def alignmentSize (chip : Ftfx) : ℕ := if chip.programPhase then 8 else 4

end Ftfx

/-- `FTFx_ERASE_SECTOR`. -/
def eraseSector : BitVec 8 := 0x09

/-- `FTFx_PROGRAM_LONGWORD`. -/
def programLongword : BitVec 8 := 0x06

/-- `FTFx_PROGRAM_PHRASE`. -/
def programPhrase : BitVec 8 := 0x07

/-- `APPLICATION_BASE`. -/
def applicationBase : BitVec 32 := 0x5000

/-- The command registers at a launch: `FCCOB0`, the address in `FCCOB1` … `FCCOB3` and
the data words. -/
structure Launch where
  command : BitVec 8
  address : BitVec 24
  data : List (BitVec 32)
  deriving DecidableEq

/-- `kFCCOBx[0] = start`, the data words, and the command over the top byte of the
address. -/
def Launch.of (command : BitVec 8) (start : BitVec 32) (data : List (BitVec 32)) : Launch :=
  ⟨command, start.setWidth 24, data⟩

/-- Program words from an address on: bits are only cleared. -/
def programWords : ℕ → List (BitVec 32) → Flash → Flash
  | _, [], f => f
  | addr, w :: ws, f => programWords (addr + 4) ws (Function.update f addr (f addr &&& w))

/-- What a command that succeeds does. -/
def Launch.exec (chip : Ftfx) (l : Launch) (f : Flash) : Flash :=
  if l.command = eraseSector then
    fun a => if a / chip.sectorSize.toNat = l.address.toNat / chip.sectorSize.toNat
      then BitVec.allOnes 32 else f a
  else programWords l.address.toNat l.data f

/-- What the bootloader is built for and runs on: the flash module, the numbers of the
configuration, the device id, and `FSTAT` after the `n`-th command. -/
structure Target where
  chip : Ftfx
  targetFlashSize : BitVec 32
  targetRamStart : BitVec 32
  targetRamSize : BitVec 32
  sdid : BitVec 32
  fstat : ℕ → BitVec 8

/-- The flash, and the commands launched so far, the last one first. -/
structure FlashModule where
  mem : Flash
  launched : List Launch

/-- How `flash_command_sequence` reads `FSTAT`. -/
def fstatStatus (fstat : BitVec 8) : Status :=
  if fstat &&& 0x20 ≠ 0 then .flashAccessError
  else if fstat &&& 0x10 ≠ 0 then .flashProtectionViolation
  else if fstat &&& 0x01 ≠ 0 then .flashCommandFailure
  else .success

variable (target : Target)

/-- `flash_command_sequence`. -/
def flashCommandSequence (l : Launch) (m : FlashModule) : FlashModule × Status :=
  let status := fstatStatus (target.fstat m.launched.length)
  ({ mem := if status = .success then l.exec target.chip m.mem else m.mem
     launched := l :: m.launched }, status)

/-! ## The functions -/

/-- `align_down`. -/
def alignDown (data base : BitVec 32) : BitVec 32 := data &&& ~~~(base - 1)

/-- `align_up`. -/
def alignUp (data base : BitVec 32) : BitVec 32 := alignDown (data + base - 1) base

/-- `is_valid_memory_range`. -/
def isValidMemoryRange (start length : BitVec 32) : Bool :=
  -- 32-bit sums: a range that wraps round to above the base passes
  if start < applicationBase ∨ start + length < applicationBase then false else true

/-- The `while` loop of `flash_erase`; `alignedLength` counts words. -/
def flashEraseLoop : ℕ → BitVec 32 → BitVec 32 → FlashModule → FlashModule × Status
  | 0, _, _, m => (m, .success)
  | fuel + 1, alignedStart, alignedLength, m =>
      if alignedLength = 0 then (m, .success)
      else
        let r := flashCommandSequence target (.of eraseSector alignedStart []) m
        if r.2 ≠ .success then r
        else
          -- the address is not looked at again
          let size := target.chip.sectorSize
          flashEraseLoop fuel (alignedStart + size) (alignedLength - size >>> 2) r.1

/-- `flash_erase`. -/
def flashErase (start length : BitVec 32) (m : FlashModule) : FlashModule × Status :=
  let size := target.chip.sectorSize
  let alignedStart := alignDown start size
  let alignedLength := alignUp (start - alignedStart + length) size >>> 2
  flashEraseLoop target alignedLength.toNat alignedStart alignedLength m

/-- The `for` loop of `flash_program`, which fills the last unit up. -/
def padTail (src : ℕ → BitVec 8) (offset length size : ℕ) : ℕ → BitVec 8 :=
  fun j => if offset + length ≤ j ∧ j < offset + size then 0xFF else src j

/-- The data words at `src`, one or two. -/
def sourceWords (chip : Ftfx) (src : ℕ → BitVec 8) (offset : ℕ) : List (BitVec 32) :=
  if chip.programPhase then [word src offset, word src (offset + 4)] else [word src offset]

/-- The program command of the module. -/
def programCommand (chip : Ftfx) : BitVec 8 :=
  if chip.programPhase then programPhrase else programLongword

/-- The `while` loop of `flash_program`, `src` pointing `offset` bytes into the payload.
The payload comes back with its tail filled up. -/
def flashProgramLoop : ℕ → BitVec 32 → (ℕ → BitVec 8) → ℕ → ℕ → FlashModule →
    FlashModule × Status × (ℕ → BitVec 8)
  | 0, _, src, _, _, m => (m, .success, src)
  | fuel + 1, start, src, offset, length, m =>
      if length = 0 then (m, .success, src)
      else
        let size := target.chip.alignmentSize
        let src := if length < size then padTail src offset length size else src
        let r := flashCommandSequence target
          (.of (programCommand target.chip) start (sourceWords target.chip src offset)) m
        if r.2 ≠ .success then (r.1, r.2, src)
        else
          flashProgramLoop fuel (start + BitVec.ofNat 32 size) src (offset + size)
            (length - if length > size then size else length) r.1

/-- `flash_program` of the first `length` bytes of the payload. -/
def flashProgram (start : BitVec 32) (src : ℕ → BitVec 8) (length : BitVec 32)
    (m : FlashModule) : FlashModule × Status × (ℕ → BitVec 8) :=
  let size := target.chip.alignmentSize
  if start &&& BitVec.ofNat 32 (size - 1) ≠ 0 then (m, .flashAlignmentError, src)
  else if isValidMemoryRange start length = false then (m, .memoryRangeInvalid, src)
  else flashProgramLoop target length.toNat start src 0 length.toNat m

/-! ## Lists of commands -/

/-- Launch commands one after another until one fails. -/
def launchAll : List Launch → FlashModule → FlashModule × Status
  | [], m => (m, .success)
  | l :: ls, m =>
      let r := flashCommandSequence target l m
      if r.2 ≠ .success then r else launchAll ls r.1

/-- `n` commands at the addresses `start`, `start + size`, …, the `i`-th with the data
`data i`. -/
def strided (command : BitVec 8) (start : BitVec 32) (size : ℕ) (data : ℕ → List (BitVec 32))
    (n : ℕ) : List Launch :=
  (List.range n).map fun i => .of command (start + BitVec.ofNat 32 (i * size)) (data i)

theorem strided_zero (command : BitVec 8) (start : BitVec 32) (size : ℕ)
    (data : ℕ → List (BitVec 32)) : strided command start size data 0 = [] := rfl

theorem strided_succ (command : BitVec 8) (start : BitVec 32) (size : ℕ)
    (data : ℕ → List (BitVec 32)) (n : ℕ) :
    strided command start size data (n + 1) =
      .of command start (data 0) ::
        strided command (start + BitVec.ofNat 32 size) size (fun i => data (i + 1)) n := by
  have first : start + BitVec.ofNat 32 (0 * size) = start := by
    rw [Nat.zero_mul]
    exact BitVec.add_zero start
  rw [strided, List.range_succ_eq_map, List.map_cons, List.map_map, first]
  congr 1
  apply List.map_congr_left
  intro i _
  have shift : start + BitVec.ofNat 32 ((i + 1) * size) =
      start + BitVec.ofNat 32 size + BitVec.ofNat 32 (i * size) := by
    rw [Nat.succ_mul, Nat.add_comm, BitVec.ofNat_add, BitVec.add_assoc]
  rw [Function.comp_apply, Nat.succ_eq_add_one, shift]

/-! ## Rounding to powers of two -/

namespace Ftfx

/-- The sector size is a power of two, between one and four kilobytes. -/
def sectorShift : Ftfx → ℕ
  | FTFE => 12
  | FTFL => 11
  | FTFA => 10

variable (chip : Ftfx)

theorem sectorSize_toNat : chip.sectorSize.toNat = 2 ^ chip.sectorShift := by
  cases chip <;> rfl

theorem sectorSize_sub_one : chip.sectorSize - 1 = BitVec.ofNat 32 (2 ^ chip.sectorShift - 1) := by
  cases chip <;> rfl

end Ftfx

theorem alignDown_toNat (chip : Ftfx) (x : BitVec 32) :
    (alignDown x chip.sectorSize).toNat =
      x.toNat / chip.sectorSize.toNat * chip.sectorSize.toNat := by
  rw [alignDown, chip.sectorSize_sub_one,
    MachineInt.toNat_and_not_mask, chip.sectorSize_toNat]

/-! ## What the loops launch -/

/-- The number of sectors `flash_erase` sets out to erase. -/
def eraseCount (chip : Ftfx) (start length : BitVec 32) : ℕ :=
  (alignUp (start - alignDown start chip.sectorSize + length) chip.sectorSize).toNat /
    chip.sectorSize.toNat

/-- The sector size in words, by which `alignedLength` goes down. -/
theorem sectorSize_words (chip : Ftfx) :
    chip.sectorSize >>> 2 = BitVec.ofNat 32 (2 ^ (chip.sectorShift - 2)) := by
  cases chip <;> rfl

theorem flashEraseLoop_eq {n fuel : ℕ} (enough : n ≤ fuel)
    (fits : n * 2 ^ (target.chip.sectorShift - 2) < 2 ^ 32) (start : BitVec 32) (m : FlashModule) :
    flashEraseLoop target fuel start (BitVec.ofNat 32 (n * 2 ^ (target.chip.sectorShift - 2))) m =
      launchAll target
        (strided eraseSector start target.chip.sectorSize.toNat (fun _ => []) n) m := by
  induction n generalizing fuel start m with
  | zero =>
      rw [Nat.zero_mul, strided_zero, launchAll]
      cases fuel <;> rfl
  | succ n ih =>
      obtain ⟨fuel, rfl⟩ := Nat.exists_eq_add_of_le' (le_trans (Nat.le_add_left 1 n) enough)
      have step : (n + 1) * 2 ^ (target.chip.sectorShift - 2) =
          n * 2 ^ (target.chip.sectorShift - 2) + 2 ^ (target.chip.sectorShift - 2) :=
        Nat.succ_mul _ _
      have positive : 0 < 2 ^ (target.chip.sectorShift - 2) := Nat.two_pow_pos _
      have more : BitVec.ofNat 32 ((n + 1) * 2 ^ (target.chip.sectorShift - 2)) ≠ 0 := by
        intro zero
        have value := congrArg BitVec.toNat zero
        rw [BitVec.toNat_ofNat, Nat.mod_eq_of_lt fits] at value
        rw [step] at value
        exact absurd value (Nat.ne_of_gt (Nat.add_pos_right _ positive))
      have rest : BitVec.ofNat 32 ((n + 1) * 2 ^ (target.chip.sectorShift - 2)) -
          target.chip.sectorSize >>> 2 =
          BitVec.ofNat 32 (n * 2 ^ (target.chip.sectorShift - 2)) := by
        rw [sectorSize_words, step, BitVec.ofNat_add, BitVec.add_sub_cancel]
      have next : start + BitVec.ofNat 32 target.chip.sectorSize.toNat =
          start + target.chip.sectorSize := by rw [BitVec.ofNat_toNat, BitVec.setWidth_eq]
      have later : n * 2 ^ (target.chip.sectorShift - 2) < 2 ^ 32 := by omega
      rw [flashEraseLoop, if_neg more, strided_succ, launchAll, next]
      simp only [rest]
      split_ifs with failed
      · rfl
      · exact ih (Nat.le_of_succ_le_succ enough) later _ _

/-- `alignedLength` of `flash_erase`: the words of a whole number of sectors, which is below
the number the loop is given to go round. -/
theorem alignedLength_eq (chip : Ftfx) (start length : BitVec 32) :
    let alignedLength := alignUp (start - alignDown start chip.sectorSize + length)
      chip.sectorSize >>> 2
    alignedLength = BitVec.ofNat 32 (eraseCount chip start length * 2 ^ (chip.sectorShift - 2)) ∧
      eraseCount chip start length * 2 ^ (chip.sectorShift - 2) = alignedLength.toNat := by
  intro alignedLength
  have whole : (alignUp (start - alignDown start chip.sectorSize + length)
      chip.sectorSize).toNat = eraseCount chip start length * 2 ^ chip.sectorShift := by
    rw [eraseCount, alignUp, alignDown_toNat, chip.sectorSize_toNat,
      Nat.mul_div_cancel _ (Nat.two_pow_pos _)]
  have shift : 2 ^ chip.sectorShift = 2 ^ (chip.sectorShift - 2) * 4 := by cases chip <;> rfl
  have words : alignedLength.toNat =
      eraseCount chip start length * 2 ^ (chip.sectorShift - 2) := by
    rw [BitVec.toNat_ushiftRight, whole, Nat.shiftRight_eq_div_pow, shift, ← Nat.mul_assoc]
    exact Nat.mul_div_cancel _ (by decide)
  refine ⟨?_, words.symm⟩
  rw [← words, BitVec.ofNat_toNat, BitVec.setWidth_eq]

/-- **`flash_erase` erases sectors from the start of the first one on.** -/
theorem flashErase_eq (start length : BitVec 32) (m : FlashModule) :
    flashErase target start length m =
      launchAll target
        (strided eraseSector (alignDown start target.chip.sectorSize) target.chip.sectorSize.toNat
          (fun _ => []) (eraseCount target.chip start length)) m := by
  obtain ⟨again, words⟩ := alignedLength_eq target.chip start length
  have fits : eraseCount target.chip start length * 2 ^ (target.chip.sectorShift - 2) < 2 ^ 32 := by
    rw [words]
    exact BitVec.isLt _
  have fuel : eraseCount target.chip start length ≤
      eraseCount target.chip start length * 2 ^ (target.chip.sectorShift - 2) :=
    Nat.le_mul_of_pos_right _ (Nat.two_pow_pos _)
  have loop := flashEraseLoop_eq target fuel fits (alignDown start target.chip.sectorSize) m
  rw [← again, words] at loop
  exact loop

/-- The number of units `flash_program` sets out to program. -/
def programCount (chip : Ftfx) (length : ℕ) : ℕ :=
  (length + chip.alignmentSize - 1) / chip.alignmentSize

section Tail

variable {chip : Ftfx} {src : ℕ → BitVec 8} {offset length : ℕ}

theorem alignmentSize_pos : 0 < chip.alignmentSize := by cases chip <;> decide

/-- A unit is whole words, and the 24-bit address space whole units. -/
theorem four_dvd_alignmentSize : 4 ∣ chip.alignmentSize := by cases chip <;> decide

theorem alignmentSize_dvd_flash : chip.alignmentSize ∣ 2 ^ 24 := by cases chip <;> decide

/-- What `flash_program` checks of its start address. -/
theorem alignmentSize_dvd {start : BitVec 32}
    (aligned : start &&& BitVec.ofNat 32 (chip.alignmentSize - 1) = 0) :
    chip.alignmentSize ∣ start.toNat := by
  have power : ∃ k ≤ 32, chip.alignmentSize = 2 ^ k := by
    cases chip
    · exact ⟨3, by decide, rfl⟩
    · exact ⟨2, by decide, rfl⟩
    · exact ⟨2, by decide, rfl⟩
  obtain ⟨k, small, isPower⟩ := power
  rw [isPower] at aligned ⊢
  have low := MachineInt.toNat_and_mask small start
  rw [aligned] at low
  exact Nat.dvd_of_mod_eq_zero low.symm

theorem sourceWords_congr {src' : ℕ → BitVec 8}
    (same : ∀ j, offset ≤ j → j < offset + chip.alignmentSize → src j = src' j) :
    sourceWords chip src offset = sourceWords chip src' offset := by
  have read : ∀ k, offset ≤ k → k + 3 < offset + chip.alignmentSize → word src k = word src' k := by
    intro k low high
    simp only [word]
    rw [same k low (by omega), same (k + 1) (by omega) (by omega),
      same (k + 2) (by omega) (by omega), same (k + 3) (by omega) (by omega)]
  unfold sourceWords
  split_ifs with phrase
  · have size : chip.alignmentSize = 8 := if_pos phrase
    rw [read offset le_rfl (by omega), read (offset + 4) (by omega) (by omega)]
  · have size : chip.alignmentSize = 4 := if_neg phrase
    rw [read offset le_rfl (by omega)]

theorem padTail_of_lt {size j : ℕ} (before : j < offset + length) :
    padTail src offset length size j = src j :=
  if_neg fun both => absurd before (not_lt_of_ge both.1)

/-- The loop fills up its source only in its last round. -/
theorem padTail_round (short : length ≤ chip.alignmentSize) :
    (if length < chip.alignmentSize then padTail src offset length chip.alignmentSize else src) =
      padTail src offset length chip.alignmentSize := by
  split_ifs with less
  · rfl
  · funext j
    rw [padTail, if_neg]
    omega

end Tail

theorem programCount_zero (chip : Ftfx) : programCount chip 0 = 0 := by cases chip <;> rfl

/-- Up to one unit is one unit. -/
theorem programCount_le {chip : Ftfx} {length : ℕ} (some_ : 0 < length)
    (short : length ≤ chip.alignmentSize) : programCount chip length = 1 := by
  unfold programCount
  exact Nat.div_eq_of_lt_le (by omega) (by omega)

theorem programCount_gt {chip : Ftfx} {length : ℕ} (long : chip.alignmentSize < length) :
    programCount chip length = programCount chip (length - chip.alignmentSize) + 1 := by
  have positive : 0 < chip.alignmentSize := alignmentSize_pos
  unfold programCount
  rw [← Nat.add_div_right _ positive]
  congr 1
  omega

theorem flashProgramLoop_zero (fuel : ℕ) (start : BitVec 32) (src : ℕ → BitVec 8) (offset : ℕ)
    (m : FlashModule) :
    flashProgramLoop target fuel start src offset 0 m = (m, .success, src) := by
  cases fuel with
  | zero => rfl
  | succ fuel => rw [flashProgramLoop, if_pos rfl]

/-- The last round, in which the tail is filled up. -/
theorem flashProgramLoop_last {length : ℕ} (some_ : 0 < length)
    (short : length ≤ target.chip.alignmentSize) (fuel : ℕ) (start : BitVec 32)
    (src : ℕ → BitVec 8) (offset : ℕ) (m : FlashModule) :
    let r := flashProgramLoop target (fuel + 1) start src offset length m
    let filled := padTail src offset length target.chip.alignmentSize
    (r.1, r.2.1) = launchAll target
      [.of (programCommand target.chip) start (sourceWords target.chip filled offset)] m := by
  intro r filled
  have spent : (length - if length > target.chip.alignmentSize
      then target.chip.alignmentSize else length) = 0 := by
    rw [if_neg (not_lt_of_ge short), Nat.sub_self]
  simp only [r]
  rw [flashProgramLoop, if_neg (Nat.ne_of_gt some_), launchAll, launchAll]
  simp only [padTail_round short, spent, flashProgramLoop_zero]
  split_ifs
  · rfl
  · rfl

/-- A round before the last one. -/
theorem flashProgramLoop_round {length : ℕ} (long : target.chip.alignmentSize < length) (fuel : ℕ)
    (start : BitVec 32) (src : ℕ → BitVec 8) (offset : ℕ) (m : FlashModule) :
    flashProgramLoop target (fuel + 1) start src offset length m =
      let r := flashCommandSequence target
        (.of (programCommand target.chip) start (sourceWords target.chip src offset)) m
      if r.2 ≠ .success then (r.1, r.2, src)
      else flashProgramLoop target fuel (start + BitVec.ofNat 32 target.chip.alignmentSize) src
        (offset + target.chip.alignmentSize) (length - target.chip.alignmentSize) r.1 := by
  have some_ : length ≠ 0 := Nat.ne_of_gt (lt_of_le_of_lt (Nat.zero_le _) long)
  rw [flashProgramLoop, if_neg some_]
  simp only [if_neg (not_lt_of_gt long), if_pos long]

/-- The tail filled up is the same seen from one unit further on. -/
theorem padTail_succ {length : ℕ} (size n : ℕ) (long : size < length) (src : ℕ → BitVec 8)
    (offset : ℕ) :
    padTail src (offset + size) (length - size) (n * size) =
      padTail src offset length ((n + 1) * size) := by
  funext j
  unfold padTail
  rw [Nat.succ_mul]
  congr 1
  exact propext (by omega)

theorem flashProgramLoop_eq {fuel length : ℕ} (enough : length ≤ fuel) (start : BitVec 32)
    (src : ℕ → BitVec 8) (offset : ℕ) (m : FlashModule) :
    let r := flashProgramLoop target fuel start src offset length m
    let filled :=
      padTail src offset length (programCount target.chip length * target.chip.alignmentSize)
    (r.1, r.2.1) =
      launchAll target
        (strided (programCommand target.chip) start target.chip.alignmentSize
          (fun i => sourceWords target.chip filled (offset + i * target.chip.alignmentSize))
          (programCount target.chip length)) m := by
  have positive : 0 < target.chip.alignmentSize := alignmentSize_pos
  induction fuel generalizing length start src offset m with
  | zero =>
      obtain rfl : length = 0 := Nat.le_zero.mp enough
      rw [programCount_zero]
      rfl
  | succ fuel ih =>
      intro r filled
      rcases Nat.eq_zero_or_pos length with rfl | some_
      · have done : r = (m, .success, src) := flashProgramLoop_zero target _ _ _ _ _
        rw [done, programCount_zero]
        rfl
      rcases le_or_gt length target.chip.alignmentSize with short | long
      · have one := programCount_le some_ short
        have isFilled : filled = padTail src offset length target.chip.alignmentSize := by
          simp only [filled]
          rw [one, Nat.one_mul]
        rw [one, strided_succ, strided_zero, isFilled, Nat.zero_mul, Nat.add_zero]
        exact flashProgramLoop_last target some_ short fuel start src offset m
      · have rounds := programCount_gt long
        have small : length - target.chip.alignmentSize ≤ fuel := by omega
        have sameTail := padTail_succ target.chip.alignmentSize
          (programCount target.chip (length - target.chip.alignmentSize)) long src offset
        rw [← rounds] at sameTail
        -- the tail begins behind the first unit, which is therefore programmed as it is
        have first : sourceWords target.chip filled (offset + 0 * target.chip.alignmentSize) =
            sourceWords target.chip src offset := by
          rw [Nat.zero_mul, Nat.add_zero]
          exact sourceWords_congr fun j _ before => padTail_of_lt (by omega)
        have others : (fun i => sourceWords target.chip filled
            (offset + (i + 1) * target.chip.alignmentSize)) = fun i =>
            sourceWords target.chip filled
              (offset + target.chip.alignmentSize + i * target.chip.alignmentSize) := by
          funext i
          rw [Nat.succ_mul, Nat.add_assoc, Nat.add_comm target.chip.alignmentSize]
        simp only [r]
        rw [flashProgramLoop_round target long, rounds, strided_succ, launchAll, first, others]
        simp only
        split_ifs with failed
        · rfl
        · have later := ih small (start + BitVec.ofNat 32 target.chip.alignmentSize) src
            (offset + target.chip.alignmentSize) (flashCommandSequence target
              (.of (programCommand target.chip) start (sourceWords target.chip src offset)) m).1
          simp only [sameTail] at later
          exact later

/-- **`flash_program` programs the units of the payload from the start address on**, the
last one filled up with bits that change nothing. -/
theorem flashProgram_eq {start length : BitVec 32} (src : ℕ → BitVec 8) (m : FlashModule)
    (aligned : start &&& BitVec.ofNat 32 (target.chip.alignmentSize - 1) = 0)
    (valid : isValidMemoryRange start length = true) :
    let r := flashProgram target start src length m
    let filled := padTail src 0 length.toNat
      (programCount target.chip length.toNat * target.chip.alignmentSize)
    (r.1, r.2.1) =
      launchAll target
        (strided (programCommand target.chip) start target.chip.alignmentSize
          (fun i => sourceWords target.chip filled (i * target.chip.alignmentSize))
          (programCount target.chip length.toNat)) m := by
  intro r filled
  have loop := flashProgramLoop_eq target (le_refl length.toNat) start src 0 m
  have isLoop : r = flashProgramLoop target length.toNat start src 0 length.toNat m := by
    simp only [r, flashProgram]
    rw [if_neg (not_not_intro aligned), if_neg (by rw [valid]; decide)]
  simp only [Nat.zero_add] at loop
  rw [isLoop]
  exact loop

end CannonCar.Kboot
