import CannonCar.Kboot.FlashCommand

/-!
# What programming does to the bytes of the flash

The flash module programs words, the host sends bytes.  `overlay` is a memory with a
list of bytes laid over it from an address on; `flashProgram_writes` says that
`flash_program`, where it succeeds on erased flash, is an overlay of the bytes it was
given.  The 0xFF bytes it fills the last unit up with clear nothing.

## What is load-bearing

**Little endian twice.**  The words are read from the payload low byte first and programmed at
word addresses, and `flashByte` takes the bytes out of the words the same way; that the two
orders cancel is proved once (`flashByte_launchAll`).

**Programming is AND.**  A unit leaves the bits that are clear before it clear, which is why the
memory has to be erased where the payload goes, and why filling up with 0xFF is harmless.
Nothing is assumed of the memory elsewhere, and nothing changes there.
-/

namespace CannonCar.Kboot

/-! ## Overlays -/

section Overlay

variable {α : Type*}

/-- The memory `mem` with `data` over it from the address `start` on. -/
def overlay (start : ℕ) (data : List α) (mem : ℕ → α) : ℕ → α :=
  fun a => if start ≤ a then data.getD (a - start) (mem a) else mem a

variable {start : ℕ} {data : List α} {mem : ℕ → α}

theorem overlay_nil : overlay start [] mem = mem := by
  funext a
  exact ite_self _

/-- Nothing changes behind the data. -/
theorem overlay_of_le {a : ℕ} (behind : start + data.length ≤ a) :
    overlay start data mem a = mem a := by
  unfold overlay
  rw [List.getD_eq_default _ _ (by omega), ite_self]

/-- One overlay after the other. -/
theorem overlay_overlay (data' : List α) :
    overlay (start + data.length) data' (overlay start data mem) =
      overlay start (data ++ data') mem := by
  funext a
  by_cases before : a < start
  · have less : ¬ start + data.length ≤ a := by omega
    simp only [overlay, if_neg less, if_neg (not_le_of_gt before)]
  · have from_ : start ≤ a := not_lt.mp before
    by_cases inside : a - start < data.length
    · have less : ¬ start + data.length ≤ a := by omega
      simp only [overlay, if_neg less, if_pos from_]
      rw [List.getD_append _ _ _ _ inside]
    · have more : start + data.length ≤ a := by omega
      have shift : a - (start + data.length) = a - start - data.length := by omega
      rw [overlay, if_pos more, overlay_of_le more, overlay, if_pos from_,
        List.getD_append_right _ _ _ _ (not_lt.mp inside), shift]

end Overlay

/-! ## Words and bytes -/

/-- The byte of the flash at an address. -/
def flashByte (f : Flash) (a : ℕ) : BitVec 8 := (f (a / 4 * 4)).extractLsb' (8 * (a % 4)) 8

theorem word_byte (src : ℕ → BitVec 8) (offset : ℕ) {k : ℕ} (inside : k < 4) :
    (word src offset).extractLsb' (8 * k) 8 = src (offset + k) := by
  apply BitVec.eq_of_getLsbD_eq
  intro i small
  rw [BitVec.getLsbD_extractLsb', word]
  simp only [BitVec.getLsbD_append]
  interval_cases k <;> grind

/-- A word programmed, byte by byte. -/
theorem flashByte_update (f : Flash) {addr : ℕ} (aligned : 4 ∣ addr) (src : ℕ → BitVec 8)
    (offset a : ℕ) :
    flashByte (Function.update f addr (f addr &&& word src offset)) a =
      if addr ≤ a ∧ a < addr + 4 then flashByte f a &&& src (offset + (a - addr))
      else flashByte f a := by
  obtain ⟨unit, rfl⟩ := aligned
  by_cases inside : 4 * unit ≤ a ∧ a < 4 * unit + 4
  · have here : a / 4 * 4 = 4 * unit := by omega
    have place : a - 4 * unit = a % 4 := by omega
    rw [if_pos inside, flashByte, flashByte, here, Function.update_self, BitVec.extractLsb'_and,
      word_byte src offset (Nat.mod_lt _ (by decide)), place]
  · have elsewhere : a / 4 * 4 ≠ 4 * unit := by omega
    rw [if_neg inside, flashByte, flashByte, Function.update_of_ne elsewhere]

/-- A unit programmed. -/
theorem flashByte_programWords (chip : Ftfx) (f : Flash) {addr : ℕ} (aligned : 4 ∣ addr)
    (src : ℕ → BitVec 8) (offset a : ℕ) :
    flashByte (programWords addr (sourceWords chip src offset) f) a =
      if addr ≤ a ∧ a < addr + chip.alignmentSize then flashByte f a &&& src (offset + (a - addr))
      else flashByte f a := by
  unfold sourceWords Ftfx.alignmentSize
  by_cases phrase : chip.programPhase = true
  · have second : 4 ∣ addr + 4 := Nat.dvd_add aligned (dvd_refl 4)
    rw [if_pos phrase, if_pos phrase, programWords, programWords, programWords,
      flashByte_update _ second, flashByte_update _ aligned]
    by_cases low : addr ≤ a ∧ a < addr + 4
    · rw [if_pos low, if_neg (by omega), if_pos (by omega)]
    · rw [if_neg low]
      by_cases high : addr + 4 ≤ a ∧ a < addr + 4 + 4
      · have place : offset + 4 + (a - (addr + 4)) = offset + (a - addr) := by omega
        rw [if_pos high, if_pos (by omega), place]
      · rw [if_neg high, if_neg (by omega)]
  · rw [if_neg phrase, if_neg phrase, programWords, programWords, flashByte_update _ aligned]

/-! ## The loop -/

theorem programCommand_ne (chip : Ftfx) : programCommand chip ≠ eraseSector := by
  cases chip <;> decide

/-- A program command below the end of the 24-bit address space. -/
theorem flashByte_exec (chip : Ftfx) (f : Flash) {start : BitVec 32} (aligned : 4 ∣ start.toNat)
    (inside : start.toNat < 2 ^ 24) (src : ℕ → BitVec 8) (offset a : ℕ) :
    flashByte
        ((Launch.of (programCommand chip) start (sourceWords chip src offset)).exec chip f) a =
      if start.toNat ≤ a ∧ a < start.toNat + chip.alignmentSize then
        flashByte f a &&& src (offset + (a - start.toNat))
      else flashByte f a := by
  have address : (start.setWidth 24).toNat = start.toNat := by
    rw [BitVec.toNat_setWidth, Nat.mod_eq_of_lt inside]
  rw [Launch.exec, Launch.of, if_neg (programCommand_ne chip), address,
    flashByte_programWords chip f aligned]

variable (target : Target)

/-- A command that succeeds is executed. -/
theorem launchAll_cons_success {l : Launch} {ls : List Launch} {m : FlashModule}
    (success : (launchAll target (l :: ls) m).2 = .success) :
    ∃ m', m'.mem = l.exec target.chip m.mem ∧
      launchAll target (l :: ls) m = launchAll target ls m' := by
  rw [launchAll] at success ⊢
  by_cases failed : (flashCommandSequence target l m).2 ≠ .success
  · simp only [if_pos failed] at success
    exact absurd success failed
  · refine ⟨(flashCommandSequence target l m).1, ?_, if_neg failed⟩
    exact if_pos (not_not.mp failed)

/-- **Units programmed one after the other** clear in each byte the bits the source has
clear. -/
theorem flashByte_launchAll {n : ℕ} {start : BitVec 32} {src : ℕ → BitVec 8} {offset : ℕ}
    {m : FlashModule} (aligned : 4 ∣ start.toNat)
    (inside : start.toNat + n * target.chip.alignmentSize ≤ 2 ^ 24)
    (success : (launchAll target (strided (programCommand target.chip) start
      target.chip.alignmentSize
      (fun i => sourceWords target.chip src (offset + i * target.chip.alignmentSize)) n) m).2 =
        .success) (a : ℕ) :
    flashByte (launchAll target (strided (programCommand target.chip) start
        target.chip.alignmentSize
        (fun i => sourceWords target.chip src (offset + i * target.chip.alignmentSize))
        n) m).1.mem a =
      if start.toNat ≤ a ∧ a < start.toNat + n * target.chip.alignmentSize then
        flashByte m.mem a &&& src (offset + (a - start.toNat))
      else flashByte m.mem a := by
  have positive : 0 < target.chip.alignmentSize := alignmentSize_pos
  induction n generalizing start offset m with
  | zero => rw [if_neg (by omega), strided_zero, launchAll]
  | succ n ih =>
      have step : (n + 1) * target.chip.alignmentSize =
          n * target.chip.alignmentSize + target.chip.alignmentSize := Nat.succ_mul _ _
      have later : (fun i => sourceWords target.chip src
          (offset + (i + 1) * target.chip.alignmentSize)) = fun i => sourceWords target.chip src
            (offset + target.chip.alignmentSize + i * target.chip.alignmentSize) := by
        funext i
        rw [Nat.succ_mul, Nat.add_assoc, Nat.add_comm target.chip.alignmentSize]
      have next : (start + BitVec.ofNat 32 target.chip.alignmentSize).toNat =
          start.toNat + target.chip.alignmentSize := by
        rw [BitVec.toNat_add, BitVec.toNat_ofNat, Nat.add_mod_mod, Nat.mod_eq_of_lt (by omega)]
      rw [strided_succ, later, Nat.zero_mul, Nat.add_zero] at success ⊢
      obtain ⟨m', executed, rest⟩ := launchAll_cons_success target success
      rw [rest] at success ⊢
      have first : flashByte m'.mem a =
          if start.toNat ≤ a ∧ a < start.toNat + target.chip.alignmentSize then
            flashByte m.mem a &&& src (offset + (a - start.toNat))
          else flashByte m.mem a := by
        rw [executed, flashByte_exec target.chip m.mem aligned (by omega)]
      rw [ih (by rw [next]; exact Nat.dvd_add aligned four_dvd_alignmentSize)
        (by rw [next]; omega) success, next, first]
      -- in the first unit, in a later one, or in none
      by_cases low : start.toNat ≤ a ∧ a < start.toNat + target.chip.alignmentSize
      · rw [if_neg (by omega), if_pos low, if_pos (by omega)]
      · rw [if_neg low]
        by_cases high : start.toNat + target.chip.alignmentSize ≤ a ∧
            a < start.toNat + target.chip.alignmentSize + n * target.chip.alignmentSize
        · have place : offset + target.chip.alignmentSize +
              (a - (start.toNat + target.chip.alignmentSize)) = offset + (a - start.toNat) := by
            omega
          rw [if_pos high, if_pos (by omega), place]
        · rw [if_neg high, if_neg (by omega)]

/-- The last unit ends where the flash does, if the data does not end behind it. -/
theorem programCount_inside {start : BitVec 32} {length : ℕ}
    (aligned : target.chip.alignmentSize ∣ start.toNat)
    (inside : start.toNat + length ≤ 2 ^ 24) :
    length ≤ programCount target.chip length * target.chip.alignmentSize ∧
      start.toNat + programCount target.chip length * target.chip.alignmentSize ≤ 2 ^ 24 := by
  have positive : 0 < target.chip.alignmentSize := alignmentSize_pos
  have rounded := Nat.div_add_mod (length + target.chip.alignmentSize - 1) target.chip.alignmentSize
  have rest := Nat.mod_lt (length + target.chip.alignmentSize - 1) positive
  rw [Nat.mul_comm] at rounded
  change programCount target.chip length * target.chip.alignmentSize + _ = _ at rounded
  obtain ⟨first, isFirst⟩ := aligned
  obtain ⟨last, isLast⟩ : target.chip.alignmentSize ∣ 2 ^ 24 := alignmentSize_dvd_flash
  refine ⟨by omega, ?_⟩
  have before : (first + programCount target.chip length) * target.chip.alignmentSize <
      (last + 1) * target.chip.alignmentSize := by
    rw [Nat.add_mul, Nat.succ_mul, Nat.mul_comm first, Nat.mul_comm last]
    omega
  have units := Nat.lt_succ_iff.mp (Nat.lt_of_mul_lt_mul_right before)
  calc start.toNat + programCount target.chip length * target.chip.alignmentSize
      = (first + programCount target.chip length) * target.chip.alignmentSize := by
        rw [isFirst, Nat.add_mul, Nat.mul_comm first]
    _ ≤ last * target.chip.alignmentSize := Nat.mul_le_mul_right _ units
    _ = 2 ^ 24 := by rw [isLast, Nat.mul_comm]

/-- `flash_program` succeeds only where it has looked at the address and the range. -/
theorem flashProgram_checked {start length : BitVec 32} {src : ℕ → BitVec 8} {m : FlashModule}
    (success : (flashProgram target start src length m).2.1 = .success) :
    start &&& BitVec.ofNat 32 (target.chip.alignmentSize - 1) = 0 ∧
      isValidMemoryRange start length = true := by
  simp only [flashProgram] at success
  split_ifs at success with unaligned invalid
  exact ⟨not_not.mp unaligned, Bool.eq_true_of_not_eq_false invalid⟩

/-- **`flash_program` writes what it is given**, where it succeeds and the flash is
erased. -/
theorem flashProgram_writes {start length : BitVec 32} {src : ℕ → BitVec 8} {m : FlashModule}
    (success : (flashProgram target start src length m).2.1 = .success)
    (inside : start.toNat + length.toNat ≤ 2 ^ 24)
    (erased : ∀ a, start.toNat ≤ a → a < start.toNat + length.toNat → flashByte m.mem a = 0xFF) :
    flashByte (flashProgram target start src length m).1.mem =
      overlay start.toNat ((List.range length.toNat).map src) (flashByte m.mem) := by
  obtain ⟨aligned, valid⟩ := flashProgram_checked target success
  have dvd := alignmentSize_dvd aligned
  obtain ⟨enough, fits⟩ := programCount_inside target dvd inside
  have launches := flashProgram_eq target src m aligned valid
  have zero : ∀ filled : ℕ → BitVec 8,
      (fun i => sourceWords target.chip filled (i * target.chip.alignmentSize)) =
        fun i => sourceWords target.chip filled (0 + i * target.chip.alignmentSize) := by
    intro filled
    funext i
    rw [Nat.zero_add]
  simp only [zero] at launches
  have isMem := congrArg (fun r => r.1.mem) launches
  have isStatus := congrArg Prod.snd launches
  simp only at isMem isStatus
  rw [success] at isStatus
  funext a
  rw [isMem, flashByte_launchAll target (dvd_trans four_dvd_alignmentSize dvd) fits isStatus.symm,
    Nat.zero_add]
  have ones : (0xFF : BitVec 8) = BitVec.allOnes 8 := rfl
  have length' : ((List.range length.toNat).map src).length = length.toNat := by
    rw [List.length_map, List.length_range]
  by_cases before : start.toNat ≤ a
  · by_cases data : a < start.toNat + length.toNat
    · have index : a - start.toNat < ((List.range length.toNat).map src).length := by omega
      have value : ((List.range length.toNat).map src).getD (a - start.toNat) (flashByte m.mem a) =
          src (a - start.toNat) := by
        rw [List.getD_eq_getElem _ _ index, List.getElem_map, List.getElem_range]
      rw [if_pos (by omega), padTail_of_lt (by omega), erased a before data, ones,
        BitVec.allOnes_and, overlay, if_pos before, value]
    · rw [overlay_of_le (by omega)]
      split_ifs with filled
      · -- the bytes the last unit is filled up with
        rw [padTail, if_pos (by omega), ones, BitVec.and_allOnes]
      · rfl
  · rw [if_neg (fun both => before both.1), overlay, if_neg before]

end CannonCar.Kboot
