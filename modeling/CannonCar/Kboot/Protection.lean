import CannonCar.Kboot.Bootloader

/-!
# Self-protection of the bootloader

The bootloader sits below `APPLICATION_BASE` and means never to erase or program
anything there.

What a packet does to the flash is one `Stretch`: units of one size from an aligned
address on, as many as the commands succeed for (`reach`).  `is_valid_memory_range` looks
at the 32-bit address, the flash module at its low 24 bits, and the loops do not look at
all: a stretch stays above the base exactly when its start does in 24 bits and no unit
of it passes the end of the 24-bit address space.

## What is load-bearing

**The condition is on the packet and the state before it.**  `Contains` computes the stretch from
the packet that the byte completes, the phase and the data phase's address and count, and how
much of it is reached from the status registers to come.  It does not look at what has been
launched.

**Only what is reached counts.**  A stretch that would run out of the application area, but whose
commands fail before that, launches nothing below the base; asking for all of it to be
contained would be enough and not necessary.

**Exactness needs each unit.**  Units are aligned to their size and the base is a multiple of it,
so the first unit outside is the one that starts below the base in 24 bits, and it has been
launched when the check comes too late.
-/

namespace CannonCar.Kboot

open MachineInt Trajectory

/-! ## Stretches of flash -/

/-- Units of one size from an address on, aligned to it. -/
structure Stretch where
  start : BitVec 32
  size : ℕ
  count : ℕ
  positive : 0 < size
  aligned : size ∣ start.toNat
  divides : size ∣ 2 ^ 24

namespace Stretch

/-- Nothing. -/
def none : Stretch := ⟨0, 1, 0, Nat.one_pos, one_dvd _, one_dvd _⟩

/-- The sectors of `flash_erase`. -/
def erase (chip : Ftfx) (start length : BitVec 32) : Stretch where
  start := alignDown start chip.sectorSize
  size := chip.sectorSize.toNat
  count := eraseCount chip start length
  positive := by cases chip <;> decide
  aligned := by
    rw [alignDown_toNat]
    exact Nat.dvd_mul_left _ _
  divides := by cases chip <;> decide

/-- The units of `flash_program`, at an aligned address. -/
def program (chip : Ftfx) (start length : BitVec 32)
    (aligned : start &&& BitVec.ofNat 32 (chip.alignmentSize - 1) = 0) : Stretch where
  start := start
  size := chip.alignmentSize
  count := programCount chip length.toNat
  positive := alignmentSize_pos
  aligned := alignmentSize_dvd aligned
  divides := alignmentSize_dvd_flash

/-- The first `n` units are above the base in 24 bits. -/
def Contained (s : Stretch) (n : ℕ) : Prop :=
  n = 0 ∨ applicationBase.toNat ≤ s.start.toNat % 2 ^ 24 ∧
    s.start.toNat % 2 ^ 24 + n * s.size ≤ 2 ^ 24

instance (s : Stretch) (n : ℕ) : Decidable (s.Contained n) :=
  inferInstanceAs (Decidable (_ ∨ _))

end Stretch

/-! ## What the loops launch of a stretch -/

variable (target : Target)

/-- How many of `n` commands are launched, the first one after `k` others: those up to
the first that fails. -/
def reach (fstat : ℕ → BitVec 8) : ℕ → ℕ → ℕ
  | _, 0 => 0
  | k, n + 1 => if fstatStatus (fstat k) = .success then reach fstat (k + 1) n + 1 else 1

theorem reach_le (fstat : ℕ → BitVec 8) (k n : ℕ) : reach fstat k n ≤ n := by
  induction n generalizing k with
  | zero => exact le_rfl
  | succ n ih =>
      unfold reach
      split_ifs
      · exact Nat.succ_le_succ (ih (k + 1))
      · exact Nat.succ_le_succ (Nat.zero_le n)

theorem launchAll_launched (ls : List Launch) (m : FlashModule) :
    (launchAll target ls m).1.launched =
      (ls.take (reach target.fstat m.launched.length ls.length)).reverse ++ m.launched := by
  induction ls generalizing m with
  | nil => rfl
  | cons l ls ih =>
      have status : (flashCommandSequence target l m).2 =
          fstatStatus (target.fstat m.launched.length) := rfl
      rw [launchAll, List.length_cons, reach, status]
      by_cases success : fstatStatus (target.fstat m.launched.length) = .success
      · have next : (flashCommandSequence target l m).1.launched = l :: m.launched := rfl
        rw [if_neg (not_not_intro success), if_pos success, ih, next, List.length_cons,
          List.take_succ_cons, List.reverse_cons, List.append_assoc, List.singleton_append]
      · rw [if_pos success, if_neg success]
        rfl

theorem take_strided (command : BitVec 8) (start : BitVec 32) (size : ℕ)
    (data : ℕ → List (BitVec 32)) {k n : ℕ} (le : k ≤ n) :
    (strided command start size data n).take k = strided command start size data k := by
  rw [strided, strided, ← List.map_take, List.take_range, Nat.min_eq_left le]

/-- The addresses of a stretch, as the flash module sees them. -/
theorem forall_strided (command : BitVec 8) (s : Stretch) (data : ℕ → List (BitVec 32)) (n : ℕ) :
    (∀ l ∈ strided command s.start s.size data n, applicationBase.toNat ≤ l.address.toNat) ↔
      s.Contained n := by
  have address : ∀ i, ((s.start + BitVec.ofNat 32 (i * s.size)).setWidth 24).toNat =
      (s.start.toNat + i * s.size) % 2 ^ 24 := by
    intro i
    rw [BitVec.toNat_setWidth, BitVec.toNat_add, BitVec.toNat_ofNat,
      Nat.mod_mod_of_dvd _ (by decide : 2 ^ 24 ∣ 2 ^ 32), Nat.add_mod,
      Nat.mod_mod_of_dvd _ (by decide : 2 ^ 24 ∣ 2 ^ 32), ← Nat.add_mod]
  -- a stretch that went round would have a unit at address zero, below the base
  have positive : 0 < applicationBase.toNat := by decide
  rw [Stretch.Contained, ← progression_mod s.aligned s.divides (Nat.two_pow_pos 24) positive]
  simp only [strided, List.forall_mem_map, List.mem_range, Launch.of, address]

/-- Nothing below the base has been launched. -/
def Protected (m : FlashModule) : Prop :=
  ∀ l ∈ m.launched, applicationBase.toNat ≤ l.address.toNat

/-- A stretch that is worked through leaves the flash protected when it is contained as
far as it is reached. -/
theorem protected_launchAll (command : BitVec 8) (s : Stretch) (data : ℕ → List (BitVec 32))
    {m : FlashModule} (before : Protected m) :
    Protected (launchAll target (strided command s.start s.size data s.count) m).1 ↔
      s.Contained (reach target.fstat m.launched.length s.count) := by
  have length : (strided command s.start s.size data s.count).length = s.count := by
    rw [strided, List.length_map, List.length_range]
  rw [← forall_strided command s data, ← take_strided command s.start s.size data (reach_le _ _ _)]
  unfold Protected
  rw [launchAll_launched, length]
  constructor
  · intro all l mem
    exact all l (List.mem_append_left _ (List.mem_reverse.mpr mem))
  · intro new l mem
    rcases List.mem_append.mp mem with mem | mem
    · exact new l (List.mem_reverse.mp mem)
    · exact before l mem

/-! ## Packets -/

namespace Boot

/-- The stretch an accepted packet leads to. -/
def stretch (p : SerialPacket) (b : Boot) : Stretch :=
  match b.state with
  | .command =>
      let start := word p.payload 4
      let length := word p.payload 8
      if p.payload 0 = kCommandTagFlashEraseRegion ∧ isValidMemoryRange start length = true then
        .erase target.chip start length
      else .none
  | .data =>
      let length := if p.length < b.count.toNat then BitVec.ofNat 32 p.length else b.count
      if aligned : b.address &&& BitVec.ofNat 32 (target.chip.alignmentSize - 1) = 0 then
        if b.count ≠ 0 ∧ isValidMemoryRange b.address length = true then
          .program target.chip b.address length aligned
        else .none
      else .none

/-- The flash works through a stretch, with some command and some data. -/
def Works (s : Stretch) (b b' : Boot) : Prop :=
  ∃ command data, b'.flash =
    (launchAll target (strided command s.start s.size data s.count) b.flash).1

variable {target} {b b' : Boot}

/-- Nothing to work through. -/
theorem works_none (same : b'.flash = b.flash) : Works target .none b b' := ⟨0, fun _ => [], same⟩

theorem works_handleFlashEraseRegion :
    Works target (if isValidMemoryRange (word b.packet.payload 4) (word b.packet.payload 8) = true
      then .erase target.chip (word b.packet.payload 4) (word b.packet.payload 8) else .none) b
      (b.handleFlashEraseRegion target) := by
  simp only [handleFlashEraseRegion, sendGenericResponse]
  by_cases valid : isValidMemoryRange (word b.packet.payload 4) (word b.packet.payload 8) = true
  · rw [if_pos valid, if_neg (by rw [valid]; decide)]
    refine ⟨eraseSector, fun _ => [], ?_⟩
    rw [serialPacketWrite_flash, flashErase_eq]
    rfl
  · rw [if_neg valid, if_pos (Bool.eq_false_iff.mpr valid)]
    exact works_none (serialPacketWrite_flash _ _ _)

@[simp] theorem dataPhaseEnd_flash (b : Boot) : b.dataPhaseEnd.flash = b.flash := by
  unfold dataPhaseEnd finalizeDataPhase sendGenericResponse
  split_ifs
  · rfl
  · exact serialPacketWrite_flash _ _ _

/-- What `handle_data_phase` does to the flash is what `flash_program` does. -/
theorem handleDataPhase_flash (some_ : b.count ≠ 0) :
    (b.handleDataPhase target).flash =
      (flashProgram target b.address b.packet.payload b.writeLength b.flash).1 := by
  simp only [handleDataPhase, if_pos some_]
  split_ifs
  · exact serialPacketWrite_flash _ _ _
  · rw [dataPhaseEnd_flash]

theorem works_handleDataPhase (data : b.state = .data) :
    Works target (b.stretch target b.packet) b (b.handleDataPhase target) := by
  have length : (if b.packet.length < b.count.toNat then BitVec.ofNat 32 b.packet.length
      else b.count) = b.writeLength := rfl
  simp only [stretch, data, length]
  by_cases none : b.count = 0
  · have idle : (b.handleDataPhase target).flash = b.flash := by
      rw [handleDataPhase, if_neg (not_not_intro none), dataPhaseEnd_flash]
    have same : (if aligned : b.address &&& BitVec.ofNat 32 (target.chip.alignmentSize - 1) = 0 then
        if b.count ≠ 0 ∧ isValidMemoryRange b.address b.writeLength = true then
          Stretch.program target.chip b.address b.writeLength aligned else .none
        else .none) = .none := by
      split_ifs with aligned both
      · exact absurd none both.1
      · rfl
      · rfl
    rw [same]
    exact works_none idle
  · -- the checks of `flash_program`, in its order
    split_ifs with aligned both
    · have program := flashProgram_eq target b.packet.payload b.flash aligned both.2
      exact ⟨_, _, (handleDataPhase_flash none).trans (congrArg Prod.fst program)⟩
    · refine works_none ((handleDataPhase_flash none).trans ?_)
      have invalid : isValidMemoryRange b.address b.writeLength = false :=
        Bool.eq_false_iff.mpr fun valid => both ⟨none, valid⟩
      rw [flashProgram, if_neg (not_not_intro aligned), if_pos invalid]
    · refine works_none ((handleDataPhase_flash none).trans ?_)
      rw [flashProgram, if_pos aligned]

/-- **The switch works through the stretch of its packet.** -/
theorem works_handlePacket :
    Works target (b.stretch target b.packet) b (b.handlePacket target) := by
  cases state : b.state with
  | command =>
      by_cases erase : b.packet.payload 0 = kCommandTagFlashEraseRegion
      · have handled : b.handlePacket target = b.handleFlashEraseRegion target := by
          simp only [handlePacket, state]
          rw [erase, if_neg (by decide), if_pos rfl]
        simp only [stretch, state]
        rw [handled]
        simp only [erase, true_and]
        exact works_handleFlashEraseRegion
      · -- no other command touches the flash
        have other : b.stretch target b.packet = .none := by
          simp only [stretch, state]
          exact if_neg fun both => erase both.1
        rw [other]
        refine works_none ?_
        simp only [handlePacket, state, if_neg erase]
        split_ifs
        · exact serialPacketWrite_flash _ _ _
        · exact serialPacketWrite_flash _ _ _
        · exact serialPacketWrite_flash _ _ _
        · exact serialPacketWrite_flash _ _ _
        · rfl
  | data =>
      have handled : b.handlePacket target = b.handleDataPhase target := by
        simp only [handlePacket, state]
      rw [handled]
      exact works_handleDataPhase state

/-! ## Runs -/

variable (target)

/-- The byte completes no packet that passes its check sum, or one whose stretch is
contained as far as it is reached. -/
def Contains (b : Boot) (tmp : BitVec 8) : Prop :=
  b.wait = .packet → b.verdict tmp = .success →
    let s := b.stretch target (b.completed tmp)
    s.Contained (reach target.fstat b.flash.launched.length s.count)

/-- The packet reaches the switch in the phase, and with the address and the count, it
was completed in. -/
theorem works_runLoop {tmp : BitVec 8} (success : b.verdict tmp = .success) :
    Works target (b.stretch target (b.completed tmp)) b (b.runLoop target tmp) := by
  have same : (b.afterRead tmp).accept.stretch target (b.afterRead tmp).accept.packet =
      b.stretch target (b.completed tmp) := by
    simp only [stretch, accept_state, afterRead_state, accept_address, afterRead_address,
      accept_count, afterRead_count, accept_packet, afterRead_packet]
    rfl
  have works : Works target
      ((b.afterRead tmp).accept.stretch target (b.afterRead tmp).accept.packet)
      (b.afterRead tmp).accept ((b.afterRead tmp).accept.handlePacket target) :=
    works_handlePacket
  rw [same] at works
  obtain ⟨command, data, flash⟩ := works
  refine ⟨command, data, ?_⟩
  rw [runLoop_of_success target b tmp success, flash, accept_flash, afterRead_flash]

/-- Any other byte leaves the flash alone. -/
theorem step_flash {tmp : BitVec 8}
    (idle : ¬ (b.wait = .packet ∧ b.verdict tmp = .success)) :
    (b.step target tmp).flash = b.flash := by
  unfold Boot.step
  split
  case h_1 wait =>
    rcases b.runLoop_cases target tmp with ⟨success, -⟩ | ⟨-, run⟩ | ⟨-, run | run⟩
    · exact absurd ⟨wait, success⟩ idle
    · rw [run]
      exact afterRead_flash b tmp
    · rw [run]
      exact afterRead_flash b tmp
    · rw [run, emit_flash]
      exact afterRead_flash b tmp
  case h_2 => rfl
  case h_3 next _ => cases next <;> rfl
  case h_4 => rfl

/-- **One byte.** The flash stays protected when the byte contains what it starts. -/
theorem protected_step {tmp : BitVec 8} (before : Protected b.flash) :
    Protected (b.step target tmp).flash ↔ b.Contains target tmp := by
  by_cases both : b.wait = .packet ∧ b.verdict tmp = .success
  · obtain ⟨wait, success⟩ := both
    have step : b.step target tmp = b.runLoop target tmp := by
      simp only [Boot.step, wait]
    obtain ⟨command, data, flash⟩ := works_runLoop target success
    rw [step, flash, protected_launchAll target command _ data before]
    exact ⟨fun contained _ _ => contained, fun contains => contains wait success⟩
  · rw [step_flash target both]
    exact iff_of_true before fun wait success => absurd ⟨wait, success⟩ both

/-- **Self-protection.** Exactly the runs in which every accepted packet keeps its stretch
above the base, in 24 bits and without going round, launch nothing below it. -/
theorem protects_iff (mem : Flash) (bytes : List (BitVec 8)) :
    Throughout (fun b => Protected b.flash) (Boot.step target) (init mem) bytes ↔
      Guarded (Contains target) (Boot.step target) (init mem) bytes := by
  have start : Protected (init mem).flash := fun l launched => absurd launched List.not_mem_nil
  have keeps : ∀ (b : Boot) (tmp : BitVec 8), True → Protected b.flash →
      (Protected (b.step target tmp).flash ↔ b.Contains target tmp) :=
    fun _ _ _ before => protected_step target before
  rw [throughout_iff_guarded (I := fun _ => True) (fun _ _ _ => trivial) keeps trivial]
  exact and_iff_right start

/-- An address with its 25th bit set: the packet is accepted, the range found valid, and
the sector erased is the first one. -/
theorem not_protects :
    let target : Target := ⟨.FTFL, 0x80000, 0x1fff0000, 0x20000, 0, fun _ => 0x80⟩
    let payload : List (BitVec 8) :=
      [kCommandTagFlashEraseRegion, 0, 0, 2] ++ wordBytes 0x01000000 ++ wordBytes 1
    payload.length ≤ 32 ∧
      ¬ Throughout (fun b => Protected b.flash) (Boot.step target) (init fun _ => 0)
        (encodePacket kFramingPacketTypeCommand payload) := by
  intro target payload
  refine ⟨by decide, fun throughout => ?_⟩
  have launched : (run (Boot.step target) (init fun _ => 0)
      (encodePacket kFramingPacketTypeCommand payload)).flash.launched =
      [⟨eraseSector, 0, []⟩] := by
    decide +kernel
  have below : ⟨eraseSector, 0, []⟩ ∈ (run (Boot.step target) (init fun _ => 0)
      (encodePacket kFramingPacketTypeCommand payload)).flash.launched := by
    rw [launched]
    exact List.mem_singleton_self _
  exact absurd (throughout.last _ below) (by decide)

end Boot

end CannonCar.Kboot
