import CannonCar.Foundation.Crc
import CannonCar.Kboot.Packet

/-!
# The CRC-16 of the bootloader

`crc16_update` and `calculate_crc` of `bl_core.c`, and `CRC16_GenerateSoftware` of
`drivers/K/src/crc.c`, against the check with polynomial `x^16 + x^12 + x^5 + 1` on a
register of 16 bits (`Crc.serial`).

Both keep the register in 32 bits and never mask it, so that it fills with bits above bit
15.  These only move further up, and the bit tested is bit 15: cut to 16 bits, the working
register is at each step the register of the check (`setWidth_crcByte`).

## What is load-bearing

**Three routines, one register.**  `crc16_update` moves the register bit by bit and is called for
stretches of a packet; `calculate_crc` calls it for header and payload and leaves out the two
bytes of the check sum between them; `CRC16_GenerateSoftware` is another text for the same
loop, with its own shifting of the byte.  Each is shown to be `Crc.serial` on the bits of its
bytes, most significant first, and the agreement between them follows from that.

**Starting values.**  Nothing is assumed of them.  Bits of a start above bit 15 are shifted out and
never tested.
-/

namespace CannonCar.Kboot

open Polynomial Trajectory

/-- `CRC16_GenerateSoftware`. -/
def crc16GenerateSoftware (src : List (BitVec 8)) : BitVec 16 := (src.foldl crcByte 0).setWidth 16

/-- The polynomial of CRC-16/XMODEM, its leading term left out. -/
def xmodem : BitVec 16 := 0x1021

/-- CRC-16/XMODEM of a message, bit by bit, with the register started at `crc`. -/
def crc16Xmodem (crc : BitVec 16) (src : List (BitVec 8)) : BitVec 16 :=
  Crc.serial xmodem crc (src.flatMap Crc.bitsOf)

/-! ## The working register -/

/-- The bit that is tested is the top of the register of the check. -/
theorem and_0x8000_ne_zero (crc : BitVec 32) :
    crc &&& 0x8000#32 ≠ 0#32 ↔ (crc.setWidth 16).msb = true := by
  have mask : 0x8000#32 = BitVec.twoPow 32 15 := by decide
  have top : (crc.setWidth 16).msb = crc.getLsbD 15 := by
    rw [BitVec.msb_setWidth]
    rfl
  rw [mask, BitVec.and_twoPow, top]
  cases crc.getLsbD 15
  · simp
  · simp only [if_true, iff_true]
    decide

/-- The inner loop, cut to 16 bits. -/
theorem setWidth_crcShift (n : ℕ) (crc : BitVec 32) :
    (crcShift n crc).setWidth 16 = (Crc.shift xmodem)^[n] (crc.setWidth 16) := by
  induction n generalizing crc with
  | zero => rfl
  | succ n ih =>
      have step := Crc.setWidth_wideShift (w := 16) (v := 32) (by decide) 0x1021#32 crc
      have cut : (0x1021#32).setWidth 16 = xmodem := by decide
      rw [crcShift, ih, Function.iterate_succ_apply, ← cut, ← step]
      simp only [and_0x8000_ne_zero]

/-- The outer loop, cut to 16 bits: a byte enters the register of the check. -/
theorem setWidth_crcByte (crc : BitVec 32) (byte : BitVec 8) :
    (crcByte crc byte).setWidth 16 =
      Crc.serial xmodem (crc.setWidth 16) (Crc.bitsOf byte) := by
  have place : (byte.setWidth 32 <<< 8).setWidth 16 = byte.setWidth 16 <<< 8 := by
    apply BitVec.eq_of_getLsbD_eq
    intro i lt
    have low : i < 32 := by omega
    have before : i - 8 < 16 := by omega
    have early : i - 8 < 32 := by omega
    simp only [BitVec.getLsbD_setWidth, BitVec.getLsbD_shiftLeft, lt, low, before, early,
      decide_true, Bool.true_and]
  rw [crcByte, setWidth_crcShift, BitVec.setWidth_xor, place,
    Crc.serial_bitsOf (by decide : 8 ≤ 16)]

/-- Over a message the working register and that of the check stay related. -/
theorem setWidth_foldl_crcByte (crc : BitVec 32) (src : List (BitVec 8)) :
    (src.foldl crcByte crc).setWidth 16 = crc16Xmodem (crc.setWidth 16) src := by
  have keeps : ∀ (x : BitVec 32) (r : BitVec 16) (byte : BitVec 8), x.setWidth 16 = r →
      (crcByte x byte).setWidth 16 = Crc.serial xmodem r (Crc.bitsOf byte) := by
    intro x r byte same
    rw [setWidth_crcByte, same]
  rw [crc16Xmodem, Crc.serial, List.foldl_flatMap]
  exact run_related keeps rfl src

theorem crc16Update_eq_xmodem (crc : BitVec 16) (src : List (BitVec 8)) :
    crc16Update crc src = crc16Xmodem crc src := by
  have start : (crc.setWidth 32).setWidth 16 = crc := by
    rw [BitVec.setWidth_setWidth_of_le _ (by decide), BitVec.setWidth_eq]
  rw [crc16Update, setWidth_foldl_crcByte, start]

theorem crc16Xmodem_append (crc : BitVec 16) (src more : List (BitVec 8)) :
    crc16Xmodem crc (src ++ more) = crc16Xmodem (crc16Xmodem crc src) more := by
  rw [crc16Xmodem, List.flatMap_append, Crc.serial_append]
  rfl

/-! ## The check sums -/

/-- **The software check sums are CRC-16/XMODEM**, for every message and every value they
are started with; they may be taken piece by piece, as `calculate_crc` does, and the two
routines agree. -/
theorem crc16Update_spec :
    (∀ crc src, crc16Update crc src = crc16Xmodem crc src) ∧
    (∀ crc src more, crc16Update (crc16Update crc src) more = crc16Update crc (src ++ more)) ∧
    (∀ p : SerialPacket, calculateCrc p = crc16Update 0 (p.header ++ p.data p.length)) ∧
    ∀ src, crc16GenerateSoftware src = crc16Update 0 src := by
  have pieces : ∀ crc src more,
      crc16Update (crc16Update crc src) more = crc16Update crc (src ++ more) := by
    intro crc src more
    simp only [crc16Update_eq_xmodem, crc16Xmodem_append]
  refine ⟨crc16Update_eq_xmodem, pieces, fun p => pieces 0 p.header _, fun src => ?_⟩
  rw [crc16Update_eq_xmodem, crc16GenerateSoftware, setWidth_foldl_crcByte]
  rfl

/-- The check value of CRC-16/XMODEM. -/
example : crc16Update 0 [0x31, 0x32, 0x33, 0x34, 0x35, 0x36, 0x37, 0x38, 0x39] = 0x31c3 := by
  decide +kernel

/-! ## The remainder -/

theorem generator_xmodem : Crc.generator xmodem = X ^ 16 + X ^ 12 + X ^ 5 + 1 := by
  have places : Crc.toPoly xmodem = X ^ 12 + X ^ 5 + 1 := by
    simp [Crc.toPoly, Finset.sum_range_succ, Crc.bit, xmodem]
    ring
  rw [Crc.generator, places]
  ring

/-- **The check sum is a remainder**: of the message followed by two zero bytes, by
`x^16 + x^12 + x^5 + 1`. -/
theorem toPoly_crc16Update (src : List (BitVec 8)) :
    Crc.toPoly (crc16Update 0 src) =
      (X ^ 16 * Crc.message (src.flatMap Crc.bitsOf)) %ₘ (X ^ 16 + X ^ 12 + X ^ 5 + 1) := by
  have zero : Crc.toPoly (0 : BitVec 16) = 0 := by
    ext i
    rw [Crc.coeff_toPoly, coeff_zero]
    simp [Crc.bit]
  rw [crc16Update_eq_xmodem, crc16Xmodem, Crc.toPoly_serial, zero, mul_zero, zero_add,
    generator_xmodem]

end CannonCar.Kboot
