import CannonCar.Foundation.MachineInt
import CannonCar.Foundation.Registers

/-!
# CAN mailboxes

`CAN_WriteData`, `CAN_ReadData` and `set_id` of `can.c`, on the four words of a mailbox.
A frame that arrives is the mailbox it was sent from with a receive code in place of the
transmit code.

Length and data come out as they went in.  The identifier does if it is an extended one:
a standard one is written eighteen bits up, where the standard identifier has its place,
and read without coming down again.

## What is load-bearing

**A mailbox is four words**: code and status, identifier, and eight bytes of data in two words.
`setId`, `CanMb.writeData` and the reading side are the masks and shifts of the source on
them, and the field rules of `Registers` say which bits a step leaves alone.

**What the bus does is `Arrives`.**  The receiver's mailbox has the identifier, the flags, the
length and the data of the sender's, with the code of a full receive box.  Whatever else the
status word of the receiving mailbox has is not looked at.

**Bytes behind the length.**  `CAN_ReadData` copies as many bytes as the length says, so the rest of
the eight is not part of a frame.
-/

namespace CannonCar

open MachineInt Registers

/-! ## The source -/

/-- `CAN_CS_DLC_MASK`. -/
def canCsDlcMask : BitVec 32 := 0xf0000

/-- `CAN_CS_RTR_MASK`. -/
def canCsRtrMask : BitVec 32 := 0x100000

/-- `CAN_CS_IDE_MASK`. -/
def canCsIdeMask : BitVec 32 := 0x200000

/-- `CAN_CS_SRR_MASK`. -/
def canCsSrrMask : BitVec 32 := 0x400000

/-- `CAN_CS_CODE_MASK`. -/
def canCsCodeMask : BitVec 32 := 0xf000000

/-- `CAN_ID_EXT_MASK`. -/
def canIdExtMask : BitVec 32 := 0x3ffff

/-- `CAN_ID_STD_MASK`. -/
def canIdStdMask : BitVec 32 := 0x1ffc0000

/-- `CAN_CS_DLC`. -/
def canCsDlc (x : BitVec 8) : BitVec 32 := x.setWidth 32 <<< 16 &&& canCsDlcMask

/-- `CAN_CS_CODE`. -/
def canCsCode (x : BitVec 32) : BitVec 32 := x <<< 24 &&& canCsCodeMask

/-- `CAN_ID_STD`. -/
def canIdStd (x : BitVec 32) : BitVec 32 := x <<< 18 &&& canIdStdMask

/-- `CAN_GET_MB_CODE`. -/
def canGetMbCode (cs : BitVec 32) : BitVec 32 := (cs &&& canCsCodeMask) >>> 24

/-- `CAN_GET_FRAME_LEN`. -/
def canGetFrameLen (cs : BitVec 32) : BitVec 32 := (cs &&& canCsDlcMask) >>> 16

/-- `kFlexCanTX_Data`. -/
def kFlexCanTXData : BitVec 32 := 0x0c

/-- `kFlexCanRX_Full`. -/
def kFlexCanRXFull : BitVec 32 := 0x02

/-- The words of a mailbox. -/
structure CanMb where
  cs : BitVec 32
  id : BitVec 32
  word0 : BitVec 32
  word1 : BitVec 32
  deriving DecidableEq

/-- The mailboxes of a module, and its interrupt flags. -/
structure Can where
  mb : ℕ → CanMb
  iflag1 : BitVec 32

/-- `is_mb_idle`: inactive, as a transmitter or as a receiver, or empty. -/
def isMbIdle (mb : CanMb) : Bool :=
  let code := canGetMbCode mb.cs
  code == 0x8 || code == 0x0 || code == 0x4

/-- `set_id`. -/
def setId (id : BitVec 32) (mb : CanMb) : CanMb :=
  if id > 0x7ff then
    { mb with id := id &&& (canIdStdMask ||| canIdExtMask)
              cs := mb.cs ||| (canCsSrrMask ||| canCsIdeMask) }
  else { mb with id := canIdStd id, cs := mb.cs &&& ~~~(canCsIdeMask ||| canCsSrrMask) }

/-- The `for` loop of `CAN_WriteData`: the data words. -/
def packWords (buf : ℕ → BitVec 8) (len : ℕ) : BitVec 32 × BitVec 32 :=
  (List.range len).foldl (fun word i =>
    if i < 4 then (word.1 ||| (buf i).setWidth 32 <<< ((3 - i) * 8), word.2)
    else (word.1, word.2 ||| (buf i).setWidth 32 <<< ((7 - i) * 8))) (0, 0)

/-- `CAN_WriteData` once its mailbox is idle. -/
def CanMb.writeData (id : BitVec 32) (buf : ℕ → BitVec 8) (len : BitVec 8) (mb : CanMb) : CanMb :=
  let word := packWords buf len.toNat
  let mb := { mb with word0 := word.1, word1 := word.2 }
  let mb := { mb with cs := mb.cs &&& ~~~canCsDlcMask }
  let mb := { mb with cs := mb.cs ||| canCsDlc len }
  let mb := { mb with cs := mb.cs &&& ~~~canCsRtrMask }
  let mb := setId id mb
  let mb := { mb with cs := mb.cs &&& ~~~canCsCodeMask }
  { mb with cs := mb.cs ||| canCsCode kFlexCanTXData }

/-- `CAN_WriteData`; `none` while it waits for the mailbox. -/
def canWriteData (mb : ℕ) (id : BitVec 32) (buf : ℕ → BitVec 8) (len : BitVec 8) (c : Can) :
    Option Can :=
  if isMbIdle (c.mb mb) then
    some { c with mb := Function.update c.mb mb ((c.mb mb).writeData id buf len) }
  else none

/-- What `CAN_ReadData` stores through its pointers. -/
structure CanFrame where
  id : BitVec 32
  len : BitVec 8
  data : List (BitVec 8)
  deriving DecidableEq

/-- A byte of the data words. -/
def dataByte (mb : CanMb) (i : ℕ) : BitVec 8 :=
  if i < 4 then (mb.word0 >>> ((3 - i) * 8)).setWidth 8
  else (mb.word1 >>> ((7 - i) * 8)).setWidth 8

/-- `1 << mb`. -/
def mbFlag (mb : ℕ) : BitVec 32 := 1 <<< mb

/-- `CAN_ReadData`, with what it returns and the frame where that is zero. -/
def canReadData (mb : ℕ) (c : Can) : Can × BitVec 32 × Option CanFrame :=
  if canGetMbCode (c.mb mb).cs &&& 1 ≠ 0 then (c, 1, none)
  else if c.iflag1 &&& mbFlag mb ≠ 0 then
    let len := (canGetFrameLen (c.mb mb).cs).setWidth 8
    -- a flag is cleared by writing it
    ({ c with iflag1 := c.iflag1 &&& ~~~mbFlag mb }, 0,
      some { id := (c.mb mb).id &&& (canIdExtMask ||| canIdStdMask)
             len := len
             data := (List.range len.toNat).map (dataByte (c.mb mb)) })
  else (c, 1, none)

/-! ## The data words -/

variable {id : BitVec 32} {buf : ℕ → BitVec 8} {len : BitVec 8}

theorem dataByte_low (mb : CanMb) {i : ℕ} (low : i < 4) :
    dataByte mb i = lane (3 - i) mb.word0 := by
  rw [dataByte, if_pos low, lane, Nat.mul_comm]

theorem dataByte_high (mb : CanMb) {i : ℕ} (high : 4 ≤ i) :
    dataByte mb i = lane (7 - i) mb.word1 := by
  rw [dataByte, if_neg (not_lt.mpr high), lane, Nat.mul_comm]

theorem packWords_succ (buf : ℕ → BitVec 8) (n : ℕ) :
    packWords buf (n + 1) =
      if n < 4 then
        ((packWords buf n).1 ||| (buf n).setWidth 32 <<< (8 * (3 - n)), (packWords buf n).2)
      else
        ((packWords buf n).1, (packWords buf n).2 ||| (buf n).setWidth 32 <<< (8 * (7 - n))) := by
  rw [packWords, List.range_succ, List.foldl_append, List.foldl_cons, List.foldl_nil, packWords,
    Nat.mul_comm, Nat.mul_comm (7 - n)]

/-- One more byte in its lane. -/
theorem packed_step (buf : ℕ → BitVec 8) (i n : ℕ) :
    (if i = n then (if i < n then buf i else 0) ||| buf n else if i < n then buf i else 0) =
      if i < n + 1 then buf i else 0 := by
  rcases lt_trichotomy i n with before | rfl | behind
  · rw [if_neg (Nat.ne_of_lt before), if_pos before, if_pos (Nat.lt_succ_of_lt before)]
  · rw [if_pos rfl, if_neg (lt_irrefl i), if_pos (Nat.lt_succ_self i)]
    exact BitVec.zero_or
  · rw [if_neg (Nat.ne_of_gt behind), if_neg (by omega), if_neg (by omega)]

/-- The bytes packed so far, each in its lane, and nothing in the others. -/
theorem dataByte_packWords (mb : CanMb) {n : ℕ} (short : n ≤ 8)
    (word0 : mb.word0 = (packWords buf n).1) (word1 : mb.word1 = (packWords buf n).2) {i : ℕ}
    (inside : i < 8) : dataByte mb i = if i < n then buf i else 0 := by
  have lanes : ∀ n ≤ 8,
      (i < 4 → lane (3 - i) (packWords buf n).1 = if i < n then buf i else 0) ∧
        (4 ≤ i → lane (7 - i) (packWords buf n).2 = if i < n then buf i else 0) := by
    intro n short
    induction n with
    | zero => exact ⟨fun _ => lane_zero _, fun _ => lane_zero _⟩
    | succ n ih =>
        obtain ⟨lowLane, highLane⟩ := ih (Nat.le_of_succ_le short)
        rw [packWords_succ]
        constructor
        · intro low
          by_cases first : n < 4
          · have same : 3 - i = 3 - n ↔ i = n := by omega
            rw [if_pos first, lane_or_shift (by omega), lowLane low, ← packed_step]
            simp only [same]
          · rw [if_neg first, lowLane low, if_pos (by omega), if_pos (by omega)]
        · intro high
          by_cases first : n < 4
          · rw [if_pos first, highLane high, if_neg (by omega), if_neg (by omega)]
          · have same : 7 - i = 7 - n ↔ i = n := by omega
            rw [if_neg first, lane_or_shift (by omega), highLane high, ← packed_step]
            simp only [same]
  rcases Nat.lt_or_ge i 4 with low | high
  · rw [dataByte_low mb low, word0]
    exact (lanes n short).1 low
  · rw [dataByte_high mb high, word1]
    exact (lanes n short).2 high

/-! ## The control word -/

theorem setId_cs (id : BitVec 32) (mb : CanMb) :
    (setId id mb).cs &&& canCsDlcMask = mb.cs &&& canCsDlcMask := by
  unfold setId
  split_ifs
  · exact or_field (by decide)
  · exact and_field (by decide)

/-- The length field survives what is done after it to the control word. -/
theorem dlc_writeData (mb : CanMb) (id : BitVec 32) (buf : ℕ → BitVec 8) (len : BitVec 8) :
    (mb.writeData id buf len).cs &&& canCsDlcMask = canCsDlc len := by
  have within : canCsDlc len &&& canCsDlcMask = canCsDlc len := by
    rw [canCsDlc, BitVec.and_assoc, BitVec.and_self]
  simp only [CanMb.writeData]
  rw [or_field (by decide), and_field (by decide), setId_cs]
  simp only
  rw [and_field (by decide), put_field within]

theorem frameLen_canCsDlc (len : BitVec 8) (short : len.toNat ≤ 8) :
    (canCsDlc len >>> 16).setWidth 8 = len := by
  revert len
  decide +kernel

/-- **The length comes out as it went in.** -/
theorem len_writeData (mb : CanMb) (id : BitVec 32) (buf : ℕ → BitVec 8) (short : len.toNat ≤ 8)
    {cs : BitVec 32}
    (agree : cs &&& ~~~canCsCodeMask = (mb.writeData id buf len).cs &&& ~~~canCsCodeMask) :
    (canGetFrameLen cs).setWidth 8 = len := by
  have field := field_congr agree (by decide : ~~~canCsCodeMask &&& canCsDlcMask = canCsDlcMask)
  rw [canGetFrameLen, field, dlc_writeData, frameLen_canCsDlc len short]

/-! ## The identifier -/

theorem id_setId (id : BitVec 32) (mb : CanMb) :
    (setId id mb).id &&& (canIdExtMask ||| canIdStdMask) =
      if 0x7ff < id.toNat then id &&& (canIdExtMask ||| canIdStdMask)
      else id <<< 18 &&& canIdStdMask := by
  have both : canIdStdMask ||| canIdExtMask = canIdExtMask ||| canIdStdMask := by decide
  have within : canIdStdMask &&& (canIdExtMask ||| canIdStdMask) = canIdStdMask := by decide
  unfold setId
  have extended : id > 0x7ff ↔ 0x7ff < id.toNat := BitVec.lt_def
  simp only [extended]
  split_ifs
  · rw [both, BitVec.and_assoc, BitVec.and_self]
  · rw [canIdStd, BitVec.and_assoc, within]

/-- An identifier that has one of the two sizes comes out as it went in if it is an extended
one, and as 2¹⁸ times itself otherwise. -/
theorem id_eq_iff (small : id.toNat < 2 ^ 29) (mb : CanMb) :
    (setId id mb).id &&& (canIdExtMask ||| canIdStdMask) = id ↔ 0x7ff < id.toNat ∨ id = 0 := by
  rw [id_setId]
  split_ifs with extended
  · have whole : id &&& (canIdExtMask ||| canIdStdMask) = id := by
      have mask : canIdExtMask ||| canIdStdMask = BitVec.ofNat 32 (2 ^ 29 - 1) := by decide
      apply BitVec.eq_of_toNat_eq
      rw [mask, toNat_and_mask (by decide)]
      exact Nat.mod_eq_of_lt small
    exact iff_of_true whole (Or.inl extended)
  · have value : (id <<< 18 &&& canIdStdMask).toNat = id.toNat * 2 ^ 18 := by
      have mask : canIdStdMask =
          BitVec.ofNat 32 (2 ^ 29 - 1) &&& ~~~BitVec.ofNat 32 (2 ^ 18 - 1) := by decide
      rw [mask, ← BitVec.and_assoc, toNat_and_not_mask, toNat_and_mask (by decide),
        BitVec.toNat_shiftLeft, Nat.shiftLeft_eq]
      omega
    rw [or_iff_right extended]
    constructor
    · intro same
      have equal := congrArg BitVec.toNat same
      rw [value] at equal
      apply BitVec.eq_of_toNat_eq
      change id.toNat = 0
      omega
    · rintro rfl
      rfl

/-! ## The round trip -/

/-- A receiving mailbox a frame sent from another one arrives in: with a code that is even,
and an interrupt pending. -/
structure Arrives (sent : CanMb) (mb : ℕ) (c : Can) : Prop where
  cs : (c.mb mb).cs &&& ~~~canCsCodeMask = sent.cs &&& ~~~canCsCodeMask
  id : (c.mb mb).id = sent.id
  word0 : (c.mb mb).word0 = sent.word0
  word1 : (c.mb mb).word1 = sent.word1
  code : canGetMbCode (c.mb mb).cs &&& 1 = 0
  flag : c.iflag1 &&& mbFlag mb ≠ 0

/-- Modules all mailboxes of which hold the frame, in a full one. -/
def CanMb.received (sent : CanMb) : Can where
  mb _ := { sent with cs := sent.cs &&& ~~~canCsCodeMask ||| canCsCode kFlexCanRXFull }
  iflag1 := BitVec.allOnes 32

theorem arrives_received (sent : CanMb) {mb : ℕ} (inside : mb < 32) :
    Arrives sent mb sent.received where
  cs := by
    have apart : canCsCode kFlexCanRXFull &&& ~~~canCsCodeMask = 0 := by decide
    simp only [CanMb.received]
    rw [or_field apart, BitVec.and_assoc, BitVec.and_self]
  id := rfl
  word0 := rfl
  word1 := rfl
  code := by
    have full : canCsCode kFlexCanRXFull &&& canCsCodeMask = canCsCode kFlexCanRXFull := by decide
    simp only [CanMb.received, canGetMbCode]
    rw [put_field full]
    decide
  flag := by
    simp only [CanMb.received, mbFlag]
    interval_cases mb <;> decide

/-- What is read from such a mailbox, the identifier aside. -/
theorem canReadData_eq (mb : CanMb) (short : len.toNat ≤ 8) {rx : Can} {mb' : ℕ}
    (arrives : Arrives (mb.writeData id buf len) mb' rx) :
    (canReadData mb' rx).2 =
      (0, some ⟨(setId id mb).id &&& (canIdExtMask ||| canIdStdMask), len,
        (List.range len.toNat).map buf⟩) := by
  have isLen := len_writeData mb id buf short arrives.cs
  have isData : (List.range len.toNat).map (dataByte (rx.mb mb')) =
      (List.range len.toNat).map buf := by
    have words : (mb.writeData id buf len).word0 = (packWords buf len.toNat).1 ∧
        (mb.writeData id buf len).word1 = (packWords buf len.toNat).2 := by
      simp only [CanMb.writeData, setId]
      split_ifs
      · exact ⟨rfl, rfl⟩
      · exact ⟨rfl, rfl⟩
    apply List.map_congr_left
    intro i mem
    have inside := List.mem_range.mp mem
    rw [dataByte_packWords (rx.mb mb') short (arrives.word0.trans words.1)
      (arrives.word1.trans words.2) (by omega), if_pos inside]
  have isId : (rx.mb mb').id = (setId id mb).id := by
    rw [arrives.id]
    simp only [CanMb.writeData, setId]
    split_ifs
    · rfl
    · rfl
  unfold canReadData
  rw [if_neg (not_not_intro arrives.code), if_pos arrives.flag]
  simp only [isLen, isData, isId]

/-- **A frame comes out as it went in**, if and only if its identifier is not a standard one
or is zero. -/
theorem can_round_trip_iff (small : id.toNat < 2 ^ 29) (short : len.toNat ≤ 8) {c sent rx : Can}
    {mb mb' : ℕ} (written : canWriteData mb id buf len c = some sent)
    (arrives : Arrives (sent.mb mb) mb' rx) :
    (canReadData mb' rx).2 = (0, some ⟨id, len, (List.range len.toNat).map buf⟩) ↔
      0x7ff < id.toNat ∨ id = 0 := by
  have isSent : sent.mb mb = (c.mb mb).writeData id buf len := by
    unfold canWriteData at written
    split_ifs at written with idle
    rw [← Option.some.inj written]
    exact Function.update_self ..
  rw [isSent] at arrives
  rw [canReadData_eq (c.mb mb) short arrives, ← id_eq_iff small (c.mb mb)]
  simp only [Prod.mk.injEq, Option.some.injEq, CanFrame.mk.injEq, true_and, and_true]

/-- An idle transmitter. -/
def idleCan : Can := ⟨fun _ => ⟨0x8000000, 0, 0, 0⟩, 0⟩

/-- Three bytes with an extended identifier. -/
theorem can_round_trip_extended :
    let rx := ((idleCan.mb 1).writeData 0x10203 (fun _ => 0xa5) 3).received
    (canReadData 2 rx).2 = (0, some ⟨0x10203, 3, (List.range 3).map fun _ => 0xa5⟩) ↔
      0x7ff < (0x10203 : BitVec 32).toNat ∨ (0x10203 : BitVec 32) = 0 := by
  intro rx
  have arrives : Arrives ((idleCan.mb 1).writeData 0x10203 (fun _ => 0xa5) 3) 2 rx :=
    arrives_received _ (by decide)
  have written : canWriteData 1 0x10203 (fun _ => 0xa5) 3 idleCan =
    some ⟨Function.update idleCan.mb 1 ((idleCan.mb 1).writeData 0x10203 (fun _ => 0xa5) 3), 0⟩ :=
  rfl
  exact can_round_trip_iff (by decide) (by decide) written arrives

/-- With the standard identifier one, what is read is 2¹⁸. -/
theorem not_can_round_trip : ¬ ∀ (id : BitVec 32) (buf : ℕ → BitVec 8) (len : BitVec 8)
    (c sent rx : Can) (mb mb' : ℕ), id.toNat < 2 ^ 29 → len.toNat ≤ 8 →
    canWriteData mb id buf len c = some sent → Arrives (sent.mb mb) mb' rx →
    (canReadData mb' rx).2 = (0, some ⟨id, len, (List.range len.toNat).map buf⟩) := by
  intro all
  have arrives : Arrives ((idleCan.mb 1).writeData 1 (fun _ => 0) 0) 2
      ((idleCan.mb 1).writeData 1 (fun _ => 0) 0).received := arrives_received _ (by decide)
  have same := all 1 (fun _ => 0) 0 idleCan _ _ 1 2 (by decide) (by decide) rfl arrives
  have read : (canReadData 2 ((idleCan.mb 1).writeData 1 (fun _ => 0) 0).received).2 =
      (0, some ⟨0x40000, 0, []⟩) := by decide +kernel
  rw [read] at same
  exact absurd same (by decide)

end CannonCar
