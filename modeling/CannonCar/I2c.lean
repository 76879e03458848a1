import Mathlib.Data.BitVec
import Mathlib.Data.List.Count
import Mathlib.Tactic.Common

/-!
# The software I2C bus

`I2C_BurstWrite` and `I2C_BurstRead` of `i2c.c`, down to the single clocks of the bus.  A
slave is the levels it puts on the data line, one for each time the master reads it.

Both functions count the bytes that were not acknowledged, and return the count
(`burstWrite_err`, `burstRead_err`).  The counter has eight bits: that is enough for the
address bytes of a read, and for a write it is not (`burst_truthful_iff`).

## What is load-bearing

**The slave is what it puts on the line.**  `slave n` is the level the master finds when it
reads the data line for the `n`th time, be it a data bit or an acknowledgement.  No assumption
is made on it: it may acknowledge or not as it likes, and as if it knew what was sent.

**The bus is a log**, so that the traffic of a call can be compared with what the protocol asks
for, byte by byte (`frames`, `burstWrite_eq`).

**The status is the counter.**  `burst_truthful_iff` is about the eight bits of it: with 255 data
bytes and the address of the chip, 256 missing acknowledgements come out as success.
-/

namespace CannonCar.I2c

/-! ## The source -/

/-- What happens on the bus. -/
inductive Event
  | start
  | stop
  /-- A clock in which the master drives the data line. -/
  | bit (high : Bool)
  /-- The clock in which the slave acknowledges, with the line low. -/
  | answer (high : Bool)
  /-- A clock in which the master reads a data bit. -/
  | read (high : Bool)
  | ack
  | nAck
  deriving DecidableEq

/-- The bus: what has happened on it, and how often the master has read the data line. -/
structure Bus where
  log : List Event
  samples : ℕ

/-- One more event. -/
def Bus.emit (b : Bus) (e : Event) : Bus := { b with log := b.log ++ [e] }

variable (slave : ℕ → Bool)

/-- `I2C_WaitAck`. -/
def waitAck (b : Bus) : Bus × Bool :=
  let ack := slave b.samples
  ({ log := b.log ++ [.answer ack], samples := b.samples + 1 }, ack)

/-- The `while` loop of `I2C_SendByte`. -/
def sendBits : ℕ → BitVec 8 → Bus → Bus
  | 0, _, b => b
  | i + 1, data, b => sendBits i (data <<< 1) (b.emit (.bit (data &&& 0x80 ≠ 0)))

/-- `I2C_SendByte`. -/
def sendByte (data : BitVec 8) (b : Bus) : Bus := sendBits 8 data b

/-- The `while` loop of `I2C_GetByte`. -/
def getBits : ℕ → BitVec 8 → Bus → Bus × BitVec 8
  | 0, byte, b => (b, byte)
  | i + 1, byte, b =>
      let high := slave b.samples
      getBits i (byte <<< 1 ||| if high then 1 else 0)
        { log := b.log ++ [.read high], samples := b.samples + 1 }

/-- `I2C_GetByte`. -/
def getByte (b : Bus) : Bus × BitVec 8 := getBits slave 8 0 b

/-- `err += I2C_WaitAck()`. -/
def addAck (err : BitVec 8) (b : Bus) : Bus × BitVec 8 :=
  let r := waitAck slave b
  (r.1, err + if r.2 then 1 else 0)

/-- The `while` loops that send: `len` bytes from `src` on. -/
def sendLoop (src : ℕ → BitVec 8) : ℕ → ℕ → BitVec 8 → Bus → Bus × BitVec 8
  | 0, _, err, b => (b, err)
  | len + 1, i, err, b =>
      let r := addAck slave err (sendByte (src i) b)
      sendLoop src len (i + 1) r.2 r.1

/-- The `while` loop of `I2C_BurstRead` that receives. -/
def receiveLoop : ℕ → List (BitVec 8) → Bus → Bus × List (BitVec 8)
  | 0, buf, b => (b, buf)
  | len + 1, buf, b =>
      let r := getByte slave b
      -- the last byte is not acknowledged here
      receiveLoop len (buf ++ [r.2]) (if len ≠ 0 then r.1.emit .ack else r.1)

/-- The bytes of a word in memory, through `(uint8_t*)&addr`. -/
def addressByte (addr : BitVec 32) (i : ℕ) : BitVec 8 := addr.extractLsb' (8 * i) 8

/-- `I2C_BurstWrite`. -/
def burstWrite (chipAddr : BitVec 8) (addr addrLen : BitVec 32) (buf : ℕ → BitVec 8)
    (len : BitVec 32) (b : Bus) : Bus × ℤ :=
  let chipAddr := chipAddr <<< 1
  let r := addAck slave 0 (sendByte chipAddr (b.emit .start))
  let r := sendLoop slave (addressByte addr) addrLen.toNat 0 r.2 r.1
  let r := sendLoop slave buf len.toNat 0 r.2 r.1
  (r.1.emit .stop, r.2.toNat)

/-- `I2C_BurstRead`, with the bytes it stores. -/
def burstRead (chipAddr : BitVec 8) (addr addrLen len : BitVec 32) (b : Bus) :
    Bus × ℤ × List (BitVec 8) :=
  let chipAddr := chipAddr <<< 1
  let r := addAck slave 0 (sendByte chipAddr (b.emit .start))
  let r := sendLoop slave (addressByte addr) addrLen.toNat 0 r.2 r.1
  let r := addAck slave r.2 (sendByte (chipAddr + 1) (r.1.emit .start))
  let data := receiveLoop slave len.toNat [] r.1
  ((data.1.emit .nAck).emit .stop, r.2.toNat, data.2)

/-! ## Bytes on the bus -/

/-- A byte sent, and what the slave says to it. -/
def frame (data : BitVec 8) (answer : Bool) : List Event :=
  (List.range 8).map (fun i => .bit (data.getMsbD i)) ++ [.answer answer]

/-- Bytes sent one after the other, the slave read from its sample number `s` on. -/
def frames (src : ℕ → BitVec 8) (s len : ℕ) : List Event :=
  ((List.range len).map fun k => frame (src k) (slave (s + k))).flatten

/-- How many of `len` bytes are not acknowledged. -/
def nacks (s len : ℕ) : ℕ := (List.range len).countP fun k => slave (s + k)

theorem bit_eq (data : BitVec 8) {i : ℕ} (inside : i < 8) :
    decide ((data <<< i) &&& 0x80 ≠ 0) = data.getMsbD i := by
  have mask : (0x80 : BitVec 8) = BitVec.twoPow 8 7 := rfl
  have place : 8 - 1 - i = 7 - i := rfl
  rw [mask, BitVec.and_twoPow, BitVec.getLsbD_shiftLeft, BitVec.getMsbD_eq_getLsbD, place]
  have clock : decide (7 < i) = false := decide_eq_false (by omega)
  simp only [inside, decide_true, Bool.true_and]
  cases data.getLsbD (7 - i) with
  | false => simp
  | true =>
      simp
      omega

/-- A byte goes out with its highest bit first. -/
theorem sendByte_eq (data : BitVec 8) (b : Bus) :
    sendByte data b =
      { b with log := b.log ++ (List.range 8).map fun i => .bit (data.getMsbD i) } := by
  have loop : ∀ (n : ℕ) (data : BitVec 8) (b : Bus), sendBits n data b =
      { b with log := b.log ++ (List.range n).map fun i => .bit ((data <<< i) &&& 0x80 ≠ 0) } := by
    intro n
    induction n with
    | zero => exact fun _ b => congrArg (Bus.mk · b.samples) (List.append_nil b.log).symm
    | succ n ih =>
        intro data b
        have shift : ∀ i, data <<< 1 <<< i = data <<< (i + 1) := fun i => by
          rw [← BitVec.shiftLeft_add, Nat.add_comm]
        rw [sendBits, ih, List.range_succ_eq_map, List.map_cons, List.map_map, Bus.emit]
        simp only [shift, BitVec.shiftLeft_zero, List.append_assoc, List.singleton_append]
        rfl
  rw [sendByte, loop]
  congr 2
  apply List.map_congr_left
  intro i mem
  rw [bit_eq data (List.mem_range.mp mem)]

theorem addAck_eq (data err : BitVec 8) (b : Bus) :
    addAck slave err (sendByte data b) =
      (⟨b.log ++ frame data (slave b.samples), b.samples + 1⟩,
        err + if slave b.samples then 1 else 0) := by
  rw [sendByte_eq]
  simp only [addAck, waitAck, frame, List.append_assoc]

/-! ## Counting -/

theorem nacks_zero (s : ℕ) : nacks slave s 0 = 0 := rfl

theorem nacks_le (s len : ℕ) : nacks slave s len ≤ len := by
  have le := List.countP_le_length (p := fun k => slave (s + k)) (l := List.range len)
  rwa [List.length_range] at le

theorem nacks_add (s m n : ℕ) :
    nacks slave s (m + n) = nacks slave s m + nacks slave (s + m) n := by
  simp only [nacks, List.range_add, List.countP_append, List.countP_map, Nat.add_assoc]
  rfl

theorem nacks_one (s : ℕ) : nacks slave s 1 = if slave s then 1 else 0 := by
  cases high : slave s <;> simp [nacks, high]

theorem nacks_eq_zero_iff (s len : ℕ) :
    nacks slave s len = 0 ↔ ∀ k < len, slave (s + k) = false := by
  simp only [nacks, List.countP_eq_zero, List.mem_range, Bool.not_eq_true]

theorem frames_succ (src : ℕ → BitVec 8) (s len : ℕ) :
    frames slave src s (len + 1) =
      frame (src 0) (slave s) ++ frames slave (fun k => src (k + 1)) (s + 1) len := by
  rw [frames, List.range_succ_eq_map, List.map_cons, List.map_map, List.flatten_cons, Nat.add_zero,
    frames]
  congr 2
  apply List.map_congr_left
  intro k _
  rw [Function.comp_apply, Nat.succ_eq_add_one, Nat.add_assoc, Nat.add_comm 1]

theorem ofNat_nacks_one (s : ℕ) :
    BitVec.ofNat 8 (nacks slave s 1) = if slave s then 1 else 0 := by
  rw [nacks_one]
  split_ifs <;> rfl

/-- **A loop that sends** puts its bytes on the bus and counts those not acknowledged. -/
theorem sendLoop_eq (src : ℕ → BitVec 8) (len i : ℕ) (err : BitVec 8) (b : Bus) :
    sendLoop slave src len i err b =
      (⟨b.log ++ frames slave (fun k => src (i + k)) b.samples len, b.samples + len⟩,
        err + BitVec.ofNat 8 (nacks slave b.samples len)) := by
  induction len generalizing i err b with
  | zero =>
      rw [sendLoop, nacks_zero]
      simp only [frames, List.range_zero, List.map_nil, List.flatten_nil, List.append_nil,
        Nat.add_zero]
      rw [BitVec.add_zero]
  | succ len ih =>
      have shift : (fun k => src (i + 1 + k)) = fun k => src (i + (k + 1)) := by
        funext k
        rw [Nat.add_assoc, Nat.add_comm 1]
      rw [sendLoop, addAck_eq]
      simp only
      rw [ih, shift, frames_succ, Nat.add_comm len 1, nacks_add, BitVec.ofNat_add, ofNat_nacks_one,
        List.append_assoc, Nat.add_assoc, BitVec.add_assoc]
      rfl

/-! ## What the functions return -/

variable (chipAddr : BitVec 8) (addr addrLen len : BitVec 32) (buf : ℕ → BitVec 8) (b : Bus)

/-- The bytes of a transfer between its start and the data: the chip and the address. -/
theorem head_eq (log : List Event) :
    sendLoop slave (addressByte addr) addrLen.toNat 0
        (addAck slave 0 (sendByte (chipAddr <<< 1) ⟨log, b.samples⟩)).2
        (addAck slave 0 (sendByte (chipAddr <<< 1) ⟨log, b.samples⟩)).1 =
      (⟨log ++ frame (chipAddr <<< 1) (slave b.samples) ++
          frames slave (addressByte addr) (b.samples + 1) addrLen.toNat,
          b.samples + (1 + addrLen.toNat)⟩,
        BitVec.ofNat 8 (nacks slave b.samples (1 + addrLen.toNat))) := by
  rw [addAck_eq, sendLoop_eq, nacks_add, BitVec.ofNat_add, ofNat_nacks_one, Nat.add_assoc]
  simp only [Nat.zero_add]
  rw [zero_add]

/-- **The traffic of a write**, and the status: the number of bytes not acknowledged, in
eight bits. -/
theorem burstWrite_eq :
    burstWrite slave chipAddr addr addrLen buf len b =
      (⟨b.log ++ [.start] ++ frame (chipAddr <<< 1) (slave b.samples) ++
          frames slave (addressByte addr) (b.samples + 1) addrLen.toNat ++
          frames slave buf (b.samples + (1 + addrLen.toNat)) len.toNat ++ [.stop],
          b.samples + (1 + addrLen.toNat + len.toNat)⟩,
        ((nacks slave b.samples (1 + addrLen.toNat + len.toNat) % 256 : ℕ) : ℤ)) := by
  have sum : BitVec.ofNat 8 (nacks slave b.samples (1 + addrLen.toNat)) +
      BitVec.ofNat 8 (nacks slave (b.samples + (1 + addrLen.toNat)) len.toNat) =
        BitVec.ofNat 8 (nacks slave b.samples (1 + addrLen.toNat + len.toNat)) := by
    rw [nacks_add slave b.samples (1 + addrLen.toNat), BitVec.ofNat_add]
  simp only [burstWrite, Bus.emit]
  rw [head_eq]
  simp only
  rw [sendLoop_eq]
  simp only [Nat.zero_add]
  rw [sum, Nat.add_assoc b.samples, BitVec.toNat_ofNat]

/-- The status of a read, whose data bytes the master acknowledges. -/
theorem burstRead_err :
    (burstRead slave chipAddr addr addrLen len b).2.1 =
      ((nacks slave b.samples (2 + addrLen.toNat) % 256 : ℕ) : ℤ) := by
  have sum : BitVec.ofNat 8 (nacks slave b.samples (1 + addrLen.toNat)) +
      (if slave (b.samples + (1 + addrLen.toNat)) then 1 else 0) =
        BitVec.ofNat 8 (nacks slave b.samples (2 + addrLen.toNat)) := by
    have last : 2 + addrLen.toNat = 1 + addrLen.toNat + 1 := by omega
    rw [last, nacks_add slave b.samples (1 + addrLen.toNat), BitVec.ofNat_add, ofNat_nacks_one]
  simp only [burstRead, Bus.emit]
  rw [head_eq]
  simp only
  rw [addAck_eq]
  simp only
  rw [sum, BitVec.toNat_ofNat]

/-- `I2C_BurstWrite` returns zero if and only if all its bytes are acknowledged. -/
def WriteTruthful : Prop :=
  (burstWrite slave chipAddr addr addrLen buf len b).2 = 0 ↔
    ∀ k < 1 + addrLen.toNat + len.toNat, slave (b.samples + k) = false

/-- `I2C_BurstRead` returns zero if and only if all its address bytes are acknowledged. -/
def ReadTruthful : Prop :=
  (burstRead slave chipAddr addr addrLen len b).2.1 = 0 ↔
    ∀ k < 2 + addrLen.toNat, slave (b.samples + k) = false

/-- **The status is truthful** for every read, and for the writes of which the number of
bytes that are not acknowledged is no multiple of 256 but zero. -/
theorem burst_truthful_iff (short : addrLen.toNat ≤ 4) :
    WriteTruthful slave chipAddr addr addrLen len buf b ∧
        ReadTruthful slave chipAddr addr addrLen len b ↔
      ¬ (0 < nacks slave b.samples (1 + addrLen.toNat + len.toNat) ∧
        256 ∣ nacks slave b.samples (1 + addrLen.toNat + len.toNat)) := by
  have few := nacks_le slave b.samples (2 + addrLen.toNat)
  rw [WriteTruthful, ReadTruthful, burstWrite_eq, burstRead_err, ← nacks_eq_zero_iff,
    ← nacks_eq_zero_iff]
  simp only
  omega

/-- A register of a chip that acknowledges everything. -/
theorem burst_truthful_register :
    WriteTruthful (fun _ => false) 0x1e 0x0d 1 1 (fun _ => 0) ⟨[], 0⟩ ∧
        ReadTruthful (fun _ => false) 0x1e 0x0d 1 1 ⟨[], 0⟩ ↔
      ¬ (0 < nacks (fun _ => false) 0 3 ∧ 256 ∣ nacks (fun _ => false) 0 3) :=
  burst_truthful_iff (fun _ => false) 0x1e 0x0d 1 1 (fun _ => 0) ⟨[], 0⟩ (by decide)

/-- A chip that is not there, and 256 bytes to it. -/
theorem not_burst_truthful : ¬ ∀ (slave : ℕ → Bool) (chipAddr : BitVec 8)
    (addr addrLen len : BitVec 32) (buf : ℕ → BitVec 8) (b : Bus), addrLen.toNat ≤ 4 →
    WriteTruthful slave chipAddr addr addrLen len buf b ∧
      ReadTruthful slave chipAddr addr addrLen len b := by
  intro all
  obtain ⟨write, -⟩ := all (fun _ => true) 0x1e 0 0 255 (fun _ => 0) ⟨[], 0⟩ (by decide)
  have zero : (burstWrite (fun _ => true) 0x1e 0 0 (fun _ => 0) 255 ⟨[], 0⟩).2 = 0 := by
    rw [burstWrite_eq]
    decide +kernel
  exact absurd (write.mp zero 0 (by decide)) nofun

end CannonCar.I2c
