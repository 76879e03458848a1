import CannonCar.Foundation.Trajectory

/-!
# Packets of the serial bootloader

The framing layer of `utilities/kboot/bl_core.c`: the packet buffers, the check sum and
`serial_packet_read`, which is given one byte in each call and keeps its place in the
packet in statics.

A packet is the start byte, its type, a length and a check sum of two bytes each, low
byte first, and the payload.  The buffers of the source are 2, 2 and 32 bytes long;
here they are functions of the index, and `stores` records which indices are written,
so that a store outside a buffer is something one can state.

## Modelling decisions

**Arrays without an end.**  A store outside a buffer changes the entry with that index here and
nothing else; in the source it hits what lies behind the array.  So the model agrees with the
code as long as `stores` is inside the sizes of `Field.size`, and `Framing` says when it is.

**Two slips are kept as they stand.**  The bound on the length is put through a pointer into the
write packet (`clampLength`), not into the one that is read.  And a foreign type sets the
state variable to the value of the start byte, which is no state (`packetByte`).

**One call, one byte.**  `packetRead` is the part of `serial_packet_read` behind its `read_byte`;
what it sends is returned as frames, so that the functions here need no log.
-/

namespace CannonCar.Kboot

/-! ## Constants -/

def kPacketMaxPayloadSize : ℕ := 32

def kFramingPacketStartByte : BitVec 8 := 0x5a

def kFramingPacketTypeAck : BitVec 8 := 0xa1

def kFramingPacketTypeNak : BitVec 8 := 0xa2

def kFramingPacketTypeAckAbort : BitVec 8 := 0xa3

def kFramingPacketTypeCommand : BitVec 8 := 0xa4

def kFramingPacketTypeData : BitVec 8 := 0xa5

def kFramingPacketTypePing : BitVec 8 := 0xa6

def kFramingPacketTypePingResponse : BitVec 8 := 0xa7

def kPacketStateStartByte : ℕ := 0

def kPacketStatePacketTye : ℕ := 1

def kPacketStateLength : ℕ := 2

def kPacketStateCRC : ℕ := 3

def kPacketStatePayload : ℕ := 4

/-- `status_t`. -/
inductive Status
  | success
  | fail
  | invalidArgument
  | busy
  | unknownProperty
  | flashAlignmentError
  | flashAccessError
  | flashProtectionViolation
  | flashCommandFailure
  | memoryRangeInvalid
  deriving DecidableEq

/-- The number a status is sent as. -/
def Status.code : Status → BitVec 32
  | .success => 0
  | .fail => 1
  | .invalidArgument => 4
  | .busy => 15
  | .unknownProperty => 10300
  | .flashAlignmentError => 101
  | .flashAccessError => 103
  | .flashProtectionViolation => 104
  | .flashCommandFailure => 105
  | .memoryRangeInvalid => 10200

/-- `command_state_t`. -/
inductive Phase
  | command
  | data
  deriving DecidableEq

/-- The packet type expected in a phase. -/
def Phase.packetType : Phase → BitVec 8
  | .command => kFramingPacketTypeCommand
  | .data => kFramingPacketTypeData

/-! ## Packet buffers -/

/-- The parts of `serial_packet_t` that are arrays. -/
inductive Field
  | lengthInBytes
  | crc16
  | payload
  deriving DecidableEq

/-- The number of bytes the array has. -/
def Field.size : Field → ℕ
  | .lengthInBytes => 2
  | .crc16 => 2
  | .payload => 32

/-- `serial_packet_t`, the payload byte by byte. -/
structure SerialPacket where
  startByte : BitVec 8
  packetType : BitVec 8
  lengthInBytes : ℕ → BitVec 8
  crc16 : ℕ → BitVec 8
  payload : ℕ → BitVec 8

/-- `*(uint16_t*)b`. -/
def half (b : ℕ → BitVec 8) : BitVec 16 := b 1 ++ b 0

/-- `*(uint32_t*)(b + at)`. -/
def word (b : ℕ → BitVec 8) (offset : ℕ) : BitVec 32 :=
  b (offset + 3) ++ b (offset + 2) ++ b (offset + 1) ++ b offset

/-- The bytes of a `uint16_t`. -/
def halfBytes (h : BitVec 16) : List (BitVec 8) := [h.extractLsb' 0 8, h.extractLsb' 8 8]

/-- A `uint16_t` stored in two bytes. -/
def putHalf (b : ℕ → BitVec 8) (h : BitVec 16) : ℕ → BitVec 8 :=
  Function.update (Function.update b 0 (h.extractLsb' 0 8)) 1 (h.extractLsb' 8 8)

/-- What is stored is read back. -/
theorem half_putHalf (b : ℕ → BitVec 8) (h : BitVec 16) : half (putHalf b h) = h := by
  have split : h.extractLsb' 8 8 ++ h.extractLsb' 0 8 = h := by
    apply BitVec.eq_of_getLsbD_eq
    intro i inside
    simp only [BitVec.getLsbD_append, BitVec.getLsbD_extractLsb']
    split_ifs <;> grind
  rw [half, putHalf, Function.update_self, Function.update_of_ne (by decide), Function.update_self,
    split]

/-- The bytes of a `uint32_t`. -/
def wordBytes (w : BitVec 32) : List (BitVec 8) :=
  [w.extractLsb' 0 8, w.extractLsb' 8 8, w.extractLsb' 16 8, w.extractLsb' 24 8]

namespace SerialPacket

/-- A buffer in the `.bss` section. -/
def zero : SerialPacket := ⟨0, 0, fun _ => 0, fun _ => 0, fun _ => 0⟩

/-- `lengthInBytes` as a number. -/
def length (p : SerialPacket) : ℕ := (half p.lengthInBytes).toNat

/-- The first `n` bytes of the payload. -/
def data (p : SerialPacket) (n : ℕ) : List (BitVec 8) := (List.range n).map p.payload

/-- The four bytes the check sum starts with. -/
def header (p : SerialPacket) : List (BitVec 8) :=
  [p.startByte, p.packetType, p.lengthInBytes 0, p.lengthInBytes 1]

/-- The payload with its first bytes replaced. -/
def put (bytes : List (BitVec 8)) (p : SerialPacket) : SerialPacket :=
  { p with payload := fun i => bytes.getD i (p.payload i) }

end SerialPacket

/-! ## The check sum -/

/-- The inner loop of `crc16_update`, `n` times. -/
def crcShift : ℕ → BitVec 32 → BitVec 32
  | 0, crc => crc
  | n + 1, crc =>
      let temp := crc <<< 1
      crcShift n (if crc &&& 0x8000#32 ≠ 0#32 then temp ^^^ 0x1021#32 else temp)

/-- The outer loop of `crc16_update`, for one byte. -/
def crcByte (crc : BitVec 32) (byte : BitVec 8) : BitVec 32 :=
  crcShift 8 (crc ^^^ byte.setWidth 32 <<< 8)

/-- `crc16_update`: the sum is kept in 32 bits and cut to 16 at the end. -/
def crc16Update (currectCrc : BitVec 16) (src : List (BitVec 8)) : BitVec 16 :=
  (src.foldl crcByte (currectCrc.setWidth 32)).setWidth 16

/-- `calculate_crc`. -/
def calculateCrc (p : SerialPacket) : BitVec 16 :=
  crc16Update (crc16Update 0 p.header) (p.data p.length)

/-- A packet as it goes over the line. -/
def encodePacket (packetType : BitVec 8) (payload : List (BitVec 8)) : List (BitVec 8) :=
  let header := [kFramingPacketStartByte, packetType] ++ halfBytes (BitVec.ofNat 16 payload.length)
  header ++ halfBytes (crc16Update (crc16Update 0 header) payload) ++ payload

/-! ## The parser -/

/-- The frames of fixed content, and a packet. -/
inductive Frame
  | ack
  | nak
  | ackAbort
  | ping
  | packet (bytes : List (BitVec 8))
  deriving DecidableEq

/-- `s_packet_ack` and its likes. -/
def Frame.bytes : Frame → List (BitVec 8)
  | .ack => [kFramingPacketStartByte, kFramingPacketTypeAck]
  | .nak => [kFramingPacketStartByte, kFramingPacketTypeNak]
  | .ackAbort => [kFramingPacketStartByte, kFramingPacketTypeAckAbort]
  | .ping =>
      [kFramingPacketStartByte, kFramingPacketTypePingResponse, 0, 2, 1, 0x50, 0, 0, 0xaa, 0xea]
  | .packet bytes => bytes

/-- The statics the parser works on: `s_packetState`, `s_stateCnt` and the two buffers.
`stores` are the stores to the arrays of `s_readPacket`, the last one first. -/
structure Parser where
  packetState : ℕ
  stateCnt : ℕ
  readPacket : SerialPacket
  writePacket : SerialPacket
  stores : List (Field × ℕ)

namespace Parser

/-- The statics after start-up. -/
def init : Parser := ⟨kPacketStateStartByte, 0, .zero, .zero, []⟩

/-- `array[s_stateCnt++] = tmp`. -/
def store (field : Field) (tmp : BitVec 8) (s : Parser) : Parser :=
  let p := s.readPacket
  let i := s.stateCnt
  { s with
    readPacket := match field with
      | .lengthInBytes => { p with lengthInBytes := Function.update p.lengthInBytes i tmp }
      | .crc16 => { p with crc16 := Function.update p.crc16 i tmp }
      | .payload => { p with payload := Function.update p.payload i tmp }
    stateCnt := i + 1
    stores := (field, i) :: s.stores }

/-- The bound on `*packetLength`, which points into `s_writePacket`. -/
def clampLength (s : Parser) : Parser :=
  if s.writePacket.length > kPacketMaxPayloadSize then
    let bytes := Function.update (Function.update s.writePacket.lengthInBytes 0 32) 1 0
    { s with writePacket := { s.writePacket with lengthInBytes := bytes } }
  else s

/-- `switch(s_packetState)` of `serial_packet_read`: the new statics, what is sent, and
`isPacketComplete`. -/
def packetByte (packetType tmp : BitVec 8) (s : Parser) : Parser × List Frame × Bool :=
  if s.packetState = kPacketStateStartByte then
    if tmp = kFramingPacketStartByte then
      ({ s with readPacket := { s.readPacket with startByte := kFramingPacketStartByte },
                packetState := kPacketStatePacketTye }, [], false)
    else (s, [], false)
  else if s.packetState = kPacketStatePacketTye then
    if tmp = kFramingPacketTypePing then
      ({ s with packetState := kPacketStateStartByte }, [.ping], false)
    else if tmp = packetType then
      ({ s with readPacket := { s.readPacket with packetType := packetType },
                packetState := kPacketStateLength, stateCnt := 0 }, [], false)
    -- the value of the start byte, not of the state
    else ({ s with packetState := kFramingPacketStartByte.toNat }, [], false)
  else if s.packetState = kPacketStateLength then
    let s := s.store .lengthInBytes tmp
    if s.stateCnt ≥ 2 then
      (clampLength { s with packetState := kPacketStateCRC, stateCnt := 0 }, [], false)
    else (s, [], false)
  else if s.packetState = kPacketStateCRC then
    let s := s.store .crc16 tmp
    if s.stateCnt ≥ 2 then
      ({ s with packetState := kPacketStatePayload, stateCnt := 0 }, [], false)
    else (s, [], false)
  else if s.packetState = kPacketStatePayload then
    let s := s.store .payload tmp
    if s.stateCnt ≥ s.readPacket.length then
      ({ s with packetState := kPacketStateStartByte }, [], true)
    else (s, [], false)
  else (s, [], false)

/-- What `serial_packet_read` returns: a complete packet is judged by its check sum. -/
def verdict (packetType tmp : BitVec 8) (s : Parser) : Status :=
  let r := s.packetByte packetType tmp
  if r.2.2 then
    if calculateCrc r.1.readPacket = half r.1.readPacket.crc16 then .success else .fail
  else .busy

/-! ### One equation for each state -/

section States

variable {s : Parser} {packetType tmp : BitVec 8}

theorem packetByte_startByte (here : s.packetState = kPacketStateStartByte) :
    s.packetByte packetType tmp =
      if tmp = kFramingPacketStartByte then
        ({ s with readPacket := { s.readPacket with startByte := kFramingPacketStartByte },
                  packetState := kPacketStatePacketTye }, [], false)
      else (s, [], false) := by
  rw [packetByte, if_pos here]

theorem packetByte_packetTye (here : s.packetState = kPacketStatePacketTye) :
    s.packetByte packetType tmp =
      if tmp = kFramingPacketTypePing then
        ({ s with packetState := kPacketStateStartByte }, [.ping], false)
      else if tmp = packetType then
        ({ s with readPacket := { s.readPacket with packetType := packetType },
                  packetState := kPacketStateLength, stateCnt := 0 }, [], false)
      else ({ s with packetState := kFramingPacketStartByte.toNat }, [], false) := by
  rw [packetByte, here, if_neg (by decide), if_pos rfl]

theorem packetByte_length (here : s.packetState = kPacketStateLength) :
    s.packetByte packetType tmp =
      if s.stateCnt + 1 ≥ 2 then
        (clampLength { s.store .lengthInBytes tmp with
          packetState := kPacketStateCRC, stateCnt := 0 }, [], false)
      else (s.store .lengthInBytes tmp, [], false) := by
  rw [packetByte, here, if_neg (by decide), if_neg (by decide), if_pos rfl]
  rfl

theorem packetByte_crc (here : s.packetState = kPacketStateCRC) :
    s.packetByte packetType tmp =
      if s.stateCnt + 1 ≥ 2 then
        ({ s.store .crc16 tmp with packetState := kPacketStatePayload, stateCnt := 0 }, [], false)
      else (s.store .crc16 tmp, [], false) := by
  rw [packetByte, here, if_neg (by decide), if_neg (by decide), if_neg (by decide), if_pos rfl]
  rfl

theorem packetByte_payload (here : s.packetState = kPacketStatePayload) :
    s.packetByte packetType tmp =
      if s.stateCnt + 1 ≥ s.readPacket.length then
        ({ s.store .payload tmp with packetState := kPacketStateStartByte }, [], true)
      else (s.store .payload tmp, [], false) := by
  rw [packetByte, here, if_neg (by decide), if_neg (by decide), if_neg (by decide),
    if_neg (by decide), if_pos rfl]
  rfl

/-- In any other state the byte is dropped. -/
theorem packetByte_other (lost : kPacketStatePayload < s.packetState) :
    s.packetByte packetType tmp = (s, [], false) := by
  have far : ∀ state ≤ kPacketStatePayload, s.packetState ≠ state :=
    fun state le same => absurd lost (by rw [same]; exact not_lt_of_ge le)
  rw [packetByte, if_neg (far _ (by decide)), if_neg (far _ (by decide)),
    if_neg (far _ (by decide)), if_neg (far _ (by decide)), if_neg (far _ (by decide))]

end States

/-- The five states the switch knows, and the rest. -/
theorem packetState_cases (s : Parser) :
    s.packetState = kPacketStateStartByte ∨ s.packetState = kPacketStatePacketTye ∨
      s.packetState = kPacketStateLength ∨ s.packetState = kPacketStateCRC ∨
      s.packetState = kPacketStatePayload ∨ kPacketStatePayload < s.packetState := by
  unfold kPacketStateStartByte kPacketStatePacketTye kPacketStateLength kPacketStateCRC
    kPacketStatePayload
  omega

/-- The switch sends nothing but the answer to a ping, which is no packet. -/
theorem packetByte_frames (s : Parser) (packetType tmp : BitVec 8) :
    (s.packetByte packetType tmp).2.1 = [] ∨
      (s.packetByte packetType tmp).2.1 = [.ping] ∧ (s.packetByte packetType tmp).2.2 = false := by
  rcases s.packetState_cases with here | here | here | here | here | lost
  · rw [packetByte_startByte here]
    split_ifs <;> exact Or.inl rfl
  · rw [packetByte_packetTye here]
    split_ifs
    · exact Or.inr ⟨rfl, rfl⟩
    · exact Or.inl rfl
    · exact Or.inl rfl
  · rw [packetByte_length here]
    split_ifs <;> exact Or.inl rfl
  · rw [packetByte_crc here]
    split_ifs <;> exact Or.inl rfl
  · rw [packetByte_payload here]
    split_ifs <;> exact Or.inl rfl
  · rw [packetByte_other lost]
    exact Or.inl rfl

section Clamp

variable (s : Parser)

@[simp] theorem clampLength_packetState : s.clampLength.packetState = s.packetState := by
  unfold clampLength
  split_ifs <;> rfl

@[simp] theorem clampLength_stateCnt : s.clampLength.stateCnt = s.stateCnt := by
  unfold clampLength
  split_ifs <;> rfl

/-- The bound is not put on the packet being read. -/
@[simp] theorem clampLength_readPacket : s.clampLength.readPacket = s.readPacket := by
  unfold clampLength
  split_ifs <;> rfl

@[simp] theorem clampLength_stores : s.clampLength.stores = s.stores := by
  unfold clampLength
  split_ifs <;> rfl

end Clamp

end Parser

/-- The statics of the framing layer with the flags of `s_serialContext`. -/
structure Serial where
  parser : Parser
  isAckNeeded : Bool
  isAckAbortNeeded : Bool

namespace Serial

/-- The statics after start-up. -/
def init : Serial := ⟨.init, false, false⟩

/-- The acknowledgement due, sent at the head of `serial_packet_read` and of
`serial_packet_write`. -/
def flushAck (s : Serial) : Serial × List Frame :=
  if s.isAckNeeded then ({ s with isAckNeeded := false }, [.ack]) else (s, [])

/-- `serial_packet_read` from `read_byte` on, which has returned `tmp`. -/
def packetRead (packetType tmp : BitVec 8) (s : Serial) : Serial × List Frame × Status :=
  let r := s.parser.packetByte packetType tmp
  let s := { s with parser := r.1 }
  if r.2.2 then
    if calculateCrc r.1.readPacket = half r.1.readPacket.crc16 then
      ({ s with isAckNeeded := true }, r.2.1, .success)
    else (s, r.2.1 ++ [.nak], .fail)
  else (s, r.2.1, .busy)

/-- `serial_packet_read`, given the byte `read_byte` returns: the new statics, the
frames sent and the status returned. -/
def serialPacketRead (packetType tmp : BitVec 8) (s : Serial) : Serial × List Frame × Status :=
  let f := s.flushAck
  let r := f.1.packetRead packetType tmp
  (r.1, f.2 ++ r.2.1, r.2.2)

section Calls

variable (s : Serial) (packetType tmp : BitVec 8)

@[simp] theorem parser_flushAck : s.flushAck.1.parser = s.parser := by
  unfold flushAck
  split_ifs <;> rfl

/-- The parser goes its own way, whatever the flags. -/
@[simp] theorem parser_serialPacketRead :
    (s.serialPacketRead packetType tmp).1.parser = (s.parser.packetByte packetType tmp).1 := by
  simp only [serialPacketRead, packetRead, parser_flushAck]
  split_ifs <;> rfl

theorem serialPacketRead_status :
    (s.serialPacketRead packetType tmp).2.2 = s.parser.verdict packetType tmp := by
  simp only [serialPacketRead, packetRead, parser_flushAck, Parser.verdict]
  split_ifs <;> rfl

/-- A byte that completes an acceptable packet makes an acknowledgement due. -/
theorem packetRead_of_success (success : s.parser.verdict packetType tmp = .success) :
    s.packetRead packetType tmp =
      (⟨(s.parser.packetByte packetType tmp).1, true, s.isAckAbortNeeded⟩, [], .success) := by
  simp only [Parser.verdict] at success
  split_ifs at success with complete agrees
  rcases s.parser.packetByte_frames packetType tmp with none | ⟨-, incomplete⟩
  · simp only [packetRead, if_pos complete, if_pos agrees, none]
  · exact absurd complete (by rw [incomplete]; decide)

/-- A byte that completes a corrupted packet is answered at once. -/
theorem packetRead_of_fail (fail : s.parser.verdict packetType tmp = .fail) :
    s.packetRead packetType tmp =
      ({ s with parser := (s.parser.packetByte packetType tmp).1 }, [.nak], .fail) := by
  simp only [Parser.verdict] at fail
  split_ifs at fail with complete agrees
  rcases s.parser.packetByte_frames packetType tmp with none | ⟨-, incomplete⟩
  · simp only [packetRead, if_pos complete, if_neg agrees, none, List.nil_append]
  · exact absurd complete (by rw [incomplete]; decide)

/-- Any other byte makes nothing due; a ping is answered. -/
theorem packetRead_of_busy (busy : s.parser.verdict packetType tmp = .busy) :
    ∃ frames, (frames = [] ∨ frames = [Frame.ping]) ∧
      s.packetRead packetType tmp =
        ({ s with parser := (s.parser.packetByte packetType tmp).1 }, frames, .busy) := by
  simp only [Parser.verdict] at busy
  refine ⟨(s.parser.packetByte packetType tmp).2.1, ?_, ?_⟩
  · exact (s.parser.packetByte_frames packetType tmp).imp id And.left
  · split_ifs at busy with complete
    simp only [packetRead, if_neg complete]

/-- A call ends in one of three ways. -/
theorem verdict_cases (p : Parser) :
    p.verdict packetType tmp = .success ∨ p.verdict packetType tmp = .fail ∨
      p.verdict packetType tmp = .busy := by
  simp only [Parser.verdict]
  split_ifs
  · exact Or.inl rfl
  · exact Or.inr (Or.inl rfl)
  · exact Or.inr (Or.inr rfl)

end Calls

end Serial

end CannonCar.Kboot
