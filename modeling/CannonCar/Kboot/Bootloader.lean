import CannonCar.Kboot.FlashCommand
import CannonCar.Kboot.Stream

/-!
# The bootloader

`bootloader_run` of `utilities/kboot/bl_core.c` as a machine that takes one byte from the
host in each step.

The source blocks in three places, in `serial_packet_read` and twice in
`serial_packet_write`, which waits for the host to acknowledge a response; `Wait` says
which of them, and for the second and third what the loop does afterwards.  The two
bytes of the host's acknowledgement are read and compared, but every caller drops the
result.

`log` is what an observer on the line sees, with the decisions that are not visible
there: bytes read, frames written, packets accepted and rejected, a data phase aborted.
Each entry keeps the two acknowledgement flags as they are after it.

The payload buffer has no end here, and a packet that declares more than 32 bytes
overwrites nothing behind it: of the code, what follows speaks where no packet does.

## What is load-bearing

* A byte is a step.  Everything the code does between two calls of `read_byte` belongs to the
  step of the first byte, in the order of the source; the entries of the log have that order.
* `runLoop_cases` tells the step apart by what `serial_packet_read` says of the byte (`verdict`):
  busy, failure, success.  What the other modules prove of a run is proved for these three and
  for the two bytes of the host's acknowledgement.
* A command with a tag the switch does not know is accepted and not answered.
* `Wait.left` is where Reset and Execute lead.  What the code jumped to does is not modelled, and
  bytes that come then change nothing.
-/

namespace CannonCar.Kboot

/-! ## Commands -/

def kCommandTagGenericResponse : BitVec 8 := 0xa0

def kCommandTagGetPropertyResponse : BitVec 8 := 0xa7

def kCommandTagFlashEraseRegion : BitVec 8 := 0x02

def kCommandTagWriteMemory : BitVec 8 := 0x04

def kCommandTagGetProperty : BitVec 8 := 0x07

def kCommandTagExecute : BitVec 8 := 0x09

def kCommandTagReset : BitVec 8 := 0x0b

variable (target : Target)

/-- The switch of `handle_get_property`: the values of a property tag. -/
def propertyValues (propertyTag : BitVec 32) : Option (List (BitVec 32)) :=
  match propertyTag.toNat with
  | 0x01 => some [0x4b010300]
  | 0x02 => some [0x01]
  | 0x03 => some [0]
  | 0x04 => some [target.targetFlashSize]
  | 0x05 => some [target.chip.sectorSize]
  | 0x07 => some [0x02 ||| 0x04 ||| 0x07 ||| 0x0b]
  | 0x0b => some [32]
  | 0x0c => some [0, 0xFFF, 0x20000000, 0x200003FF]
  | 0x0d => some [1]
  | 0x0e => some [target.targetRamStart]
  | 0x0f => some [target.targetRamSize]
  | 0x10 => some [target.sdid]
  | 0x11 => some [0]
  | _ => none

/-- The payload of a property response, around the byte `reserved` nobody sets. -/
def propertyResponse (reserved : BitVec 8) (propertyTag : BitVec 32) : List (BitVec 8) :=
  let values := (propertyValues target propertyTag).getD []
  let status :=
    if (propertyValues target propertyTag).isSome then Status.success else .unknownProperty
  [kCommandTagGetPropertyResponse, 0, reserved, BitVec.ofNat 8 (1 + values.length)] ++
    wordBytes status.code ++ values.flatMap wordBytes

/-- The payload of a generic response. -/
def genericResponse (commandTag : BitVec 8) (status : Status) : List (BitVec 8) :=
  [kCommandTagGenericResponse, 0, 0, 2] ++ wordBytes status.code ++
    wordBytes (commandTag.setWidth 32)

namespace SerialPacket

/-- `packetLength` of `serial_packet_write`, from `parameterCount`. -/
def responseLength (p : SerialPacket) : ℕ := (1 + (p.payload 3).toNat) * 4

/-- The header `serial_packet_write` puts before the payload. -/
def sealed (p : SerialPacket) : SerialPacket :=
  let p := { p with
    startByte := kFramingPacketStartByte
    packetType := kFramingPacketTypeCommand
    lengthInBytes := putHalf p.lengthInBytes (BitVec.ofNat 16 p.responseLength) }
  { p with crc16 := putHalf p.crc16 (calculateCrc p) }

/-- What goes over the line: six bytes, then the payload. -/
def bytes (p : SerialPacket) : List (BitVec 8) :=
  p.header ++ [p.crc16 0, p.crc16 1] ++ p.data p.responseLength

end SerialPacket

/-! ## The machine -/

/-- Where a response leads once the host has acknowledged it. -/
inductive Next
  /-- Back to the loop, in the given phase. -/
  | loop (state : Phase)
  /-- `NVIC_SystemReset`. -/
  | reset
  /-- `jump_to_app`. -/
  | jump (sp pc : BitVec 32)
  deriving DecidableEq

/-- The `read_byte` the bootloader is blocked in. -/
inductive Wait
  | packet
  | ackStart (next : Next)
  | ackType (next : Next)
  /-- None: the bootloader has been left. -/
  | left
  deriving DecidableEq

/-- What there is to observe. -/
inductive Event
  | read (tmp : BitVec 8)
  | write (frame : Frame)
  | accepted (payload : List (BitVec 8))
  | rejected
  | abort
  deriving DecidableEq

/-- An event, and the two flags after it. -/
structure Entry where
  event : Event
  isAckNeeded : Bool
  isAckAbortNeeded : Bool
  deriving DecidableEq

/-- The framing layer, `bl_ctx`, the flash, and the log, the last entry first. -/
structure Boot where
  serial : Serial
  state : Phase
  isActive : Bool
  address : BitVec 32
  count : BitVec 32
  flash : FlashModule
  wait : Wait
  log : List Entry

namespace Boot

/-- The start of `bootloader_run`. -/
def init (mem : Flash) : Boot := ⟨.init, .command, false, 0, 0, ⟨mem, []⟩, .packet, []⟩

/-- An entry in the log. -/
def emit (e : Event) (b : Boot) : Boot :=
  { b with log := ⟨e, b.serial.isAckNeeded, b.serial.isAckAbortNeeded⟩ :: b.log }

/-- The packet that has been read. -/
def packet (b : Boot) : SerialPacket := b.serial.parser.readPacket

/-- `if(isAckNeeded)` of both `serial_packet_read` and `serial_packet_write`. -/
def flushAck (b : Boot) : Boot :=
  let f := b.serial.flushAck
  f.2.foldl (fun b frame => b.emit (.write frame)) { b with serial := f.1 }

/-- `if(isAckAbortNeeded)` of `serial_packet_write`. -/
def flushAbort (b : Boot) : Boot :=
  if b.serial.isAckAbortNeeded then
    emit (.write .ackAbort) { b with serial := { b.serial with isAckAbortNeeded := false } }
  else b

/-- `s_writePacket`, replaced. -/
def setWritePacket (p : SerialPacket) (b : Boot) : Boot :=
  { b with serial := { b.serial with parser := { b.serial.parser with writePacket := p } } }

/-- `serial_packet_write` up to the host's acknowledgement, with the payload given. -/
def serialPacketWrite (payload : List (BitVec 8)) (next : Next) (b : Boot) : Boot :=
  let b := b.flushAck.flushAbort
  let p := (b.serial.parser.writePacket.put payload).sealed
  emit (.write (.packet p.bytes)) { b.setWritePacket p with wait := .ackStart next }

/-- `send_generic_response`. -/
def sendGenericResponse (commandTag : BitVec 8) (status : Status) (next : Next) (b : Boot) : Boot :=
  b.serialPacketWrite (genericResponse commandTag status) next

/-- `handle_get_property`. -/
def handleGetProperty (b : Boot) : Boot :=
  b.serialPacketWrite
    (propertyResponse target (b.serial.parser.writePacket.payload 2) (word b.packet.payload 4))
    (.loop .command)

/-- `handle_flash_erase_region`. -/
def handleFlashEraseRegion (b : Boot) : Boot :=
  let start := word b.packet.payload 4
  let length := word b.packet.payload 8
  if isValidMemoryRange start length = false then
    b.sendGenericResponse kCommandTagFlashEraseRegion .memoryRangeInvalid (.loop .command)
  else
    let r := flashErase target start length b.flash
    sendGenericResponse kCommandTagFlashEraseRegion r.2 (.loop .command) { b with flash := r.1 }

/-- `handle_write_memory`, and the data phase it leads to. -/
def handleWriteMemory (b : Boot) : Boot :=
  sendGenericResponse kCommandTagWriteMemory .success (.loop .data)
    { b with address := word b.packet.payload 4, count := word b.packet.payload 8 }

/-- `handle_reset`. -/
def handleReset (b : Boot) : Boot := b.sendGenericResponse kCommandTagReset .success .reset

/-- `handle_execute`. -/
def handleExecute (b : Boot) : Boot :=
  b.sendGenericResponse kCommandTagExecute .success
    (.jump (word b.packet.payload 12) (word b.packet.payload 4))

/-- `finalize_data_phase`, after which the loop goes back to commands. -/
def finalizeDataPhase (status : Status) (b : Boot) : Boot :=
  b.sendGenericResponse kCommandTagWriteMemory status (.loop .command)

/-- `data_phase_abort`. -/
def dataPhaseAbort (b : Boot) : Boot :=
  emit .abort { b with serial := { b.serial with isAckAbortNeeded := true, isAckNeeded := false } }

/-- The end of `handle_data_phase`: more data, or the final response. -/
def dataPhaseEnd (b : Boot) : Boot :=
  if b.count ≠ 0 then b else b.finalizeDataPhase .success

/-- `writeLength`. -/
def writeLength (b : Boot) : BitVec 32 :=
  if b.packet.length < b.count.toNat then BitVec.ofNat 32 b.packet.length else b.count

/-- `handle_data_phase`. -/
def handleDataPhase (b : Boot) : Boot :=
  if b.count ≠ 0 then
    let r := flashProgram target b.address b.packet.payload b.writeLength b.flash
    let parser := { b.serial.parser with readPacket := { b.packet with payload := r.2.2 } }
    let b' := { b with flash := r.1, serial := { b.serial with parser := parser } }
    -- a failure clears hasMoreData, so the loop goes back to commands
    if r.2.1 ≠ .success then b'.dataPhaseAbort.finalizeDataPhase r.2.1
    else
      dataPhaseEnd { b' with
        count := b.count - b.writeLength
        address := b.address + b.writeLength }
  else b.dataPhaseEnd

/-- `switch(bl_ctx.state)` of `bootloader_run`. -/
def handlePacket (b : Boot) : Boot :=
  match b.state with
  | .command =>
      let commandTag := b.packet.payload 0
      if commandTag = kCommandTagGetProperty then b.handleGetProperty target
      else if commandTag = kCommandTagFlashEraseRegion then b.handleFlashEraseRegion target
      else if commandTag = kCommandTagWriteMemory then b.handleWriteMemory
      else if commandTag = kCommandTagExecute then b.handleExecute
      else if commandTag = kCommandTagReset then b.handleReset
      -- any other tag: no response, and the acknowledgement stays due
      else b
  | .data => b.handleDataPhase target

/-- One pass of the loop: a call of `serial_packet_read`, and the packet it may
complete. -/
def runLoop (tmp : BitVec 8) (b : Boot) : Boot :=
  let b := b.flushAck.emit (.read tmp)
  let r := b.serial.packetRead b.state.packetType tmp
  let b := { b with serial := r.1 }
  match r.2.2 with
  | .success =>
      handlePacket target
        (emit (.accepted (b.packet.data b.packet.length)) { b with isActive := true })
  | .fail => r.2.1.foldl (fun b frame => b.emit (.write frame)) (b.emit .rejected)
  | _ => r.2.1.foldl (fun b frame => b.emit (.write frame)) b

/-- The return from `serial_packet_write`. -/
def resume (next : Next) (b : Boot) : Boot :=
  match next with
  | .loop state => { b with state := state, wait := .packet }
  | .reset => { b with wait := .left }
  | .jump _ _ => { b with wait := .left }

/-- One byte from the host. -/
def step (b : Boot) (tmp : BitVec 8) : Boot :=
  match b.wait with
  | .packet => b.runLoop target tmp
  -- the byte is compared, and the outcome dropped
  | .ackStart next => { b.emit (.read tmp) with wait := .ackType next }
  | .ackType next => (b.emit (.read tmp)).resume next
  | .left => b

/-! ## What each part of the machine changes -/

section Fields

variable (b : Boot) (e : Event) (payload : List (BitVec 8)) (next : Next)

@[simp] theorem emit_serial : (b.emit e).serial = b.serial := rfl

@[simp] theorem emit_state : (b.emit e).state = b.state := rfl

@[simp] theorem emit_address : (b.emit e).address = b.address := rfl

@[simp] theorem emit_count : (b.emit e).count = b.count := rfl

@[simp] theorem emit_flash : (b.emit e).flash = b.flash := rfl

@[simp] theorem emit_wait : (b.emit e).wait = b.wait := rfl

theorem flushAck_eq :
    b.flushAck = if b.serial.isAckNeeded then
      emit (.write .ack) { b with serial := { b.serial with isAckNeeded := false } } else b := by
  unfold flushAck Serial.flushAck
  split_ifs <;> rfl

@[simp] theorem flushAck_serial :
    b.flushAck.serial = { b.serial with isAckNeeded := false } := by
  rw [flushAck_eq]
  split_ifs with due
  · rfl
  · rw [← Bool.eq_false_iff.mpr due]

@[simp] theorem flushAck_state : b.flushAck.state = b.state := by
  rw [flushAck_eq]
  split_ifs <;> rfl

@[simp] theorem flushAck_address : b.flushAck.address = b.address := by
  rw [flushAck_eq]
  split_ifs <;> rfl

@[simp] theorem flushAck_count : b.flushAck.count = b.count := by
  rw [flushAck_eq]
  split_ifs <;> rfl

@[simp] theorem flushAck_flash : b.flushAck.flash = b.flash := by
  rw [flushAck_eq]
  split_ifs <;> rfl

@[simp] theorem flushAck_wait : b.flushAck.wait = b.wait := by
  rw [flushAck_eq]
  split_ifs <;> rfl

@[simp] theorem flushAbort_serial :
    b.flushAbort.serial = { b.serial with isAckAbortNeeded := false } := by
  unfold flushAbort
  split_ifs with due
  · rfl
  · rw [← Bool.eq_false_iff.mpr due]

@[simp] theorem flushAbort_state : b.flushAbort.state = b.state := by
  unfold flushAbort
  split_ifs <;> rfl

@[simp] theorem flushAbort_address : b.flushAbort.address = b.address := by
  unfold flushAbort
  split_ifs <;> rfl

@[simp] theorem flushAbort_count : b.flushAbort.count = b.count := by
  unfold flushAbort
  split_ifs <;> rfl

@[simp] theorem flushAbort_flash : b.flushAbort.flash = b.flash := by
  unfold flushAbort
  split_ifs <;> rfl

/-- The packet a response goes out as. -/
def response (payload : List (BitVec 8)) (b : Boot) : SerialPacket :=
  (b.serial.parser.writePacket.put payload).sealed

/-- A response, with what is flushed before it. -/
theorem serialPacketWrite_eq :
    b.serialPacketWrite payload next =
      emit (.write (.packet (b.response payload).bytes))
        { b.flushAck.flushAbort.setWritePacket (b.response payload) with
          wait := .ackStart next } := by
  unfold serialPacketWrite response
  simp only [flushAbort_serial, flushAck_serial]

@[simp] theorem serialPacketWrite_state : (b.serialPacketWrite payload next).state = b.state := by
  simp [serialPacketWrite_eq, setWritePacket]

@[simp] theorem serialPacketWrite_address :
    (b.serialPacketWrite payload next).address = b.address := by
  simp [serialPacketWrite_eq, setWritePacket]

@[simp] theorem serialPacketWrite_count : (b.serialPacketWrite payload next).count = b.count := by
  simp [serialPacketWrite_eq, setWritePacket]

@[simp] theorem serialPacketWrite_flash : (b.serialPacketWrite payload next).flash = b.flash := by
  simp [serialPacketWrite_eq, setWritePacket]

@[simp] theorem serialPacketWrite_wait :
    (b.serialPacketWrite payload next).wait = .ackStart next := by
  simp [serialPacketWrite_eq]

/-- A response leaves no acknowledgement pending. -/
theorem serialPacketWrite_flags :
    (b.serialPacketWrite payload next).serial.isAckNeeded = false ∧
      (b.serialPacketWrite payload next).serial.isAckAbortNeeded = false := by
  simp [serialPacketWrite_eq, setWritePacket]

end Fields

/-! ### A byte while a packet is awaited -/

/-- The verdict on the byte. -/
def verdict (tmp : BitVec 8) (b : Boot) : Status :=
  b.serial.parser.verdict b.state.packetType tmp

/-- The packet a byte completes. -/
def completed (tmp : BitVec 8) (b : Boot) : SerialPacket :=
  (b.serial.parser.packetByte b.state.packetType tmp).1.readPacket

/-- The acknowledgement due is sent, the byte read and given to the parser. -/
def afterRead (tmp : BitVec 8) (b : Boot) : Boot :=
  let parser := (b.serial.parser.packetByte b.state.packetType tmp).1
  { b.flushAck.emit (.read tmp) with
    serial := { b.serial with parser := parser, isAckNeeded := false } }

/-- The packet just completed is accepted. -/
def accept (b : Boot) : Boot :=
  emit (.accepted (b.packet.data b.packet.length))
    { b with isActive := true, serial := { b.serial with isAckNeeded := true } }

/-- The packet just completed is rejected. -/
def reject (b : Boot) : Boot := (b.emit .rejected).emit (.write .nak)

variable (b : Boot) (tmp : BitVec 8)

@[simp] theorem afterRead_state : (b.afterRead tmp).state = b.state := flushAck_state b

@[simp] theorem afterRead_address : (b.afterRead tmp).address = b.address := flushAck_address b

@[simp] theorem afterRead_count : (b.afterRead tmp).count = b.count := flushAck_count b

@[simp] theorem afterRead_flash : (b.afterRead tmp).flash = b.flash := flushAck_flash b

@[simp] theorem afterRead_wait : (b.afterRead tmp).wait = b.wait := flushAck_wait b

@[simp] theorem afterRead_packet : (b.afterRead tmp).packet = b.completed tmp := rfl

@[simp] theorem accept_state : b.accept.state = b.state := rfl

@[simp] theorem accept_address : b.accept.address = b.address := rfl

@[simp] theorem accept_count : b.accept.count = b.count := rfl

@[simp] theorem accept_flash : b.accept.flash = b.flash := rfl

@[simp] theorem accept_wait : b.accept.wait = b.wait := rfl

@[simp] theorem accept_packet : b.accept.packet = b.packet := rfl

theorem runLoop_of_success (success : b.verdict tmp = .success) :
    b.runLoop target tmp = handlePacket target (b.afterRead tmp).accept := by
  have read := Serial.packetRead_of_success { b.serial with isAckNeeded := false }
    b.state.packetType tmp success
  simp only [runLoop, accept, afterRead, emit_serial, flushAck_serial, emit_state,
    flushAck_state, read]
  rfl

theorem runLoop_of_fail (fail : b.verdict tmp = .fail) :
    b.runLoop target tmp = (b.afterRead tmp).reject := by
  have read := Serial.packetRead_of_fail { b.serial with isAckNeeded := false }
    b.state.packetType tmp fail
  simp only [runLoop, reject, afterRead, emit_serial, flushAck_serial, emit_state,
    flushAck_state, read]
  rfl

theorem runLoop_of_busy (busy : b.verdict tmp = .busy) :
    b.runLoop target tmp = b.afterRead tmp ∨
      b.runLoop target tmp = (b.afterRead tmp).emit (.write .ping) := by
  obtain ⟨frames, few, read⟩ := Serial.packetRead_of_busy { b.serial with isAckNeeded := false }
    b.state.packetType tmp busy
  simp only [runLoop, afterRead, emit_serial, flushAck_serial, emit_state, flushAck_state, read]
  rcases few with rfl | rfl
  · exact Or.inl rfl
  · exact Or.inr rfl

/-- **The loop, by the verdict on the byte.** -/
theorem runLoop_cases :
    b.verdict tmp = .success ∧ b.runLoop target tmp = handlePacket target (b.afterRead tmp).accept ∨
      b.verdict tmp = .fail ∧ b.runLoop target tmp = (b.afterRead tmp).reject ∨
      b.verdict tmp = .busy ∧ (b.runLoop target tmp = b.afterRead tmp ∨
        b.runLoop target tmp = (b.afterRead tmp).emit (.write .ping)) := by
  rcases Serial.verdict_cases b.state.packetType tmp b.serial.parser with success | fail | busy
  · exact Or.inl ⟨success, b.runLoop_of_success target tmp success⟩
  · exact Or.inr (Or.inl ⟨fail, b.runLoop_of_fail target tmp fail⟩)
  · exact Or.inr (Or.inr ⟨busy, b.runLoop_of_busy target tmp busy⟩)

end Boot

end CannonCar.Kboot
