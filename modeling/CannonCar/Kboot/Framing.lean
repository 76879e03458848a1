import CannonCar.Kboot.Packet

/-!
# The buffers of the packet parser

`serial_packet_read` called over and over: `feed` is one call, given the packet type
expected and the byte received.

The stores stay inside the buffers exactly while no header declares more than 32 bytes:
the bound the source puts on the length is put on the length of the other packet.  The
invariant is `Placed`, where the parser stands in a packet that fits; `Overlong` is
where it stands in one that does not, and 35 bytes later the buffer is left behind.

## What is load-bearing

**What a stream can still do.**  A header that declares too much has not stored anything outside
yet when it has been read, so the property cannot be one of the bytes so far alone:
`storesInBounds_iff` asks for all continuations in which later headers fit.  The other
direction is then constructive: behind a header that is too long the 35 bytes that leave the
buffer are given (`Overlong`).

**The condition is on the byte and the state before it** (`HeaderFits`): the byte is not the
second one of a length above 32.

The types expected vary from call to call, as the phases of the bootloader make them.
-/

namespace CannonCar.Kboot

open Trajectory

/-- One call of `serial_packet_read`. -/
def Serial.feed (s : Serial) (i : BitVec 8 × BitVec 8) : Serial := (s.serialPacketRead i.1 i.2).1

/-- The same on the parser alone. -/
def Parser.feed (s : Parser) (i : BitVec 8 × BitVec 8) : Parser := (s.packetByte i.1 i.2).1

theorem Serial.parser_feed (s : Serial) (i : BitVec 8 × BitVec 8) :
    (s.feed i).parser = s.parser.feed i := s.parser_serialPacketRead i.1 i.2

/-! ## Stores -/

namespace Parser

/-- Where the parser is in a packet whose header it has seen or is about to. -/
structure Placed (s : Parser) : Prop where
  length : s.packetState = kPacketStateLength → s.stateCnt < 2
  crc : s.packetState = kPacketStateCRC → s.stateCnt < 2
  payload : s.packetState = kPacketStatePayload → s.stateCnt < kPacketMaxPayloadSize
  declared : s.packetState = kPacketStateCRC ∨ s.packetState = kPacketStatePayload →
    s.readPacket.length ≤ kPacketMaxPayloadSize

/-- Every store so far was inside its array. -/
def InBounds (s : Parser) : Prop := ∀ e ∈ s.stores, e.2 < e.1.size

instance (s : Parser) : Decidable s.InBounds := inferInstanceAs (Decidable (∀ e ∈ s.stores, _))

/-- The byte is not the second length byte of a header that declares more than the
payload buffer holds. -/
def HeaderFits (s : Parser) (i : BitVec 8 × BitVec 8) : Prop :=
  s.packetState = kPacketStateLength → s.stateCnt = 1 →
    (i.2 ++ s.readPacket.lengthInBytes 0).toNat ≤ kPacketMaxPayloadSize

instance (s : Parser) (i : BitVec 8 × BitVec 8) : Decidable (s.HeaderFits i) :=
  inferInstanceAs (Decidable (_ → _ → _))

section Placed

variable {s : Parser}

/-- A state in which the switch expects no byte of a header or a payload. -/
theorem placed_idle (state : ℕ) (here : s.packetState = state)
    (idle : state ≠ kPacketStateLength ∧ state ≠ kPacketStateCRC ∧ state ≠ kPacketStatePayload) :
    s.Placed := by
  obtain ⟨notLength, notCrc, notPayload⟩ := idle
  rw [← here] at notLength notCrc notPayload
  exact ⟨fun h => absurd h notLength, fun h => absurd h notCrc, fun h => absurd h notPayload,
    fun h => (h.elim notCrc notPayload).elim⟩

theorem placed_length (here : s.packetState = kPacketStateLength) (cnt : s.stateCnt < 2) :
    s.Placed := by
  refine ⟨fun _ => cnt, ?_, ?_, ?_⟩
  all_goals
    rw [here]
    exact fun other => absurd other (by decide)

theorem placed_crc (here : s.packetState = kPacketStateCRC) (cnt : s.stateCnt < 2)
    (declared : s.readPacket.length ≤ kPacketMaxPayloadSize) : s.Placed := by
  refine ⟨?_, fun _ => cnt, ?_, fun _ => declared⟩
  all_goals
    rw [here]
    exact fun other => absurd other (by decide)

theorem placed_payload (here : s.packetState = kPacketStatePayload)
    (cnt : s.stateCnt < kPacketMaxPayloadSize)
    (declared : s.readPacket.length ≤ kPacketMaxPayloadSize) : s.Placed := by
  refine ⟨?_, ?_, fun _ => cnt, fun _ => declared⟩
  all_goals
    rw [here]
    exact fun other => absurd other (by decide)

theorem placed_init : init.Placed := placed_idle kPacketStateStartByte rfl (by decide)

end Placed

section Store

variable {s : Parser} {field : Field} {tmp : BitVec 8}

@[simp] theorem store_packetState : (s.store field tmp).packetState = s.packetState := rfl

@[simp] theorem store_stateCnt : (s.store field tmp).stateCnt = s.stateCnt + 1 := rfl

@[simp] theorem store_stores : (s.store field tmp).stores = (field, s.stateCnt) :: s.stores := rfl

/-- The second length byte completes the number the header declares. -/
theorem length_store_lengthInBytes (second : s.stateCnt = 1) :
    (s.store .lengthInBytes tmp).readPacket.length =
      (tmp ++ s.readPacket.lengthInBytes 0).toNat := by
  simp only [Parser.store, SerialPacket.length, half, second, Function.update_self]
  rw [Function.update_of_ne (by decide)]

end Store

/-- One call, seen from the position in the packet. -/
theorem Placed.feed {s : Parser} (placed : s.Placed) {i : BitVec 8 × BitVec 8}
    (fits : s.HeaderFits i) : (s.feed i).Placed := by
  unfold Parser.feed
  rcases s.packetState_cases with here | here | here | here | here | lost
  · rw [packetByte_startByte here]
    split_ifs
    · exact placed_idle kPacketStatePacketTye rfl (by decide)
    · exact placed
  · rw [packetByte_packetTye here]
    split_ifs
    · exact placed_idle kPacketStateStartByte rfl (by decide)
    · exact placed_length rfl Nat.two_pos
    · exact placed_idle kFramingPacketStartByte.toNat rfl (by decide)
  · rw [packetByte_length here]
    have cnt := placed.length here
    split_ifs with second
    · have last : s.stateCnt = 1 := by omega
      refine placed_crc (clampLength_packetState _) ?_ ?_
      · rw [clampLength_stateCnt]
        exact Nat.two_pos
      · rw [clampLength_readPacket]
        exact le_of_eq_of_le (length_store_lengthInBytes last) (fits here last)
    · exact placed_length here (not_le.mp second)
  · rw [packetByte_crc here]
    have declared := placed.declared (Or.inl here)
    split_ifs with second
    · exact placed_payload rfl (by decide : 0 < kPacketMaxPayloadSize) declared
    · exact placed_crc here (not_le.mp second) declared
  · rw [packetByte_payload here]
    have declared := placed.declared (Or.inr here)
    split_ifs with last
    · exact placed_idle kPacketStateStartByte rfl (by decide)
    · exact placed_payload here (lt_of_lt_of_le (not_le.mp last) declared) declared
  · rw [packetByte_other lost]
    exact placed

/-- The store of one call, if it makes one. -/
theorem stores_feed (s : Parser) (i : BitVec 8 × BitVec 8) :
    (s.feed i).stores = s.stores ∨
      (∃ field, (s.feed i).stores = (field, s.stateCnt) :: s.stores ∧
        (field = .lengthInBytes ∧ s.packetState = kPacketStateLength ∨
          field = .crc16 ∧ s.packetState = kPacketStateCRC ∨
          field = .payload ∧ s.packetState = kPacketStatePayload)) := by
  unfold Parser.feed
  rcases s.packetState_cases with here | here | here | here | here | lost
  · refine Or.inl ?_
    rw [packetByte_startByte here]
    split_ifs <;> rfl
  · refine Or.inl ?_
    rw [packetByte_packetTye here]
    split_ifs <;> rfl
  · refine Or.inr ⟨.lengthInBytes, ?_, Or.inl ⟨rfl, here⟩⟩
    rw [packetByte_length here]
    split_ifs
    · exact clampLength_stores _
    · rfl
  · refine Or.inr ⟨.crc16, ?_, Or.inr (Or.inl ⟨rfl, here⟩)⟩
    rw [packetByte_crc here]
    split_ifs <;> rfl
  · refine Or.inr ⟨.payload, ?_, Or.inr (Or.inr ⟨rfl, here⟩)⟩
    rw [packetByte_payload here]
    split_ifs <;> rfl
  · refine Or.inl ?_
    rw [packetByte_other lost]

/-- A parser that knows its place stores inside the arrays. -/
theorem InBounds.feed {s : Parser} (inBounds : s.InBounds) (placed : s.Placed)
    (i : BitVec 8 × BitVec 8) : (s.feed i).InBounds := by
  unfold InBounds
  rcases s.stores_feed i with none | ⟨field, stored, place⟩
  · rw [none]
    exact inBounds
  · have inside : s.stateCnt < field.size := by
      rcases place with ⟨rfl, here⟩ | ⟨rfl, here⟩ | ⟨rfl, here⟩
      · exact placed.length here
      · exact placed.crc here
      · exact placed.payload here
    rw [stored, List.forall_mem_cons]
    exact ⟨inside, inBounds⟩

/-! ### Headers that declare too much -/

/-- The parser is `k` bytes past a header that declares more than 32 bytes. -/
def Overlong (k : ℕ) (s : Parser) : Prop :=
  kPacketMaxPayloadSize < s.readPacket.length ∧
    (s.packetState = kPacketStateCRC ∧ s.stateCnt = k ∧ k < 2 ∨
      s.packetState = kPacketStatePayload ∧ s.stateCnt + 2 = k)

theorem Overlong.feed {s : Parser} {k : ℕ} (overlong : s.Overlong k) (early : k < 34)
    (i : BitVec 8 × BitVec 8) : (s.feed i).Overlong (k + 1) := by
  unfold Parser.feed
  obtain ⟨long, ⟨here, cnt, header⟩ | ⟨here, cnt⟩⟩ := overlong
  · rw [packetByte_crc here]
    split_ifs with second
    · exact ⟨long, Or.inr ⟨rfl, by simp only; omega⟩⟩
    · exact ⟨long, Or.inl ⟨here, by rw [store_stateCnt, cnt], by omega⟩⟩
  · have unfinished : ¬ s.stateCnt + 1 ≥ s.readPacket.length := by
      unfold kPacketMaxPayloadSize at long
      omega
    rw [packetByte_payload here, if_neg unfinished]
    refine ⟨long, Or.inr ⟨here, ?_⟩⟩
    rw [store_stateCnt]
    omega

theorem Overlong.run {s : Parser} {k : ℕ} (overlong : s.Overlong k)
    (us : List (BitVec 8 × BitVec 8)) (early : k + us.length ≤ 34) :
    (Trajectory.run Parser.feed s us).Overlong (k + us.length) := by
  induction us generalizing s k with
  | nil => exact overlong
  | cons i us ih =>
      rw [List.length_cons] at early ⊢
      have next := ih (overlong.feed (by omega) i) (by omega)
      rwa [Nat.add_assoc, Nat.add_comm 1] at next

/-- The 35th byte after such a header goes past the payload. -/
theorem Overlong.not_inBounds {s : Parser} (overlong : s.Overlong 34) (i : BitVec 8 × BitVec 8) :
    ¬ (s.feed i).InBounds := by
  obtain ⟨-, ⟨-, -, header⟩ | ⟨here, cnt⟩⟩ := overlong
  · exact absurd header (by decide)
  · intro inBounds
    have stored : (Field.payload, s.stateCnt) ∈ (s.feed i).stores := by
      rw [Parser.feed, packetByte_payload here]
      split_ifs <;> exact List.mem_cons_self
    have inside : s.stateCnt < 32 := inBounds _ stored
    omega

theorem Overlong.overrun {s : Parser} (overlong : s.Overlong 0) {us : List (BitVec 8 × BitVec 8)}
    (enough : 35 ≤ us.length) : ¬ Throughout InBounds Parser.feed s us := by
  intro throughout
  obtain ⟨i, rest, split⟩ := List.exists_cons_of_ne_nil (l := us.drop 34)
    (List.ne_nil_of_length_pos (by rw [List.length_drop]; omega))
  have width : (us.take 34).length = 34 := List.length_take_of_le (by omega)
  have full : (Trajectory.run Parser.feed s (us.take 34)).Overlong 34 := by
    have run := overlong.run (us.take 34) (by omega)
    rwa [width, Nat.zero_add] at run
  rw [← List.take_append_drop 34 us, throughout_append, split] at throughout
  exact full.not_inBounds i throughout.2.2.start

/-- A header that does not fit is where an overlong packet starts. -/
theorem overlong_of_not_headerFits {s : Parser} {i : BitVec 8 × BitVec 8}
    (long : ¬ s.HeaderFits i) : (s.feed i).Overlong 0 := by
  unfold HeaderFits at long
  push Not at long
  obtain ⟨here, second, long⟩ := long
  have next : s.feed i = clampLength { s.store .lengthInBytes i.2 with
      packetState := kPacketStateCRC, stateCnt := 0 } := by
    rw [Parser.feed, packetByte_length here, if_pos (by rw [second])]
  rw [next]
  refine ⟨?_, Or.inl ⟨clampLength_packetState _, clampLength_stateCnt _, Nat.two_pos⟩⟩
  rw [clampLength_readPacket]
  exact lt_of_lt_of_eq long (length_store_lengthInBytes second).symm

/-- Bytes 0 declare nothing once the header of the packet is through. -/
theorem guarded_zeros {s : Parser} (here : s.packetState ≠ kPacketStatePacketTye ∧
      s.packetState ≠ kPacketStateLength) (n : ℕ) :
    Guarded HeaderFits feed s (List.replicate n (0, 0)) := by
  refine guarded_of_forall (I := fun s => s.packetState ≠ kPacketStatePacketTye ∧
    s.packetState ≠ kPacketStateLength) ?_ here
  intro s i mem here
  obtain rfl := List.eq_of_mem_replicate mem
  refine ⟨fun length => absurd length here.2, ?_⟩
  unfold Parser.feed
  rcases s.packetState_cases with state | state | state | state | state | lost
  · rw [packetByte_startByte state, if_neg (by decide)]
    exact here
  · exact absurd state here.1
  · exact absurd state here.2
  · rw [packetByte_crc state]
    split_ifs
    · exact ⟨by simp [kPacketStatePayload, kPacketStatePacketTye],
        by simp [kPacketStatePayload, kPacketStateLength]⟩
    · exact here
  · rw [packetByte_payload state]
    split_ifs
    · exact ⟨by simp [kPacketStateStartByte, kPacketStatePacketTye],
        by simp [kPacketStateStartByte, kPacketStateLength]⟩
    · exact here
  · rw [packetByte_other lost]
    exact here

end Parser

namespace Serial

/-- Every store `serial_packet_read` has made was inside its array. -/
def StoresInBounds (s : Serial) : Prop := s.parser.InBounds

/-- The byte completes no header that declares more than 32 bytes. -/
def HeaderFits (s : Serial) (i : BitVec 8 × BitVec 8) : Prop := s.parser.HeaderFits i

instance (s : Serial) : Decidable s.StoresInBounds := inferInstanceAs (Decidable s.parser.InBounds)

/-- **The parser stays in its buffers exactly while headers declare at most 32 bytes.**
For every sequence of calls, with whatever types expected and bytes received: what has
been received cannot take a store outside the buffers, neither so far nor later on in
packets that declare at most 32 bytes, exactly if no header so far has declared more. -/
theorem storesInBounds_iff (inputs : List (BitVec 8 × BitVec 8)) :
    (∀ more, Guarded HeaderFits feed (run feed init inputs) more →
        Throughout StoresInBounds feed init (inputs ++ more)) ↔
      Guarded HeaderFits feed init inputs := by
  have inBounds : ∀ us, Throughout StoresInBounds feed init us ↔
      Throughout Parser.InBounds Parser.feed Parser.init us :=
    fun us => throughout_part parser_feed init us
  have fits : ∀ s us, Guarded HeaderFits feed s us ↔
      Guarded Parser.HeaderFits Parser.feed s.parser us :=
    fun s us => guarded_part parser_feed s us
  have atStart : init.parser = Parser.init := rfl
  simp only [inBounds, fits, run_part parser_feed, atStart]
  constructor
  · intro safe
    by_contra unguarded
    obtain ⟨pre, i, post, split, -, long⟩ := exists_of_not_guarded unguarded
    have overlong := Parser.overlong_of_not_headerFits long
    have overruns : ∀ more, 35 ≤ (post ++ more).length →
        ¬ Throughout Parser.InBounds Parser.feed Parser.init (inputs ++ more) := by
      intro more enough throughout
      rw [split, List.append_assoc, throughout_append, List.cons_append] at throughout
      exact overlong.overrun enough throughout.2.2
    by_cases enough : 35 ≤ post.length
    · exact overruns [] (by simpa using enough) (safe [] trivial)
    · -- the packet is still under way, and bytes 0 take it past the buffer
      have inPacket : (run Parser.feed Parser.init inputs).packetState ≠ kPacketStatePacketTye ∧
          (run Parser.feed Parser.init inputs).packetState ≠ kPacketStateLength := by
        rw [split, run_append, run_cons]
        obtain ⟨-, ⟨here, -⟩ | ⟨here, -⟩⟩ := overlong.run post (by omega)
        · rw [here]
          decide
        · rw [here]
          decide
      refine overruns (List.replicate 35 (0, 0)) ?_ (safe _ (Parser.guarded_zeros inPacket 35))
      rw [List.length_append, List.length_replicate]
      exact Nat.le_add_left _ _
  · intro guarded more later
    have all : Guarded Parser.HeaderFits Parser.feed Parser.init (inputs ++ more) :=
      guarded_append.mpr ⟨guarded, later⟩
    refine (throughout_of_guarded (I := fun s => s.Placed ∧ s.InBounds) ?_ ?_ all).imp
      fun _ both => both.2
    · exact fun s i both fits => ⟨both.1.feed fits, both.2.feed both.1 i⟩
    · exact ⟨Parser.placed_init, nofun⟩

/-- A command packet that declares 33 bytes, and carries them. -/
def longPacket : List (BitVec 8 × BitVec 8) :=
  ([kFramingPacketStartByte, kFramingPacketTypeCommand, 33, 0, 0, 0] ++ List.replicate 33 0).map
    (kFramingPacketTypeCommand, ·)

/-- The last byte of that packet is stored behind the payload. -/
theorem not_storesInBounds_longPacket : ¬ Throughout StoresInBounds feed init longPacket :=
  fun inBounds => absurd inBounds.last (by decide +kernel)

end Serial

end CannonCar.Kboot
