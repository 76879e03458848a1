import CannonCar.Kboot.Framing

/-!
# Byte streams through the packet parser

What `serial_packet_read` makes of packets and of noise between them.

A packet with a payload is received byte for byte as `encodePacket` lays it out, from
any state in which the parser looks for a start byte (`outputs_encodePacket`).  Two
things break the stream.  A packet without a payload is not complete after its check
sum: the parser takes one more byte, which belongs to the next packet.  And a start
byte followed by a type that is not expected takes `s_packetState` to a value no arm of
the switch has, for good.

## What is load-bearing

**Calls answer, streams are their answers.**  `received` is what a call hands to its caller: a
payload, a failure, or nothing.  Two streams are received alike if all their calls answer
alike, so that a round trip is an equation between lists of answers
(`Trajectory.outputs_flatMap_iff`).

**Noise comes in two kinds**: bytes that are no start byte, which the parser passes over, and
start bytes with a type that is foreign, which it does not recover from (`Noise.IsPair`).

**The lost state is absorbing.**  No arm of the switch answers it (`packetByte_other`), so a
single foreign type behind a start byte silences the parser for good; that is why the
equivalences are about the whole stream before the packet.
-/

namespace CannonCar.Kboot

open Trajectory

namespace Parser

/-- What one call gives the bootloader: the status, and the packet if there is one. -/
def received (s : Parser) (i : BitVec 8 × BitVec 8) : Status × Option (List (BitVec 8)) :=
  let p := (s.feed i).readPacket
  (s.verdict i.1 i.2,
    if s.verdict i.1 i.2 = .success then some (p.data p.length) else none)

/-- A call that completes no packet. -/
def nothing : Status × Option (List (BitVec 8)) := (.busy, none)

/-- What a complete packet comes to. -/
def judge (p : SerialPacket) : Status × Option (List (BitVec 8)) :=
  if calculateCrc p = half p.crc16 then (.success, some (p.data p.length)) else (.fail, none)

section Received

variable {s : Parser} {i : BitVec 8 × BitVec 8}

theorem received_of_incomplete (incomplete : (s.packetByte i.1 i.2).2.2 = false) :
    s.received i = nothing := by
  have busy : s.verdict i.1 i.2 = .busy := by rw [verdict, incomplete, if_neg (by decide)]
  rw [received, busy]
  rfl

theorem received_of_complete (complete : (s.packetByte i.1 i.2).2.2 = true) :
    s.received i = judge (s.feed i).readPacket := by
  have judged : s.verdict i.1 i.2 =
      if calculateCrc (s.feed i).readPacket = half (s.feed i).readPacket.crc16 then .success
      else .fail := by
    rw [verdict, complete, if_pos rfl]
    rfl
  by_cases agrees : calculateCrc (s.feed i).readPacket = half (s.feed i).readPacket.crc16
  · rw [received, judged, judge, if_pos agrees, if_pos rfl, if_pos agrees]
  · rw [received, judged, judge, if_neg agrees, if_neg (by decide), if_neg agrees]

end Received

/-! ## A packet -/

/-- The payload after the bytes `us` have been stored from index `j` on. -/
def fill (payload : ℕ → BitVec 8) (j : ℕ) : List (BitVec 8) → ℕ → BitVec 8
  | [] => payload
  | b :: us => fill (Function.update payload j b) (j + 1) us

theorem fill_of_lt (payload : ℕ → BitVec 8) {j k : ℕ} (us : List (BitVec 8)) (before : k < j) :
    fill payload j us k = payload k := by
  induction us generalizing payload j with
  | nil => rfl
  | cons b us ih =>
      rw [fill, ih _ (Nat.lt_succ_of_lt before), Function.update_of_ne (ne_of_lt before)]

theorem map_fill (payload : ℕ → BitVec 8) (j : ℕ) (us : List (BitVec 8)) :
    (List.range us.length).map (fun k => fill payload j us (j + k)) = us := by
  induction us generalizing payload j with
  | nil => rfl
  | cons b us ih =>
      rw [List.length_cons, List.range_succ_eq_map, List.map_cons, List.map_map]
      congr 1
      · have first : fill (Function.update payload j b) (j + 1) us j = b := by
          rw [fill_of_lt _ _ (Nat.lt_succ_self j), Function.update_self]
        exact first
      · have shift : (fun k => fill payload j (b :: us) (j + k)) ∘ Nat.succ =
            fun k => fill (Function.update payload j b) (j + 1) us (j + 1 + k) := by
          funext k
          rw [Function.comp_apply, fill, Nat.succ_eq_add_one, Nat.add_right_comm, Nat.add_assoc]
        rw [shift, ih]

section Payload

variable {s : Parser} (t : BitVec 8)

/-- The payload of a packet that declares as many bytes as follow. -/
theorem outputs_payload (here : s.packetState = kPacketStatePayload) {us : List (BitVec 8)}
    (nonempty : us ≠ []) (whole : s.stateCnt + us.length = s.readPacket.length) :
    outputs feed received s (us.map (t, ·)) =
        List.replicate (us.length - 1) nothing ++
          [judge { s.readPacket with payload := fill s.readPacket.payload s.stateCnt us }] ∧
      (run feed s (us.map (t, ·))).packetState = kPacketStateStartByte := by
  induction us generalizing s with
  | nil => exact absurd rfl nonempty
  | cons b us ih =>
      rw [List.length_cons] at whole
      cases us with
      | nil =>
          have last : s.stateCnt + 1 ≥ s.readPacket.length := le_of_eq whole.symm
          have byte : s.packetByte t b =
              ({ s.store .payload b with packetState := kPacketStateStartByte }, [], true) := by
            rw [packetByte_payload here, if_pos last]
          have next : s.feed (t, b) =
              { s.store .payload b with packetState := kPacketStateStartByte } := by
            rw [Parser.feed, byte]
          refine ⟨?_, ?_⟩
          · rw [List.map_singleton, outputs_cons, outputs_nil, received_of_complete (by rw [byte]),
              next]
            rfl
          · rw [List.map_singleton, run_cons, run_nil, next]
      | cons c us =>
          rw [List.length_cons] at whole
          have more : ¬ s.stateCnt + 1 ≥ s.readPacket.length := by omega
          have byte : s.packetByte t b = (s.store .payload b, [], false) := by
            rw [packetByte_payload here, if_neg more]
          have next : s.feed (t, b) = s.store .payload b := by rw [Parser.feed, byte]
          have left : s.stateCnt + 1 + (c :: us).length = s.readPacket.length := by
            rw [List.length_cons]
            omega
          obtain ⟨outs, state⟩ := ih (s := s.store .payload b) here (List.cons_ne_nil _ _) left
          refine ⟨?_, ?_⟩
          · rw [List.map_cons, outputs_cons, received_of_incomplete (by rw [byte]), next, outs]
            rfl
          · rw [List.map_cons, run_cons, next, state]

end Payload

section Header

variable {s : Parser} {t : BitVec 8} (len crc : BitVec 16)

/-- The buffer after a header and a check sum. -/
def headed (p : SerialPacket) (t : BitVec 8) (len crc : BitVec 16) : SerialPacket :=
  { startByte := kFramingPacketStartByte
    packetType := t
    lengthInBytes := putHalf p.lengthInBytes len
    crc16 := putHalf p.crc16 crc
    payload := p.payload }

/-- The calls over the six bytes before the payload. -/
def headerCalls (t : BitVec 8) (len crc : BitVec 16) : List (BitVec 8 × BitVec 8) :=
  ([kFramingPacketStartByte, t] ++ halfBytes len ++ halfBytes crc).map (t, ·)

/-- The six bytes before the payload. -/
theorem outputs_header (here : s.packetState = kPacketStateStartByte)
    (notPing : t ≠ kFramingPacketTypePing) :
    outputs feed received s (headerCalls t len crc) = List.replicate 6 nothing ∧
      (run feed s (headerCalls t len crc)).packetState = kPacketStatePayload ∧
      (run feed s (headerCalls t len crc)).stateCnt = 0 ∧
      (run feed s (headerCalls t len crc)).readPacket = headed s.readPacket t len crc := by
  -- the states the six calls lead through
  let s₁ : Parser := { s with
    readPacket := { s.readPacket with startByte := kFramingPacketStartByte }
    packetState := kPacketStatePacketTye }
  let s₂ : Parser := { s₁ with
    readPacket := { s₁.readPacket with packetType := t }
    packetState := kPacketStateLength, stateCnt := 0 }
  let s₃ : Parser := s₂.store .lengthInBytes (len.extractLsb' 0 8)
  let s₄ : Parser := clampLength { s₃.store .lengthInBytes (len.extractLsb' 8 8) with
    packetState := kPacketStateCRC, stateCnt := 0 }
  let s₅ : Parser := s₄.store .crc16 (crc.extractLsb' 0 8)
  let s₆ : Parser := { s₅.store .crc16 (crc.extractLsb' 8 8) with
    packetState := kPacketStatePayload, stateCnt := 0 }
  have cnt₂ : s₂.stateCnt = 0 := rfl
  have cnt₃ : s₃.stateCnt = 1 := rfl
  have crc₄ : s₄.packetState = kPacketStateCRC := clampLength_packetState _
  have cnt₄ : s₄.stateCnt = 0 := clampLength_stateCnt _
  have crc₅ : s₅.packetState = kPacketStateCRC := crc₄
  have cnt₅ : s₅.stateCnt = 1 := by rw [store_stateCnt, cnt₄]
  have byte₁ : s.packetByte t kFramingPacketStartByte = (s₁, [], false) := by
    rw [packetByte_startByte here, if_pos rfl]
  have byte₂ : s₁.packetByte t t = (s₂, [], false) := by
    rw [packetByte_packetTye rfl, if_neg notPing, if_pos rfl]
  have byte₃ : s₂.packetByte t (len.extractLsb' 0 8) = (s₃, [], false) := by
    rw [packetByte_length rfl, if_neg (by rw [cnt₂]; decide)]
  have byte₄ : s₃.packetByte t (len.extractLsb' 8 8) = (s₄, [], false) := by
    rw [packetByte_length rfl, if_pos (by rw [cnt₃])]
  have byte₅ : s₄.packetByte t (crc.extractLsb' 0 8) = (s₅, [], false) := by
    rw [packetByte_crc crc₄, if_neg (by rw [cnt₄]; decide)]
  have byte₆ : s₅.packetByte t (crc.extractLsb' 8 8) = (s₆, [], false) := by
    rw [packetByte_crc crc₅, if_pos (by rw [cnt₅])]
  have calls : headerCalls t len crc = [(t, kFramingPacketStartByte), (t, t),
    (t, len.extractLsb' 0 8), (t, len.extractLsb' 8 8), (t, crc.extractLsb' 0 8),
    (t, crc.extractLsb' 8 8)] := rfl
  have through : run feed s (headerCalls t len crc) = s₆ := by
    simp only [calls, run_cons, run_nil, Parser.feed, byte₁, byte₂, byte₃, byte₄, byte₅, byte₆]
  refine ⟨?_, ?_, ?_, ?_⟩
  · simp only [calls, outputs_cons, outputs_nil, Parser.feed, byte₁, byte₂, byte₃, byte₄, byte₅,
      byte₆, received_of_incomplete]
    rfl
  · rw [through]
  · rw [through]
  · rw [through]
    simp only [s₆, s₅, s₄, Parser.store, clampLength_readPacket, clampLength_stateCnt]
    rfl

end Header

/-- What the calls over one packet should answer. -/
def expected (payload : List (BitVec 8)) : List (Status × Option (List (BitVec 8))) :=
  List.replicate (payload.length + 5) nothing ++ [(.success, some payload)]

theorem length_encodePacket (t : BitVec 8) (payload : List (BitVec 8)) :
    (encodePacket t payload).length = payload.length + 6 := by
  simp only [encodePacket, halfBytes, List.length_append, List.length_cons, List.length_nil]
  omega

/-- The check sum of a packet's header and payload. -/
def packetCrc (t : BitVec 8) (payload : List (BitVec 8)) : BitVec 16 :=
  crc16Update (crc16Update 0
    ([kFramingPacketStartByte, t] ++ halfBytes (BitVec.ofNat 16 payload.length))) payload

theorem encodePacket_eq (t : BitVec 8) (payload : List (BitVec 8)) :
    (encodePacket t payload).map (t, ·) =
      headerCalls t (BitVec.ofNat 16 payload.length) (packetCrc t payload) ++ payload.map (t, ·) :=
  List.map_append

/-- The buffer into which a packet has been read passes the check. -/
theorem judge_encodePacket (p : SerialPacket) (t : BitVec 8) {payload : List (BitVec 8)}
    (fits : payload.length < 2 ^ 16) :
    judge { headed p t (BitVec.ofNat 16 payload.length) (packetCrc t payload) with
        payload := fill p.payload 0 payload } = (.success, some payload) := by
  generalize isQ : ({ headed p t (BitVec.ofNat 16 payload.length) (packetCrc t payload) with
        payload := fill p.payload 0 payload } : SerialPacket) = q
  have length : q.length = payload.length := by
    rw [← isQ, SerialPacket.length, headed, half_putHalf, BitVec.toNat_ofNat,
      Nat.mod_eq_of_lt fits]
  have data : q.data payload.length = payload := by
    have filled := map_fill p.payload 0 payload
    simp only [Nat.zero_add] at filled
    rw [← isQ, SerialPacket.data, filled]
  have header : q.header =
      [kFramingPacketStartByte, t] ++ halfBytes (BitVec.ofNat 16 payload.length) := by
    rw [← isQ]
    rfl
  have sum : half q.crc16 = packetCrc t payload := by rw [← isQ, headed, half_putHalf]
  have agrees : calculateCrc q = half q.crc16 := by
    rw [sum, packetCrc, calculateCrc, header, length, data]
  rw [judge, if_pos agrees, length, data]

/-- **A packet is received as it was sent**, and leaves the parser ready for the next. -/
theorem outputs_encodePacket {s : Parser} (idle : s.packetState = kPacketStateStartByte)
    {t : BitVec 8} (notPing : t ≠ kFramingPacketTypePing) {payload : List (BitVec 8)}
    (nonempty : payload ≠ []) (fits : payload.length < 2 ^ 16) :
    outputs feed received s ((encodePacket t payload).map (t, ·)) = expected payload ∧
      (run feed s ((encodePacket t payload).map (t, ·))).packetState = kPacketStateStartByte := by
  obtain ⟨outs, state, cnt, buffer⟩ := outputs_header
    (BitVec.ofNat 16 payload.length) (packetCrc t payload) idle notPing
  generalize isHeader :
    headerCalls t (BitVec.ofNat 16 payload.length) (packetCrc t payload) = header at *
  have declared : (run feed s header).readPacket.length = payload.length := by
    rw [buffer, SerialPacket.length, headed, half_putHalf, BitVec.toNat_ofNat,
      Nat.mod_eq_of_lt fits]
  obtain ⟨outs', idle'⟩ := outputs_payload t state nonempty (by rw [cnt, declared, Nat.zero_add])
  have untouched : (headed s.readPacket t (BitVec.ofNat 16 payload.length)
      (packetCrc t payload)).payload = s.readPacket.payload := rfl
  have some_ : 1 ≤ payload.length := List.length_pos_of_ne_nil nonempty
  rw [encodePacket_eq, isHeader, outputs_append, run_append]
  refine ⟨?_, idle'⟩
  rw [outs, outs', cnt, buffer, untouched, judge_encodePacket _ _ fits, ← List.append_assoc,
    List.replicate_append_replicate, expected]
  congr 2
  omega

/-- A packet without a payload is not complete with its check sum. -/
theorem outputs_encodePacket_nil {s : Parser} (idle : s.packetState = kPacketStateStartByte)
    {t : BitVec 8} (notPing : t ≠ kFramingPacketTypePing) :
    outputs feed received s ((encodePacket t []).map (t, ·)) = List.replicate 6 nothing :=
  (outputs_header _ _ idle notPing).1

/-! ## States without an arm -/

/-- `s_packetState` is one of the five `kPacketState` values. -/
def Known (s : Parser) : Prop :=
  s.packetState ∈ [kPacketStateStartByte, kPacketStatePacketTye, kPacketStateLength,
    kPacketStateCRC, kPacketStatePayload]

instance (s : Parser) : Decidable s.Known := inferInstanceAs (Decidable (_ ∈ _))

/-- The byte is not a type byte that is neither the ping's nor the one expected. -/
def TypeExpected (s : Parser) (i : BitVec 8 × BitVec 8) : Prop :=
  s.packetState = kPacketStatePacketTye → i.2 = kFramingPacketTypePing ∨ i.2 = i.1

instance (s : Parser) (i : BitVec 8 × BitVec 8) : Decidable (s.TypeExpected i) :=
  inferInstanceAs (Decidable (_ → _))

theorem known_of_eq {s : Parser} (state : ℕ) (here : s.packetState = state)
    (isKnown : state ≤ kPacketStatePayload) : s.Known := by
  have le : s.packetState ≤ 4 := le_of_eq_of_le here isKnown
  unfold Known
  interval_cases s.packetState <;> decide

theorem not_known_of_lt {s : Parser} (lost : kPacketStatePayload < s.packetState) : ¬ s.Known := by
  have bound : ∀ state ∈ [kPacketStateStartByte, kPacketStatePacketTye, kPacketStateLength,
      kPacketStateCRC, kPacketStatePayload], state ≤ kPacketStatePayload := by decide
  exact fun known => absurd lost (not_lt_of_ge (bound _ known))

/-- From a known state the machine leaves the known states by an unexpected type byte
and in no other way. -/
theorem known_feed_iff {s : Parser} (known : s.Known) (i : BitVec 8 × BitVec 8) :
    (s.feed i).Known ↔ s.TypeExpected i := by
  have elsewhere : s.packetState ≠ kPacketStatePacketTye → s.TypeExpected i :=
    fun other here => absurd here other
  unfold Parser.feed
  rcases s.packetState_cases with here | here | here | here | here | lost
  · refine iff_of_true ?_ (elsewhere (by rw [here]; decide))
    rw [packetByte_startByte here]
    split_ifs
    · exact known_of_eq kPacketStatePacketTye rfl (by decide)
    · exact known
  · rw [packetByte_packetTye here]
    split_ifs with ping expected
    · exact iff_of_true (known_of_eq kPacketStateStartByte rfl (by decide)) fun _ => Or.inl ping
    · exact iff_of_true (known_of_eq kPacketStateLength rfl (by decide)) fun _ => Or.inr expected
    · refine iff_of_false ?_ fun typeExpected => (typeExpected here).elim ping expected
      exact not_known_of_lt (by decide : kPacketStatePayload < kFramingPacketStartByte.toNat)
  · refine iff_of_true ?_ (elsewhere (by rw [here]; decide))
    rw [packetByte_length here]
    split_ifs
    · exact known_of_eq kPacketStateCRC (clampLength_packetState _) (by decide)
    · exact known_of_eq kPacketStateLength here (by decide)
  · refine iff_of_true ?_ (elsewhere (by rw [here]; decide))
    rw [packetByte_crc here]
    split_ifs
    · exact known_of_eq kPacketStatePayload rfl (by decide)
    · exact known_of_eq kPacketStateCRC here (by decide)
  · refine iff_of_true ?_ (elsewhere (by rw [here]; decide))
    rw [packetByte_payload here]
    split_ifs
    · exact known_of_eq kPacketStateStartByte rfl (by decide)
    · exact known_of_eq kPacketStatePayload here (by decide)
  · exact absurd known (not_known_of_lt lost)

/-- A machine in a state without an arm answers nothing and stays there. -/
theorem outputs_of_lost {s : Parser} (lost : kPacketStatePayload < s.packetState)
    (us : List (BitVec 8 × BitVec 8)) :
    outputs feed received s us = List.replicate us.length nothing ∧ run feed s us = s := by
  induction us with
  | nil => exact ⟨rfl, rfl⟩
  | cons i us ih =>
      have byte : s.packetByte i.1 i.2 = (s, [], false) := packetByte_other lost
      have still : s.feed i = s := by rw [Parser.feed, byte]
      refine ⟨?_, ?_⟩
      · rw [outputs_cons, still, ih.1, received_of_incomplete (by rw [byte]), List.length_cons,
          List.replicate_succ]
      · rw [run_cons, still, ih.2]

end Parser

/-! ## Noise -/

/-- What may come between two packets: a byte, or a start byte and a type. -/
inductive Noise
  | byte (b : BitVec 8)
  | pair (t : BitVec 8)

namespace Noise

/-- The bytes received. -/
def bytes : Noise → List (BitVec 8)
  | byte b => [b]
  | pair t => [kFramingPacketStartByte, t]

/-- A byte is not a start byte, and a pair does not start a packet or a ping. -/
def Valid (packetType : BitVec 8) : Noise → Prop
  | byte b => b ≠ kFramingPacketStartByte
  | pair t => t ≠ packetType ∧ t ≠ kFramingPacketTypePing

instance (packetType : BitVec 8) : ∀ n : Noise, Decidable (n.Valid packetType)
  | byte _ => inferInstanceAs (Decidable (_ ≠ _))
  | pair _ => inferInstanceAs (Decidable (_ ∧ _))

def IsPair : Noise → Prop
  | byte _ => False
  | pair _ => True

end Noise

namespace Parser

variable {t : BitVec 8}

/-- Single bytes of noise leave the parser where it is. -/
theorem run_noise {s : Parser} (idle : s.packetState = kPacketStateStartByte) {noise : List Noise}
    (valid : ∀ n ∈ noise, n.Valid t) (single : ∀ n ∈ noise, ¬ n.IsPair) :
    run feed s ((noise.flatMap Noise.bytes).map (t, ·)) = s := by
  induction noise with
  | nil => rfl
  | cons n noise ih =>
      rw [List.forall_mem_cons] at valid single
      cases n with
      | pair _ => exact absurd trivial single.1
      | byte b =>
          have byte : s.feed (t, b) = s := by
            rw [Parser.feed, packetByte_startByte idle, if_neg valid.1]
          rw [List.flatMap_cons, Noise.bytes, List.singleton_append, List.map_cons, run_cons, byte]
          exact ih valid.2 single.2

/-- A start byte with a foreign type takes the parser out of the switch. -/
theorem lost_of_pair {s : Parser} (idle : s.packetState = kPacketStateStartByte)
    {noise : List Noise} (valid : ∀ n ∈ noise, n.Valid t) (pair : ∃ n ∈ noise, n.IsPair) :
    kPacketStatePayload <
      (run feed s ((noise.flatMap Noise.bytes).map (t, ·))).packetState := by
  induction noise with
  | nil => exact absurd pair (by simp)
  | cons n noise ih =>
      rw [List.forall_mem_cons] at valid
      cases n with
      | byte b =>
          have byte : s.feed (t, b) = s := by
            rw [Parser.feed, packetByte_startByte idle, if_neg valid.1]
          have later : ∃ n ∈ noise, n.IsPair := by
            obtain ⟨n, mem, isPair⟩ := pair
            rcases List.mem_cons.mp mem with rfl | mem
            · exact isPair.elim
            · exact ⟨n, mem, isPair⟩
          rw [List.flatMap_cons, Noise.bytes, List.singleton_append, List.map_cons, run_cons, byte]
          exact ih valid.2 later
      | pair t' =>
          have lost : kPacketStatePayload <
              ((s.feed (t, kFramingPacketStartByte)).feed (t, t')).packetState := by
            have first : s.feed (t, kFramingPacketStartByte) = { s with
                readPacket := { s.readPacket with startByte := kFramingPacketStartByte }
                packetState := kPacketStatePacketTye } := by
              rw [Parser.feed, packetByte_startByte idle, if_pos rfl]
            rw [first, Parser.feed, packetByte_packetTye rfl, if_neg valid.1.2, if_neg valid.1.1]
            exact (by decide : kPacketStatePayload < kFramingPacketStartByte.toNat)
          rw [List.flatMap_cons, Noise.bytes, List.map_append, run_append]
          exact lt_of_lt_of_eq lost (congrArg packetState (outputs_of_lost lost _).2).symm

end Parser

/-! ## The two laws, for `serial_packet_read` -/

namespace Serial

/-- What one call gives the bootloader: the status, and the packet if there is one. -/
def received (s : Serial) (i : BitVec 8 × BitVec 8) : Status × Option (List (BitVec 8)) :=
  let r := s.serialPacketRead i.1 i.2
  let p := r.1.parser.readPacket
  (r.2.2, if r.2.2 = .success then some (p.data p.length) else none)

theorem received_eq (s : Serial) (i : BitVec 8 × BitVec 8) :
    s.received i = s.parser.received i := by
  simp only [received, serialPacketRead_status, parser_serialPacketRead]
  rfl

theorem outputs_received (s : Serial) (us : List (BitVec 8 × BitVec 8)) :
    outputs feed received s us = outputs Parser.feed Parser.received s.parser us :=
  outputs_of_part parser_feed received_eq s us

/-- The state is one of the five `kPacketState` values. -/
def Known (s : Serial) : Prop := s.parser.Known

/-- The byte is not a type byte that is neither the ping's nor the one expected. -/
def TypeExpected (s : Serial) (i : BitVec 8 × BitVec 8) : Prop := s.parser.TypeExpected i

instance (s : Serial) : Decidable s.Known := inferInstanceAs (Decidable s.parser.Known)

theorem notPing (phase : Phase) : phase.packetType ≠ kFramingPacketTypePing := by
  cases phase <;> decide

/-- **The parser resynchronises exactly if no start byte is followed by a foreign type.**
Whatever is received and whatever types are expected, the state variable keeps to its
five values exactly while no byte read as a type is neither the ping's nor the one
expected; and noise before a packet leaves the packet to be accepted exactly if it
holds no such pair. -/
theorem resync_iff (inputs : List (BitVec 8 × BitVec 8)) (phase : Phase) {s : Serial}
    (idle : s.parser.packetState = kPacketStateStartByte) {noise : List Noise}
    (valid : ∀ n ∈ noise, n.Valid phase.packetType) {payload : List (BitVec 8)}
    (nonempty : 1 ≤ payload.length) (short : payload.length ≤ kPacketMaxPayloadSize) :
    (Throughout Known feed init inputs ↔ Guarded TypeExpected feed init inputs) ∧
      ((outputs feed received
            (run feed s ((noise.flatMap Noise.bytes).map (phase.packetType, ·)))
            ((encodePacket phase.packetType payload).map (phase.packetType, ·))).getLast? =
          some (.success, some payload) ↔
        ∀ n ∈ noise, ¬ n.IsPair) := by
  constructor
  · rw [throughout_iff_guarded (I := fun _ => True) (P := Known) (C := TypeExpected)
      (fun _ _ _ => trivial) ?_ trivial inputs]
    · exact and_iff_right (by decide)
    · intro s i _ known
      unfold Known at known ⊢
      rw [parser_feed]
      exact Parser.known_feed_iff known i
  · rw [outputs_received, run_part parser_feed]
    have fits : payload.length < 2 ^ 16 := lt_of_le_of_lt short (by decide)
    have some_ : payload ≠ [] := List.ne_nil_of_length_pos nonempty
    constructor
    · intro accepted
      by_contra pairs
      push Not at pairs
      have lost := Parser.lost_of_pair idle valid pairs
      rw [(Parser.outputs_of_lost lost _).1, List.getLast?_replicate] at accepted
      split_ifs at accepted
      exact absurd (Option.some.inj accepted) (by simp [Parser.nothing])
    · intro single
      rw [Parser.run_noise idle valid single,
        (Parser.outputs_encodePacket idle (notPing phase) some_ fits).1, Parser.expected,
        List.getLast?_concat]

/-- After one byte of noise a packet of one byte is accepted. -/
theorem resync_after_byte :
    (Throughout Known feed init [] ↔ Guarded TypeExpected feed init []) ∧
      ((outputs feed received
            (run feed init (([Noise.byte 0].flatMap Noise.bytes).map (Phase.command.packetType, ·)))
            ((encodePacket Phase.command.packetType [0]).map
              (Phase.command.packetType, ·))).getLast? =
          some (.success, some [0]) ↔
        ∀ n ∈ [Noise.byte 0], ¬ n.IsPair) :=
  resync_iff [] .command rfl
    (by decide) (by decide) (by decide)

/-- The start byte and the type of a data packet, while a command is expected: the
parser is lost, and the packet that follows with it. -/
theorem not_resync_after_pair :
    ¬ Throughout Known feed init
        ([kFramingPacketStartByte, kFramingPacketTypeData].map (kFramingPacketTypeCommand, ·)) ∧
      (outputs feed received
          (run feed init (([Noise.pair kFramingPacketTypeData].flatMap Noise.bytes).map
            (kFramingPacketTypeCommand, ·)))
          ((encodePacket kFramingPacketTypeCommand [0]).map
            (kFramingPacketTypeCommand, ·))).getLast? ≠
        some (.success, some [0]) :=
  ⟨fun known => absurd known.last (by decide), by decide +kernel⟩

/-- **Streams of packets are received as sent exactly if no packet is empty.**  Packets of
the type expected, with at most 32 bytes of payload, one after another: each call over a
packet but its last answers nothing, and the last the packet's payload. -/
theorem round_trip_iff (phase : Phase) {s : Serial}
    (idle : s.parser.packetState = kPacketStateStartByte) {packets : List (List (BitVec 8))}
    (short : ∀ payload ∈ packets, payload.length ≤ kPacketMaxPayloadSize) :
    outputs feed received s
        ((packets.flatMap (encodePacket phase.packetType)).map (phase.packetType, ·)) =
        packets.flatMap Parser.expected ↔
      ∀ payload ∈ packets, payload ≠ [] := by
  rw [outputs_received, List.map_flatMap]
  refine outputs_flatMap_iff (I := fun s : Parser => s.packetState = kPacketStateStartByte)
    ?_ ?_ ?_ idle
  · intro payload _
    rw [List.length_map, Parser.length_encodePacket, Parser.expected, List.length_append,
      List.length_replicate, List.length_singleton]
  · intro s payload mem idle nonempty
    exact Parser.outputs_encodePacket idle (notPing phase) nonempty
      (lt_of_le_of_lt (short payload mem) (by decide))
  · intro s payload _ idle isNil same
    obtain rfl : payload = [] := not_ne_iff.mp isNil
    rw [Parser.outputs_encodePacket_nil idle (notPing phase)] at same
    exact absurd same (by decide)

/-- Two packets, of one byte and of two. -/
theorem round_trip_two :
    outputs feed received init
        (([[1], [2, 3]].flatMap (encodePacket Phase.command.packetType)).map
          (Phase.command.packetType, ·)) =
        [[1], [2, 3]].flatMap Parser.expected ↔
      ∀ payload ∈ ([[1], [2, 3]] : List (List (BitVec 8))), payload ≠ [] :=
  round_trip_iff .command rfl (by decide)

/-- The parser takes a seventh byte for an empty packet, and misses the next. -/
theorem not_round_trip_empty :
    outputs feed received init
        ((([[], [1]] : List (List (BitVec 8))).flatMap (encodePacket kFramingPacketTypeCommand)).map
          (kFramingPacketTypeCommand, ·)) ≠
      [[], [1]].flatMap Parser.expected := by
  decide +kernel

end Serial

end CannonCar.Kboot
