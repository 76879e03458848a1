import CannonCar.Foundation.Trajectory

/-!
# The frame receiver of the inertial unit

`imu_rev_process` is called with every byte received.  It looks for the header bytes
0x88 and 0xAF, takes the next byte for a length, stores as many payload bytes in
`rev_buf`, and on a matching check sum decodes them into `data`.

What the statics mean in terms of the bytes received is `Ok`: while a payload is read,
the bytes end in 0xAF, the length, and what `rev_buf` holds up to `i`.  Nothing is said
of the byte before 0xAF, since `STATUS_SOF` passes over anything until 0xAF comes, and
nothing of a length of zero, for which the test `i == len` after the first store is
already too late.

Plain `char` is unsigned on the target.

## What is load-bearing

**The index is tested after the store.**  The byte is stored at `i`, `i` goes up, and only then is
it compared with the length, for equality.  With a length above zero this is right, and the
length is bounded by the size of the array; with a length of zero the comparison fails until
the index has gone round.

**What happens behind the array.**  `revBuf` is a function of the index and has no end, so a store
outside of it changes nothing else here.  `StoresInside` is where the model stops being the
code, and `storesInside_iff` says on which streams it is not left.

**Stores are a matter of the state before the byte**, so the property is asked of every prefix of
the stream.
-/

namespace CannonCar

open Trajectory

/-! ## The source -/

/-- `enum input_status`. -/
inductive InputStatus
  | idle
  | sof
  | len
  | data
  | fcs
  deriving DecidableEq

/-- `imu_data`. -/
structure ImuData where
  accl : Fin 3 → BitVec 16
  gyro : Fin 3 → BitVec 16
  mag : Fin 3 → BitVec 16
  yaw : BitVec 16
  pitch : BitVec 16
  roll : BitVec 16
  presure : BitVec 32
  deriving DecidableEq

/-- `(hi<<8) + lo` in `int`, stored in an `int16_t`. -/
def int16Of (hi lo : BitVec 8) : BitVec 16 :=
  (hi.setWidth 32 <<< 8 + lo.setWidth 32).setWidth 16

/-- `imu_rev_phase_data`. -/
def imuRevPhaseData (revBuf : ℕ → BitVec 8) : ImuData where
  accl := ![int16Of (revBuf 0) (revBuf 1), int16Of (revBuf 2) (revBuf 3),
    int16Of (revBuf 4) (revBuf 5)]
  gyro := ![int16Of (revBuf 6) (revBuf 7), int16Of (revBuf 8) (revBuf 9),
    int16Of (revBuf 10) (revBuf 11)]
  mag := ![int16Of (revBuf 12) (revBuf 13), int16Of (revBuf 14) (revBuf 15),
    int16Of (revBuf 16) (revBuf 17)]
  roll := int16Of (revBuf 18) (revBuf 19)
  pitch := int16Of (revBuf 20) (revBuf 21)
  yaw := int16Of (revBuf 22) (revBuf 23)
  presure := (revBuf 27).setWidth 32 <<< 24 + (revBuf 26).setWidth 32 <<< 16 +
    (revBuf 25).setWidth 32 <<< 8 + (revBuf 24).setWidth 32 <<< 0

/-- `sizeof(rev_buf)`. -/
def revBufSize : ℕ := 64

/-- The check sum `imu_rev_process` computes. -/
def imuFcs (len : ℕ) (revBuf : ℕ → BitVec 8) : BitVec 8 :=
  (List.range 27).foldl (fun fcs i => fcs + revBuf i) (0x88 + 0xAF + BitVec.ofNat 8 len)

/-- The statics of the file and of `imu_rev_process`, with a log of the indices at which
`rev_buf` has been written.  What is stored past the array goes to indices from 64 on,
which nothing reads. -/
structure ImuRev where
  len : ℕ
  i : ℕ
  status : InputStatus
  revBuf : ℕ → BitVec 8
  data : ImuData
  stores : List ℕ

namespace ImuRev

/-- The statics at power-up. -/
def start : ImuRev := ⟨0, 0, .idle, fun _ => 0, imuRevPhaseData fun _ => 0, []⟩

/-- `imu_rev_process`. -/
def imuRevProcess (s : ImuRev) (ch : BitVec 8) : ImuRev :=
  match s.status with
  | .idle => if ch = 0x88 then { s with status := .sof } else s
  | .sof => if ch = 0xAF then { s with status := .len } else s
  | .len =>
      { s with len := ch.toNat, i := 0,
               status := if ch.toNat > revBufSize then .idle else .data }
  | .data =>
      { s with revBuf := Function.update s.revBuf s.i ch, i := s.i + 1,
               stores := s.i :: s.stores,
               status := if s.i + 1 = s.len then .fcs else .data }
  | .fcs =>
      { s with i := 27, status := .idle,
               data := if imuFcs s.len s.revBuf = ch then imuRevPhaseData s.revBuf else s.data }

/-- The statics after the bytes received so far. -/
def after (bytes : List (BitVec 8)) : ImuRev := run imuRevProcess start bytes

theorem after_concat (bytes : List (BitVec 8)) (ch : BitVec 8) :
    after (bytes ++ [ch]) = (after bytes).imuRevProcess ch :=
  run_concat imuRevProcess start bytes ch

/-! ## One byte -/

section Byte

variable {s : ImuRev} (ch : BitVec 8)

theorem imuRevProcess_idle (idle : s.status = .idle) :
    s.imuRevProcess ch = if ch = 0x88 then { s with status := .sof } else s := by
  simp only [imuRevProcess, idle]

theorem imuRevProcess_sof (sof : s.status = .sof) :
    s.imuRevProcess ch = if ch = 0xAF then { s with status := .len } else s := by
  simp only [imuRevProcess, sof]

theorem imuRevProcess_len (len : s.status = .len) :
    s.imuRevProcess ch = { s with
      len := ch.toNat, i := 0, status := if ch.toNat > revBufSize then .idle else .data } := by
  simp only [imuRevProcess, len]

theorem imuRevProcess_data (data : s.status = .data) :
    s.imuRevProcess ch = { s with
      revBuf := Function.update s.revBuf s.i ch, i := s.i + 1, stores := s.i :: s.stores,
      status := if s.i + 1 = s.len then .fcs else .data } := by
  simp only [imuRevProcess, data]

theorem imuRevProcess_fcs (fcs : s.status = .fcs) :
    s.imuRevProcess ch = { s with
      i := 27, status := .idle,
      data := if imuFcs s.len s.revBuf = ch then imuRevPhaseData s.revBuf else s.data } := by
  simp only [imuRevProcess, fcs]

/-- Only a payload byte is stored. -/
theorem stores_imuRevProcess (other : s.status ≠ .data) :
    (s.imuRevProcess ch).stores = s.stores := by
  cases status : s.status with
  | idle =>
      rw [imuRevProcess_idle ch status]
      split_ifs <;> rfl
  | sof =>
      rw [imuRevProcess_sof ch status]
      split_ifs <;> rfl
  | len => rw [imuRevProcess_len ch status]
  | data => exact absurd status other
  | fcs => rw [imuRevProcess_fcs ch status]

/-- Only a check sum byte publishes. -/
theorem data_imuRevProcess (other : s.status ≠ .fcs) : (s.imuRevProcess ch).data = s.data := by
  cases status : s.status with
  | idle =>
      rw [imuRevProcess_idle ch status]
      split_ifs <;> rfl
  | sof =>
      rw [imuRevProcess_sof ch status]
      split_ifs <;> rfl
  | len => rw [imuRevProcess_len ch status]
  | data => rw [imuRevProcess_data ch status]
  | fcs => exact absurd status other

end Byte

/-! ## What the statics mean -/

/-- The payload read so far. -/
def payload (s : ImuRev) : List (BitVec 8) := (List.range s.i).map s.revBuf

/-- The bytes end in 0xAF, the length, and the payload read so far. -/
structure Reading (bytes : List (BitVec 8)) (s : ImuRev) : Prop where
  framed : ∃ front, (after (front ++ [0xAF])).status = .len ∧
    bytes = front ++ [0xAF] ++ BitVec.ofNat 8 s.len :: s.payload
  len_le : s.len ≤ revBufSize

/-- What the statics mean in terms of the bytes received. -/
structure Ok (bytes : List (BitVec 8)) (s : ImuRev) : Prop where
  header : s.status = .len → ∃ front, bytes = front ++ [0xAF]
  reading : s.status = .data → Reading bytes s ∧ (s.len = 0 ∨ s.i < s.len)
  complete : s.status = .fcs → Reading bytes s ∧ s.i = s.len

/-- A payload byte is the next element of the payload. -/
theorem payload_store (s : ImuRev) (ch : BitVec 8) (stores : List ℕ) (status : InputStatus) :
    payload { s with revBuf := Function.update s.revBuf s.i ch, i := s.i + 1,
                     stores := stores, status := status } = s.payload ++ [ch] := by
  have earlier : (List.range s.i).map (Function.update s.revBuf s.i ch) = s.payload := by
    apply List.map_congr_left
    intro j mem
    exact Function.update_of_ne (ne_of_lt (List.mem_range.mp mem)) _ _
  rw [payload, List.range_succ, List.map_append, earlier, List.map_singleton]
  show s.payload ++ [Function.update s.revBuf s.i ch s.i] = _
  rw [Function.update_self]

theorem Reading.store {bytes : List (BitVec 8)} {s : ImuRev} (reading : Reading bytes s)
    (ch : BitVec 8) (stores : List ℕ) (status : InputStatus) :
    Reading (bytes ++ [ch])
      { s with revBuf := Function.update s.revBuf s.i ch, i := s.i + 1,
               stores := stores, status := status } := by
  obtain ⟨front, header, split⟩ := reading.framed
  refine ⟨⟨front, header, ?_⟩, reading.len_le⟩
  rw [payload_store, split, List.append_assoc, List.cons_append]

theorem ok_after (bytes : List (BitVec 8)) : Ok bytes (after bytes) := by
  induction bytes using List.reverseRecOn with
  | nil => exact ⟨nofun, nofun, nofun⟩
  | append_singleton bytes ch ih =>
      rw [after_concat]
      cases status : (after bytes).status with
      | idle =>
          rw [imuRevProcess_idle ch status]
          split_ifs
          · exact ⟨nofun, nofun, nofun⟩
          · constructor <;> (rw [status]; exact nofun)
      | sof =>
          rw [imuRevProcess_sof ch status]
          split_ifs with second
          · exact ⟨fun _ => ⟨bytes, by rw [second]⟩, nofun, nofun⟩
          · constructor <;> (rw [status]; exact nofun)
      | len =>
          rw [imuRevProcess_len ch status]
          obtain ⟨front, split⟩ := ih.header status
          by_cases long : ch.toNat > revBufSize
          · rw [if_pos long]
            exact ⟨nofun, nofun, nofun⟩
          · rw [if_neg long]
            refine ⟨nofun, fun _ => ⟨⟨⟨front, split ▸ status, ?_⟩, not_lt.mp long⟩, ?_⟩, nofun⟩
            · rw [split, BitVec.ofNat_toNat, BitVec.setWidth_eq]
              rfl
            · exact Nat.eq_zero_or_pos _
      | data =>
          rw [imuRevProcess_data ch status]
          obtain ⟨reading, room⟩ := ih.reading status
          by_cases last : (after bytes).i + 1 = (after bytes).len
          · rw [if_pos last]
            exact ⟨nofun, nofun, fun _ => ⟨reading.store ch _ _, last⟩⟩
          · rw [if_neg last]
            refine ⟨nofun, fun _ => ⟨reading.store ch _ _, ?_⟩, nofun⟩
            exact room.imp_right fun before => lt_of_le_of_ne before last
      | fcs =>
          rw [imuRevProcess_fcs ch status]
          exact ⟨nofun, nofun, nofun⟩

/-! ## Where it stores -/

/-- No index stored to is past the array. -/
def StoresInside (s : ImuRev) : Prop := ∀ i ∈ s.stores, i < revBufSize

instance (s : ImuRev) : Decidable s.StoresInside :=
  inferInstanceAs (Decidable (∀ i ∈ s.stores, i < revBufSize))

/-- With the length zero no byte ends the payload any more. -/
theorem run_of_len_zero {s : ImuRev} (data : s.status = .data) (zero : s.len = 0)
    (bytes : List (BitVec 8)) :
    ∀ j < bytes.length, s.i + j ∈ (run imuRevProcess s bytes).stores := by
  suffices both : (∀ i ∈ s.stores, i ∈ (run imuRevProcess s bytes).stores) ∧
      ∀ j < bytes.length, s.i + j ∈ (run imuRevProcess s bytes).stores from both.2
  induction bytes generalizing s with
  | nil => exact ⟨fun _ mem => mem, nofun⟩
  | cons ch bytes ih =>
      have next := imuRevProcess_data ch data
      have endless : (s.imuRevProcess ch).status = .data := by
        rw [next]
        show (if s.i + 1 = s.len then InputStatus.fcs else .data) = .data
        rw [zero, if_neg (Nat.succ_ne_zero s.i)]
      obtain ⟨kept, later⟩ := ih endless (by rw [next]; exact zero)
      rw [next] at kept later
      rw [run_cons, next]
      refine ⟨fun i mem => kept i (List.mem_cons_of_mem _ mem), fun j before => ?_⟩
      cases j with
      | zero => exact kept s.i List.mem_cons_self
      | succ j =>
          have shift : s.i + (j + 1) = s.i + 1 + j := Nat.add_right_comm s.i j 1
          rw [shift]
          exact later j (Nat.lt_of_succ_lt_succ before)

/-- A step stores inside the array when what it may store to is inside. -/
theorem StoresInside.step {s : ImuRev} (inside : s.StoresInside) (ch : BitVec 8)
    (room : s.status = .data → s.i < revBufSize) : (s.imuRevProcess ch).StoresInside := by
  by_cases data : s.status = .data
  · rw [imuRevProcess_data ch data]
    exact List.forall_mem_cons.mpr ⟨room data, inside⟩
  · rw [StoresInside, stores_imuRevProcess ch data]
    exact inside

/-- **Stores past the array.**  The receiver stores inside `rev_buf` on exactly those
streams in which at most 64 bytes follow a zero received as the length. -/
theorem storesInside_iff (bytes : List (BitVec 8)) :
    (after bytes).StoresInside ↔
      ∀ pre post, bytes = pre ++ 0 :: post → (after pre).status = .len →
        post.length ≤ revBufSize := by
  constructor
  · rintro inside pre post rfl len
    by_contra long
    have opened : after (pre ++ [0]) = { after pre with len := 0, i := 0, status := .data } := by
      rw [after_concat, imuRevProcess_len 0 len]
      rfl
    have stored := run_of_len_zero (s := after (pre ++ [0])) (by rw [opened]) (by rw [opened])
      post revBufSize (not_le.mp long)
    rw [after, ← run_append, List.append_assoc, List.singleton_append] at stored
    have bound := inside _ stored
    exact absurd bound (not_lt_of_ge (Nat.le_add_left _ _))
  · intro short
    induction bytes using List.reverseRecOn with
    | nil => exact nofun
    | append_singleton bytes ch ih =>
        have shorter : (after bytes).StoresInside := by
          apply ih
          intro pre post split len
          have bound := short pre (post ++ [ch]) (by rw [split, List.append_assoc]; rfl) len
          rw [List.length_append] at bound
          exact le_trans (Nat.le_add_right _ _) bound
        rw [after_concat]
        refine shorter.step ch fun data => ?_
        obtain ⟨reading, room⟩ := (ok_after bytes).reading data
        rcases room with zero | before
        · obtain ⟨front, header, split⟩ := reading.framed
          rw [zero] at split
          have ended : bytes ++ [ch] = front ++ [0xAF] ++ 0 :: ((after bytes).payload ++ [ch]) :=
            (congrArg (· ++ [ch]) split).trans (List.append_assoc _ _ _)
          have bound := short _ _ ended header
          rwa [List.length_append, payload, List.length_map, List.length_range] at bound
        · exact lt_of_lt_of_le before reading.len_le

/-- A frame of length zero and 65 bytes more. -/
theorem not_storesInside :
    ¬ ∀ bytes, (after bytes).StoresInside := by
  intro always
  have stored := always (0x88 :: 0xAF :: 0x00 :: List.replicate 65 0x55)
  revert stored
  decide +kernel

end ImuRev

end CannonCar
