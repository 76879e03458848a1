import CannonCar.Imu.Receiver

/-!
# The frames the receiver accepts

A frame is 0x88, 0xAF, a length from 28 to 64, as many payload bytes, and the sum of all
these.  `FrameAt` says that the bytes received end in one.

What the receiver takes for a frame falls short of that in three ways: it passes over
anything between 0x88 and 0xAF, it takes lengths below 28 and then decodes what earlier
frames have left in `rev_buf`, and its check sum stops at the first 27 bytes of the
payload.  `frameAt_iff` puts them together: what it publishes comes from a frame exactly
when none of the three has happened.

## What is load-bearing

**Publishing is accepting.**  `data` changes exactly where the receiver accepts a check sum
(`Accepts`), so the property is about the bytes at these points.  `Publishes` takes in what
has been received before, since a frame's first two bytes are far behind its last.

**The three ways are told from the bytes alone.**  `HeaderAdjacent` says that 0x88 stands right
before 0xAF, `WellFormed` bounds the length, and `unchecked` is the part of the payload that the
check sum of the receiver leaves out, which has to add up to zero.
-/

namespace CannonCar

open Trajectory

/-- The bytes received end in a frame of `len` payload bytes, of which `fcs` is the check
sum and `published` the decoded payload. -/
def FrameAt (bytes : List (BitVec 8)) (fcs : BitVec 8) (len : ℕ) (published : ImuData) : Prop :=
  ∃ front payload, bytes = front ++ 0x88 :: 0xAF :: BitVec.ofNat 8 len :: payload ∧
    payload.length = len ∧ 28 ≤ len ∧ len ≤ 64 ∧
    fcs = 0x88 + 0xAF + BitVec.ofNat 8 len + payload.sum ∧
    published = imuRevPhaseData fun i => payload.getD i 0

/-- The header bytes of the frame of `len` bytes that the bytes received end in are
adjacent. -/
def HeaderAdjacent (bytes : List (BitVec 8)) (len : ℕ) : Prop :=
  bytes.reverse[len + 2]? = some 0x88

namespace ImuRev

/-- The payload bytes behind the check sum. -/
def unchecked (s : ImuRev) : List (BitVec 8) := (List.range' 27 (s.len - 27)).map s.revBuf

/-- None of the three shortcomings shows in what is about to be published. -/
structure WellFormed (bytes : List (BitVec 8)) (s : ImuRev) : Prop where
  adjacent : HeaderAdjacent bytes s.len
  long : 28 ≤ s.len
  covered : s.unchecked.sum = 0

/-- The next byte is a check sum the receiver accepts, and what it decodes is new. -/
structure Accepts (s : ImuRev) (ch : BitVec 8) : Prop where
  status : s.status = .fcs
  checked : imuFcs s.len s.revBuf = ch
  new : imuRevPhaseData s.revBuf ≠ s.data

instance (bytes : List (BitVec 8)) (len : ℕ) : Decidable (HeaderAdjacent bytes len) :=
  inferInstanceAs (Decidable (_ = _))

instance (bytes : List (BitVec 8)) (s : ImuRev) : Decidable (WellFormed bytes s) :=
  decidable_of_iff (HeaderAdjacent bytes s.len ∧ 28 ≤ s.len ∧ s.unchecked.sum = 0)
    ⟨fun h => ⟨h.1, h.2.1, h.2.2⟩, fun h => ⟨h.1, h.2, h.3⟩⟩

instance (s : ImuRev) (ch : BitVec 8) : Decidable (s.Accepts ch) :=
  decidable_of_iff (s.status = .fcs ∧ imuFcs s.len s.revBuf = ch ∧
      imuRevPhaseData s.revBuf ≠ s.data)
    ⟨fun h => ⟨h.1, h.2.1, h.2.2⟩, fun h => ⟨h.1, h.2, h.3⟩⟩

/-- `data` changes exactly at a check sum that is accepted over new contents. -/
theorem data_ne_iff {s : ImuRev} {ch : BitVec 8} :
    (s.imuRevProcess ch).data ≠ s.data ↔ s.Accepts ch := by
  by_cases fcs : s.status = .fcs
  · rw [imuRevProcess_fcs ch fcs]
    by_cases checked : imuFcs s.len s.revBuf = ch
    · simp only [if_pos checked]
      exact ⟨fun new => ⟨fcs, checked, new⟩, Accepts.new⟩
    · simp only [if_neg checked]
      exact ⟨fun new => absurd rfl new, fun accepts => absurd accepts.checked checked⟩
  · rw [data_imuRevProcess ch fcs]
    exact ⟨fun new => absurd rfl new, fun accepts => absurd accepts.status fcs⟩

theorem Accepts.data {s : ImuRev} {ch : BitVec 8} (accepts : s.Accepts ch) :
    (s.imuRevProcess ch).data = imuRevPhaseData s.revBuf := by
  rw [imuRevProcess_fcs ch accepts.status]
  exact if_pos accepts.checked

/-! ## The check sum -/

theorem foldl_add_sum (f : ℕ → BitVec 8) (fcs : BitVec 8) (is : List ℕ) :
    is.foldl (fun fcs i => fcs + f i) fcs = fcs + (is.map f).sum := by
  induction is generalizing fcs with
  | nil => exact (add_zero fcs).symm
  | cons i is ih => rw [List.foldl_cons, ih, List.map_cons, List.sum_cons, add_assoc]

/-- Of a payload of at least 27 bytes, the receiver's check sum lacks the rest. -/
theorem imuFcs_add_unchecked (s : ImuRev) (long : 27 ≤ s.len) :
    imuFcs s.len s.revBuf + s.unchecked.sum =
      0x88 + 0xAF + BitVec.ofNat 8 s.len + ((List.range s.len).map s.revBuf).sum := by
  have split : List.range s.len = List.range 27 ++ List.range' 27 (s.len - 27) := by
    rw [List.range_eq_range', List.range_eq_range', List.range'_append_1,
      Nat.add_sub_cancel' long]
  rw [imuFcs, foldl_add_sum, unchecked, split, List.map_append, List.sum_append, add_assoc]

/-! ## What is published -/

/-- Where the header of the frame received would be. -/
theorem headerAdjacent_iff {front payload : List (BitVec 8)} {len : BitVec 8} :
    HeaderAdjacent (front ++ [0xAF] ++ len :: payload) payload.length ↔
      ∃ front', front = front' ++ [0x88] := by
  have position : (front ++ [0xAF] ++ len :: payload).reverse[payload.length + 2]? =
      front.reverse[0]? := by
    simp [List.getElem?_append_right]
  rw [HeaderAdjacent, position]
  constructor
  · intro last
    cases front using List.reverseRecOn with
    | nil => exact absurd last (by decide)
    | append_singleton front b =>
        rw [List.reverse_append, List.reverse_singleton, List.singleton_append,
          List.getElem?_cons_zero, Option.some_inj] at last
        exact ⟨front, by rw [last]⟩
  · rintro ⟨front', rfl⟩
    rw [List.reverse_append, List.reverse_singleton, List.singleton_append,
      List.getElem?_cons_zero]

/-- The decoder reads 28 bytes. -/
theorem imuRevPhaseData_congr {f g : ℕ → BitVec 8} (same : ∀ i < 28, f i = g i) :
    imuRevPhaseData f = imuRevPhaseData g := by
  unfold imuRevPhaseData
  rw [same 0, same 1, same 2, same 3, same 4, same 5, same 6, same 7, same 8, same 9, same 10,
    same 11, same 12, same 13, same 14, same 15, same 16, same 17, same 18, same 19, same 20,
    same 21, same 22, same 23, same 24, same 25, same 26, same 27] <;> decide

/-- What is published comes from the frame received exactly when none of the three
shortcomings shows. -/
theorem frameAt_iff {bytes : List (BitVec 8)} {s : ImuRev} {ch : BitVec 8}
    (reading : Reading bytes s) (complete : s.i = s.len) (accepts : s.Accepts ch) :
    FrameAt bytes ch s.len (imuRevPhaseData s.revBuf) ↔ WellFormed bytes s := by
  obtain ⟨front, -, split⟩ := reading.framed
  have payload : s.payload = (List.range s.len).map s.revBuf := by rw [ImuRev.payload, complete]
  have length : s.payload.length = s.len := by rw [payload, List.length_map, List.length_range]
  have adjacent : HeaderAdjacent bytes s.len ↔ ∃ front', front = front' ++ [0x88] := by
    rw [← length, split]
    exact headerAdjacent_iff
  have summed : 27 ≤ s.len → ch + s.unchecked.sum =
      0x88 + 0xAF + BitVec.ofNat 8 s.len + s.payload.sum := by
    intro long
    rw [payload, ← imuFcs_add_unchecked s long, accepts.checked]
  constructor
  · rintro ⟨front', payload', ended, length', long, -, sum, -⟩
    have sides : (front ++ [0xAF, BitVec.ofNat 8 s.len]) ++ s.payload =
        (front' ++ [0x88] ++ [0xAF, BitVec.ofNat 8 s.len]) ++ payload' := by
      simpa only [List.append_assoc, List.cons_append, List.nil_append] using split.symm.trans ended
    obtain ⟨header, same⟩ := List.append_inj' sides (length.trans length'.symm)
    refine ⟨adjacent.mpr ⟨front', List.append_cancel_right header⟩, long, ?_⟩
    rw [← same, ← summed (Nat.le_of_succ_le long)] at sum
    exact left_eq_add.mp sum
  · rintro ⟨header, long, covered⟩
    obtain ⟨front', rfl⟩ := adjacent.mp header
    refine ⟨front', s.payload, ?_, length, long, reading.len_le, ?_, ?_⟩
    · rw [split]
      simp only [List.append_assoc, List.cons_append, List.nil_append]
    · rw [← summed (Nat.le_of_succ_le long), covered, add_zero]
    · apply imuRevPhaseData_congr
      intro i before
      have stored : i < s.payload.length := by
        rw [length]
        exact lt_of_lt_of_le before long
      rw [List.getD_eq_getElem _ _ stored]
      simp only [ImuRev.payload, List.getElem_map, List.getElem_range]

/-- The byte `ch` after `bytes` changes `data`. -/
def Publishes (bytes : List (BitVec 8)) (ch : BitVec 8) : Prop :=
  (after (bytes ++ [ch])).data ≠ (after bytes).data

/-- Where a check sum is accepted over new contents, none of the three shortcomings
shows. -/
def Sound (bytes : List (BitVec 8)) (ch : BitVec 8) : Prop :=
  (after bytes).Accepts ch → WellFormed bytes (after bytes)

theorem publishes_iff {bytes : List (BitVec 8)} {ch : BitVec 8} :
    Publishes bytes ch ↔ (after bytes).Accepts ch := by
  rw [Publishes, after_concat, data_ne_iff]

/-- One byte publishes from the receiver's own frame exactly when it is sound. -/
theorem sound_iff {bytes : List (BitVec 8)} {ch : BitVec 8} :
    Sound bytes ch ↔ (Publishes bytes ch →
      FrameAt bytes ch (after bytes).len (after (bytes ++ [ch])).data) := by
  rw [publishes_iff, Sound, after_concat]
  apply forall_congr'
  intro accepts
  obtain ⟨reading, complete⟩ := (ok_after bytes).complete accepts.status
  rw [accepts.data, frameAt_iff reading complete accepts]

/-- **What is published comes from a frame.**  On a stream all of whose accepted check
sums are sound, `data` changes only where the bytes received end in a frame, and to what
that frame's payload decodes to; and for the frame the receiver has read, only on such
streams. -/
theorem published_frames (stream : List (BitVec 8)) :
    ((∀ pre ch post, stream = pre ++ ch :: post → Sound pre ch) →
        ∀ pre ch post, stream = pre ++ ch :: post → Publishes pre ch →
          ∃ len, FrameAt pre ch len (after (pre ++ [ch])).data) ∧
      ((∀ pre ch post, stream = pre ++ ch :: post → Sound pre ch) ↔
        ∀ pre ch post, stream = pre ++ ch :: post → Publishes pre ch →
          FrameAt pre ch (after pre).len (after (pre ++ [ch])).data) := by
  refine ⟨fun sound pre ch post split publishes => ?_, fun sound pre ch post split => ?_,
    fun own pre ch post split => ?_⟩
  · exact ⟨_, sound_iff.mp (sound pre ch post split) publishes⟩
  · exact sound_iff.mp (sound pre ch post split)
  · exact sound_iff.mpr (own pre ch post split)

/-- The places of a list, one after the other. -/
theorem forall_split_of_forall_take {α : Type*} {P : List α → α → Prop} {xs : List α}
    (each : ∀ n : Fin xs.length, P (xs.take n) xs[n]) (pre : List α) (x : α) (post : List α)
    (split : xs = pre ++ x :: post) : P pre x := by
  subst split
  have here := each ⟨pre.length, by simp⟩
  simpa using here

/-- A frame of 28 payload bytes. -/
def plainFrame : List (BitVec 8) :=
  [0x88, 0xAF, 0x1C, 0x01] ++ List.replicate 27 0x00 ++ [0x54]

/-- Its check sum publishes the frame. -/
theorem published_frames_plain :
    ∃ len, FrameAt (plainFrame.take 31) 0x54 len (after plainFrame).data :=
  (published_frames plainFrame).1
    (forall_split_of_forall_take (by unfold Sound; decide +kernel)) (plainFrame.take 31) 0x54 []
    (by decide) (by unfold Publishes; decide +kernel)

/-- A byte between the two header bytes, then a payload with the sum 1. -/
def interrupted : List (BitVec 8) := [0x88, 0x00, 0xAF, 0x1C, 0x01] ++ List.replicate 27 0x00

/-- It is accepted, and no frame is there. -/
theorem not_published_frames :
    ¬ ∀ bytes ch, Publishes bytes ch →
      ∃ len, FrameAt bytes ch len (after (bytes ++ [ch])).data := by
  intro always
  have publishes : Publishes interrupted 0x54 := by
    unfold Publishes
    decide +kernel
  obtain ⟨len, front, payload, split, -⟩ := always interrupted 0x54 publishes
  have infix_ : [0x88, 0xAF] <:+: interrupted := by
    refine ⟨front, BitVec.ofNat 8 len :: payload, ?_⟩
    rw [split, List.append_assoc]
    rfl
  revert infix_
  decide +kernel

end ImuRev

end CannonCar
