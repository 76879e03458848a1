import CannonCar.Foundation.Bitmap
import CannonCar.Foundation.Trajectory

/-!
# DMA channels

`DMA_ChlAlloc` and `DMA_ChlFree` of `drivers/K/src/dma.c`, which hand out the channels that
`DMA_Init` indexes `CHCFG` and `TCD` with.

A bit of `DMAChlMAP` is set as long as its channel is held (`Bitmap.Represents`), and the
lowest clear bit is handed out next.  The bound of the search is meant to be the number of
channels of the device and is the larger one of that number and 32: a device with 16
channels hands out channel 16 when they are all taken.

## What is load-bearing

**The map is global and the device is not.**  `Dmamux` has what differs between devices, the
number of `CHCFG` registers, and everything is proved for any number up to 32; the failing run
is on the MK60D10 and its 16.

**`Lawful` is the caller's part**: a channel is freed only while it is held.  Without it the
map would say that a channel is free which somebody uses, and no bound could help.

**The condition counts.**  `FewerOut` asks before each allocation that fewer channels are out
than the device has, which is a matter of the calls so far and not of the channels returned.
-/

namespace CannonCar

open Trajectory Bitmap

/-! ## The source -/

/-- The multiplexer of a device.  `DMAChlMAP` has a bit for each of its channels. -/
structure Dmamux where
  /-- `ARRAY_SIZE(DMAMUX_InstanceTable[0]->CHCFG)`. -/
  chcfg : ℕ
  chcfg_le : chcfg ≤ 32

/-- The multiplexer of the MK60D10. -/
def Dmamux.mk60d10 : Dmamux := ⟨16, by decide⟩

/-- `MaxDMAChl` of `DMA_ChlAlloc`. -/
def Dmamux.maxDmaChl (mux : Dmamux) : ℕ := if mux.chcfg > 32 then mux.chcfg else 32

/-- `DMA_ChlAlloc`: `DMAChlMAP` afterwards and the channel returned. -/
def Dmamux.dmaChlAlloc (mux : Dmamux) (map : BitVec 32) : BitVec 32 × ℕ :=
  match (List.range mux.maxDmaChl).find? fun i => map &&& 1#32 <<< i = 0 with
  | some i => (map ||| 1#32 <<< i, i)
  | none => (map, 0)

/-- `DMA_ChlFree`. -/
def dmaChlFree (chl : ℕ) (map : BitVec 32) : BitVec 32 := map &&& ~~~(1#32 <<< chl)

/-! ## The allocator -/

/-- A call of the allocator. -/
inductive DmaCall where
  | alloc
  | free (chl : ℕ)

/-- `DMAChlMAP`, with the channels that have been returned and not freed since. -/
structure DmaChannels where
  map : BitVec 32
  held : List ℕ

namespace DmaChannels

/-- Before the first call. -/
def boot : DmaChannels := ⟨0, []⟩

/-- One call. -/
def step (mux : Dmamux) (s : DmaChannels) : DmaCall → DmaChannels
  | .alloc => ⟨(mux.dmaChlAlloc s.map).1, (mux.dmaChlAlloc s.map).2 :: s.held⟩
  | .free chl => ⟨dmaChlFree chl s.map, s.held.erase chl⟩

/-- Only allocated channels are freed. -/
def Lawful (s : DmaChannels) : DmaCall → Prop
  | .alloc => True
  | .free chl => chl ∈ s.held

/-- The channel returned as newly allocated is not held already, and the device has it. -/
def Sound (mux : Dmamux) (s : DmaChannels) : DmaCall → Prop
  | .alloc => (mux.dmaChlAlloc s.map).2 ∉ s.held ∧ (mux.dmaChlAlloc s.map).2 < mux.chcfg
  | .free _ => True

instance (s : DmaChannels) : ∀ call, Decidable (s.Lawful call)
  | .alloc => isTrue trivial
  | .free chl => inferInstanceAs (Decidable (chl ∈ s.held))

instance (mux : Dmamux) (s : DmaChannels) : ∀ call, Decidable (s.Sound mux call)
  | .alloc => inferInstanceAs (Decidable (_ ∉ s.held ∧ _ < mux.chcfg))
  | .free _ => isTrue trivial

end DmaChannels

/-- The allocations less the releases. -/
def outstanding (n : ℕ) : DmaCall → ℕ
  | .alloc => n + 1
  | .free _ => n - 1

/-- An allocation is made only while fewer channels are out than the device has. -/
def FewerOut (mux : Dmamux) (n : ℕ) : DmaCall → Prop
  | .alloc => n < mux.chcfg
  | .free _ => True

/-! ## One call -/

namespace Dmamux

variable (mux : Dmamux) {map : BitVec 32} {held : Set ℕ}

/-- The bound of the search, on every device. -/
theorem maxDmaChl_eq : mux.maxDmaChl = 32 := if_neg (not_lt.mpr mux.chcfg_le)

/-- The least channel that is not held is handed out, if the map has a bit for it. -/
theorem dmaChlAlloc_of_isLeast (stands : Represents map held) {c : ℕ} (bit : c < 32)
    (least : IsLeast heldᶜ c) : mux.dmaChlAlloc map = (map ||| 1#32 <<< c, c) := by
  have found := (find?_clear_eq_some stands (n := 32) le_rfl).mpr ⟨bit, least⟩
  rw [dmaChlAlloc, maxDmaChl_eq, found]

end Dmamux

namespace DmaChannels

variable {mux : Dmamux}

/-- The map shows the channels that are held: each once, all of them channels of the
device, and as many as have been allocated and not freed. -/
structure Tracks (mux : Dmamux) (s : DmaChannels) (n : ℕ) : Prop where
  map : Represents s.map {c | c ∈ s.held}
  nodup : s.held.Nodup
  lt : ∀ c ∈ s.held, c < mux.chcfg
  length : s.held.length = n

variable {s : DmaChannels} {n : ℕ}

/-- One more channel of the device. -/
theorem Tracks.lt_of_mem_cons (tracks : s.Tracks mux n) {c : ℕ} (device : c < mux.chcfg) :
    ∀ d ∈ c :: s.held, d < mux.chcfg :=
  List.forall_mem_cons.mpr ⟨device, tracks.lt⟩

/-- With fewer channels out than the device has, there is one left. -/
theorem Tracks.exists_free (tracks : s.Tracks mux n) (fewer : n < mux.chcfg) :
    ∃ c, c < mux.chcfg ∧ c ∉ s.held := by
  by_contra none
  push Not at none
  have all : List.range mux.chcfg ⊆ s.held := fun c mem => none c (List.mem_range.mp mem)
  have many := (List.subperm_of_subset List.nodup_range all).length_le
  rw [List.length_range, tracks.length] at many
  exact absurd fewer (not_lt.mpr many)

/-- As many different channels as the device has are all of them. -/
theorem Tracks.lt_of_not_mem (tracks : s.Tracks mux n) {c : ℕ} (device : c < mux.chcfg)
    (free : c ∉ s.held) : n < mux.chcfg := by
  have inside : c :: s.held ⊆ List.range mux.chcfg :=
    fun d mem => List.mem_range.mpr (tracks.lt_of_mem_cons device d mem)
  have nodup : (c :: s.held).Nodup := List.nodup_cons.mpr ⟨free, tracks.nodup⟩
  have few := (List.subperm_of_subset nodup inside).length_le
  rw [List.length_range, List.length_cons, tracks.length] at few
  exact few

/-- What `DMA_ChlAlloc` does while the device has a channel left. -/
theorem Tracks.alloc (tracks : s.Tracks mux n) (fewer : n < mux.chcfg) :
    ∃ c, c < mux.chcfg ∧ c ∉ s.held ∧ mux.dmaChlAlloc s.map = (s.map ||| 1#32 <<< c, c) := by
  classical
  have some := tracks.exists_free fewer
  have left : ∃ c, c ∉ s.held := some.imp fun c => And.right
  obtain ⟨d, device, free⟩ := some
  -- the search passes all 32 bits, but the least free channel comes before any other
  have least : IsLeast {c | c ∈ s.held}ᶜ (Nat.find left) :=
    ⟨Nat.find_spec left, fun e out => Nat.find_min' left out⟩
  have lt : Nat.find left < mux.chcfg := (Nat.find_min' left free).trans_lt device
  exact ⟨_, lt, Nat.find_spec left,
    mux.dmaChlAlloc_of_isLeast tracks.map (lt.trans_le mux.chcfg_le) least⟩

/-- A call is sound exactly when the device has a channel left for it. -/
theorem Tracks.sound_iff (tracks : s.Tracks mux n) (call : DmaCall) :
    s.Sound mux call ↔ FewerOut mux n call := by
  cases call with
  | free chl => rfl
  | alloc =>
      constructor
      · rintro ⟨free, device⟩
        exact tracks.lt_of_not_mem device free
      · intro fewer
        obtain ⟨c, device, free, returned⟩ := tracks.alloc fewer
        rw [Sound, returned]
        exact ⟨free, device⟩

/-- A sound call leaves the map in step with the channels held. -/
theorem Tracks.step (tracks : s.Tracks mux n) {call : DmaCall} (lawful : s.Lawful call)
    (sound : s.Sound mux call) : (s.step mux call).Tracks mux (outstanding n call) := by
  cases call with
  | alloc =>
      obtain ⟨c, device, free, returned⟩ := tracks.alloc ((tracks.sound_iff .alloc).mp sound)
      have bit : c < 32 := device.trans_le mux.chcfg_le
      have after : s.step mux .alloc = ⟨s.map ||| 1#32 <<< c, c :: s.held⟩ := by
        rw [DmaChannels.step, returned]
      rw [after]
      refine ⟨?_, List.nodup_cons.mpr ⟨free, tracks.nodup⟩, tracks.lt_of_mem_cons device, ?_⟩
      · intro d
        rw [tracks.map.insert bit d]
        exact List.mem_cons.symm
      · rw [List.length_cons, tracks.length, outstanding]
  | free chl =>
      have bit : chl < 32 := (tracks.lt chl lawful).trans_le mux.chcfg_le
      refine ⟨?_, tracks.nodup.erase chl, fun d mem => tracks.lt d (List.mem_of_mem_erase mem), ?_⟩
      · intro d
        rw [DmaChannels.step, dmaChlFree, tracks.map.erase bit d, Set.mem_sdiff,
          Set.mem_singleton_iff, Set.mem_ofPred_eq, Set.mem_ofPred_eq,
          tracks.nodup.mem_erase_iff, and_comm]
      · rw [DmaChannels.step, List.length_erase_of_mem lawful, tracks.length, outstanding]

theorem tracks_boot (mux : Dmamux) : boot.Tracks mux 0 := by
  have nothing : {c | c ∈ boot.held} = ∅ := by
    ext c
    simp [boot]
  refine ⟨?_, List.nodup_nil, fun d mem => absurd mem List.not_mem_nil, rfl⟩
  rw [nothing]
  exact represents_zero

/-! ## Runs -/

/-- **Channels are handed out once, and are channels of the device**, over a run in which
only allocated channels are freed, exactly when each allocation of the run is made while
fewer channels are out than the device has. -/
theorem dmaChlAlloc_sound_iff (mux : Dmamux) (calls : List DmaCall)
    (lawful : Guarded Lawful (step mux) boot calls) :
    Guarded (Sound mux) (step mux) boot calls ↔ Guarded (FewerOut mux) outstanding 0 calls :=
  guarded_iff_guarded (R := fun s n => s.Tracks mux n)
    (fun _ _ call tracks _ => tracks.sound_iff call)
    (fun _ _ _ tracks lawful sound => tracks.step lawful sound) (tracks_boot mux) lawful

theorem dmaChlAlloc_sound_iff_reuse :
    Guarded (Sound .mk60d10) (step .mk60d10) boot [.alloc, .alloc, .free 0, .alloc] ↔
      Guarded (FewerOut .mk60d10) outstanding 0 [.alloc, .alloc, .free 0, .alloc] :=
  dmaChlAlloc_sound_iff .mk60d10 _ (by decide)

/-- Seventeen allocations on the MK60D10: the last one returns 16. -/
theorem not_dmaChlAlloc_sound :
    ¬ ∀ calls, Guarded Lawful (step .mk60d10) boot calls →
      Guarded (Sound .mk60d10) (step .mk60d10) boot calls := by
  intro always
  have run := always (List.replicate 17 .alloc) (by decide +kernel)
  exact absurd run (by decide +kernel)

end DmaChannels

end CannonCar
