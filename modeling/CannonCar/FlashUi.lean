import CannonCar.Foundation.FloatModel

/-!
# The parameter sector

`work/FLASHUI/FlashUI.c`: the tuning parameters live in the last flash sector,
seven words at offsets 0, 4, …, 24.  `Falsh_Reserve` erases the sector and programs
the words, `Flash_Read` reads them back at start-up.

The flash is a word for every word-aligned byte address.  The two FTFL commands the
file issues act as the data sheet says: `ERSSCR` sets every bit of the addressed
sector, `PGM4` clears bits only, so that the word left is the old one AND the new
one.  Commands are taken to succeed, so the status bytes nobody reads are dropped.

## Modelling decisions

**Gains are rationals, words are bits.**  The casts between them (`gainWord`, `wordGain`) go
through a `FloatModel`, so that a negative gain meets the undefined conversion of the source
and what comes back of it is a question about the model of arithmetic.  `Storable` is the
range for which it is none.

**A command sees what the registers hold.**  `flashCmd` takes address and word from the bytes
its callers have put into the registers, most significant byte first; that the four bytes
are the word again and the three the low 24 bits of the address is proved (`word_of_bytes`,
`addr_of_bytes`) and not built in.  Programming only clears bits, so what a save leaves
depends on the erase before it.
-/

namespace CannonCar

open MachineInt

/-- `PID` of `FlashUI.h`. -/
structure PID where
  p : ℚ
  i : ℚ
  d : ℚ
  deriving DecidableEq

/-- The globals kept in the parameter sector. -/
structure Params where
  speedpid : PID
  streepid : PID
  /-- `int speed`. -/
  speed : ℤ
  deriving DecidableEq

/-! ## Flash commands -/

/-- The flash, one word for every word-aligned byte address. -/
abbrev Flash := ℕ → BitVec 32

/-- The FTFL command registers `FCCOB0` … `FCCOB7`. -/
structure FCCOB where
  fccob0 : BitVec 8
  fccob1 : BitVec 8
  fccob2 : BitVec 8
  fccob3 : BitVec 8
  fccob4 : BitVec 8
  fccob5 : BitVec 8
  fccob6 : BitVec 8
  fccob7 : BitVec 8

/-- `PGM4`, program four bytes. -/
def pgm4 : BitVec 8 := 0x06#8

/-- `ERSSCR`, erase a sector. -/
def ersscr : BitVec 8 := 0x09#8

/-- `FLASH_SECTOR_SIZE`. -/
def flashSectorSize : ℕ := 2 * 1024

/-- `SECTOR_NUM`, the sector the parameters are kept in. -/
def sectorNum : ℕ := 256 - 1

/-- `((dest *)&w)->byte[k]` on the little-endian core. -/
def byteOf (w : BitVec 32) (k : ℕ) : BitVec 8 := w.extractLsb' (8 * k) 8

/-- `flash_cmd`: launch the command in the registers. -/
def flashCmd (r : FCCOB) (f : Flash) : Flash :=
  let addr := (r.fccob1 ++ r.fccob2 ++ r.fccob3).toNat
  let word := r.fccob4 ++ r.fccob5 ++ r.fccob6 ++ r.fccob7
  if r.fccob0 = pgm4 then Function.update f addr (f addr &&& word)
  else if r.fccob0 = ersscr then
    fun a => if a / flashSectorSize = addr / flashSectorSize then BitVec.allOnes 32 else f a
  else f

/-- `flash_write`. -/
def flashWrite (sector offset : ℕ) (data : BitVec 32) (f : Flash) : Flash :=
  let addr := BitVec.ofNat 32 (sector * flashSectorSize + offset)
  flashCmd
    { fccob0 := pgm4
      fccob1 := byteOf addr 2
      fccob2 := byteOf addr 1
      fccob3 := byteOf addr 0
      fccob4 := byteOf data 3
      fccob5 := byteOf data 2
      fccob6 := byteOf data 1
      fccob7 := byteOf data 0 } f

/-- `flash_erase_sector`; sector 0 gets its configuration field back. -/
def flashEraseSector (sector : ℕ) (f : Flash) : Flash :=
  let addr := BitVec.ofNat 32 (sector * flashSectorSize)
  let erased := flashCmd
    { fccob0 := ersscr
      fccob1 := byteOf addr 2
      fccob2 := byteOf addr 1
      fccob3 := byteOf addr 0
      fccob4 := 0
      fccob5 := 0
      fccob6 := 0
      fccob7 := 0 } f
  if sector = 0 then flashWrite sector 0x00040C 0xFFFFFFFE#32 erased else erased

/-- `flash_read(sectorNo, offset, u32)`. -/
def flashRead32 (sector offset : ℕ) (f : Flash) : BitVec 32 :=
  f (sector * flashSectorSize + offset)

/-- The four data registers carry the word, most significant byte first. -/
theorem word_of_bytes (w : BitVec 32) :
    byteOf w 3 ++ byteOf w 2 ++ byteOf w 1 ++ byteOf w 0 = w := by
  apply BitVec.eq_of_getLsbD_eq
  intro i hi
  simp only [byteOf, BitVec.getLsbD_append, BitVec.getLsbD_extractLsb']
  split_ifs <;> grind

/-- The three address registers carry the low 24 bits of the address. -/
theorem addr_of_bytes (w : BitVec 32) :
    byteOf w 2 ++ byteOf w 1 ++ byteOf w 0 = w.setWidth 24 := by
  apply BitVec.eq_of_getLsbD_eq
  intro i hi
  simp only [byteOf, BitVec.getLsbD_append, BitVec.getLsbD_extractLsb', BitVec.getLsbD_setWidth]
  split_ifs <;> grind

/-- Programming a word of a sector clears bits of that word and leaves the rest. -/
theorem flashRead32_flashWrite {sector offset' : ℕ} (offset : ℕ)
    (small : sector * flashSectorSize + offset' < 2 ^ 24) (data : BitVec 32) (f : Flash) :
    flashRead32 sector offset (flashWrite sector offset' data f) =
      if offset = offset' then flashRead32 sector offset f &&& data
      else flashRead32 sector offset f := by
  have addr : ((BitVec.ofNat 32 (sector * flashSectorSize + offset')).setWidth 24).toNat =
      sector * flashSectorSize + offset' := by
    rw [BitVec.toNat_setWidth, BitVec.toNat_ofNat]
    omega
  simp only [flashRead32, flashWrite, flashCmd, if_true, word_of_bytes, addr_of_bytes, addr,
    Function.update_apply, Nat.add_left_cancel_iff]
  split_ifs with same
  · rw [same]
  · rfl

/-- Erasing a sector sets every bit of its words. -/
theorem flashRead32_flashEraseSector {sector offset : ℕ} (nonzero : sector ≠ 0)
    (small : sector * flashSectorSize < 2 ^ 24) (inside : offset < flashSectorSize) (f : Flash) :
    flashRead32 sector offset (flashEraseSector sector f) = BitVec.allOnes 32 := by
  have addr : ((BitVec.ofNat 32 (sector * flashSectorSize)).setWidth 24).toNat =
      sector * flashSectorSize := by
    rw [BitVec.toNat_setWidth, BitVec.toNat_ofNat]
    omega
  have command : ersscr ≠ pgm4 := by decide
  have first : sector * flashSectorSize / flashSectorSize = sector :=
    Nat.mul_div_cancel _ (by decide)
  have this : (sector * flashSectorSize + offset) / flashSectorSize = sector := by
    rw [Nat.mul_comm, Nat.mul_add_div (by decide), Nat.div_eq_of_lt inside, Nat.add_zero]
  simp only [flashRead32, flashEraseSector, flashCmd, if_neg command, if_true, if_neg nonzero,
    addr_of_bytes, addr, first, this]

/-! ## `Falsh_Reserve` and `Flash_Read` -/

variable (fm : FloatModel)

/-- `(u32)(g*10)`. -/
def gainWord (g : ℚ) : BitVec 32 := BitVec.ofNat 32 (fm.toU32 (fm.rnd (g * 10)))

/-- `((float)w)/10`. -/
def wordGain (w : BitVec 32) : ℚ := fm.rnd (fm.rnd w.toNat / 10)

/-- `(u32)speed`. -/
def speedWord (speed : ℤ) : BitVec 32 := BitVec.ofNat 32 (toUnsigned 32 speed)

/-- The word read back into `int speed`. -/
def wordSpeed (w : BitVec 32) : ℤ := toSigned 32 w.toNat

/-- `Falsh_Reserve`. -/
def falshReserve (ps : Params) (f : Flash) : Flash :=
  let f := flashEraseSector sectorNum f
  let f := flashWrite sectorNum 0 (gainWord fm ps.speedpid.p) f
  let f := flashWrite sectorNum 4 (gainWord fm ps.speedpid.i) f
  let f := flashWrite sectorNum 8 (gainWord fm ps.speedpid.d) f
  let f := flashWrite sectorNum 12 (gainWord fm ps.streepid.p) f
  let f := flashWrite sectorNum 16 (gainWord fm ps.streepid.i) f
  let f := flashWrite sectorNum 20 (gainWord fm ps.streepid.d) f
  flashWrite sectorNum 24 (speedWord ps.speed) f

/-- `Flash_Read`. -/
def flashRead (f : Flash) : Params where
  speedpid :=
    { p := wordGain fm (flashRead32 sectorNum 0 f)
      i := wordGain fm (flashRead32 sectorNum 4 f)
      d := wordGain fm (flashRead32 sectorNum 8 f) }
  streepid :=
    { p := wordGain fm (flashRead32 sectorNum 12 f)
      i := wordGain fm (flashRead32 sectorNum 16 f)
      d := wordGain fm (flashRead32 sectorNum 20 f) }
  speed := wordSpeed (flashRead32 sectorNum 24 f)

/-- A parameter set after every gain has gone through `gain`. -/
def Params.mapGains (gain : ℚ → ℚ) (ps : Params) : Params where
  speedpid := ⟨gain ps.speedpid.p, gain ps.speedpid.i, gain ps.speedpid.d⟩
  streepid := ⟨gain ps.streepid.p, gain ps.streepid.i, gain ps.streepid.d⟩
  speed := ps.speed

/-- The seven offsets are distinct words of the one sector the save erases, so each
parameter comes back as its own encoding decodes, whatever the sector held. -/
theorem flashRead_falshReserve {ps : Params} (hspeed : FitsSigned 32 ps.speed) (f : Flash) :
    flashRead fm (falshReserve fm ps f) =
      ps.mapGains fun g => wordGain fm (gainWord fm g) := by
  have speed : wordSpeed (speedWord ps.speed) = ps.speed := by
    rw [wordSpeed, speedWord, BitVec.toNat_ofNat, Nat.mod_eq_of_lt (toUnsigned_lt 32 _),
      toSigned_toUnsigned, toSigned_eq_self hspeed]
  have erased : ∀ offset < flashSectorSize,
      flashRead32 sectorNum offset (flashEraseSector sectorNum f) = BitVec.allOnes 32 :=
    fun offset inside => flashRead32_flashEraseSector (by decide) (by decide) inside f
  have write : ∀ offset, ∀ offset' < 32, ∀ (data : BitVec 32) (g : Flash),
      flashRead32 sectorNum offset (flashWrite sectorNum offset' data g) =
        if offset = offset' then flashRead32 sectorNum offset g &&& data
        else flashRead32 sectorNum offset g := by
    intro offset offset' small data g
    refine flashRead32_flashWrite offset ?_ data g
    simp only [sectorNum, flashSectorSize]
    omega
  have word : ∀ w : BitVec 32, 0xFFFFFFFF#32 &&& w = w := fun _ => BitVec.allOnes_and
  simp (disch := decide) [falshReserve, flashRead, Params.mapGains, write, erased, word, speed]

/-! ## What survives the round trip -/

/-- A gain the save encodes in a word and the read decodes again. -/
def Storable (g : ℚ) : Prop := 0 ≤ g ∧ g * 10 < 2 ^ 32

/-- `P` holds of the six gains. -/
def Params.AllGains (P : ℚ → Prop) (ps : Params) : Prop :=
  (P ps.speedpid.p ∧ P ps.speedpid.i ∧ P ps.speedpid.d) ∧
    P ps.streepid.p ∧ P ps.streepid.i ∧ P ps.streepid.d

instance : DecidablePred Storable := fun _ => inferInstanceAs (Decidable (_ ∧ _))

instance (P : ℚ → Prop) [DecidablePred P] (ps : Params) : Decidable (ps.AllGains P) :=
  inferInstanceAs (Decidable ((_ ∧ _ ∧ _) ∧ _ ∧ _ ∧ _))

/-- An exact multiple of a tenth. -/
def Tenths (g : ℚ) : Prop := ∃ m : ℤ, g * 10 = m

theorem Params.AllGains.imp {P Q : ℚ → Prop} {ps : Params} (h : ps.AllGains P)
    (sub : ∀ g, P g → Q g) : ps.AllGains Q :=
  ⟨⟨sub _ h.1.1, sub _ h.1.2.1, sub _ h.1.2.2⟩, sub _ h.2.1, sub _ h.2.2.1, sub _ h.2.2.2⟩

theorem Params.mapGains_eq_self_iff {gain : ℚ → ℚ} {ps : Params} :
    ps.mapGains gain = ps ↔ ps.AllGains fun g => gain g = g := by
  obtain ⟨⟨_, _, _⟩, ⟨_, _, _⟩, _⟩ := ps
  simp [Params.mapGains, Params.AllGains, and_assoc]

/-- In exact arithmetic a word decodes to a storable multiple of a tenth. -/
theorem wordGain_exact {fm : FloatModel} (hexact : fm.IsExact) (w : BitVec 32) :
    wordGain fm w * 10 = w.toNat ∧ Storable (wordGain fm w) := by
  have hw : (w.toNat : ℚ) < 2 ^ 32 := by exact_mod_cast w.isLt
  have value : wordGain fm w = w.toNat / 10 := by
    rw [wordGain, hexact.rnd_eq, hexact.rnd_eq]
  have pos : (0 : ℚ) ≤ w.toNat := Nat.cast_nonneg _
  rw [Storable, value]
  exact ⟨by ring, by positivity, by linarith⟩

/-- A multiple of a tenth comes back exactly when it is storable: a word stands for
no other value, whatever an out-of-range conversion left in it. -/
theorem wordGain_gainWord_iff {fm : FloatModel} (hexact : fm.IsExact) {g : ℚ} (tenths : Tenths g) :
    wordGain fm (gainWord fm g) = g ↔ Storable g := by
  constructor
  · intro back
    rw [← back]
    exact (wordGain_exact hexact _).2
  · rintro ⟨nonneg, small⟩
    obtain ⟨m, hm⟩ := tenths
    have fits : FitsUnsigned 32 m :=
      ⟨by exact_mod_cast hm ▸ (by linarith : 0 ≤ g * 10), by exact_mod_cast hm ▸ small⟩
    have word : ((gainWord fm g).toNat : ℤ) = m := by
      rw [gainWord, hexact.rnd_eq, BitVec.toNat_ofNat, Nat.mod_eq_of_lt (fm.toU32_lt _), hm,
        fm.toU32_of_fits (by rwa [FloatModel.trunc_intCast]), FloatModel.trunc_intCast]
    have value := (wordGain_exact hexact (gainWord fm g)).1
    rw [← Int.cast_natCast, word, ← hm] at value
    linarith

/-- **Save and restore.**  In exact arithmetic a set of tenths with an `int` speed
comes back from the sector exactly when its six gains are storable. -/
theorem flashRead_falshReserve_iff {fm : FloatModel} (hexact : fm.IsExact) {ps : Params}
    (tenths : ps.AllGains Tenths) (hspeed : FitsSigned 32 ps.speed) (f : Flash) :
    flashRead fm (falshReserve fm ps f) = ps ↔ ps.AllGains Storable := by
  rw [flashRead_falshReserve fm hspeed, Params.mapGains_eq_self_iff]
  obtain ⟨⟨h1, h2, h3⟩, h4, h5, h6⟩ := tenths
  simp only [Params.AllGains, wordGain_gainWord_iff hexact h1, wordGain_gainWord_iff hexact h2,
    wordGain_gainWord_iff hexact h3, wordGain_gainWord_iff hexact h4,
    wordGain_gainWord_iff hexact h5, wordGain_gainWord_iff hexact h6]

/-- The set `Flash_Read` loads is storable and an exact set of tenths. -/
theorem flashRead_exact {fm : FloatModel} (hexact : fm.IsExact) (f : Flash) :
    (flashRead fm f).AllGains (fun g => Tenths g ∧ Storable g) ∧
      FitsSigned 32 (flashRead fm f).speed := by
  have gain : ∀ w : BitVec 32, Tenths (wordGain fm w) ∧ Storable (wordGain fm w) := by
    intro w
    obtain ⟨value, storable⟩ := wordGain_exact hexact w
    exact ⟨⟨w.toNat, by rw [value, Int.cast_natCast]⟩, storable⟩
  refine ⟨⟨⟨gain _, gain _, gain _⟩, gain _, gain _, gain _⟩, ?_⟩
  exact fits_toSigned _ _

end CannonCar
