import CannonCar.Foundation.MachineInt

/-!
# The FlexTimer PWM driver

`drivers/K/src/ftm.c` as far as the car uses it: `FTM_PWM_QuickInit` in
edge-aligned mode, `FTM_PWM_ChangeDuty`, and `speedInit` of `work/PWM/pwm.c`, which
brings up the two motor channels (FTM0 CH3 and CH2) and the servo channel (FTM1
CH1).

A module is its registers `MOD`, `COMBINE`, the prescaler field of `SC`, and one
`CnV` per channel; the registers no modelled function reads back (`MODE`,
`PWMLOAD`, `CnSC`, the counter) are left out.  `Pwm` bundles the modules with the
log of all calls of `FTM_PWM_ChangeDuty`, newest first, so that "the duty most
recently written to a channel" is a fact about the run and not about a register.

## What is load-bearing

* `changeDuty` is modelled for combined channel pairs as well, although `speedInit` sets no
  pair up that way: that it does not is a fact about `setEdgeAligned` and the registers out of
  reset (`SingleChannel`), and every duty goes through the test for it.
* The product of `MOD` and the duty is taken modulo 2^32 before it is divided
  (`dutyToCnv`).  `dutyToCnv_spec` says that a duty of at most 10000 never wraps, which is
  where the bounds on duties proved elsewhere end up.
* `Synced` says that the compare registers of the two motor channels are those of the duties
  last written to them.  It holds from `speedInit` on, so that statements about the log of the
  duties are statements about the registers too.
-/

namespace CannonCar

open MachineInt

/-- The registers of one FlexTimer module. -/
structure FTM where
  /-- `MOD`. -/
  mod : BitVec 16
  /-- `COMBINE`. -/
  combine : BitVec 32
  /-- `SC[PS]`. -/
  ps : ℕ
  /-- `CONTROLS[chl].CnV`. -/
  cnv : ℕ → BitVec 16

/-- The module out of reset. -/
def FTM.reset : FTM := ⟨0, 0, 0, fun _ => 0⟩

/-! ## `FTM_PWM_ChangeDuty` -/

/-- `COMBINE0|COMBINE1|COMBINE2|COMBINE3`. -/
def combineMasks : BitVec 32 := 0x01010101#32

/-- Some channel pair of the module is in combine mode. -/
def FTM.Combined (f : FTM) : Prop := f.combine &&& combineMasks ≠ 0

instance (f : FTM) : Decidable f.Combined := inferInstanceAs (Decidable (_ ≠ _))

/-- `(MOD * pwmDuty) / 10000` in `uint32_t`. -/
def dutyToCnv (mod : BitVec 16) (duty : ℕ) : ℕ := mod.toNat * duty % 2 ^ 32 / 10000

/-- `FTM_PWM_ChangeDuty` on the registers. -/
def FTM.changeDuty (f : FTM) (chl duty : ℕ) : FTM :=
  let cv := BitVec.ofNat 16 (dutyToCnv f.mod duty)
  if f.Combined then
    if chl % 2 = 1 then
      { f with cnv := Function.update (Function.update f.cnv (chl - 1) 0) chl cv }
    else
      { f with cnv := Function.update (Function.update f.cnv chl 0) (chl + 1) cv }
  else
    { f with cnv := Function.update f.cnv chl cv }

@[simp] theorem FTM.changeDuty_mod (f : FTM) (chl duty : ℕ) :
    (f.changeDuty chl duty).mod = f.mod := by
  unfold FTM.changeDuty
  split_ifs <;> rfl

@[simp] theorem FTM.changeDuty_combine (f : FTM) (chl duty : ℕ) :
    (f.changeDuty chl duty).combine = f.combine := by
  unfold FTM.changeDuty
  split_ifs <;> rfl

theorem FTM.changeDuty_cnv {f : FTM} (single : ¬ f.Combined) (chl duty : ℕ) :
    (f.changeDuty chl duty).cnv =
      Function.update f.cnv chl (BitVec.ofNat 16 (dutyToCnv f.mod duty)) := by
  simp [FTM.changeDuty, single]

/-- An odd channel gets the compare value in combine mode as well. -/
theorem FTM.changeDuty_cnv_odd (f : FTM) {chl : ℕ} (odd : chl % 2 = 1) (duty : ℕ) :
    (f.changeDuty chl duty).cnv chl = BitVec.ofNat 16 (dutyToCnv f.mod duty) := by
  unfold FTM.changeDuty
  split_ifs <;> simp

/-- A duty of at most 100 % scales without overflow, to a compare value that the
period register holds. -/
theorem dutyToCnv_spec (mod : BitVec 16) {duty : ℕ} (hduty : duty ≤ 10000) :
    mod.toNat * duty < 2 ^ 32 ∧ dutyToCnv mod duty = mod.toNat * duty / 10000 ∧
      dutyToCnv mod duty ≤ mod.toNat := by
  have hmod := mod.isLt
  have hprod : mod.toNat * duty ≤ mod.toNat * 10000 := Nat.mul_le_mul_left _ hduty
  have hfits : mod.toNat * duty < 2 ^ 32 := by omega
  have hcnv : dutyToCnv mod duty = mod.toNat * duty / 10000 := by
    rw [dutyToCnv, Nat.mod_eq_of_lt hfits]
  exact ⟨hfits, hcnv, by omega⟩

/-! ## `FTM_PWM_QuickInit` -/

/-- `get_chl_pair_index`. -/
def getChlPairIndex (chl : ℕ) : ℕ :=
  if chl = 0 ∨ chl = 1 then 0
  else if chl = 2 ∨ chl = 3 then 1
  else if chl = 4 ∨ chl = 5 then 2
  else 3

/-- `FTM_DualChlConfig(instance, chl, mode, DISABLE)`, where `mask` is the mode's
bit for channel pair 0. -/
def FTM.dualChlDisable (f : FTM) (chl : ℕ) (mask : BitVec 32) : FTM :=
  { f with combine := f.combine &&& ~~~(mask <<< (getChlPairIndex chl * 8)) }

/-- `FTM_SetMode(instance, chl, kFTM_Mode_EdgeAligned)`: combine, complementary,
dual edge capture, dead time, synchronisation and fault control are switched off
for the pair. -/
def FTM.setEdgeAligned (f : FTM) (chl : ℕ) : FTM :=
  ((((((f.dualChlDisable chl 0x01#32).dualChlDisable chl 0x02#32).dualChlDisable chl
    0x04#32).dualChlDisable chl 0x10#32).dualChlDisable chl 0x20#32).dualChlDisable chl
    0x40#32)

/-- Clearing bits of `COMBINE` cannot switch a pair to combine mode. -/
theorem FTM.not_combined_dualChlDisable {f : FTM} (h : ¬ f.Combined) (chl : ℕ)
    (mask : BitVec 32) : ¬ (f.dualChlDisable chl mask).Combined := by
  have clear : f.combine &&& combineMasks = 0 := not_not.mp h
  refine not_not.mpr ?_
  rw [FTM.dualChlDisable, BitVec.and_assoc, BitVec.and_comm (~~~_), ← BitVec.and_assoc, clear]
  exact BitVec.zero_and

theorem FTM.not_combined_setEdgeAligned {f : FTM} (h : ¬ f.Combined) (chl : ℕ) :
    ¬ (f.setEdgeAligned chl).Combined := by
  unfold FTM.setEdgeAligned
  repeat' apply FTM.not_combined_dualChlDisable
  exact h

/-- The search of `FTM_PWM_QuickInit` for the power of two nearest to `pres`; the
bound is compared as `uint32_t`. -/
def nearestPower (pres : ℕ) : ℕ :=
  ((List.range 7).foldl
    (fun (best : ℕ × ℕ) i =>
      let gap := ((pres : ℤ) - 2 ^ i).natAbs
      if gap < best.2 then (i, gap) else best)
    (0, 0xFFFF)).1

/-- The prescaler exponent `FTM_PWM_QuickInit` settles on.  A division by zero
yields zero, as the core does with the divide-by-zero trap off. -/
def quickInitPs (clock req : ℕ) : ℕ :=
  let pres := clock / req / 0xFFFF
  let pres := if clock / req / pres > 0xFFFF then pres + 1 else pres
  let ps := nearestPower pres
  let ps := if pres > 2 ^ ps then ps + 1 else ps
  if ps > 7 then 7 else ps

/-- The period count `FTM_PWM_QuickInit` programs. -/
def quickInitModulo (clock req : ℕ) : ℕ :=
  toUnsigned 32 (((clock / 2 ^ quickInitPs clock req / req : ℕ) : ℤ) - 1)

/-- The caller a duty write is attributed to. -/
inductive PwmWriter
  | speedInit
  | ui
  | speedCtrl
  | ctrl
  deriving DecidableEq, Repr

/-- One call of `FTM_PWM_ChangeDuty`. -/
structure PwmWrite where
  writer : PwmWriter
  ftm : ℕ
  chl : ℕ
  duty : ℕ
  deriving DecidableEq, Repr

/-- The FlexTimer modules and the duty writes they have seen, newest first. -/
structure Pwm where
  ftm : ℕ → FTM
  writes : List PwmWrite

/-- The duty most recently written to a channel, zero before the first write. -/
def lastDuty (ftm chl : ℕ) : List PwmWrite → ℕ
  | [] => 0
  | w :: older => if w.ftm = ftm ∧ w.chl = chl then w.duty else lastDuty ftm chl older

namespace Pwm

/-- `FTM_PWM_ChangeDuty`. -/
def changeDuty (writer : PwmWriter) (ftm chl duty : ℕ) (p : Pwm) : Pwm where
  ftm := Function.update p.ftm ftm ((p.ftm ftm).changeDuty chl duty)
  writes := ⟨writer, ftm, chl, duty⟩ :: p.writes

theorem changeDuty_ftm (writer : PwmWriter) (ftm chl duty : ℕ) (p : Pwm) :
    (p.changeDuty writer ftm chl duty).ftm =
      Function.update p.ftm ftm ((p.ftm ftm).changeDuty chl duty) :=
  rfl

@[simp] theorem changeDuty_writes (writer : PwmWriter) (ftm chl duty : ℕ) (p : Pwm) :
    (p.changeDuty writer ftm chl duty).writes = ⟨writer, ftm, chl, duty⟩ :: p.writes :=
  rfl

/-- The last duty written to a channel of FTM0, which drives the motor bridge. -/
def ftm0Duty (p : Pwm) (chl : ℕ) : ℕ := lastDuty 0 chl p.writes

@[simp] theorem ftm0Duty_changeDuty (writer : PwmWriter) (chl chl' duty : ℕ) (p : Pwm) :
    (p.changeDuty writer 0 chl duty).ftm0Duty chl' =
      if chl = chl' then duty else p.ftm0Duty chl' := by
  simp [ftm0Duty, lastDuty]

/-- `FTM_PWM_QuickInit(MAP, kPWM_EdgeAligned, req)` for the module and channel
that `MAP` names. -/
def quickInit (clock ftm chl req : ℕ) (p : Pwm) : Pwm :=
  let f := { p.ftm ftm with mod := BitVec.ofNat 16 (quickInitModulo clock req) }
  let p := { p with ftm := Function.update p.ftm ftm (f.setEdgeAligned chl) }
  let p := p.changeDuty .speedInit ftm chl 5000
  { p with ftm := Function.update p.ftm ftm { p.ftm ftm with ps := quickInitPs clock req } }

/-- `speedInit`. -/
def speedInit (clock : ℕ) (p : Pwm) : Pwm :=
  let p := p.quickInit clock 0 3 10000
  let p := p.quickInit clock 0 2 10000
  let p := p.quickInit clock 1 1 300
  let p := p.changeDuty .speedInit 0 3 0
  let p := p.changeDuty .speedInit 0 2 0
  p.changeDuty .speedInit 1 1 2000

/-- The modules out of reset, before any duty write. -/
def reset : Pwm := ⟨fun _ => FTM.reset, []⟩

/-- `FTM_PWM_ChangeDuty` programs each channel of the module on its own. -/
def SingleChannel (ftm : ℕ) (p : Pwm) : Prop := ¬ (p.ftm ftm).Combined

theorem singleChannel_changeDuty {ftm : ℕ} {p : Pwm} (h : p.SingleChannel ftm)
    (writer : PwmWriter) (ftm' chl duty : ℕ) :
    (p.changeDuty writer ftm' chl duty).SingleChannel ftm := by
  rw [SingleChannel, changeDuty_ftm]
  by_cases same : ftm = ftm'
  · subst same
    rw [Function.update_self, FTM.Combined, FTM.changeDuty_combine]
    exact h
  · rw [Function.update_of_ne same]
    exact h

theorem singleChannel_quickInit {ftm : ℕ} {p : Pwm} (h : p.SingleChannel ftm)
    (clock ftm' chl req : ℕ) : (p.quickInit clock ftm' chl req).SingleChannel ftm := by
  unfold SingleChannel quickInit
  by_cases same : ftm = ftm'
  · subst same
    simp only [changeDuty_ftm, Function.update_self]
    rw [FTM.Combined, FTM.changeDuty_combine]
    exact FTM.not_combined_setEdgeAligned h chl
  · simp only [changeDuty_ftm, Function.update_of_ne same]
    exact h

/-- The compare registers of the bridge channels hold the share of the period that the
last duties written to them stand for. -/
structure Synced (p : Pwm) : Prop where
  single : p.SingleChannel 0
  cnv : ∀ chl, chl = 2 ∨ chl = 3 →
    (p.ftm 0).cnv chl = BitVec.ofNat 16 (dutyToCnv (p.ftm 0).mod (p.ftm0Duty chl))

theorem Synced.changeDuty {p : Pwm} (h : p.Synced) (writer : PwmWriter) (ftm chl duty : ℕ) :
    (p.changeDuty writer ftm chl duty).Synced where
  single := singleChannel_changeDuty h.single writer ftm chl duty
  cnv := by
    intro chl' bridge
    by_cases same : ftm = 0
    · subst same
      rw [changeDuty_ftm, Function.update_self, FTM.changeDuty_cnv h.single,
        ftm0Duty_changeDuty, FTM.changeDuty_mod]
      by_cases here : chl' = chl
      · rw [here, Function.update_self, if_pos rfl]
      · rw [Function.update_of_ne here, if_neg (Ne.symm here)]
        exact h.cnv chl' bridge
    · have duty' : (p.changeDuty writer ftm chl duty).ftm0Duty chl' = p.ftm0Duty chl' := by
        simp [ftm0Duty, lastDuty, same]
      rw [changeDuty_ftm, Function.update_of_ne (Ne.symm same), duty']
      exact h.cnv chl' bridge

/-- Writing both channels brings the registers in step. -/
theorem synced_of_single {p : Pwm} (single : p.SingleChannel 0) (writer : PwmWriter)
    (duty duty' : ℕ) :
    ((p.changeDuty writer 0 3 duty).changeDuty writer 0 2 duty').Synced where
  single := singleChannel_changeDuty (singleChannel_changeDuty single writer 0 3 duty) writer 0 2
    duty'
  cnv := by
    have single' := singleChannel_changeDuty single writer 0 3 duty
    intro chl bridge
    rw [changeDuty_ftm, Function.update_self, FTM.changeDuty_cnv single', changeDuty_ftm,
      Function.update_self, FTM.changeDuty_cnv single]
    rcases bridge with rfl | rfl
    · simp
    · simp

theorem synced_speedInit (clock : ℕ) : (reset.speedInit clock).Synced := by
  have start : reset.SingleChannel 0 := by
    simp [SingleChannel, reset, FTM.reset, FTM.Combined]
  have up := singleChannel_quickInit (singleChannel_quickInit (singleChannel_quickInit start
    clock 0 3 10000) clock 0 2 10000) clock 1 1 300
  exact (synced_of_single up .speedInit 0 0).changeDuty .speedInit 1 1 2000

/-- `speedInit` leaves both motor channels at duty zero. -/
theorem ftm0Duty_speedInit (clock : ℕ) (p : Pwm) :
    (p.speedInit clock).ftm0Duty 2 = 0 ∧ (p.speedInit clock).ftm0Duty 3 = 0 := by
  constructor <;> simp [speedInit, ftm0Duty, lastDuty]

end Pwm

end CannonCar
