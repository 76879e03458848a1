import CannonCar.Foundation.Trajectory
import CannonCar.Ui.SetUi

/-!
# Runs of the parameter editor

An `Editor` is the cursor of `Set_UI` with the parameters it edits; its inputs are the
keys the page consumes.  The key that leaves the page counts with the next entry, so
a run spans any number of visits.

Two questions about what the keys can make of the parameters are settled here, both
for every content of the parameter sector and every sequence of keys.  What
`Falsh_Reserve` saves comes back exactly when no gain has become negative or too
large for a word (`restores_iff`).  The numbers written to `text[5]` fit exactly
as long as the loaded ones do and no key moves a parameter past one of the edges the
wrap-arounds leave open (`numbersFit_throughout_iff`).

## What is load-bearing

**A run spans visits.**  The statics of `Set_UI` outlive a visit, so the key that leaves the
page is an input like any other, and what follows it is the next visit, with fresh locals.

**The gains are stepped in rounded arithmetic.**  A gain that goes up and down again need not
come back to where it was, and may end below zero, so both questions are asked in every
`FloatModel`.  Where a result is about exact arithmetic it says so.

**The conditions are on the state before the key.**  `EdgeKey` looks at the marked parameter
and the key that is about to be consumed, never at what the key makes of them.
-/

namespace CannonCar

open MachineInt Trajectory Printf

/-- The cursor of `Set_UI` with the parameters it edits. -/
structure Editor where
  ui : SetUi
  params : Params
  deriving DecidableEq

variable (fm : FloatModel)

/-- One turn of the loop of `Set_UI` up to its drawing, for a key that stays. -/
def setUiTurn (key : ℕ) (e : Editor) : Editor :=
  let ui := e.ui.pressed key
  { ui := ui.checked
    params := if ui.arrowState ≠ 0 then editItem fm key ui.item e.params else e.params }

/-- A key consumed by `Set_UI`, up to the next `OSMboxPend` of `Set_UI`. -/
def editorStep (e : Editor) (key : ℕ) : Editor :=
  let e' :=
    if e.ui.Leaves key then setUiTurn fm 0 { e with ui := e.ui.enter }
    else setUiTurn fm key e
  { e' with ui := e'.ui.marked }

/-- The first `OSMboxPend` of the first visit. -/
def Editor.start (ps : Params) : Editor :=
  let e := setUiTurn fm 0 ⟨SetUi.init.enter, ps⟩
  { e with ui := e.ui.marked }

/-- The editor after the keys `keys`, from the parameters `Flash_Read` loads. -/
def editorAt (sector : Flash) (keys : List ℕ) : Editor :=
  run (editorStep fm) (Editor.start fm (flashRead fm sector)) keys

/-! ## The cursor along a run -/

/-- Entering the page changes no parameter. -/
theorem setUiTurn_enter {u : SetUi} (ok : u.Ok) (ps : Params) :
    setUiTurn fm 0 ⟨u.enter, ps⟩ = ⟨u.enter, ps⟩ := by
  rw [setUiTurn, SetUi.pressed_enter_zero, ok.enter.checked_eq]
  rfl

theorem Editor.start_eq (ps : Params) : Editor.start fm ps = ⟨SetUi.init, ps⟩ := by
  rw [Editor.start, setUiTurn_enter fm SetUi.ok_init]
  rfl

theorem ok_editorStep {e : Editor} (ok : e.ui.Ok) (key : ℕ) : (editorStep fm e key).ui.Ok := by
  unfold editorStep
  split_ifs
  · rw [setUiTurn_enter fm ok]
    exact ok.enter.marked
  · show ((e.ui.pressed key).checked).marked.Ok
    rw [(ok.pressed key).checked_eq]
    exact (ok.pressed key).marked

/-- The keys that change parameters are those consumed in the edit mode, and the key
that starts it. -/
theorem params_editorStep {e : Editor} (ok : e.ui.Ok) (key : ℕ) :
    (editorStep fm e key).params =
      if (e.ui.pressed key).arrowState ≠ 0 ∧ ¬ e.ui.Leaves key then
        editItem fm key (e.ui.pressed key).item e.params
      else e.params := by
  unfold editorStep
  by_cases leaves : e.ui.Leaves key
  · rw [if_pos leaves, setUiTurn_enter fm ok, if_neg (fun h => h.2 leaves)]
  · rw [if_neg leaves]
    simp only [leaves, not_false_eq_true, and_true]
    rfl

/-! ## Save and restore -/

theorem tenths_stepGain {fm : FloatModel} (hexact : fm.IsExact) (key : ℕ) {g : ℚ}
    (h : Tenths g) : Tenths (stepGain fm key g) := by
  have up : ∀ g, Tenths g → Tenths (g + 1 / 10) := by
    rintro g ⟨m, hm⟩
    exact ⟨m + 1, by push_cast; linarith⟩
  have down : ∀ g, Tenths g → Tenths (g - 1 / 10) := by
    rintro g ⟨m, hm⟩
    exact ⟨m - 1, by push_cast; linarith⟩
  simp only [stepGain, hexact.rnd_eq, hexact.rndD_eq]
  split_ifs
  · exact down _ (up _ h)
  · exact down _ h
  · exact up _ h
  · exact h

/-- In exact arithmetic the editor keeps its gains multiples of a tenth, and always
an `int` speed. -/
theorem tenths_editorStep {fm : FloatModel} (hexact : fm.IsExact) {e : Editor} (ok : e.ui.Ok)
    (key : ℕ) (h : e.params.AllGains Tenths ∧ FitsSigned 32 e.params.speed) :
    (editorStep fm e key).params.AllGains Tenths ∧
      FitsSigned 32 (editorStep fm e key).params.speed := by
  have zero : Tenths 0 := ⟨0, by norm_num⟩
  have speedGain : ∀ g, Tenths g → Tenths (editSpeedGain fm key g) := by
    intro g hg
    unfold editSpeedGain
    split_ifs
    · exact zero
    · exact tenths_stepGain hexact key hg
  have turnGain : ∀ g, Tenths g → Tenths (editTurnGain fm key g) :=
    fun g hg => tenths_stepGain hexact key hg
  rw [params_editorStep fm ok]
  split_ifs
  · refine ⟨allGains_editItem fm speedGain turnGain _ h.1, ?_⟩
    rw [speed_editItem]
    split_ifs
    · exact fits_editSpeed key h.2
    · exact h.2
  · exact h

theorem tenths_editorAt {fm : FloatModel} (hexact : fm.IsExact) (sector : Flash)
    (keys : List ℕ) :
    (editorAt fm sector keys).ui.Ok ∧ (editorAt fm sector keys).params.AllGains Tenths ∧
      FitsSigned 32 (editorAt fm sector keys).params.speed := by
  obtain ⟨gains, speed⟩ := flashRead_exact hexact sector
  refine run_invariant
    (I := fun e : Editor =>
      e.ui.Ok ∧ e.params.AllGains Tenths ∧ FitsSigned 32 e.params.speed) ?_ ?_ keys
  · rintro e key ⟨ok, h⟩
    exact ⟨ok_editorStep fm ok key, tenths_editorStep hexact ok key h⟩
  · rw [Editor.start_eq]
    exact ⟨SetUi.ok_init, gains.imp fun g hg => hg.1, speed⟩

/-- **When the saved parameters come back.**  Whatever sector was loaded, whatever
keys `Set_UI` has consumed since and whatever the sector holds when it is saved to:
saving and reading back restores the seven parameters exactly when each of the six
gains is at least 0 and its tenfold below `2 ^ 32`. -/
theorem restores_iff {fm : FloatModel} (hexact : fm.IsExact) (sector : Flash) (keys : List ℕ)
    (f : Flash) :
    let ps := (editorAt fm sector keys).params
    flashRead fm (falshReserve fm ps f) = ps ↔ ps.AllGains Storable := by
  intro ps
  obtain ⟨-, tenths, speed⟩ := tenths_editorAt hexact sector keys
  exact flashRead_falshReserve_iff hexact tenths speed f

/-- A gain stepped up from an all-zero sector comes back. -/
theorem restores_stepped_up :
    let ps := (editorAt .exact (fun _ => 0) [3, 1]).params
    flashRead .exact (falshReserve .exact ps fun _ => 0) = ps :=
  (restores_iff FloatModel.isExact_exact (fun _ => 0) [3, 1] fun _ => 0).mpr (by decide +kernel)

/-- A gain stepped down from an all-zero sector is saved as an unsigned word and comes
back as zero. -/
theorem not_restores_stepped_down :
    let ps := (editorAt .exact (fun _ => 0) [3, 2]).params
    ps.speedpid.p = -1 / 10 ∧
      (flashRead .exact (falshReserve .exact ps fun _ => 0)).speedpid.p = 0 := by
  decide +kernel

/-! ## The number buffer -/

/-- The display of a gain fits its four characters. -/
def GainFits (g : ℚ) : Prop := -1000 < fm.rnd (g * 10) ∧ fm.rnd (g * 10) < 10000

/-- `int speed` fits its four characters. -/
def SpeedFits (speed : ℤ) : Prop := -1000 < speed ∧ speed < 10000

theorem gainFits_iff (g : ℚ) :
    GainFits fm g ↔
      FitsSigned 32 (FloatModel.trunc (fm.rnd (g * 10))) ∧ TextFits (shownGain fm g) := by
  have low : -1000 < FloatModel.trunc (fm.rnd (g * 10)) ↔ -1000 < fm.rnd (g * 10) := by
    exact_mod_cast FloatModel.lt_trunc_iff (by decide : (-1000 : ℤ) < 0) (fm.rnd (g * 10))
  have high : FloatModel.trunc (fm.rnd (g * 10)) < 10000 ↔ fm.rnd (g * 10) < 10000 := by
    exact_mod_cast FloatModel.trunc_lt_iff (by decide : (0 : ℤ) < 10000) (fm.rnd (g * 10))
  rw [GainFits, ← low, ← high, textFits_iff]
  constructor
  · rintro ⟨hlo, hhi⟩
    have fits : FitsSigned 32 (FloatModel.trunc (fm.rnd (g * 10))) :=
      ⟨by norm_num; omega, by norm_num; omega⟩
    rw [shownGain, fm.toI32_of_fits fits]
    exact ⟨fits, hlo, hhi⟩
  · rintro ⟨fits, h⟩
    rwa [shownGain, fm.toI32_of_fits fits] at h

theorem numbersFit_iff (ps : Params) :
    NumbersFit fm ps ↔ ps.AllGains (GainFits fm) ∧ SpeedFits ps.speed := by
  simp only [NumbersFit, Params.AllGains, gainFits_iff, shownNumbers, List.mem_cons,
    List.not_mem_nil, or_false, forall_eq_or_imp, forall_eq, SpeedFits, ← textFits_iff]
  constructor
  · rintro ⟨⟨⟨f1, f2, f3⟩, f4, f5, f6⟩, t1, t2, t3, t4, t5, t6, t7⟩
    exact ⟨⟨⟨⟨f1, t1⟩, ⟨f2, t2⟩, f3, t3⟩, ⟨f4, t4⟩, ⟨f5, t5⟩, f6, t6⟩, t7⟩
  · rintro ⟨⟨⟨⟨f1, t1⟩, ⟨f2, t2⟩, f3, t3⟩, ⟨f4, t4⟩, ⟨f5, t5⟩, f6, t6⟩, t7⟩
    exact ⟨⟨⟨f1, f2, f3⟩, f4, f5, f6⟩, t1, t2, t3, t4, t5, t6, t7⟩

/-- The marked parameter is at an edge that the key moves it across: key 2 takes a
gain, or the speed, below what four characters show, or key 1 takes a steering gain
above it. -/
def AtEdge (key item : ℕ) (ps : Params) : Prop :=
  let g := ps.values.getD (item - 1) 0
  (key = 2 ∧ item ≤ 6 ∧ fm.rnd (stepGain fm key g * 10) ≤ -1000) ∨
    (key = 1 ∧ 4 ≤ item ∧ item ≤ 6 ∧ 10000 ≤ fm.rnd (stepGain fm key g * 10)) ∨
    (key = 2 ∧ item = 7 ∧ ps.speed = -999)

instance (key item : ℕ) (ps : Params) : Decidable (AtEdge fm key item ps) :=
  inferInstanceAs (Decidable (_ ∨ _ ∨ _))

/-- A key consumed in the edit mode that finds the marked parameter at an edge. -/
def EdgeKey (e : Editor) (key : ℕ) : Prop :=
  e.ui.arrowState ≠ 0 ∧ AtEdge fm key e.ui.item e.params

instance (e : Editor) (key : ℕ) : Decidable (EdgeKey fm e key) :=
  inferInstanceAs (Decidable (_ ∧ _))

section Edges

variable {fm}

theorem stepGain_one (g : ℚ) :
    stepGain fm 1 g = fm.rnd (fm.rndD (g + fm.rndD (1 / 10))) := rfl

theorem stepGain_two (g : ℚ) :
    stepGain fm 2 g = fm.rnd (fm.rndD (g - fm.rndD (1 / 10))) := rfl

theorem stepGain_other {key : ℕ} (h1 : key ≠ 1) (h2 : key ≠ 2) (g : ℚ) :
    stepGain fm key g = g := by
  simp [stepGain, h1, h2]

variable (rounds : fm.Rounds)

include rounds

theorem rndD_tenth_nonneg : 0 ≤ fm.rndD (1 / 10) :=
  rounds.le_rndD rounds.rnd_zero (by norm_num)

/-- From a `float`, key 1 does not step down. -/
theorem le_stepGain_one {g : ℚ} (float : fm.rnd g = g) : g ≤ stepGain fm 1 g := by
  have up : g ≤ g + fm.rndD (1 / 10) := le_add_of_nonneg_right (rndD_tenth_nonneg rounds)
  exact rounds.le_rnd float (rounds.le_rndD float up)

/-- From a `float`, key 2 does not step up. -/
theorem stepGain_two_le {g : ℚ} (float : fm.rnd g = g) : stepGain fm 2 g ≤ g := by
  have down : g - fm.rndD (1 / 10) ≤ g := sub_le_self g (rndD_tenth_nonneg rounds)
  exact rounds.rnd_le float (rounds.rndD_le float down)

theorem rnd_stepGain {key : ℕ} {g : ℚ} (float : fm.rnd g = g) :
    fm.rnd (stepGain fm key g) = stepGain fm key g := by
  by_cases down : key = 2
  · subst down
    exact rounds.rnd_rnd _
  · by_cases up : key = 1
    · subst up
      exact rounds.rnd_rnd _
    · rw [stepGain_other up down, float]

/-- The wrap of a speed gain catches every step above the display's range. -/
theorem shown_lt_of_le_limit {g : ℚ} (le : g ≤ fm.rndD (999 / 10)) :
    fm.rnd (g * 10) < 10000 := by
  have hundred : fm.rndD (999 / 10) ≤ (100 : ℤ) :=
    rounds.rndD_le (rounds.rnd_intCast 100 (by norm_num)) (by norm_num)
  push_cast at hundred
  have h := rounds.rnd_le (rounds.rnd_intCast 1000 (by norm_num))
    (show g * 10 ≤ ((1000 : ℤ) : ℚ) by push_cast; linarith)
  push_cast at h
  linarith

theorem gainFits_zero : GainFits fm 0 := by
  rw [GainFits, zero_mul, rounds.rnd_zero]
  norm_num

/-- A non-negative gain is shown without a sign. -/
theorem shown_nonneg {g : ℚ} (hg : 0 ≤ g) : 0 ≤ fm.rnd (g * 10) := by
  exact rounds.le_rnd rounds.rnd_zero (by positivity)

theorem gainFits_editTurnGain {key : ℕ} {g : ℚ} (float : fm.rnd g = g) (fits : GainFits fm g) :
    GainFits fm (editTurnGain fm key g) ↔
      ¬ (key = 2 ∧ fm.rnd (stepGain fm key g * 10) ≤ -1000 ∨
        key = 1 ∧ 10000 ≤ fm.rnd (stepGain fm key g * 10)) := by
  obtain ⟨low, high⟩ := id fits
  unfold editTurnGain
  by_cases down : key = 2
  · subst down
    have le := rounds.mono (mul_le_mul_of_nonneg_right (stepGain_two_le rounds float)
      (by norm_num : (0 : ℚ) ≤ 10))
    simp only [GainFits, true_and, show ¬ (2 = 1) by decide, false_and, or_false, not_le]
    exact ⟨fun h => h.1, fun h => ⟨h, by linarith⟩⟩
  · by_cases up : key = 1
    · subst up
      have le := rounds.mono (mul_le_mul_of_nonneg_right (le_stepGain_one rounds float)
        (by norm_num : (0 : ℚ) ≤ 10))
      simp only [GainFits, true_and, show ¬ (1 = 2) by decide, false_and, false_or, not_le]
      exact ⟨fun h => h.2, fun h => ⟨by linarith, h⟩⟩
    · rw [stepGain_other up down]
      simp [up, down, fits]

theorem gainFits_editSpeedGain {key : ℕ} {g : ℚ} (float : fm.rnd g = g)
    (fits : GainFits fm g) :
    GainFits fm (editSpeedGain fm key g) ↔
      ¬ (key = 2 ∧ fm.rnd (stepGain fm key g * 10) ≤ -1000) := by
  have turn : GainFits fm (editTurnGain fm key g) ↔ _ := gainFits_editTurnGain rounds float fits
  unfold editSpeedGain
  by_cases above : stepGain fm key g > fm.rndD (999 / 10)
  · rw [if_pos above]
    have limit : 0 ≤ fm.rndD (999 / 10) := rounds.le_rndD rounds.rnd_zero (by norm_num)
    have pos := shown_nonneg rounds (show 0 ≤ stepGain fm key g by linarith)
    exact ⟨fun _ h => by linarith [h.2], fun _ => gainFits_zero rounds⟩
  · have small := shown_lt_of_le_limit rounds (not_lt.mp above)
    rw [if_neg above]
    unfold editTurnGain at turn
    rw [turn]
    exact ⟨fun h h' => h (Or.inl h'), fun h h' => by
      rcases h' with h' | h'
      · exact h h'
      · linarith [h'.2]⟩

omit rounds in
theorem speedFits_editSpeed {key : ℕ} {speed : ℤ} (fits : SpeedFits speed) :
    SpeedFits (editSpeed key speed) ↔ ¬ (key = 2 ∧ speed = -999) := by
  obtain ⟨low, high⟩ := id fits
  by_cases down : key = 2
  · subst down
    have step : stepSpeed 2 speed = speed - 1 :=
      toSigned_eq_self ⟨by norm_num; omega, by norm_num; omega⟩
    unfold editSpeed SpeedFits
    rw [step]
    split_ifs <;> omega
  · by_cases up : key = 1
    · subst up
      have step : stepSpeed 1 speed = speed + 1 :=
        toSigned_eq_self ⟨by norm_num; omega, by norm_num; omega⟩
      unfold editSpeed SpeedFits
      rw [step]
      split_ifs <;> omega
    · have step : stepSpeed key speed = speed := by simp [stepSpeed, up, down]
      unfold editSpeed SpeedFits
      rw [step]
      split_ifs <;> omega

/-- From numbers that fit, an edit leads to numbers that fit unless it is made at an
edge. -/
theorem numbersFit_editItem {key item : ℕ} (first : 1 ≤ item) (last : item ≤ 7) {ps : Params}
    (floats : ps.AllGains fun g => fm.rnd g = g) (fits : NumbersFit fm ps) :
    NumbersFit fm (editItem fm key item ps) ↔ ¬ AtEdge fm key item ps := by
  rw [numbersFit_iff] at fits ⊢
  obtain ⟨⟨⟨f1, f2, f3⟩, f4, f5, f6⟩, f7⟩ := fits
  obtain ⟨⟨r1, r2, r3⟩, r4, r5, r6⟩ := floats
  have cases : item = 1 ∨ item = 2 ∨ item = 3 ∨ item = 4 ∨ item = 5 ∨ item = 6 ∨ item = 7 := by
    omega
  rcases cases with rfl | rfl | rfl | rfl | rfl | rfl | rfl
  · simpa [editItem, AtEdge, Params.values, Params.AllGains, f2, f3, f4, f5, f6, f7] using
      gainFits_editSpeedGain rounds r1 f1
  · simpa [editItem, AtEdge, Params.values, Params.AllGains, f1, f3, f4, f5, f6, f7] using
      gainFits_editSpeedGain rounds r2 f2
  · simpa [editItem, AtEdge, Params.values, Params.AllGains, f1, f2, f4, f5, f6, f7] using
      gainFits_editSpeedGain rounds r3 f3
  · simpa [editItem, AtEdge, Params.values, Params.AllGains, f1, f2, f3, f5, f6, f7] using
      gainFits_editTurnGain rounds r4 f4
  · simpa [editItem, AtEdge, Params.values, Params.AllGains, f1, f2, f3, f4, f6, f7] using
      gainFits_editTurnGain rounds r5 f5
  · simpa [editItem, AtEdge, Params.values, Params.AllGains, f1, f2, f3, f4, f5, f7] using
      gainFits_editTurnGain rounds r6 f6
  · simpa [editItem, AtEdge, Params.values, Params.AllGains, f1, f2, f3, f4, f5, f6] using
      speedFits_editSpeed f7

/-- The editor keeps its gains in the `float` format. -/
theorem floats_editorStep {e : Editor} (ok : e.ui.Ok) (key : ℕ)
    (floats : e.params.AllGains fun g => fm.rnd g = g) :
    (editorStep fm e key).params.AllGains fun g => fm.rnd g = g := by
  rw [params_editorStep fm ok]
  split_ifs
  · refine allGains_editItem fm ?_ ?_ _ floats
    · intro g float
      unfold editSpeedGain
      split_ifs
      · exact rounds.rnd_zero
      · exact rnd_stepGain rounds float
    · intro g float
      exact rnd_stepGain rounds float
  · exact floats

end Edges

/-- Outside the edit mode keys 1 and 2 move the cursor, inside it they leave it. -/
theorem arrowState_pressed {key : ℕ} (h : key = 1 ∨ key = 2) (u : SetUi) :
    (u.arrowState = 0 → (u.pressed key).arrowState = 0) ∧
      (u.arrowState ≠ 0 → u.pressed key = u) := by
  have up : u.up.arrowState = u.arrowState := by
    unfold SetUi.up
    split_ifs <;> rfl
  have down : u.down.arrowState = u.arrowState := by
    unfold SetUi.down
    split_ifs <;> rfl
  rcases h with rfl | rfl
  · exact ⟨fun h => by simp [SetUi.pressed, h, up], fun h => by simp [SetUi.pressed, h]⟩
  · exact ⟨fun h => by simp [SetUi.pressed, h, down], fun h => by simp [SetUi.pressed, h]⟩

theorem not_atEdge {key : ℕ} (h : ¬ (key = 1 ∨ key = 2)) (item : ℕ) (ps : Params) :
    ¬ AtEdge fm key item ps := by
  rintro (⟨rfl, -⟩ | ⟨rfl, -⟩ | ⟨rfl, -⟩)
  · exact h (Or.inr rfl)
  · exact h (Or.inl rfl)
  · exact h (Or.inr rfl)

/-- What one key does to the seven displays. -/
theorem numbersFit_editorStep {fm : FloatModel} (rounds : fm.Rounds) {e : Editor}
    (ok : e.ui.Ok) (floats : e.params.AllGains fun g => fm.rnd g = g) (key : ℕ)
    (fits : NumbersFit fm e.params) :
    NumbersFit fm (editorStep fm e key).params ↔ ¬ EdgeKey fm e key := by
  obtain ⟨first, last⟩ := (ok.pressed key).item_mem
  have edit : NumbersFit fm (editItem fm key (e.ui.pressed key).item e.params) ↔ _ :=
    numbersFit_editItem rounds first last floats fits
  rw [params_editorStep fm ok, EdgeKey]
  by_cases moves : key = 1 ∨ key = 2
  · obtain ⟨outside, inside⟩ := arrowState_pressed moves e.ui
    by_cases mode : e.ui.arrowState = 0
    · rw [if_neg (fun h => h.1 (outside mode))]
      exact ⟨fun _ h => h.1 mode, fun _ => fits⟩
    · have stays : ¬ e.ui.Leaves key := fun h => by
        rcases moves with rfl | rfl
        · exact absurd h.1 (by decide)
        · exact absurd h.1 (by decide)
      rw [inside mode] at edit ⊢
      rw [if_pos ⟨mode, stays⟩, edit]
      simp only [ne_eq, mode, not_false_eq_true, true_and]
  · refine iff_of_true ?_ fun h => not_atEdge fm moves _ _ h.2
    split_ifs
    · exact edit.mpr (not_atEdge fm moves _ _)
    · exact fits

/-- The edge as it is seen on the panel: key 2 at `-999`, or key 1 at `9999` on a
steering gain. -/
def ShownEdge (key item : ℕ) (ps : Params) : Prop :=
  let n := (shownNumbers fm ps).getD (item - 1) 0
  key = 2 ∧ n = -999 ∨ key = 1 ∧ (4 ≤ item ∧ item ≤ 6) ∧ n = 9999

/-- In exact arithmetic a gain of `m` tenths is shown as `m`, and steps to `m-1` and
`m+1` tenths. -/
theorem shownGain_exact {fm : FloatModel} (hexact : fm.IsExact) {g : ℚ} (tenths : Tenths g)
    (fits : GainFits fm g) :
    (fm.rnd (stepGain fm 2 g * 10) ≤ -1000 ↔ shownGain fm g = -999) ∧
      (10000 ≤ fm.rnd (stepGain fm 1 g * 10) ↔ shownGain fm g = 9999) := by
  obtain ⟨m, hm⟩ := tenths
  have defined := ((gainFits_iff fm g).mp fits).1
  have shown : shownGain fm g = m := by
    rw [shownGain, fm.toI32_of_fits defined, hexact.rnd_eq, hm, FloatModel.trunc_intCast]
  rw [GainFits, hexact.rnd_eq, hm] at fits
  have low : (-1000 : ℤ) < m := by exact_mod_cast fits.1
  have high : m < (10000 : ℤ) := by exact_mod_cast fits.2
  have down : stepGain fm 2 g * 10 = ((m - 1 : ℤ) : ℚ) := by
    rw [stepGain_two, hexact.rnd_eq, hexact.rndD_eq, hexact.rndD_eq, sub_mul, hm]
    push_cast
    ring
  have up : stepGain fm 1 g * 10 = ((m + 1 : ℤ) : ℚ) := by
    rw [stepGain_one, hexact.rnd_eq, hexact.rndD_eq, hexact.rndD_eq, add_mul, hm]
    push_cast
    ring
  rw [hexact.rnd_eq, hexact.rnd_eq, down, up, shown]
  constructor
  · have cast : ((m - 1 : ℤ) : ℚ) ≤ -1000 ↔ m - 1 ≤ -1000 := by exact_mod_cast Iff.rfl
    rw [cast]
    omega
  · have cast : (10000 : ℚ) ≤ ((m + 1 : ℤ) : ℚ) ↔ 10000 ≤ m + 1 := by exact_mod_cast Iff.rfl
    rw [cast]
    omega

theorem atEdge_iff_shownEdge {fm : FloatModel} (hexact : fm.IsExact) {key item : ℕ}
    (first : 1 ≤ item) (last : item ≤ 7) {ps : Params} (tenths : ps.AllGains Tenths)
    (fits : NumbersFit fm ps) : AtEdge fm key item ps ↔ ShownEdge fm key item ps := by
  obtain ⟨⟨⟨f1, f2, f3⟩, f4, f5, f6⟩, -⟩ := (numbersFit_iff fm ps).mp fits
  obtain ⟨⟨t1, t2, t3⟩, t4, t5, t6⟩ := tenths
  have gain : ∀ g, Tenths g → GainFits fm g → item ≤ 6 → ps.values.getD (item - 1) 0 = g →
      (shownNumbers fm ps).getD (item - 1) 0 = shownGain fm g →
      (AtEdge fm key item ps ↔ ShownEdge fm key item ps) := by
    intro g tenths fits small value shown
    obtain ⟨down, up⟩ := shownGain_exact hexact tenths fits
    unfold AtEdge ShownEdge
    rw [value, shown]
    constructor
    · rintro (⟨rfl, -, h⟩ | ⟨rfl, h4, h6, h⟩ | ⟨-, rfl, -⟩)
      · exact Or.inl ⟨rfl, down.mp h⟩
      · exact Or.inr ⟨rfl, ⟨h4, h6⟩, up.mp h⟩
      · omega
    · rintro (⟨rfl, h⟩ | ⟨rfl, ⟨h4, h6⟩, h⟩)
      · exact Or.inl ⟨rfl, small, down.mpr h⟩
      · exact Or.inr (Or.inl ⟨rfl, h4, h6, up.mpr h⟩)
  have cases : item = 1 ∨ item = 2 ∨ item = 3 ∨ item = 4 ∨ item = 5 ∨ item = 6 ∨ item = 7 := by
    omega
  rcases cases with rfl | rfl | rfl | rfl | rfl | rfl | rfl
  · exact gain _ t1 f1 (by decide) rfl rfl
  · exact gain _ t2 f2 (by decide) rfl rfl
  · exact gain _ t3 f3 (by decide) rfl rfl
  · exact gain _ t4 f4 (by decide) rfl rfl
  · exact gain _ t5 f5 (by decide) rfl rfl
  · exact gain _ t6 f6 (by decide) rfl rfl
  · simp [AtEdge, ShownEdge, shownNumbers]

/-- **When the number buffer overflows.**  For every sector and every sequence of keys:
all conversions are defined and fit their four characters at every `OSMboxPend` of
`Set_UI` exactly when the loaded parameters fit and no key is consumed in the edit
mode with the marked parameter at an edge.  In exact arithmetic the edges are the ones
seen on the panel, `-999` under key 2 and, on a steering gain, `9999` under key 1. -/
theorem numbersFit_throughout_iff {fm : FloatModel} (rounds : fm.Rounds) (sector : Flash)
    (keys : List ℕ) :
    let start := Editor.start fm (flashRead fm sector)
    let Fits := fun e : Editor => NumbersFit fm e.params
    (Throughout Fits (editorStep fm) start keys ↔
        NumbersFit fm (flashRead fm sector) ∧
          Guarded (fun e key => ¬ EdgeKey fm e key) (editorStep fm) start keys) ∧
      (fm.IsExact →
        (Throughout Fits (editorStep fm) start keys ↔
          NumbersFit fm (flashRead fm sector) ∧
            Guarded
              (fun e key => ¬ (e.ui.arrowState ≠ 0 ∧ ShownEdge fm key e.ui.item e.params))
              (editorStep fm) start keys)) := by
  intro start Fits
  have start_eq : start = ⟨SetUi.init, flashRead fm sector⟩ := Editor.start_eq fm _
  have loaded : NumbersFit fm (flashRead fm sector) = Fits start := by rw [start_eq]
  have float : ∀ w : BitVec 32, fm.rnd (wordGain fm w) = wordGain fm w :=
    fun w => rounds.rnd_rnd _
  have floats : start.params.AllGains fun g => fm.rnd g = g := by
    rw [start_eq]
    exact ⟨⟨float _, float _, float _⟩, float _, float _, float _⟩
  have ok : start.ui.Ok := by
    rw [start_eq]
    exact SetUi.ok_init
  rw [loaded]
  constructor
  · refine throughout_iff_guarded
      (I := fun e : Editor => e.ui.Ok ∧ e.params.AllGains fun g => fm.rnd g = g)
      ?_ ?_ ⟨ok, floats⟩ keys
    · rintro e key ⟨ok, floats⟩
      exact ⟨ok_editorStep fm ok key, floats_editorStep rounds ok key floats⟩
    · rintro e key ⟨ok, floats⟩ fits
      exact numbersFit_editorStep rounds ok floats key fits
  · intro hexact
    obtain ⟨gains, speed⟩ := flashRead_exact hexact sector
    refine throughout_iff_guarded
      (I := fun e : Editor => e.ui.Ok ∧ (e.params.AllGains fun g => fm.rnd g = g) ∧
        e.params.AllGains Tenths ∧ FitsSigned 32 e.params.speed)
      ?_ ?_ ⟨ok, floats, ?_⟩ keys
    · rintro e key ⟨ok, floats, tenths⟩
      exact ⟨ok_editorStep fm ok key, floats_editorStep rounds ok key floats,
        tenths_editorStep hexact ok key tenths⟩
    · rintro e key ⟨ok, floats, tenths, -⟩ fits
      have step := numbersFit_editorStep rounds ok floats key fits
      rw [EdgeKey, atEdge_iff_shownEdge hexact ok.item_mem.1 ok.item_mem.2 tenths fits] at step
      exact step
    · rw [start_eq]
      exact ⟨gains.imp fun g hg => hg.1, speed⟩

/-- The sector with one steering gain at the upper end of the display. -/
def topSector : Flash := Function.update (fun _ => 0) (sectorNum * flashSectorSize + 12) 9999

/-- From a sector whose numbers all fit, the cursor moves to that gain and key 1 takes
it to five digits. -/
theorem not_numbersFit_stepped_up :
    NumbersFit .cortexM4 (flashRead .cortexM4 topSector) ∧
      ¬ NumbersFit .cortexM4 (editorAt .cortexM4 topSector [2, 2, 2, 3, 1]).params := by
  decide +kernel

/-- On the target, editing that gain the other way keeps all numbers in place. -/
theorem numbersFit_throughout_stepped_down :
    Throughout (fun e => NumbersFit .cortexM4 e.params) (editorStep .cortexM4)
      (Editor.start .cortexM4 (flashRead .cortexM4 topSector)) [2, 2, 2, 3, 2] :=
  (numbersFit_throughout_iff FloatModel.rounds_cortexM4 topSector [2, 2, 2, 3, 2]).1.mpr
    (by decide +kernel)

end CannonCar
