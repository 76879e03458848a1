import CannonCar.Ad.Filter

/-!
# The normalisation of the readings

`guiyi` of `work/AD/ad.c` divides a reading by the span of the extreme values `max_min` has
kept of it and scales by 800; `AdStartTask` divides by the sum of two such values.  `ad`
and `guiyi` run in the task of the sensors, `max_min` while a menu page is open, so the
events come in any order.

The reading is divided as it is, with the least value not taken off.  The scaled values
therefore reach 800 at the top of the calibrated range only if the range starts at zero.
`normalised_iff` says what a history must have shown for everything to be well defined.

## What is load-bearing

**Order of events.**  `guiyi` may be called before `max_min` has been shown anything, when the
extreme values are still crossed.  `Normalised` therefore asks for spans that are positive and
a sum that is not zero, besides the range and the order of the scaled values.

**Any IEEE-like arithmetic.**  The bounds are proved for every `FloatModel` that rounds
monotonically and keeps small whole numbers, so they do not depend on the precision.

**`max_min` sees the filtered readings.**  `shown` lists what it has been shown in a history;
the extreme values are those of this list and of the constants they start from (`Extremes`),
whatever conversions came in between.
-/

namespace CannonCar

open Trajectory

variable (fm : FloatModel)

/-! ## `guiyi` -/

/-- A divisor of `guiyi`. -/
def guiyiSpan (max min : ℚ) : ℚ := fm.rnd (fm.rnd max - fm.rnd min)

/-- `((float)ad/((float)ad_max - (float)ad_min))*800`. -/
def guiyiOf (max min : ℚ) (ad : ℤ) : ℚ :=
  fm.rnd (fm.rnd (fm.rnd ad / guiyiSpan fm max min) * fm.rnd (800 : ℤ))

/-- `guiyi_ad1` as `guiyi` leaves it. -/
def guiyiAd1 (s : Sensors) (r : AdRange) : ℚ := guiyiOf fm r.ad3Max r.ad3Min s.ad3

/-- `guiyi_ad3` as `guiyi` leaves it. -/
def guiyiAd3 (s : Sensors) (r : AdRange) : ℚ := guiyiOf fm r.ad4Max r.ad4Min s.ad4

/-- The divisor of `AdStartTask`. -/
def guiyiSum (s : Sensors) (r : AdRange) : ℚ := fm.rnd (guiyiAd1 fm s r + guiyiAd3 fm s r)

/-- A sensor maps its calibrated range into `[0, 800]` and keeps the order. -/
structure Scaled (max min : ℚ) : Prop where
  nonneg : ∀ ad : ℤ, min ≤ ad → ad ≤ max → 0 ≤ guiyiOf fm max min ad
  le : ∀ ad : ℤ, min ≤ ad → ad ≤ max → guiyiOf fm max min ad ≤ 800
  mono : ∀ ad ad' : ℤ, min ≤ ad → ad ≤ ad' → ad' ≤ max →
    guiyiOf fm max min ad ≤ guiyiOf fm max min ad'

/-- The normalisation is well defined and bounded. -/
structure Normalised (s : Sensors) (r : AdRange) : Prop where
  span3 : 0 < guiyiSpan fm r.ad3Max r.ad3Min
  span4 : 0 < guiyiSpan fm r.ad4Max r.ad4Min
  scaled3 : Scaled fm r.ad3Max r.ad3Min
  scaled4 : Scaled fm r.ad4Max r.ad4Min
  sum : guiyiSum fm s r ≠ 0

/-! ## Histories -/

/-- What happens to the globals. -/
inductive AdEvent
  /-- `ad`, with the results of its conversions. -/
  | ad (raw : Channel → ℕ)
  | maxMin

/-- The globals of the filter and the extreme values. -/
structure AdState where
  filter : Filter
  range : AdRange

def AdState.init : AdState := ⟨Filter.init, AdRange.init⟩

/-- One event. -/
def adStep (st : AdState) : AdEvent → AdState
  | .ad raw => { st with filter := ad st.filter raw }
  | .maxMin => { st with range := maxMin fm st.filter.sensors st.range }

/-- The globals after a sequence of events. -/
def adStateAfter (es : List AdEvent) : AdState := run (adStep fm) AdState.init es

/-- The conversions of a history. -/
def conversions (es : List AdEvent) : List (Channel → ℕ) :=
  es.filterMap fun
    | .ad raw => some raw
    | .maxMin => none

/-- The values `max_min` has been shown of a channel. -/
def shown (c : Channel) (es : List AdEvent) : Set ℤ :=
  {v | ∃ before, before ++ [.maxMin] <+: es ∧ v = smoothed (conversions before) c}

/-- A channel has been shown both without a signal and with one. -/
def BothShown (seen : Set ℤ) : Prop := 0 ∈ seen ∧ ∃ v ∈ seen, 0 < v

/-- The history has calibrated the sensors, and one of them has a signal now. -/
structure Calibrated (es : List AdEvent) : Prop where
  ad3 : BothShown (shown .ad3 es)
  ad4 : BothShown (shown .ad4 es)
  signal : 0 < smoothed (conversions es) .ad3 ∨ 0 < smoothed (conversions es) .ad4

theorem shown_nil (c : Channel) : shown c [] = ∅ := by
  ext v
  simp [shown]

theorem shown_ad (c : Channel) (es : List AdEvent) (raw : Channel → ℕ) :
    shown c (es ++ [.ad raw]) = shown c es := by
  ext v
  simp [shown, List.prefix_concat_iff]

theorem shown_maxMin (c : Channel) (es : List AdEvent) :
    shown c (es ++ [.maxMin]) = insert (smoothed (conversions es) c : ℤ) (shown c es) := by
  ext v
  simp only [shown, List.prefix_concat_iff, List.append_left_inj, Set.mem_ofPred_eq, or_and_right,
    exists_or, exists_eq_left, Set.mem_insert_iff]

/-! ## The extreme values of a history -/

/-- The extreme values kept of the values seen, with the constants they start from. -/
def Extremes (seen : Set ℤ) (max min : ℚ) : Prop :=
  ∃ hi lo : ℤ, max = hi ∧ min = lo ∧ IsGreatest (insert 0 seen) hi ∧ IsLeast (insert 900 seen) lo

theorem extremes_init : Extremes ∅ 0 900 :=
  ⟨0, 900, by norm_num, by norm_num, by simp, by simp⟩

/-- `max_min` keeps the extreme values. -/
theorem Extremes.insert {seen : Set ℤ} {max min : ℚ} (h : Extremes seen max min) (v : ℤ) :
    Extremes (insert v seen) (if max ≤ v then v else max) (if min ≥ v then v else min) := by
  obtain ⟨hi, lo, rfl, rfl, greatest, least⟩ := h
  refine ⟨Max.max v hi, Min.min v lo, ?_, ?_, ?_, ?_⟩
  · rw [Int.cast_max, max_def']
  · rw [Int.cast_min, min_def]
  · rw [Set.insert_comm]
    exact greatest.insert v
  · rw [Set.insert_comm]
    exact least.insert v

/-- Both extremes are out of their constants exactly when both kinds have been seen. -/
theorem Extremes.bothShown_iff {seen : Set ℤ} {max min : ℚ} (h : Extremes seen max min)
    (nonneg : ∀ v ∈ seen, 0 ≤ v) : BothShown seen ↔ min = 0 ∧ 0 < max := by
  obtain ⟨hi, lo, rfl, rfl, ⟨attained, bound⟩, ⟨attained', bound'⟩⟩ := h
  norm_cast
  constructor
  · rintro ⟨zero, v, mem, pos⟩
    have low : lo ≤ 0 := bound' (Set.mem_insert_of_mem 900 zero)
    refine ⟨?_, pos.trans_le (bound (Set.mem_insert_of_mem 0 mem))⟩
    rcases attained' with rfl | mem'
    · exact absurd low (by norm_num)
    · exact le_antisymm low (nonneg lo mem')
  · rintro ⟨rfl, pos⟩
    refine ⟨attained'.resolve_left (by norm_num), hi, ?_, pos⟩
    exact attained.resolve_left pos.ne'

/-- The extremes of 12-bit values are integers that `float` holds. -/
theorem Extremes.bounds {seen : Set ℤ} {max min : ℚ} (h : Extremes seen max min)
    (twelve : ∀ v ∈ seen, 0 ≤ v ∧ v < 4096) :
    ∃ hi lo : ℤ, max = hi ∧ min = lo ∧ 0 ≤ hi ∧ hi < 4096 ∧ 0 ≤ lo ∧ lo < 4096 := by
  obtain ⟨hi, lo, max_eq, min_eq, ⟨attained, -⟩, ⟨attained', -⟩⟩ := h
  have top : 0 ≤ hi ∧ hi < 4096 := by
    rcases attained with rfl | mem
    · decide
    · exact twelve hi mem
  have bottom : 0 ≤ lo ∧ lo < 4096 := by
    rcases attained' with rfl | mem
    · decide
    · exact twelve lo mem
  exact ⟨hi, lo, max_eq, min_eq, top.1, top.2, bottom.1, bottom.2⟩

/-! ## The globals of a history -/

/-- Of 12-bit conversions, every value of the filter has 12 bits. -/
theorem smoothed_lt {raws : List (Channel → ℕ)} {c : Channel}
    (twelve : ∀ raw ∈ raws, raw c < 4096) : smoothed raws c < 4096 := by
  have each : ∀ k, ago raws c k < 4096 := by
    intro k
    rw [ago, List.getD_eq_getElem?_getD]
    cases at_k : (raws.reverse.map (· c))[k]? with
    | none => decide
    | some x =>
        obtain ⟨raw, mem, rfl⟩ := List.mem_map.mp (List.mem_of_getElem? at_k)
        exact twelve raw (List.mem_reverse.mp mem)
  have newest := each 0
  have second := each 1
  have third := each 2
  have fourth := each 3
  unfold smoothed
  omega

/-- Every conversion of the history has 12 bits. -/
def TwelveBit (es : List AdEvent) : Prop := ∀ raw, .ad raw ∈ es → ∀ c, raw c < 4096

theorem mem_conversions {es : List AdEvent} {raw : Channel → ℕ} :
    raw ∈ conversions es ↔ .ad raw ∈ es := by
  rw [conversions, List.mem_filterMap]
  constructor
  · rintro ⟨e, mem, some_⟩
    cases e with
    | ad raw' =>
        cases some_
        exact mem
    | maxMin => cases some_
  · intro mem
    exact ⟨_, mem, rfl⟩

theorem twelveBit_iff {es : List AdEvent} :
    TwelveBit es ↔ ∀ raw ∈ conversions es, ∀ c, raw c < 4096 :=
  forall_congr' fun _ => by rw [mem_conversions]

theorem TwelveBit.smoothed_lt {es : List AdEvent} (h : TwelveBit es) (c : Channel) :
    smoothed (conversions es) c < 4096 :=
  CannonCar.smoothed_lt fun raw mem => twelveBit_iff.mp h raw mem c

theorem TwelveBit.shown {es : List AdEvent} (h : TwelveBit es) (c : Channel) :
    ∀ v ∈ shown c es, 0 ≤ v ∧ v < 4096 := by
  rintro _ ⟨before, earlier, rfl⟩
  have twelve : TwelveBit before := fun raw mem =>
    h raw (earlier.subset (List.mem_append_left _ mem))
  have small := twelve.smoothed_lt c
  omega

/-- What the globals hold after a history. -/
structure Records (es : List AdEvent) (st : AdState) : Prop where
  filter : st.filter = adAfter (conversions es)
  range3 : Extremes (shown .ad3 es) st.range.ad3Max st.range.ad3Min
  range4 : Extremes (shown .ad4 es) st.range.ad4Max st.range.ad4Min

variable {fm}

theorem Records.init : Records [] AdState.init where
  filter := rfl
  range3 := by
    rw [shown_nil]
    exact extremes_init
  range4 := by
    rw [shown_nil]
    exact extremes_init

/-- One more event is recorded. -/
theorem Records.step (rounds : fm.Rounds) {es : List AdEvent} {st : AdState} (h : Records es st)
    (twelve : TwelveBit es) (e : AdEvent) : Records (es ++ [e]) (adStep fm st e) := by
  obtain ⟨filter, range3, range4⟩ := h
  cases e with
  | ad raw =>
      refine ⟨?_, ?_, ?_⟩
      · have more : conversions (es ++ [.ad raw]) = conversions es ++ [raw] :=
          List.filterMap_append
        rw [more, adAfter_concat, ← filter]
        rfl
      · rw [shown_ad]
        exact range3
      · rw [shown_ad]
        exact range4
  | maxMin =>
      have reads : ∀ c, st.filter.sensors.reading c = smoothed (conversions es) c := by
        intro c
        rw [filter, reading_eq]
      refine ⟨?_, ?_, ?_⟩
      · have same : conversions (es ++ [.maxMin]) = conversions es := by
          simp [conversions]
        rw [same]
        exact filter
      · have kept := range3.insert (smoothed (conversions es) .ad3)
        rw [← reads .ad3] at kept
        rw [shown_maxMin, ← reads .ad3]
        simp only [adStep, maxMin, apply_ite (Int.cast (R := ℚ))]
        exact_mod_cast kept
      · have kept := range4.insert (smoothed (conversions es) .ad4)
        have small := twelve.smoothed_lt .ad4
        have float : fm.rnd st.filter.sensors.ad4 = st.filter.sensors.ad4 := by
          refine rounds.rnd_intCast _ ?_
          rw [show st.filter.sensors.ad4 = _ from reads .ad4]
          rw [abs_of_nonneg (by omega)]
          omega
        rw [← reads .ad4] at kept
        rw [shown_maxMin, ← reads .ad4]
        simp only [adStep, maxMin, float]
        exact kept

/-- **What the globals hold after a history**: the filter of its conversions, and the
extreme values of what `max_min` has been shown. -/
theorem records_adStateAfter (rounds : fm.Rounds) {es : List AdEvent} (twelve : TwelveBit es) :
    Records es (adStateAfter fm es) := by
  induction es using List.reverseRecOn with
  | nil => exact Records.init
  | append_singleton es e ih =>
      have before : TwelveBit es := fun raw mem => twelve raw (List.mem_append_left _ mem)
      rw [adStateAfter, run_concat]
      exact (ih before).step rounds before e

/-! ## One sensor -/

/-- A small integer is a `float`. -/
theorem rnd_small (rounds : fm.Rounds) {n : ℤ} (low : 0 ≤ n) (high : n < 4096) :
    fm.rnd n = n := by
  refine rounds.rnd_intCast n ?_
  rw [abs_of_nonneg low]
  omega

theorem rnd_scale (rounds : fm.Rounds) : fm.rnd (800 : ℤ) = 800 := by
  rw [rnd_small rounds (by decide) (by decide)]
  norm_num

theorem guiyiSpan_eq (rounds : fm.Rounds) {hi lo : ℤ} (hhi : 0 ≤ hi ∧ hi < 4096)
    (hlo : 0 ≤ lo ∧ lo < 4096) : guiyiSpan fm hi lo = (hi - lo : ℤ) := by
  rw [guiyiSpan, rnd_small rounds hhi.1 hhi.2, rnd_small rounds hlo.1 hlo.2, ← Int.cast_sub]
  exact rounds.rnd_intCast _ (by rw [abs_le]; omega)

section Sensor

variable (rounds : fm.Rounds) (dyadics : fm.KeepsDyadics) {hi lo : ℤ}
include rounds

/-- Over a positive span, scaling keeps the order. -/
theorem guiyiOf_mono (span : 0 < guiyiSpan fm hi lo) {ad ad' : ℤ} (le : ad ≤ ad') :
    guiyiOf fm hi lo ad ≤ guiyiOf fm hi lo ad' := by
  have scale : (0 : ℚ) ≤ fm.rnd (800 : ℤ) := by
    rw [rnd_scale rounds]
    norm_num
  have cast : (ad : ℚ) ≤ ad' := by exact_mod_cast le
  refine rounds.mono (mul_le_mul_of_nonneg_right (rounds.mono ?_) scale)
  exact div_le_div_of_nonneg_right (rounds.mono cast) span.le

theorem guiyiOf_zero (max min : ℚ) : guiyiOf fm max min 0 = 0 := by
  have zero := rounds.rnd_zero
  rw [guiyiOf, Int.cast_zero, zero, zero_div, zero, zero_mul, zero]

/-- From zero, the span is the greatest value. -/
theorem guiyiSpan_zero (hhi : 0 < hi ∧ hi < 4096) : guiyiSpan fm hi (0 : ℤ) = hi := by
  have span := guiyiSpan_eq rounds ⟨hhi.1.le, hhi.2⟩ (show 0 ≤ (0 : ℤ) ∧ (0 : ℤ) < 4096 by decide)
  rwa [sub_zero] at span

theorem guiyiSpan_pos (hhi : 0 < hi ∧ hi < 4096) : 0 < guiyiSpan fm hi (0 : ℤ) := by
  rw [guiyiSpan_zero rounds hhi]
  exact_mod_cast hhi.1

theorem guiyiOf_nonneg (hhi : 0 < hi ∧ hi < 4096) {ad : ℤ} (low : 0 ≤ ad) :
    0 ≤ guiyiOf fm hi (0 : ℤ) ad :=
  calc 0 = guiyiOf fm hi (0 : ℤ) 0 := (guiyiOf_zero rounds _ _).symm
    _ ≤ guiyiOf fm hi (0 : ℤ) ad := guiyiOf_mono rounds (guiyiSpan_pos rounds hhi) low

/-- The top of a range that starts at zero is scaled to 800. -/
theorem guiyiOf_top (hhi : 0 < hi ∧ hi < 4096) : guiyiOf fm hi (0 : ℤ) hi = 800 := by
  have one : fm.rnd 1 = 1 := by
    have one := rnd_small rounds (show (0 : ℤ) ≤ 1 by decide) (by decide)
    rwa [Int.cast_one] at one
  rw [guiyiOf, guiyiSpan_zero rounds hhi, rnd_small rounds hhi.1.le hhi.2,
    div_self (by exact_mod_cast hhi.1.ne'), one, one_mul, rnd_scale rounds]
  have scale := rnd_scale rounds
  push_cast at scale
  exact scale

include dyadics

/-- A ratio that a dyadic fraction bounds is scaled to above every dyadic fraction that
bounds 800 times the first. -/
theorem le_guiyiOf {m n : ℤ} (small : |m| ≤ 2 ^ 24) (small' : |n| ≤ 2 ^ 24) {ad : ℤ}
    (range : 0 ≤ ad ∧ ad < 4096) (ratio : (m : ℚ) / 2 ^ 12 ≤ ad / guiyiSpan fm hi lo)
    (scaled : (n : ℚ) / 2 ^ 3 ≤ m / 2 ^ 12 * 800) :
    (n : ℚ) / 2 ^ 3 ≤ guiyiOf fm hi lo ad := by
  have quotient := rounds.le_rnd (dyadics m 12 small (by decide)) ratio
  rw [guiyiOf, rnd_small rounds range.1 range.2, rnd_scale rounds]
  refine rounds.le_rnd (dyadics n 3 small' (by decide)) ?_
  calc (n : ℚ) / 2 ^ 3 ≤ m / 2 ^ 12 * 800 := scaled
    _ ≤ fm.rnd (ad / guiyiSpan fm hi lo) * 800 :=
        mul_le_mul_of_nonneg_right quotient (by norm_num)

/-- **When a sensor is scaled**: its calibrated range starts at zero. -/
theorem scaled_iff (hhi : 0 ≤ hi ∧ hi < 4096) (hlo : 0 ≤ lo ∧ lo < 4096) :
    (0 < guiyiSpan fm hi lo ∧ Scaled fm hi lo) ↔ lo = 0 ∧ 0 < hi := by
  constructor
  · rintro ⟨span, scaled⟩
    have span_eq := guiyiSpan_eq rounds hhi hlo
    have pos : lo < hi := by
      rw [span_eq, Int.cast_pos] at span
      omega
    suffices zero : lo = 0 by omega
    by_contra ne
    -- At the top of the range the ratio is more than 1 by a 4096th at least.
    have ratio : ((4097 : ℤ) : ℚ) / 2 ^ 12 ≤ hi / guiyiSpan fm hi lo := by
      have one : (1 : ℚ) ≤ lo := by exact_mod_cast (by omega : (1 : ℤ) ≤ lo)
      have top : (hi : ℚ) ≤ 4095 := by exact_mod_cast (by omega : hi ≤ 4095)
      rw [le_div_iff₀ span, span_eq]
      push_cast
      linarith
    have above : ((6401 : ℤ) : ℚ) / 2 ^ 3 ≤ guiyiOf fm hi lo hi :=
      le_guiyiOf rounds dyadics (by norm_num) (by norm_num) hhi ratio (by norm_num)
    have below := scaled.le hi (by exact_mod_cast pos.le) le_rfl
    norm_num at above
    linarith
  · rintro ⟨rfl, pos⟩
    have span := guiyiSpan_pos rounds ⟨pos, hhi.2⟩
    refine ⟨span, ?_, ?_, ?_⟩
    · intro ad low _
      exact guiyiOf_nonneg rounds ⟨pos, hhi.2⟩ (by exact_mod_cast low)
    · intro ad _ high
      rw [← guiyiOf_top rounds ⟨pos, hhi.2⟩]
      exact guiyiOf_mono rounds span (by exact_mod_cast high)
    · intro ad ad' _ le _
      exact guiyiOf_mono rounds span le

/-- A signal is scaled to an eighth at least. -/
theorem eighth_le_guiyiOf (hhi : 0 < hi ∧ hi < 4096) {ad : ℤ} (range : 0 < ad ∧ ad < 4096) :
    1 / 8 ≤ guiyiOf fm hi (0 : ℤ) ad := by
  have ratio : ((1 : ℤ) : ℚ) / 2 ^ 12 ≤ ad / guiyiSpan fm hi (0 : ℤ) := by
    have one : (1 : ℚ) ≤ ad := by exact_mod_cast range.1
    have top : (hi : ℚ) ≤ 4096 := by exact_mod_cast hhi.2.le
    have pos : (0 : ℚ) < hi := by exact_mod_cast hhi.1
    rw [guiyiSpan_zero rounds hhi, le_div_iff₀ pos]
    push_cast
    linarith
  have above : ((1 : ℤ) : ℚ) / 2 ^ 3 ≤ guiyiOf fm hi (0 : ℤ) ad :=
    le_guiyiOf rounds dyadics (by norm_num) (by norm_num) ⟨range.1.le, range.2⟩ ratio (by norm_num)
  norm_num at above ⊢
  exact above

/-- Of two sensors scaled from zero, the sum vanishes exactly if neither has a signal. -/
theorem sum_ne_zero_iff {hi' ad ad' : ℤ} (hhi : 0 < hi ∧ hi < 4096) (hhi' : 0 < hi' ∧ hi' < 4096)
    (range : 0 ≤ ad ∧ ad < 4096) (range' : 0 ≤ ad' ∧ ad' < 4096) :
    fm.rnd (guiyiOf fm hi (0 : ℤ) ad + guiyiOf fm hi' (0 : ℤ) ad') ≠ 0 ↔ 0 < ad ∨ 0 < ad' := by
  constructor
  · intro ne
    by_contra none_
    obtain rfl : ad = 0 := by omega
    obtain rfl : ad' = 0 := by omega
    apply ne
    rw [guiyiOf_zero rounds, guiyiOf_zero rounds, add_zero, rounds.rnd_zero]
  · intro signal
    have first := guiyiOf_nonneg rounds hhi range.1
    have second := guiyiOf_nonneg rounds hhi' range'.1
    have above : 1 / 8 ≤ guiyiOf fm hi (0 : ℤ) ad + guiyiOf fm hi' (0 : ℤ) ad' := by
      rcases signal with pos | pos
      · exact le_add_of_le_of_nonneg (eighth_le_guiyiOf rounds dyadics hhi ⟨pos, range.2⟩) second
      · exact le_add_of_nonneg_of_le first (eighth_le_guiyiOf rounds dyadics hhi' ⟨pos, range'.2⟩)
    have kept : fm.rnd (1 / 8) = 1 / 8 := by
      have eighth := dyadics 1 3 (by decide) (by decide)
      norm_num at eighth ⊢
      exact eighth
    exact (lt_of_lt_of_le (by norm_num) (rounds.le_rnd kept above)).ne'

end Sensor

/-- Once both kinds have been seen, the calibrated range starts at zero. -/
theorem Extremes.from_zero {seen : Set ℤ} {max min : ℚ} (h : Extremes seen max min)
    (twelve : ∀ v ∈ seen, 0 ≤ v ∧ v < 4096) (both : BothShown seen) :
    ∃ hi : ℤ, max = hi ∧ min = (0 : ℤ) ∧ 0 < hi ∧ hi < 4096 := by
  obtain ⟨zero, pos⟩ := (h.bothShown_iff fun v mem => (twelve v mem).1).mp both
  obtain ⟨hi, lo, rfl, rfl, -, top, -, -⟩ := h.bounds twelve
  exact ⟨hi, rfl, zero.trans Int.cast_zero.symm, by exact_mod_cast pos, top⟩

/-- A sensor is scaled exactly if both kinds have been seen of it. -/
theorem Extremes.scaled_iff (rounds : fm.Rounds) (dyadics : fm.KeepsDyadics) {seen : Set ℤ}
    {max min : ℚ} (h : Extremes seen max min) (twelve : ∀ v ∈ seen, 0 ≤ v ∧ v < 4096) :
    (0 < guiyiSpan fm max min ∧ Scaled fm max min) ↔ BothShown seen := by
  rw [h.bothShown_iff fun v mem => (twelve v mem).1]
  obtain ⟨hi, lo, rfl, rfl, hi0, hi1, lo0, lo1⟩ := h.bounds twelve
  rw [CannonCar.scaled_iff rounds dyadics ⟨hi0, hi1⟩ ⟨lo0, lo1⟩]
  norm_cast

/-- **When the normalisation is well defined and bounded.**  After any sequence of 12-bit
conversions and calls of `max_min`, in any order and in any arithmetic that rounds as IEEE
754 says: exactly if `max_min` has been shown both a zero and a non-zero reading of each of
the two coils, and one of the coils reads more than zero now. -/
theorem normalised_iff (rounds : fm.Rounds) (dyadics : fm.KeepsDyadics) {es : List AdEvent}
    (twelve : TwelveBit es) :
    Normalised fm (adStateAfter fm es).filter.sensors (adStateAfter fm es).range ↔
      Calibrated es := by
  obtain ⟨filter, range3, range4⟩ := records_adStateAfter rounds twelve
  have reads : ∀ c,
      (adStateAfter fm es).filter.sensors.reading c = smoothed (conversions es) c := by
    intro c
    rw [filter, reading_eq]
  have scaled3 := range3.scaled_iff rounds dyadics (twelve.shown .ad3)
  have scaled4 := range4.scaled_iff rounds dyadics (twelve.shown .ad4)
  -- The sum is looked at only where both sensors are scaled.
  have sum : BothShown (shown .ad3 es) → BothShown (shown .ad4 es) →
      (guiyiSum fm (adStateAfter fm es).filter.sensors (adStateAfter fm es).range ≠ 0 ↔
        0 < smoothed (conversions es) .ad3 ∨ 0 < smoothed (conversions es) .ad4) := by
    intro both3 both4
    obtain ⟨hi, max_eq, min_eq, hhi⟩ := range3.from_zero (twelve.shown .ad3) both3
    obtain ⟨hi', max_eq', min_eq', hhi'⟩ := range4.from_zero (twelve.shown .ad4) both4
    have small3 := twelve.smoothed_lt .ad3
    have small4 := twelve.smoothed_lt .ad4
    rw [guiyiSum, guiyiAd1, guiyiAd3, max_eq, min_eq, max_eq', min_eq',
      show (adStateAfter fm es).filter.sensors.ad3 = _ from reads .ad3,
      show (adStateAfter fm es).filter.sensors.ad4 = _ from reads .ad4,
      sum_ne_zero_iff rounds dyadics hhi hhi' (by omega) (by omega)]
    exact or_congr Int.natCast_pos Int.natCast_pos
  constructor
  · rintro ⟨span3, span4, scale3, scale4, ne⟩
    have both3 := scaled3.mp ⟨span3, scale3⟩
    have both4 := scaled4.mp ⟨span4, scale4⟩
    exact ⟨both3, both4, (sum both3 both4).mp ne⟩
  · rintro ⟨both3, both4, signal⟩
    obtain ⟨span3, scale3⟩ := scaled3.mpr both3
    obtain ⟨span4, scale4⟩ := scaled4.mpr both4
    exact ⟨span3, span4, scale3, scale4, (sum both3 both4).mpr signal⟩

/-- The car is calibrated off the line and on it. -/
theorem normalised_calibrated :
    let es : List AdEvent := [.maxMin, .ad fun _ => 2000, .maxMin]
    Normalised .cortexM4 (adStateAfter .cortexM4 es).filter.sensors
      (adStateAfter .cortexM4 es).range := by
  intro es
  have twelve : TwelveBit es := by
    have only : conversions es = [fun _ => 2000] := rfl
    rw [twelveBit_iff, only, List.forall_mem_singleton]
    exact fun _ => show 2000 < 4096 by decide
  have off : ∀ c, (0 : ℤ) ∈ shown c es := fun c => ⟨[], ⟨_, rfl⟩, by cases c <;> rfl⟩
  have on : ∀ c, (800 : ℤ) ∈ shown c es :=
    fun c => ⟨[.maxMin, .ad fun _ => 2000], ⟨_, rfl⟩, by cases c <;> rfl⟩
  exact (normalised_iff FloatModel.rounds_cortexM4 FloatModel.keepsDyadics_cortexM4 twelve).mpr
    ⟨⟨off .ad3, 800, on .ad3, by decide⟩, ⟨off .ad4, 800, on .ad4, by decide⟩, by decide⟩

/-- One call of each: both spans are zero. -/
theorem not_normalised : ¬ ∀ es : List AdEvent, TwelveBit es → .maxMin ∈ es →
    Normalised .cortexM4 (adStateAfter .cortexM4 es).filter.sensors
      (adStateAfter .cortexM4 es).range := by
  intro always
  have twelve : TwelveBit [.ad fun _ => 2000, .maxMin] := by
    have only : conversions [.ad fun _ => 2000, .maxMin] = [fun _ => 2000] := rfl
    rw [twelveBit_iff, only, List.forall_mem_singleton]
    exact fun _ => show 2000 < 4096 by decide
  have span := (always [.ad fun _ => 2000, .maxMin] twelve (by simp)).span3
  exact absurd span (by decide +kernel)

end CannonCar
