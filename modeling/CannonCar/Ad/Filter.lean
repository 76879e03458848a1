import CannonCar.Ad
import CannonCar.Foundation.Trajectory

/-!
# The filter of the readings

`ad` of `work/AD/ad.c`.  Each channel has a five-element array; the newest conversion is
stored in element 0, the array is shifted up by one, and the reading is a fifth of its sum.

The store comes before the shift, so the shift leaves the newest conversion in element 1 as
well: element `i` holds the conversion of `i - 1` calls ago, with the truncated subtraction
of the naturals (`avgAfter_eq`).  The mean counts the newest conversion twice and the one
of four calls ago not at all.

## What is load-bearing

**The arrays outlive the calls.**  They start as zeros, so the first readings are means with
zeros among them, and the law `reading_eq` covers them: a conversion from before the first
call counts as 0.

**The sums are exact.**  Five 12-bit conversions are far from the bounds of `int`, so a reading
is the truncated fifth of its sum.  The sum taken and the one that was meant differ by the
newest conversion less the oldest, and the fifths agree where that does not carry past a
multiple of five.
-/

namespace CannonCar

open Trajectory

/-- The four coils. -/
inductive Channel
  | ad1
  | ad2
  | ad3
  | ad4
  deriving DecidableEq, Repr

/-- The reading of a coil. -/
def Sensors.reading (s : Sensors) : Channel → ℤ
  | .ad1 => s.ad1
  | .ad2 => s.ad2
  | .ad3 => s.ad3
  | .ad4 => s.ad4

/-- What a call does to the array of a channel. -/
def shiftIn (avg : Fin 5 → ℕ) (raw : ℕ) : Fin 5 → ℕ :=
  let avg := Function.update avg 0 raw
  let avg := Function.update avg 4 (avg 3)
  let avg := Function.update avg 3 (avg 2)
  let avg := Function.update avg 2 (avg 1)
  Function.update avg 1 (avg 0)

/-- A fifth of the array's sum.  A conversion has 12 bits, so the sum is far from the bounds
of `int`. -/
def fifth (avg : Fin 5 → ℕ) : ℕ := (avg 4 + avg 3 + avg 2 + avg 1 + avg 0) / 5

/-- The globals `ad` works on: the arrays `avg_ad1` to `avg_ad4` and the readings. -/
structure Filter where
  avg : Channel → Fin 5 → ℕ
  sensors : Sensors

/-- Globals start at zero. -/
def Filter.init : Filter := ⟨fun _ _ => 0, ⟨0, 0, 0, 0, 0, 0⟩⟩

/-- `ad`, with the results of its four conversions. -/
def ad (f : Filter) (raw : Channel → ℕ) : Filter :=
  let avg := fun c => shiftIn (f.avg c) (raw c)
  { avg := avg
    sensors :=
      { f.sensors with
        ad1 := fifth (avg .ad1)
        ad2 := fifth (avg .ad2)
        ad3 := fifth (avg .ad3)
        ad4 := fifth (avg .ad4) } }

/-- The globals after a sequence of calls. -/
def adAfter (raws : List (Channel → ℕ)) : Filter := run ad Filter.init raws

theorem adAfter_concat (raws : List (Channel → ℕ)) (raw : Channel → ℕ) :
    adAfter (raws ++ [raw]) = ad (adAfter raws) raw :=
  run_concat ad Filter.init raws raw

theorem reading_ad (f : Filter) (raw : Channel → ℕ) (c : Channel) :
    (ad f raw).sensors.reading c = fifth ((ad f raw).avg c) := by
  cases c <;> rfl

/-! ## What the array holds -/

/-- The conversion of `k` calls ago, 0 if there was none. -/
def ago (raws : List (Channel → ℕ)) (c : Channel) (k : ℕ) : ℕ :=
  (raws.reverse.map (· c)).getD k 0

@[simp] theorem ago_concat_zero (raws : List (Channel → ℕ)) (raw : Channel → ℕ) (c : Channel) :
    ago (raws ++ [raw]) c 0 = raw c := by
  simp [ago]

@[simp] theorem ago_concat_succ (raws : List (Channel → ℕ)) (raw : Channel → ℕ) (c : Channel)
    (k : ℕ) : ago (raws ++ [raw]) c (k + 1) = ago raws c k := by
  simp [ago]

/-- Elements 0 and 1 both take the newest conversion, the others move up. -/
theorem shiftIn_eq (avg : Fin 5 → ℕ) (raw : ℕ) :
    shiftIn avg raw = ![raw, raw, avg 1, avg 2, avg 3] := by
  funext i
  fin_cases i <;> rfl

theorem avgAfter_eq (raws : List (Channel → ℕ)) (c : Channel) :
    (adAfter raws).avg c = fun i : Fin 5 => ago raws c (i.val - 1) := by
  induction raws using List.reverseRecOn with
  | nil =>
      funext i
      simp [adAfter, Filter.init, ago]
  | append_singleton raws raw ih =>
      have step : (ad (adAfter raws) raw).avg c = shiftIn ((adAfter raws).avg c) (raw c) := rfl
      rw [adAfter_concat, step, shiftIn_eq, ih]
      funext i
      fin_cases i
      · exact (ago_concat_zero raws raw c).symm
      · exact (ago_concat_zero raws raw c).symm
      · exact (ago_concat_succ raws raw c 0).symm
      · exact (ago_concat_succ raws raw c 1).symm
      · exact (ago_concat_succ raws raw c 2).symm

/-- Every reading is the mean of the array as it stands, also before the first call. -/
theorem reading_adAfter (raws : List (Channel → ℕ)) (c : Channel) :
    (adAfter raws).sensors.reading c = fifth ((adAfter raws).avg c) := by
  cases raws using List.reverseRecOn with
  | nil => cases c <;> rfl
  | append_singleton raws raw => rw [adAfter_concat, reading_ad]

/-- A fifth of the last four conversions, the newest counted twice. -/
def smoothed (raws : List (Channel → ℕ)) (c : Channel) : ℕ :=
  (2 * ago raws c 0 + ago raws c 1 + ago raws c 2 + ago raws c 3) / 5

/-- **The law of the filter**, for every history. -/
theorem reading_eq (raws : List (Channel → ℕ)) (c : Channel) :
    (adAfter raws).sensors.reading c = smoothed raws c := by
  rw [reading_adAfter, avgAfter_eq, smoothed]
  show ((ago raws c 3 + ago raws c 2 + ago raws c 1 + ago raws c 0 + ago raws c 0) / 5 : ℕ) =
    ((_ : ℕ) : ℤ)
  congr 2
  ring

/-! ## Against the five-fold mean -/

/-- The sum of the last five conversions of a channel. -/
def lastFive (raws : List (Channel → ℕ)) (c : Channel) : ℕ :=
  ((raws.map (· c)).drop (raws.length - 5)).sum

/-- The last five conversions, one by one. -/
theorem lastFive_eq {raws : List (Channel → ℕ)} (enough : 5 ≤ raws.length) (c : Channel) :
    lastFive raws c =
      ago raws c 0 + ago raws c 1 + ago raws c 2 + ago raws c 3 + ago raws c 4 := by
  obtain ⟨before, last, rfl, five⟩ : ∃ before last, raws = before ++ last ∧ last.length = 5 :=
    ⟨raws.take (raws.length - 5), raws.drop (raws.length - 5),
      (List.take_append_drop _ _).symm, by rw [List.length_drop]; omega⟩
  obtain ⟨a, b, c', d, e, rfl⟩ : ∃ a b c d e, last = [a, b, c, d, e] := by
    match last, five with
    | [a, b, c, d, e], _ => exact ⟨a, b, c, d, e, rfl⟩
  simp [lastFive, ago]
  ring

/-- **When a reading is the five-fold mean.**  After the `n`-th call, `n ≥ 5`, the reading
of a channel is the truncated mean of its last five conversions exactly if the newest of
them exceeds the oldest by so little that the sum stays within the same multiple of five. -/
theorem ad_average_iff {raws : List (Channel → ℕ)} (enough : 5 ≤ raws.length) (c : Channel) :
    (adAfter raws).sensors.reading c = (lastFive raws c / 5 : ℕ) ↔
      ago raws c 4 ≤ ago raws c 0 + lastFive raws c % 5 ∧
        ago raws c 0 + lastFive raws c % 5 ≤ ago raws c 4 + 4 := by
  have sum := lastFive_eq enough c
  rw [reading_eq, Nat.cast_inj, smoothed]
  omega

/-- Six calls: a channel whose conversions move by little, and one whose newest conversion
is far from the one of four calls ago. -/
def sixCalls : List (Channel → ℕ) :=
  [0, 1000, 1001, 1002, 1003, 1004].map fun x c => if c = .ad1 then x else 3 * x

theorem ad_average_sixCalls :
    5 ≤ sixCalls.length ∧
      (adAfter sixCalls).sensors.reading .ad1 = (lastFive sixCalls .ad1 / 5 : ℕ) :=
  ⟨by decide, (ad_average_iff (by decide) .ad1).mpr (by decide)⟩

/-- Four conversions of 0 and one of 5: the mean is 1, the reading 2. -/
theorem not_ad_average : ¬ ∀ raws : List (Channel → ℕ), 5 ≤ raws.length →
    ∀ c, (adAfter raws).sensors.reading c = (lastFive raws c / 5 : ℕ) := by
  intro always
  have mean := always [0, 0, 0, 0, fun _ => 5] (by decide) .ad1
  exact absurd mean (by decide)

end CannonCar
