import CannonCar.Foundation.FloatModel

/-!
# The sensor globals

The globals of `work/AD/ad.c` that the menu pages read: the filtered readings, and
the extreme values `max_min` keeps for the two coils the line position is taken from.

## Modelling decisions

The extreme values start crossed, the least one at 900 and the greatest at 0, as the source
initialises them; what follows from this for a division by their difference is the subject
of `Ad.Normalise`.  Those of the fourth coil are `float` in the source, and a reading is
rounded on its way there.
-/

namespace CannonCar

/-- The readings the other tasks see. -/
structure Sensors where
  ad1 : ℤ
  ad2 : ℤ
  ad3 : ℤ
  ad4 : ℤ
  /-- `ad_all`. -/
  adAll : ℤ
  /-- `float sum_diff`. -/
  sumDiff : ℚ

/-- The extreme values; those of the fourth coil are `float`. -/
structure AdRange where
  ad3Max : ℤ
  ad3Min : ℤ
  ad4Max : ℚ
  ad4Min : ℚ

/-- The extreme values as initialised. -/
def AdRange.init : AdRange := ⟨0, 900, 0, 900⟩

/-- `max_min`. -/
def maxMin (fm : FloatModel) (s : Sensors) (r : AdRange) : AdRange where
  ad3Max := if r.ad3Max ≤ s.ad3 then s.ad3 else r.ad3Max
  ad3Min := if r.ad3Min ≥ s.ad3 then s.ad3 else r.ad3Min
  ad4Max := if r.ad4Max ≤ fm.rnd s.ad4 then fm.rnd s.ad4 else r.ad4Max
  ad4Min := if r.ad4Min ≥ fm.rnd s.ad4 then fm.rnd s.ad4 else r.ad4Min

end CannonCar
