import CannonCar.Foundation.KeepBest

/-!
# The baud rate of the SPI modules

`dspi_hal_set_baud` of `drivers/K/src/spi.c`: a search over 4 prescalers, 16 scalers and
the double rate bit for the greatest rate that is not above the one requested.

The search starts from a difference of `0xFFFFFFFF` and the combination of the least
divisor.  Where every rate is above the request, that combination is what is written: the
module runs at a quarter of its clock, and 0 is returned.

## What is load-bearing

**The search in its own order.**  Three nested loops, each left early once the difference is zero;
`KeepBest` shows that leaving early changes nothing, and that what is kept is a divider of the
least difference.

**32-bit arithmetic.**  The clock times one or two is taken in 32 bits; with a clock below 2^31
nothing wraps, which is the one hypothesis on the clock.

**What is compared is what is written.**  `dividerOf` decodes the `CTAR` fields again, so that
`BestBaudSet` is about the register and not about the variables of the search.
-/

namespace CannonCar

open KeepBest

/-! ## The source -/

/-- `s_baudratePrescaler`. -/
def sBaudratePrescaler : Fin 4 → ℕ := ![2, 3, 5, 7]

/-- `s_baudrateScaler`. -/
def sBaudrateScaler : Fin 16 → ℕ :=
  ![2, 4, 6, 8, 16, 32, 64, 128, 256, 512, 1024, 2048, 4096, 8192, 16384, 32768]

/-- The registers of a module. -/
structure Spi where
  mcr : BitVec 32
  ctar : ℕ → BitVec 32

/-- One combination of the three loops. -/
structure Divider where
  prescaler : Fin 4
  scaler : Fin 16
  dbr : ℕ
  deriving DecidableEq

/-- `min_diff`, the best combination and `bestBaudrate`. -/
structure BestBaud where
  minDiff : BitVec 32
  divider : Divider
  baudrate : BitVec 32

namespace Divider

/-- What a combination divides the clock by. -/
def divisor (c : Divider) : ℕ := sBaudratePrescaler c.prescaler * sBaudrateScaler c.scaler

/-- `realBaudrate`. -/
def realBaudrate (clock : BitVec 32) (c : Divider) : BitVec 32 :=
  clock * BitVec.ofNat 32 c.dbr / BitVec.ofNat 32 c.divisor

/-- The fields of a combination in `CTAR`: `SPI_CTAR_DBR_MASK`, if it is set, `SPI_CTAR_PBR`
and `SPI_CTAR_BR`. -/
def bits (c : Divider) : BitVec 32 :=
  let fields := (BitVec.ofNat 32 c.prescaler <<< 16 &&& 0x30000#32) |||
    (BitVec.ofNat 32 c.scaler &&& 0xf#32)
  if c.dbr - 1 ≠ 0 then 0x80000000#32 ||| fields else fields

end Divider

namespace BestBaud

/-- Before the search. -/
def init : BestBaud := ⟨0xFFFFFFFF, ⟨0, 0, 1⟩, 0⟩

/-- The body of the innermost loop. -/
def body (baudrate clock : BitVec 32) (best : BestBaud) (c : Divider) : BestBaud :=
  let realBaudrate := c.realBaudrate clock
  if baudrate ≥ realBaudrate then
    let diff := baudrate - realBaudrate
    if best.minDiff > diff then ⟨diff, c, realBaudrate⟩ else best
  else best

/-- `min_diff` as a condition. -/
def go (best : BestBaud) : Bool := best.minDiff ≠ 0

/-- The three loops. -/
def search (baudrate clock : BitVec 32) : BestBaud :=
  forWhile go (fun best prescaler =>
    forWhile go (fun best scaler =>
      forWhile go (fun best dbr => body baudrate clock best ⟨prescaler, scaler, dbr⟩)
        [1, 2] best)
      (List.finRange 16) best)
    (List.finRange 4) init

end BestBaud

/-- `dspi_hal_set_baud`, with the rate it returns. -/
def dspiHalSetBaud (s : Spi) (whichCtar : ℕ) (bitsPerSec sourceClockInHz : BitVec 32) :
    Spi × BitVec 32 :=
  if s.mcr &&& 0x80000000#32 = 0 then (s, 0)
  else
    let best := BestBaud.search bitsPerSec sourceClockInHz
    let temp := s.ctar whichCtar &&& ~~~(0x80000000#32 ||| 0x30000#32 ||| 0xf#32)
    ({ s with ctar := Function.update s.ctar whichCtar (temp ||| best.divider.bits) },
      best.baudrate)

/-! ## The module -/

/-- The combination a value of `CTAR` sets. -/
def dividerOf (ctar : BitVec 32) : Divider where
  prescaler := (ctar.extractLsb' 16 2).toFin
  scaler := (ctar.extractLsb' 0 4).toFin
  dbr := if ctar.getLsbD 31 then 2 else 1

namespace Divider

/-- The combination is one of the 128. -/
def Valid (c : Divider) : Prop := c.dbr = 1 ∨ c.dbr = 2

theorem valid_dividerOf (ctar : BitVec 32) : (dividerOf ctar).Valid := by
  unfold Valid dividerOf
  split_ifs
  · exact .inr rfl
  · exact .inl rfl

/-- The rate of a combination. -/
def rate (clock : ℕ) (c : Divider) : ℕ := clock * c.dbr / c.divisor

end Divider

/-- The rate set is the greatest one that is not above the request, and is the one returned. -/
def BestBaudSet (clock bitsPerSec : BitVec 32) (ctar : BitVec 32) (returned : BitVec 32) : Prop :=
  let rate := (dividerOf ctar).rate clock.toNat
  rate ≤ bitsPerSec.toNat ∧
    (∀ c : Divider, c.Valid → c.rate clock.toNat ≤ bitsPerSec.toNat → c.rate clock.toNat ≤ rate) ∧
    returned.toNat = rate

/-! ## Rates -/

namespace Divider

variable {c : Divider} {clock : BitVec 32}

/-- The divisors of the slowest and of the fastest rate. -/
theorem divisor_mem (c : Divider) : 4 ≤ c.divisor ∧ c.divisor ≤ 229376 := by
  have all : ∀ (p : Fin 4) (s : Fin 16), 4 ≤ sBaudratePrescaler p * sBaudrateScaler s ∧
      sBaudratePrescaler p * sBaudrateScaler s ≤ 229376 := by
    decide +kernel
  exact all c.prescaler c.scaler

theorem Valid.dbr_mem (valid : c.Valid) : 1 ≤ c.dbr ∧ c.dbr ≤ 2 := by
  rcases valid with one | two
  · omega
  · omega

/-- Below `2^31` the double clock does not wrap. -/
theorem toNat_realBaudrate (valid : c.Valid) (slow : clock.toNat < 2 ^ 31) :
    (c.realBaudrate clock).toNat = c.rate clock.toNat := by
  obtain ⟨-, few⟩ := valid.dbr_mem
  obtain ⟨-, bound⟩ := c.divisor_mem
  have product : clock.toNat * c.dbr < 2 ^ 32 := by
    calc clock.toNat * c.dbr ≤ clock.toNat * 2 := Nat.mul_le_mul_left _ few
      _ < 2 ^ 32 := by omega
  have small : c.dbr < 2 ^ 32 := by omega
  have divides : c.divisor < 2 ^ 32 := by omega
  rw [realBaudrate, BitVec.toNat_udiv, BitVec.toNat_mul, BitVec.toNat_ofNat, BitVec.toNat_ofNat,
    Nat.mod_eq_of_lt small, Nat.mod_eq_of_lt divides, Nat.mod_eq_of_lt product, rate]

/-- No rate is below that of the greatest divisor. -/
theorem Valid.slowest_le (valid : c.Valid) (clock : ℕ) : clock / 229376 ≤ c.rate clock := by
  obtain ⟨low, high⟩ := c.divisor_mem
  have more : clock ≤ clock * c.dbr := Nat.le_mul_of_pos_right clock valid.dbr_mem.1
  exact (Nat.div_le_div_right more).trans (Nat.div_le_div_left high (by omega))

/-- The combination with the greatest divisor. -/
def slowest : Divider := ⟨3, 15, 1⟩

theorem rate_slowest (clock : ℕ) : slowest.rate clock = clock / 229376 := by
  have divisor : slowest.divisor = 229376 := by decide +kernel
  rw [rate, divisor]
  exact congrArg (· / 229376) (Nat.mul_one clock)

/-- The combinations, in the order of the loops. -/
def all : List Divider :=
  ((List.finRange 4 ×ˢ List.finRange 16) ×ˢ [1, 2]).map fun q =>
    ⟨q.1.1, q.1.2, q.2⟩

theorem mem_all : c ∈ all ↔ c.Valid := by
  have places : c ∈ all ↔ c.dbr ∈ [1, 2] := by
    constructor
    · intro mem
      obtain ⟨q, inside, rfl⟩ := List.mem_map.mp mem
      exact (List.mem_product.mp inside).2
    · intro double
      refine List.mem_map.mpr ⟨((c.prescaler, c.scaler), c.dbr), ?_, rfl⟩
      exact List.mem_product.mpr
        ⟨List.mem_product.mpr ⟨List.mem_finRange _, List.mem_finRange _⟩, double⟩
  rw [places, Valid]
  simp

end Divider

/-! ## Fields -/

theorem dividerOf_or_bits (old : BitVec 32) {c : Divider} (valid : c.Valid) :
    dividerOf (old &&& ~~~(0x80000000#32 ||| 0x30000#32 ||| 0xf#32) ||| c.bits) = c := by
  have fields : ∀ (p : Fin 4) (s : Fin 16), ∀ d ∈ [1, 2],
      dividerOf (Divider.bits ⟨p, s, d⟩) = ⟨p, s, d⟩ := by
    decide +kernel
  have clear : ∀ y : BitVec 32,
      dividerOf (old &&& ~~~(0x80000000#32 ||| 0x30000#32 ||| 0xf#32) ||| y) = dividerOf y := by
    intro y
    have pbr : (0x80000000#32 ||| 0x30000#32 ||| 0xf#32).extractLsb' 16 2 = ~~~0 := by decide
    have br : (0x80000000#32 ||| 0x30000#32 ||| 0xf#32).extractLsb' 0 4 = ~~~0 := by decide
    have dbr : (~~~(0x80000000#32 ||| 0x30000#32 ||| 0xf#32)).getLsbD 31 = false := by decide
    unfold dividerOf
    rw [BitVec.extractLsb'_or, BitVec.extractLsb'_or, BitVec.extractLsb'_and,
      BitVec.extractLsb'_and, BitVec.extractLsb'_not_of_lt (by decide),
      BitVec.extractLsb'_not_of_lt (by decide), pbr, br, BitVec.getLsbD_or, BitVec.getLsbD_and, dbr]
    simp
  rw [clear]
  rcases valid with one | two
  · have double : c.dbr ∈ [1, 2] := by simp [one]
    exact fields c.prescaler c.scaler c.dbr double
  · have double : c.dbr ∈ [1, 2] := by simp [two]
    exact fields c.prescaler c.scaler c.dbr double

/-! ## The search -/

section Search

variable {baudrate clock : BitVec 32}

/-- The loops as one search over all combinations. -/
theorem search_eq (baudrate clock : BitVec 32) :
    BestBaud.search baudrate clock = Divider.all.foldl (BestBaud.body baudrate clock) .init := by
  have idle : ∀ (best : BestBaud) (c : Divider), best.go = false →
      best.body baudrate clock c = best := by
    intro best c stopped
    have zero : best.minDiff = 0 := by simpa [BestBaud.go] using stopped
    simp [BestBaud.body, zero]
  rw [BestBaud.search, forWhile_forWhile,
    forWhile_forWhile fun best (q : Fin 4 × Fin 16) dbr =>
      BestBaud.body baudrate clock best ⟨q.1, q.2, dbr⟩,
    Divider.all, List.foldl_map, forWhile_eq_foldl fun best q stopped => idle best _ stopped]

/-- A better match. -/
def BestBaud.take (baudrate clock : BitVec 32) (c : Divider) : BestBaud :=
  ⟨baudrate - c.realBaudrate clock, c, c.realBaudrate clock⟩

/-- The innermost body keeps a combination that qualifies and is nearer. -/
theorem body_eq_keep (baudrate clock : BitVec 32) :
    BestBaud.body baudrate clock =
      keep (fun c => c.realBaudrate clock ≤ baudrate)
        (fun c => (baudrate - c.realBaudrate clock).toNat) (fun best => best.minDiff.toNat)
        (BestBaud.take baudrate clock) := by
  funext best c
  simp only [BestBaud.body, BestBaud.take, keep, ge_iff_le, gt_iff_lt, BitVec.lt_def, ite_and]

/-- What the search finds: a combination of the greatest rate that is not above the request,
with that rate, or what it started from, where every such rate is far off. -/
theorem search_cases (baudrate : BitVec 32) (slow : clock.toNat < 2 ^ 31) :
    (BestBaud.search baudrate clock = .init ∧
        ∀ c : Divider, c.Valid → c.rate clock.toNat ≤ baudrate.toNat →
          0xFFFFFFFF ≤ baudrate.toNat - c.rate clock.toNat) ∨
      ∃ c : Divider, c.Valid ∧ c.rate clock.toNat ≤ baudrate.toNat ∧
        (BestBaud.search baudrate clock).divider = c ∧
        (BestBaud.search baudrate clock).baudrate.toNat = c.rate clock.toNat ∧
        ∀ d : Divider, d.Valid → d.rate clock.toNat ≤ baudrate.toNat →
          d.rate clock.toNat ≤ c.rate clock.toNat := by
  have below : ∀ c : Divider, c.Valid →
      (c.realBaudrate clock ≤ baudrate ↔ c.rate clock.toNat ≤ baudrate.toNat) := by
    intro c valid
    rw [BitVec.le_def, Divider.toNat_realBaudrate valid slow]
  have diff : ∀ c : Divider, c.Valid → c.rate clock.toNat ≤ baudrate.toNat →
      (baudrate - c.realBaudrate clock).toNat = baudrate.toNat - c.rate clock.toNat := by
    intro c valid le
    rw [BitVec.toNat_sub_of_le ((below c valid).mpr le), Divider.toNat_realBaudrate valid slow]
  rw [search_eq, body_eq_keep]
  have takes : ∀ c : Divider, (BestBaud.take baudrate clock c).minDiff.toNat =
      (baudrate - c.realBaudrate clock).toNat := fun _ => rfl
  rcases foldl_keep_cases (fun c : Divider => c.realBaudrate clock ≤ baudrate)
      (fun best : BestBaud => best.minDiff.toNat) takes Divider.all BestBaud.init with
    ⟨same, far⟩ | ⟨c, mem, good, same, -, least⟩
  · left
    refine ⟨same, fun c valid le => ?_⟩
    have bound := far c (Divider.mem_all.mpr valid) ((below c valid).mpr le)
    rw [diff c valid le] at bound
    exact bound
  · right
    have valid := Divider.mem_all.mp mem
    have le := (below c valid).mp good
    refine ⟨c, valid, le, by rw [same, BestBaud.take], ?_, ?_⟩
    · rw [same]
      exact Divider.toNat_realBaudrate valid slow
    · intro d valid' le'
      have bound := least d (Divider.mem_all.mpr valid') ((below d valid').mpr le')
      rw [diff c valid le, diff d valid' le'] at bound
      omega

end Search

/-! ## The rate set -/

/-- Of a master, the fields of one `CTAR` are written. -/
theorem dspiHalSetBaud_of_master {s : Spi} (master : s.mcr &&& 0x80000000#32 ≠ 0) (whichCtar : ℕ)
    (bitsPerSec clock : BitVec 32) :
    dspiHalSetBaud s whichCtar bitsPerSec clock =
      ({ s with
          ctar := Function.update s.ctar whichCtar
            (s.ctar whichCtar &&& ~~~(0x80000000#32 ||| 0x30000#32 ||| 0xf#32) |||
              (BestBaud.search bitsPerSec clock).divider.bits) },
        (BestBaud.search bitsPerSec clock).baudrate) :=
  if_neg master

/-- **The rate set and returned is the greatest that is not above the request** exactly when
the slowest rate of the module is not above it. -/
theorem dspiHalSetBaud_iff (s : Spi) (whichCtar : ℕ) (bitsPerSec clock : BitVec 32)
    (master : s.mcr &&& 0x80000000#32 ≠ 0) (slow : clock.toNat < 2 ^ 31) :
    BestBaudSet clock bitsPerSec
        ((dspiHalSetBaud s whichCtar bitsPerSec clock).1.ctar whichCtar)
        (dspiHalSetBaud s whichCtar bitsPerSec clock).2 ↔
      clock.toNat / 229376 ≤ bitsPerSec.toNat := by
  rw [dspiHalSetBaud_of_master master]
  simp only [Function.update_self]
  constructor
  · rintro ⟨le, -, -⟩
    exact ((Divider.valid_dividerOf _).slowest_le clock.toNat).trans le
  · intro reachable
    rcases search_cases bitsPerSec slow with
      ⟨same, far⟩ | ⟨c, valid, le, divider, rate, greatest⟩
    · -- only the greatest request is that far from a rate, and all rates are 0 then
      have slow' : Divider.slowest.Valid := .inl rfl
      have least := far _ slow' ((Divider.rate_slowest clock.toNat).symm ▸ reachable)
      have bound := bitsPerSec.isLt
      have top : bitsPerSec.toNat = 0xFFFFFFFF := by omega
      have zero : ∀ c : Divider, c.Valid → c.rate clock.toNat = 0 := by
        intro c valid
        have below : c.rate clock.toNat ≤ bitsPerSec.toNat := by
          rw [← Divider.toNat_realBaudrate valid slow]
          have := (c.realBaudrate clock).isLt
          omega
        have := far c valid below
        omega
      rw [same]
      unfold BestBaudSet
      rw [dividerOf_or_bits _ (.inl rfl), zero _ (.inl rfl)]
      exact ⟨Nat.zero_le _, fun c valid _ => (zero c valid).le, rfl⟩
    · rw [divider]
      unfold BestBaudSet
      rw [dividerOf_or_bits _ valid]
      exact ⟨le, greatest, rate⟩

theorem dspiHalSetBaud_iff_of_one_megabaud :
    BestBaudSet 50000000 1000000
        ((dspiHalSetBaud ⟨0x80000000, fun _ => 0x78000000⟩ 0 1000000 50000000).1.ctar 0)
        (dspiHalSetBaud ⟨0x80000000, fun _ => 0x78000000⟩ 0 1000000 50000000).2 ↔
      (50000000#32).toNat / 229376 ≤ (1000000#32).toNat :=
  dspiHalSetBaud_iff ⟨0x80000000, fun _ => 0x78000000⟩ 0 1000000 50000000 (by decide) (by decide)

/-- A request of 100 baud from 50 MHz: a quarter of the clock is set, and 0 returned. -/
theorem not_bestBaudSet :
    ¬ ∀ (s : Spi) (whichCtar : ℕ) (bitsPerSec clock : BitVec 32),
      s.mcr &&& 0x80000000#32 ≠ 0 → clock.toNat < 2 ^ 31 → 1 ≤ bitsPerSec.toNat →
        BestBaudSet clock bitsPerSec
          ((dspiHalSetBaud s whichCtar bitsPerSec clock).1.ctar whichCtar)
          (dspiHalSetBaud s whichCtar bitsPerSec clock).2 := by
  intro always
  have set := always ⟨0x80000000, fun _ => 0x78000000⟩ 0 100 50000000 (by decide) (by decide)
    (by decide)
  exact absurd set.1 (by decide +kernel)

end CannonCar
