import CannonCar.Oled.Bus

/-!
# Small text at the right edge

`OLED_P6x8Str` tests a start column against 126 before it draws a glyph six columns wide.
The test would have to be against 122 less one for the glyph to fit, as the sibling for
wider glyphs has it (`x>120` for a width of 8); a start from 122 to 126 passes it and the
glyph goes on in column 0 of the same page.  Only starts that are 1 more than a multiple of
six step over these five.

## What is load-bearing

`capacity` is the number of glyphs that fit from a start on; it takes in that a text breaks to the
next page in time where its starts step over the five columns.  The equivalence is in the
length of the text and its start alone, whatever the glyphs are.

`FitsPages` asks that the text does not run off the last page, which is another way to leave the
panel and not the subject here.
-/

namespace CannonCar

open MachineInt Printf Trajectory

/-! ## The traffic -/

/-- What `OLED_P6x8Str` sends for each character. -/
def p6x8Traffic : ℕ → ℕ → List Char → List (List Bus)
  | _, _, [] => []
  | x, y, ch :: rest =>
      let x' := if x > 126 then 0 else x
      let y' := if x > 126 then (y + 1) % 256 else y
      (setPosBus x' y' ++ dataBus (glyph ch)) :: p6x8Traffic ((x' + 6) % 256) y' rest

/-- The panel makes of this traffic what `oledP6x8Str` says. -/
theorem run_p6x8Traffic (x y : ℕ) (cs : List Char) (o : Oled) :
    run Oled.receive o (p6x8Traffic x y cs).flatten = oledP6x8Str x y cs o := by
  induction cs generalizing x y o with
  | nil => rfl
  | cons ch cs ih =>
      rw [p6x8Traffic, List.flatten_cons, run_append, run_append, run_setPosBus, run_dataBus, ih]
      rfl

/-- The positions passed to `OLED_Set_Pos` for the first `n` characters. -/
def p6x8Starts : ℕ → ℕ → ℕ → List (ℕ × ℕ)
  | _, _, 0 => []
  | x, y, n + 1 =>
      let x' := if x > 126 then 0 else x
      let y' := if x > 126 then (y + 1) % 256 else y
      (x', y') :: p6x8Starts ((x' + 6) % 256) y' n

/-- The text stays on the eight pages. -/
def FitsPages (x y n : ℕ) : Prop := ∀ start ∈ p6x8Starts x y n, start.2 ≤ 7

instance (x y n : ℕ) : Decidable (FitsPages x y n) :=
  inferInstanceAs (Decidable (∀ start ∈ p6x8Starts x y n, start.2 ≤ 7))

theorem p6x8Starts_le {x y n : ℕ} {start : ℕ × ℕ} (mem : start ∈ p6x8Starts x y n) :
    start.1 ≤ 126 := by
  induction n generalizing x y with
  | zero => cases mem
  | succ n ih =>
      rcases List.mem_cons.mp mem with rfl | later
      · dsimp only
        split_ifs <;> omega
      · exact ih later

/-- Each glyph is written to the strip at its start. -/
theorem cells_p6x8Traffic {x y : ℕ} {cs : List Char} (fits : FitsPages x y cs.length) (o : Oled) :
    cells o (p6x8Traffic x y cs) =
      (p6x8Starts x y cs.length).map fun start => strip start.1 start.2 6 := by
  induction cs generalizing x y o with
  | nil => rfl
  | cons ch cs ih =>
      rw [FitsPages, List.length_cons, p6x8Starts, List.forall_mem_cons] at fits
      obtain ⟨here, later⟩ := fits
      dsimp only at here
      rw [p6x8Traffic, List.length_cons, p6x8Starts, List.map_cons, cells, ih later,
        addresses_strip (by split_ifs <;> omega) (by omega), length_glyph]

/-! ## The right edge -/

/-- A glyph's six bytes are in six columns of one page. -/
def OnPanel (cell : List (ℕ × ℕ)) : Prop :=
  ∃ page col, page ≤ 7 ∧ col + 5 ≤ 127 ∧ cell = (List.range 6).map fun i => (page, col + i)

theorem onPanel_strip_iff {x y : ℕ} (hx : x ≤ 126) (hy : y ≤ 7) :
    OnPanel (strip x y 6) ↔ x ≤ 121 := by
  constructor
  · rintro ⟨page, col, -, inside, same⟩
    have first := congrArg (fun cell => cell[0]?) same
    simp only [strip, List.getElem?_map, List.getElem?_range (show 0 < 6 by decide),
      Option.map_some, Option.some_inj, Prod.mk.injEq] at first
    obtain ⟨-, start⟩ := first
    unfold column at start
    omega
  · intro room
    refine ⟨y, column x, hy, ?_, ?_⟩
    · unfold column
      omega
    · apply List.map_congr_left
      intro i mem
      have small := List.mem_range.mp mem
      congr 1
      apply Nat.mod_eq_of_lt
      unfold column
      omega

/-- How many glyphs from `x` on keep to the panel. -/
def capacity (x : ℕ) : ℕ := (127 - x) / 6 + if x % 6 = 1 then 21 else 0

/-- Each glyph takes one off the capacity. -/
theorem p6x8Starts_room_iff {x : ℕ} (hx : x ≤ 127) (y n : ℕ) :
    (∀ start ∈ p6x8Starts x y n, start.1 ≤ 121) ↔ n ≤ capacity x := by
  induction n generalizing x y with
  | zero => exact iff_of_true (List.forall_mem_nil _) (Nat.zero_le _)
  | succ n ih =>
      rw [p6x8Starts, List.forall_mem_cons]
      dsimp only
      rcases lt_or_ge 126 x with edge | before
      · obtain rfl : x = 127 := by omega
        rw [if_pos edge, ih (by decide), capacity, capacity, if_neg (by decide), if_pos (by decide)]
        omega
      · rw [if_neg (by omega)]
        by_cases room : x ≤ 121
        · rw [Nat.mod_eq_of_lt (by omega), ih (by omega)]
          unfold capacity
          split_ifs <;> omega
        · refine iff_of_false (fun h => room h.1) ?_
          unfold capacity
          split_ifs <;> omega

/-- The glyphs of a text on the eight pages keep to the panel exactly if they are no more
than the capacity of the start. -/
theorem p6x8_onPanel_iff {x y : ℕ} (hx : x ≤ 127) {cs : List Char}
    (fits : FitsPages x y cs.length) (o : Oled) :
    (∀ cell ∈ cells o (p6x8Traffic x y cs), OnPanel cell) ↔ cs.length ≤ capacity x := by
  rw [cells_p6x8Traffic fits, ← p6x8Starts_room_iff hx y, List.forall_mem_map]
  exact forall₂_congr fun start mem => onPanel_strip_iff (p6x8Starts_le mem) (fits start mem)

theorem length_numberText_le_iff (w : ℕ) (number : ℤ) :
    (numberText number).length ≤ w + 5 ↔
      -10 ^ (w + 4) < toSigned 32 number ∧ toSigned 32 number < 10 ^ (w + 5) := by
  rw [← length_decimal_le_iff (w + 3), numberText, length_formatInt, max_le_iff]
  exact and_iff_right (by omega)

/-- **When small text keeps to the panel.**  For every text and every start such that the
text stays on the eight pages: exactly if it has no more glyphs than there is room for from
the start to column 127, and a line of 21 more where the start is 1 more than a multiple of
six.  Numbers at 70 therefore may have nine characters, at 95 five. -/
theorem p6x8_keeps_iff {x y : ℕ} (hx : x ≤ 127) {cs : List Char}
    (fits : FitsPages x y cs.length) :
    (∀ o, (∀ cell ∈ cells o (p6x8Traffic x y cs), OnPanel cell) ↔ cs.length ≤ capacity x) ∧
      (∀ (number : ℤ) (o : Oled), FitsPages 70 y (numberText number).length →
        ((∀ cell ∈ cells o (p6x8Traffic 70 y (numberText number)), OnPanel cell) ↔
          -100000000 < toSigned 32 number ∧ toSigned 32 number < 1000000000)) ∧
      ∀ (number : ℤ) (o : Oled), FitsPages 95 y (numberText number).length →
        ((∀ cell ∈ cells o (p6x8Traffic 95 y (numberText number)), OnPanel cell) ↔
          -10000 < toSigned 32 number ∧ toSigned 32 number < 100000) := by
  refine ⟨fun o => p6x8_onPanel_iff hx fits o, fun number o stays => ?_, fun number o stays => ?_⟩
  · rw [p6x8_onPanel_iff (by decide) stays]
    exact length_numberText_le_iff 4 number
  · rw [p6x8_onPanel_iff (by decide) stays]
    exact length_numberText_le_iff 0 number

/-- A full line, and 99999 at 95. -/
theorem p6x8_keeps_line :
    (∀ cell ∈ cells Oled.blank (p6x8Traffic 0 0 (List.replicate 21 'A')), OnPanel cell) ∧
      ∀ cell ∈ cells Oled.blank (p6x8Traffic 95 0 (numberText 99999)), OnPanel cell := by
  obtain ⟨line, -, number⟩ := p6x8_keeps_iff (x := 0) (y := 0) (by decide)
    (show FitsPages 0 0 (List.replicate 21 'A').length by decide)
  exact ⟨(line Oled.blank).mpr (by decide),
    (number 99999 Oled.blank (by decide)).mpr (by decide)⟩

/-- One character more. -/
theorem not_p6x8_keeps : ¬ ∀ x ≤ 127, ∀ y ≤ 7, ∀ cs : List Char, FitsPages x y cs.length →
    ∀ o, ∀ cell ∈ cells o (p6x8Traffic x y cs), OnPanel cell := by
  intro always
  have room := (p6x8_onPanel_iff (by decide) (by decide) Oled.blank).mp
    (always 0 (by decide) 0 (by decide) (List.replicate 22 'A') (by decide) Oled.blank)
  exact absurd room (by decide)

end CannonCar
