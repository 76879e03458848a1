import CannonCar.Oled

/-!
# One pixel

`OLED_PutPixel`.  It starts with a call of `OLED_Set_Pos` that passes the pixel row where a
page is expected, and only then selects the page of that row; the byte it writes holds the
one pixel and zeros.  Below row 8 the stray call is harmless, further down its first command
is no page but a setting of the panel.

## What is load-bearing

**The byte is replaced, not changed.**  The panel cannot be read, and no copy of its memory is
kept; so a pixel is set on its own only where the other seven of its byte are off.  `SetsPixel`
asks for that pixel to be on and all other pixels of the panel to be as they were.

**Which commands a row makes.**  0xB0 and the row is a page for rows up to 7 and a setting from
8 on; the setting is in the list the panel keeps of them, which is how the model tells.
-/

namespace CannonCar

/-- `OLED_PutPixel`. -/
def oledPutPixel (x y : ℕ) (o : Oled) : Oled :=
  let o := oledSetPos x y o
  let data1 := 0x01#8 <<< (y % 8)
  let o := oledWrCmd (0xb0 + (y >>> 3)) o
  let o := oledWrCmd (((x &&& 0xf0) >>> 4) ||| 0x10) o
  let o := oledWrCmd ((x &&& 0x0f) ||| 0x00) o
  oledWrDat data1 o

/-- Pixel `(x, y)` is on. -/
def Oled.pixel (o : Oled) (x y : ℕ) : Bool := (o.gram (y / 8) x).getLsbD (y % 8)

/-- From `o` to `o'` pixel `(x, y)` is set and nothing else changes. -/
structure SetsPixel (x y : ℕ) (o o' : Oled) : Prop where
  set : o'.pixel x y = true
  frame : ∀ x' < 128, ∀ y' < 64, (x', y') ≠ (x, y) → o'.pixel x' y' = o.pixel x' y'
  settings : o'.settings = o.settings

/-- The two column commands of `OLED_PutPixel`. -/
theorem pixel_commands : ∀ x < 128, (x &&& 0x0f) ||| 0x00 = x % 16 := by
  decide

/-- The last four steps write the byte of the pixel, wherever the panel stands. -/
theorem oledPutPixel_eq {x y : ℕ} (hx : x < 128) (hy : y < 64) (o : Oled) :
    oledPutPixel x y o =
      { gram := Function.update o.gram (y / 8)
          (Function.update (o.gram (y / 8)) x (0x01#8 <<< (y % 8)))
        page := y / 8
        col := (x + 1) % 128
        settings := (oledWrCmd (0xb0 + y) o).settings } := by
  obtain ⟨high, -⟩ := column_commands x hx
  have stray : (0xb0 + y) % 256 = 0xb0 + y := Nat.mod_eq_of_lt (by omega)
  have row : y >>> 3 = y / 8 := Nat.shiftRight_eq_div_pow y 3
  have kept : ∀ cmd, (oledWrCmd cmd o).gram = o.gram := by
    intro cmd
    unfold oledWrCmd
    split_ifs <;> rfl
  have column_eq : ∀ c : ℕ, (x / 16 * 16 + c % 16) / 16 * 16 + x % 16 = x := by omega
  simp only [oledPutPixel]
  rw [oledSetPos_col hx, stray, high, pixel_commands x hx, row,
    oledWrCmd_page (by omega), oledWrCmd_high (by omega), oledWrCmd_low (by omega)]
  simp only [oledWrDat, column_eq, kept]

/-- A byte with one bit. -/
theorem getLsbD_one_shiftLeft :
    ∀ i < 8, ∀ j < 8, (0x01#8 <<< i).getLsbD j = decide (j = i) := by
  decide

/-- The pixels afterwards: the pixel's byte holds nothing but it. -/
theorem pixel_oledPutPixel {x y : ℕ} (hx : x < 128) (hy : y < 64) (o : Oled) (x' y' : ℕ) :
    (oledPutPixel x y o).pixel x' y' =
      if x' = x ∧ y' / 8 = y / 8 then decide (y' = y) else o.pixel x' y' := by
  rw [oledPutPixel_eq hx hy, Oled.pixel]
  dsimp only
  by_cases page : y' / 8 = y / 8
  · rw [page, Function.update_self]
    by_cases same : x' = x
    · rw [same, Function.update_self, if_pos ⟨rfl, rfl⟩,
        getLsbD_one_shiftLeft _ (Nat.mod_lt _ (by decide)) _ (Nat.mod_lt _ (by decide))]
      congr 1
      rw [eq_iff_iff]
      omega
    · rw [Function.update_of_ne same, if_neg fun h => same h.1, Oled.pixel, page]
  · rw [Function.update_of_ne page, if_neg fun h => page h.2, Oled.pixel]

/-- The stray call leaves the settings alone exactly in the first eight rows. -/
theorem settings_oledPutPixel_iff {x y : ℕ} (hx : x < 128) (hy : y < 64) (o : Oled) :
    (oledPutPixel x y o).settings = o.settings ↔ y < 8 := by
  rw [oledPutPixel_eq hx hy]
  constructor
  · intro same
    by_contra far
    rw [oledWrCmd_setting (by omega) (Or.inr (by omega))] at same
    exact List.cons_ne_self _ _ same
  · intro near
    rw [oledWrCmd_page near]

/-- **When `OLED_PutPixel` sets one pixel.**  Of all pixels and panels, exactly in the first
eight rows of a column whose other seven pixels in these rows are off. -/
theorem oledPutPixel_iff {x y : ℕ} (hx : x < 128) (hy : y < 64) (o : Oled) :
    SetsPixel x y o (oledPutPixel x y o) ↔
      y < 8 ∧ ∀ y' < 8, y' ≠ y → o.pixel x y' = false := by
  constructor
  · rintro ⟨-, frame, settings⟩
    have near := (settings_oledPutPixel_iff hx hy o).mp settings
    refine ⟨near, fun y' hy' ne => ?_⟩
    have same := frame x hx y' (by omega) fun h => ne (Prod.ext_iff.mp h).2
    rw [← same, pixel_oledPutPixel hx hy, if_pos ⟨rfl, by omega⟩, decide_eq_false_iff_not]
    exact ne
  · rintro ⟨near, off⟩
    refine ⟨?_, fun x' _ y' _ ne => ?_, (settings_oledPutPixel_iff hx hy o).mpr near⟩
    · rw [pixel_oledPutPixel hx hy, if_pos ⟨rfl, rfl⟩, decide_eq_true rfl]
    · rw [pixel_oledPutPixel hx hy]
      split_ifs with byte
      · obtain ⟨rfl, page⟩ := byte
        have other : y' ≠ y := fun h => ne (by rw [h])
        rw [off y' (by omega) other, decide_eq_false other]
      · rfl

/-- The pixel (5, 3) of a blank panel. -/
theorem oledPutPixel_blank : SetsPixel 5 3 Oled.blank (oledPutPixel 5 3 Oled.blank) :=
  (oledPutPixel_iff (by decide) (by decide) Oled.blank).mpr
    ⟨by decide, fun _ _ _ => BitVec.getLsbD_zero⟩

/-- The pixel (0, 8) of a blank panel: the first command sent is `0xb8`. -/
theorem not_oledPutPixel : ¬ ∀ x < 128, ∀ y < 64, ∀ o : Oled,
    SetsPixel x y o (oledPutPixel x y o) := by
  intro always
  have settings := (always 0 (by decide) 8 (by decide) Oled.blank).settings
  exact absurd settings (by decide)

end CannonCar
