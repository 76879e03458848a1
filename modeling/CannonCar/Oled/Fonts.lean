import CannonCar.Oled

/-!
# The fonts of the large text

`F8X16` for single bytes and `F14x16`, with its index `F14x16_Idx`, for double-byte
characters.  What the text functions do with the positions does not depend on the bitmaps,
and only through `Fonts.Knows` on the index, so they are modelled over any fonts.

## What is load-bearing

The index of the large font is searched from its start by steps of two bytes, and a character that
is not in it is found nowhere; `Knows` says that it is.  `panelFonts` has the tables of the
source, so that the results over any fonts can be read for the one there is.
-/

namespace CannonCar

/-- A double-byte character: a lead byte above 127, and no terminator behind it. -/
def DoubleByte (pair : BitVec 8 × BitVec 8) : Prop := 127 < pair.1.toNat ∧ pair.2 ≠ 0

instance : DecidablePred DoubleByte := fun _ => inferInstanceAs (Decidable (_ ∧ _))

/-- The font tables. -/
structure Fonts where
  f8x16 : ℕ → BitVec 8
  f14x16 : ℕ → BitVec 8
  /-- `F14x16_Idx`, character by character, up to its terminator. -/
  f14x16Idx : List (BitVec 8 × BitVec 8)
  /-- It is a string of double-byte characters. -/
  double : ∀ pair ∈ f14x16Idx, DoubleByte pair
  /-- Its index `wm` is a `u8`. -/
  short : f14x16Idx.length ≤ 127

/-- The character is in the index of the font. -/
def Fonts.Knows (fonts : Fonts) (pair : BitVec 8 × BitVec 8) : Prop := pair ∈ fonts.f14x16Idx

instance (fonts : Fonts) : DecidablePred fonts.Knows :=
  fun pair => inferInstanceAs (Decidable (pair ∈ fonts.f14x16Idx))

/-- The search of `OLED_P14x16Str`: `adder` for the bytes `c1` and `c2`, 1 if they are not
in the index. -/
def fontSearch : List (BitVec 8 × BitVec 8) → ℕ → BitVec 8 → BitVec 8 → ℕ
  | [], _, _, _ => 1
  | pair :: rest, wm, c1, c2 =>
      if 127 < pair.1.toNat then
        if pair.1 = c1 then
          if pair.2 = c2 then wm * 14 else fontSearch rest (wm + 2) c1 c2
        else fontSearch rest (wm + 2) c1 c2
      else 1

/-- `adder`, from the start of the index. -/
def Fonts.adder (fonts : Fonts) (c1 c2 : BitVec 8) : ℕ := fontSearch fonts.f14x16Idx 0 c1 c2

theorem fontSearch_ne_one_iff {idx : List (BitVec 8 × BitVec 8)}
    (double : ∀ pair ∈ idx, DoubleByte pair) (wm : ℕ) (c1 c2 : BitVec 8) :
    fontSearch idx wm c1 c2 ≠ 1 ↔ (c1, c2) ∈ idx := by
  induction idx generalizing wm with
  | nil => exact iff_of_false (fun h => h rfl) List.not_mem_nil
  | cons pair idx ih =>
      obtain ⟨⟨lead, -⟩, others⟩ := List.forall_mem_cons.mp double
      rw [fontSearch, if_pos lead, List.mem_cons]
      by_cases first : pair.1 = c1
      · rw [if_pos first]
        by_cases second : pair.2 = c2
        · rw [if_pos second]
          exact iff_of_true (by omega) (Or.inl (by rw [← first, ← second]))
        · rw [if_neg second, ih others]
          exact (or_iff_right fun same => second (congrArg Prod.snd same).symm).symm
      · rw [if_neg first, ih others]
        exact (or_iff_right fun same => first (congrArg Prod.fst same).symm).symm

/-- The search finds exactly the characters of the index. -/
theorem Fonts.adder_ne_one_iff (fonts : Fonts) (c1 c2 : BitVec 8) :
    fonts.adder c1 c2 ≠ 1 ↔ fonts.Knows (c1, c2) :=
  fontSearch_ne_one_iff fonts.double 0 c1 c2

/-! ## The tables of the panel -/

/-- `F14x16_Idx`. -/
def f14x16Idx : List (BitVec 8 × BitVec 8) :=
  [
    (0xb4, 0xf3), (0xc1, 0xac), (0xb6, 0xab), (0xc8, 0xed), (0xd0, 0xc5),
    (0xcf, 0xa2), (0xd1, 0xa7), (0xd4, 0xba), (0xb5, 0xe7), (0xd7, 0xd3),
    (0xb9, 0xa4), (0xb3, 0xcc), (0xcf, 0xb5), (0xcd, 0xd3), (0xc2, 0xdd),
    (0xd2, 0xc7), (0xbc, 0xd3), (0xcb, 0xd9), (0xb6, 0xc8), (0xbc, 0xc6)
  ]

theorem doubleByte_f14x16Idx : ∀ pair ∈ f14x16Idx, DoubleByte pair := by
  simp [f14x16Idx, DoubleByte]

theorem length_f14x16Idx : f14x16Idx.length ≤ 127 := by decide

/-- `F14x16`, 28 bytes for every character of the index. -/
def f14x16 : List (List (BitVec 8)) :=
  [
    [0x20, 0x20, 0x20, 0x20, 0x20, 0xa0, 0x7e, 0xa0, 0x20, 0x20, 0x20, 0x20, 0x20, 0x00,
     0x40, 0x40, 0x20, 0x10, 0x0c, 0x03, 0x00, 0x03, 0x0c, 0x10, 0x20, 0x40, 0x40, 0x00],
    [0x80, 0x84, 0x98, 0x00, 0x88, 0xe8, 0x98, 0x8e, 0xe8, 0x88, 0x88, 0x88, 0x00, 0x00,
     0x40, 0x20, 0x1f, 0x20, 0x44, 0x44, 0x44, 0x44, 0x7f, 0x44, 0x44, 0x44, 0x44, 0x00],
    [0x00, 0x08, 0xc8, 0xa8, 0x98, 0x8e, 0xe8, 0x88, 0x88, 0x88, 0x88, 0x08, 0x00, 0x00,
     0x20, 0x10, 0x0c, 0x00, 0x40, 0x40, 0x7f, 0x00, 0x00, 0x04, 0x08, 0x30, 0x00, 0x00],
    [0x88, 0xe8, 0x98, 0xee, 0x88, 0x88, 0x80, 0x60, 0x1e, 0x90, 0x10, 0x50, 0x30, 0x00,
     0x08, 0x08, 0x08, 0x7f, 0x04, 0x04, 0x40, 0x20, 0x18, 0x07, 0x18, 0x20, 0x40, 0x00],
    [0x40, 0x20, 0xf8, 0x06, 0x08, 0xa8, 0xa8, 0xaa, 0xac, 0xa8, 0xa8, 0xa8, 0x08, 0x00,
     0x00, 0x00, 0x7f, 0x00, 0x00, 0x7e, 0x22, 0x22, 0x22, 0x22, 0x22, 0x7e, 0x00, 0x00],
    [0x00, 0x00, 0xf8, 0xa8, 0xac, 0xaa, 0xa8, 0xa8, 0xa8, 0xa8, 0xf8, 0x00, 0x00, 0x00,
     0x40, 0x30, 0x03, 0x3a, 0x42, 0x42, 0x46, 0x5a, 0x42, 0x62, 0x03, 0x08, 0x30, 0x00],
    [0x70, 0x10, 0x92, 0x94, 0x90, 0x92, 0x94, 0x90, 0x98, 0x94, 0x12, 0x10, 0x70, 0x00,
     0x04, 0x04, 0x04, 0x04, 0x44, 0x44, 0x7e, 0x06, 0x05, 0x04, 0x04, 0x04, 0x04, 0x00],
    [0xfc, 0x04, 0x64, 0x9c, 0x00, 0x18, 0x48, 0x48, 0x4a, 0x4c, 0x48, 0x48, 0x18, 0x00,
     0x7f, 0x08, 0x08, 0x07, 0x40, 0x22, 0x12, 0x0e, 0x02, 0x02, 0x3e, 0x42, 0x62, 0x00],
    [0x00, 0xf0, 0x90, 0x90, 0x90, 0x90, 0xfe, 0x90, 0x90, 0x90, 0x90, 0xf0, 0x00, 0x00,
     0x00, 0x0f, 0x04, 0x04, 0x04, 0x04, 0x3f, 0x44, 0x44, 0x44, 0x44, 0x47, 0x70, 0x00],
    [0x80, 0x82, 0x82, 0x82, 0x82, 0x82, 0xc2, 0xa2, 0x92, 0x8a, 0x86, 0x82, 0x80, 0x00,
     0x00, 0x00, 0x00, 0x00, 0x40, 0x40, 0x7f, 0x00, 0x00, 0x00, 0x00, 0x00, 0x00, 0x00],
    [0x00, 0x04, 0x04, 0x04, 0x04, 0x04, 0xfc, 0x04, 0x04, 0x04, 0x04, 0x04, 0x00, 0x00,
     0x20, 0x20, 0x20, 0x20, 0x20, 0x20, 0x3f, 0x20, 0x20, 0x20, 0x20, 0x20, 0x20, 0x00],
    [0x48, 0x48, 0xf8, 0x44, 0x44, 0x00, 0x3c, 0x24, 0x24, 0x24, 0x24, 0x3c, 0x00, 0x00,
     0x08, 0x06, 0x7f, 0x01, 0x02, 0x40, 0x49, 0x49, 0x7f, 0x49, 0x49, 0x49, 0x40, 0x00],
    [0x00, 0x04, 0x44, 0x64, 0x54, 0xcc, 0x44, 0x42, 0x22, 0x92, 0x02, 0x00, 0x00, 0x00,
     0x00, 0x22, 0x12, 0x0b, 0x43, 0x42, 0x7e, 0x02, 0x02, 0x0a, 0x13, 0x26, 0x00, 0x00],
    [0xfe, 0x02, 0x22, 0xda, 0x06, 0x20, 0xd8, 0x08, 0x09, 0x0e, 0x08, 0x88, 0x28, 0x18,
     0xff, 0x08, 0x10, 0x08, 0x07, 0x00, 0x3f, 0x44, 0x44, 0x42, 0x41, 0x40, 0x78, 0x00],
    [0xf8, 0x08, 0xff, 0x08, 0xf8, 0x00, 0x3e, 0xaa, 0x6a, 0x3e, 0x2a, 0xaa, 0x3e, 0x00,
     0x63, 0x21, 0x1f, 0x11, 0x39, 0x48, 0x29, 0x09, 0x8d, 0xfb, 0x09, 0x08, 0x2c, 0x58],
    [0x80, 0x60, 0xf8, 0x07, 0x00, 0x1c, 0xe0, 0x01, 0x06, 0x00, 0xe0, 0x1e, 0x00, 0x00,
     0x00, 0x00, 0xff, 0x00, 0x80, 0x40, 0x20, 0x13, 0x0c, 0x13, 0x20, 0x40, 0x80, 0x80],
    [0x10, 0x10, 0xff, 0x10, 0x10, 0xf0, 0x00, 0x00, 0xf8, 0x08, 0x08, 0x08, 0xf8, 0x00,
     0x40, 0x30, 0x0f, 0x40, 0x80, 0x7f, 0x00, 0x00, 0x7f, 0x20, 0x20, 0x20, 0x7f, 0x00],
    [0x40, 0x42, 0xcc, 0x00, 0x04, 0xf4, 0x94, 0x94, 0xff, 0x94, 0x94, 0xf4, 0x04, 0x00,
     0x40, 0x20, 0x1f, 0x20, 0x48, 0x44, 0x42, 0x41, 0x5f, 0x41, 0x42, 0x44, 0x48, 0x40],
    [0x00, 0xfc, 0x24, 0x24, 0x24, 0xfc, 0x25, 0x26, 0x24, 0xfc, 0x24, 0x24, 0x24, 0x04,
     0x30, 0x8f, 0x80, 0x84, 0x4c, 0x55, 0x25, 0x25, 0x25, 0x55, 0x4c, 0x80, 0x80, 0x80],
    [0x40, 0x42, 0xcc, 0x00, 0x40, 0x40, 0x40, 0x40, 0xff, 0x40, 0x40, 0x40, 0x40, 0x40,
     0x00, 0x00, 0x7f, 0x20, 0x10, 0x00, 0x00, 0x00, 0xff, 0x00, 0x00, 0x00, 0x00, 0x00]
  ]

/-- `F8X16`, 16 bytes for every character from the blank on. -/
def f8x16 : List (List (BitVec 8)) :=
  [
   [0x00, 0x00, 0x00, 0x00, 0x00, 0x00, 0x00, 0x00, 0x00, 0x00, 0x00, 0x00, 0x00, 0x00, 0x00, 0x00],
   [0x00, 0x00, 0x00, 0xf8, 0x00, 0x00, 0x00, 0x00, 0x00, 0x00, 0x00, 0x33, 0x30, 0x00, 0x00, 0x00],
   [0x00, 0x10, 0x0c, 0x06, 0x10, 0x0c, 0x06, 0x00, 0x00, 0x00, 0x00, 0x00, 0x00, 0x00, 0x00, 0x00],
   [0x40, 0xc0, 0x78, 0x40, 0xc0, 0x78, 0x40, 0x00, 0x04, 0x3f, 0x04, 0x04, 0x3f, 0x04, 0x04, 0x00],
   [0x00, 0x70, 0x88, 0xfc, 0x08, 0x30, 0x00, 0x00, 0x00, 0x18, 0x20, 0xff, 0x21, 0x1e, 0x00, 0x00],
   [0xf0, 0x08, 0xf0, 0x00, 0xe0, 0x18, 0x00, 0x00, 0x00, 0x21, 0x1c, 0x03, 0x1e, 0x21, 0x1e, 0x00],
   [0x00, 0xf0, 0x08, 0x88, 0x70, 0x00, 0x00, 0x00, 0x1e, 0x21, 0x23, 0x24, 0x19, 0x27, 0x21, 0x10],
   [0x10, 0x16, 0x0e, 0x00, 0x00, 0x00, 0x00, 0x00, 0x00, 0x00, 0x00, 0x00, 0x00, 0x00, 0x00, 0x00],
   [0x00, 0x00, 0x00, 0xe0, 0x18, 0x04, 0x02, 0x00, 0x00, 0x00, 0x00, 0x07, 0x18, 0x20, 0x40, 0x00],
   [0x00, 0x02, 0x04, 0x18, 0xe0, 0x00, 0x00, 0x00, 0x00, 0x40, 0x20, 0x18, 0x07, 0x00, 0x00, 0x00],
   [0x40, 0x40, 0x80, 0xf0, 0x80, 0x40, 0x40, 0x00, 0x02, 0x02, 0x01, 0x0f, 0x01, 0x02, 0x02, 0x00],
   [0x00, 0x00, 0x00, 0xf0, 0x00, 0x00, 0x00, 0x00, 0x01, 0x01, 0x01, 0x1f, 0x01, 0x01, 0x01, 0x00],
   [0x00, 0x00, 0x00, 0x00, 0x00, 0x00, 0x00, 0x00, 0x80, 0xb0, 0x70, 0x00, 0x00, 0x00, 0x00, 0x00],
   [0x00, 0x00, 0x00, 0x00, 0x00, 0x00, 0x00, 0x00, 0x00, 0x01, 0x01, 0x01, 0x01, 0x01, 0x01, 0x01],
   [0x00, 0x00, 0x00, 0x00, 0x00, 0x00, 0x00, 0x00, 0x00, 0x30, 0x30, 0x00, 0x00, 0x00, 0x00, 0x00],
   [0x00, 0x00, 0x00, 0x00, 0x80, 0x60, 0x18, 0x04, 0x00, 0x60, 0x18, 0x06, 0x01, 0x00, 0x00, 0x00],
   [0x00, 0xe0, 0x10, 0x08, 0x08, 0x10, 0xe0, 0x00, 0x00, 0x0f, 0x10, 0x20, 0x20, 0x10, 0x0f, 0x00],
   [0x00, 0x10, 0x10, 0xf8, 0x00, 0x00, 0x00, 0x00, 0x00, 0x20, 0x20, 0x3f, 0x20, 0x20, 0x00, 0x00],
   [0x00, 0x70, 0x08, 0x08, 0x08, 0x88, 0x70, 0x00, 0x00, 0x30, 0x28, 0x24, 0x22, 0x21, 0x30, 0x00],
   [0x00, 0x30, 0x08, 0x88, 0x88, 0x48, 0x30, 0x00, 0x00, 0x18, 0x20, 0x20, 0x20, 0x11, 0x0e, 0x00],
   [0x00, 0x00, 0xc0, 0x20, 0x10, 0xf8, 0x00, 0x00, 0x00, 0x07, 0x04, 0x24, 0x24, 0x3f, 0x24, 0x00],
   [0x00, 0xf8, 0x08, 0x88, 0x88, 0x08, 0x08, 0x00, 0x00, 0x19, 0x21, 0x20, 0x20, 0x11, 0x0e, 0x00],
   [0x00, 0xe0, 0x10, 0x88, 0x88, 0x18, 0x00, 0x00, 0x00, 0x0f, 0x11, 0x20, 0x20, 0x11, 0x0e, 0x00],
   [0x00, 0x38, 0x08, 0x08, 0xc8, 0x38, 0x08, 0x00, 0x00, 0x00, 0x00, 0x3f, 0x00, 0x00, 0x00, 0x00],
   [0x00, 0x70, 0x88, 0x08, 0x08, 0x88, 0x70, 0x00, 0x00, 0x1c, 0x22, 0x21, 0x21, 0x22, 0x1c, 0x00],
   [0x00, 0xe0, 0x10, 0x08, 0x08, 0x10, 0xe0, 0x00, 0x00, 0x00, 0x31, 0x22, 0x22, 0x11, 0x0f, 0x00],
   [0x00, 0x00, 0x00, 0xc0, 0xc0, 0x00, 0x00, 0x00, 0x00, 0x00, 0x00, 0x30, 0x30, 0x00, 0x00, 0x00],
   [0x00, 0x00, 0x00, 0x80, 0x00, 0x00, 0x00, 0x00, 0x00, 0x00, 0x80, 0x60, 0x00, 0x00, 0x00, 0x00],
   [0x00, 0x00, 0x80, 0x40, 0x20, 0x10, 0x08, 0x00, 0x00, 0x01, 0x02, 0x04, 0x08, 0x10, 0x20, 0x00],
   [0x40, 0x40, 0x40, 0x40, 0x40, 0x40, 0x40, 0x00, 0x04, 0x04, 0x04, 0x04, 0x04, 0x04, 0x04, 0x00],
   [0x00, 0x08, 0x10, 0x20, 0x40, 0x80, 0x00, 0x00, 0x00, 0x20, 0x10, 0x08, 0x04, 0x02, 0x01, 0x00],
   [0x00, 0x70, 0x48, 0x08, 0x08, 0x08, 0xf0, 0x00, 0x00, 0x00, 0x00, 0x30, 0x36, 0x01, 0x00, 0x00],
   [0xc0, 0x30, 0xc8, 0x28, 0xe8, 0x10, 0xe0, 0x00, 0x07, 0x18, 0x27, 0x24, 0x23, 0x14, 0x0b, 0x00],
   [0x00, 0x00, 0xc0, 0x38, 0xe0, 0x00, 0x00, 0x00, 0x20, 0x3c, 0x23, 0x02, 0x02, 0x27, 0x38, 0x20],
   [0x08, 0xf8, 0x88, 0x88, 0x88, 0x70, 0x00, 0x00, 0x20, 0x3f, 0x20, 0x20, 0x20, 0x11, 0x0e, 0x00],
   [0xc0, 0x30, 0x08, 0x08, 0x08, 0x08, 0x38, 0x00, 0x07, 0x18, 0x20, 0x20, 0x20, 0x10, 0x08, 0x00],
   [0x08, 0xf8, 0x08, 0x08, 0x08, 0x10, 0xe0, 0x00, 0x20, 0x3f, 0x20, 0x20, 0x20, 0x10, 0x0f, 0x00],
   [0x08, 0xf8, 0x88, 0x88, 0xe8, 0x08, 0x10, 0x00, 0x20, 0x3f, 0x20, 0x20, 0x23, 0x20, 0x18, 0x00],
   [0x08, 0xf8, 0x88, 0x88, 0xe8, 0x08, 0x10, 0x00, 0x20, 0x3f, 0x20, 0x00, 0x03, 0x00, 0x00, 0x00],
   [0xc0, 0x30, 0x08, 0x08, 0x08, 0x38, 0x00, 0x00, 0x07, 0x18, 0x20, 0x20, 0x22, 0x1e, 0x02, 0x00],
   [0x08, 0xf8, 0x08, 0x00, 0x00, 0x08, 0xf8, 0x08, 0x20, 0x3f, 0x21, 0x01, 0x01, 0x21, 0x3f, 0x20],
   [0x00, 0x08, 0x08, 0xf8, 0x08, 0x08, 0x00, 0x00, 0x00, 0x20, 0x20, 0x3f, 0x20, 0x20, 0x00, 0x00],
   [0x00, 0x00, 0x08, 0x08, 0xf8, 0x08, 0x08, 0x00, 0xc0, 0x80, 0x80, 0x80, 0x7f, 0x00, 0x00, 0x00],
   [0x08, 0xf8, 0x88, 0xc0, 0x28, 0x18, 0x08, 0x00, 0x20, 0x3f, 0x20, 0x01, 0x26, 0x38, 0x20, 0x00],
   [0x08, 0xf8, 0x08, 0x00, 0x00, 0x00, 0x00, 0x00, 0x20, 0x3f, 0x20, 0x20, 0x20, 0x20, 0x30, 0x00],
   [0x08, 0xf8, 0xf8, 0x00, 0xf8, 0xf8, 0x08, 0x00, 0x20, 0x3f, 0x00, 0x3f, 0x00, 0x3f, 0x20, 0x00],
   [0x08, 0xf8, 0x30, 0xc0, 0x00, 0x08, 0xf8, 0x08, 0x20, 0x3f, 0x20, 0x00, 0x07, 0x18, 0x3f, 0x00],
   [0xe0, 0x10, 0x08, 0x08, 0x08, 0x10, 0xe0, 0x00, 0x0f, 0x10, 0x20, 0x20, 0x20, 0x10, 0x0f, 0x00],
   [0x08, 0xf8, 0x08, 0x08, 0x08, 0x08, 0xf0, 0x00, 0x20, 0x3f, 0x21, 0x01, 0x01, 0x01, 0x00, 0x00],
   [0xe0, 0x10, 0x08, 0x08, 0x08, 0x10, 0xe0, 0x00, 0x0f, 0x18, 0x24, 0x24, 0x38, 0x50, 0x4f, 0x00],
   [0x08, 0xf8, 0x88, 0x88, 0x88, 0x88, 0x70, 0x00, 0x20, 0x3f, 0x20, 0x00, 0x03, 0x0c, 0x30, 0x20],
   [0x00, 0x70, 0x88, 0x08, 0x08, 0x08, 0x38, 0x00, 0x00, 0x38, 0x20, 0x21, 0x21, 0x22, 0x1c, 0x00],
   [0x18, 0x08, 0x08, 0xf8, 0x08, 0x08, 0x18, 0x00, 0x00, 0x00, 0x20, 0x3f, 0x20, 0x00, 0x00, 0x00],
   [0x08, 0xf8, 0x08, 0x00, 0x00, 0x08, 0xf8, 0x08, 0x00, 0x1f, 0x20, 0x20, 0x20, 0x20, 0x1f, 0x00],
   [0x08, 0x78, 0x88, 0x00, 0x00, 0xc8, 0x38, 0x08, 0x00, 0x00, 0x07, 0x38, 0x0e, 0x01, 0x00, 0x00],
   [0xf8, 0x08, 0x00, 0xf8, 0x00, 0x08, 0xf8, 0x00, 0x03, 0x3c, 0x07, 0x00, 0x07, 0x3c, 0x03, 0x00],
   [0x08, 0x18, 0x68, 0x80, 0x80, 0x68, 0x18, 0x08, 0x20, 0x30, 0x2c, 0x03, 0x03, 0x2c, 0x30, 0x20],
   [0x08, 0x38, 0xc8, 0x00, 0xc8, 0x38, 0x08, 0x00, 0x00, 0x00, 0x20, 0x3f, 0x20, 0x00, 0x00, 0x00],
   [0x10, 0x08, 0x08, 0x08, 0xc8, 0x38, 0x08, 0x00, 0x20, 0x38, 0x26, 0x21, 0x20, 0x20, 0x18, 0x00],
   [0x00, 0x00, 0x00, 0xfe, 0x02, 0x02, 0x02, 0x00, 0x00, 0x00, 0x00, 0x7f, 0x40, 0x40, 0x40, 0x00],
   [0x00, 0x0c, 0x30, 0xc0, 0x00, 0x00, 0x00, 0x00, 0x00, 0x00, 0x00, 0x01, 0x06, 0x38, 0xc0, 0x00],
   [0x00, 0x02, 0x02, 0x02, 0xfe, 0x00, 0x00, 0x00, 0x00, 0x40, 0x40, 0x40, 0x7f, 0x00, 0x00, 0x00],
   [0x00, 0x00, 0x04, 0x02, 0x02, 0x02, 0x04, 0x00, 0x00, 0x00, 0x00, 0x00, 0x00, 0x00, 0x00, 0x00],
   [0x00, 0x00, 0x00, 0x00, 0x00, 0x00, 0x00, 0x00, 0x80, 0x80, 0x80, 0x80, 0x80, 0x80, 0x80, 0x80],
   [0x00, 0x02, 0x02, 0x04, 0x00, 0x00, 0x00, 0x00, 0x00, 0x00, 0x00, 0x00, 0x00, 0x00, 0x00, 0x00],
   [0x00, 0x00, 0x80, 0x80, 0x80, 0x80, 0x00, 0x00, 0x00, 0x19, 0x24, 0x22, 0x22, 0x22, 0x3f, 0x20],
   [0x08, 0xf8, 0x00, 0x80, 0x80, 0x00, 0x00, 0x00, 0x00, 0x3f, 0x11, 0x20, 0x20, 0x11, 0x0e, 0x00],
   [0x00, 0x00, 0x00, 0x80, 0x80, 0x80, 0x00, 0x00, 0x00, 0x0e, 0x11, 0x20, 0x20, 0x20, 0x11, 0x00],
   [0x00, 0x00, 0x00, 0x80, 0x80, 0x88, 0xf8, 0x00, 0x00, 0x0e, 0x11, 0x20, 0x20, 0x10, 0x3f, 0x20],
   [0x00, 0x00, 0x80, 0x80, 0x80, 0x80, 0x00, 0x00, 0x00, 0x1f, 0x22, 0x22, 0x22, 0x22, 0x13, 0x00],
   [0x00, 0x80, 0x80, 0xf0, 0x88, 0x88, 0x88, 0x18, 0x00, 0x20, 0x20, 0x3f, 0x20, 0x20, 0x00, 0x00],
   [0x00, 0x00, 0x80, 0x80, 0x80, 0x80, 0x80, 0x00, 0x00, 0x6b, 0x94, 0x94, 0x94, 0x93, 0x60, 0x00],
   [0x08, 0xf8, 0x00, 0x80, 0x80, 0x80, 0x00, 0x00, 0x20, 0x3f, 0x21, 0x00, 0x00, 0x20, 0x3f, 0x20],
   [0x00, 0x80, 0x98, 0x98, 0x00, 0x00, 0x00, 0x00, 0x00, 0x20, 0x20, 0x3f, 0x20, 0x20, 0x00, 0x00],
   [0x00, 0x00, 0x00, 0x80, 0x98, 0x98, 0x00, 0x00, 0x00, 0xc0, 0x80, 0x80, 0x80, 0x7f, 0x00, 0x00],
   [0x08, 0xf8, 0x00, 0x00, 0x80, 0x80, 0x80, 0x00, 0x20, 0x3f, 0x24, 0x02, 0x2d, 0x30, 0x20, 0x00],
   [0x00, 0x08, 0x08, 0xf8, 0x00, 0x00, 0x00, 0x00, 0x00, 0x20, 0x20, 0x3f, 0x20, 0x20, 0x00, 0x00],
   [0x80, 0x80, 0x80, 0x80, 0x80, 0x80, 0x80, 0x00, 0x20, 0x3f, 0x20, 0x00, 0x3f, 0x20, 0x00, 0x3f],
   [0x80, 0x80, 0x00, 0x80, 0x80, 0x80, 0x00, 0x00, 0x20, 0x3f, 0x21, 0x00, 0x00, 0x20, 0x3f, 0x20],
   [0x00, 0x00, 0x80, 0x80, 0x80, 0x80, 0x00, 0x00, 0x00, 0x1f, 0x20, 0x20, 0x20, 0x20, 0x1f, 0x00],
   [0x80, 0x80, 0x00, 0x80, 0x80, 0x00, 0x00, 0x00, 0x80, 0xff, 0xa1, 0x20, 0x20, 0x11, 0x0e, 0x00],
   [0x00, 0x00, 0x00, 0x80, 0x80, 0x80, 0x80, 0x00, 0x00, 0x0e, 0x11, 0x20, 0x20, 0xa0, 0xff, 0x80],
   [0x80, 0x80, 0x80, 0x00, 0x80, 0x80, 0x80, 0x00, 0x20, 0x20, 0x3f, 0x21, 0x20, 0x00, 0x01, 0x00],
   [0x00, 0x00, 0x80, 0x80, 0x80, 0x80, 0x80, 0x00, 0x00, 0x33, 0x24, 0x24, 0x24, 0x24, 0x19, 0x00],
   [0x00, 0x80, 0x80, 0xe0, 0x80, 0x80, 0x00, 0x00, 0x00, 0x00, 0x00, 0x1f, 0x20, 0x20, 0x00, 0x00],
   [0x80, 0x80, 0x00, 0x00, 0x00, 0x80, 0x80, 0x00, 0x00, 0x1f, 0x20, 0x20, 0x20, 0x10, 0x3f, 0x20],
   [0x80, 0x80, 0x80, 0x00, 0x00, 0x80, 0x80, 0x80, 0x00, 0x01, 0x0e, 0x30, 0x08, 0x06, 0x01, 0x00],
   [0x80, 0x80, 0x00, 0x80, 0x00, 0x80, 0x80, 0x80, 0x0f, 0x30, 0x0c, 0x03, 0x0c, 0x30, 0x0f, 0x00],
   [0x00, 0x80, 0x80, 0x00, 0x80, 0x80, 0x80, 0x00, 0x00, 0x20, 0x31, 0x2e, 0x0e, 0x31, 0x20, 0x00],
   [0x80, 0x80, 0x80, 0x00, 0x00, 0x80, 0x80, 0x80, 0x80, 0x81, 0x8e, 0x70, 0x18, 0x06, 0x01, 0x00],
   [0x00, 0x80, 0x80, 0x80, 0x80, 0x80, 0x80, 0x00, 0x00, 0x21, 0x30, 0x2c, 0x22, 0x21, 0x30, 0x00],
   [0x00, 0x00, 0x00, 0x00, 0x80, 0x7c, 0x02, 0x02, 0x00, 0x00, 0x00, 0x00, 0x00, 0x3f, 0x40, 0x40],
   [0x00, 0x00, 0x00, 0x00, 0xff, 0x00, 0x00, 0x00, 0x00, 0x00, 0x00, 0x00, 0xff, 0x00, 0x00, 0x00],
   [0x00, 0x02, 0x02, 0x7c, 0x80, 0x00, 0x00, 0x00, 0x00, 0x40, 0x40, 0x3f, 0x00, 0x00, 0x00, 0x00],
   [0x00, 0x06, 0x01, 0x01, 0x02, 0x02, 0x04, 0x04, 0x00, 0x00, 0x00, 0x00, 0x00, 0x00, 0x00, 0x00]
  ]

/-- The fonts of `OLED.c`. -/
def panelFonts : Fonts where
  f8x16 i := f8x16.flatten.getD i 0
  f14x16 i := f14x16.flatten.getD i 0
  f14x16Idx := f14x16Idx
  double := doubleByte_f14x16Idx
  short := length_f14x16Idx

end CannonCar
