import CannonCar.Foundation.MachineInt
import CannonCar.Foundation.Printf

/-!
# The OLED panel

`work/OLED/OLED.c` as far as the menu pages use it, over a panel controller in page
addressing mode: eight pages of 128 columns, a page and a column pointer, and a
column pointer that moves on with every data byte.

`OLED_Set_Pos` forces the lowest column bit, so text asked for at `x` starts in
`column x`.  Within one page a text is described by `inked`, the bytes it puts in
which columns; `gram_oledP6x8Str` says that `OLED_P6x8Str` writes these and leaves
every other byte of the panel as it was, and `Shows` reads a text off the panel.

## Modelling decisions

**Text is a list of characters** without the terminator, where the loops of this file stop at
it; the function that can run past it is modelled on bytes, in `Oled.Scan`.

**The controller wraps within a page.**  The column pointer goes from 127 back to 0 and the
page stays (`oledWrDat`).  Nothing here depends on it, since a text that fits its page never
gets there; what happens at the edge is the subject of `Oled.Lines`.

**Commands that move no pointer are settings.**  They are kept in a list, so that a command
that is meant to be a page and is none does not vanish (`Oled.Pixel`).

**A font is a table of six bytes for each character**, copied from the source.  What the bytes
are plays a part only where two markers must look different.
-/

namespace CannonCar

open MachineInt Printf

/-! ## The panel controller -/

/-- The display memory and the state of the panel controller. -/
structure Oled where
  /-- The byte in a page and a column. -/
  gram : ℕ → ℕ → BitVec 8
  page : ℕ
  col : ℕ
  /-- The commands that set up the panel, newest first. -/
  settings : List ℕ

/-- The panel after power-up, as far as the pages can tell. -/
def Oled.blank : Oled := ⟨fun _ _ => 0, 0, 0, []⟩

/-- `OLED_WrCmd`. -/
def oledWrCmd (cmd : ℕ) (o : Oled) : Oled :=
  if 0xb0 ≤ cmd ∧ cmd < 0xb8 then { o with page := cmd - 0xb0 }
  else if cmd < 0x10 then { o with col := o.col / 16 * 16 + cmd }
  else if cmd < 0x20 then { o with col := (cmd - 0x10) % 8 * 16 + o.col % 16 }
  else { o with settings := cmd :: o.settings }

/-- `OLED_WrDat`. -/
def oledWrDat (data : BitVec 8) (o : Oled) : Oled :=
  { o with
    gram := Function.update o.gram o.page (Function.update (o.gram o.page) o.col data)
    col := (o.col + 1) % 128 }

/-- A run of `OLED_WrDat`. -/
def oledWrDats (bytes : List (BitVec 8)) (o : Oled) : Oled :=
  bytes.foldl (fun o data => oledWrDat data o) o

/-- `OLED_Set_Pos`. -/
def oledSetPos (x y : ℕ) (o : Oled) : Oled :=
  let o := oledWrCmd ((0xb0 + y) % 256) o
  let o := oledWrCmd (((x &&& 0xf0) >>> 4) ||| 0x10) o
  oledWrCmd ((x &&& 0x0f) ||| 0x01) o

/-- `OLED_CLS`. -/
def oledCLS (o : Oled) : Oled :=
  (List.range 8).foldl
    (fun o y =>
      oledWrDats (List.replicate 128 0)
        (oledWrCmd 0x10 (oledWrCmd 0x01 (oledWrCmd (0xb0 + y) o))))
    o

/-- The first column of a text at `x`. -/
def column (x : ℕ) : ℕ := x / 2 * 2 + 1

/-- The two column commands of a position on the panel. -/
theorem column_commands :
    ∀ x < 128, ((x &&& 0xf0) >>> 4) ||| 0x10 = 0x10 + x / 16 ∧
      (x &&& 0x0f) ||| 0x01 = x % 16 / 2 * 2 + 1 := by
  decide

/-! Each command sets one part of the address, or a setting. -/

theorem oledWrCmd_page {y : ℕ} (hy : y < 8) (o : Oled) :
    oledWrCmd (0xb0 + y) o = { o with page := y } := by
  rw [oledWrCmd, if_pos ⟨by omega, by omega⟩, Nat.add_sub_cancel_left]

theorem oledWrCmd_high {n : ℕ} (hn : n < 8) (o : Oled) :
    oledWrCmd (0x10 + n) o = { o with col := n * 16 + o.col % 16 } := by
  rw [oledWrCmd, if_neg (by omega), if_neg (by omega), if_pos (by omega), Nat.add_sub_cancel_left,
    Nat.mod_eq_of_lt hn]

theorem oledWrCmd_low {n : ℕ} (hn : n < 16) (o : Oled) :
    oledWrCmd n o = { o with col := o.col / 16 * 16 + n } := by
  rw [oledWrCmd, if_neg (by omega), if_pos hn]

theorem oledWrCmd_setting {cmd : ℕ} (large : 0x20 ≤ cmd) (other : cmd < 0xb0 ∨ 0xb8 ≤ cmd)
    (o : Oled) : oledWrCmd cmd o = { o with settings := cmd :: o.settings } := by
  rw [oledWrCmd, if_neg (by omega), if_neg (by omega), if_neg (by omega)]

/-- The column commands of `OLED_Set_Pos` move the column pointer and nothing else. -/
theorem oledSetPos_col {x : ℕ} (hx : x < 128) (y : ℕ) (o : Oled) :
    oledSetPos x y o = { oledWrCmd ((0xb0 + y) % 256) o with col := column x } := by
  obtain ⟨high, low⟩ := column_commands x hx
  simp only [oledSetPos]
  rw [high, low, oledWrCmd_high (by omega), oledWrCmd_low (by omega)]
  congr 1
  show (x / 16 * 16 + _ % 16) / 16 * 16 + (x % 16 / 2 * 2 + 1) = x / 2 * 2 + 1
  omega

theorem oledSetPos_eq {x y : ℕ} (hx : x < 128) (hy : y < 8) (o : Oled) :
    oledSetPos x y o = { o with page := y, col := column x } := by
  rw [oledSetPos_col hx, Nat.mod_eq_of_lt (by omega), oledWrCmd_page hy]

/-- Data bytes that stay within a page go to consecutive columns of it. -/
theorem gram_oledWrDats (bytes : List (BitVec 8)) {o : Oled}
    (fits : o.col + bytes.length ≤ 128) (p q : ℕ) :
    (oledWrDats bytes o).gram p q =
      if p = o.page ∧ o.col ≤ q then bytes[q - o.col]?.getD (o.gram p q) else o.gram p q := by
  induction bytes generalizing o with
  | nil => simp [oledWrDats]
  | cons data bytes ih =>
      rw [List.length_cons] at fits
      show (oledWrDats bytes (oledWrDat data o)).gram p q = _
      cases bytes with
      | nil =>
          by_cases hp : p = o.page
          · subst hp
            by_cases hq : q = o.col
            · subst hq
              simp [oledWrDats, oledWrDat]
            · have beyond : o.col ≤ q → q - o.col ≠ 0 := fun h => by omega
              simp only [oledWrDats, List.foldl_nil, oledWrDat, Function.update_self,
                Function.update_of_ne hq, true_and]
              split_ifs with h
              · obtain ⟨k, hk⟩ := Nat.exists_eq_succ_of_ne_zero (beyond h)
                rw [hk]
                rfl
              · rfl
          · simp [oledWrDats, oledWrDat, hp]
      | cons next bytes =>
          rw [List.length_cons] at fits
          have col : (oledWrDat data o).col = o.col + 1 := Nat.mod_eq_of_lt (by omega)
          have page : (oledWrDat data o).page = o.page := rfl
          rw [ih (by rw [col, List.length_cons]; omega), col, page]
          by_cases hp : p = o.page
          · subst hp
            by_cases hq : q = o.col
            · subst hq
              simp [oledWrDat]
            · have gram : (oledWrDat data o).gram o.page q = o.gram o.page q := by
                simp [oledWrDat, hq]
              rw [gram]
              by_cases h : o.col + 1 ≤ q
              · obtain ⟨k, rfl⟩ := Nat.exists_eq_add_of_le h
                have first : o.col + 1 + k - (o.col + 1) = k := by omega
                have second : o.col + 1 + k - o.col = k + 1 := by omega
                rw [if_pos ⟨rfl, h⟩, if_pos ⟨rfl, by omega⟩, first, second,
                  List.getElem?_cons_succ]
              · rw [if_neg (fun c => h c.2), if_neg (fun c => by omega)]
          · have gram : (oledWrDat data o).gram p q = o.gram p q := by
              simp [oledWrDat, hp]
            rw [if_neg (fun c => hp c.1), if_neg (fun c => hp c.1), gram]

/-! ## Text -/

/-- `F6x8`, six column bytes for every character from the blank on. -/
def f6x8 : List (List (BitVec 8)) :=
  [
    [0x00, 0x00, 0x00, 0x00, 0x00, 0x00], [0x00, 0x00, 0x00, 0x2f, 0x00, 0x00],
    [0x00, 0x00, 0x07, 0x00, 0x07, 0x00], [0x00, 0x14, 0x7f, 0x14, 0x7f, 0x14],
    [0x00, 0x24, 0x2a, 0x7f, 0x2a, 0x12], [0x00, 0x62, 0x64, 0x08, 0x13, 0x23],
    [0x00, 0x36, 0x49, 0x55, 0x22, 0x50], [0x00, 0x00, 0x05, 0x03, 0x00, 0x00],
    [0x00, 0x00, 0x1c, 0x22, 0x41, 0x00], [0x00, 0x00, 0x41, 0x22, 0x1c, 0x00],
    [0x00, 0x14, 0x08, 0x3E, 0x08, 0x14], [0x00, 0x08, 0x08, 0x3E, 0x08, 0x08],
    [0x00, 0x00, 0x00, 0xA0, 0x60, 0x00], [0x00, 0x08, 0x08, 0x08, 0x08, 0x08],
    [0x00, 0x00, 0x60, 0x60, 0x00, 0x00], [0x00, 0x20, 0x10, 0x08, 0x04, 0x02],
    [0x00, 0x3E, 0x51, 0x49, 0x45, 0x3E], [0x00, 0x00, 0x42, 0x7F, 0x40, 0x00],
    [0x00, 0x42, 0x61, 0x51, 0x49, 0x46], [0x00, 0x21, 0x41, 0x45, 0x4B, 0x31],
    [0x00, 0x18, 0x14, 0x12, 0x7F, 0x10], [0x00, 0x27, 0x45, 0x45, 0x45, 0x39],
    [0x00, 0x3C, 0x4A, 0x49, 0x49, 0x30], [0x00, 0x01, 0x71, 0x09, 0x05, 0x03],
    [0x00, 0x36, 0x49, 0x49, 0x49, 0x36], [0x00, 0x06, 0x49, 0x49, 0x29, 0x1E],
    [0x00, 0x00, 0x36, 0x36, 0x00, 0x00], [0x00, 0x00, 0x56, 0x36, 0x00, 0x00],
    [0x00, 0x08, 0x14, 0x22, 0x41, 0x00], [0x00, 0x14, 0x14, 0x14, 0x14, 0x14],
    [0x00, 0x00, 0x41, 0x22, 0x14, 0x08], [0x00, 0x02, 0x01, 0x51, 0x09, 0x06],
    [0x00, 0x32, 0x49, 0x59, 0x51, 0x3E], [0x00, 0x7C, 0x12, 0x11, 0x12, 0x7C],
    [0x00, 0x7F, 0x49, 0x49, 0x49, 0x36], [0x00, 0x3E, 0x41, 0x41, 0x41, 0x22],
    [0x00, 0x7F, 0x41, 0x41, 0x22, 0x1C], [0x00, 0x7F, 0x49, 0x49, 0x49, 0x41],
    [0x00, 0x7F, 0x09, 0x09, 0x09, 0x01], [0x00, 0x3E, 0x41, 0x49, 0x49, 0x7A],
    [0x00, 0x7F, 0x08, 0x08, 0x08, 0x7F], [0x00, 0x00, 0x41, 0x7F, 0x41, 0x00],
    [0x00, 0x20, 0x40, 0x41, 0x3F, 0x01], [0x00, 0x7F, 0x08, 0x14, 0x22, 0x41],
    [0x00, 0x7F, 0x40, 0x40, 0x40, 0x40], [0x00, 0x7F, 0x02, 0x0C, 0x02, 0x7F],
    [0x00, 0x7F, 0x04, 0x08, 0x10, 0x7F], [0x00, 0x3E, 0x41, 0x41, 0x41, 0x3E],
    [0x00, 0x7F, 0x09, 0x09, 0x09, 0x06], [0x00, 0x3E, 0x41, 0x51, 0x21, 0x5E],
    [0x00, 0x7F, 0x09, 0x19, 0x29, 0x46], [0x00, 0x46, 0x49, 0x49, 0x49, 0x31],
    [0x00, 0x01, 0x01, 0x7F, 0x01, 0x01], [0x00, 0x3F, 0x40, 0x40, 0x40, 0x3F],
    [0x00, 0x1F, 0x20, 0x40, 0x20, 0x1F], [0x00, 0x3F, 0x40, 0x38, 0x40, 0x3F],
    [0x00, 0x63, 0x14, 0x08, 0x14, 0x63], [0x00, 0x07, 0x08, 0x70, 0x08, 0x07],
    [0x00, 0x61, 0x51, 0x49, 0x45, 0x43], [0x00, 0x00, 0x7F, 0x41, 0x41, 0x00],
    [0x00, 0x55, 0x2A, 0x55, 0x2A, 0x55], [0x00, 0x00, 0x41, 0x41, 0x7F, 0x00],
    [0x00, 0x04, 0x02, 0x01, 0x02, 0x04], [0x00, 0x40, 0x40, 0x40, 0x40, 0x40],
    [0x00, 0x00, 0x01, 0x02, 0x04, 0x00], [0x00, 0x20, 0x54, 0x54, 0x54, 0x78],
    [0x00, 0x7F, 0x48, 0x44, 0x44, 0x38], [0x00, 0x38, 0x44, 0x44, 0x44, 0x20],
    [0x00, 0x38, 0x44, 0x44, 0x48, 0x7F], [0x00, 0x38, 0x54, 0x54, 0x54, 0x18],
    [0x00, 0x08, 0x7E, 0x09, 0x01, 0x02], [0x00, 0x18, 0xA4, 0xA4, 0xA4, 0x7C],
    [0x00, 0x7F, 0x08, 0x04, 0x04, 0x78], [0x00, 0x00, 0x44, 0x7D, 0x40, 0x00],
    [0x00, 0x40, 0x80, 0x84, 0x7D, 0x00], [0x00, 0x7F, 0x10, 0x28, 0x44, 0x00],
    [0x00, 0x00, 0x41, 0x7F, 0x40, 0x00], [0x00, 0x7C, 0x04, 0x18, 0x04, 0x78],
    [0x00, 0x7C, 0x08, 0x04, 0x04, 0x78], [0x00, 0x38, 0x44, 0x44, 0x44, 0x38],
    [0x00, 0xFC, 0x24, 0x24, 0x24, 0x18], [0x00, 0x18, 0x24, 0x24, 0x18, 0xFC],
    [0x00, 0x7C, 0x08, 0x04, 0x04, 0x08], [0x00, 0x48, 0x54, 0x54, 0x54, 0x20],
    [0x00, 0x04, 0x3F, 0x44, 0x40, 0x20], [0x00, 0x3C, 0x40, 0x40, 0x20, 0x7C],
    [0x00, 0x1C, 0x20, 0x40, 0x20, 0x1C], [0x00, 0x3C, 0x40, 0x30, 0x40, 0x3C],
    [0x00, 0x44, 0x28, 0x10, 0x28, 0x44], [0x00, 0x1C, 0xA0, 0xA0, 0xA0, 0x7C],
    [0x00, 0x44, 0x64, 0x54, 0x4C, 0x44], [0x14, 0x14, 0x14, 0x14, 0x14, 0x14]
  ]

/-- The six bytes `OLED_P6x8Str` sends for a character: the row `(u8)(ch-32)` of the
font. -/
def glyph (ch : Char) : List (BitVec 8) :=
  (List.range 6).map fun i => (f6x8.getD ((ch.toNat + 224) % 256) []).getD i 0

/-- `OLED_P6x8Str`, on the characters before the terminator. -/
def oledP6x8Str : ℕ → ℕ → List Char → Oled → Oled
  | _, _, [], o => o
  | x, y, ch :: rest, o =>
      -- Text that runs off the right edge goes on in the next page.
      let x' := if x > 126 then 0 else x
      let y' := if x > 126 then (y + 1) % 256 else y
      oledP6x8Str ((x' + 6) % 256) y' rest (oledWrDats (glyph ch) (oledSetPos x' y' o))

/-- The text of `LCD_Write_Number`; the `u32` is printed through `%5d`. -/
def numberText (number : ℤ) : List Char := formatInt 5 (toSigned 32 number)

/-- `LCD_Write_Number`. -/
def lcdWriteNumber (x y : ℕ) (number : ℤ) (o : Oled) : Oled :=
  oledP6x8Str x y (numberText number) o

@[simp] theorem length_glyph (ch : Char) : (glyph ch).length = 6 := by
  rw [glyph, List.length_map, List.length_range]

/-- The byte a text that starts in column `col` puts in column `q`. -/
def inked : ℕ → List Char → ℕ → Option (BitVec 8)
  | _, [], _ => none
  | col, ch :: rest, q =>
      if col ≤ q ∧ q < col + 6 then (glyph ch)[q - col]? else inked (col + 6) rest q

/-- A text puts nothing outside its own columns. -/
theorem inked_eq_none {col : ℕ} (cs : List Char) {q : ℕ}
    (outside : q < col ∨ col + 6 * cs.length ≤ q) : inked col cs q = none := by
  induction cs generalizing col with
  | nil => rfl
  | cons ch cs ih =>
      rw [List.length_cons] at outside
      rw [inked, if_neg (by omega), ih (by omega)]

theorem inked_append (col : ℕ) (cs ds : List Char) (q : ℕ) :
    inked col (cs ++ ds) q =
      (inked col cs q).or (inked (col + 6 * cs.length) ds q) := by
  induction cs generalizing col with
  | nil => simp [inked]
  | cons ch cs ih =>
      rw [List.cons_append, inked, inked]
      split_ifs with h
      · have inside : q - col < (glyph ch).length := by
          rw [length_glyph]
          omega
        rw [List.getElem?_eq_getElem inside, Option.some_or]
      · rw [ih, List.length_cons]
        congr 2
        ring

/-- **What `OLED_P6x8Str` does.**  A text that fits its page is inked on that page
and nowhere else. -/
theorem gram_oledP6x8Str {x y : ℕ} (hy : y < 8) {cs : List Char}
    (fits : column x + 6 * cs.length ≤ 128) (o : Oled) (p q : ℕ) :
    (oledP6x8Str x y cs o).gram p q =
      if p = y then (inked (column x) cs q).getD (o.gram p q) else o.gram p q := by
  induction cs generalizing x o with
  | nil => simp [oledP6x8Str, inked]
  | cons ch cs ih =>
      rw [List.length_cons] at fits
      have hx : x < 122 := by
        unfold column at fits
        omega
      have next : column ((x + 6) % 256) = column x + 6 := by
        unfold column
        omega
      simp only [oledP6x8Str, if_neg (show ¬ x > 126 by omega)]
      have inside : column x + (glyph ch).length ≤ 128 := by
        rw [length_glyph]
        omega
      rw [ih (by rw [next]; omega), next, oledSetPos_eq (by omega) hy,
        gram_oledWrDats (glyph ch) inside]
      by_cases hp : p = y
      · subst hp
        simp only [if_true, true_and, inked]
        by_cases here : column x ≤ q ∧ q < column x + 6
        · rw [if_pos here, if_pos here.1, inked_eq_none cs (by omega), Option.getD_none]
        · rw [if_neg here]
          split_ifs with h
          · have beyond : (glyph ch)[q - column x]? = none := by
              rw [List.getElem?_eq_none_iff, length_glyph]
              omega
            rw [beyond, Option.getD_none]
          · rfl
      · simp [hp]

/-! ## Reading a text off the panel -/

/-- The panel shows the characters `cs` on a page, from a column on. -/
def Shows (o : Oled) (page col : ℕ) (cs : List Char) : Prop :=
  ∀ q b, inked col cs q = some b → o.gram page q = b

/-- A text is shown where it has been drawn. -/
theorem shows_oledP6x8Str {x y : ℕ} (hy : y < 8) {cs : List Char}
    (fits : column x + 6 * cs.length ≤ 128) (o : Oled) :
    Shows (oledP6x8Str x y cs o) y (column x) cs := by
  intro q b hb
  rw [gram_oledP6x8Str hy fits, if_pos rfl, hb, Option.getD_some]

/-- Drawing in another page leaves a text on the panel. -/
theorem Shows.of_ne_page {o : Oled} {page col : ℕ} {cs : List Char} (h : Shows o page col cs)
    {x y : ℕ} (hy : y < 8) {ds : List Char} (fits : column x + 6 * ds.length ≤ 128)
    (ne : page ≠ y) : Shows (oledP6x8Str x y ds o) page col cs := by
  intro q b hb
  rw [gram_oledP6x8Str hy fits, if_neg ne]
  exact h q b hb

/-- Drawing over a part of a text replaces that part. -/
theorem Shows.overwrite {o : Oled} {page col : ℕ} {cs ds es : List Char}
    (h : Shows o page col (cs ++ ds ++ es)) {x : ℕ} (hpage : page < 8) {ds' : List Char}
    (fits : column x + 6 * ds'.length ≤ 128) (here : column x = col + 6 * cs.length)
    (length : ds'.length = ds.length) :
    Shows (oledP6x8Str x page ds' o) page col (cs ++ ds' ++ es) := by
  intro q b hb
  rw [gram_oledP6x8Str hpage fits, if_pos rfl, here]
  rw [List.append_assoc, inked_append, inked_append] at hb
  by_cases inside : col + 6 * cs.length ≤ q ∧ q < col + 6 * cs.length + 6 * ds.length
  · rw [inked_eq_none cs (by omega), inked_eq_none es (by omega), Option.none_or,
      Option.or_none] at hb
    rw [hb, Option.getD_some]
  · rw [inked_eq_none ds' (by omega), Option.getD_none]
    apply h
    rw [inked_eq_none ds' (by omega), Option.none_or, length] at hb
    rw [List.append_assoc, inked_append, inked_append, inked_eq_none ds (by omega),
      Option.none_or, hb]

/-- A part of a text is shown where it stands in the text. -/
theorem Shows.part {o : Oled} {page col : ℕ} {cs ds es : List Char}
    (h : Shows o page col (cs ++ ds ++ es)) : Shows o page (col + 6 * cs.length) ds := by
  intro q b hb
  have inside : col + 6 * cs.length ≤ q := by
    by_contra outside
    rw [inked_eq_none ds (by omega)] at hb
    cases hb
  apply h
  rw [List.append_assoc, inked_append, inked_append, inked_eq_none cs (by omega), hb,
    Option.some_or, Option.none_or]

end CannonCar
