import CannonCar.Oled.Scan

/-!
# Mixed text

`OLED_Print` cuts a text into single-byte and double-byte characters and calls
`OLED_P8x16Str` or `OLED_P14x16Str` for one at a time, in a buffer of three bytes.  Each
callee breaks the line by itself, by its own limit and on its own copy of the position; the
caller goes on counting columns in the line it started.

For characters the font knows the traffic of a call is that of its characters one by one
(`oledPrint_whole`, `oledPrint_prefix`), and `cells_printTraffic` says where it goes.

## What is load-bearing

**Three counters for one column.**  The caller counts columns from where it was told to start, and
each callee breaks the line on a copy of its own.  `start` is where a character is drawn, in
terms of what the caller passes, and `lineWidth` what the caller has counted by then.

**An index of eight bits again.**  A text of 256 bytes and more is started over, so that a call
need not return; the results are about calls that do, and about texts short enough that they
must.
-/

namespace CannonCar

open Trajectory

/-! ## The functions -/

/-- A half of the cell of a single-byte character, eight bytes of the font. -/
def p8x16Half (fonts : Fonts) (c offset : ℕ) : List (BitVec 8) :=
  (List.range 8).map fun i => fonts.f8x16 (c * 16 + i + offset)

/-- What is sent for one single-byte character. -/
def p8x16Char (fonts : Fonts) (x y : ℕ) (ch : BitVec 8) : List Bus :=
  let c := (ch.toNat + 224) % 256
  (setPosBus x y ++ dataBus (p8x16Half fonts c 0)) ++
    (setPosBus x (y + 1) ++ dataBus (p8x16Half fonts c 8))

/-- What `OLED_P8x16Str` sends for each character. -/
def p8x16Traffic (fonts : Fonts) : ℕ → ℕ → List (BitVec 8) → List (List Bus)
  | _, _, [] => []
  | x, y, ch :: rest =>
      let x' := if x > 120 then 0 else x
      let y' := if x > 120 then (y + 1) % 256 else y
      p8x16Char fonts x' y' ch :: p8x16Traffic fonts ((x' + 8) % 256) y' rest

/-- `ch2` with two bytes and their terminator, and what stands behind it on the stack. -/
def printBuffer (c1 c2 : BitVec 8) (stack : ℕ → BitVec 8) : ℕ → BitVec 8
  | 0 => c1
  | 1 => c2
  | 2 => 0
  | i => stack i

/-- The loop of `OLED_Print` over the memory at `ch`: what is sent for each character. -/
def oledPrint (fonts : Fonts) (stack ch : ℕ → BitVec 8) : ℕ → ℕ → ℕ → ℕ → Option (List (List Bus))
  | 0, _, _, _ => none
  | fuel + 1, ii, x, y =>
      if ch ii = 0 then some []
      else if 127 < (ch ii).toNat then
        (p14x16Scan fonts (printBuffer (ch ii) (ch (ii + 1)) stack) fuel 0 x y).bind fun scan =>
          (oledPrint fonts stack ch fuel ((ii + 2) % 256) ((x + 14) % 256) y).map
            (scan.traffic.flatten :: ·)
      else
        (oledPrint fonts stack ch fuel ((ii + 1) % 256) ((x + 8) % 256) y).map
          ((p8x16Traffic fonts x y [ch ii]).flatten :: ·)

/-! ## Characters -/

/-- A character of a mixed text. -/
inductive MixedChar
  | single (ch : BitVec 8)
  | double (pair : BitVec 8 × BitVec 8)

namespace MixedChar

/-- An ASCII character, or one that the font knows. -/
def Valid (fonts : Fonts) : MixedChar → Prop
  | single ch => ch ≠ 0 ∧ ch.toNat ≤ 127
  | double pair => fonts.Knows pair

def bytes : MixedChar → List (BitVec 8)
  | single ch => [ch]
  | double pair => [pair.1, pair.2]

/-- The columns a cell takes. -/
def width : MixedChar → ℕ
  | single _ => 8
  | double _ => 14

/-- The last column the callee does not break the line at. -/
def limit : MixedChar → ℕ
  | single _ => 120
  | double _ => 118

/-- Where the callee puts the character. -/
def start (g : MixedChar) (x y : ℕ) : ℕ × ℕ :=
  if x > g.limit then (0, (y + 1) % 256) else (x, y)

/-- What the callee sends. -/
def traffic (fonts : Fonts) (g : MixedChar) (start : ℕ × ℕ) : List Bus :=
  match g with
  | single ch => p8x16Char fonts start.1 start.2 ch
  | double pair => p14x16Char fonts start.1 start.2 (fonts.adder pair.1 pair.2)

end MixedChar

/-- The bytes of a text. -/
def mixedBytes (text : List MixedChar) : List (BitVec 8) := text.flatMap MixedChar.bytes

/-- The columns of a text set in one line. -/
def lineWidth (text : List MixedChar) : ℕ := (text.map MixedChar.width).sum

@[simp] theorem lineWidth_nil : lineWidth [] = 0 := rfl

@[simp] theorem lineWidth_cons (g : MixedChar) (text : List MixedChar) :
    lineWidth (g :: text) = g.width + lineWidth text := by
  rw [lineWidth, List.map_cons, List.sum_cons, lineWidth]

@[simp] theorem lineWidth_append (text rest : List MixedChar) :
    lineWidth (text ++ rest) = lineWidth text + lineWidth rest := by
  rw [lineWidth, List.map_append, List.sum_append, lineWidth, lineWidth]

/-- Where the characters of a text are put. -/
def printStarts : ℕ → ℕ → List MixedChar → List (ℕ × ℕ)
  | _, _, [] => []
  | x, y, g :: text => g.start x y :: printStarts ((x + g.width) % 256) y text

/-- What is sent for a text. -/
def printTraffic (fonts : Fonts) : ℕ → ℕ → List MixedChar → List (List Bus)
  | _, _, [] => []
  | x, y, g :: text =>
      g.traffic fonts (g.start x y) :: printTraffic fonts ((x + g.width) % 256) y text

/-! ## One character -/

/-- `OLED_P14x16Str` on the buffer with a character of the font, whenever it returns. -/
theorem p14x16Scan_printBuffer {fonts : Fonts} {c1 c2 : BitVec 8} (more : c1 ≠ 0)
    (knows : fonts.Knows (c1, c2)) (stack : ℕ → BitVec 8) (x y : ℕ) :
    (∀ fuel, ∃ scan, p14x16Scan fonts (printBuffer c1 c2 stack) (fuel + 2) 0 x y = some scan) ∧
      ∀ fuel scan, p14x16Scan fonts (printBuffer c1 c2 stack) fuel 0 x y = some scan →
        scan.traffic.flatten =
          (MixedChar.double (c1, c2)).traffic fonts ((MixedChar.double (c1, c2)).start x y) := by
  have found : fonts.adder c1 c2 ≠ 1 := (fonts.adder_ne_one_iff c1 c2).mpr knows
  have turn : ∀ fuel, p14x16Scan fonts (printBuffer c1 c2 stack) (fuel + 2) 0 x y =
      some ⟨[0, 2], [(MixedChar.double (c1, c2)).traffic fonts
        ((MixedChar.double (c1, c2)).start x y)]⟩ := by
    intro fuel
    have first : printBuffer c1 c2 stack 0 = c1 := rfl
    have second : printBuffer c1 c2 stack (0 + 1) = c2 := rfl
    have stop : printBuffer c1 c2 stack ((0 + 2) % 256) = 0 := rfl
    rw [p14x16Scan, first, second, if_neg more]
    simp only [if_pos found]
    rw [p14x16Scan_stop stop, Option.map_some, MixedChar.start, MixedChar.limit]
    split_ifs <;> rfl
  refine ⟨fun fuel => ⟨_, turn fuel⟩, fun fuel scan ends => ?_⟩
  cases fuel with
  | zero => cases ends
  | succ fuel =>
      cases fuel with
      | zero =>
          rw [p14x16Scan, show printBuffer c1 c2 stack 0 = c1 from rfl, if_neg more] at ends
          cases ends
      | succ fuel =>
          rw [turn] at ends
          cases ends
          exact List.flatten_singleton

/-- `OLED_P8x16Str` on the buffer with an ASCII character. -/
theorem p8x16Traffic_singleton (fonts : Fonts) (ch : BitVec 8) (x y : ℕ) :
    (p8x16Traffic fonts x y [ch]).flatten =
      (MixedChar.single ch).traffic fonts ((MixedChar.single ch).start x y) := by
  rw [p8x16Traffic, p8x16Traffic, List.flatten_singleton, MixedChar.start, MixedChar.limit]
  split_ifs <;> rfl

/-! ## Whole texts -/

theorem mixedBytes_cons (g : MixedChar) (text : List MixedChar) :
    mixedBytes (g :: text) = g.bytes ++ mixedBytes text := List.flatMap_cons

theorem MixedChar.length_bytes (g : MixedChar) : 1 ≤ g.bytes.length ∧ g.bytes.length ≤ 2 := by
  cases g with
  | single ch => exact ⟨le_rfl, Nat.le_succ 1⟩
  | double pair => exact ⟨Nat.le_succ 1, le_rfl⟩

/-- A turn of the loop, at a character the font knows: what it sends and where it goes on,
if the callee returns. -/
theorem oledPrint_turn {fonts : Fonts} {g : MixedChar} (valid : g.Valid fonts)
    (stack : ℕ → BitVec 8) {ch : ℕ → BitVec 8} {ii : ℕ} {l : List (BitVec 8)}
    (holds : HoldsAt ch ii (g.bytes ++ l)) (x y : ℕ) :
    HoldsAt ch (ii + g.bytes.length) l ∧
      (∀ fuel out, oledPrint fonts stack ch (fuel + 1) ii x y = some out →
        ∃ rest, out = g.traffic fonts (g.start x y) :: rest ∧
          oledPrint fonts stack ch fuel ((ii + g.bytes.length) % 256) ((x + g.width) % 256) y =
            some rest) ∧
      ∀ fuel rest,
        oledPrint fonts stack ch (fuel + 2) ((ii + g.bytes.length) % 256) ((x + g.width) % 256) y =
            some rest →
          oledPrint fonts stack ch (fuel + 3) ii x y =
            some (g.traffic fonts (g.start x y) :: rest) := by
  cases g with
  | single c =>
      obtain ⟨more, rfl, later⟩ := holds
      have low : ¬ 127 < (ch ii).toNat := not_lt.mpr valid.2
      refine ⟨later, fun fuel out ends => ?_, fun fuel rest ends => ?_⟩
      · rw [oledPrint, if_neg more, if_neg low, p8x16Traffic_singleton] at ends
        obtain ⟨rest, ends', rfl⟩ := Option.map_eq_some_iff.mp ends
        exact ⟨rest, rfl, ends'⟩
      · have ends' : oledPrint fonts stack ch (fuel + 2) ((ii + 1) % 256) ((x + 8) % 256) y =
            some rest := ends
        rw [oledPrint, if_neg more, if_neg low, p8x16Traffic_singleton, ends', Option.map_some]
  | double pair =>
      obtain ⟨c1, c2⟩ := pair
      obtain ⟨more, rfl, -, rfl, later⟩ := holds
      have high : 127 < (ch ii).toNat := (fonts.double _ valid).1
      obtain ⟨returns, sends⟩ := p14x16Scan_printBuffer more valid stack x y
      refine ⟨later, fun fuel out ends => ?_, fun fuel rest ends => ?_⟩
      · rw [oledPrint, if_neg more, if_pos high] at ends
        obtain ⟨scan, callee, ends'⟩ := Option.bind_eq_some_iff.mp ends
        obtain ⟨rest, ends'', rfl⟩ := Option.map_eq_some_iff.mp ends'
        exact ⟨rest, by rw [sends fuel scan callee], ends''⟩
      · obtain ⟨scan, callee⟩ := returns fuel
        have ends' : oledPrint fonts stack ch (fuel + 2) ((ii + 2) % 256) ((x + 14) % 256) y =
            some rest := ends
        rw [oledPrint, if_neg more, if_pos high, callee, Option.bind_some, sends _ scan callee,
          ends', Option.map_some]

/-- **What `OLED_Print` sends first.**  A call that returns has sent the traffic of every
part of the text within the reach of its `u8` index. -/
theorem oledPrint_prefix {fonts : Fonts} {text : List MixedChar}
    (valid : ∀ g ∈ text, g.Valid fonts) {stack ch : ℕ → BitVec 8} {l : List (BitVec 8)}
    {fuel ii x y : ℕ} (holds : HoldsAt ch ii (mixedBytes text ++ l))
    (short : ii + (mixedBytes text).length ≤ 255) {out : List (List Bus)}
    (ends : oledPrint fonts stack ch fuel ii x y = some out) :
    ∃ rest, out = printTraffic fonts x y text ++ rest := by
  induction text generalizing fuel ii x out with
  | nil => exact ⟨out, rfl⟩
  | cons g text ih =>
      obtain ⟨here, others⟩ := List.forall_mem_cons.mp valid
      rw [mixedBytes_cons, List.append_assoc] at holds
      rw [mixedBytes_cons, List.length_append] at short
      cases fuel with
      | zero => cases ends
      | succ fuel =>
          obtain ⟨later, sends, -⟩ := oledPrint_turn here stack holds x y
          obtain ⟨out', rfl, ends'⟩ := sends fuel out ends
          rw [Nat.mod_eq_of_lt (by omega)] at ends'
          obtain ⟨rest, rfl⟩ := ih others later (by omega) ends'
          exact ⟨rest, rfl⟩

/-- **A text of fewer than 256 bytes is printed to its end.** -/
theorem oledPrint_whole {fonts : Fonts} {text : List MixedChar}
    (valid : ∀ g ∈ text, g.Valid fonts) {stack ch : ℕ → BitVec 8} {ii : ℕ} (x y : ℕ)
    (holds : HoldsAt ch ii (mixedBytes text)) (short : ii + (mixedBytes text).length ≤ 255) :
    oledPrint fonts stack ch (text.length + 2) ii x y = some (printTraffic fonts x y text) := by
  induction text generalizing ii x with
  | nil => exact if_pos holds
  | cons g text ih =>
      obtain ⟨here, others⟩ := List.forall_mem_cons.mp valid
      rw [mixedBytes_cons] at holds short
      rw [List.length_append] at short
      obtain ⟨later, -, goes⟩ := oledPrint_turn here stack holds x y
      have ends := ih others ((x + g.width) % 256) later (by omega)
      exact goes text.length _ (by rw [Nat.mod_eq_of_lt (by omega)]; exact ends)

/-! ## Cells -/

/-- The cell of a character: two strips, one under the other. -/
def charCell (g : MixedChar) (start : ℕ × ℕ) : List (ℕ × ℕ) :=
  strip start.1 start.2 g.width ++ strip start.1 (start.2 + 1) g.width

/-- Every character fits the panel with both its halves. -/
def FitsPanel (x y : ℕ) (text : List MixedChar) : Prop :=
  ∀ start ∈ printStarts x y text, start.2 ≤ 6

theorem MixedChar.start_le (g : MixedChar) (x y : ℕ) : (g.start x y).1 ≤ 120 := by
  have limit : g.limit ≤ 120 := by
    cases g with
    | single ch => exact le_rfl
    | double pair => exact show 118 ≤ 120 by decide
  unfold MixedChar.start
  split_ifs
  · exact Nat.zero_le _
  · show x ≤ 120
    omega

theorem addresses_traffic {fonts : Fonts} {g : MixedChar} (valid : g.Valid fonts)
    {start : ℕ × ℕ} (hx : start.1 < 128) (hy : start.2 ≤ 6) (o : Oled) :
    addresses o (g.traffic fonts start) = charCell g start := by
  cases g with
  | single ch =>
      rw [MixedChar.traffic, p8x16Char, addresses_append, addresses_strip hx (by omega),
        addresses_strip hx (by omega)]
      simp only [p8x16Half, List.length_map, List.length_range]
      rfl
  | double pair =>
      have found : fonts.adder pair.1 pair.2 ≠ 1 := (fonts.adder_ne_one_iff _ _).mpr valid
      rw [MixedChar.traffic, p14x16Char, if_pos found, addresses_append, addresses_append,
        addresses_strip hx (by omega), addresses_strip hx (by omega)]
      simp only [List.length_map, List.length_range]
      rfl

/-- **Where `OLED_Print` puts a text.** -/
theorem cells_printTraffic {fonts : Fonts} {text : List MixedChar}
    (valid : ∀ g ∈ text, g.Valid fonts) {x y : ℕ} (fits : FitsPanel x y text) (o : Oled)
    (rest : List (List Bus)) :
    ∃ o', cells o (printTraffic fonts x y text ++ rest) =
      List.zipWith charCell text (printStarts x y text) ++ cells o' rest := by
  induction text generalizing x o with
  | nil => exact ⟨o, rfl⟩
  | cons g text ih =>
      obtain ⟨here, others⟩ := List.forall_mem_cons.mp valid
      rw [FitsPanel, printStarts, List.forall_mem_cons] at fits
      have column_ := g.start_le x y
      obtain ⟨o', tail⟩ := ih others fits.2
        (run Oled.receive o (g.traffic fonts (g.start x y)))
      refine ⟨o', ?_⟩
      rw [printTraffic, List.cons_append, cells, tail,
        addresses_traffic here (by omega) fits.1, printStarts, List.zipWith_cons_cons,
        List.cons_append]

end CannonCar
