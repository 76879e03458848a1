import CannonCar.Oled.Bus
import CannonCar.Oled.Fonts

/-!
# Reading double-byte text

`OLED_P14x16Str` takes two bytes of its argument for a character it finds in its font.  For
one it does not find it draws a blank and takes three: the branch of the blank adds 1 to the
index and the end of the loop 2 to both.  Behind an unknown character at the end of the text
the scan is past the terminator, and behind any other one it is out of step.

The scan reads the bytes in blocks of two and three, then; `InBlocks` says that the text is
a sequence of such blocks, and `scansWithin_textBytes_iff` that the scan keeps to the text
exactly then.  Should it step to index 256 it starts over at 0, and does so for ever.

## What is load-bearing

**The index has eight bits.**  It wraps from 255 to 0, and a scan that gets there goes round
for ever; `ScansWithin` takes that in, as it asks for an end.

**Fuel is the argument for an end, not an assumption.**  The scan is a function of fuel, and a claim
that it ends is one that some fuel is enough (`EndsAt`).

**Memory behind the text is arbitrary.**  What the scan finds there is not known, so "keeps to its
argument" is asked for every continuation of the text.
-/

namespace CannonCar

variable (fonts : Fonts)

/-! ## `OLED_P14x16Str` -/

/-- What a call leaves on record. -/
structure Scan where
  /-- The index `ii` at each test of the loop condition; the pair of a character is read at
  the same index. -/
  heads : List ℕ
  /-- What is sent for each character. -/
  traffic : List (List Bus)

/-- What is sent for one character. -/
def p14x16Char (x y adder : ℕ) : List Bus :=
  setPosBus x y ++
    if adder ≠ 1 then
      (setPosBus x y ++ dataBus ((List.range 14).map fun wm => fonts.f14x16 (adder + wm))) ++
        (setPosBus x (y + 1) ++
          dataBus ((List.range 14).map fun wm => fonts.f14x16 (adder + 14 + wm)))
    else
      (setPosBus x y ++ dataBus (List.replicate 16 0)) ++
        (setPosBus x (y + 1) ++ dataBus (List.replicate 16 0))

/-- The loop of `OLED_P14x16Str` over the memory at `ch`, for `fuel` tests of its condition. -/
def p14x16Scan (ch : ℕ → BitVec 8) : ℕ → ℕ → ℕ → ℕ → Option Scan
  | 0, _, _, _ => none
  | fuel + 1, ii, x, y =>
      if ch ii = 0 then some ⟨[ii], []⟩
      else
        let adder := fonts.adder (ch ii) (ch (ii + 1))
        let x' := if x > 118 then 0 else x
        let y' := if x > 118 then (y + 1) % 256 else y
        let ii' := if adder ≠ 1 then ii else (ii + 1) % 256
        (p14x16Scan ch fuel ((ii' + 2) % 256) ((x' + 14) % 256) y').map fun rest =>
          ⟨ii :: rest.heads, p14x16Char fonts x' y' adder :: rest.traffic⟩

/-- From `ii` on, the loop ends with `ii` at `len`, and no test or read is at an index
behind that. -/
def EndsAt (ch : ℕ → BitVec 8) (len fuel ii x y : ℕ) : Prop :=
  ∃ scan, p14x16Scan fonts ch fuel ii x y = some scan ∧
    (∀ head ∈ scan.heads, head ≤ len) ∧ scan.heads.getLast? = some len

/-- `OLED_P14x16Str` on a text of `len` bytes reads no further than the terminator. -/
def ScansWithin (ch : ℕ → BitVec 8) (len x y : ℕ) : Prop :=
  ∃ fuel, EndsAt fonts ch len fuel 0 x y

/-- Memory holds a terminated string at `ii`. -/
def HoldsAt (ch : ℕ → BitVec 8) : ℕ → List (BitVec 8) → Prop
  | ii, [] => ch ii = 0
  | ii, c :: rest => c ≠ 0 ∧ ch ii = c ∧ HoldsAt ch (ii + 1) rest

/-- The bytes of a text of double-byte characters. -/
def textBytes (text : List (BitVec 8 × BitVec 8)) : List (BitVec 8) :=
  text.flatMap fun pair => [pair.1, pair.2]

/-- The bytes are blocks, of two that the font knows and of three the first two of which it
does not. -/
inductive InBlocks : List (BitVec 8) → Prop
  | nil : InBlocks []
  | known {c1 c2 : BitVec 8} {rest : List (BitVec 8)} :
      fonts.Knows (c1, c2) → InBlocks rest → InBlocks (c1 :: c2 :: rest)
  | unknown {c1 c2 c3 : BitVec 8} {rest : List (BitVec 8)} :
      ¬ fonts.Knows (c1, c2) → InBlocks rest → InBlocks (c1 :: c2 :: c3 :: rest)

variable {fonts}

/-! ## One turn of the loop -/

theorem p14x16Scan_stop {ch : ℕ → BitVec 8} {ii : ℕ} (stop : ch ii = 0) (fuel x y : ℕ) :
    p14x16Scan fonts ch (fuel + 1) ii x y = some ⟨[ii], []⟩ := by
  rw [p14x16Scan, if_pos stop]

/-- A turn that goes on, and where it goes on. -/
theorem p14x16Scan_step (fonts : Fonts) {ch : ℕ → BitVec 8} {ii : ℕ} (more : ch ii ≠ 0) (x y : ℕ) :
    ∃ x' y' traffic, ∀ fuel, p14x16Scan fonts ch (fuel + 1) ii x y =
      (p14x16Scan fonts ch fuel
        ((if fonts.Knows (ch ii, ch (ii + 1)) then ii + 2 else ii + 3) % 256) x' y').map
          fun rest => ⟨ii :: rest.heads, traffic :: rest.traffic⟩ := by
  have step : ((if fonts.adder (ch ii) (ch (ii + 1)) ≠ 1 then ii else (ii + 1) % 256) + 2) % 256 =
      (if fonts.Knows (ch ii, ch (ii + 1)) then ii + 2 else ii + 3) % 256 := by
    simp only [fonts.adder_ne_one_iff]
    split_ifs
    · rfl
    · omega
  refine ⟨((if x > 118 then 0 else x) + 14) % 256, if x > 118 then (y + 1) % 256 else y,
    p14x16Char fonts (if x > 118 then 0 else x) (if x > 118 then (y + 1) % 256 else y)
      (fonts.adder (ch ii) (ch (ii + 1))), fun fuel => ?_⟩
  rw [p14x16Scan, if_neg more]
  dsimp only
  rw [step]

/-- Every record starts at the index the scan starts at. -/
theorem head_p14x16Scan {ch : ℕ → BitVec 8} {fuel ii x y : ℕ} {scan : Scan}
    (ends : p14x16Scan fonts ch fuel ii x y = some scan) : ∃ later, scan.heads = ii :: later := by
  cases fuel with
  | zero => cases ends
  | succ fuel =>
      by_cases stop : ch ii = 0
      · rw [p14x16Scan_stop stop] at ends
        cases ends
        exact ⟨[], rfl⟩
      · obtain ⟨x', y', traffic, step⟩ := p14x16Scan_step fonts stop x y
        rw [step] at ends
        obtain ⟨rest, -, rfl⟩ := Option.map_eq_some_iff.mp ends
        exact ⟨rest.heads, rfl⟩

/-- The scan never starts behind its end. -/
theorem EndsAt.le {ch : ℕ → BitVec 8} {len fuel ii x y : ℕ}
    (h : EndsAt fonts ch len fuel ii x y) : ii ≤ len := by
  obtain ⟨scan, ends, within, -⟩ := h
  obtain ⟨later, heads⟩ := head_p14x16Scan ends
  exact within ii (by rw [heads]; exact List.mem_cons_self)

/-- A turn that goes on ends where the rest of the scan does. -/
theorem endsAt_succ_iff (fonts : Fonts) {ch : ℕ → BitVec 8} {ii : ℕ} (more : ch ii ≠ 0) (x y : ℕ) :
    ∃ x' y', ∀ len fuel, EndsAt fonts ch len (fuel + 1) ii x y ↔
      ii ≤ len ∧ EndsAt fonts ch len fuel
        ((if fonts.Knows (ch ii, ch (ii + 1)) then ii + 2 else ii + 3) % 256) x' y' := by
  obtain ⟨x', y', traffic, step⟩ := p14x16Scan_step fonts more x y
  refine ⟨x', y', fun len fuel => ?_⟩
  constructor
  · intro h
    refine ⟨h.le, ?_⟩
    obtain ⟨scan, ends, within, last⟩ := h
    rw [step] at ends
    obtain ⟨rest, ends', rfl⟩ := Option.map_eq_some_iff.mp ends
    obtain ⟨later, heads⟩ := head_p14x16Scan ends'
    refine ⟨rest, ends', fun head mem => within head (List.mem_cons_of_mem _ mem), ?_⟩
    rw [heads] at last ⊢
    rwa [List.getLast?_cons_cons] at last
  · rintro ⟨le, rest, ends', within, last⟩
    obtain ⟨later, heads⟩ := head_p14x16Scan ends'
    refine ⟨⟨ii :: rest.heads, traffic :: rest.traffic⟩, by rw [step, ends', Option.map_some],
      fun head mem => ?_, ?_⟩
    · rcases List.mem_cons.mp mem with rfl | mem'
      · exact le
      · exact within head mem'
    · rw [heads] at last
      rwa [heads, List.getLast?_cons_cons]

/-- The index is a `u8`, and so is the end. -/
theorem EndsAt.lt {ch : ℕ → BitVec 8} {len fuel ii x y : ℕ} (h : EndsAt fonts ch len fuel ii x y)
    (small : ii < 256) : len < 256 := by
  induction fuel generalizing ii x y with
  | zero =>
      obtain ⟨scan, ends, -⟩ := h
      cases ends
  | succ fuel ih =>
      by_cases stop : ch ii = 0
      · obtain ⟨scan, ends, -, last⟩ := h
        rw [p14x16Scan_stop stop] at ends
        cases ends
        cases last
        exact small
      · obtain ⟨x', y', turn⟩ := endsAt_succ_iff fonts stop x y
        exact ih ((turn len fuel).mp h).2 (Nat.mod_lt _ (by decide))

/-! ## From blocks to the scan -/

/-- A scan over blocks ends at the terminator. -/
theorem InBlocks.endsAt {ch : ℕ → BitVec 8} {l : List (BitVec 8)} (blocks : InBlocks fonts l)
    {ii len : ℕ} (holds : HoldsAt ch ii l) (ends : ii + l.length = len) (short : len ≤ 255)
    (x y : ℕ) : ∃ fuel, EndsAt fonts ch len fuel ii x y := by
  induction blocks generalizing ii x y with
  | nil =>
      obtain rfl : ii = len := ends
      exact ⟨1, _, p14x16Scan_stop holds 0 x y, by simp, rfl⟩
  | @known c1 c2 rest knows _ ih =>
      obtain ⟨more, rfl, -, rfl, later⟩ := holds
      rw [List.length_cons, List.length_cons] at ends
      obtain ⟨x', y', turn⟩ := endsAt_succ_iff fonts more x y
      rw [if_pos knows, Nat.mod_eq_of_lt (by omega)] at turn
      obtain ⟨fuel, rest_ends⟩ := ih later (by omega) x' y'
      exact ⟨fuel + 1, (turn len fuel).mpr ⟨by omega, rest_ends⟩⟩
  | @unknown c1 c2 c3 rest unknown_ _ ih =>
      obtain ⟨more, rfl, -, rfl, -, -, later⟩ := holds
      rw [List.length_cons, List.length_cons, List.length_cons] at ends
      obtain ⟨x', y', turn⟩ := endsAt_succ_iff fonts more x y
      rw [if_neg unknown_, Nat.mod_eq_of_lt (by omega)] at turn
      obtain ⟨fuel, rest_ends⟩ := ih later (by omega) x' y'
      exact ⟨fuel + 1, (turn len fuel).mpr ⟨by omega, rest_ends⟩⟩

/-! ## From the scan to blocks -/

/-- A scan that ends at the terminator has read blocks, unless it has stepped to index 256
on the way and started over. -/
theorem EndsAt.inBlocks_or {ch : ℕ → BitVec 8} {l : List (BitVec 8)} {len fuel ii x y : ℕ}
    (h : EndsAt fonts ch len fuel ii x y) (holds : HoldsAt ch ii l) (ends : ii + l.length = len)
    (short : len ≤ 254) :
    InBlocks fonts l ∨ ∃ fuel' < fuel, ∃ x' y', EndsAt fonts ch len fuel' 0 x' y' := by
  induction fuel generalizing l ii x y with
  | zero =>
      obtain ⟨scan, none_, -⟩ := h
      cases none_
  | succ fuel ih =>
      -- What is left to do after the turn, whichever block it has read.
      have restarts : (∃ fuel' < fuel, ∃ x' y', EndsAt fonts ch len fuel' 0 x' y') →
          ∃ fuel' < fuel + 1, ∃ x' y', EndsAt fonts ch len fuel' 0 x' y' :=
        fun ⟨fuel', lt, again⟩ => ⟨fuel', lt.trans (Nat.lt_succ_self fuel), again⟩
      match l, holds with
      | [], _ => exact Or.inl .nil
      | [c], holds =>
          obtain ⟨more, rfl, stop⟩ := holds
          have unknown_ : ¬ fonts.Knows (ch ii, ch (ii + 1)) :=
            fun knows => (fonts.double _ knows).2 stop
          obtain ⟨x', y', turn⟩ := endsAt_succ_iff fonts more x y
          rw [if_neg unknown_] at turn
          have later := ((turn len fuel).mp h).2
          have behind := later.le
          rw [List.length_singleton] at ends
          obtain rfl : ii = 253 := by omega
          exact Or.inr ⟨fuel, Nat.lt_succ_self fuel, x', y', later⟩
      | [c1, c2], holds =>
          obtain ⟨more, rfl, -, rfl, stop⟩ := holds
          obtain ⟨x', y', turn⟩ := endsAt_succ_iff fonts more x y
          have behind := ((turn len fuel).mp h).2.le
          rw [List.length_cons, List.length_singleton] at ends
          by_cases knows : fonts.Knows (ch ii, ch (ii + 1))
          · exact Or.inl (.known knows .nil)
          · rw [if_neg knows] at behind
            omega
      | c1 :: c2 :: c3 :: rest, holds =>
          obtain ⟨more, rfl, -, rfl, third⟩ := holds
          rw [List.length_cons, List.length_cons, List.length_cons] at ends
          obtain ⟨x', y', turn⟩ := endsAt_succ_iff fonts more x y
          have later := ((turn len fuel).mp h).2
          by_cases knows : fonts.Knows (ch ii, ch (ii + 1))
          · rw [if_pos knows, Nat.mod_eq_of_lt (by omega)] at later
            exact (ih later third (by rw [List.length_cons]; omega)).imp (.known knows) restarts
          · rw [if_neg knows, Nat.mod_eq_of_lt (by omega)] at later
            exact (ih later third.2.2 (by omega)).imp (.unknown knows) restarts

/-- A scan from the start that ends at the terminator has read blocks: starting over cannot
go on for ever. -/
theorem EndsAt.inBlocks {ch : ℕ → BitVec 8} {l : List (BitVec 8)} {len fuel x y : ℕ}
    (h : EndsAt fonts ch len fuel 0 x y) (holds : HoldsAt ch 0 l) (ends : l.length = len)
    (short : len ≤ 254) : InBlocks fonts l := by
  induction fuel using Nat.strong_induction_on generalizing x y with
  | h fuel ih =>
      rcases h.inBlocks_or holds ((Nat.zero_add _).trans ends) short with blocks | again
      · exact blocks
      · obtain ⟨fuel', less, x', y', h'⟩ := again
        exact ih fuel' less h'

theorem length_textBytes (text : List (BitVec 8 × BitVec 8)) :
    (textBytes text).length = 2 * text.length := by
  induction text with
  | nil => rfl
  | cons pair text ih =>
      have one : textBytes (pair :: text) = pair.1 :: pair.2 :: textBytes text := rfl
      rw [one, List.length_cons, List.length_cons, ih, List.length_cons]
      ring

/-- The scan keeps to a text exactly if the text is blocks. -/
theorem scansWithin_textBytes_iff {text : List (BitVec 8 × BitVec 8)} {ch : ℕ → BitVec 8}
    (holds : HoldsAt ch 0 (textBytes text)) (x y : ℕ) :
    ScansWithin fonts ch (textBytes text).length x y ↔
      text.length ≤ 127 ∧ InBlocks fonts (textBytes text) := by
  have length := length_textBytes text
  constructor
  · rintro ⟨fuel, ends⟩
    have small := ends.lt (by decide)
    exact ⟨by omega, ends.inBlocks holds rfl (by omega)⟩
  · rintro ⟨short, blocks⟩
    exact blocks.endsAt holds (Nat.zero_add _) (by omega) x y

theorem inBlocks_pair_iff (pair : BitVec 8 × BitVec 8) :
    InBlocks fonts (textBytes [pair]) ↔ fonts.Knows pair := by
  constructor
  · intro blocks
    cases blocks with
    | known knows _ => exact knows
  · intro knows
    exact .known knows .nil

variable (fonts)

/-- **When `OLED_P14x16Str` keeps to its argument.**  For every font and every terminated
text of double-byte characters: exactly if the text has at most 127 of them and its bytes
are blocks of two that the font knows and blocks of three the first two of which it does
not.  For the one character that `OLED_Print` passes: exactly if the font knows it. -/
theorem p14x16_within_iff {text : List (BitVec 8 × BitVec 8)} {ch : ℕ → BitVec 8}
    (holds : HoldsAt ch 0 (textBytes text)) (x y : ℕ) :
    (ScansWithin fonts ch (textBytes text).length x y ↔
        text.length ≤ 127 ∧ InBlocks fonts (textBytes text)) ∧
      ∀ (pair : BitVec 8 × BitVec 8) (ch2 : ℕ → BitVec 8), HoldsAt ch2 0 (textBytes [pair]) →
        (ScansWithin fonts ch2 2 x y ↔ fonts.Knows pair) := by
  refine ⟨scansWithin_textBytes_iff holds x y, fun pair ch2 buffer => ?_⟩
  rw [← inBlocks_pair_iff]
  exact (scansWithin_textBytes_iff buffer x y).trans (and_iff_right (show 1 ≤ 127 by decide))

/-- The first character of the font, in a buffer with anything behind it. -/
theorem p14x16_within_known :
    ScansWithin panelFonts (fun i => [0xb4, 0xf3, 0x00].getD i 0xff) 2 0 0 := by
  have buffer : HoldsAt (fun i => [0xb4, 0xf3, 0x00].getD i 0xff) 0 (textBytes [(0xb4, 0xf3)]) :=
    ⟨by decide, rfl, by decide, rfl, rfl⟩
  have first : panelFonts.Knows (0xb4, 0xf3) := List.mem_cons_self
  exact (p14x16_within_iff panelFonts buffer 0 0).1.mpr ⟨by decide, .known first .nil⟩

/-- A character that is not in the font, in the buffer of `OLED_Print`. -/
theorem not_p14x16_within : ¬ ∀ (text : List (BitVec 8 × BitVec 8)) (ch : ℕ → BitVec 8),
    (∀ pair ∈ text, DoubleByte pair) → HoldsAt ch 0 (textBytes text) →
      ScansWithin panelFonts ch (textBytes text).length 0 0 := by
  intro always
  have buffer : HoldsAt (fun i => [0xd6, 0xd0].getD i 0) 0 (textBytes [(0xd6, 0xd0)]) :=
    ⟨by decide, rfl, by decide, rfl, rfl⟩
  have within := always [(0xd6, 0xd0)] _ (by simp [DoubleByte]) buffer
  have knows := (inBlocks_pair_iff _).mp ((scansWithin_textBytes_iff buffer 0 0).mp within).2
  exact absurd knows (by decide +kernel)

end CannonCar
