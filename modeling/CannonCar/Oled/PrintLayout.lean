import CannonCar.Oled.Print

/-!
# Where mixed text overlaps

The cells `OLED_Print` draws, as sets of addresses.  Up to the first break the cells of a
text abut.  The character that breaks the line is put in column 0 one page down, where its
upper half is on the page of the lower halves above it; the caller's column is past the
limit from there on, so every further character breaks the line again and is put in the
very same place.  At the right edge the callees' limits let a cell run over column 127, and
it goes on in column 0.

A text is laid out apart, then, only if at most its last character breaks the line, and
neither this one nor the one at the edge reaches back to the first (`ClearLine`).

## What is load-bearing

Whether glyphs overlap is a matter of where they start and how wide they are, so the layout is
decided on the list of starts (`printStarts`) and not on the panel.  The equivalence is in the
text and the start column; a text that does not return is on the failing side.
-/

namespace CannonCar

/-- The first address of `b` follows that of `a` in reading order. -/
def Follows (a b : List (ℕ × ℕ)) : Prop :=
  ∀ p ∈ a.head?, ∀ q ∈ b.head?, p.1 < q.1 ∨ p.1 = q.1 ∧ p.2 < q.2

/-- The cells are pairwise disjoint and in reading order. -/
def LaidOut (cs : List (List (ℕ × ℕ))) : Prop :=
  cs.Pairwise fun a b => a.Disjoint b ∧ Follows a b

/-- The call returns, with its cells laid out apart, wherever the panel stands. -/
def PrintsApart (fonts : Fonts) (stack ch : ℕ → BitVec 8) (x y : ℕ) : Prop :=
  ∃ fuel out, oledPrint fonts stack ch fuel 0 x y = some out ∧ ∀ o, LaidOut (cells o out)

/-- The condition, on the widths of the characters and the first column. -/
def ClearLine (x : ℕ) (text : List MixedChar) : Prop :=
  text.length ≤ 1 ∨ ∃ (before : List MixedChar) (last : MixedChar), text = before ++ [last] ∧
    -- All in one line, the last not coming round to the first.
    ((x + lineWidth before ≤ last.limit ∧
        column (x + lineWidth before) + last.width ≤ 128 + column x) ∨
      -- The last in a line of its own, in front of the others.
      (last.limit < x + lineWidth before ∧ last.width < column x ∧
        ∃ (others : List MixedChar) (prev : MixedChar), before = others ++ [prev] ∧
          x + lineWidth others ≤ prev.limit ∧
          column (x + lineWidth others) + prev.width ≤ 129))

/-! ## One line -/

theorem MixedChar.width_even (g : MixedChar) : g.width % 2 = 0 := by
  cases g with
  | single ch => exact show 8 % 2 = 0 from rfl
  | double pair => exact show 14 % 2 = 0 from rfl

theorem lineWidth_even (text : List MixedChar) : lineWidth text % 2 = 0 := by
  induction text with
  | nil => rfl
  | cons g text ih =>
      have even := g.width_even
      rw [lineWidth_cons]
      omega

theorem column_add {w : ℕ} (even : w % 2 = 0) (x : ℕ) : column (x + w) = column x + w := by
  unfold column
  omega

theorem column_add_lineWidth (x : ℕ) (text : List MixedChar) :
    column (x + lineWidth text) = column x + lineWidth text :=
  column_add (lineWidth_even text) x

/-- Every character of the text starts before its limit. -/
def InLine : ℕ → List MixedChar → Prop
  | _, [] => True
  | x, g :: text => x ≤ g.limit ∧ InLine (x + g.width) text

theorem MixedChar.bounds (g : MixedChar) :
    8 ≤ g.width ∧ g.limit + g.width ≤ 132 ∧ 118 ≤ g.limit ∧ g.limit ≤ 120 := by
  cases g with
  | single ch => exact show 8 ≤ 8 ∧ 120 + 8 ≤ 132 ∧ 118 ≤ 120 ∧ 120 ≤ 120 by decide
  | double pair => exact show 8 ≤ 14 ∧ 118 + 14 ≤ 132 ∧ 118 ≤ 118 ∧ 118 ≤ 120 by decide

theorem inLine_append {x : ℕ} {text rest : List MixedChar} :
    InLine x (text ++ rest) ↔ InLine x text ∧ InLine (x + lineWidth text) rest := by
  induction text generalizing x with
  | nil => simp [InLine]
  | cons g text ih =>
      rw [List.cons_append, InLine, InLine, ih, lineWidth_cons, and_assoc, Nat.add_assoc]

/-- A line ends in column 132 at the latest. -/
theorem InLine.end_le {x : ℕ} {text : List MixedChar} (h : InLine x text) (hx : x ≤ 132) :
    x + lineWidth text ≤ 132 := by
  induction text generalizing x with
  | nil => exact hx
  | cons g text ih =>
      have bounds := g.bounds
      rw [lineWidth_cons, ← Nat.add_assoc]
      exact ih h.2 (by have := h.1; omega)

/-- A text is one line, or it has a first character that breaks it. -/
theorem inLine_or (x : ℕ) (text : List MixedChar) :
    InLine x text ∨ ∃ before g rest, text = before ++ g :: rest ∧ InLine x before ∧
      g.limit < x + lineWidth before := by
  induction text generalizing x with
  | nil => exact Or.inl trivial
  | cons g text ih =>
      rcases lt_or_ge g.limit x with breaks | before
      · exact Or.inr ⟨[], g, text, rfl, trivial, breaks⟩
      · rcases ih (x + g.width) with line | ⟨front, g', rest, rfl, line, breaks⟩
        · exact Or.inl ⟨before, line⟩
        · refine Or.inr ⟨g :: front, g', rest, rfl, ⟨before, line⟩, ?_⟩
          rwa [lineWidth_cons, ← Nat.add_assoc]

/-- The cells of a line. -/
def lineCells : ℕ → ℕ → List MixedChar → List (List (ℕ × ℕ))
  | _, _, [] => []
  | x, y, g :: text => charCell g (x, y) :: lineCells (x + g.width) y text

/-- The cells of a text. -/
def printCells (x y : ℕ) (text : List MixedChar) : List (List (ℕ × ℕ)) :=
  List.zipWith charCell text (printStarts x y text)

/-- Up to the first break the cells are those of one line. -/
theorem printCells_append {x : ℕ} (hx : x ≤ 132) (y : ℕ) {text : List MixedChar}
    (line : InLine x text) (rest : List MixedChar) :
    printCells x y (text ++ rest) =
      lineCells x y text ++ printCells (x + lineWidth text) y rest := by
  induction text generalizing x with
  | nil => rfl
  | cons g text ih =>
      obtain ⟨before, later⟩ := line
      have bounds := g.bounds
      have here : g.start x y = (x, y) := if_neg (by omega)
      have tail := ih (x := x + g.width) (by omega) later
      rw [lineWidth_cons, ← Nat.add_assoc, lineCells, List.cons_append, List.cons_append, ← tail,
        printCells, printCells, printStarts, List.zipWith_cons_cons, here,
        Nat.mod_eq_of_lt (show x + g.width < 256 by omega)]

theorem lineCells_append (x y : ℕ) (text rest : List MixedChar) :
    lineCells x y (text ++ rest) =
      lineCells x y text ++ lineCells (x + lineWidth text) y rest := by
  induction text generalizing x with
  | nil => rfl
  | cons g text ih =>
      rw [List.cons_append, lineCells, lineCells, ih, lineWidth_cons, Nat.add_assoc,
        List.cons_append]

theorem mem_charCell {g : MixedChar} {start : ℕ × ℕ} {p q : ℕ} :
    (p, q) ∈ charCell g start ↔
      (p = start.2 ∨ p = start.2 + 1) ∧ ∃ i < g.width, q = (column start.1 + i) % 128 := by
  rw [charCell, List.mem_append, mem_strip, mem_strip, or_and_right]

theorem head?_charCell (g : MixedChar) (start : ℕ × ℕ) :
    (charCell g start).head? = some (start.2, column start.1 % 128) := by
  cases g <;> rfl

/-! ## Cells apart -/

/-- Within the panel, a line's cells are between its first and its last column. -/
theorem mem_lineCells {x y : ℕ} {text : List MixedChar} (inside : column x + lineWidth text ≤ 128)
    {cell : List (ℕ × ℕ)} (mem : cell ∈ lineCells x y text) :
    (∃ q, cell.head? = some (y, q) ∧ column x ≤ q ∧ q < column x + lineWidth text) ∧
      ∀ p q, (p, q) ∈ cell →
        (p = y ∨ p = y + 1) ∧ column x ≤ q ∧ q < column x + lineWidth text := by
  induction text generalizing x with
  | nil => cases mem
  | cons g text ih =>
      have bounds := g.bounds
      have next := column_add g.width_even x
      rw [lineWidth_cons] at inside ⊢
      rcases List.mem_cons.mp mem with rfl | later
      · refine ⟨⟨_, head?_charCell g (x, y), ?_, ?_⟩, fun p q address => ?_⟩
        · dsimp only
          omega
        · dsimp only
          omega
        · obtain ⟨page, i, hi, rfl⟩ := mem_charCell.mp address
          refine ⟨page, ?_, ?_⟩
          · dsimp only
            omega
          · dsimp only
            omega
      · obtain ⟨⟨q, head, low, high⟩, addresses⟩ := ih (by omega) later
        refine ⟨⟨q, head, by omega, by omega⟩, fun p q address => ?_⟩
        obtain ⟨page, low, high⟩ := addresses p q address
        exact ⟨page, by omega, by omega⟩

/-- **A line within the panel is laid out apart.** -/
theorem laidOut_lineCells {x y : ℕ} {text : List MixedChar}
    (inside : column x + lineWidth text ≤ 128) : LaidOut (lineCells x y text) := by
  induction text generalizing x with
  | nil => exact List.Pairwise.nil
  | cons g text ih =>
      have bounds := g.bounds
      have next := column_add g.width_even x
      rw [lineWidth_cons] at inside
      refine List.Pairwise.cons (fun cell mem => ?_) (ih (by omega))
      obtain ⟨⟨q, head, low, -⟩, addresses⟩ := mem_lineCells (by omega) mem
      constructor
      · rintro ⟨p, q⟩ first second
        obtain ⟨-, i, hi, column_⟩ := mem_charCell.mp first
        obtain ⟨-, low, -⟩ := addresses p q second
        dsimp only at column_
        omega
      · rw [Follows, head?_charCell, head]
        rintro _ ⟨⟩ _ ⟨⟩
        refine Or.inr ⟨rfl, ?_⟩
        dsimp only
        omega

/-- A last cell keeps a layout if it is apart from every cell before. -/
theorem laidOut_concat_iff {cs : List (List (ℕ × ℕ))} {last : List (ℕ × ℕ)} :
    LaidOut (cs ++ [last]) ↔ LaidOut cs ∧ ∀ cell ∈ cs, cell.Disjoint last ∧ Follows cell last := by
  simp only [LaidOut, List.pairwise_append, List.pairwise_singleton, List.mem_singleton,
    forall_eq, true_and]

/-- The cell of a line's last character, which may come round the right edge. -/
theorem lineCells_concat (x y : ℕ) (before : List MixedChar) (last : MixedChar) :
    lineCells x y (before ++ [last]) =
      lineCells x y before ++ [charCell last (x + lineWidth before, y)] :=
  lineCells_append x y before [last]

theorem head?_lineCells {x y : ℕ} {text : List MixedChar} {cell : List (ℕ × ℕ)}
    (mem : cell ∈ lineCells x y text) : ∃ q, cell.head? = some (y, q) := by
  induction text generalizing x with
  | nil => cases mem
  | cons g text ih =>
      rcases List.mem_cons.mp mem with rfl | later
      · exact ⟨_, head?_charCell g (x, y)⟩
      · exact ih later

/-- The first cell of a line covers the first column of both its pages. -/
theorem exists_first_lineCells {x y : ℕ} (hx : x ≤ 120) {text : List MixedChar} (ne : text ≠ []) :
    ∃ cell ∈ lineCells x y text, (y, column x) ∈ cell ∧ (y + 1, column x) ∈ cell := by
  obtain ⟨g, rest, rfl⟩ := List.exists_cons_of_ne_nil ne
  have bounds := g.bounds
  have inside : column x = (column (x, y).1 + 0) % 128 := by
    dsimp only
    unfold column
    omega
  exact ⟨_, List.mem_cons_self, mem_charCell.mpr ⟨Or.inl rfl, 0, by omega, inside⟩,
    mem_charCell.mpr ⟨Or.inr rfl, 0, by omega, inside⟩⟩

/-- **A line up to the edge** is laid out apart as long as its last cell does not come round
to its first. -/
theorem laidOut_edge_iff {x y : ℕ} (hx : x ≤ 120) {before : List MixedChar} {last : MixedChar}
    (line : x + lineWidth before ≤ last.limit) (ne : before ≠ []) :
    LaidOut (lineCells x y (before ++ [last])) ↔
      column (x + lineWidth before) + last.width ≤ 128 + column x := by
  have bounds := last.bounds
  have edge := column_add_lineWidth x before
  have low : column (x + lineWidth before) ≤ 121 := by
    unfold column
    omega
  rw [lineCells_concat, laidOut_concat_iff]
  constructor
  · rintro ⟨-, apart⟩
    by_contra round
    obtain ⟨cell, mem, first, -⟩ := exists_first_lineCells hx (y := y) ne
    refine (apart cell mem).1 first (mem_charCell.mpr ⟨Or.inl rfl,
      128 + column x - column (x + lineWidth before), by omega, ?_⟩)
    dsimp only
    omega
  · intro room
    refine ⟨laidOut_lineCells (by omega), fun cell mem => ?_⟩
    obtain ⟨⟨q, head, -, high⟩, addresses⟩ := mem_lineCells (by omega) mem
    constructor
    · rintro ⟨p, q⟩ inLine_ inLast
      obtain ⟨-, low, high⟩ := addresses p q inLine_
      obtain ⟨-, i, hi, column_⟩ := mem_charCell.mp inLast
      dsimp only at column_
      omega
    · rw [Follows, head, head?_charCell]
      rintro _ ⟨⟩ _ ⟨⟩
      refine Or.inr ⟨rfl, ?_⟩
      dsimp only
      omega

/-- A line whose last cell comes round to column 0 at most is in column 0 or at its first
column and beyond. -/
theorem front_lineCells {x y : ℕ} {others : List MixedChar} {prev : MixedChar}
    (low : column (x + lineWidth others) ≤ 121)
    (room : column (x + lineWidth others) + prev.width ≤ 129) {cell : List (ℕ × ℕ)}
    (mem : cell ∈ lineCells x y (others ++ [prev])) {p q : ℕ} (address : (p, q) ∈ cell) :
    q = 0 ∨ column x ≤ q := by
  have edge := column_add_lineWidth x others
  rw [lineCells_concat, List.mem_append, List.mem_singleton] at mem
  rcases mem with earlier | rfl
  · obtain ⟨-, addresses⟩ := mem_lineCells (by omega) earlier
    exact Or.inr (addresses p q address).2.1
  · obtain ⟨-, i, hi, column_⟩ := mem_charCell.mp address
    dsimp only at column_
    omega

/-- **The character that breaks the line** is apart from the line as long as it ends in
front of it, and the line's last cell does not come round to column 1. -/
theorem laidOut_break_iff {x y : ℕ} (hx : x ≤ 120) {others : List MixedChar}
    {prev last : MixedChar} (line : x + lineWidth others ≤ prev.limit) :
    LaidOut (lineCells x y (others ++ [prev]) ++ [charCell last (0, y + 1)]) ↔
      last.width < column x ∧ column (x + lineWidth others) + prev.width ≤ 129 := by
  have bounds := prev.bounds
  have bounds' := last.bounds
  have low : column (x + lineWidth others) ≤ 121 := by
    unfold column
    omega
  have origin : column 0 = 1 := rfl
  have cell_prev : charCell prev (x + lineWidth others, y) ∈ lineCells x y (others ++ [prev]) := by
    rw [lineCells_concat]
    exact List.mem_append_right _ (List.mem_singleton_self _)
  rw [laidOut_concat_iff]
  constructor
  · rintro ⟨-, apart⟩
    constructor
    · by_contra wide
      obtain ⟨cell, mem, -, second⟩ := exists_first_lineCells hx (y := y)
        (List.append_ne_nil_of_right_ne_nil others (List.cons_ne_nil prev []))
      refine (apart cell mem).1 second (mem_charCell.mpr ⟨Or.inl rfl, column x - 1, ?_, ?_⟩)
      · unfold column at wide ⊢
        omega
      · dsimp only
        unfold column
        omega
    · by_contra round
      refine (apart _ cell_prev).1 (mem_charCell.mpr ⟨Or.inr rfl,
        129 - column (x + lineWidth others), by omega, rfl⟩)
        (mem_charCell.mpr ⟨Or.inl rfl, 0, by omega, ?_⟩)
      dsimp only
      omega
  · rintro ⟨narrow, room⟩
    constructor
    · cases others with
      | nil => exact List.pairwise_singleton _ _
      | cons g others => exact (laidOut_edge_iff hx line (List.cons_ne_nil g others)).mpr (by omega)
    · intro cell mem
      constructor
      · rintro ⟨p, q⟩ inLine_ inLast
        obtain ⟨-, i, hi, column_⟩ := mem_charCell.mp inLast
        have front := front_lineCells low room mem inLine_
        dsimp only at column_
        omega
      · obtain ⟨q, head⟩ := head?_lineCells mem
        rw [Follows, head, head?_charCell]
        rintro _ ⟨⟩ _ ⟨⟩
        exact Or.inl (Nat.lt_succ_self y)

/-! ## Whole texts -/

/-- Once the line is broken, every character is put in column 0 one page down. -/
theorem printCells_break {x y : ℕ} (hx : x ≤ 132) (small : y + 1 < 256) {before : List MixedChar}
    (line : InLine x before) {g : MixedChar} (breaks : g.limit < x + lineWidth before) :
    printCells x y (before ++ [g]) = lineCells x y before ++ [charCell g (0, y + 1)] ∧
      ∀ h, printCells x y (before ++ [g, h]) =
        lineCells x y before ++ [charCell g (0, y + 1), charCell h (0, y + 1)] := by
  have bounds := g.bounds
  have end_ := line.end_le hx
  have down : ∀ (g : MixedChar) (x : ℕ), g.limit < x → g.start x y = (0, y + 1) := by
    intro g x breaks
    rw [MixedChar.start, if_pos breaks, Nat.mod_eq_of_lt small]
  constructor
  · rw [printCells_append hx y line]
    show _ ++ [charCell g (g.start (x + lineWidth before) y)] = _
    rw [down g _ breaks]
  · intro h
    have bounds' := h.bounds
    have width : g.width ≤ 14 := by cases g <;> simp [MixedChar.width]
    rw [printCells_append hx y line]
    show _ ++ [charCell g (g.start (x + lineWidth before) y),
      charCell h (h.start ((x + lineWidth before + g.width) % 256) y)] = _
    rw [down g _ breaks, down h _ (by omega)]

theorem printCells_line {x : ℕ} (hx : x ≤ 132) (y : ℕ) {text : List MixedChar}
    (line : InLine x text) : printCells x y text = lineCells x y text := by
  have whole := printCells_append hx y line []
  have rest : printCells (x + lineWidth text) y [] = [] := rfl
  rwa [rest, List.append_nil, List.append_nil] at whole

theorem length_mixedBytes_le (text : List MixedChar) :
    (mixedBytes text).length ≤ lineWidth text := by
  induction text with
  | nil => exact le_rfl
  | cons g text ih =>
      have bytes := g.length_bytes
      have bounds := g.bounds
      rw [mixedBytes_cons, List.length_append, lineWidth_cons]
      omega

/-- A text that ends before column 126 is one line. -/
theorem inLine_of_end {x : ℕ} {text : List MixedChar} (end_ : x + lineWidth text ≤ 126) :
    InLine x text := by
  induction text generalizing x with
  | nil => trivial
  | cons g text ih =>
      have bounds := g.bounds
      rw [lineWidth_cons] at end_
      exact ⟨by omega, ih (by omega)⟩

theorem FitsPanel.of_append {x y : ℕ} {text rest : List MixedChar}
    (h : FitsPanel x y (text ++ rest)) : FitsPanel x y text := by
  induction text generalizing x with
  | nil => exact List.forall_mem_nil _
  | cons g text ih =>
      rw [FitsPanel, List.cons_append, printStarts, List.forall_mem_cons] at h
      exact List.forall_mem_cons.mpr ⟨h.1, ih h.2⟩

/-- What has been printed apart has every part of it, from the start, apart. -/
theorem PrintsApart.laidOut {fonts : Fonts} {stack ch : ℕ → BitVec 8} {x y : ℕ}
    (h : PrintsApart fonts stack ch x y) {whole text rest : List MixedChar}
    (valid : ∀ g ∈ whole, g.Valid fonts) (holds : HoldsAt ch 0 (mixedBytes whole))
    (fits : FitsPanel x y whole) (split : whole = text ++ rest) (short : lineWidth text ≤ 255) :
    LaidOut (printCells x y text) := by
  subst split
  obtain ⟨fuel, out, ends, apart⟩ := h
  have bytes := length_mixedBytes_le text
  have valid' : ∀ g ∈ text, g.Valid fonts := fun g mem => valid g (List.mem_append_left _ mem)
  rw [mixedBytes, List.flatMap_append] at holds
  obtain ⟨later, rfl⟩ := oledPrint_prefix valid' holds (by omega) ends
  obtain ⟨o', cells_⟩ := cells_printTraffic valid' fits.of_append Oled.blank later
  have all := apart Oled.blank
  rw [cells_] at all
  exact (List.pairwise_append.mp all).1

/-- A short text with its cells apart is printed apart. -/
theorem printsApart_of_laidOut {fonts : Fonts} {stack ch : ℕ → BitVec 8} {x y : ℕ}
    {text : List MixedChar} (valid : ∀ g ∈ text, g.Valid fonts)
    (holds : HoldsAt ch 0 (mixedBytes text)) (fits : FitsPanel x y text)
    (short : lineWidth text ≤ 255) (apart : LaidOut (printCells x y text)) :
    PrintsApart fonts stack ch x y := by
  have bytes := length_mixedBytes_le text
  refine ⟨_, _, oledPrint_whole valid x y holds (by omega), fun o => ?_⟩
  obtain ⟨o', cells_⟩ := cells_printTraffic valid fits o []
  rw [List.append_nil, cells, List.append_nil] at cells_
  rwa [cells_]

/-- Two cells put in one place are not apart. -/
theorem not_laidOut_twice {cs : List (List (ℕ × ℕ))} {g h : MixedChar} {y : ℕ} :
    ¬ LaidOut (cs ++ [charCell g (0, y), charCell h (0, y)]) := by
  intro apart
  have pair := (List.pairwise_append.mp apart).2.1
  have bounds := g.bounds
  have bounds' := h.bounds
  refine ((List.pairwise_cons.mp pair).1 _ (List.mem_singleton_self _)).1
    (mem_charCell.mpr ⟨Or.inl rfl, 0, by omega, rfl⟩)
    (mem_charCell.mpr ⟨Or.inl rfl, 0, by omega, rfl⟩)

/-- The first character does not break the line. -/
theorem FitsPanel.small {x y : ℕ} (hx : x ≤ 112) {text : List MixedChar} (ne : text ≠ [])
    (h : FitsPanel x y text) : y ≤ 6 := by
  obtain ⟨g, rest, rfl⟩ := List.exists_cons_of_ne_nil ne
  have bounds := g.bounds
  have first := (List.forall_mem_cons.mp h).1
  rwa [MixedChar.start, if_neg (by omega)] at first

/-! ## Two characters or more -/

section Two

variable {fonts : Fonts} {stack ch : ℕ → BitVec 8} {x y : ℕ} (hx : x ≤ 112)
  {others : List MixedChar} {prev last : MixedChar}
  (valid : ∀ g ∈ others ++ [prev] ++ [last], g.Valid fonts)
  (holds : HoldsAt ch 0 (mixedBytes (others ++ [prev] ++ [last])))
  (fits : FitsPanel x y (others ++ [prev] ++ [last]))
include hx valid holds fits

/-- A text printed apart is in one line, or its last character alone breaks the line. -/
theorem PrintsApart.clearLine (h : PrintsApart fonts stack ch x y) :
    ClearLine x (others ++ [prev] ++ [last]) := by
  have ne : others ++ [prev] ≠ [] := List.append_ne_nil_of_right_ne_nil _ (List.cons_ne_nil _ _)
  have small : y ≤ 6 := fits.small hx (List.append_ne_nil_of_right_ne_nil _ (List.cons_ne_nil _ _))
  rcases inLine_or x (others ++ [prev] ++ [last]) with
    line | ⟨front, g, rest, split, line, breaks⟩
  · have end_ := line.end_le (by omega)
    have apart := h.laidOut valid holds fits (List.append_nil _).symm (by omega)
    obtain ⟨-, limit, -⟩ := inLine_append.mp line
    rw [printCells_line (by omega) y line, laidOut_edge_iff (by omega) limit ne] at apart
    exact Or.inr ⟨_, _, rfl, Or.inl ⟨limit, apart⟩⟩
  · have end_ := line.end_le (by omega)
    have bounds := g.bounds
    obtain ⟨alone, twice⟩ := printCells_break (by omega) (show y + 1 < 256 by omega) line breaks
    cases rest with
    | nil =>
        obtain ⟨rfl, same⟩ := List.append_inj' split rfl
        cases same
        obtain ⟨-, limit, -⟩ := inLine_append.mp line
        have apart := h.laidOut valid holds fits (List.append_nil _).symm
          (by rw [lineWidth_append, lineWidth_cons, lineWidth_nil]; omega)
        rw [alone, laidOut_break_iff (by omega) limit] at apart
        exact Or.inr ⟨_, _, rfl, Or.inr ⟨breaks, apart.1, others, prev, rfl, limit, apart.2⟩⟩
    | cons g' rest =>
        have bounds' := g'.bounds
        have split' := split.trans (List.append_assoc front [g, g'] rest).symm
        have apart := h.laidOut valid holds fits split'
          (by rw [lineWidth_append, lineWidth_cons, lineWidth_cons, lineWidth_nil]; omega)
        rw [twice] at apart
        exact absurd apart not_laidOut_twice

/-- And such a text is printed apart. -/
theorem ClearLine.printsApart (h : ClearLine x (others ++ [prev] ++ [last])) :
    PrintsApart fonts stack ch x y := by
  have ne : others ++ [prev] ≠ [] := List.append_ne_nil_of_right_ne_nil _ (List.cons_ne_nil _ _)
  have small : y ≤ 6 := fits.small hx (List.append_ne_nil_of_right_ne_nil _ (List.cons_ne_nil _ _))
  have bounds := last.bounds
  rcases h with short | ⟨before, g, split, layout⟩
  · simp at short
  obtain ⟨rfl, same⟩ := List.append_inj' split rfl
  cases same
  rcases layout with ⟨limit, room⟩ | ⟨breaks, narrow, others', prev', split', limit, room⟩
  · have line : InLine x (others ++ [prev] ++ [last]) :=
      inLine_append.mpr ⟨inLine_of_end (by omega), limit, trivial⟩
    have end_ := line.end_le (by omega)
    refine printsApart_of_laidOut valid holds fits (by omega) ?_
    rw [printCells_line (by omega) y line]
    exact (laidOut_edge_iff (by omega) limit ne).mpr room
  · obtain ⟨rfl, same⟩ := List.append_inj' split' rfl
    cases same
    have bounds' := prev.bounds
    have line : InLine x (others ++ [prev]) :=
      inLine_append.mpr ⟨inLine_of_end (by omega), limit, trivial⟩
    have end_ := line.end_le (by omega)
    refine printsApart_of_laidOut valid holds fits
      (by rw [lineWidth_append, lineWidth_cons, lineWidth_nil]; omega) ?_
    rw [(printCells_break (by omega) (by omega) line breaks).1]
    exact (laidOut_break_iff (by omega) limit).mpr ⟨narrow, room⟩

end Two

/-- **When `OLED_Print` lays its characters out without overlap.**  For every font and every
text of ASCII characters and characters the font knows, from every column up to 112, whose
characters all fit the panel: the call returns with pairwise disjoint cells in reading order
exactly if the text is a single character or less, if it stays in its line and its last cell
does not come round the right edge into the first, or if its last character alone breaks
the line, ends in front of the first column, and the one before it comes round to column 0
at most. -/
theorem oledPrint_apart_iff (fonts : Fonts) (stack : ℕ → BitVec 8) {text : List MixedChar}
    (valid : ∀ g ∈ text, g.Valid fonts) {ch : ℕ → BitVec 8} (holds : HoldsAt ch 0 (mixedBytes text))
    {x y : ℕ} (hx : x ≤ 112) (fits : FitsPanel x y text) :
    PrintsApart fonts stack ch x y ↔ ClearLine x text := by
  rcases List.eq_nil_or_concat' text with rfl | ⟨before, last, rfl⟩
  · exact iff_of_true (printsApart_of_laidOut valid holds fits (Nat.zero_le _) List.Pairwise.nil)
      (Or.inl (Nat.zero_le 1))
  have bounds := last.bounds
  rcases List.eq_nil_or_concat' before with rfl | ⟨others, prev, rfl⟩
  · refine iff_of_true (printsApart_of_laidOut valid holds fits ?_ ?_) (Or.inl le_rfl)
    · rw [List.nil_append, lineWidth_cons, lineWidth_nil]
      omega
    · exact List.pairwise_singleton _ _
  exact ⟨fun apart => apart.clearLine hx valid holds fits,
    fun clear => clear.printsApart hx valid holds fits⟩

/-- A letter, the first character of the font and a letter, from the left edge. -/
theorem oledPrint_apart_mixed :
    PrintsApart panelFonts (fun _ => 0xff) (fun i => [0x41, 0xb4, 0xf3, 0x62].getD i 0) 0 0 := by
  have first : panelFonts.Knows (0xb4, 0xf3) := List.mem_cons_self
  have valid : ∀ g ∈ [.single 0x41, .double (0xb4, 0xf3), .single 0x62],
      MixedChar.Valid panelFonts g := by
    simp only [List.forall_mem_cons, MixedChar.Valid, first, true_and]
    exact ⟨by decide, by decide, List.forall_mem_nil _⟩
  have buffer : HoldsAt (fun i => [0x41, 0xb4, 0xf3, 0x62].getD i 0) 0
      (mixedBytes [.single 0x41, .double (0xb4, 0xf3), .single 0x62]) :=
    ⟨by decide, rfl, by decide, rfl, by decide, rfl, by decide, rfl, rfl⟩
  have fits : FitsPanel 0 0 [.single 0x41, .double (0xb4, 0xf3), .single 0x62] :=
    show ∀ start ∈ [(0, 0), (8, 0), (22, 0)], start.2 ≤ 6 by decide
  have clear : ClearLine 0 [.single 0x41, .double (0xb4, 0xf3), .single 0x62] :=
    Or.inr ⟨[.single 0x41, .double (0xb4, 0xf3)], .single 0x62, rfl,
      Or.inl ⟨by decide, by decide⟩⟩
  exact (oledPrint_apart_iff panelFonts _ valid buffer (by decide) fits).mpr clear

/-- The letter `A`. -/
def letterA : MixedChar := .single 0x41

/-- Four letters from column 112: the third and the fourth are put in one place. -/
theorem not_oledPrint_apart : ¬ ∀ (text : List MixedChar) (ch : ℕ → BitVec 8) (x y : ℕ),
    (∀ g ∈ text, g.Valid panelFonts) → HoldsAt ch 0 (mixedBytes text) → x ≤ 112 → y % 2 = 0 →
      FitsPanel x y text → PrintsApart panelFonts (fun _ => 0xff) ch x y := by
  intro always
  have valid : ∀ g ∈ [letterA, letterA] ++ [letterA] ++ [letterA], g.Valid panelFonts := by
    simp [letterA, MixedChar.Valid]
  have buffer : HoldsAt (fun i => [0x41, 0x41, 0x41, 0x41].getD i 0) 0
      (mixedBytes ([letterA, letterA] ++ [letterA] ++ [letterA])) :=
    ⟨by decide, rfl, by decide, rfl, by decide, rfl, by decide, rfl, rfl⟩
  have fits : FitsPanel 112 0 ([letterA, letterA] ++ [letterA] ++ [letterA]) :=
    show ∀ start ∈ [(112, 0), (120, 0), (0, 1), (0, 1)], start.2 ≤ 6 by decide
  have clear := (always _ _ 112 0 valid buffer (by decide) rfl fits).clearLine (by decide) valid
    buffer fits
  rcases clear with short | ⟨before, last, split, layout⟩
  · exact absurd short (by decide)
  · obtain ⟨rfl, same⟩ := List.append_inj' split rfl
    cases same
    rcases layout with ⟨limit, -⟩ | ⟨-, -, others, prev, split', limit, -⟩
    · exact absurd limit (by decide)
    · obtain ⟨rfl, same⟩ := List.append_inj' split' rfl
      cases same
      exact absurd limit (by decide)

end CannonCar
