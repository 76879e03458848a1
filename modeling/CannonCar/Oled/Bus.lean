import CannonCar.Foundation.Trajectory
import CannonCar.Oled

/-!
# The traffic to the panel

The text functions of `OLED.c` reach the panel through `OLED_WrCmd` and `OLED_WrDat` only.
Here a function is the list of the bytes it sends, and the panel a system that takes them in
(`Oled.receive`).  Each data byte lands at the address the controller has at that moment:
`addresses` lists these, and `cells` lists them for one character after the other.

## What is load-bearing

The panel's state after a list of bytes is that of the functions of `Oled` (`run_setPosBus`,
`run_dataBus`), so that a statement about addresses is one about what these functions do.
`cells` is split at the characters because a character that breaks over the edge of a page
puts some of its bytes elsewhere, and which ones is what the modules on text ask.
-/

namespace CannonCar

open Trajectory

/-- One byte sent. -/
inductive Bus
  /-- `OLED_WrCmd`. -/
  | cmd (cmd : ℕ)
  /-- `OLED_WrDat`. -/
  | dat (data : BitVec 8)

/-- The panel takes in a byte. -/
def Oled.receive (o : Oled) : Bus → Oled
  | .cmd cmd => oledWrCmd cmd o
  | .dat data => oledWrDat data o

/-- The page and column of every data byte. -/
def addresses : Oled → List Bus → List (ℕ × ℕ)
  | _, [] => []
  | o, .cmd cmd :: rest => addresses (oledWrCmd cmd o) rest
  | o, .dat data :: rest => (o.page, o.col) :: addresses (oledWrDat data o) rest

/-- The addresses written for each character of a text, given the traffic of each. -/
def cells : Oled → List (List Bus) → List (List (ℕ × ℕ))
  | _, [] => []
  | o, traffic :: rest => addresses o traffic :: cells (run Oled.receive o traffic) rest

/-- `OLED_Set_Pos`, as sent. -/
def setPosBus (x y : ℕ) : List Bus :=
  [.cmd ((0xb0 + y) % 256), .cmd (((x &&& 0xf0) >>> 4) ||| 0x10), .cmd ((x &&& 0x0f) ||| 0x01)]

/-- A run of `OLED_WrDat`, as sent. -/
def dataBus (bytes : List (BitVec 8)) : List Bus := bytes.map .dat

theorem run_setPosBus (x y : ℕ) (o : Oled) :
    run Oled.receive o (setPosBus x y) = oledSetPos x y o := rfl

theorem run_dataBus (bytes : List (BitVec 8)) (o : Oled) :
    run Oled.receive o (dataBus bytes) = oledWrDats bytes o := by
  rw [run, dataBus, List.foldl_map]
  rfl

theorem addresses_append (o : Oled) (traffic rest : List Bus) :
    addresses o (traffic ++ rest) =
      addresses o traffic ++ addresses (run Oled.receive o traffic) rest := by
  induction traffic generalizing o with
  | nil => rfl
  | cons byte traffic ih =>
      cases byte with
      | cmd cmd => exact ih (oledWrCmd cmd o)
      | dat data => exact congrArg ((o.page, o.col) :: ·) (ih (oledWrDat data o))

/-! ## Strips -/

/-- The `n` addresses that follow a position, with the controller's wrap at the right edge. -/
def strip (x y n : ℕ) : List (ℕ × ℕ) := (List.range n).map fun i => (y, (column x + i) % 128)

theorem mem_strip {x y n p q : ℕ} :
    (p, q) ∈ strip x y n ↔ p = y ∧ ∃ i < n, q = (column x + i) % 128 := by
  simp only [strip, List.mem_map, List.mem_range, Prod.mk.injEq]
  constructor
  · rintro ⟨i, hi, rfl, rfl⟩
    exact ⟨rfl, i, hi, rfl⟩
  · rintro ⟨rfl, i, hi, rfl⟩
    exact ⟨i, hi, rfl, rfl⟩

theorem addresses_dataBus (bytes : List (BitVec 8)) {o : Oled} (hcol : o.col < 128) :
    addresses o (dataBus bytes) =
      (List.range bytes.length).map fun i => (o.page, (o.col + i) % 128) := by
  induction bytes generalizing o with
  | nil => rfl
  | cons data bytes ih =>
      have next : (oledWrDat data o).col = (o.col + 1) % 128 := rfl
      have page : (oledWrDat data o).page = o.page := rfl
      have here : (o.col + 0) % 128 = o.col := Nat.mod_eq_of_lt hcol
      show (o.page, o.col) :: addresses (oledWrDat data o) (dataBus bytes) = _
      rw [ih (by rw [next]; omega), next, page, List.length_cons, List.range_succ_eq_map,
        List.map_cons, List.map_map, here]
      congr 1
      apply List.map_congr_left
      intro i _
      show (o.page, ((o.col + 1) % 128 + i) % 128) = (o.page, (o.col + (i + 1)) % 128)
      rw [Nat.mod_add_mod, Nat.add_assoc, Nat.add_comm 1 i]

/-- **Where data goes after `OLED_Set_Pos`**, wherever the panel stood before. -/
theorem addresses_strip {x y : ℕ} (hx : x < 128) (hy : y < 8) (bytes : List (BitVec 8))
    (o : Oled) : addresses o (setPosBus x y ++ dataBus bytes) = strip x y bytes.length := by
  have none_ : addresses o (setPosBus x y) = [] := rfl
  have inside : column x < 128 := by
    unfold column
    omega
  rw [addresses_append, none_, List.nil_append, run_setPosBus, oledSetPos_eq hx hy,
    addresses_dataBus bytes inside]
  rfl

end CannonCar
