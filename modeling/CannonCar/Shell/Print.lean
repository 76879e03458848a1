import CannonCar.Shell.Cread

/-!
# What `shell_printf` sends

A text shorter than the print buffer is sent as it is.  Of a longer one the buffer keeps
what leaves room for the terminator, which is sent in place of the next byte, and behind
it goes what lies behind the buffer.

## What is load-bearing

`vsnprintf` stores at most the size of its buffer less one, and returns the length the whole text
would have had; `shell_printf` sends as many bytes as that.  So a text that is too long is not
cut but followed by the terminator and by what lies behind the buffer (`ShellEnv.stack`).  The
results here separate the two cases by the length of the text alone.
-/

namespace CannonCar.Shell

open MachineInt

variable (env : ShellEnv) {text : List (BitVec 8)}

/-- The part of the text that is in the buffer. -/
theorem map_buffer_eq_take {n : ℕ} (n_lt : n < cbSize) (n_le : n ≤ text.length) :
    ((List.range n).map fun i =>
      if i < cbSize - 1 then text.getD i 0 else if i = cbSize - 1 then 0 else env.stack i) =
    text.take n := by
  have length : (text.take n).length = n := List.length_take_of_le n_le
  apply map_range_eq length
  intro i h
  rw [length] at h
  have inside : i < cbSize - 1 := by omega
  rw [if_pos inside, List.getElem_take, List.getD_eq_getElem]

theorem shellPrintf_short (short : text.length < cbSize) : shellPrintf env text = text := by
  have length : toUnsigned 8 text.length = text.length :=
    toUnsigned_natCast (short.trans (by decide))
  rw [shellPrintf, length, map_buffer_eq_take env short le_rfl, List.take_length]

theorem shellPrintf_long (long : cbSize ≤ text.length) (byte : text.length < 2 ^ 8) :
    shellPrintf env text =
      text.take (cbSize - 1) ++
        0 :: (List.range (text.length - cbSize)).map fun i => env.stack (cbSize + i) := by
  obtain ⟨n, length⟩ := Nat.exists_eq_add_of_le long
  have split : List.range (cbSize + n) =
      List.range (cbSize - 1) ++ (cbSize - 1) :: (List.range n).map (cbSize + ·) := by
    have last : List.range cbSize = List.range (cbSize - 1) ++ [cbSize - 1] := List.range_succ
    rw [List.range_add, last, List.append_assoc, List.singleton_append]
  have behind : ((List.range n).map (cbSize + ·)).map (fun i =>
      if i < cbSize - 1 then text.getD i 0 else if i = cbSize - 1 then 0 else env.stack i) =
      (List.range n).map fun i => env.stack (cbSize + i) := by
    rw [List.map_map]
    apply List.map_congr_left
    intro i _
    have notBuffer : ¬ cbSize + i < cbSize - 1 := by omega
    have notLast : ¬ cbSize + i = cbSize - 1 := by
      unfold cbSize
      omega
    exact (if_neg notBuffer).trans (if_neg notLast)
  rw [shellPrintf, toUnsigned_natCast byte, length, split, List.map_append, List.map_cons, behind,
    map_buffer_eq_take env (by decide) (by omega), if_neg (lt_irrefl _), if_pos rfl,
    Nat.add_sub_cancel_left]

end CannonCar.Shell
