import CannonCar.Foundation.Printf
import CannonCar.Shell.Dispatch

/-!
# What `shell_printf` reads

`vsnprintf` returns the length of the whole text, and `shell_printf` sends that many bytes
of its buffer, in eight bits.  The buffer holds all of the text only if that is shorter;
`stored_iff` says for which lengths just the stored part is sent.

Two texts depend on what the user enters: the one about an unknown command
(`unknown_stored_iff`) and the listing of the history (`doHist_stored_iff`).

## What is load-bearing

The length that comes back is that of the whole text, cut to eight bits.  From 256 on it can be
small again, so that a text of 383 characters is sent as its first 127 and nothing is read that
has not been stored; `stored_iff` is exact about these lengths as well.

The listing of the history goes through `%d` and `%s` with the separators of the source, so the
text of an entry is six characters longer than its line (`historyEntry`).
-/

namespace CannonCar.Shell

open MachineInt

variable (env : ShellEnv)

/-- The indices of the print buffer that `putnstr` reads. -/
def printfReads (text : List (BitVec 8)) : List ℕ := List.range (toUnsigned 8 text.length)

/-- What it finds there: the part of the text `vsnprintf` has stored, the terminator, and
what lies behind the buffer. -/
def printMemory (text : List (BitVec 8)) (i : ℕ) : BitVec 8 :=
  if i < cbSize - 1 then text.getD i 0 else if i = cbSize - 1 then 0 else env.stack i

theorem shellPrintf_eq_map (text : List (BitVec 8)) :
    shellPrintf env text = (printfReads text).map (printMemory env text) := rfl

/-- The characters stored are sent, and the buffer is not left. -/
def Stored (text : List (BitVec 8)) : Prop :=
  shellPrintf env text = text.take (cbSize - 1) ∧ ∀ i ∈ printfReads text, i < cbSize

variable {env} {text : List (BitVec 8)}

/-- **What has been stored is sent** if the text has been stored as a whole, or if the length
the eight bits make of its own is that of the part that has. -/
theorem stored_iff (env : ShellEnv) (text : List (BitVec 8)) :
    Stored env text ↔ text.length < cbSize ∨ text.length % 256 = cbSize - 1 := by
  have bits : toUnsigned 8 text.length = text.length % 256 := by
    rw [toUnsigned]
    omega
  constructor
  · rintro ⟨sent, -⟩
    have length := congrArg List.length sent
    rw [shellPrintf_eq_map, List.length_map, printfReads, List.length_range, bits,
      List.length_take] at length
    unfold cbSize at length ⊢
    omega
  · intro fits
    have short : text.length % 256 ≤ cbSize - 1 ∧
        text.take (text.length % 256) = text.take (cbSize - 1) := by
      rcases fits with whole | part
      · have small : text.length % 256 = text.length :=
          Nat.mod_eq_of_lt (by unfold cbSize at whole; omega)
        rw [small, List.take_length, List.take_of_length_le (Nat.le_sub_one_of_lt whole)]
        exact ⟨Nat.le_sub_one_of_lt whole, rfl⟩
      · rw [part]
        exact ⟨le_rfl, rfl⟩
    have inside : text.length % 256 < cbSize := lt_of_le_of_lt short.1 (by decide)
    refine ⟨?_, fun i mem => ?_⟩
    · rw [shellPrintf, bits, map_buffer_eq_take env inside (Nat.mod_le _ _), short.2]
    · rw [printfReads, bits, List.mem_range] at mem
      exact mem.trans inside

/-- A text of 128 characters, the last of which is not stored. -/
theorem not_stored : ¬ ∀ (env : ShellEnv) (text : List (BitVec 8)), Stored env text := by
  intro all
  obtain ⟨sent, -⟩ := all ShellEnv.plain (List.replicate 128 0x61)
  exact absurd (congrArg List.length sent) (by decide +kernel)

/-! ## Texts the user makes long -/

/-- Words of more than 94 characters are too long to be called unknown. -/
theorem unknown_stored_iff {word : List (BitVec 8)} (isString : IsString word) :
    Stored env (unknownText word) ↔ word.length ≤ 94 := by
  have fits := isString.length_le
  have length : (unknownText word).length = 33 + word.length := by
    have front : (ascii "Unknown command '").length = 17 := by decide
    have back : (ascii "' - try 'help'\r\n").length = 16 := by decide
    rw [unknownText, List.length_append, List.length_append, front, back]
    omega
  rw [stored_iff, length]
  unfold cbSize at fits ⊢
  omega

/-- An entry of the listing. -/
def historyText (k : ℤ) (line : List (BitVec 8)) : List (BitVec 8) :=
  ascii "(" ++ (Printf.decimal k).map (fun c => BitVec.ofNat 8 c.toNat) ++ ascii ") " ++ line ++
    ascii "\r\n"

/-- What `DoHist` prints for the line `i`, with the number `k`: lines there are none of yet
are empty. -/
def historyEntry (h : Hist) (i k : ℕ) : List (List (BitVec 8)) :=
  if h.histList i ≠ [] then [historyText k (h.histList i)] else []

/-- `DoHist`: the texts it prints. -/
def doHist (h : Hist) : List (List (BitVec 8)) :=
  -- `shell_get_hist_data_list`
  let num := toUnsigned 8 (h.histMax + 1)
  let curIndex := toUnsigned 8 h.histCur
  ascii "history:\r\n" ::
    if curIndex ≥ num then []
    else
      (List.range' curIndex (num - curIndex)).flatMap (fun i => historyEntry h i (i - curIndex)) ++
        (List.range curIndex).flatMap fun i => historyEntry h i (num - curIndex + i)

/-- A number of one digit. -/
theorem length_historyText {k : ℕ} (digit : k < 10) (line : List (BitVec 8)) :
    (historyText k line).length = 6 + line.length := by
  have number : (Printf.decimal k).length = 1 := by interval_cases k <;> rfl
  have blank : (ascii ") ").length = 2 := by decide
  have bracket : (ascii "(").length = 1 := by decide
  have newline : (ascii "\r\n").length = 2 := by decide
  simp only [historyText, List.length_append, List.length_map, number, blank, bracket, newline]
  omega

theorem historyText_stored_iff {k : ℕ} (digit : k < 10) {line : List (BitVec 8)}
    (fits : line.length ≤ cbSize) : Stored env (historyText k line) ↔ line.length ≤ 121 := by
  rw [stored_iff, length_historyText digit]
  unfold cbSize at fits ⊢
  omega

/-- What a range of entries of the listing needs. -/
theorem entries_stored_iff {h : Hist} (fits : ∀ i, (h.histList i).length ≤ cbSize) {is : List ℕ}
    {place : ℕ → ℕ} (digit : ∀ i ∈ is, place i < 10) :
    (∀ text ∈ is.flatMap fun i => historyEntry h i (place i), Stored env text) ↔
      ∀ i ∈ is, (h.histList i).length ≤ 121 := by
  have entry : ∀ i ∈ is, (∀ text ∈ historyEntry h i (place i), Stored env text) ↔
      (h.histList i).length ≤ 121 := by
    intro i mem
    unfold historyEntry
    split_ifs with some_
    · rw [List.forall_mem_singleton]
      exact historyText_stored_iff (digit i mem) (fits i)
    · rw [not_not.mp some_]
      exact iff_of_true (fun _ mem => absurd mem List.not_mem_nil) (Nat.zero_le _)
  constructor
  · intro all i mem
    exact (entry i mem).mp fun text inEntry => all text (List.mem_flatMap.mpr ⟨i, mem, inEntry⟩)
  · intro short text inListing
    obtain ⟨i, mem, inEntry⟩ := List.mem_flatMap.mp inListing
    exact (entry i mem).mpr (short i mem) text inEntry

/-- **Lines of more than 121 characters are too long to be listed.** -/
theorem doHist_stored_iff {h : Hist} (cur : 0 ≤ h.histCur) (cur_le : h.histCur ≤ h.histMax)
    (max_lt : h.histMax < histCapacity) (fits : ∀ i, (h.histList i).length ≤ cbSize) :
    (∀ text ∈ doHist h, Stored env text) ↔
      ∀ i : ℕ, (i : ℤ) ≤ h.histMax → (h.histList i).length ≤ 121 := by
  obtain ⟨c, isCur⟩ := Int.eq_ofNat_of_zero_le cur
  obtain ⟨m, isMax⟩ := Int.eq_ofNat_of_zero_le (cur.trans cur_le)
  have small : m < 10 := by
    unfold histCapacity at max_lt
    omega
  have le : c ≤ m := by omega
  have num : toUnsigned 8 (h.histMax + 1) = m + 1 := by
    rw [isMax]
    exact toUnsigned_natCast (by omega : m + 1 < 2 ^ 8)
  have curIndex : toUnsigned 8 h.histCur = c := by
    rw [isCur]
    exact toUnsigned_natCast (by omega)
  have header : Stored env (ascii "history:\r\n") := (stored_iff env _).mpr (by decide)
  have older : (∀ text ∈ (List.range' c (m + 1 - c)).flatMap fun i => historyEntry h i (i - c),
      Stored env text) ↔ ∀ i ∈ List.range' c (m + 1 - c), (h.histList i).length ≤ 121 := by
    apply entries_stored_iff fits
    intro i mem
    rw [List.mem_range'_1] at mem
    omega
  have newer : (∀ text ∈ (List.range c).flatMap fun i => historyEntry h i (m + 1 - c + i),
      Stored env text) ↔ ∀ i ∈ List.range c, (h.histList i).length ≤ 121 := by
    apply entries_stored_iff fits
    intro i mem
    rw [List.mem_range] at mem
    omega
  simp only [doHist, num, curIndex]
  rw [if_neg (by omega : ¬ c ≥ m + 1), List.forall_mem_cons, List.forall_mem_append, older, newer,
    and_iff_right header]
  constructor
  · rintro ⟨inOlder, inNewer⟩ i inside
    rcases Nat.lt_or_ge i c with before | after
    · exact inNewer i (List.mem_range.mpr before)
    · exact inOlder i (List.mem_range'_1.mpr ⟨after, by omega⟩)
  · intro short
    refine ⟨fun i mem => short i ?_, fun i mem => short i ?_⟩
    · rw [List.mem_range'_1] at mem
      omega
    · rw [List.mem_range] at mem
      omega

end CannonCar.Shell
