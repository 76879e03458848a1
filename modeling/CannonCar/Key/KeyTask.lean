import CannonCar.Foundation.Trajectory

/-!
# The key task

`KeyStartTask` of `app/app.c`: every 10 ms one debounced sample of the five keys, and
from the sequence of samples the posts to the mailbox `msg_key`.

A key is posted when it is let go, and while it is held it is posted again and again
after a first delay.  Two counters do the second part, `T` for the delay and `Ti` for
the repeats, each of which is set back to its threshold rather than counted on;
`held k h` is the state they are in after `h` iterations with the key held, and
`step_held` says that the loop body moves along this family.  Everything about a whole
run of samples is read off from that one lemma.

## What is load-bearing

**One sample for each iteration.**  The loop reads the pins at its head and then waits for the
next period; `keyScan` fixes the order among keys that are pressed together, and no key is
posted that was not pressed (`pressed_of_posts`).  A sample is whatever the scan gives: what
the contacts do between two samples is not looked at.

**The declared start.**  `T` and `Ti` have initial values and `keysave` has none, so runs start
from `init keysave` for an arbitrary `keysave`.  `repeat_law` is about the value 0, and
`noPhantom_iff` says which other values matter.

**Counters go back to their thresholds.**  The states are therefore not the numbers of
iterations since the key went down, and `held k h` is the family that an induction over a
held key needs.
-/

namespace CannonCar

open Trajectory

/-- `LongPressTime`. -/
def longPressTime : ℕ := 20

/-- `LongPressSpeed`. -/
def longPressSpeed : ℕ := 2

/-- The sample taken at the head of the loop, from what `key_check` answers for each
pin: the first pressed key in the order up, down, right, left, enter. -/
def keyScan (key_check : ℕ → Bool) : ℕ :=
  if key_check 13 then 1
  else if key_check 10 then 2
  else if key_check 11 then 4
  else if key_check 14 then 3
  else if key_check 12 then 5
  else 0

/-- The pins of the keys 1 to 5. -/
def keyPin : ℕ → ℕ
  | 1 => 13
  | 2 => 10
  | 3 => 14
  | 4 => 11
  | _ => 12

/-- A key that is reported is pressed. -/
theorem pressed_of_keyScan {key_check : ℕ → Bool} (isKey : 1 ≤ keyScan key_check) :
    key_check (keyPin (keyScan key_check)) = true := by
  unfold keyScan at isKey ⊢
  split_ifs at isKey ⊢ with up down right left enter
  · exact up
  · exact down
  · exact right
  · exact left
  · exact enter
  · exact absurd isKey (by decide)

/-- The variables of `KeyStartTask`. -/
structure KeyTask where
  keysave : ℕ
  T : ℕ
  Ti : ℕ
  deriving DecidableEq

namespace KeyTask

/-- The declared initial values around whatever `keysave` holds, for which the source
gives none. -/
def init (keysave : ℕ) : KeyTask := ⟨keysave, 0, 0⟩

/-- The five arms of `switch(keysave)`, which are one text: the new counters and the
value given to `OSMboxPost`, if any. -/
def arm (s : KeyTask) (key : ℕ) : KeyTask × Option ℕ :=
  if key ≠ s.keysave then ({ s with T := 0, Ti := 0 }, some s.keysave)
  else if s.T > longPressTime then
    if s.Ti > longPressSpeed then
      ({ s with T := (longPressTime + 1) % 65536, Ti := (0 + 1) % 65536 }, some s.keysave)
    else
      ({ s with T := (longPressTime + 1) % 65536, Ti := (s.Ti + 1) % 65536 }, none)
  else ({ s with T := (s.T + 1) % 65536 }, none)

/-- One pass through the loop body, with the value it posts. -/
def iterate (s : KeyTask) (key : ℕ) : KeyTask × Option ℕ :=
  let r := match s.keysave with
    | 1 | 2 | 3 | 4 | 5 => s.arm key
    | _ => (s, none)
  ({ r.1 with keysave := key }, r.2)

/-- The state the loop body leaves. -/
def step (s : KeyTask) (key : ℕ) : KeyTask := (s.iterate key).1

/-- The value the loop body posts. -/
def post (s : KeyTask) (key : ℕ) : Option ℕ := (s.iterate key).2

/-- What each iteration over a sequence of samples posts. -/
def posts (s : KeyTask) (samples : List ℕ) : List (Option ℕ) := outputs step post s samples

/-! ## The loop body -/

/-- `keysave` names a key. -/
def KeySaved (s : KeyTask) : Prop := 1 ≤ s.keysave ∧ s.keysave ≤ 5

instance (s : KeyTask) : Decidable s.KeySaved := inferInstanceAs (Decidable (_ ∧ _))

theorem iterate_of_keySaved {s : KeyTask} (saved : s.KeySaved) (key : ℕ) :
    s.iterate key = ({ (s.arm key).1 with keysave := key }, (s.arm key).2) := by
  obtain ⟨keysave, T, Ti⟩ := s
  obtain ⟨low, high⟩ := saved
  simp only at low high
  interval_cases keysave <;> rfl

theorem iterate_of_not_keySaved {s : KeyTask} (idle : ¬ s.KeySaved) (key : ℕ) :
    s.iterate key = ({ s with keysave := key }, none) := by
  unfold iterate
  split
  all_goals first
    | rfl
    | exact absurd ⟨by omega, by omega⟩ idle

theorem step_of_keySaved {s : KeyTask} (saved : s.KeySaved) (key : ℕ) :
    s.step key = { (s.arm key).1 with keysave := key } := by
  rw [step, iterate_of_keySaved saved]

theorem step_of_not_keySaved {s : KeyTask} (idle : ¬ s.KeySaved) (key : ℕ) :
    s.step key = { s with keysave := key } := by
  rw [step, iterate_of_not_keySaved idle]

/-- The loop body posts when the key held so far changes, or when both counters of a
held key have passed their thresholds. -/
def Fires (s : KeyTask) (key : ℕ) : Prop :=
  s.KeySaved ∧ (key ≠ s.keysave ∨ s.T > longPressTime ∧ s.Ti > longPressSpeed)

instance (s : KeyTask) (key : ℕ) : Decidable (s.Fires key) :=
  inferInstanceAs (Decidable (_ ∧ _))

/-- The only value the loop body can post is the previous sample. -/
theorem post_eq (s : KeyTask) (key : ℕ) :
    s.post key = if s.Fires key then some s.keysave else none := by
  unfold post
  by_cases saved : s.KeySaved
  · rw [iterate_of_keySaved saved]
    by_cases changed : key ≠ s.keysave
    · rw [if_pos ⟨saved, Or.inl changed⟩]
      simp [arm, changed]
    · by_cases repeats : s.T > longPressTime ∧ s.Ti > longPressSpeed
      · rw [if_pos ⟨saved, Or.inr repeats⟩]
        simp [arm, changed, repeats]
      · have quiet : ¬ s.Fires key := fun fires => fires.2.elim changed repeats
        rw [if_neg quiet, arm, if_neg changed]
        split_ifs with delay speed
        · exact absurd ⟨delay, speed⟩ repeats
        · rfl
        · rfl
  · rw [iterate_of_not_keySaved saved, if_neg fun fires => saved fires.1]

theorem post_eq_some_iff {s : KeyTask} {key v : ℕ} :
    s.post key = some v ↔ s.Fires key ∧ v = s.keysave := by
  rw [post_eq]
  split_ifs with fires <;> simp [fires, eq_comm]

@[simp] theorem step_keysave (s : KeyTask) (key : ℕ) : (s.step key).keysave = key := rfl

/-! ## Runs of the task -/

@[simp] theorem posts_nil (s : KeyTask) : s.posts [] = [] := rfl

@[simp] theorem posts_cons (s : KeyTask) (key : ℕ) (samples : List ℕ) :
    s.posts (key :: samples) = s.post key :: (s.step key).posts samples := rfl

@[simp] theorem length_posts (s : KeyTask) (samples : List ℕ) :
    (s.posts samples).length = samples.length := length_outputs _ _ _ _

theorem posts_append (s : KeyTask) (xs ys : List ℕ) :
    s.posts (xs ++ ys) = s.posts xs ++ (run step s xs).posts ys := outputs_append _ _ _ _ _

/-- After a non-empty run `keysave` is its last sample. -/
theorem keysave_run (s : KeyTask) (xs : List ℕ) :
    (run step s xs).keysave = xs.getLast?.getD s.keysave := by
  induction xs using List.reverseRecOn with
  | nil => rfl
  | append_singleton xs key _ => rw [run_concat, step_keysave, List.getLast?_concat]; rfl

/-- The value posted in iteration `i` is the sample of iteration `i - 1`, which is a
key. -/
theorem post_of_getElem? {s : KeyTask} {samples : List ℕ} {i v : ℕ}
    (posted : (s.posts samples)[i + 1]? = some (some v)) :
    samples[i]? = some v ∧ 1 ≤ v ∧ v ≤ 5 := by
  induction samples generalizing s i with
  | nil => simp at posted
  | cons key samples ih =>
      cases i with
      | zero =>
          cases samples with
          | nil => simp at posted
          | cons next samples =>
              have fires : (s.step key).post next = some v := by simpa using posted
              obtain ⟨⟨saved, -⟩, rfl⟩ := post_eq_some_iff.mp fires
              exact ⟨rfl, saved⟩
      | succ i => exact ih (by simpa using posted)

/-- **Every key that is posted was pressed one iteration before**, whatever the pins do. -/
theorem pressed_of_posts {s : KeyTask} {pins : List (ℕ → Bool)} {i v : ℕ}
    (posted : (s.posts (pins.map keyScan))[i + 1]? = some (some v)) :
    ∃ key_check, pins[i]? = some key_check ∧ key_check (keyPin v) = true := by
  obtain ⟨sampled, isKey, -⟩ := post_of_getElem? posted
  rw [List.getElem?_map, Option.map_eq_some_iff] at sampled
  obtain ⟨key_check, here, rfl⟩ := sampled
  exact ⟨key_check, here, pressed_of_keyScan isKey⟩

/-! ## Holding a key -/

/-- The state `h` iterations after the sample that first showed key `k`, the key being
held all the time: `T` stands still at its threshold, `Ti` then counts round. -/
def held (k h : ℕ) : KeyTask :=
  ⟨k, min h 21, if h ≤ 21 then 0 else (h - 22) % 3 + 1⟩

/-- The hold iterations that post: 25, 28, 31 and so on. -/
def Repeats (h : ℕ) : Prop := 25 ≤ h ∧ (h - 25) % 3 = 0

instance (h : ℕ) : Decidable (Repeats h) := inferInstanceAs (Decidable (_ ∧ _))

@[simp] theorem held_keysave (k h : ℕ) : (held k h).keysave = k := rfl

theorem held_delay (k : ℕ) {h : ℕ} (early : h ≤ 21) : held k h = ⟨k, h, 0⟩ := by
  rw [held, min_eq_left early, if_pos early]

theorem held_repeat (k : ℕ) {h : ℕ} (late : 22 ≤ h) : held k h = ⟨k, 21, (h - 22) % 3 + 1⟩ := by
  rw [held, min_eq_right (le_of_lt late), if_neg (not_le_of_gt late)]

theorem held_T_le (k h : ℕ) : (held k h).T ≤ 21 := min_le_right _ _

theorem held_Ti_le (k h : ℕ) : (held k h).Ti ≤ 3 := by
  rcases le_or_gt h 21 with early | late
  · rw [held_delay k early]
    exact Nat.zero_le 3
  · rw [held_repeat k late]
    exact Nat.succ_le_of_lt (Nat.mod_lt _ (by decide))

variable {k : ℕ}

theorem fires_held_iff (isKey : 1 ≤ k ∧ k ≤ 5) (h : ℕ) :
    (held k h).Fires k ↔ Repeats (h + 1) := by
  have saved : (held k h).KeySaved := isKey
  unfold Fires Repeats
  rw [and_iff_right saved, held_keysave, or_iff_right (not_not_intro rfl)]
  rcases le_or_gt h 21 with early | late
  · rw [held_delay k early]
    simp only [longPressTime, longPressSpeed]
    omega
  · rw [held_repeat k late]
    simp only [longPressTime, longPressSpeed]
    omega

theorem post_held (isKey : 1 ≤ k ∧ k ≤ 5) (h : ℕ) :
    (held k h).post k = if Repeats (h + 1) then some k else none := by
  rw [post_eq]
  exact if_congr (fires_held_iff isKey h) rfl rfl

/-- One more iteration with the key held. -/
theorem step_held (isKey : 1 ≤ k ∧ k ≤ 5) (h : ℕ) : (held k h).step k = held k (h + 1) := by
  have saved : (held k h).KeySaved := isKey
  rw [step_of_keySaved saved]
  rcases Nat.lt_trichotomy h 21 with early | rfl | late
  · rw [held_delay k (le_of_lt early), held_delay k early]
    have below : ¬ h > longPressTime := by
      unfold longPressTime
      omega
    simp only [arm, ne_eq, not_true_eq_false, if_false, if_neg below]
    congr 1
    omega
  · rw [held_delay k le_rfl, held_repeat k le_rfl]
    simp only [arm, ne_eq, not_true_eq_false, if_false]
    rfl
  · rw [held_repeat k late, held_repeat k (Nat.le_succ_of_le late)]
    have above : 21 > longPressTime := by decide
    simp only [arm, ne_eq, not_true_eq_false, if_false, if_pos above]
    -- `Ti` passes its threshold in every third iteration
    by_cases third : (h - 22) % 3 + 1 > longPressSpeed
    · rw [if_pos third]
      unfold longPressSpeed at third
      simp only [longPressTime]
      congr 1
      omega
    · rw [if_neg third]
      unfold longPressSpeed at third
      simp only [longPressTime]
      congr 1
      omega

/-- Letting go of a held key, or passing directly to another one, posts it. -/
theorem post_release (isKey : 1 ≤ k ∧ k ≤ 5) {next : ℕ} (other : next ≠ k) (h : ℕ) :
    (held k h).post next = some k := by
  rw [post_eq, if_pos]
  · rfl
  · exact ⟨isKey, Or.inl other⟩

theorem run_held (isKey : 1 ≤ k ∧ k ≤ 5) (h n : ℕ) :
    run step (held k h) (List.replicate n k) = held k (h + n) := by
  induction n generalizing h with
  | zero => rfl
  | succ n ih => rw [List.replicate_succ, run_cons, step_held isKey, ih, Nat.add_right_comm]; rfl

theorem posts_held (isKey : 1 ≤ k ∧ k ≤ 5) (h n : ℕ) :
    (held k h).posts (List.replicate n k) =
      (List.range n).map fun i => if Repeats (h + i + 1) then some k else none := by
  induction n with
  | zero => rfl
  | succ n ih =>
      rw [List.replicate_succ', posts_append, ih, run_held isKey, posts_cons, posts_nil,
        post_held isKey, List.range_succ, List.map_append, List.map_singleton]

/-! ## The reachable states -/

/-- The counters are those of some hold, and are at rest while no key is saved. -/
def Reached (s : KeyTask) : Prop :=
  ∃ h, s = held s.keysave h ∧ (¬ s.KeySaved → h = 0)

theorem Reached.T_le {s : KeyTask} (reached : s.Reached) : s.T ≤ 21 := by
  obtain ⟨h, eq, -⟩ := reached
  rw [eq]
  exact held_T_le _ h

theorem Reached.Ti_le {s : KeyTask} (reached : s.Reached) : s.Ti ≤ 3 := by
  obtain ⟨h, eq, -⟩ := reached
  rw [eq]
  exact held_Ti_le _ h

/-- A sample that differs from the one before it starts a new hold. -/
theorem Reached.step_other {s : KeyTask} (reached : s.Reached) {key : ℕ}
    (other : key ≠ s.keysave) : s.step key = held key 0 := by
  by_cases saved : s.KeySaved
  · rw [step_of_keySaved saved, arm, if_pos other]
    rfl
  · obtain ⟨h, eq, rest⟩ := reached
    rw [rest saved] at eq
    rw [step_of_not_keySaved saved, eq]
    rfl

theorem Reached.step {s : KeyTask} (reached : s.Reached) (key : ℕ) : (s.step key).Reached := by
  by_cases same : key = s.keysave
  · subst same
    by_cases saved : s.KeySaved
    · obtain ⟨h, eq, -⟩ := reached
      refine ⟨h + 1, ?_, fun idle => absurd saved idle⟩
      calc s.step s.keysave = (held s.keysave h).step s.keysave := by rw [← eq]
        _ = held s.keysave (h + 1) := step_held saved h
    · have still : s.step s.keysave = s := step_of_not_keySaved saved s.keysave
      rwa [still]
  · rw [reached.step_other same]
    exact ⟨0, rfl, fun _ => rfl⟩

theorem reached_run (keysave : ℕ) (samples : List ℕ) :
    (run KeyTask.step (init keysave) samples).Reached :=
  run_invariant (fun _ key reached => reached.step key) ⟨0, rfl, fun _ => rfl⟩ samples

/-! ## The repeat law -/

/-- What the iterations after the first sample of a run of `n` samples of key `k` post,
up to and including the one whose sample ends the run. -/
def runPosts (k n : ℕ) : List (Option ℕ) :=
  (List.range n).map fun i => if i + 1 = n ∨ Repeats (i + 1) then some k else none

theorem runPosts_succ (k n : ℕ) :
    runPosts k (n + 1) =
      ((List.range n).map fun i => if Repeats (i + 1) then some k else none) ++ [some k] := by
  rw [runPosts, List.range_succ, List.map_append, List.map_singleton, if_pos (Or.inl rfl)]
  congr 1
  apply List.map_congr_left
  intro i inRange
  have earlier : i < n := List.mem_range.mp inRange
  exact if_congr (or_iff_right (by omega)) rfl rfl

theorem reduceOption_repeats (k n : ℕ) :
    ((List.range n).map fun i => if Repeats (i + 1) then some k else none).reduceOption =
      List.replicate ((n - 22) / 3) k := by
  induction n with
  | zero => rfl
  | succ n ih =>
      rw [List.range_succ, List.map_append, List.map_singleton, List.reduceOption_append, ih]
      by_cases repeats : Repeats (n + 1)
      · have count : (n + 1 - 22) / 3 = (n - 22) / 3 + 1 := by
          unfold Repeats at repeats
          omega
        rw [if_pos repeats, count, List.replicate_succ']
        rfl
      · have count : (n + 1 - 22) / 3 = (n - 22) / 3 := by
          unfold Repeats at repeats
          omega
        rw [if_neg repeats, count, List.reduceOption_singleton, Option.toList_none, List.append_nil]

/-- The number of calls a run of `n` samples makes, all of them with its key. -/
theorem reduceOption_runPosts (k : ℕ) {n : ℕ} (nonempty : 1 ≤ n) :
    (runPosts k n).reduceOption =
      List.replicate (1 + if n ≥ 23 then (n - 23) / 3 else 0) k := by
  obtain ⟨m, rfl⟩ := Nat.exists_eq_add_of_le' nonempty
  have count : (1 + if m + 1 ≥ 23 then (m + 1 - 23) / 3 else 0) = (m - 22) / 3 + 1 := by
    split_ifs <;> omega
  rw [runPosts_succ, List.reduceOption_append, reduceOption_repeats, count,
    List.replicate_succ']
  rfl

/-- Where a run starts the calls of its iterations are those of `runPosts`. -/
theorem posts_run {s : KeyTask} (reached : s.Reached) (isKey : 1 ≤ k ∧ k ≤ 5)
    (starts : k ≠ s.keysave) {next : ℕ} (other : next ≠ k) (n : ℕ) :
    s.posts (List.replicate (n + 1) k ++ [next]) = s.post k :: runPosts k (n + 1) := by
  rw [List.replicate_succ, List.cons_append, posts_cons, reached.step_other starts,
    posts_append, posts_held isKey, run_held isKey, posts_cons, posts_nil,
    post_release isKey other, runPosts_succ]
  simp only [Nat.zero_add]

/-- **The repeat law.**  From the declared start with `keysave` 0, every run of a key
that comes to an end posts the key as `runPosts` says — in the iteration whose sample
ends the run and in the hold iterations 25, 28, 31 and so on before it — and nothing
else is ever posted. -/
theorem repeat_law (samples : List ℕ) :
    (∀ pre k n next rest, samples = pre ++ (List.replicate n k ++ next :: rest) →
        1 ≤ k → k ≤ 5 → 1 ≤ n → pre.getLast? ≠ some k → next ≠ k →
        (((init 0).posts samples).drop (pre.length + 1)).take n = runPosts k n ∧
          (runPosts k n).reduceOption =
            List.replicate (1 + if n ≥ 23 then (n - 23) / 3 else 0) k) ∧
      (∀ i v, ((init 0).posts samples)[i]? = some (some v) →
        1 ≤ v ∧ v ≤ 5 ∧ 1 ≤ i ∧ samples[i - 1]? = some v) ∧
      ∀ seen, seen <+: samples →
        (run step (init 0) seen).T ≤ 21 ∧ (run step (init 0) seen).Ti ≤ 3 := by
  refine ⟨?_, ?_, ?_⟩
  · intro pre k n next rest split low high nonempty starts other
    refine ⟨?_, reduceOption_runPosts k nonempty⟩
    obtain ⟨m, rfl⟩ := Nat.exists_eq_add_of_le' nonempty
    have fresh : k ≠ (run step (init 0) pre).keysave := by
      rw [keysave_run]
      intro same
      cases last : pre.getLast? with
      | none =>
          rw [last] at same
          exact absurd low (by rw [same]; exact Nat.not_succ_le_zero 0)
      | some v =>
          rw [last] at same
          exact starts (by rw [last, same]; rfl)
    have regroup : samples = pre ++ ((List.replicate (m + 1) k ++ [next]) ++ rest) := by
      rw [split, List.append_assoc, List.singleton_append]
    rw [regroup, posts_append, posts_append,
      posts_run (reached_run 0 pre) ⟨low, high⟩ fresh other m]
    have skipped : ((init 0).posts pre).length = pre.length := length_posts _ _
    rw [List.drop_append, skipped, List.drop_eq_nil_of_le (by omega), List.nil_append,
      Nat.add_sub_cancel_left, List.cons_append, List.drop_succ_cons, List.drop_zero]
    have width : (runPosts k (m + 1)).length = m + 1 := by simp [runPosts]
    exact List.take_left' width
  · intro i v posted
    cases i with
    | zero =>
        cases samples with
        | nil => simp at posted
        | cons key samples => simp [post_eq, Fires, KeySaved, init] at posted
    | succ i =>
        obtain ⟨sampled, low, high⟩ := post_of_getElem? posted
        exact ⟨low, high, Nat.succ_le_succ (Nat.zero_le i), sampled⟩
  · intro seen _
    exact ⟨(reached_run 0 seen).T_le, (reached_run 0 seen).Ti_le⟩

/-! ## Phantom keys -/

/-- Every value posted is that of the run of equal samples that contains the posting
iteration or ends just before it, so it has been sampled. -/
def NoPhantom (keysave : ℕ) (samples : List ℕ) : Prop :=
  ∀ i v, ((init keysave).posts samples)[i]? = some (some v) →
    v ≠ 0 ∧ (samples[i]? = some v ∨ 1 ≤ i ∧ samples[i - 1]? = some v) ∧
      v ∈ samples.take (i + 1)

/-- **Phantom keys come from the first iteration alone.**  `keysave` has no initial
value, and a leftover that names a key is posted unless the first sample is that key. -/
theorem noPhantom_iff (keysave : ℕ) (samples : List ℕ) :
    NoPhantom keysave samples ↔
      (1 ≤ keysave ∧ keysave ≤ 5 → ∀ key ∈ samples.head?, key = keysave) := by
  cases samples with
  | nil => simp [NoPhantom]
  | cons key samples =>
      constructor
      · intro noPhantom saved first isFirst
        obtain rfl : key = first := by simpa using isFirst
        by_contra other
        have posted : (init keysave).post key = some keysave :=
          post_eq_some_iff.mpr ⟨⟨saved, Or.inl other⟩, rfl⟩
        obtain ⟨-, sampled, -⟩ := noPhantom 0 keysave (by simp [posted])
        rcases sampled with here | ⟨before, -⟩
        · exact other (by simpa using here)
        · exact Nat.not_succ_le_zero 0 before
      · intro first i v posted
        cases i with
        | zero =>
            have fires : (init keysave).post key = some v := by simpa using posted
            obtain ⟨⟨saved, change | ⟨delay, -⟩⟩, -⟩ := post_eq_some_iff.mp fires
            · exact absurd (first saved key rfl) change
            · exact absurd delay (Nat.not_lt_zero _)
        | succ i =>
            obtain ⟨sampled, low, -⟩ := post_of_getElem? posted
            refine ⟨Nat.one_le_iff_ne_zero.mp low,
              Or.inr ⟨Nat.succ_le_succ (Nat.zero_le i), sampled⟩, ?_⟩
            obtain ⟨inside, here⟩ := List.getElem?_eq_some_iff.mp sampled
            exact List.mem_take_iff_getElem.mpr ⟨i, by omega, here⟩

/-- With 3 left in `keysave` and no key pressed the first iteration posts key 3. -/
theorem phantom_of_leftover : ¬ NoPhantom 3 [0] := by
  intro noPhantom
  exact absurd (noPhantom 0 3 rfl).2.2 (by decide)

end KeyTask

end CannonCar
