import Mathlib

/-!
# Lists threaded through their nodes

A node may be followed by a node and preceded by one: `Links` is what the nodes store.
`Seg next p xs q` says that going on from `p` one meets the nodes `xs` and then `q`, and
`Doubly l first xs` that `xs` is the list that starts at `first` and that each of its nodes
knows its neighbours.  `push` puts a node before the first one, `unlink` takes a node out
from where it stands, and `Family` keeps several lists apart while one of them changes
(`Family.push`, `Family.unlink`).
-/

namespace LinkedList

variable {α : Type*}

/-- Going on from `p` one meets the nodes `xs`, and then `q`. -/
def Seg (next : α → Option α) : Option α → List α → Option α → Prop
  | p, [], q => p = q
  | p, x :: xs, q => p = some x ∧ Seg next (next x) xs q

/-- Each node of `xs` knows the one before it; before the first one is `p`. -/
def Back (prev : α → Option α) : Option α → List α → Prop
  | _, [] => True
  | p, x :: xs => prev x = p ∧ Back prev (some x) xs

section Seg

variable {next next' : α → Option α} {p q : Option α} {x : α} {xs ys : List α}

@[simp] theorem seg_nil : Seg next p [] q ↔ p = q := Iff.rfl

@[simp] theorem seg_cons : Seg next p (x :: xs) q ↔ p = some x ∧ Seg next (next x) xs q := Iff.rfl

theorem seg_append : Seg next p (xs ++ ys) q ↔ ∃ m, Seg next p xs m ∧ Seg next m ys q := by
  induction xs generalizing p with
  | nil => simp
  | cons x xs ih =>
      simp only [List.cons_append, seg_cons, ih]
      constructor
      · rintro ⟨start, m, front, back⟩
        exact ⟨m, ⟨start, front⟩, back⟩
      · rintro ⟨m, ⟨start, front⟩, back⟩
        exact ⟨start, m, front, back⟩

/-- The links determine the list. -/
theorem Seg.unique (h : Seg next p xs none) (h' : Seg next p ys none) : xs = ys := by
  induction xs generalizing p ys with
  | nil =>
      cases ys with
      | nil => rfl
      | cons y ys => exact absurd (h.symm.trans h'.1) (by simp)
  | cons x xs ih =>
      cases ys with
      | nil => exact absurd (h.1.symm.trans h') (by simp)
      | cons y ys =>
          obtain ⟨rfl, rest⟩ := h
          obtain ⟨same, rest'⟩ := h'
          obtain rfl := Option.some.inj same
          rw [ih rest rest']

/-- A list that ends meets no node twice. -/
theorem Seg.nodup (h : Seg next p xs none) : xs.Nodup := by
  induction xs generalizing p with
  | nil => exact List.nodup_nil
  | cons x xs ih =>
      refine List.nodup_cons.mpr ⟨fun again => ?_, ih h.2⟩
      -- from the second visit on the list would go on as from the first
      obtain ⟨front, back, rfl⟩ := List.append_of_mem again
      obtain ⟨m, -, rest⟩ := seg_append.mp h.2
      have short : front ++ x :: back = back := h.2.unique rest.2
      have length := congrArg List.length short
      simp only [List.length_append, List.length_cons] at length
      omega

theorem Seg.head (h : Seg next p xs none) : p = xs.head? := by
  cases xs with
  | nil => exact h
  | cons x xs => exact h.1

/-- What leaves the nodes alone leaves the list alone. -/
theorem Seg.congr (h : Seg next p xs q) (same : ∀ x ∈ xs, next' x = next x) :
    Seg next' p xs q := by
  induction xs generalizing p with
  | nil => exact h
  | cons x xs ih =>
      obtain ⟨start, rest⟩ := h
      refine ⟨start, ?_⟩
      rw [same x List.mem_cons_self]
      exact ih rest fun y mem => same y (List.mem_cons_of_mem x mem)

end Seg

section Back

variable {prev prev' : α → Option α} {p : Option α} {x : α} {xs ys : List α}

@[simp] theorem back_nil : Back prev p [] := trivial

@[simp] theorem back_cons : Back prev p (x :: xs) ↔ prev x = p ∧ Back prev (some x) xs := Iff.rfl

theorem back_append_cons :
    Back prev p (xs ++ x :: ys) ↔ Back prev p (xs ++ [x]) ∧ Back prev (some x) ys := by
  induction xs generalizing p with
  | nil => simp
  | cons y xs ih => simp only [List.cons_append, back_cons, ih, and_assoc]

theorem Back.congr (h : Back prev p xs) (same : ∀ x ∈ xs, prev' x = prev x) :
    Back prev' p xs := by
  induction xs generalizing p with
  | nil => trivial
  | cons x xs ih =>
      obtain ⟨before, rest⟩ := h
      refine ⟨(same x List.mem_cons_self).trans before, ?_⟩
      exact ih rest fun y mem => same y (List.mem_cons_of_mem x mem)

/-- Only what stands before the first node changes. -/
theorem Back.rehead {q : Option α} (h : Back prev p xs) (first : ∀ x ∈ xs.head?, prev' x = q)
    (same : ∀ x ∈ xs.tail, prev' x = prev x) : Back prev' q xs := by
  cases xs with
  | nil => trivial
  | cons x xs => exact ⟨first x rfl, h.2.congr same⟩

end Back

/-- What the nodes store. -/
structure Links (α : Type*) where
  next : α → Option α
  prev : α → Option α

/-- `xs` is the list that starts at `first`, linked both ways. -/
structure Doubly (l : Links α) (first : Option α) (xs : List α) : Prop where
  seg : Seg l.next first xs none
  back : Back l.prev none xs

namespace Doubly

variable {l l' : Links α} {first : Option α} {x : α} {xs ys : List α}

theorem nodup (h : Doubly l first xs) : xs.Nodup := h.seg.nodup

theorem head (h : Doubly l first xs) : first = xs.head? := h.seg.head

theorem congr (h : Doubly l first xs) (next : ∀ x ∈ xs, l'.next x = l.next x)
    (prev : ∀ x ∈ xs, l'.prev x = l.prev x) : Doubly l' first xs :=
  ⟨h.seg.congr next, h.back.congr prev⟩

/-- After a node comes what follows it in the list. -/
theorem next_eq {front back : List α} (h : Doubly l first (front ++ x :: back)) :
    l.next x = back.head? := by
  obtain ⟨m, -, -, rest⟩ := seg_append.mp h.seg
  exact rest.head

/-- Before a node comes what precedes it in the list. -/
theorem prev_eq {front back : List α} (h : Doubly l first (front ++ x :: back)) :
    l.prev x = front.getLast? := by
  rcases List.eq_nil_or_concat' front with rfl | ⟨front, y, rfl⟩
  · exact h.back.1
  · have pair := h.back
    rw [List.append_assoc, List.singleton_append, back_append_cons] at pair
    rw [List.getLast?_concat]
    exact pair.2.1

end Doubly

section Update

variable [DecidableEq α]

/-- A store through a pointer; one through a null pointer is left out. -/
def store (f : α → Option α) (p v : Option α) : α → Option α :=
  match p with
  | none => f
  | some y => Function.update f y v

variable {f : α → Option α} {p v : Option α} {x y : α}

@[simp] theorem store_none : store f none v = f := rfl

@[simp] theorem store_some : store f (some y) v = Function.update f y v := rfl

theorem store_of_ne (ne : p ≠ some x) : store f p v x = f x := by
  cases p with
  | none => rfl
  | some y => exact Function.update_of_ne (fun same => ne (congrArg some same.symm)) _ _

namespace Links

/-- Put `x` before the node `first`. -/
def push (l : Links α) (first : Option α) (x : α) : Links α where
  next := Function.update l.next x first
  prev := Function.update (store l.prev first (some x)) x none

/-- What comes before `x` in the list that starts at `first`. -/
def before (l : Links α) (first : Option α) (x : α) : Option α :=
  if first = some x then none else l.prev x

/-- Take `x` out of the list that starts at `first`. -/
def unlink (l : Links α) (first : Option α) (x : α) : Links α where
  next := Function.update (store l.next (l.before first x) (l.next x)) x none
  prev := Function.update (store l.prev (l.next x) (l.before first x)) x none

/-- The first node when `x` is out. -/
def firstWithout (l : Links α) (first : Option α) (x : α) : Option α :=
  if first = some x then l.next x else first

variable {l : Links α} {first : Option α}

@[simp] theorem push_next_self : (l.push first x).next x = first := Function.update_self ..

theorem push_next_of_ne (ne : y ≠ x) : (l.push first x).next y = l.next y :=
  Function.update_of_ne ne _ _

@[simp] theorem push_prev_self : (l.push first x).prev x = none := Function.update_self ..

theorem push_prev_of_ne (ne : y ≠ x) :
    (l.push first x).prev y = store l.prev first (some x) y :=
  Function.update_of_ne ne _ _

theorem unlink_next_of_ne (ne : y ≠ x) :
    (l.unlink first x).next y = store l.next (l.before first x) (l.next x) y :=
  Function.update_of_ne ne _ _

theorem unlink_prev_of_ne (ne : y ≠ x) :
    (l.unlink first x).prev y = store l.prev (l.next x) (l.before first x) y :=
  Function.update_of_ne ne _ _

end Links

namespace Doubly

variable {l : Links α} {first : Option α} {x : α} {xs ys : List α}

/-- **A new first node.** -/
theorem push (h : Doubly l first xs) (fresh : x ∉ xs) :
    Doubly (l.push first x) (some x) (x :: xs) := by
  have other : ∀ y ∈ xs, y ≠ x := fun y mem same => fresh (same ▸ mem)
  refine ⟨⟨rfl, ?_⟩, Links.push_prev_self, ?_⟩
  · rw [Links.push_next_self]
    exact h.seg.congr fun y mem => Links.push_next_of_ne (other y mem)
  · apply h.back.rehead
    · intro y head
      have start : first = some y := h.head.trans head
      have mem : y ∈ xs := List.mem_of_mem_head? head
      rw [Links.push_prev_of_ne (other y mem), start, store_some, Function.update_self]
    · intro y mem
      have away : first ≠ some y := by
        intro start
        cases xs with
        | nil => exact absurd mem List.not_mem_nil
        | cons z xs =>
            obtain rfl := Option.some.inj (h.seg.1.symm.trans start)
            exact (List.nodup_cons.mp h.nodup).1 mem
      rw [Links.push_prev_of_ne (other y (List.mem_of_mem_tail mem)), store_of_ne away]

theorem before_eq {front back : List α} (h : Doubly l first (front ++ x :: back)) :
    l.before first x = front.getLast? := by
  rw [Links.before]
  split_ifs with start
  · cases front with
    | nil => rfl
    | cons y front =>
        have nodup := h.nodup
        obtain rfl : y = x := Option.some.inj (h.head.symm.trans start)
        exact absurd (List.mem_append_right front List.mem_cons_self)
          (List.nodup_cons.mp nodup).1
  · exact h.prev_eq

theorem firstWithout_eq {front back : List α} (h : Doubly l first (front ++ x :: back)) :
    l.firstWithout first x = (front ++ back).head? := by
  rw [Links.firstWithout, h.next_eq]
  cases front with
  | nil =>
      have start : first = some x := h.head
      rw [if_pos start, List.nil_append]
  | cons y front =>
      have other : y ≠ x := by
        rintro rfl
        exact (List.nodup_cons.mp h.nodup).1 (List.mem_append_right front List.mem_cons_self)
      have start : first = some y := h.head
      rw [if_neg fun same => other (Option.some.inj (start.symm.trans same)), start]
      rfl

/-- **A node taken out** from between its neighbours. -/
theorem unlink_append {front back : List α} (h : Doubly l first (front ++ x :: back)) :
    Doubly (l.unlink first x) (l.firstWithout first x) (front ++ back) := by
  have nodup := List.nodup_append.mp h.nodup
  have outFront : ∀ y ∈ front, y ≠ x := fun y mem => nodup.2.2 y mem x List.mem_cons_self
  have outBack : ∀ y ∈ back, y ≠ x := by
    rintro y mem rfl
    exact (List.nodup_cons.mp nodup.2.1).1 mem
  have apart : ∀ y ∈ front, ∀ z ∈ back, y ≠ z := fun y left z right =>
    nodup.2.2 y left z (List.mem_cons_of_mem x right)
  obtain ⟨_, front_, rfl, back_⟩ := seg_append.mp h.seg
  rw [h.firstWithout_eq]
  constructor
  · -- forwards
    have later : Seg (l.unlink first x).next (l.next x) back none := by
      refine back_.congr fun y mem => ?_
      rw [Links.unlink_next_of_ne (outBack y mem), store_of_ne]
      rw [h.before_eq]
      exact fun last => apart y (List.mem_of_getLast? last) y mem rfl
    rcases List.eq_nil_or_concat' front with rfl | ⟨front, z, rfl⟩
    · rwa [h.next_eq] at later
    · obtain ⟨m, first_, rfl, -⟩ := seg_append.mp front_
      have start : (front ++ [z] ++ back).head? = first := by
        rw [h.head, List.append_assoc, List.append_assoc]
        cases front <;> rfl
      rw [start, List.append_assoc]
      have link : (l.unlink first x).next z = l.next x := by
        rw [Links.unlink_next_of_ne (outFront z (by simp)), h.before_eq, List.getLast?_concat,
          store_some, Function.update_self]
      refine seg_append.mpr ⟨some z, first_.congr fun y mem => ?_, rfl, ?_⟩
      · have other : z ≠ y := fun same =>
          (List.nodup_append.mp nodup.1).2.2 y mem z List.mem_cons_self same.symm
        rw [Links.unlink_next_of_ne (outFront y (by simp [mem])), h.before_eq,
          List.getLast?_concat, store_of_ne (fun same => other (Option.some.inj same))]
      · rwa [link]
  · -- backwards
    have kept : ∀ y ∈ front, (l.unlink first x).prev y = l.prev y := by
      intro y mem
      rw [Links.unlink_prev_of_ne (outFront y mem), store_of_ne]
      rw [h.next_eq]
      exact fun head => apart y mem y (List.mem_of_mem_head? head) rfl
    have joined : ∀ y ∈ back.head?, (l.unlink first x).prev y = front.getLast? := by
      intro y head
      rw [Links.unlink_prev_of_ne (outBack y (List.mem_of_mem_head? head)), h.next_eq, head,
        store_some, Function.update_self, h.before_eq]
    have rest : ∀ y ∈ back.tail, (l.unlink first x).prev y = l.prev y := by
      intro y mem
      rw [Links.unlink_prev_of_ne (outBack y (List.mem_of_mem_tail mem)), store_of_ne]
      rw [h.next_eq]
      intro head
      cases back with
      | nil => exact absurd mem List.not_mem_nil
      | cons z back =>
          obtain rfl := Option.some.inj head
          exact (List.nodup_cons.mp (List.nodup_cons.mp nodup.2.1).2).1 mem
    have split := back_append_cons.mp h.back
    have tail : Back (l.unlink first x).prev front.getLast? back := split.2.rehead joined rest
    rcases List.eq_nil_or_concat' front with rfl | ⟨front, z, rfl⟩
    · exact tail
    · rw [List.getLast?_concat] at tail
      rw [List.append_assoc, List.singleton_append]
      refine back_append_cons.mpr ⟨?_, tail⟩
      have whole := h.back
      rw [List.append_assoc, List.singleton_append, back_append_cons] at whole
      exact whole.1.congr kept

theorem unlink (h : Doubly l first xs) (mem : x ∈ xs) :
    Doubly (l.unlink first x) (l.firstWithout first x) (xs.erase x) := by
  obtain ⟨front, back, rfl⟩ := List.append_of_mem mem
  have outFront : x ∉ front := fun again =>
    (List.nodup_append.mp h.nodup).2.2 x again x List.mem_cons_self rfl
  rw [List.erase_append_right _ outFront, List.erase_cons_head]
  exact h.unlink_append

/-- A list without the node and its neighbours is left alone by a push. -/
theorem push_other {g : Option α} (h : Doubly l first xs) (other : Doubly l g ys)
    (out : x ∉ ys) (apart : xs.Disjoint ys) : Doubly (l.push first x) g ys := by
  have away : ∀ y ∈ ys, y ≠ x := fun y mem same => out (same ▸ mem)
  refine other.congr (fun y mem => Links.push_next_of_ne (away y mem)) fun y mem => ?_
  rw [Links.push_prev_of_ne (away y mem), store_of_ne]
  intro start
  exact apart (List.mem_of_mem_head? (h.head.symm.trans start)) mem

/-- A list without the node and its neighbours is left alone by taking the node out. -/
theorem unlink_other {g : Option α} (h : Doubly l first xs) (mem : x ∈ xs)
    (other : Doubly l g ys) (apart : xs.Disjoint ys) : Doubly (l.unlink first x) g ys := by
  obtain ⟨front, back, rfl⟩ := List.append_of_mem mem
  have out : ∀ y ∈ ys, y ≠ x := fun y right same => apart mem (same ▸ right)
  refine other.congr (fun y right => ?_) fun y right => ?_
  · rw [Links.unlink_next_of_ne (out y right), store_of_ne]
    rw [h.before_eq]
    exact fun last => apart (List.mem_append_left _ (List.mem_of_getLast? last)) right
  · rw [Links.unlink_prev_of_ne (out y right), store_of_ne]
    rw [h.next_eq]
    exact fun head => apart (List.mem_append_right _
      (List.mem_cons_of_mem x (List.mem_of_mem_head? head))) right

end Doubly

/-- Lists that have no node in common. -/
structure Family {ι : Type*} (l : Links α) (first : ι → Option α) (lists : ι → List α) : Prop where
  doubly : ∀ i, Doubly l (first i) (lists i)
  apart : ∀ i j, i ≠ j → (lists i).Disjoint (lists j)

namespace Family

variable {ι : Type*} [DecidableEq ι] {l l' : Links α} {first : ι → Option α} {lists : ι → List α}
  {x : α} {i : ι}

omit [DecidableEq α] [DecidableEq ι] in
theorem congr (h : Family l first lists) (next : ∀ i, ∀ x ∈ lists i, l'.next x = l.next x)
    (prev : ∀ i, ∀ x ∈ lists i, l'.prev x = l.prev x) : Family l' first lists :=
  ⟨fun i => (h.doubly i).congr (next i) (prev i), h.apart⟩

theorem push (h : Family l first lists) (fresh : ∀ j, x ∉ lists j) (i : ι) :
    Family (l.push (first i) x) (Function.update first i (some x))
      (Function.update lists i (x :: lists i)) := by
  constructor
  · intro j
    rcases eq_or_ne j i with rfl | other
    · rw [Function.update_self, Function.update_self]
      exact (h.doubly j).push (fresh j)
    · rw [Function.update_of_ne other, Function.update_of_ne other]
      exact (h.doubly i).push_other (h.doubly j) (fresh j) (h.apart i j other.symm)
  · intro j k different y left right
    rw [Function.update_apply] at left right
    split_ifs at left right with hj hk hk
    · exact different (hj.trans hk.symm)
    · rcases List.mem_cons.mp left with rfl | left
      · exact fresh k right
      · exact h.apart i k (hj ▸ different) left right
    · rcases List.mem_cons.mp right with rfl | right
      · exact fresh j left
      · exact h.apart j i (hk ▸ different) left right
    · exact h.apart j k different left right

theorem unlink (h : Family l first lists) (mem : x ∈ lists i) :
    Family (l.unlink (first i) x) (Function.update first i (l.firstWithout (first i) x))
      (Function.update lists i ((lists i).erase x)) := by
  constructor
  · intro j
    rcases eq_or_ne j i with rfl | other
    · rw [Function.update_self, Function.update_self]
      exact (h.doubly j).unlink mem
    · rw [Function.update_of_ne other, Function.update_of_ne other]
      exact (h.doubly i).unlink_other mem (h.doubly j) (h.apart i j other.symm)
  · intro j k different y left right
    have keeps : ∀ n, y ∈ Function.update lists i ((lists i).erase x) n → y ∈ lists n := by
      intro n inside
      rw [Function.update_apply] at inside
      split_ifs at inside with same
      · exact same ▸ List.mem_of_mem_erase inside
      · exact inside
    exact h.apart j k different (keeps j left) (keeps k right)

end Family

end Update

end LinkedList
