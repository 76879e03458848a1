import CannonCar.Foundation.Deque

/-!
# Message queues

The ring of message pointers behind a queue of `utilities/uCOSII/core/os_q.c`.  `OSQStart`,
`OSQEnd`, `OSQIn` and `OSQOut` are pointers into one array; they are kept here as indices
from `OSQStart`, so that `OSQStart` is 0 and `OSQEnd` is `OSQSize`.

## What is load-bearing

An index goes up and is compared with `OSQEnd` for equality, as the pointers of the source are;
`Ok` keeps it in the ring.  Where `OSQIn` and `OSQOut` are the same the queue is full or empty,
so `OSQEntries` is part of the state, and the messages are those of `Foundation.Deque` for it.
A queue of size 0 can be created: it is full from the start, and its indices stay at 0.
-/

namespace CannonCar

namespace Ucos

open Deque

/-- The queue control block `OS_Q` and the array it points into. -/
structure OSQ where
  mem : ℕ → ℕ
  OSQIn : ℕ
  OSQOut : ℕ
  OSQSize : ℕ
  OSQEntries : ℕ

namespace OSQ

/-- What `OSQCreate (start, size)` puts in the control block. -/
def create (start : ℕ → ℕ) (size : ℕ) : OSQ := ⟨start, 0, 0, size, 0⟩

/-- `*pq->OSQIn++ = pmsg; pq->OSQEntries++`, with the wrap at `OSQEnd`. -/
def post (pmsg : ℕ) (pq : OSQ) : OSQ :=
  { pq with
    mem := Function.update pq.mem pq.OSQIn pmsg
    OSQIn := if pq.OSQIn + 1 = pq.OSQSize then 0 else pq.OSQIn + 1
    OSQEntries := pq.OSQEntries + 1 }

/-- The same at the front, as in `OSQPostFront`. -/
def postFront (pmsg : ℕ) (pq : OSQ) : OSQ :=
  let out := if pq.OSQOut = 0 then pq.OSQSize else pq.OSQOut
  { pq with
    mem := Function.update pq.mem (out - 1) pmsg
    OSQOut := out - 1
    OSQEntries := pq.OSQEntries + 1 }

/-- `pmsg = *pq->OSQOut++; pq->OSQEntries--`, with the wrap at `OSQEnd`. -/
def get (pq : OSQ) : ℕ × OSQ :=
  (pq.mem pq.OSQOut,
    { pq with
      OSQOut := if pq.OSQOut + 1 = pq.OSQSize then 0 else pq.OSQOut + 1
      OSQEntries := pq.OSQEntries - 1 })

/-- What `OSQFlush` does to the control block. -/
def flush (pq : OSQ) : OSQ := { pq with OSQIn := 0, OSQOut := 0, OSQEntries := 0 }

/-! ### The queue as a list -/

/-- The ring of the queue. -/
def ring (pq : OSQ) : Buffer ℕ := ⟨pq.OSQSize, pq.mem, pq.OSQOut, pq.OSQEntries⟩

/-- The messages in the queue, the oldest first. -/
def messages (pq : OSQ) : List ℕ := pq.ring.contents

/-- The indices of a queue: `OSQIn` is where the messages end.  A queue that was created
with no room keeps all of them at 0. -/
structure Ok (pq : OSQ) : Prop where
  count_le : pq.OSQEntries ≤ pq.OSQSize
  out_lt : 0 < pq.OSQSize → pq.OSQOut < pq.OSQSize
  in_eq : 0 < pq.OSQSize → pq.OSQIn = (pq.OSQOut + pq.OSQEntries) % pq.OSQSize

variable {pq : OSQ} {pmsg : ℕ}

@[simp] theorem length_messages (pq : OSQ) : pq.messages.length = pq.OSQEntries :=
  Buffer.length_contents _

theorem messages_eq_nil_iff : pq.messages = [] ↔ pq.OSQEntries = 0 := Buffer.contents_eq_nil_iff

theorem Ok.ring (ok : pq.Ok) (size : 0 < pq.OSQSize) : pq.ring.Ok := ⟨ok.out_lt size, ok.count_le⟩

/-- One place further, with the wrap at the end. -/
theorem wrap_eq {i n : ℕ} (lt : i < n) : (if i + 1 = n then 0 else i + 1) = (i + 1) % n := by
  split_ifs with last
  · rw [last, Nat.mod_self]
  · rw [Nat.mod_eq_of_lt (by omega)]

theorem ok_create (start : ℕ → ℕ) (size : ℕ) : (create start size).Ok where
  count_le := Nat.zero_le _
  out_lt positive := positive
  in_eq _ := (Nat.zero_mod _).symm

theorem messages_create (start : ℕ → ℕ) (size : ℕ) : (create start size).messages = [] := rfl

theorem ok_flush (pq : OSQ) : pq.flush.Ok where
  count_le := Nat.zero_le _
  out_lt positive := positive
  in_eq _ := (Nat.zero_mod _).symm

theorem messages_flush (pq : OSQ) : pq.flush.messages = [] := rfl

section Post

variable (ok : pq.Ok) (room : pq.OSQEntries < pq.OSQSize)

include ok room

theorem Ok.post : (pq.post pmsg).Ok := by
  have size : 0 < pq.OSQSize := Nat.zero_lt_of_lt room
  refine ⟨room, ok.out_lt, fun _ => ?_⟩
  have inside : pq.OSQIn < pq.OSQSize := by
    rw [ok.in_eq size]
    exact Nat.mod_lt _ size
  have next : (pq.post pmsg).OSQIn = (pq.OSQIn + 1) % pq.OSQSize := wrap_eq inside
  rw [next, ok.in_eq size, Nat.mod_add_mod]
  rfl

/-- A message that is posted comes behind those in the queue. -/
theorem Ok.messages_post : (pq.post pmsg).messages = pq.messages ++ [pmsg] := by
  have size : 0 < pq.OSQSize := Nat.zero_lt_of_lt room
  have same : (pq.post pmsg).ring = pq.ring.pushBack pmsg := by
    have slot : pq.OSQIn = pq.ring.slot pq.ring.count := ok.in_eq size
    simp only [OSQ.ring, OSQ.post, Buffer.pushBack, slot]
  rw [messages, same, Buffer.contents_pushBack room]
  rfl

omit ok room in
theorem ring_postFront : (pq.postFront pmsg).ring = pq.ring.pushFront pmsg := by
  by_cases zero : pq.OSQOut = 0
  · simp [OSQ.ring, OSQ.postFront, Buffer.pushFront, zero]
  · simp [OSQ.ring, OSQ.postFront, Buffer.pushFront, zero]

theorem Ok.postFront : (pq.postFront pmsg).Ok := by
  have size : 0 < pq.OSQSize := Nat.zero_lt_of_lt room
  obtain ⟨inside, next⟩ := (ok.ring size).before_first (a := pmsg)
  rw [← ring_postFront] at inside next
  refine ⟨room, fun _ => inside, fun _ => ?_⟩
  -- `OSQIn` stays, and so does the place behind the last message
  have back : (pq.postFront pmsg).OSQOut + (pq.postFront pmsg).OSQEntries =
      (pq.postFront pmsg).OSQOut + 1 + pq.OSQEntries := by
    rw [show (pq.postFront pmsg).OSQEntries = pq.OSQEntries + 1 from rfl]
    omega
  have wrapped : ((pq.postFront pmsg).OSQOut + 1) % pq.OSQSize = pq.OSQOut := next
  calc pq.OSQIn = (pq.OSQOut + pq.OSQEntries) % pq.OSQSize := ok.in_eq size
    _ = (((pq.postFront pmsg).OSQOut + 1) % pq.OSQSize + pq.OSQEntries) % pq.OSQSize := by
        rw [wrapped]
    _ = ((pq.postFront pmsg).OSQOut + 1 + pq.OSQEntries) % pq.OSQSize := Nat.mod_add_mod ..
    _ = ((pq.postFront pmsg).OSQOut + (pq.postFront pmsg).OSQEntries) % pq.OSQSize := by rw [back]

/-- A message that is posted to the front comes before those in the queue. -/
theorem Ok.messages_postFront : (pq.postFront pmsg).messages = pmsg :: pq.messages := by
  have size : 0 < pq.OSQSize := Nat.zero_lt_of_lt room
  rw [messages, ring_postFront, (ok.ring size).contents_pushFront room]
  rfl

end Post

section Get

variable (ok : pq.Ok) (some : 0 < pq.OSQEntries)

include ok some

theorem Ok.ring_get : pq.get.2.ring = pq.ring.popFront := by
  have size : 0 < pq.OSQSize := some.trans_le ok.count_le
  have next : pq.get.2.OSQOut = (pq.OSQOut + 1) % pq.OSQSize := wrap_eq (ok.out_lt size)
  simp only [OSQ.ring, next, Buffer.popFront]
  rfl

theorem Ok.get : pq.get.2.Ok := by
  have size : 0 < pq.OSQSize := some.trans_le ok.count_le
  have next : pq.get.2.OSQOut = (pq.OSQOut + 1) % pq.OSQSize := wrap_eq (ok.out_lt size)
  refine ⟨(Nat.sub_le _ _).trans ok.count_le, fun _ => ?_, fun _ => ?_⟩
  · rw [next]
    exact Nat.mod_lt _ size
  · have whole : pq.OSQOut + 1 + (pq.OSQEntries - 1) = pq.OSQOut + pq.OSQEntries := by omega
    rw [next, show pq.get.2.OSQEntries = pq.OSQEntries - 1 from rfl,
      show pq.get.2.OSQSize = pq.OSQSize from rfl, Nat.mod_add_mod, whole]
    exact ok.in_eq size

/-- The message that is taken out is the first one. -/
theorem Ok.messages_get : pq.messages = pq.get.1 :: pq.get.2.messages := by
  have size : 0 < pq.OSQSize := some.trans_le ok.count_le
  rw [messages, messages, ok.ring_get some]
  exact (ok.ring size).contents_popFront some

end Get

end OSQ

end Ucos

end CannonCar
