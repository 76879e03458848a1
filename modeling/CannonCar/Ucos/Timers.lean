import CannonCar.Foundation.LinkedList
import CannonCar.Foundation.Trajectory

/-!
# The timer manager

The timers of `utilities/uCOSII/core/os_tmr.c`.  A timer is an entry of `OSTmrTbl`; those
not in use are on `OSTmrFreeList`, and those that run are in the wheel, each in the list of
the spoke its `OSTmrMatch` has.  The timer task goes through one list after each tick.  It
has read the pointer to the next timer when it calls a callback, and callbacks may call the
services too, so one turn of its loop is a step and `cursor` is where the loop stands.

The locks around the services, the names of timers and the check of `OSTmrType` are left
out: a handle is a timer of the table or null.

## Modelling decisions

**Links are in the timers.**  `OSTmrNext` and `OSTmrPrev` are fields that the functions read
and write one by one; the lists they make up are not part of the state but of the invariant
(`Wheel`).

**One turn of the loop is a step.**  The timer task runs under the lock of the timer manager,
and only callbacks can do something to the lists while it goes over them; a callback's calls
come as further actions before the next turn.

**Time is 32 bits wide** and wraps, and so does a match time; a spoke is the time modulo the
size of the wheel, which divides 2^32.
-/

namespace CannonCar

namespace Ucos

open LinkedList Trajectory

/-- `OS_TMR_CFG_MAX`. -/
def osTmrCfgMax : ℕ := 16

instance : NeZero osTmrCfgMax := ⟨nofun⟩

/-- `OS_TMR_CFG_WHEEL_SIZE`. -/
abbrev osTmrCfgWheelSize : ℕ := 8

/-- A timer, by its index in `OSTmrTbl`. -/
abbrev TmrId := Fin osTmrCfgMax

/-- An index in `OSTmrWheelTbl`. -/
abbrev Spoke := Fin osTmrCfgWheelSize

/-- `OS_TMR_OPT_NONE`. -/
def osTmrOptNone : BitVec 8 := 0

/-- `OS_TMR_OPT_ONE_SHOT`. -/
def osTmrOptOneShot : BitVec 8 := 1

/-- `OS_TMR_OPT_PERIODIC`. -/
def osTmrOptPeriodic : BitVec 8 := 2

/-- `OS_TMR_OPT_CALLBACK`. -/
def osTmrOptCallback : BitVec 8 := 3

/-- `OS_TMR_OPT_CALLBACK_ARG`. -/
def osTmrOptCallbackArg : BitVec 8 := 4

/-- `OS_TMR_STATE_...`. -/
inductive TmrState
  | unused
  | stopped
  | completed
  | running
  deriving DecidableEq

/-- The codes `OS_ERR_TMR_...`. -/
inductive TmrErr
  | none
  | invalidDly
  | invalidPeriod
  | invalidOpt
  | nonAvail
  | inactive
  | invalid
  | isr
  | stopped
  | noCallback
  deriving DecidableEq

/-- `OS_TMR_LINK_DLY` and `OS_TMR_LINK_PERIODIC`. -/
inductive TmrLink
  | dly
  | periodic
  deriving DecidableEq

/-- `OS_TMR`; a callback is the address of its function. -/
structure OsTmr where
  OSTmrCallback : Option ℕ
  OSTmrCallbackArg : BitVec 32
  OSTmrNext : Option TmrId
  OSTmrPrev : Option TmrId
  OSTmrMatch : BitVec 32
  OSTmrDly : BitVec 32
  OSTmrPeriod : BitVec 32
  OSTmrOpt : BitVec 8
  OSTmrState : TmrState
  deriving DecidableEq

/-- `OS_TMR_WHEEL`. -/
structure TmrWheel where
  OSTmrFirst : Option TmrId
  OSTmrEntries : BitVec 16
  deriving DecidableEq

/-- A call of a callback. -/
structure Fired where
  pfnct : ℕ
  ptmr : TmrId
  arg : BitVec 32
  deriving DecidableEq

/-- The globals of the timer manager. -/
structure Tmrs where
  OSTmrTbl : TmrId → OsTmr
  OSTmrWheelTbl : Spoke → TmrWheel
  OSTmrFreeList : Option TmrId
  OSTmrUsed : BitVec 16
  OSTmrFree : BitVec 16
  OSTmrTime : BitVec 32
  /-- `ptmr` of the timer task while it goes through a list. -/
  cursor : Option (Option TmrId)

/-- The spoke of a time. -/
def spokeOf (time : BitVec 32) : Spoke := Fin.ofNat osTmrCfgWheelSize time.toNat

namespace Tmrs

/-- Change a timer. -/
def modify (w : Tmrs) (t : TmrId) (f : OsTmr → OsTmr) : Tmrs :=
  { w with OSTmrTbl := Function.update w.OSTmrTbl t (f (w.OSTmrTbl t)) }

def setSpoke (w : Tmrs) (s : Spoke) (v : TmrWheel) : Tmrs :=
  { w with OSTmrWheelTbl := Function.update w.OSTmrWheelTbl s v }

/-- `p->OSTmrNext = v`, for a pointer that is not null. -/
def setNext (w : Tmrs) : Option TmrId → Option TmrId → Tmrs
  | none, _ => w
  | some t, v => w.modify t fun tmr => { tmr with OSTmrNext := v }

/-- `p->OSTmrPrev = v`, for a pointer that is not null. -/
def setPrev (w : Tmrs) : Option TmrId → Option TmrId → Tmrs
  | none, _ => w
  | some t, v => w.modify t fun tmr => { tmr with OSTmrPrev := v }

/-- What `OSTmr_Link` adds to the time. -/
def delay (tmr : OsTmr) : TmrLink → BitVec 32
  | .periodic => tmr.OSTmrPeriod
  | .dly => if tmr.OSTmrDly = 0 then tmr.OSTmrPeriod else tmr.OSTmrDly

/-- The `OSTmrMatch` that `OSTmr_Link` sets. -/
def due (w : Tmrs) (ptmr : TmrId) (type : TmrLink) : BitVec 32 :=
  delay (w.OSTmrTbl ptmr) type + w.OSTmrTime

/-- `OSTmr_Link`. -/
def osTmrLink (w : Tmrs) (ptmr : TmrId) (type : TmrLink) : Tmrs :=
  let w₁ := w.modify ptmr fun tmr =>
    { tmr with OSTmrState := .running, OSTmrMatch := w.due ptmr type }
  let spoke := spokeOf (w.due ptmr type)
  let pspoke := w.OSTmrWheelTbl spoke
  match pspoke.OSTmrFirst with
  | none =>
    ((w₁.setSpoke spoke ⟨some ptmr, 1⟩).setNext (some ptmr) none).setPrev (some ptmr) none
  | some ptmr1 =>
    (((w₁.setSpoke spoke ⟨some ptmr, pspoke.OSTmrEntries + 1⟩).setNext (some ptmr)
      (some ptmr1)).setPrev (some ptmr1) (some ptmr)).setPrev (some ptmr) none

/-- `OSTmr_Unlink`. -/
def osTmrUnlink (w : Tmrs) (ptmr : TmrId) : Tmrs :=
  let spoke := spokeOf (w.OSTmrTbl ptmr).OSTmrMatch
  let pspoke := w.OSTmrWheelTbl spoke
  let next := (w.OSTmrTbl ptmr).OSTmrNext
  let w₁ :=
    if pspoke.OSTmrFirst = some ptmr then
      (w.setSpoke spoke ⟨next, pspoke.OSTmrEntries - 1⟩).setPrev next none
    else
      let prev := (w.OSTmrTbl ptmr).OSTmrPrev
      ((w.setSpoke spoke { pspoke with OSTmrEntries := pspoke.OSTmrEntries - 1 }).setNext
        prev next).setPrev next prev
  w₁.modify ptmr fun tmr =>
    { tmr with OSTmrState := .stopped, OSTmrNext := none, OSTmrPrev := none }

/-- `OSTmr_Alloc`. -/
def osTmrAlloc (w : Tmrs) : Tmrs × Option TmrId :=
  match w.OSTmrFreeList with
  | none => (w, none)
  | some ptmr =>
    ({ w.modify ptmr fun tmr => { tmr with OSTmrNext := none, OSTmrPrev := none } with
        OSTmrFreeList := (w.OSTmrTbl ptmr).OSTmrNext
        OSTmrUsed := w.OSTmrUsed + 1
        OSTmrFree := w.OSTmrFree - 1 }, some ptmr)

/-- `OSTmr_Free`. -/
def osTmrFree (w : Tmrs) (ptmr : TmrId) : Tmrs :=
  { w.modify ptmr fun tmr =>
      { tmr with
        OSTmrState := .unused
        OSTmrOpt := osTmrOptNone
        OSTmrPeriod := 0
        OSTmrMatch := 0
        OSTmrCallback := none
        OSTmrCallbackArg := 0
        OSTmrPrev := none
        OSTmrNext := w.OSTmrFreeList } with
    OSTmrFreeList := some ptmr
    OSTmrUsed := w.OSTmrUsed - 1
    OSTmrFree := w.OSTmrFree + 1 }

/-- The checks `OSTmrCreate` makes of its arguments. -/
def createErr (dly period : BitVec 32) (opt : BitVec 8) : TmrErr :=
  if opt = osTmrOptPeriodic then if period = 0 then .invalidPeriod else .none
  else if opt = osTmrOptOneShot then if dly = 0 then .invalidDly else .none
  else .invalidOpt

/-- `OSTmrCreate`. -/
def osTmrCreate (w : Tmrs) (intNesting : ℕ) (dly period : BitVec 32) (opt : BitVec 8)
    (callback : Option ℕ) (callbackArg : BitVec 32) : Tmrs × Option TmrId × TmrErr :=
  if createErr dly period opt ≠ .none then (w, none, createErr dly period opt)
  else if 0 < intNesting then (w, none, .isr)
  else
    match w.osTmrAlloc with
    | (w₁, none) => (w₁, none, .nonAvail)
    | (w₁, some ptmr) =>
      (w₁.modify ptmr fun tmr =>
        { tmr with
          OSTmrState := .stopped
          OSTmrDly := dly
          OSTmrPeriod := period
          OSTmrOpt := opt
          OSTmrCallback := callback
          OSTmrCallbackArg := callbackArg }, some ptmr, .none)

/-- `OSTmrDel`. -/
def osTmrDel (w : Tmrs) (intNesting : ℕ) : Option TmrId → Tmrs × Bool × TmrErr
  | none => (w, false, .invalid)
  | some ptmr =>
    if 0 < intNesting then (w, false, .isr)
    else
      match (w.OSTmrTbl ptmr).OSTmrState with
      | .running => ((w.osTmrUnlink ptmr).osTmrFree ptmr, true, .none)
      | .stopped | .completed => (w.osTmrFree ptmr, true, .none)
      | .unused => (w, false, .inactive)

/-- `OSTmrStart`. -/
def osTmrStart (w : Tmrs) (intNesting : ℕ) : Option TmrId → Tmrs × Bool × TmrErr
  | none => (w, false, .invalid)
  | some ptmr =>
    if 0 < intNesting then (w, false, .isr)
    else
      match (w.OSTmrTbl ptmr).OSTmrState with
      | .running => ((w.osTmrUnlink ptmr).osTmrLink ptmr .dly, true, .none)
      | .stopped | .completed => (w.osTmrLink ptmr .dly, true, .none)
      | .unused => (w, false, .inactive)

/-- The call of a timer's callback, if it has one. -/
def fire (w : Tmrs) (ptmr : TmrId) (arg : BitVec 32) : List Fired :=
  ((w.OSTmrTbl ptmr).OSTmrCallback.map fun pfnct => ⟨pfnct, ptmr, arg⟩).toList

/-- `OSTmrStop`; the second component is the callback it calls. -/
def osTmrStop (w : Tmrs) (intNesting : ℕ) (ptmr : Option TmrId) (opt : BitVec 8)
    (callbackArg : BitVec 32) : Tmrs × List Fired × Bool × TmrErr :=
  match ptmr with
  | none => (w, [], false, .invalid)
  | some ptmr =>
    if 0 < intNesting then (w, [], false, .isr)
    else
      match (w.OSTmrTbl ptmr).OSTmrState with
      | .running =>
        let w₁ := w.osTmrUnlink ptmr
        let missing := if (w₁.OSTmrTbl ptmr).OSTmrCallback = none then .noCallback else .none
        if opt = osTmrOptCallback then
          (w₁, w₁.fire ptmr (w₁.OSTmrTbl ptmr).OSTmrCallbackArg, true, missing)
        else if opt = osTmrOptCallbackArg then (w₁, w₁.fire ptmr callbackArg, true, missing)
        else if opt = osTmrOptNone then (w₁, [], true, .none)
        else (w₁, [], true, .invalidOpt)
      | .completed | .stopped => (w, [], true, .stopped)
      | .unused => (w, [], false, .inactive)

/-- `OSTmrRemainGet`. -/
def osTmrRemainGet (w : Tmrs) (intNesting : ℕ) : Option TmrId → BitVec 32 × TmrErr
  | none => (0, .invalid)
  | some ptmr =>
    let tmr := w.OSTmrTbl ptmr
    if 0 < intNesting then (0, .isr)
    else
      match tmr.OSTmrState with
      | .running => (tmr.OSTmrMatch - w.OSTmrTime, .none)
      | .stopped =>
        if tmr.OSTmrOpt = osTmrOptPeriodic ∧ tmr.OSTmrDly = 0 then (tmr.OSTmrPeriod, .none)
        else (tmr.OSTmrDly, .none)
      | .completed => (0, .none)
      | .unused => (0, .inactive)

/-- `OSTmr_Task` after a signal: the time goes on, and the loop starts. -/
def osTmrTaskSignal (w : Tmrs) : Tmrs :=
  let time := w.OSTmrTime + 1
  { w with OSTmrTime := time, cursor := some (w.OSTmrWheelTbl (spokeOf time)).OSTmrFirst }

/-- `OSTmr_Task` for a timer that is due, but for the callback. -/
def expire (w : Tmrs) (ptmr : TmrId) : Tmrs :=
  let w₁ := w.osTmrUnlink ptmr
  if (w₁.OSTmrTbl ptmr).OSTmrOpt = osTmrOptPeriodic then w₁.osTmrLink ptmr .periodic
  else w₁.modify ptmr fun tmr => { tmr with OSTmrState := .completed }

/-- `OSTmr_Task`: one turn of the loop, for the timer `ptmr`. -/
def osTmrTaskVisit (w : Tmrs) (ptmr : TmrId) : Tmrs × List Fired :=
  let next := (w.OSTmrTbl ptmr).OSTmrNext
  if w.OSTmrTime = (w.OSTmrTbl ptmr).OSTmrMatch then
    let w₁ := w.expire ptmr
    ({ w₁ with cursor := some next }, w₁.fire ptmr (w₁.OSTmrTbl ptmr).OSTmrCallbackArg)
  else ({ w with cursor := some next }, [])

/-- `OSTmr_Init`: the free list goes through the table in order. -/
def osTmrInit : Tmrs where
  OSTmrTbl t :=
    { OSTmrCallback := none
      OSTmrCallbackArg := 0
      OSTmrNext := if h : t.val + 1 < osTmrCfgMax then some ⟨t.val + 1, h⟩ else none
      OSTmrPrev := none
      OSTmrMatch := 0
      OSTmrDly := 0
      OSTmrPeriod := 0
      OSTmrOpt := 0
      OSTmrState := .unused }
  OSTmrWheelTbl _ := ⟨none, 0⟩
  OSTmrFreeList := some 0
  OSTmrUsed := 0
  OSTmrFree := 16
  OSTmrTime := 0
  cursor := none

end Tmrs

/-- A service, as a task, a callback or an interrupt calls it. -/
inductive TmrCall
  | create (dly period : BitVec 32) (opt : BitVec 8) (callback : Option ℕ) (arg : BitVec 32)
  | del (ptmr : Option TmrId)
  | start (ptmr : Option TmrId)
  | stop (ptmr : Option TmrId) (opt : BitVec 8) (arg : BitVec 32)

/-- What happens to the timers. -/
inductive TmrAct
  /-- A service is called, under `intNesting` interrupts. -/
  | call (intNesting : ℕ) (c : TmrCall)
  /-- The timer task gets the signal of a tick. -/
  | signal
  /-- The timer task takes a turn of its loop, or leaves it. -/
  | visit

namespace Tmrs

def exec (w : Tmrs) (intNesting : ℕ) : TmrCall → Tmrs
  | .create dly period opt callback arg =>
    (w.osTmrCreate intNesting dly period opt callback arg).1
  | .del ptmr => (w.osTmrDel intNesting ptmr).1
  | .start ptmr => (w.osTmrStart intNesting ptmr).1
  | .stop ptmr opt arg => (w.osTmrStop intNesting ptmr opt arg).1

def step (w : Tmrs) : TmrAct → Tmrs
  | .call intNesting c => w.exec intNesting c
  | .signal => w.osTmrTaskSignal
  | .visit =>
    match w.cursor with
    | some (some ptmr) => (w.osTmrTaskVisit ptmr).1
    | some none => { w with cursor := none }
    | none => w

/-- The callbacks called in a step. -/
def fired (w : Tmrs) : TmrAct → List Fired
  | .call intNesting (.stop ptmr opt arg) => (w.osTmrStop intNesting ptmr opt arg).2.1
  | .call _ _ => []
  | .signal => []
  | .visit =>
    match w.cursor with
    | some (some ptmr) => (w.osTmrTaskVisit ptmr).2
    | some none => []
    | none => []

end Tmrs

/-! ## What the operations write -/

/-- A timer without its links. -/
def OsTmr.body (tmr : OsTmr) : OsTmr := { tmr with OSTmrNext := none, OSTmrPrev := none }

/-- What `OSTmrCreate` sets. -/
def OsTmr.settings (tmr : OsTmr) : OsTmr :=
  { tmr.body with OSTmrMatch := 0, OSTmrState := .unused }

namespace Tmrs

/-- What the nodes of the lists store. -/
def links (w : Tmrs) : Links TmrId :=
  ⟨fun t => (w.OSTmrTbl t).OSTmrNext, fun t => (w.OSTmrTbl t).OSTmrPrev⟩

/-- The timers without their links. -/
def bodies (w : Tmrs) (t : TmrId) : OsTmr := (w.OSTmrTbl t).body

/-- The first timer of each list. -/
def firsts (w : Tmrs) (s : Spoke) : Option TmrId := (w.OSTmrWheelTbl s).OSTmrFirst

/-- The length each list is said to have. -/
def entries (w : Tmrs) (s : Spoke) : BitVec 16 := (w.OSTmrWheelTbl s).OSTmrEntries

/-- What the lists of the wheel do not need. -/
structure SameRest (w w' : Tmrs) : Prop where
  free : w'.OSTmrFreeList = w.OSTmrFreeList
  used : w'.OSTmrUsed = w.OSTmrUsed
  frees : w'.OSTmrFree = w.OSTmrFree
  time : w'.OSTmrTime = w.OSTmrTime
  cursor : w'.cursor = w.cursor

variable {w : Tmrs} {t u : TmrId} {s : Spoke} {p v : Option TmrId} {f : OsTmr → OsTmr}
  {l : TmrLink}

theorem tbl_modify :
    (w.modify t f).OSTmrTbl u = if u = t then f (w.OSTmrTbl t) else w.OSTmrTbl u :=
  Function.update_apply ..

theorem bodies_modify (same : ∀ tmr, (f tmr).body = (f tmr.body).body) :
    (w.modify t f).bodies = Function.update w.bodies t (f (w.bodies t)).body := by
  funext u
  rw [bodies, tbl_modify, Function.update_apply]
  split_ifs
  · exact same _
  · rfl

theorem links_modify (next : ∀ tmr, (f tmr).OSTmrNext = tmr.OSTmrNext)
    (prev : ∀ tmr, (f tmr).OSTmrPrev = tmr.OSTmrPrev) : (w.modify t f).links = w.links := by
  rw [links, links, Links.mk.injEq]
  constructor <;> funext u <;> rw [tbl_modify] <;> split_ifs with same
  · rw [next, same]
  · rfl
  · rw [prev, same]
  · rfl

theorem links_setNext :
    (w.setNext p v).links = { w.links with next := store w.links.next p v } := by
  cases p with
  | none => rfl
  | some t =>
      rw [setNext, links, Links.mk.injEq]
      constructor <;> funext u <;> rw [tbl_modify]
      · rw [store_some, Function.update_apply]
        split_ifs <;> rfl
      · split_ifs with same
        · rw [← same]
          rfl
        · rfl

theorem links_setPrev :
    (w.setPrev p v).links = { w.links with prev := store w.links.prev p v } := by
  cases p with
  | none => rfl
  | some t =>
      rw [setPrev, links, Links.mk.injEq]
      constructor <;> funext u <;> rw [tbl_modify]
      · split_ifs with same
        · rw [← same]
          rfl
        · rfl
      · rw [store_some, Function.update_apply]
        split_ifs <;> rfl

theorem bodies_setNext : (w.setNext p v).bodies = w.bodies := by
  cases p with
  | none => rfl
  | some t =>
      rw [setNext, bodies_modify fun _ => rfl]
      exact Function.update_eq_self_iff.mpr rfl

theorem bodies_setPrev : (w.setPrev p v).bodies = w.bodies := by
  cases p with
  | none => rfl
  | some t =>
      rw [setPrev, bodies_modify fun _ => rfl]
      exact Function.update_eq_self_iff.mpr rfl

@[simp] theorem wheel_setNext : (w.setNext p v).OSTmrWheelTbl = w.OSTmrWheelTbl := by
  cases p <;> rfl

@[simp] theorem wheel_setPrev : (w.setPrev p v).OSTmrWheelTbl = w.OSTmrWheelTbl := by
  cases p <;> rfl

theorem SameRest.trans {w' w'' : Tmrs} (h : SameRest w w') (h' : SameRest w' w'') :
    SameRest w w'' :=
  ⟨h'.free.trans h.free, h'.used.trans h.used, h'.frees.trans h.frees, h'.time.trans h.time,
    h'.cursor.trans h.cursor⟩

theorem sameRest_modify : SameRest w (w.modify t f) := ⟨rfl, rfl, rfl, rfl, rfl⟩

theorem sameRest_setSpoke {x : TmrWheel} : SameRest w (w.setSpoke s x) := ⟨rfl, rfl, rfl, rfl, rfl⟩

theorem sameRest_setNext : SameRest w (w.setNext p v) := by
  cases p <;> exact ⟨rfl, rfl, rfl, rfl, rfl⟩

theorem sameRest_setPrev : SameRest w (w.setPrev p v) := by
  cases p <;> exact ⟨rfl, rfl, rfl, rfl, rfl⟩

/-- The timer put before the first one of its spoke. -/
theorem links_osTmrLink :
    (w.osTmrLink t l).links = w.links.push (w.firsts (spokeOf (w.due t l))) t := by
  have same (x : TmrWheel) : ((w.modify t fun tmr =>
      { tmr with OSTmrState := .running, OSTmrMatch := w.due t l }).setSpoke
        (spokeOf (w.due t l)) x).links = w.links :=
    links_modify (t := t) (f := fun tmr =>
      { tmr with OSTmrState := .running, OSTmrMatch := w.due t l }) (fun _ => rfl) fun _ => rfl
  rw [osTmrLink]
  split
  case h_1 empty =>
    rw [links_setPrev, links_setNext, same, firsts, empty]
    rfl
  case h_2 ptmr1 first =>
    rw [links_setPrev, links_setPrev, links_setNext, same, firsts, first]
    rfl

theorem bodies_osTmrLink :
    (w.osTmrLink t l).bodies = Function.update w.bodies t
      { w.bodies t with OSTmrState := .running, OSTmrMatch := w.due t l } := by
  have body : (w.modify t fun tmr =>
      { tmr with OSTmrState := .running, OSTmrMatch := w.due t l }).bodies =
      Function.update w.bodies t
        { w.bodies t with OSTmrState := .running, OSTmrMatch := w.due t l } :=
    bodies_modify fun _ => rfl
  rw [osTmrLink]
  simp only
  split
  · rw [bodies_setPrev, bodies_setNext]
    exact body
  · rw [bodies_setPrev, bodies_setPrev, bodies_setNext]
    exact body

theorem wheel_osTmrLink :
    (w.osTmrLink t l).OSTmrWheelTbl = Function.update w.OSTmrWheelTbl (spokeOf (w.due t l))
      ⟨some t, if w.firsts (spokeOf (w.due t l)) = none then 1
        else w.entries (spokeOf (w.due t l)) + 1⟩ := by
  rw [osTmrLink]
  split
  case h_1 empty =>
    rw [wheel_setPrev, wheel_setNext, firsts, if_pos empty]
    rfl
  case h_2 ptmr1 first =>
    rw [wheel_setPrev, wheel_setPrev, wheel_setNext, firsts, if_neg (by simp [first])]
    rfl

theorem sameRest_osTmrLink : SameRest w (w.osTmrLink t l) := by
  rw [osTmrLink]
  split
  · exact sameRest_modify.trans (sameRest_setSpoke.trans (sameRest_setNext.trans sameRest_setPrev))
  · exact sameRest_modify.trans (sameRest_setSpoke.trans (sameRest_setNext.trans
      (sameRest_setPrev.trans sameRest_setPrev)))

/-- The neighbours of a timer joined. -/
theorem links_osTmrUnlink :
    (w.osTmrUnlink t).links =
      w.links.unlink (w.firsts (spokeOf (w.OSTmrTbl t).OSTmrMatch)) t := by
  have out (w' : Tmrs) : (w'.modify t fun tmr =>
      { tmr with OSTmrState := .stopped, OSTmrNext := none, OSTmrPrev := none }).links =
      ⟨Function.update w'.links.next t none, Function.update w'.links.prev t none⟩ := by
    rw [links, Links.mk.injEq]
    constructor <;> funext u <;> rw [tbl_modify, Function.update_apply] <;> split_ifs <;> rfl
  rw [osTmrUnlink]
  simp only
  rw [out, Links.unlink, Links.before, Links.mk.injEq]
  split_ifs with first first' first'
  · rw [links_setPrev]
    exact ⟨rfl, rfl⟩
  · exact absurd first first'
  · exact absurd first' first
  · rw [links_setPrev, links_setNext]
    exact ⟨rfl, rfl⟩

theorem bodies_osTmrUnlink :
    (w.osTmrUnlink t).bodies =
      Function.update w.bodies t { w.bodies t with OSTmrState := .stopped } := by
  rw [osTmrUnlink]
  simp only
  rw [bodies_modify fun _ => rfl]
  split_ifs
  · rw [bodies_setPrev]
    rfl
  · rw [bodies_setPrev, bodies_setNext]
    rfl

theorem wheel_osTmrUnlink :
    (w.osTmrUnlink t).OSTmrWheelTbl =
      Function.update w.OSTmrWheelTbl (spokeOf (w.OSTmrTbl t).OSTmrMatch)
        ⟨w.links.firstWithout (w.firsts (spokeOf (w.OSTmrTbl t).OSTmrMatch)) t,
          w.entries (spokeOf (w.OSTmrTbl t).OSTmrMatch) - 1⟩ := by
  rw [osTmrUnlink, Links.firstWithout]
  simp only
  split_ifs with first first' first'
  · exact wheel_setPrev
  · exact absurd first first'
  · exact absurd first' first
  · exact wheel_setPrev.trans wheel_setNext

theorem sameRest_osTmrUnlink : SameRest w (w.osTmrUnlink t) := by
  rw [osTmrUnlink]
  simp only
  split_ifs
  · exact (sameRest_setSpoke.trans sameRest_setPrev).trans sameRest_modify
  · exact (sameRest_setSpoke.trans (sameRest_setNext.trans sameRest_setPrev)).trans sameRest_modify

theorem firsts_osTmrLink :
    (w.osTmrLink t l).firsts =
      Function.update w.firsts (spokeOf (w.due t l)) (some t) := by
  funext s
  rw [firsts, wheel_osTmrLink, Function.update_apply, Function.update_apply]
  split_ifs <;> rfl

theorem entries_osTmrLink :
    (w.osTmrLink t l).entries = Function.update w.entries (spokeOf (w.due t l))
      (if w.firsts (spokeOf (w.due t l)) = none then 1
        else w.entries (spokeOf (w.due t l)) + 1) := by
  funext s
  rw [entries, wheel_osTmrLink, Function.update_apply, Function.update_apply]
  split_ifs <;> rfl

theorem firsts_osTmrUnlink :
    (w.osTmrUnlink t).firsts =
      Function.update w.firsts (spokeOf (w.OSTmrTbl t).OSTmrMatch)
        (w.links.firstWithout (w.firsts (spokeOf (w.OSTmrTbl t).OSTmrMatch)) t) := by
  funext s
  rw [firsts, wheel_osTmrUnlink, Function.update_apply, Function.update_apply]
  split_ifs <;> rfl

theorem entries_osTmrUnlink :
    (w.osTmrUnlink t).entries =
      Function.update w.entries (spokeOf (w.OSTmrTbl t).OSTmrMatch)
        (w.entries (spokeOf (w.OSTmrTbl t).OSTmrMatch) - 1) := by
  funext s
  rw [entries, wheel_osTmrUnlink, Function.update_apply, Function.update_apply]
  split_ifs <;> rfl

/-- A timer linked into its spoke. -/
theorem body_osTmrLink :
    ((w.osTmrLink t l).OSTmrTbl u).body =
      if u = t then { w.bodies t with OSTmrState := .running, OSTmrMatch := w.due t l }
      else (w.OSTmrTbl u).body :=
  (congrFun bodies_osTmrLink u).trans (Function.update_apply ..)

/-- A timer taken out of its spoke. -/
theorem body_osTmrUnlink :
    ((w.osTmrUnlink t).OSTmrTbl u).body =
      if u = t then { w.bodies t with OSTmrState := .stopped } else (w.OSTmrTbl u).body :=
  (congrFun bodies_osTmrUnlink u).trans (Function.update_apply ..)

theorem state_osTmrLink :
    ((w.osTmrLink t l).OSTmrTbl u).OSTmrState =
      if u = t then .running else (w.OSTmrTbl u).OSTmrState := by
  have body := congrArg OsTmr.OSTmrState (body_osTmrLink (w := w) (t := t) (u := u) (l := l))
  rwa [apply_ite OsTmr.OSTmrState] at body

theorem match_osTmrLink :
    ((w.osTmrLink t l).OSTmrTbl u).OSTmrMatch =
      if u = t then w.due t l else (w.OSTmrTbl u).OSTmrMatch := by
  have body := congrArg OsTmr.OSTmrMatch (body_osTmrLink (w := w) (t := t) (u := u) (l := l))
  rwa [apply_ite OsTmr.OSTmrMatch] at body

theorem settings_osTmrLink :
    ((w.osTmrLink t l).OSTmrTbl u).settings = (w.OSTmrTbl u).settings := by
  rw [OsTmr.settings, body_osTmrLink]
  split_ifs with same
  · rw [same]
    rfl
  · rfl

theorem state_osTmrUnlink :
    ((w.osTmrUnlink t).OSTmrTbl u).OSTmrState =
      if u = t then .stopped else (w.OSTmrTbl u).OSTmrState := by
  have body := congrArg OsTmr.OSTmrState (body_osTmrUnlink (w := w) (t := t) (u := u))
  rwa [apply_ite OsTmr.OSTmrState] at body

theorem match_osTmrUnlink :
    ((w.osTmrUnlink t).OSTmrTbl u).OSTmrMatch = (w.OSTmrTbl u).OSTmrMatch := by
  have body := congrArg OsTmr.OSTmrMatch (body_osTmrUnlink (w := w) (t := t) (u := u))
  rw [apply_ite OsTmr.OSTmrMatch] at body
  refine body.trans ?_
  split_ifs with same
  · rw [same]
    rfl
  · rfl

theorem settings_osTmrUnlink :
    ((w.osTmrUnlink t).OSTmrTbl u).settings = (w.OSTmrTbl u).settings := by
  rw [OsTmr.settings, body_osTmrUnlink]
  split_ifs with same
  · rw [same]
    rfl
  · rfl

end Tmrs

end Ucos

end CannonCar
