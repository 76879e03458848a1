import CannonCar.Ucos.Timers

/-!
# The wheel of timers

`Wheel w spokes frees ahead` says what the pointers and counters of the timer manager mean:
`spokes` are the lists of the wheel and `frees` is the free list, a timer is in the list of
the spoke its `OSTmrMatch` has if and only if it runs, and on the free list if and only if it
is not in use.  `ahead` are the timers the loop of the timer task still has before it; a
timer that is due now is one of them, so between two ticks none is.

The services and the turns of the loop keep this (`Sound.step`), provided that a callback
does not stop, start or delete the timer the loop goes to next: the loop has read the pointer
to that timer already.

## What is load-bearing

**`Careful` is on the state before the call.**  It asks of a callback that it leaves the timer alone
which `cursor` names: the loop has read the pointer to it before the callback, and goes there
whatever has become of it.

**`ahead` is what makes timers punctual.**  That a timer due now is before the loop is an
invariant of the lists, and `Alarms` counts ticks from it.

**Lists do not mix.**  The spokes and the free list are one `Family` of
`Foundation.LinkedList`, so that a change in one of them leaves the others by a rule and not by
an argument for each function.
-/

namespace CannonCar

namespace Ucos

open LinkedList Trajectory

/-- What `OSTmrCreate` has checked: the timer waits for at least one tick. -/
def OsTmr.Waits (tmr : OsTmr) : Prop :=
  tmr.OSTmrOpt = osTmrOptPeriodic ∧ tmr.OSTmrPeriod ≠ 0 ∨
    tmr.OSTmrOpt = osTmrOptOneShot ∧ tmr.OSTmrDly ≠ 0

theorem OsTmr.Waits.congr {tmr tmr' : OsTmr} (h : tmr.Waits) (same : tmr'.settings = tmr.settings) :
    tmr'.Waits := by
  have opt : tmr'.OSTmrOpt = tmr.OSTmrOpt := (OsTmr.mk.inj same).2.2.2.2.2.2.2.1
  have period : tmr'.OSTmrPeriod = tmr.OSTmrPeriod := (OsTmr.mk.inj same).2.2.2.2.2.2.1
  have dly : tmr'.OSTmrDly = tmr.OSTmrDly := (OsTmr.mk.inj same).2.2.2.2.2.1
  rwa [Waits, opt, period, dly]

theorem osTmrOptOneShot_ne : osTmrOptOneShot ≠ osTmrOptPeriodic := by decide

/-- A timer that waits is linked at another time than now. -/
theorem OsTmr.Waits.delay_ne {tmr : OsTmr} (h : tmr.Waits) {l : TmrLink}
    (periodic : l = .periodic → tmr.OSTmrOpt = osTmrOptPeriodic) : Tmrs.delay tmr l ≠ 0 := by
  cases l with
  | periodic =>
      rcases h with ⟨-, period⟩ | ⟨oneShot, -⟩
      · exact period
      · exact absurd (oneShot.symm.trans (periodic rfl)) osTmrOptOneShot_ne
  | dly =>
      rw [Tmrs.delay]
      split_ifs with zero
      · rcases h with ⟨-, period⟩ | ⟨-, dly⟩
        · exact period
        · exact absurd zero dly
      · exact zero

/-- What the pointers and the counters mean. -/
structure Wheel (w : Tmrs) (spokes : Spoke → List TmrId) (frees ahead : List TmrId) : Prop where
  lists : Family w.links w.firsts spokes
  placed : ∀ t s, t ∈ spokes s ↔
    (w.OSTmrTbl t).OSTmrState = .running ∧ spokeOf (w.OSTmrTbl t).OSTmrMatch = s
  entries : ∀ s, w.entries s = BitVec.ofNat 16 (spokes s).length
  free : Seg w.links.next w.OSTmrFreeList frees none
  unused : ∀ t, t ∈ frees ↔ (w.OSTmrTbl t).OSTmrState = .unused
  count : w.OSTmrFree = BitVec.ofNat 16 frees.length
  used : w.OSTmrUsed + w.OSTmrFree = 16
  waits : ∀ t, (w.OSTmrTbl t).OSTmrState ≠ .unused → (w.OSTmrTbl t).Waits
  suffix : ahead <:+ spokes (spokeOf w.OSTmrTime)
  due : ∀ t, (w.OSTmrTbl t).OSTmrState = .running → (w.OSTmrTbl t).OSTmrMatch = w.OSTmrTime →
    t ∈ ahead

namespace Wheel

variable {w w' : Tmrs} {t u : TmrId} {l : TmrLink} {spokes : Spoke → List TmrId}
  {frees ahead rest : List TmrId}

theorem nodup (h : Wheel w spokes frees ahead) (s : Spoke) : (spokes s).Nodup :=
  (h.lists.doubly s).nodup

theorem out_of_spokes (h : Wheel w spokes frees ahead)
    (idle : (w.OSTmrTbl t).OSTmrState ≠ .running) (s : Spoke) : t ∉ spokes s :=
  fun mem => idle ((h.placed t s).mp mem).1

theorem running_of_ahead (h : Wheel w spokes frees ahead) (mem : t ∈ ahead) :
    (w.OSTmrTbl t).OSTmrState = .running :=
  ((h.placed t _).mp (h.suffix.mem mem)).1

theorem out_of_frees (h : Wheel w spokes frees ahead)
    (inUse : (w.OSTmrTbl t).OSTmrState ≠ .unused) (mem : u ∈ frees) : u ≠ t := by
  rintro rfl
  exact inUse ((h.unused u).mp mem)

/-- **A timer started**, that was not running. -/
theorem link (h : Wheel w spokes frees ahead) (idle : (w.OSTmrTbl t).OSTmrState ≠ .running)
    (inUse : (w.OSTmrTbl t).OSTmrState ≠ .unused)
    (periodic : l = .periodic → (w.OSTmrTbl t).OSTmrOpt = osTmrOptPeriodic) :
    Wheel (w.osTmrLink t l) (Function.update spokes (spokeOf (w.due t l))
      (t :: spokes (spokeOf (w.due t l)))) frees ahead := by
  have fresh := h.out_of_spokes idle
  have rest : Tmrs.SameRest w (w.osTmrLink t l) := Tmrs.sameRest_osTmrLink
  constructor
  case lists =>
    rw [Tmrs.links_osTmrLink, Tmrs.firsts_osTmrLink]
    exact h.lists.push fresh _
  case placed =>
    intro u s
    rw [Tmrs.state_osTmrLink, Tmrs.match_osTmrLink, Function.update_apply]
    split_ifs with here same same
    · simp [here, same]
    · simp [here, same, h.placed u]
    · rw [same]
      exact iff_of_false (fresh s) fun there => here there.2.symm
    · exact h.placed u s
  case entries =>
    intro s
    rw [Tmrs.entries_osTmrLink, Function.update_apply, Function.update_apply]
    split_ifs with here empty
    · rw [(h.lists.doubly _).head, List.head?_eq_none_iff] at empty
      rw [empty]
      rfl
    · rw [h.entries, List.length_cons, BitVec.ofNat_add]
      rfl
    · exact h.entries s
  case free =>
    rw [rest.free, Tmrs.links_osTmrLink]
    exact h.free.congr fun u mem => Links.push_next_of_ne (h.out_of_frees inUse mem)
  case unused =>
    intro u
    rw [Tmrs.state_osTmrLink]
    split_ifs with same
    · exact iff_of_false (fun mem => h.out_of_frees inUse mem same) (by simp)
    · exact h.unused u
  case count => exact rest.frees.trans h.count
  case used =>
    rw [rest.frees, rest.used]
    exact h.used
  case waits =>
    intro u inUse'
    refine OsTmr.Waits.congr ?_ Tmrs.settings_osTmrLink
    rw [Tmrs.state_osTmrLink] at inUse'
    split_ifs at inUse' with same
    · rw [same]
      exact h.waits t inUse
    · exact h.waits u inUse'
  case suffix =>
    rw [rest.time, Function.update_apply]
    split_ifs with here
    · rw [← here]
      exact h.suffix.trans (List.suffix_cons t _)
    · exact h.suffix
  case due =>
    intro u running now
    rw [Tmrs.state_osTmrLink] at running
    rw [Tmrs.match_osTmrLink, rest.time] at now
    split_ifs at running now with same
    · -- the delay is not zero
      rw [Tmrs.due] at now
      exact absurd (by simpa using now) ((h.waits t inUse).delay_ne periodic)
    · exact h.due u running now

/-- **A timer stopped**, that was running. -/
theorem unlink (h : Wheel w spokes frees ahead) (running : (w.OSTmrTbl t).OSTmrState = .running) :
    Wheel (w.osTmrUnlink t) (Function.update spokes (spokeOf (w.OSTmrTbl t).OSTmrMatch)
      ((spokes (spokeOf (w.OSTmrTbl t).OSTmrMatch)).erase t)) frees (ahead.erase t) := by
  have mem : t ∈ spokes (spokeOf (w.OSTmrTbl t).OSTmrMatch) := (h.placed t _).mpr ⟨running, rfl⟩
  have inUse : (w.OSTmrTbl t).OSTmrState ≠ .unused := by simp [running]
  have rest : Tmrs.SameRest w (w.osTmrUnlink t) := Tmrs.sameRest_osTmrUnlink
  constructor
  case lists =>
    rw [Tmrs.links_osTmrUnlink, Tmrs.firsts_osTmrUnlink]
    exact h.lists.unlink mem
  case placed =>
    intro u s
    rw [Tmrs.state_osTmrUnlink, Tmrs.match_osTmrUnlink, Function.update_apply]
    split_ifs with here same same
    · rw [same]
      exact iff_of_false (h.nodup _).not_mem_erase (by simp)
    · rw [List.mem_erase_of_ne same, ← here]
      exact h.placed u s
    · rw [same]
      exact iff_of_false (fun there => here ((h.placed t s).mp there).2.symm) (by simp)
    · exact h.placed u s
  case entries =>
    intro s
    rw [Tmrs.entries_osTmrUnlink, Function.update_apply, Function.update_apply]
    split_ifs with here
    · obtain ⟨n, length⟩ := Nat.exists_eq_succ_of_ne_zero (List.length_pos_of_mem mem).ne'
      rw [h.entries, List.length_erase_of_mem mem, length, Nat.succ_eq_add_one, BitVec.ofNat_add]
      exact add_sub_cancel_right _ _
    · exact h.entries s
  case free =>
    rw [rest.free, Tmrs.links_osTmrUnlink]
    refine h.free.congr fun u free => ?_
    have other := h.out_of_frees inUse free
    rw [Links.unlink_next_of_ne other, store_of_ne]
    obtain ⟨front, back, split⟩ := List.append_of_mem mem
    have list := h.lists.doubly (spokeOf (w.OSTmrTbl t).OSTmrMatch)
    rw [split] at list
    rw [list.before_eq]
    -- the timer before it runs, so it is not on the free list
    intro last
    have there : u ∈ spokes (spokeOf (w.OSTmrTbl t).OSTmrMatch) := by
      rw [split]
      exact List.mem_append_left _ (List.mem_of_getLast? last)
    have state := ((h.placed u _).mp there).1
    rw [(h.unused u).mp free] at state
    exact absurd state (by simp)
  case unused =>
    intro u
    rw [Tmrs.state_osTmrUnlink]
    split_ifs with same
    · exact iff_of_false (fun free => h.out_of_frees inUse free same) (by simp)
    · exact h.unused u
  case count => exact rest.frees.trans h.count
  case used =>
    rw [rest.frees, rest.used]
    exact h.used
  case waits =>
    intro u inUse'
    refine OsTmr.Waits.congr ?_ Tmrs.settings_osTmrUnlink
    rw [Tmrs.state_osTmrUnlink] at inUse'
    split_ifs at inUse' with same
    · rw [same]
      exact h.waits t inUse
    · exact h.waits u inUse'
  case suffix =>
    -- no timer is twice in a list, so to erase it is to filter it out
    have nodup := h.nodup (spokeOf w.OSTmrTime)
    rw [rest.time, Function.update_apply]
    split_ifs with here
    · rw [← here, nodup.erase_eq_filter, (nodup.sublist h.suffix.sublist).erase_eq_filter]
      exact h.suffix.filter _
    · have notAhead : t ∉ ahead := fun mem' => here ((h.placed t _).mp (h.suffix.mem mem')).2.symm
      rw [List.erase_of_not_mem notAhead]
      exact h.suffix
  case due =>
    intro u running' now
    rw [Tmrs.state_osTmrUnlink] at running'
    rw [Tmrs.match_osTmrUnlink, rest.time] at now
    split_ifs at running' with same
    exact (List.mem_erase_of_ne same).mpr (h.due u running' now)

/-- A change of a timer that does not run before and after it, and of the free list. -/
theorem replace (h : Wheel w spokes frees ahead) (idle : (w.OSTmrTbl t).OSTmrState ≠ .running)
    (other : ∀ u, u ≠ t → w'.OSTmrTbl u = w.OSTmrTbl u)
    (idle' : (w'.OSTmrTbl t).OSTmrState ≠ .running)
    (waits : (w'.OSTmrTbl t).OSTmrState ≠ .unused → (w'.OSTmrTbl t).Waits)
    (firsts : w'.firsts = w.firsts) (entries : w'.entries = w.entries)
    (time : w'.OSTmrTime = w.OSTmrTime) (free : Seg w'.links.next w'.OSTmrFreeList rest none)
    (frees_ : ∀ u, u ≠ t → (u ∈ rest ↔ u ∈ frees))
    (here : t ∈ rest ↔ (w'.OSTmrTbl t).OSTmrState = .unused)
    (count : w'.OSTmrFree = BitVec.ofNat 16 rest.length)
    (used : w'.OSTmrUsed + w'.OSTmrFree = w.OSTmrUsed + w.OSTmrFree) :
    Wheel w' spokes rest ahead := by
  have fresh := h.out_of_spokes idle
  have away {u : TmrId} {s : Spoke} (mem : u ∈ spokes s) : u ≠ t := fun same => fresh s (same ▸ mem)
  constructor
  case lists =>
    rw [firsts]
    exact h.lists.congr (fun s u mem => congrArg OsTmr.OSTmrNext (other u (away mem)))
      fun s u mem => congrArg OsTmr.OSTmrPrev (other u (away mem))
  case placed =>
    intro u s
    rcases eq_or_ne u t with rfl | ne
    · exact iff_of_false (fresh s) fun there => idle' there.1
    · rw [other u ne]
      exact h.placed u s
  case entries =>
    rw [entries]
    exact h.entries
  case free => exact free
  case unused =>
    intro u
    rcases eq_or_ne u t with rfl | ne
    · exact here
    · rw [other u ne, frees_ u ne]
      exact h.unused u
  case count => exact count
  case used => exact used.trans h.used
  case waits =>
    intro u inUse
    rcases eq_or_ne u t with rfl | ne
    · exact waits inUse
    · rw [other u ne] at inUse ⊢
      exact h.waits u inUse
  case suffix =>
    rw [time]
    exact h.suffix
  case due =>
    intro u running now
    rcases eq_or_ne u t with rfl | ne
    · exact absurd running idle'
    · rw [other u ne] at running now
      exact h.due u running (now.trans time)

/-- **A timer given back**, that was not running. -/
theorem release (h : Wheel w spokes frees ahead) (idle : (w.OSTmrTbl t).OSTmrState ≠ .running)
    (inUse : (w.OSTmrTbl t).OSTmrState ≠ .unused) :
    Wheel (w.osTmrFree t) spokes (t :: frees) ahead := by
  have other (u : TmrId) (ne : u ≠ t) : (w.osTmrFree t).OSTmrTbl u = w.OSTmrTbl u :=
    Function.update_of_ne ne _ _
  have here : (w.osTmrFree t).OSTmrTbl t = _ := Function.update_self ..
  have state : ((w.osTmrFree t).OSTmrTbl t).OSTmrState = .unused := by rw [here]
  have next : (w.osTmrFree t).links.next t = w.OSTmrFreeList := congrArg OsTmr.OSTmrNext here
  have sum : w.OSTmrUsed - 1 + (w.OSTmrFree + 1) = w.OSTmrUsed + w.OSTmrFree := by ring
  refine h.replace idle other (by simp [state]) (fun inUse' => absurd state inUse') rfl rfl rfl ?_
    (fun u ne => by rw [List.mem_cons, or_iff_right ne]) (by simp [state]) ?_ sum
  · refine ⟨rfl, ?_⟩
    rw [next]
    exact h.free.congr fun u mem => congrArg OsTmr.OSTmrNext (other u (h.out_of_frees inUse mem))
  · rw [List.length_cons, BitVec.ofNat_add, ← h.count]
    rfl

theorem waits_of_createErr {dly period : BitVec 32} {opt : BitVec 8} {tmr : OsTmr}
    (ok : Tmrs.createErr dly period opt = .none) (opt_ : tmr.OSTmrOpt = opt)
    (dly_ : tmr.OSTmrDly = dly) (period_ : tmr.OSTmrPeriod = period) : tmr.Waits := by
  rw [Tmrs.createErr] at ok
  rw [OsTmr.Waits, opt_, dly_, period_]
  split_ifs at ok with periodic zero oneShot zero
  · exact Or.inl ⟨periodic, zero⟩
  · exact Or.inr ⟨oneShot, zero⟩

/-- The timer manager with the timer `t` taken from the free list and set up. -/
def created (w : Tmrs) (t : TmrId) (dly period : BitVec 32) (opt : BitVec 8)
    (callback : Option ℕ) (arg : BitVec 32) : Tmrs :=
  { w with
    OSTmrTbl := Function.update w.OSTmrTbl t
      { OSTmrCallback := callback
        OSTmrCallbackArg := arg
        OSTmrNext := none
        OSTmrPrev := none
        OSTmrMatch := (w.OSTmrTbl t).OSTmrMatch
        OSTmrDly := dly
        OSTmrPeriod := period
        OSTmrOpt := opt
        OSTmrState := .stopped }
    OSTmrFreeList := (w.OSTmrTbl t).OSTmrNext
    OSTmrUsed := w.OSTmrUsed + 1
    OSTmrFree := w.OSTmrFree - 1 }

/-- **A timer created**: it is the first of the free list. -/
theorem create (h : Wheel w spokes (t :: rest) ahead) {dly period : BitVec 32} {opt : BitVec 8}
    {callback : Option ℕ} {arg : BitVec 32} (ok : Tmrs.createErr dly period opt = .none) :
    Wheel (created w t dly period opt callback arg) spokes rest ahead := by
  have unused : (w.OSTmrTbl t).OSTmrState = .unused := (h.unused t).mp List.mem_cons_self
  set w' := created w t dly period opt callback arg with made
  have other (u : TmrId) (ne : u ≠ t) : w'.OSTmrTbl u = w.OSTmrTbl u :=
    Function.update_of_ne ne _ _
  have here : w'.OSTmrTbl t = _ := Function.update_self ..
  have nodup := List.nodup_cons.mp h.free.nodup
  have sum : w.OSTmrUsed + 1 + (w.OSTmrFree - 1) = w.OSTmrUsed + w.OSTmrFree := by ring
  refine h.replace (by simp [unused]) other (by simp [here]) (fun _ => ?_) rfl rfl rfl ?_
    (fun u ne => by rw [List.mem_cons, or_iff_right ne]) (iff_of_false nodup.1 (by simp [here])) ?_
    sum
  · rw [here]
    exact waits_of_createErr ok rfl rfl rfl
  · refine h.free.2.congr fun u mem => congrArg OsTmr.OSTmrNext (other u ?_)
    exact fun same => nodup.1 (same ▸ mem)
  · have count := h.count
    rw [List.length_cons, BitVec.ofNat_add] at count
    have less : w'.OSTmrFree = w.OSTmrFree - 1 := rfl
    rw [less, count]
    exact add_sub_cancel_right _ _

/-- **A one-shot timer that has been due.** -/
theorem complete (h : Wheel w spokes frees ahead) (idle : (w.OSTmrTbl t).OSTmrState ≠ .running)
    (inUse : (w.OSTmrTbl t).OSTmrState ≠ .unused) :
    Wheel (w.modify t fun tmr => { tmr with OSTmrState := .completed }) spokes frees ahead := by
  set w' := w.modify t fun tmr => { tmr with OSTmrState := .completed } with made
  have links : w'.links = w.links := Tmrs.links_modify (fun _ => rfl) fun _ => rfl
  have other (u : TmrId) (ne : u ≠ t) : w'.OSTmrTbl u = w.OSTmrTbl u :=
    Function.update_of_ne ne _ _
  have here : w'.OSTmrTbl t = { w.OSTmrTbl t with OSTmrState := .completed } :=
    Function.update_self ..
  refine h.replace idle other (by simp [here]) (fun _ => ?_) rfl rfl rfl (links ▸ h.free)
    (fun _ _ => Iff.rfl) ?_ h.count rfl
  · exact (h.waits t inUse).congr (by rw [here]; rfl)
  · exact iff_of_false (fun mem => h.out_of_frees inUse mem rfl) (by simp [here])

/-- **A tick**, when the loop is through: all the timers of the new time are ahead. -/
theorem signal (h : Wheel w spokes frees []) :
    Wheel w.osTmrTaskSignal spokes frees (spokes (spokeOf (w.OSTmrTime + 1))) where
  lists := h.lists
  placed := h.placed
  entries := h.entries
  free := h.free
  unused := h.unused
  count := h.count
  used := h.used
  waits := h.waits
  suffix := List.suffix_rfl
  due t running now := (h.placed t _).mpr ⟨running, congrArg spokeOf now⟩

/-- The loop passes a timer that is not due. -/
theorem pass (h : Wheel w spokes frees (t :: rest))
    (early : (w.OSTmrTbl t).OSTmrMatch ≠ w.OSTmrTime) (p : Option (Option TmrId)) :
    Wheel { w with cursor := p } spokes frees rest where
  lists := h.lists
  placed := h.placed
  entries := h.entries
  free := h.free
  unused := h.unused
  count := h.count
  used := h.used
  waits := h.waits
  suffix := (List.suffix_cons t rest).trans h.suffix
  due u running now := by
    rcases List.mem_cons.mp (h.due u running now) with rfl | mem
    · exact absurd now early
    · exact mem

/-- `cursor` is no part of what the pointers mean. -/
theorem setCursor (h : Wheel w spokes frees ahead) (p : Option (Option TmrId)) :
    Wheel { w with cursor := p } spokes frees ahead := by
  cases h
  constructor <;> assumption

end Wheel

/-! ## The services and the loop -/

/-- The timer that a service is about. -/
def TmrCall.target : TmrCall → Option TmrId
  | .create _ _ _ _ _ => none
  | .del ptmr => ptmr
  | .start ptmr => ptmr
  | .stop ptmr _ _ => ptmr

namespace Tmrs

variable {w w' : Tmrs} {t u : TmrId} {spokes : Spoke → List TmrId} {frees ahead : List TmrId}

/-- A signal is taken up when the loop is through, and a callback does not stop, start or
delete the timer that the loop goes to next. -/
def Careful (w : Tmrs) : TmrAct → Prop
  | .call intNesting c => intNesting = 0 → ∀ t, w.cursor = some (some t) → c.target ≠ some t
  | .signal => w.cursor = none
  | .visit => w.cursor ≠ none

instance (w : Tmrs) : DecidablePred w.Careful
  | .call intNesting c => by unfold Careful; infer_instance
  | .signal => inferInstanceAs (Decidable (w.cursor = none))
  | .visit => inferInstanceAs (Decidable (w.cursor ≠ none))

/-- The loop stands at the first of the timers it has before it. -/
def At (w : Tmrs) (ahead : List TmrId) : Prop :=
  w.cursor = none ∧ ahead = [] ∨ w.cursor = some ahead.head?

/-- The lists are well linked, and each timer is where its state says. -/
def Sound (w : Tmrs) : Prop := ∃ spokes frees ahead, Wheel w spokes frees ahead ∧ w.At ahead

/-- Another timer than the next one leaves the list. -/
theorem At.erase (at_ : w.At ahead) (cursor : w'.cursor = w.cursor)
    (careful : ∀ u, w.cursor = some (some u) → some t ≠ some u) : w'.At (ahead.erase t) := by
  rw [At, cursor]
  refine at_.imp (fun ⟨idle, through⟩ => ⟨idle, by rw [through]; rfl⟩) fun next => ?_
  cases ahead with
  | nil => exact next
  | cons u ahead =>
      have other : u ≠ t := fun same => careful u next (congrArg some same.symm)
      rw [List.erase_cons_tail (by simpa using other)]
      exact next

theorem At.of_cursor (at_ : w.At ahead) (cursor : w'.cursor = w.cursor) : w'.At ahead := by
  rwa [At, cursor]

theorem osTmrCreate_cases (h : Wheel w spokes frees ahead) (intNesting : ℕ)
    (dly period : BitVec 32) (opt : BitVec 8) (callback : Option ℕ) (arg : BitVec 32) :
    (∃ e, w.osTmrCreate intNesting dly period opt callback arg = (w, none, e) ∧ e ≠ .none) ∨
      ∃ t rest, frees = t :: rest ∧ createErr dly period opt = .none ∧
        w.osTmrCreate intNesting dly period opt callback arg =
          (Wheel.created w t dly period opt callback arg, some t, .none) := by
  rw [osTmrCreate]
  split_ifs with bad nested
  · exact Or.inl ⟨_, rfl, bad⟩
  · exact Or.inl ⟨_, rfl, by simp⟩
  · rw [osTmrAlloc]
    cases frees with
    | nil =>
        rw [show w.OSTmrFreeList = none from h.free]
        exact Or.inl ⟨_, rfl, by simp⟩
    | cons t rest =>
        rw [show w.OSTmrFreeList = some t from h.free.1]
        refine Or.inr ⟨t, rest, rfl, not_not.mp bad, ?_⟩
        simp [Wheel.created, modify]

/-- The timer out of the wheel. -/
def halt (w : Tmrs) (t : TmrId) : Tmrs :=
  if (w.OSTmrTbl t).OSTmrState = .running then w.osTmrUnlink t else w

theorem osTmrDel_eq (inUse : (w.OSTmrTbl t).OSTmrState ≠ .unused) :
    (w.osTmrDel 0 (some t)).1 = (w.halt t).osTmrFree t := by
  rw [osTmrDel, if_neg (lt_irrefl 0)]
  rcases state : (w.OSTmrTbl t).OSTmrState
  · exact absurd state inUse
  all_goals simp [halt, state]

theorem osTmrStart_eq (inUse : (w.OSTmrTbl t).OSTmrState ≠ .unused) :
    (w.osTmrStart 0 (some t)).1 = (w.halt t).osTmrLink t .dly := by
  rw [osTmrStart, if_neg (lt_irrefl 0)]
  rcases state : (w.OSTmrTbl t).OSTmrState
  · exact absurd state inUse
  all_goals simp [halt, state]

theorem osTmrStop_eq (inUse : (w.OSTmrTbl t).OSTmrState ≠ .unused) (opt : BitVec 8)
    (arg : BitVec 32) : (w.osTmrStop 0 (some t) opt arg).1 = w.halt t := by
  rw [osTmrStop, if_neg (lt_irrefl 0)]
  rcases state : (w.OSTmrTbl t).OSTmrState
  case running =>
    rw [halt, if_pos state]
    simp only
    split_ifs <;> rfl
  case unused => exact absurd state inUse
  all_goals simp [halt, state]

/-- A service that looks at the timer it is given, `f`, does so in a task and if the timer is in
use. -/
theorem asked_cases {f : ℕ → Option TmrId → Tmrs} {g : TmrId → Tmrs} (null : ∀ n, f n none = w)
    (nested : ∀ n t, 0 < n → f n (some t) = w)
    (unused : ∀ t, (w.OSTmrTbl t).OSTmrState = .unused → f 0 (some t) = w)
    (inUse : ∀ t, (w.OSTmrTbl t).OSTmrState ≠ .unused → f 0 (some t) = g t) (intNesting : ℕ)
    (ptmr : Option TmrId) :
    f intNesting ptmr = w ∨ ∃ t, intNesting = 0 ∧ ptmr = some t ∧
      (w.OSTmrTbl t).OSTmrState ≠ .unused ∧ f intNesting ptmr = g t := by
  rcases ptmr with _ | t
  · exact Or.inl (null intNesting)
  rcases Nat.eq_zero_or_pos intNesting with rfl | positive
  · by_cases state : (w.OSTmrTbl t).OSTmrState = .unused
    · exact Or.inl (unused t state)
    · exact Or.inr ⟨t, rfl, rfl, state, inUse t state⟩
  · exact Or.inl (nested intNesting t positive)

/-- What a call does. -/
theorem exec_cases (h : Wheel w spokes frees ahead) (intNesting : ℕ) (c : TmrCall) :
    w.exec intNesting c = w ∨
    (∃ t rest dly period opt callback arg, frees = t :: rest ∧
      createErr dly period opt = .none ∧
      w.exec intNesting c = Wheel.created w t dly period opt callback arg) ∨
    ∃ t, intNesting = 0 ∧ c.target = some t ∧ (w.OSTmrTbl t).OSTmrState ≠ .unused ∧
      (w.exec intNesting c = (w.halt t).osTmrFree t ∨
        w.exec intNesting c = (w.halt t).osTmrLink t .dly ∨ w.exec intNesting c = w.halt t) := by
  cases c with
  | create dly period opt callback arg =>
      rw [exec]
      rcases osTmrCreate_cases h intNesting dly period opt callback arg with
        ⟨e, same, -⟩ | ⟨t, rest, list, ok, made⟩
      · exact Or.inl (by rw [same])
      · exact Or.inr (Or.inl ⟨t, rest, dly, period, opt, callback, arg, list, ok, by rw [made]⟩)
  | del ptmr =>
      rcases asked_cases (f := fun n p => (w.osTmrDel n p).1) (fun _ => rfl)
        (fun n t nested => by rw [osTmrDel, if_pos nested])
        (fun t unused => by rw [osTmrDel, if_neg (lt_irrefl 0), unused])
        (fun t => osTmrDel_eq) intNesting ptmr with same | ⟨t, top, here, inUse, done⟩
      · exact Or.inl same
      · exact Or.inr (Or.inr ⟨t, top, here, inUse, Or.inl done⟩)
  | start ptmr =>
      rcases asked_cases (f := fun n p => (w.osTmrStart n p).1) (fun _ => rfl)
        (fun n t nested => by rw [osTmrStart, if_pos nested])
        (fun t unused => by rw [osTmrStart, if_neg (lt_irrefl 0), unused])
        (fun t => osTmrStart_eq) intNesting ptmr with same | ⟨t, top, here, inUse, done⟩
      · exact Or.inl same
      · exact Or.inr (Or.inr ⟨t, top, here, inUse, Or.inr (Or.inl done)⟩)
  | stop ptmr opt arg =>
      rcases asked_cases (f := fun n p => (w.osTmrStop n p opt arg).1) (fun _ => rfl)
        (fun n t nested => by rw [osTmrStop, if_pos nested])
        (fun t unused => by rw [osTmrStop, if_neg (lt_irrefl 0), unused])
        (fun t inUse => osTmrStop_eq inUse opt arg) intNesting ptmr with
        same | ⟨t, top, here, inUse, done⟩
      · exact Or.inl same
      · exact Or.inr (Or.inr ⟨t, top, here, inUse, Or.inr (Or.inr done)⟩)

theorem cursor_halt (w : Tmrs) (t : TmrId) : (w.halt t).cursor = w.cursor := by
  rw [halt]
  split_ifs
  · exact sameRest_osTmrUnlink.cursor
  · rfl

/-- A timer in use, out of the wheel. -/
theorem halted (h : Wheel w spokes frees ahead) (inUse : (w.OSTmrTbl t).OSTmrState ≠ .unused) :
    ∃ spokes, Wheel (w.halt t) spokes frees (ahead.erase t) ∧
      ((w.halt t).OSTmrTbl t).OSTmrState ≠ .running ∧
      ((w.halt t).OSTmrTbl t).OSTmrState ≠ .unused := by
  rw [halt]
  split_ifs with running
  · exact ⟨_, h.unlink running, by rw [state_osTmrUnlink, if_pos rfl]; simp⟩
  · have notAhead : t ∉ ahead := fun mem => running (h.running_of_ahead mem)
    rw [List.erase_of_not_mem notAhead]
    exact ⟨spokes, h, running, inUse⟩

/-- After the timer that the loop is at comes the next one it has before it. -/
theorem next_eq {rest : List TmrId} (h : Wheel w spokes frees (t :: rest)) :
    (w.OSTmrTbl t).OSTmrNext = rest.head? := by
  obtain ⟨seen, whole⟩ := h.suffix
  have list := h.lists.doubly (spokeOf w.OSTmrTime)
  rw [← whole] at list
  exact list.next_eq

/-- Calls keep the lists. -/
theorem Sound.exec (h : w.Sound) {intNesting : ℕ} {c : TmrCall}
    (careful : w.Careful (.call intNesting c)) : (w.exec intNesting c).Sound := by
  obtain ⟨spokes, frees, ahead, wheel, at_⟩ := h
  rcases exec_cases wheel intNesting c with
    same | ⟨t, rest, dly, period, opt, callback, arg, rfl, ok, made⟩ | ⟨t, task, about, inUse, made⟩
  · rw [same]
    exact ⟨spokes, frees, ahead, wheel, at_⟩
  · rw [made]
    exact ⟨spokes, rest, ahead, wheel.create ok, at_.of_cursor rfl⟩
  · obtain ⟨spokes, wheel, idle, inUse⟩ := halted wheel inUse
    have others := careful task
    rw [about] at others
    have at_ := at_.erase (cursor_halt w t) others
    rcases made with made | made | made
    · rw [made]
      exact ⟨_, _, _, wheel.release idle inUse, at_.of_cursor rfl⟩
    · rw [made]
      exact ⟨_, _, _, wheel.link idle inUse (by simp), at_.of_cursor sameRest_osTmrLink.cursor⟩
    · rw [made]
      exact ⟨_, _, _, wheel, at_⟩

/-- A timer that is due leaves its list, and comes back to the wheel if it is periodic. -/
theorem expired {rest : List TmrId} (h : Wheel w spokes frees (t :: rest)) :
    ∃ spokes, Wheel (w.expire t) spokes frees rest := by
  have out := h.unlink (h.running_of_ahead List.mem_cons_self)
  rw [List.erase_cons_head] at out
  have stopped : ((w.osTmrUnlink t).OSTmrTbl t).OSTmrState = .stopped := by
    rw [state_osTmrUnlink, if_pos rfl]
  have idle : ((w.osTmrUnlink t).OSTmrTbl t).OSTmrState ≠ .running := by simp [stopped]
  have inUse : ((w.osTmrUnlink t).OSTmrTbl t).OSTmrState ≠ .unused := by simp [stopped]
  rw [expire]
  split_ifs with periodic
  · exact ⟨_, out.link idle inUse fun _ => periodic⟩
  · exact ⟨_, out.complete idle inUse⟩

/-- **A turn of the loop.** -/
theorem Sound.visit (h : w.Sound) (loop : w.cursor ≠ none) : (w.step .visit).Sound := by
  obtain ⟨spokes, frees, ahead, wheel, ⟨idle, -⟩ | here⟩ := h
  · exact absurd idle loop
  cases ahead with
  | nil =>
      rw [step, here]
      exact ⟨spokes, frees, [], wheel.setCursor none, Or.inl ⟨rfl, rfl⟩⟩
  | cons t rest =>
      have next := next_eq wheel
      rw [step, here]
      simp only [List.head?_cons]
      rw [osTmrTaskVisit]
      split_ifs with due
      · obtain ⟨spokes, after⟩ := expired wheel
        exact ⟨_, _, _, after.setCursor _, Or.inr (congrArg some next)⟩
      · exact ⟨_, _, _, wheel.pass (Ne.symm due) _, Or.inr (congrArg some next)⟩

/-- **Every step keeps the lists.** -/
theorem Sound.step (h : w.Sound) {a : TmrAct} (careful : w.Careful a) : (w.step a).Sound := by
  cases a with
  | call intNesting c => exact h.exec careful
  | signal =>
      obtain ⟨spokes, frees, ahead, wheel, ⟨-, rfl⟩ | loop⟩ := h
      · exact ⟨_, _, _, wheel.signal, Or.inr (congrArg some (wheel.lists.doubly _).head)⟩
      · exact absurd (loop.symm.trans careful) (by simp)
  | visit => exact h.visit careful

theorem sound_osTmrInit : osTmrInit.Sound := by
  refine ⟨fun _ => [], List.finRange osTmrCfgMax, [], ?_, Or.inl ⟨rfl, rfl⟩⟩
  constructor
  case lists => exact ⟨fun _ => ⟨rfl, trivial⟩, fun _ _ _ => List.disjoint_nil_left _⟩
  case placed => exact fun t s => iff_of_false List.not_mem_nil (by simp [osTmrInit])
  case entries => exact fun _ => rfl
  case free =>
    have list : List.finRange osTmrCfgMax =
      [0, 1, 2, 3, 4, 5, 6, 7, 8, 9, 10, 11, 12, 13, 14, 15] := rfl
    rw [list]
    exact ⟨rfl, rfl, rfl, rfl, rfl, rfl, rfl, rfl, rfl, rfl, rfl, rfl, rfl, rfl, rfl, rfl, rfl⟩
  case unused => exact fun t => iff_of_true (List.mem_finRange t) rfl
  case count => rfl
  case used => rfl
  case waits => exact fun t inUse => absurd rfl inUse
  case suffix => exact List.suffix_rfl
  case due => exact fun t running => absurd running (by simp [osTmrInit])

theorem Sound.run (h : w.Sound) {acts : List TmrAct} (careful : Guarded Careful Tmrs.step w acts) :
    (run Tmrs.step w acts).Sound :=
  run_invariant_of_guarded (fun _ _ sound here => sound.step here) h careful

end Tmrs

/-- **Every timer is in its place.**  After every run of calls and ticks the pointers of the
wheel and of the free list make up well linked lists that have no timer in common: each
timer that runs is in the list of its spoke, each one not in use is on the free list, the
counters are the lengths of the lists, and a timer that is due now is still before the
loop. -/
theorem timers_in_place {acts : List TmrAct}
    (careful : Guarded Tmrs.Careful Tmrs.step Tmrs.osTmrInit acts) :
    (run Tmrs.step Tmrs.osTmrInit acts).Sound :=
  Tmrs.sound_osTmrInit.run careful

/-- Timers 0 and 1 are due at the same tick; the callback of one creates and starts
another. -/
def wheelTurn : List TmrAct :=
  [.call 0 (.create 2 3 osTmrOptPeriodic (some 100) 7),
    .call 0 (.create 2 0 osTmrOptOneShot (some 200) 8), .call 0 (.start (some 0)),
    .call 0 (.start (some 1)), .signal, .visit, .signal, .visit,
    .call 0 (.create 8 0 osTmrOptOneShot none 0), .call 0 (.start (some 2)),
    .call 0 (.start (some 1)), .visit, .visit, .call 0 (.del (some 0))]

theorem timers_in_place_wheelTurn :
    (run Tmrs.step Tmrs.osTmrInit wheelTurn).Sound :=
  timers_in_place (by decide +kernel)

-- a callback that deletes the timer the loop goes to next: the loop stands in the free list
example :
    let w := run Tmrs.step Tmrs.osTmrInit
      [.call 0 (.create 1 0 osTmrOptOneShot none 0), .call 0 (.create 1 0 osTmrOptOneShot none 0),
        .call 0 (.start (some 0)), .call 0 (.start (some 1)), .signal, .visit,
        .call 0 (.del (some 0))]
    w.cursor = some (some 0) ∧ (w.OSTmrTbl 0).OSTmrState = .unused := by decide +kernel

end Ucos

end CannonCar
