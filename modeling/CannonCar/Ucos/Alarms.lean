import CannonCar.Ucos.Wheel

/-!
# Timers are on time

A timer that has been started calls its callback after the delay it was created with, and
after that, if it is periodic, once in every period, as long as no task and no callback
starts, stops or deletes it (`timer_on_time`).  Times are counted in ticks that the timer
task has taken up.  `OnTime tmr w t n f` says how far the timer `t` is when `n` ticks have
been taken up since its start and its callback has been called `f` times.

## What is load-bearing

* Delay and period are counted in ticks that the timer task has taken up (`TmrAct.isSignal`);
  how long after the clock's tick the timer task runs is a matter of the kernel.
* `first` is the number of ticks up to the first call: the delay, or the period for a timer that has
  none.  `calls` and `remain` are what the number of calls and `OSTmrRemainGet` should be after
  `n` ticks, by division.
* `OnTime` is kept by every step that is not about the timer itself, calls of its own callback
  included, as long as these are `Careful`.
* Match times wrap; what is compared are differences, which are below 2^32 by the width of the
  fields.
-/

namespace CannonCar

namespace Ucos

open LinkedList Trajectory

namespace OsTmr

/-- The ticks from the start to the first call. -/
def first (tmr : OsTmr) : ℕ := (Tmrs.delay tmr .dly).toNat

/-- The calls in the first `n` ticks. -/
def calls (tmr : OsTmr) (n : ℕ) : ℕ :=
  if n < tmr.first then 0
  else if tmr.OSTmrOpt = osTmrOptPeriodic then (n - tmr.first) / tmr.OSTmrPeriod.toNat + 1
  else 1

/-- The ticks to the next call, when `n` have been taken up; 0 if there is no next one. -/
def remain (tmr : OsTmr) (n : ℕ) : ℕ :=
  if tmr.OSTmrOpt = osTmrOptPeriodic ∨ n < tmr.first then
    tmr.first + tmr.calls n * tmr.OSTmrPeriod.toNat - n
  else 0

end OsTmr

/-- The timer that a step may start, stop or delete; interrupts are refused. -/
def TmrAct.target : TmrAct → Option TmrId
  | .call 0 c => c.target
  | _ => none

def TmrAct.isSignal : TmrAct → Bool
  | .signal => true
  | _ => false

namespace Tmrs

variable {w w' : Tmrs} {t u : TmrId} {tmr : OsTmr} {spokes : Spoke → List TmrId}
  {frees ahead : List TmrId} {n f pfnct : ℕ}

/-- The ticks left until the timer is due. -/
def left (w : Tmrs) (t : TmrId) : ℕ := ((w.OSTmrTbl t).OSTmrMatch - w.OSTmrTime).toNat

/-- How far a timer is, `n` ticks after its start and with `f` calls made: it runs towards
the next call, or it was a one-shot timer and is through. -/
structure OnTime (tmr : OsTmr) (w : Tmrs) (t : TmrId) (n f : ℕ) : Prop where
  settings : (w.OSTmrTbl t).settings = tmr.settings
  phase :
    (w.OSTmrTbl t).OSTmrState = .running ∧
      w.left t + n = tmr.first + f * tmr.OSTmrPeriod.toNat ∧
      (f = 0 ∨ tmr.OSTmrOpt = osTmrOptPeriodic ∧
        tmr.first + (f - 1) * tmr.OSTmrPeriod.toNat ≤ n) ∨
    (w.OSTmrTbl t).OSTmrState = .completed ∧ f = 1 ∧ tmr.first ≤ n ∧
      tmr.OSTmrOpt ≠ osTmrOptPeriodic

theorem settings_of_body {tmr tmr' : OsTmr} (same : tmr'.body = tmr.body) :
    tmr'.settings = tmr.settings := by
  rw [OsTmr.settings, same]
  rfl

theorem OnTime.inUse (h : OnTime tmr w t n f) : (w.OSTmrTbl t).OSTmrState ≠ .unused := by
  rcases h.phase with ⟨running, -⟩ | ⟨completed, -⟩
  · simp [running]
  · simp [completed]

theorem state_eq_of_body (body : (w'.OSTmrTbl t).body = (w.OSTmrTbl t).body) :
    (w'.OSTmrTbl t).OSTmrState = (w.OSTmrTbl t).OSTmrState :=
  (OsTmr.mk.inj body).2.2.2.2.2.2.2.2

theorem left_eq_of_body (body : (w'.OSTmrTbl t).body = (w.OSTmrTbl t).body)
    (time : w'.OSTmrTime = w.OSTmrTime) : w'.left t = w.left t := by
  rw [left, left, (OsTmr.mk.inj body).2.2.2.2.1, time]

/-- What leaves the timer and the time alone. -/
theorem OnTime.congr (h : OnTime tmr w t n f) (body : (w'.OSTmrTbl t).body = (w.OSTmrTbl t).body)
    (time : w'.OSTmrTime = w.OSTmrTime) : OnTime tmr w' t n f := by
  refine ⟨(settings_of_body body).trans h.settings, ?_⟩
  rw [state_eq_of_body body, left_eq_of_body body time]
  exact h.phase

/-- Only what `OSTmrCreate` sets matters. -/
theorem OnTime.of_settings {tmr' : OsTmr} (h : OnTime tmr w t n f)
    (settings : tmr.settings = tmr'.settings) : OnTime tmr' w t n f := by
  have opt : tmr'.OSTmrOpt = tmr.OSTmrOpt := (OsTmr.mk.inj settings.symm).2.2.2.2.2.2.2.1
  have period : tmr'.OSTmrPeriod = tmr.OSTmrPeriod := (OsTmr.mk.inj settings.symm).2.2.2.2.2.2.1
  have dly : tmr'.OSTmrDly = tmr.OSTmrDly := (OsTmr.mk.inj settings.symm).2.2.2.2.2.1
  have first : tmr'.first = tmr.first := by
    rw [OsTmr.first, OsTmr.first, delay, delay, dly, period]
  refine ⟨h.settings.trans settings, ?_⟩
  rw [opt, period, first]
  exact h.phase

/-! ## Steps that are not about the timer -/

theorem body_halt (ne : t ≠ u) : ((w.halt u).OSTmrTbl t).body = (w.OSTmrTbl t).body := by
  rw [halt]
  split_ifs
  · rw [body_osTmrUnlink, if_neg ne]
  · rfl

theorem time_halt : (w.halt u).OSTmrTime = w.OSTmrTime := by
  rw [halt]
  split_ifs
  · exact sameRest_osTmrUnlink.time
  · rfl

theorem body_osTmrFree (ne : t ≠ u) :
    ((w.osTmrFree u).OSTmrTbl t).body = (w.OSTmrTbl t).body :=
  congrArg OsTmr.body (Function.update_of_ne ne _ _)

/-- A call that is about another timer. -/
theorem body_exec (h : Wheel w spokes frees ahead) (inUse : (w.OSTmrTbl t).OSTmrState ≠ .unused)
    {intNesting : ℕ} {c : TmrCall} (other : (TmrAct.call intNesting c).target ≠ some t) :
    ((w.exec intNesting c).OSTmrTbl t).body = (w.OSTmrTbl t).body ∧
      (w.exec intNesting c).OSTmrTime = w.OSTmrTime := by
  rcases exec_cases h intNesting c with
    same | ⟨u, rest, dly, period, opt, callback, arg, rfl, -, made⟩ | ⟨u, rfl, about, -, made⟩
  · rw [same]
    exact ⟨rfl, rfl⟩
  · rw [made]
    have ne : t ≠ u := (h.out_of_frees inUse List.mem_cons_self).symm
    exact ⟨congrArg OsTmr.body (Function.update_of_ne ne _ _), rfl⟩
  · have ne : t ≠ u := fun same => other (same ▸ about)
    rcases made with made | made | made <;> rw [made]
    · exact ⟨(body_osTmrFree ne).trans (body_halt ne), time_halt⟩
    · rw [body_osTmrLink, if_neg ne]
      exact ⟨body_halt ne, sameRest_osTmrLink.time.trans time_halt⟩
    · exact ⟨body_halt ne, time_halt⟩

theorem time_expire : (w.expire u).OSTmrTime = w.OSTmrTime := by
  rw [expire]
  split_ifs
  · exact (sameRest_osTmrUnlink.trans sameRest_osTmrLink).time
  · exact sameRest_osTmrUnlink.time

theorem body_expire (ne : t ≠ u) : ((w.expire u).OSTmrTbl t).body = (w.OSTmrTbl t).body := by
  rw [expire]
  split_ifs
  · rw [body_osTmrLink, if_neg ne, body_osTmrUnlink, if_neg ne]
  · rw [tbl_modify, if_neg ne, body_osTmrUnlink, if_neg ne]

/-! ## Steps of the timer -/

/-- A started timer has its delay before it. -/
theorem onTime_osTmrLink (w : Tmrs) (t : TmrId) :
    OnTime (w.OSTmrTbl t) (w.osTmrLink t .dly) t 0 0 := by
  refine ⟨settings_osTmrLink, Or.inl ⟨?_, ?_, Or.inl rfl⟩⟩
  · rw [state_osTmrLink, if_pos rfl]
  · rw [left, match_osTmrLink, if_pos rfl, sameRest_osTmrLink.time, due, add_sub_cancel_right,
      Nat.zero_mul]
    rfl

/-- One tick less is left. -/
theorem left_signal (waiting : (w.OSTmrTbl t).OSTmrMatch ≠ w.OSTmrTime) :
    w.osTmrTaskSignal.left t + 1 = w.left t := by
  have step : w.osTmrTaskSignal.left t =
      ((w.OSTmrTbl t).OSTmrMatch - w.OSTmrTime - 1).toNat := by
    rw [← sub_add_eq_sub_sub]
    rfl
  have some_ : (w.OSTmrTbl t).OSTmrMatch - w.OSTmrTime ≠ 0 := sub_ne_zero.mpr waiting
  rw [step, left]
  generalize (w.OSTmrTbl t).OSTmrMatch - w.OSTmrTime = d at some_
  have positive : d.toNat ≠ 0 := fun zero => some_ (BitVec.eq_of_toNat_eq zero)
  have one : (1 : BitVec 32).toNat = 1 := rfl
  have small := d.isLt
  rw [BitVec.toNat_sub, one]
  omega

/-- **A tick**, between two turns of the loop. -/
theorem OnTime.signal (h : OnTime tmr w t n f)
    (waiting : (w.OSTmrTbl t).OSTmrState = .running →
      (w.OSTmrTbl t).OSTmrMatch ≠ w.OSTmrTime) :
    OnTime tmr w.osTmrTaskSignal t (n + 1) f := by
  refine ⟨h.settings, ?_⟩
  rcases h.phase with ⟨running, left, again⟩ | ⟨completed, once, late, oneShot⟩
  · refine Or.inl ⟨running, ?_, again.imp_right fun ⟨periodic, before⟩ => ⟨periodic, by omega⟩⟩
    have less := left_signal (waiting running)
    omega
  · exact Or.inr ⟨completed, once, by omega, oneShot⟩

/-- **A timer that is due**: one more call is made. -/
theorem OnTime.expire (h : OnTime tmr w t n f) (running : (w.OSTmrTbl t).OSTmrState = .running)
    (due : (w.OSTmrTbl t).OSTmrMatch = w.OSTmrTime) :
    OnTime tmr (w.expire t) t n (f + 1) := by
  have opt : ((w.osTmrUnlink t).OSTmrTbl t).OSTmrOpt = tmr.OSTmrOpt :=
    (OsTmr.mk.inj (settings_osTmrUnlink.trans h.settings)).2.2.2.2.2.2.2.1
  have period : ((w.osTmrUnlink t).OSTmrTbl t).OSTmrPeriod = tmr.OSTmrPeriod :=
    (OsTmr.mk.inj (settings_osTmrUnlink.trans h.settings)).2.2.2.2.2.2.1
  have reached : n = tmr.first + f * tmr.OSTmrPeriod.toNat ∧
      (f = 0 ∨ tmr.OSTmrOpt = osTmrOptPeriodic) := by
    rcases h.phase with ⟨-, left, again⟩ | ⟨completed, -⟩
    · rw [Tmrs.left, due, BitVec.sub_self] at left
      exact ⟨by simpa using left, again.imp_right And.left⟩
    · rw [running] at completed
      exact absurd completed (by simp)
  rw [Tmrs.expire]
  split_ifs with periodic
  · refine ⟨settings_osTmrLink.trans (settings_osTmrUnlink.trans h.settings), Or.inl ⟨?_, ?_, ?_⟩⟩
    · rw [state_osTmrLink, if_pos rfl]
    · rw [left, match_osTmrLink, if_pos rfl, sameRest_osTmrLink.time, Tmrs.due,
        add_sub_cancel_right, delay, period, reached.1]
      ring
    · exact Or.inr ⟨opt ▸ periodic, by rw [Nat.add_sub_cancel]; exact reached.1.ge⟩
  · have oneShot : tmr.OSTmrOpt ≠ osTmrOptPeriodic := opt ▸ periodic
    obtain rfl : f = 0 := reached.2.resolve_right oneShot
    refine ⟨?_, Or.inr ⟨?_, rfl, by simpa using reached.1.ge, oneShot⟩⟩
    · have here : ((w.osTmrUnlink t).modify t fun tmr =>
          { tmr with OSTmrState := .completed }).OSTmrTbl t = _ := Function.update_self ..
      rw [here]
      exact settings_osTmrUnlink.trans h.settings
    · rw [tbl_modify, if_pos rfl]

theorem fire_eq (callback : (w.OSTmrTbl t).OSTmrCallback = some pfnct) (arg : BitVec 32) :
    w.fire t arg = [⟨pfnct, t, arg⟩] := by
  rw [fire, callback]
  rfl

theorem ptmr_of_mem_fire {e : Fired} {arg : BitVec 32} (mem : e ∈ w.fire u arg) : e.ptmr = u := by
  rw [fire, Option.mem_toList, Option.map_eq_some_iff] at mem
  obtain ⟨pfnct, -, rfl⟩ := mem
  rfl

/-- The callbacks that a call calls are those of the timer it is about. -/
theorem target_of_mem_fired {intNesting : ℕ} {c : TmrCall} {e : Fired}
    (mem : e ∈ w.fired (.call intNesting c)) :
    (TmrAct.call intNesting c).target = some e.ptmr := by
  cases c with
  | create | del | start => exact absurd mem List.not_mem_nil
  | stop ptmr opt arg =>
      rw [fired] at mem
      cases ptmr with
      | none => exact absurd mem List.not_mem_nil
      | some u =>
          rw [osTmrStop] at mem
          cases intNesting with
          | succ i => exact absurd mem List.not_mem_nil
          | zero =>
              suffices e.ptmr = u by rw [this]; rfl
              rw [if_neg (lt_irrefl 0)] at mem
              rcases state : (w.OSTmrTbl u).OSTmrState <;> rw [state] at mem
              case running =>
                simp only at mem
                split_ifs at mem
                any_goals exact ptmr_of_mem_fire mem
                all_goals exact absurd mem List.not_mem_nil
              all_goals exact absurd mem List.not_mem_nil

theorem filter_fired_call {intNesting : ℕ} {c : TmrCall}
    (other : (TmrAct.call intNesting c).target ≠ some t) :
    (w.fired (.call intNesting c)).filter (·.ptmr = t) = [] := by
  refine List.filter_eq_nil_iff.mpr fun e mem => ?_
  have about := target_of_mem_fired mem
  have ne : e.ptmr ≠ t := fun same => other (same ▸ about)
  simpa using ne

/-- **A turn of the loop**: the callback is called if the timer is due. -/
theorem OnTime.visit (h : OnTime tmr w t n f) (wheel : Wheel w spokes frees ahead)
    (at_ : w.At ahead) (callback : tmr.OSTmrCallback = some pfnct) :
    ∃ k, OnTime tmr (w.step .visit) t n (f + k) ∧
      (w.fired .visit).filter (·.ptmr = t) =
        List.replicate k ⟨pfnct, t, tmr.OSTmrCallbackArg⟩ := by
  have unchanged (p : Option (Option TmrId)) : OnTime tmr { w with cursor := p } t n f :=
    h.congr rfl rfl
  rw [step, fired]
  rcases here : w.cursor with _ | _ | u
  · exact ⟨0, h, rfl⟩
  · exact ⟨0, unchanged none, rfl⟩
  · simp only
    rw [osTmrTaskVisit]
    split_ifs with due
    · rcases eq_or_ne t u with rfl | ne
      · have mem : t ∈ ahead := by
          rcases at_ with ⟨idle, -⟩ | at_
          · exact absurd (here.symm.trans idle) (by simp)
          · exact List.mem_of_mem_head? (Option.some.inj (at_.symm.trans here))
        -- the loop goes only to timers of the spoke, and they run
        have fires := h.expire (wheel.running_of_ahead mem) due.symm
        have callback' : ((w.expire t).OSTmrTbl t).OSTmrCallback = some pfnct :=
          (OsTmr.mk.inj fires.settings).1.trans callback
        have arg : ((w.expire t).OSTmrTbl t).OSTmrCallbackArg = tmr.OSTmrCallbackArg :=
          (OsTmr.mk.inj fires.settings).2.1
        refine ⟨1, fires.congr rfl rfl, ?_⟩
        simp only
        rw [fire_eq callback', arg]
        simp
      · refine ⟨0, h.congr (body_expire ne) time_expire, List.filter_eq_nil_iff.mpr ?_⟩
        intro e mem
        have ne' : e.ptmr ≠ t := fun same => ne (same.symm.trans (ptmr_of_mem_fire mem))
        simpa using ne'
    · exact ⟨0, unchanged _, rfl⟩

/-- **A step** that does not start, stop or delete the timer. -/
theorem OnTime.step (h : OnTime tmr w t n f) (sound : w.Sound) {a : TmrAct}
    (careful : w.Careful a) (other : a.target ≠ some t)
    (callback : tmr.OSTmrCallback = some pfnct) :
    ∃ k, OnTime tmr (w.step a) t (n + [a].countP TmrAct.isSignal) (f + k) ∧
      (w.fired a).filter (·.ptmr = t) =
        List.replicate k ⟨pfnct, t, tmr.OSTmrCallbackArg⟩ := by
  obtain ⟨spokes, frees, ahead, wheel, at_⟩ := sound
  cases a with
  | call intNesting c =>
      obtain ⟨body, time⟩ := body_exec wheel h.inUse other
      exact ⟨0, h.congr body time, filter_fired_call other⟩
  | signal =>
      -- the time goes on when the loop is through, so no timer that is due is left behind
      refine ⟨0, h.signal fun running now => ?_, rfl⟩
      rcases at_ with ⟨-, rfl⟩ | loop
      · exact absurd (wheel.due t running now) List.not_mem_nil
      · exact absurd (loop.symm.trans careful) (by simp)
  | visit => exact h.visit wheel at_ callback

/-- **A run** that does not start, stop or delete the timer. -/
theorem OnTime.run (h : OnTime tmr w t n f) (sound : w.Sound) {acts : List TmrAct}
    (careful : Guarded Careful Tmrs.step w acts) (others : ∀ a ∈ acts, a.target ≠ some t)
    (callback : tmr.OSTmrCallback = some pfnct) :
    ∃ k, OnTime tmr (run Tmrs.step w acts) t (n + acts.countP TmrAct.isSignal) (f + k) ∧
      (outputs Tmrs.step fired w acts).flatten.filter (·.ptmr = t) =
        List.replicate k ⟨pfnct, t, tmr.OSTmrCallbackArg⟩ := by
  induction acts generalizing w n f with
  | nil => exact ⟨0, h, rfl⟩
  | cons a acts ih =>
      obtain ⟨here, later⟩ := careful
      obtain ⟨k, next, calls⟩ := h.step sound here (others a List.mem_cons_self) callback
      obtain ⟨k', after, calls'⟩ := ih next (sound.step here) later
        fun b mem => others b (List.mem_cons_of_mem a mem)
      refine ⟨k + k', ?_, ?_⟩
      · have count : (a :: acts).countP TmrAct.isSignal =
            [a].countP TmrAct.isSignal + acts.countP TmrAct.isSignal := by
          rw [← List.countP_append, List.singleton_append]
        rw [run_cons, count, ← add_assoc, ← add_assoc]
        exact after
      · rw [outputs_cons, List.flatten_cons, List.filter_append, calls, calls',
          List.replicate_append_replicate]

/-! ## The result -/

/-- Between two ticks the number of calls is the one that the time tells. -/
theorem OnTime.calls_eq (h : OnTime tmr w t n f) (waits : tmr.Waits)
    (waiting : (w.OSTmrTbl t).OSTmrState = .running →
      (w.OSTmrTbl t).OSTmrMatch ≠ w.OSTmrTime) : f = tmr.calls n := by
  rw [OsTmr.calls]
  rcases h.phase with ⟨running, left, again⟩ | ⟨-, rfl, late, oneShot⟩
  · have positive : 0 < w.left t := by
      refine Nat.pos_of_ne_zero fun zero => waiting running ?_
      exact sub_eq_zero.mp (BitVec.eq_of_toNat_eq zero)
    rcases again with rfl | ⟨periodic, before⟩
    · rw [if_pos (by omega)]
    · have period : 0 < tmr.OSTmrPeriod.toNat := by
        rcases waits with ⟨-, period⟩ | ⟨oneShot, -⟩
        · exact Nat.pos_of_ne_zero fun zero => period (BitVec.eq_of_toNat_eq zero)
        · exact absurd (oneShot.symm.trans periodic) osTmrOptOneShot_ne
      rcases Nat.eq_zero_or_pos f with rfl | called
      · rw [if_pos (by omega)]
      -- the last call was less than a period ago
      · obtain ⟨f, rfl⟩ := Nat.exists_eq_succ_of_ne_zero called.ne'
        rw [Nat.succ_eq_add_one, Nat.add_sub_cancel] at before
        rw [Nat.succ_eq_add_one, Nat.add_mul, Nat.one_mul] at left
        rw [if_neg (by omega), if_pos periodic, Nat.succ_eq_add_one]
        congr 1
        refine (Nat.div_eq_of_lt_le ?_ ?_).symm
        · omega
        · rw [Nat.add_mul]
          omega
  · rw [if_neg (by omega), if_neg oneShot]

/-- What `OSTmrRemainGet` tells between two ticks. -/
theorem OnTime.remain_eq (h : OnTime tmr w t n (tmr.calls n)) :
    (w.osTmrRemainGet 0 (some t)).1.toNat = tmr.remain n := by
  rw [OsTmr.remain, osTmrRemainGet, if_neg (lt_irrefl 0)]
  rcases h.phase with ⟨running, left, again⟩ | ⟨completed, -, late, oneShot⟩
  · rw [running]
    have ahead : tmr.OSTmrOpt = osTmrOptPeriodic ∨ n < tmr.first := by
      rcases again with none | ⟨periodic, -⟩
      · rw [OsTmr.calls] at none
        split_ifs at none with early
        · exact Or.inr early
      · exact Or.inl periodic
    rw [if_pos ahead]
    exact Nat.eq_sub_of_add_eq left
  · rw [completed, if_neg (not_or.mpr ⟨oneShot, by omega⟩)]
    rfl

theorem Sound.waits (sound : w.Sound) (inUse : (w.OSTmrTbl t).OSTmrState ≠ .unused) :
    (w.OSTmrTbl t).Waits := by
  obtain ⟨_, _, _, wheel, -⟩ := sound
  exact wheel.waits t inUse

/-- Between two ticks no running timer is due. -/
theorem Sound.match_ne (sound : w.Sound) (through : w.cursor = none)
    (running : (w.OSTmrTbl t).OSTmrState = .running) :
    (w.OSTmrTbl t).OSTmrMatch ≠ w.OSTmrTime := by
  obtain ⟨_, _, ahead, wheel, ⟨-, rfl⟩ | loop⟩ := sound
  · exact fun now => List.not_mem_nil (wheel.due t running now)
  · exact absurd (loop.symm.trans through) (by simp)

/-- `OSTmrStart`, for a timer that runs or does not. -/
theorem onTime_start (inUse : (w.OSTmrTbl t).OSTmrState ≠ .unused) :
    OnTime (w.OSTmrTbl t) (w.step (.call 0 (.start (some t)))) t 0 0 := by
  have start : w.step (.call 0 (.start (some t))) = (w.halt t).osTmrLink t .dly :=
    osTmrStart_eq inUse
  have settings : ((w.halt t).OSTmrTbl t).settings = (w.OSTmrTbl t).settings := by
    rw [halt]
    split_ifs
    · exact settings_osTmrUnlink
    · rfl
  rw [start]
  exact (onTime_osTmrLink (w.halt t) t).of_settings settings

end Tmrs

/-- **Timers are on time.**  After a timer has been started, whatever other timers and their
callbacks do, its callback has been called as often as the ticks since then tell: first
after the delay, then, if it is periodic, once in every period.  `OSTmrRemainGet` tells the
ticks until the next call. -/
theorem timer_on_time (acts later : List TmrAct) (t : TmrId) (pfnct : ℕ)
    (careful : Guarded Tmrs.Careful Tmrs.step Tmrs.osTmrInit
      (acts ++ .call 0 (.start (some t)) :: later))
    (inUse : ((run Tmrs.step Tmrs.osTmrInit acts).OSTmrTbl t).OSTmrState ≠ .unused)
    (callback : ((run Tmrs.step Tmrs.osTmrInit acts).OSTmrTbl t).OSTmrCallback = some pfnct)
    (others : ∀ a ∈ later, a.target ≠ some t)
    (through : (run Tmrs.step Tmrs.osTmrInit
      (acts ++ .call 0 (.start (some t)) :: later)).cursor = none) :
    let tmr := (run Tmrs.step Tmrs.osTmrInit acts).OSTmrTbl t
    let started := run Tmrs.step Tmrs.osTmrInit (acts ++ [.call 0 (.start (some t))])
    let n := later.countP TmrAct.isSignal
    (outputs Tmrs.step Tmrs.fired started later).flatten.filter (·.ptmr = t) =
        List.replicate (tmr.calls n) ⟨pfnct, t, tmr.OSTmrCallbackArg⟩ ∧
      ((run Tmrs.step started later).osTmrRemainGet 0 (some t)).1.toNat = tmr.remain n := by
  intro tmr started n
  obtain ⟨before, here, later_⟩ := guarded_append.mp careful
  have sound := Tmrs.sound_osTmrInit.run before
  have start : started = (run Tmrs.step Tmrs.osTmrInit acts).step (.call 0 (.start (some t))) :=
    run_concat ..
  rw [run_append, run_cons, ← start] at through
  rw [← start] at later_
  have waits : tmr.Waits := sound.waits inUse
  have zero : Tmrs.OnTime tmr started t 0 0 := by
    rw [start]
    exact Tmrs.onTime_start inUse
  obtain ⟨k, onTime, calls⟩ := zero.run (start ▸ sound.step here) later_ others callback
  rw [Nat.zero_add, Nat.zero_add] at onTime
  have sound' := Tmrs.Sound.run (start ▸ sound.step here) later_
  have count : k = tmr.calls n := onTime.calls_eq waits fun running =>
    sound'.match_ne through running
  rw [count] at calls onTime
  exact ⟨calls, onTime.remain_eq⟩

/-- Timer 0 is periodic; timer 1 runs once and is started again by its callback. -/
def twoTimers : List TmrAct :=
  [.call 0 (.create 2 3 osTmrOptPeriodic (some 100) 7),
    .call 0 (.create 2 0 osTmrOptOneShot (some 200) 8), .call 0 (.start (some 1))]

def sixTicks : List TmrAct :=
  [.signal, .visit, .signal, .visit, .visit, .call 0 (.start (some 1)), .visit, .signal, .visit,
    .signal, .visit, .visit, .signal, .visit, .visit, .signal, .visit]

theorem timer_on_time_sixTicks :
    (outputs Tmrs.step Tmrs.fired
      (run Tmrs.step Tmrs.osTmrInit (twoTimers ++ [.call 0 (.start (some 0))]))
      sixTicks).flatten.filter (·.ptmr = 0) = [⟨100, 0, 7⟩, ⟨100, 0, 7⟩] := by
  have h := timer_on_time twoTimers sixTicks 0 100 (by decide +kernel) (by decide +kernel)
    (by decide +kernel) (by decide +kernel) (by decide +kernel)
  exact h.1

end Ucos

end CannonCar
