import CannonCar.Ui.Display
import CannonCar.Ui.Editor

/-!
# The editor inside the system

`Ui.Editor` runs the loop of `Set_UI` on keys alone; the system interleaves it with
five other pages, with drawing and with the control tasks.  This module shows that
nothing is lost by that: in every reachable state of the system the parameters, once
the pending actions are done, are those the editor makes of the same sector with some
sequence of keys, and in `Set_UI` the cursor is the editor's as well
(`editor_sysAt`).  So what is proved of every run of the editor holds of the system.

The editor has no other pages.  Leaving `Set_UI` is there the start of the next visit,
so outside the page its cursor is the one the next visit will start with.

## What is load-bearing

`Tracks` relates a state of the system to an editor over the same sector: the parameters after
the pending actions are the editor's, and so is the cursor.  A key of the system is one key
of the editor or none (`tracks_uiResume`), and the events of the other tasks change nothing
that is compared.

This direction is enough.  Every run of the system is mirrored by the editor, so what holds of
all runs of the editor holds of the system; that the system can do everything the editor does
is not needed, and not claimed.
-/

namespace CannonCar

open Trajectory

variable (fm : FloatModel)

/-- What the actions `next` lead to is where the editor stands. -/
structure Tracks (e : Editor) (next : UITask × List UIAction) (page : Page) (ps : Params) :
    Prop where
  ok : next.1.setUi.Ok
  params : edited fm next.2 ps = e.params
  cursor : e.ui =
    if landing next.2 page = .set then next.1.setUi else next.1.setUi.enter.marked

theorem Tracks.append {e : Editor} {t : UITask} {as bs : List UIAction} {page : Page}
    {ps : Params} (h : Tracks fm e (t, bs) (landing as page) (edited fm as ps)) :
    Tracks fm e (t, as ++ bs) page ps where
  ok := h.ok
  params := by
    rw [edited_append]
    exact h.params
  cursor := by
    rw [landing_append]
    exact h.cursor

theorem edited_uiEnter {target : Page} (other : target ≠ .set) (t : UITask) (ps : Params) :
    edited fm (uiEnter fm target t ps).2 ps = ps := by
  cases target with
  | set => exact absurd rfl other
  | _ => rfl

/-- A turn of the loop is a turn of the editor. -/
theorem tracks_setUiLoop {t : UITask} (ok : t.setUi.Ok) (key : ℕ) (ps : Params) {e : Editor}
    (turn : e = { setUiTurn fm key ⟨t.setUi, ps⟩ with
      ui := (setUiTurn fm key ⟨t.setUi, ps⟩).ui.marked }) :
    Tracks fm e (setUiLoop fm key t ps) .set ps where
  ok := by
    show ((t.setUi.pressed key).checked).marked.Ok
    rw [(ok.pressed key).checked_eq]
    exact (ok.pressed key).marked
  params := by
    rw [edited_setUiLoop, turn]
    rfl
  cursor := by
    rw [landing_setUiLoop, if_pos rfl, turn]
    rfl

/-- The editor waits where a page function is called. -/
theorem tracks_uiEnter {t : UITask} (ok : t.setUi.Ok) (target page : Page) {ps : Params}
    {e : Editor} (params : e.params = ps) (cursor : e.ui = t.setUi.enter.marked) :
    Tracks fm e (uiEnter fm target t ps) page ps := by
  by_cases set : target = .set
  · subst set
    have turn : e = { setUiTurn fm 0 ⟨t.setUi.enter, ps⟩ with
        ui := (setUiTurn fm 0 ⟨t.setUi.enter, ps⟩).ui.marked } := by
      rw [setUiTurn_enter fm ok]
      obtain ⟨ui, ps'⟩ := e
      obtain rfl : ps' = ps := params
      obtain rfl : ui = t.setUi.enter.marked := cursor
      rfl
    show Tracks fm e (_, (.call .set :: setUiEntry) ++ _) page ps
    refine Tracks.append fm ?_
    exact tracks_setUiLoop fm (t := { t with setUi := t.setUi.enter }) ok.enter 0 ps turn
  · constructor
    · rwa [task_uiEnter fm set]
    · rw [edited_uiEnter fm set, params]
    · rw [if_neg (landing_uiEnter fm set t ps page), task_uiEnter fm set, cursor]

theorem tracks_uiReturn {t : UITask} (ok : t.setUi.Ok) (target page : Page) {ps : Params}
    {e : Editor} (params : e.params = ps) (cursor : e.ui = t.setUi.enter.marked) :
    Tracks fm e ((uiReturn fm target t ps).1, (uiReturn fm target t ps).2) page ps := by
  show Tracks fm e (_, [.osTimeDly] ++ _) page ps
  exact Tracks.append fm (tracks_uiEnter fm ok target page params cursor)

/-- A key that leaves `Set_UI` starts the editor's next visit. -/
theorem editorStep_leaves {e : Editor} (ok : e.ui.Ok) {key : ℕ} (leaves : e.ui.Leaves key) :
    editorStep fm e key = ⟨e.ui.enter.marked, e.params⟩ := by
  simp only [editorStep, if_pos leaves]
  rw [setUiTurn_enter fm ok]

/-- **One key of the system is at most one key of the editor.** -/
theorem tracks_uiResume {e : Editor} {t : UITask} {page : Page} {ps : Params}
    (h : Tracks fm e (t, []) page ps) (key : ℕ) (s : Sensors) :
    ∃ keys, Tracks fm (run (editorStep fm) e keys) (uiResume fm page key t ps s) page ps := by
  have ok : t.setUi.Ok := h.ok
  have params : e.params = ps := h.params.symm
  rcases uiResume_cases fm page key t ps s with
    ⟨elsewhere, task, plain⟩ | ⟨exit, target, leaving, plain, eq⟩ | ⟨rfl, stays, eq⟩
  · have cursor : e.ui = t.setUi.enter.marked := h.cursor.trans (if_neg elsewhere)
    refine ⟨[], ?_, ?_, ?_⟩
    · rwa [task]
    · rw [edited_of_plain fm plain, run_nil, params]
    · rw [landing_of_plain plain, if_neg elsewhere, task, run_nil, cursor]
  · rw [eq]
    by_cases set : page = .set
    · obtain ⟨leaves, -⟩ := leaving set
      have cursor : e.ui = t.setUi := h.cursor.trans (if_pos set)
      rw [← cursor] at ok leaves
      refine ⟨[key], Tracks.append fm ?_⟩
      rw [run_cons, run_nil, edited_of_plain fm plain, editorStep_leaves fm ok leaves]
      exact tracks_uiReturn fm (t := t) h.ok target _ params (by rw [cursor])
    · have cursor : e.ui = t.setUi.enter.marked := h.cursor.trans (if_neg set)
      refine ⟨[], Tracks.append fm ?_⟩
      rw [run_nil, edited_of_plain fm plain]
      exact tracks_uiReturn fm ok target _ params cursor
  · have cursor : e.ui = t.setUi := h.cursor
    have here : e = ⟨t.setUi, ps⟩ := by
      rw [← cursor, ← params]
    refine ⟨[key], ?_⟩
    rw [eq, run_cons, run_nil]
    refine tracks_setUiLoop fm ok key ps ?_
    simp only [here, editorStep, stays, if_false]

/-- In every run from `speedInit` there are keys with which the editor, started on the
same sector, stands where the pending actions lead to. -/
theorem tracks_sysAt (clock : ℕ) (flash : Flash) (sensors : Sensors) (es : List Event) :
    let s := sysAt fm clock flash sensors es
    ∃ keys, Tracks fm (editorAt fm flash keys) (s.task, s.pending) s.page s.panel.params := by
  refine sys_invariant fm
    (P := fun s : Sys => ∃ keys,
      Tracks fm (editorAt fm flash keys) (s.task, s.pending) s.page s.panel.params)
    ?_ ?_ ?_ ?_ ?_ ?_ es
  · rintro s key ⟨keys, h⟩ waiting
    rw [waiting] at h
    obtain ⟨more, h'⟩ := tracks_uiResume fm h key s.panel.sensors
    refine ⟨keys ++ more, ?_⟩
    rw [editorAt, run_append]
    exact h'
  · rintro s a rest ⟨keys, h⟩ next
    rw [next] at h
    refine ⟨keys, h.ok, ?_, ?_⟩
    · rw [exec_pending, exec_panel, params_onPanel_eq]
      exact h.params
    · rw [exec_task, exec_pending, page_exec]
      exact h.cursor
  · exact fun s count h => h
  · exact fun s h => h
  · exact fun s sensors h => h
  · refine ⟨[], ?_⟩
    rw [editorAt, run_nil, Editor.start_eq]
    exact tracks_uiEnter fm SetUi.ok_init .menu .menu rfl rfl

/-- **The system runs the editor.**  At every `OSMboxPend` of every run the parameters
are those the editor makes of the loaded sector with some keys, and if the page is
`Set_UI` the cursor is the editor's. -/
theorem editor_sysAt (clock : ℕ) (flash : Flash) (sensors : Sensors) (es : List Event)
    (waiting : (sysAt fm clock flash sensors es).pending = []) :
    let s := sysAt fm clock flash sensors es
    ∃ keys, s.panel.params = (editorAt fm flash keys).params ∧
      (s.page = .set → s.task.setUi = (editorAt fm flash keys).ui) := by
  intro s
  obtain ⟨keys, -, params, cursor⟩ := tracks_sysAt fm clock flash sensors es
  dsimp only at params cursor
  rw [waiting] at params cursor
  exact ⟨keys, params, fun here => (cursor.trans (if_pos here)).symm⟩

end CannonCar
