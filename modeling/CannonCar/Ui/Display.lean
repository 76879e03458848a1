import CannonCar.Interlock

/-!
# What `Set_UI` shows

At every `OSMboxPend` of `Set_UI` the panel shows six rows of the parameter table, the
one at the cursor marked, and the marked row is the parameter an edit changes.  The
cursor is spread over three statics with rules of their own, the old marker is erased
through a fourth variable, and the table, the edit switch and the `sprintf` calls are
three lists; `setUi_coherent` says that they stay together over whole runs of the
system, visits of other pages and preemption included.

The argument looks at where the pending actions lead: `landing`, `edited` and `drawn`
are the page, the parameters and the display after them.  Other tasks and the actions
themselves leave these as they are, so only the keys matter, and one key is one turn
of the loop (`leads_setUiLoop`).

## What is load-bearing

**The marker is erased where it is remembered and drawn where the cursor is.**  These are two
variables, and they agree only because the first is set where the marker is drawn.
`ShowsMarker` is about all six rows, not about the one at the cursor alone.

**Numbers are asked to fit.**  A number that is too long for its four characters overruns
`text[5]`, and nothing is claimed then of what the rows show; cursor, marker and the parameter
that an edit changes are settled without that condition.

**Pending actions are looked through.**  At a waiting point nothing is pending, so `landing`,
`edited` and `drawn` are the state itself there; in between they say where it will be.
-/

namespace CannonCar

open MachineInt Trajectory Printf

/-! ## Where the pending actions lead -/

/-- What an action does to the display. -/
def UIAction.onOled (o : Oled) : UIAction → Oled
  | oledCLS => CannonCar.oledCLS o
  | oledP6x8Str x y ch => CannonCar.oledP6x8Str x y ch o
  | lcdWriteNumber x y number => CannonCar.lcdWriteNumber x y number o
  | _ => o

variable (fm : FloatModel)

/-- What an action does to the parameters. -/
def UIAction.onParams (ps : Params) : UIAction → Params
  | edit key item => editItem fm key item ps
  | _ => ps

/-- What an action does to the running page. -/
def UIAction.onPage (page : Page) : UIAction → Page
  | call page => page
  | _ => page

/-- The display after the actions. -/
def drawn (as : List UIAction) (o : Oled) : Oled := as.foldl UIAction.onOled o

/-- The parameters after the actions. -/
def edited (as : List UIAction) (ps : Params) : Params := as.foldl (UIAction.onParams fm) ps

/-- The page the actions lead to. -/
def landing (as : List UIAction) (page : Page) : Page := as.foldl UIAction.onPage page

@[simp] theorem oled_onPanel (a : UIAction) (p : Panel) :
    (a.onPanel fm p).oled = a.onOled p.oled := by
  cases a <;> rfl

theorem params_onPanel_eq (a : UIAction) (p : Panel) :
    (a.onPanel fm p).params = a.onParams fm p.params := by
  cases a <;> rfl

theorem page_exec (a : UIAction) (s : Sys) : (Sys.exec fm a s).page = a.onPage s.page := by
  rw [exec_page]
  cases a <;> rfl

/-! ## The rows -/

/-- The two characters in front of row `i`. -/
def markerAt (u : SetUi) (i : ℕ) : List Char :=
  if i = u.setArrow then (if u.arrowState = 0 then "->" else "- ").toList else "  ".toList

/-- The rows 2 to 7 of the panel show the texts `base`, with the characters 4 and 5 of
each replaced by `marker`. -/
def RowsShown (o : Oled) (base marker : ℕ → List Char) : Prop :=
  ∀ i, 2 ≤ i → i ≤ 7 → Shows o i 1 ((base i).take 4 ++ marker i ++ (base i).drop 6)

/-- `Set_UI` shows its table and its cursor. -/
def Displayed (u : SetUi) (ps : Params) (o : Oled) : Prop :=
  RowsShown o (fun i => setUiRow fm ps (u.page + i - 2)) (markerAt u)

theorem length_ss : ∀ k < 7, 14 ≤ (ss.getD k "").toList.length := by decide

/-- Every label starts with room for the marker. -/
theorem blank_ss : ∀ k < 7, ((ss.getD k "").toList.take 14).take 4 ++ "  ".toList ++
    ((ss.getD k "").toList.take 14).drop 6 = (ss.getD k "").toList.take 14 := by
  decide

theorem length_setUiRow (ps : Params) {k : ℕ} (hk : k < 7) : (setUiRow fm ps k).length = 18 := by
  have label := length_ss k hk
  have text := le_length_formatInt 4 ((shownNumbers fm ps).getD k 0)
  rw [setUiRow, addNumString, List.length_append, List.length_take, List.length_take]
  omega

theorem blank_setUiRow (ps : Params) {k : ℕ} (hk : k < 7) :
    (setUiRow fm ps k).take 4 ++ "  ".toList ++ (setUiRow fm ps k).drop 6 = setUiRow fm ps k := by
  have label := length_ss k hk
  have length : ((ss.getD k "").toList.take 14).length = 14 := by
    rw [List.length_take]
    omega
  rw [setUiRow, addNumString, List.take_append_of_le_length (by omega),
    List.drop_append_of_le_length (by omega), ← List.append_assoc, blank_ss k hk]

/-- Drawing two characters at `x = 24` sets the marker of one row. -/
theorem RowsShown.mark {o : Oled} {base marker : ℕ → List Char} (h : RowsShown o base marker)
    (length : ∀ i, 2 ≤ i → i ≤ 7 → (base i).length = 18 ∧ (marker i).length = 2)
    {y : ℕ} (first : 2 ≤ y) (last : y ≤ 7) {text : List Char} (two : text.length = 2) :
    RowsShown (oledP6x8Str 24 y text o) base (Function.update marker y text) := by
  have fits : column 24 + 6 * text.length ≤ 128 := by
    rw [two]
    decide
  intro i hi hi'
  by_cases here : i = y
  · subst here
    obtain ⟨long, short⟩ := length i hi hi'
    have start : column 24 = 1 + 6 * ((base i).take 4).length := by
      rw [List.length_take, long]
      rfl
    rw [Function.update_self]
    exact (h i hi hi').overwrite (by omega) fits start (two.trans short.symm)
  · rw [Function.update_of_ne here]
    exact (h i hi hi').of_ne_page (by omega) fits here

/-- The loop over the rows draws each of them. -/
theorem shows_setUiRows (page : ℕ) (ps : Params) (hpage : page ≤ 1) (o : Oled) :
    ∀ i, 2 ≤ i → i ≤ 7 →
      Shows (drawn (setUiRows fm page ps) o) i 1 (setUiRow fm ps (page + i - 2)) := by
  have fits : ∀ k < 6, column 0 + 6 * (setUiRow fm ps (page + (k + 2) - 2)).length ≤ 128 := by
    intro k hk
    rw [length_setUiRow fm ps (by omega)]
    decide
  have rows : ∀ n ≤ 6, ∀ k < n,
      Shows (drawn ((List.range n).map fun k =>
        UIAction.oledP6x8Str 0 (k + 2) (setUiRow fm ps (page + (k + 2) - 2))) o) (k + 2) 1
        (setUiRow fm ps (page + (k + 2) - 2)) := by
    intro n hn
    induction n with
    | zero => exact fun k hk => absurd hk (Nat.not_lt_zero k)
    | succ n ih =>
        intro k hk
        rw [List.range_succ, List.map_append, drawn, List.foldl_append]
        rcases Nat.lt_succ_iff_lt_or_eq.mp hk with before | rfl
        · exact (ih (by omega) k before).of_ne_page (by omega) (fits n (by omega)) (by omega)
        · exact shows_oledP6x8Str (by omega) (fits k (by omega)) _
  intro i hi hi'
  have row := rows 6 le_rfl (i - 2) (by omega)
  rwa [Nat.sub_add_cancel hi] at row

/-- The marker of `Set_UI` over rows without one. -/
theorem RowsShown.setUiMarker {o : Oled} {base : ℕ → List Char}
    (blank : RowsShown o base fun _ => "  ".toList)
    (length : ∀ i, 2 ≤ i → i ≤ 7 → (base i).length = 18) {u : SetUi} (ok : u.Ok)
    (save : 2 ≤ u.saveSetArrow ∧ u.saveSetArrow ≤ 7)
    (editing : u.arrowState ≠ 0 → u.saveSetArrow = u.setArrow) :
    RowsShown (drawn (setUiMarker u) o) base (markerAt u) := by
  have two : ∀ i, 2 ≤ i → i ≤ 7 → (base i).length = 18 ∧ "  ".toList.length = 2 :=
    fun i hi hi' => ⟨length i hi hi', rfl⟩
  unfold CannonCar.setUiMarker markerAt
  by_cases mode : u.arrowState = 0
  · -- The row marked last is blanked first, whichever it was.
    have erased := blank.mark two save.1 save.2 (show "  ".toList.length = 2 from rfl)
    rw [Function.update_eq_self] at erased
    have marked := erased.mark two ok.setArrow_ge ok.setArrow_le
      (show "->".toList.length = 2 from rfl)
    have marker : (fun i => if i = u.setArrow then "->".toList else "  ".toList) =
        Function.update (fun _ => "  ".toList) u.setArrow "->".toList := by
      funext i
      rw [Function.update_apply]
    simp only [if_pos mode, drawn, List.foldl_cons, List.foldl_nil, UIAction.onOled, marker]
    exact marked
  · have marked := blank.mark two save.1 save.2 (show "- ".toList.length = 2 from rfl)
    have marker : (fun i => if i = u.setArrow then "- ".toList else "  ".toList) =
        Function.update (fun _ => "  ".toList) u.saveSetArrow "- ".toList := by
      funext i
      rw [Function.update_apply, editing mode]
    simp only [if_neg mode, drawn, List.foldl_cons, List.foldl_nil, UIAction.onOled, marker]
    exact marked

/-- One drawing of the table and the marker. -/
theorem displayed_draw {u : SetUi} (ok : u.Ok) (ps : Params)
    (save : 2 ≤ u.saveSetArrow ∧ u.saveSetArrow ≤ 7)
    (editing : u.arrowState ≠ 0 → u.saveSetArrow = u.setArrow) (o : Oled) :
    Displayed fm u ps (drawn (setUiRows fm u.page ps ++ setUiMarker u) o) := by
  have blank : RowsShown (drawn (setUiRows fm u.page ps) o)
      (fun i => setUiRow fm ps (u.page + i - 2)) fun _ => "  ".toList := by
    intro i hi hi'
    rw [blank_setUiRow fm ps (ok.index hi hi')]
    exact shows_setUiRows fm u.page ps ok.page_le o i hi hi'
  rw [drawn, List.foldl_append]
  exact blank.setUiMarker (fun i hi hi' => length_setUiRow fm ps (ok.index hi hi')) ok save editing

/-! ## One turn of the loop -/

theorem landing_append (as bs : List UIAction) (page : Page) :
    landing (as ++ bs) page = landing bs (landing as page) :=
  List.foldl_append

theorem edited_append (as bs : List UIAction) (ps : Params) :
    edited fm (as ++ bs) ps = edited fm bs (edited fm as ps) :=
  List.foldl_append

theorem drawn_append (as bs : List UIAction) (o : Oled) :
    drawn (as ++ bs) o = drawn bs (drawn as o) :=
  List.foldl_append

/-- Plain actions leave the page and the parameters alone. -/
theorem landing_of_plain {as : List UIAction} (plain : ∀ a ∈ as, a.Plain) (page : Page) :
    landing as page = page := by
  induction as generalizing page with
  | nil => rfl
  | cons a as ih =>
      have here : a.onPage page = page := by
        cases a with
        | call target => exact (plain _ List.mem_cons_self).elim
        | _ => rfl
      show landing as (a.onPage page) = page
      rw [here]
      exact ih (fun b hb => plain b (List.mem_cons_of_mem a hb)) page

theorem edited_of_plain {as : List UIAction} (plain : ∀ a ∈ as, a.Plain) (ps : Params) :
    edited fm as ps = ps := by
  induction as generalizing ps with
  | nil => rfl
  | cons a as ih =>
      have here : a.onParams fm ps = ps := by
        cases a with
        | edit key item => exact (plain _ List.mem_cons_self).elim
        | _ => rfl
      show edited fm as (a.onParams fm ps) = ps
      rw [here]
      exact ih (fun b hb => plain b (List.mem_cons_of_mem a hb)) ps

/-- `Set_UI` waits with its cursor in order, its row remembered and its table on the
panel, once the actions `next` have been done. -/
def Leads (next : UITask × List UIAction) (page : Page) (ps : Params) (o : Oled) : Prop :=
  next.1.setUi.Ok ∧
    (landing next.2 page = .set →
      next.1.setUi.saveSetArrow = next.1.setUi.setArrow ∧
        Displayed fm next.1.setUi (edited fm next.2 ps) (drawn next.2 o))

theorem Leads.append {t : UITask} {as bs : List UIAction} {page : Page} {ps : Params} {o : Oled}
    (h : Leads fm (t, bs) (landing as page) (edited fm as ps) (drawn as o)) :
    Leads fm (t, as ++ bs) page ps o := by
  refine ⟨h.1, ?_⟩
  rw [landing_append, edited_append, drawn_append]
  exact h.2

/-- Actions that lead to another page have nothing to show. -/
theorem Leads.of_ne {next : UITask × List UIAction} {page : Page} (ok : next.1.setUi.Ok)
    (elsewhere : landing next.2 page ≠ .set) (ps : Params) (o : Oled) : Leads fm next page ps o :=
  ⟨ok, fun here => absurd here elsewhere⟩

/-- The table and the marker are drawn and nothing else. -/
theorem plain_draw {page : ℕ} {ps : Params} {u : SetUi} :
    ∀ a ∈ setUiRows fm page ps ++ setUiMarker u, a.Plain := by
  intro a ha
  rcases List.mem_append.mp ha with ha | ha
  · obtain ⟨x, y, ch, rfl⟩ := mem_setUiRows fm ha
    trivial
  · obtain ⟨x, y, ch, rfl⟩ := mem_setUiMarker ha
    trivial

/-- A turn of the loop stays in the page. -/
theorem landing_setUiLoop (key : ℕ) (t : UITask) (ps : Params) (page : Page) :
    landing (setUiLoop fm key t ps).2 page = page := by
  simp only [setUiLoop]
  rw [List.append_assoc, landing_append, landing_of_plain (plain_draw fm)]
  split_ifs <;> rfl

/-- What a turn of the loop makes of the parameters. -/
theorem edited_setUiLoop (key : ℕ) (t : UITask) (ps : Params) :
    edited fm (setUiLoop fm key t ps).2 ps =
      if (t.setUi.pressed key).arrowState ≠ 0 then
        editItem fm key (t.setUi.pressed key).item ps
      else ps := by
  simp only [setUiLoop]
  rw [List.append_assoc, edited_append, edited_of_plain fm (plain_draw fm), edited_append]
  split_ifs <;> rfl

/-- **One turn of the loop**, from any display: the table and the marker of the new
cursor are drawn, over the edited parameters. -/
theorem leads_setUiLoop {key : ℕ} {t : UITask} (ok : t.setUi.Ok)
    (save : 2 ≤ t.setUi.saveSetArrow ∧ t.setUi.saveSetArrow ≤ 7)
    (editing : (t.setUi.pressed key).arrowState ≠ 0 →
      (t.setUi.pressed key).saveSetArrow = (t.setUi.pressed key).setArrow)
    (page : Page) (ps : Params) (o : Oled) : Leads fm (setUiLoop fm key t ps) page ps o := by
  have ok' := ok.pressed key
  have task : (setUiLoop fm key t ps).1.setUi = (t.setUi.pressed key).marked := by
    simp only [setUiLoop, ok'.checked_eq]
  have cursor : (t.setUi.pressed key).marked.saveSetArrow =
      (t.setUi.pressed key).marked.setArrow := by
    unfold SetUi.marked
    split_ifs with mode
    · rfl
    · exact editing mode
  have shown : ∀ ps', Displayed fm (t.setUi.pressed key).marked ps' =
      Displayed fm (t.setUi.pressed key) ps' := by
    intro ps'
    unfold SetUi.marked
    split_ifs <;> rfl
  rw [← SetUi.saveSetArrow_pressed t.setUi key] at save
  refine ⟨task ▸ ok'.marked, fun _ => ?_⟩
  rw [task, edited_setUiLoop, shown]
  refine ⟨cursor, ?_⟩
  have display := displayed_draw fm ok'
    (if (t.setUi.pressed key).arrowState ≠ 0 then editItem fm key (t.setUi.pressed key).item ps
      else ps) save editing o
  have silent : ∀ as, drawn ((if key = 4 then [UIAction.falshReserve] else []) ++
      (if (t.setUi.pressed key).arrowState ≠ 0 then [.edit key (t.setUi.pressed key).item]
        else []) ++ as) o = drawn as o := by
    intro as
    split_ifs <;> rfl
  simp only [setUiLoop, ok'.checked_eq]
  rw [List.append_assoc, silent]
  exact display

/-! ## Over whole runs -/

/-- The call of another page function does not end in `Set_UI`. -/
theorem landing_uiEnter {target : Page} (other : target ≠ .set) (t : UITask) (ps : Params)
    (page : Page) : landing (uiEnter fm target t ps).2 page ≠ .set := by
  cases target with
  | set => exact absurd rfl other
  | menu => simp [uiEnter, landing, menuEntry, menuPend, UIAction.onPage]
  | run => simp [uiEnter, landing, runEntry, UIAction.onPage]
  | state => simp [uiEnter, landing, stateEntry, UIAction.onPage]
  | record => simp [uiEnter, landing, recordUi, menuEntry, menuPend, UIAction.onPage]
  | read => simp [uiEnter, landing, readEntry, UIAction.onPage]

theorem task_uiEnter {target : Page} (other : target ≠ .set) (t : UITask) (ps : Params) :
    (uiEnter fm target t ps).1 = t := by
  cases target with
  | set => exact absurd rfl other
  | _ => rfl

/-- The call of a page function leads to a display in order if the page is `Set_UI`. -/
theorem leads_uiEnter {t : UITask} (ok : t.setUi.Ok) (target page : Page) (ps : Params)
    (o : Oled) : Leads fm (uiEnter fm target t ps) page ps o := by
  by_cases set : target = .set
  · subst set
    have turn : ∀ page o, Leads fm (setUiLoop fm 0 { t with setUi := t.setUi.enter } ps)
        page ps o := by
      intro page o
      refine leads_setUiLoop fm ok.enter ⟨le_refl 2, ?_⟩ ?_ page ps o
      · show 2 ≤ 7
        decide
      · exact fun editing => absurd rfl editing
    show Leads fm (_, (.call .set :: setUiEntry) ++ _) page ps o
    exact Leads.append fm (turn _ _)
  · refine Leads.of_ne fm ?_ (landing_uiEnter fm set t ps page) ps o
    rwa [task_uiEnter fm set]

/-- A key consumed by a waiting page leads to a display in order if that page is
`Set_UI` in the end. -/
theorem leads_uiResume {t : UITask} {page : Page} {ps : Params} {o : Oled}
    (h : Leads fm (t, []) page ps o) (key : ℕ) (s : Sensors) :
    Leads fm (uiResume fm page key t ps s) page ps o := by
  have ok : t.setUi.Ok := h.1
  rcases uiResume_cases fm page key t ps s with
    ⟨elsewhere, task, plain⟩ | ⟨exit, target, -, plain, eq⟩ | ⟨rfl, -, eq⟩
  · refine Leads.of_ne fm ?_ ?_ ps o
    · rwa [task]
    · rwa [landing_of_plain plain]
  · rw [eq]
    refine Leads.append fm ?_
    rw [edited_of_plain fm plain]
    exact leads_uiEnter fm ok target _ ps _
  · obtain ⟨saved, -⟩ := h.2 rfl
    rw [eq]
    refine leads_setUiLoop fm ok ?_ (SetUi.saved_pressed saved) .set ps o
    rw [saved]
    exact ⟨ok.setArrow_ge, ok.setArrow_le⟩

/-- The pending actions of every reachable state lead to a display in order. -/
theorem leads_sysAt (clock : ℕ) (flash : Flash) (sensors : Sensors) (es : List Event) :
    let s := sysAt fm clock flash sensors es
    Leads fm (s.task, s.pending) s.page s.panel.params s.panel.oled := by
  refine sys_invariant fm
    (P := fun s : Sys => Leads fm (s.task, s.pending) s.page s.panel.params s.panel.oled)
    ?_ ?_ ?_ ?_ ?_ ?_ es
  · intro s key h waiting
    rw [waiting] at h
    exact leads_uiResume fm h key s.panel.sensors
  · intro s a rest h next
    rw [next] at h
    rw [exec_task, exec_pending, exec_panel, page_exec, params_onPanel_eq, oled_onPanel]
    exact h
  · exact fun s count h => h
  · exact fun s h => h
  · exact fun s sensors h => h
  · exact leads_uiEnter fm SetUi.ok_init .menu .menu (flashRead fm flash) Oled.blank

/-! ## Reading the rows -/

/-- Row `i` shows a marker at `x = 24`. -/
def ShowsMarker (o : Oled) (i : ℕ) : Prop :=
  Shows o i (column 24) "->".toList ∨ Shows o i (column 24) "- ".toList

/-- No marker looks like two blanks. -/
theorem not_showsMarker_of_blank {o : Oled} {i : ℕ} (blank : Shows o i (column 24) "  ".toList) :
    ¬ ShowsMarker o i := by
  -- The second column of the dash has ink.
  have empty : o.gram i 26 = 0x00 := blank 26 0x00 (by decide)
  rintro (arrow | dash)
  · have ink : o.gram i 26 = 0x08 := arrow 26 0x08 (by decide)
    exact absurd (empty.symm.trans ink) (by decide)
  · have ink : o.gram i 26 = 0x08 := dash 26 0x08 (by decide)
    exact absurd (empty.symm.trans ink) (by decide)

/-- What the table shows of the value of parameter `k`. -/
def shownValue (k : ℕ) (v : ℚ) : ℤ := if k < 6 then shownGain fm v else v.num

/-- The `sprintf` calls and the table agree: call `k` prints parameter `k`. -/
theorem shownNumbers_getD (ps : Params) {k : ℕ} (hk : k < 7) :
    (shownNumbers fm ps).getD k 0 = shownValue fm k (ps.values.getD k 0) := by
  have cases : k = 0 ∨ k = 1 ∨ k = 2 ∨ k = 3 ∨ k = 4 ∨ k = 5 ∨ k = 6 := by omega
  rcases cases with rfl | rfl | rfl | rfl | rfl | rfl | rfl <;> rfl

/-- Row `i` shows parameter `k`: its label from `x = 36` on and its number at `x = 84`. -/
def ShowsParam (o : Oled) (ps : Params) (i k : ℕ) : Prop :=
  Shows o i (column 36) (((ss.getD k "").toList.take 14).drop 6) ∧
    Shows o i (column 84) (formatInt 4 (shownValue fm k (ps.values.getD k 0)))

/-- A row whose number fits shows its parameter. -/
theorem showsParam_of_row {o : Oled} {ps : Params} {i k : ℕ} (hk : k < 7)
    (fit : TextFits ((shownNumbers fm ps).getD k 0)) {marker : List Char}
    (two : marker.length = 2)
    (h : Shows o i 1 ((setUiRow fm ps k).take 4 ++ marker ++ (setUiRow fm ps k).drop 6)) :
    ShowsParam fm o ps i k := by
  have label := length_ss k hk
  generalize hlabel : (ss.getD k "").toList = text at label
  generalize hnumber : formatInt 4 ((shownNumbers fm ps).getD k 0) = number
  have short : number.length ≤ 4 := by
    rw [TextFits, hnumber] at fit
    exact fit
  have row : setUiRow fm ps k = text.take 14 ++ number := by
    rw [setUiRow, hlabel, hnumber, addNumString, List.take_of_length_le short]
  have long : (text.take 14).length = 14 := by
    rw [List.length_take]
    omega
  rw [row, List.take_append_of_le_length (by omega), List.drop_append_of_le_length (by omega)] at h
  have head : ((text.take 14).take 4 ++ marker).length = 6 := by
    rw [List.length_append, List.length_take, long, two]
    rfl
  have tail : ((text.take 14).drop 6).length = 8 := by
    rw [List.length_drop, long]
  refine ⟨?_, ?_⟩
  · rw [← List.append_assoc] at h
    have part := h.part
    rw [head] at part
    rw [hlabel]
    exact part
  · rw [← List.append_assoc, ← List.append_nil (_ ++ number)] at h
    have part := h.part
    rw [List.length_append, head, tail] at part
    rw [← shownNumbers_getD fm ps hk, hnumber]
    exact part

/-- The marker is in front of its row and of no other. -/
theorem Displayed.markerAt {u : SetUi} {ps : Params} {o : Oled} (shown : Displayed fm u ps o)
    (ok : u.Ok) {i : ℕ} (hi : 2 ≤ i) (hi' : i ≤ 7) : Shows o i (column 24) (markerAt u i) := by
  have part := (shown i hi hi').part
  rwa [List.length_take, length_setUiRow fm _ (ok.index hi hi')] at part

theorem Displayed.marker {u : SetUi} {ps : Params} {o : Oled} (shown : Displayed fm u ps o)
    (ok : u.Ok) :
    Shows o u.setArrow (column 24) (if u.arrowState = 0 then "->" else "- ").toList := by
  have marked := shown.markerAt fm ok ok.setArrow_ge ok.setArrow_le
  rwa [CannonCar.markerAt, if_pos rfl] at marked

theorem Displayed.showsMarker_iff {u : SetUi} {ps : Params} {o : Oled}
    (shown : Displayed fm u ps o) (ok : u.Ok) {i : ℕ} (hi : 2 ≤ i) (hi' : i ≤ 7) :
    ShowsMarker o i ↔ i = u.setArrow := by
  constructor
  · intro drawn
    by_contra elsewhere
    have blank := shown.markerAt fm ok hi hi'
    rw [CannonCar.markerAt, if_neg elsewhere] at blank
    exact not_showsMarker_of_blank blank drawn
  · rintro rfl
    have marked := shown.marker fm ok
    split_ifs at marked
    · exact Or.inl marked
    · exact Or.inr marked

/-- Every row shows the parameter of its place in the table. -/
theorem Displayed.showsParam {u : SetUi} {ps : Params} {o : Oled} (shown : Displayed fm u ps o)
    (ok : u.Ok) (fits : NumbersFit fm ps) {i : ℕ} (hi : 2 ≤ i) (hi' : i ≤ 7) :
    ShowsParam fm o ps i (u.page + i - 2) := by
  have inside : u.page + i - 2 < (shownNumbers fm ps).length := ok.index hi hi'
  have fit : TextFits ((shownNumbers fm ps).getD (u.page + i - 2) 0) := by
    rw [List.getD_eq_getElem _ _ inside]
    exact fits.2 _ (List.getElem_mem inside)
  have two : (CannonCar.markerAt u i).length = 2 := by
    unfold CannonCar.markerAt
    split_ifs <;> rfl
  exact showsParam_of_row fm (ok.index hi hi') fit two (shown i hi hi')

/-! ## Edits -/

/-- The value of parameter `k` one step up (key 1) or down (key 2): 0.1 for a gain, 1 for
the speed. -/
def steppedValue (key k : ℕ) (v : ℚ) : ℚ :=
  if k < 6 then
    fm.rnd (fm.rndD (if key = 1 then v + fm.rndD (1 / 10) else v - fm.rndD (1 / 10)))
  else if key = 1 then v + 1 else v - 1

/-- The wrap of parameter `k`: to 0 above 99.9 for the speed gains and above 999 for the
speed; the steering gains have none. -/
def wrappedValue (k : ℕ) (v : ℚ) : ℚ :=
  if (k < 3 ∧ v > fm.rndD (999 / 10)) ∨ (k = 6 ∧ v > 999) then 0 else v

/-- An edit is a step and a wrap. -/
theorem editValue_eq {key k : ℕ} (hkey : key = 1 ∨ key = 2) (hk : k < 7) {ps : Params}
    (fit : TextFits ps.speed) :
    editValue fm key k (ps.values.getD k 0) =
      wrappedValue fm k (steppedValue fm key k (ps.values.getD k 0)) := by
  obtain ⟨low, high⟩ := (textFits_iff ps.speed).mp fit
  have gain : ∀ g, stepGain fm key g =
      fm.rnd (fm.rndD (if key = 1 then g + fm.rndD (1 / 10) else g - fm.rndD (1 / 10))) := by
    intro g
    rcases hkey with rfl | rfl <;> rfl
  have speed : stepSpeed key ps.speed = if key = 1 then ps.speed + 1 else ps.speed - 1 := by
    have up : toSigned 32 (ps.speed + 1) = ps.speed + 1 :=
      toSigned_eq_self ⟨by norm_num; omega, by norm_num; omega⟩
    have down : toSigned 32 (ps.speed - 1) = ps.speed - 1 :=
      toSigned_eq_self ⟨by norm_num; omega, by norm_num; omega⟩
    rcases hkey with rfl | rfl
    · exact up
    · exact down
  unfold editValue wrappedValue steppedValue
  by_cases speedGain : k < 3
  · have other : k ≠ 6 := by omega
    rw [if_pos speedGain, if_pos (show k < 6 by omega), editSpeedGain, gain]
    simp only [speedGain, other, true_and, false_and, or_false]
  · by_cases turnGain : k < 6
    · have other : k ≠ 6 := by omega
      rw [if_neg speedGain, if_pos turnGain, if_pos turnGain, editTurnGain, gain]
      simp only [speedGain, other, false_and, or_false, if_false]
    · obtain rfl : k = 6 := by omega
      have value : ps.values.getD 6 0 = (ps.speed : ℚ) := rfl
      rw [if_neg speedGain, if_neg turnGain, if_neg turnGain, value, Rat.num_intCast, editSpeed,
        speed]
      have compare : ∀ v : ℤ, ((if v > 999 then 0 else v : ℤ) : ℚ) =
          if (v : ℚ) > 999 then 0 else (v : ℚ) := by
        intro v
        have same : (v : ℚ) > 999 ↔ v > 999 := by exact_mod_cast Iff.rfl
        simp only [same]
        split_ifs <;> simp
      have cast : ((if key = 1 then ps.speed + 1 else ps.speed - 1 : ℤ) : ℚ) =
          if key = 1 then (ps.speed : ℚ) + 1 else (ps.speed : ℚ) - 1 := by
        split_ifs <;> push_cast <;> rfl
      rw [compare, cast]
      simp only [speedGain, false_and, true_and, false_or]

/-- The event does not hand a key to the UI task. -/
def Event.Keyless : Event → Prop
  | key _ => False
  | _ => True

/-- Between two keys, where the pending edits lead to stays the same. -/
theorem edited_run {later : List Event} (keyless : ∀ e ∈ later, e.Keyless) (s : Sys) :
    let s' := Trajectory.run (sysStep fm) s later
    edited fm s'.pending s'.panel.params = edited fm s.pending s.panel.params := by
  induction later generalizing s with
  | nil => rfl
  | cons e later ih =>
      have here : edited fm (sysStep fm s e).pending (sysStep fm s e).panel.params =
          edited fm s.pending s.panel.params := by
        cases e with
        | key k => exact (keyless _ List.mem_cons_self).elim
        | ui =>
            cases next : s.pending with
            | nil => simp only [sysStep, next]
            | cons a rest =>
                simp only [sysStep, next]
                rw [exec_pending, exec_panel, params_onPanel_eq]
                rfl
        | tick count => rfl
        | turn => rfl
        | ad sensors => rfl
      rw [run_cons]
      exact (ih (fun b hb => keyless b (List.mem_cons_of_mem _ hb)) _).trans here

/-- A key 1 or 2 of the edit mode, and what the parameters are at the next `OSMboxPend`. -/
theorem values_edit {s : Sys} (waiting : s.pending = []) (here : s.page = .set)
    (ok : s.task.setUi.Ok) (fit : TextFits s.panel.params.speed) {key : ℕ}
    (hkey : key = 1 ∨ key = 2) (editing : s.task.setUi.arrowState = 1) {later : List Event}
    (keyless : ∀ e ∈ later, e.Keyless)
    (done : (Trajectory.run (sysStep fm) s (.key key :: later)).pending = []) :
    let k := s.task.setUi.page + s.task.setUi.setArrow - 2
    (Trajectory.run (sysStep fm) s (.key key :: later)).panel.params.values =
      s.panel.params.values.set k
        (wrappedValue fm k (steppedValue fm key k (s.panel.params.values.getD k 0))) := by
  intro k
  have pressed : s.task.setUi.pressed key = s.task.setUi := by
    have nonzero : s.task.setUi.arrowState ≠ 0 := by omega
    rcases hkey with rfl | rfl <;> simp [SetUi.pressed, nonzero]
  have stays : ¬ s.task.setUi.Leaves key := fun leaves => leaves.2 editing
  have item : s.task.setUi.item - 1 = k := by
    have := ok.item_eq
    omega
  have step : sysStep fm s (.key key) = s.consume fm key := if_pos waiting
  have edit : edited fm (s.consume fm key).pending s.panel.params =
      editItem fm key s.task.setUi.item s.panel.params := by
    have list : (s.consume fm key).pending = (setUiLoop fm key s.task s.panel.params).2 := by
      simp only [Sys.consume, here, uiResume, if_neg stays]
    rw [list, edited_setUiLoop, pressed, if_pos (by omega)]
  rw [run_cons, step] at done ⊢
  have whole := edited_run fm keyless (s.consume fm key)
  dsimp only at whole
  rw [done] at whole
  have params : (Trajectory.run (sysStep fm) (s.consume fm key) later).panel.params =
      editItem fm key s.task.setUi.item s.panel.params := whole.trans edit
  have hk : k < 7 := by
    have := ok.page_le
    have := ok.setArrow_le
    omega
  rw [params, values_editItem fm key ok.item_mem.1 ok.item_mem.2, item,
    editValue_eq fm hkey hk fit]

/-- **Cursor, table and edits of `Set_UI` belong together.**  In every run from
`speedInit`, at every `OSMboxPend` of `Set_UI`: the three statics are in order; exactly
the row at `SetArrow` shows a marker, `->` outside the edit mode and `- ` in it; and
while the numbers fit their columns, every row shows its parameter, and a key 1 or 2 of
the edit mode steps the parameter of the marked row, or wraps it to 0, and no other. -/
theorem setUi_coherent (clock : ℕ) (flash : Flash) (sensors : Sensors) (es : List Event)
    (waiting : (sysAt fm clock flash sensors es).pending = [])
    (here : (sysAt fm clock flash sensors es).page = .set) :
    let s := sysAt fm clock flash sensors es
    let u := s.task.setUi
    (u.item = u.page + u.setArrow - 1 ∧ (2 ≤ u.setArrow ∧ u.setArrow ≤ 7) ∧
        (u.page = 0 ∨ u.page = 1) ∧ (1 ≤ u.item ∧ u.item ≤ 7) ∧
        ∀ i, 2 ≤ i → i ≤ 7 → u.page + i - 2 < 7) ∧
      ((∀ i, 2 ≤ i → i ≤ 7 → (ShowsMarker s.panel.oled i ↔ i = u.setArrow)) ∧
        (u.arrowState = 0 ∨ u.arrowState = 1) ∧
        Shows s.panel.oled u.setArrow (column 24)
          (if u.arrowState = 0 then "->" else "- ").toList) ∧
      (NumbersFit fm s.panel.params →
        (∀ i, 2 ≤ i → i ≤ 7 →
          ShowsParam fm s.panel.oled s.panel.params i (u.page + i - 2)) ∧
        ∀ key, key = 1 ∨ key = 2 → u.arrowState = 1 →
          ∀ later : List Event, (∀ e ∈ later, e.Keyless) →
            let s' := Trajectory.run (sysStep fm) s (.key key :: later)
            s'.pending = [] →
              let k := u.page + u.setArrow - 2
              s'.panel.params.values =
                s.panel.params.values.set k
                  (wrappedValue fm k
                    (steppedValue fm key k (s.panel.params.values.getD k 0)))) := by
  intro s u
  have leads : Leads fm (s.task, s.pending) s.page s.panel.params s.panel.oled :=
    leads_sysAt fm clock flash sensors es
  rw [show s.pending = [] from waiting, show s.page = .set from here] at leads
  have ok : u.Ok := leads.1
  -- Nothing is pending, so what the actions lead to is what is on the panel now.
  have shown : Displayed fm u s.panel.params s.panel.oled := (leads.2 rfl).2
  have page : u.page = 0 ∨ u.page = 1 := Nat.le_one_iff_eq_zero_or_eq_one.mp ok.page_le
  have mode : u.arrowState = 0 ∨ u.arrowState = 1 :=
    Nat.le_one_iff_eq_zero_or_eq_one.mp ok.arrowState_le
  refine ⟨⟨ok.item_eq, ⟨ok.setArrow_ge, ok.setArrow_le⟩, page, ok.item_mem, fun i => ok.index⟩,
    ⟨fun i => shown.showsMarker_iff fm ok, mode, shown.marker fm ok⟩, ?_⟩
  intro fits
  refine ⟨fun i => shown.showsParam fm ok fits, ?_⟩
  intro key hkey editing later keyless s' done k
  have speed : TextFits s.panel.params.speed := fits.2 _ (by simp [shownNumbers])
  exact values_edit fm waiting here ok speed hkey editing keyless done

/-- From power-up into `Set_UI`, one row down, and into the edit mode. -/
def editSecondRow : List Event :=
  List.flatten [uiSteps 12, [.key 2], uiSteps 4, [.key 2], uiSteps 4, [.key 3], uiSteps 14,
    [.key 2], uiSteps 8, [.key 3], uiSteps 8]

theorem setUi_coherent_editSecondRow :
    let s := sysAt .exact 50000000 (fun _ => 0) noSensors editSecondRow
    (∀ i, 2 ≤ i → i ≤ 7 → (ShowsMarker s.panel.oled i ↔ i = 3)) ∧
      (Trajectory.run (sysStep .exact) s (.key 1 :: uiSteps 8)).panel.params.values =
        [0, 1 / 10, 0, 0, 0, 0, 0] := by
  intro s
  obtain ⟨-, ⟨marker, -, -⟩, edits⟩ := setUi_coherent .exact 50000000 (fun _ => 0) noSensors
    editSecondRow (by decide +kernel) (by decide +kernel)
  have arrow : s.task.setUi.setArrow = 3 := by decide +kernel
  have edit := (edits (by decide +kernel)).2 1 (Or.inl rfl) (by decide +kernel) (uiSteps 8)
    (by simp [uiSteps, Event.Keyless]) (by decide +kernel)
  refine ⟨arrow ▸ marker, edit.trans ?_⟩
  decide +kernel

end CannonCar
