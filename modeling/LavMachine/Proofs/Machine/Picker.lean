import Mathlib
import LavMachine.Proofs.Machine.Footprint
import LavMachine.Proofs.Machine.Painting
import LavMachine.Proofs.Memory.Strings
set_option autoImplicit false

/-!
The picker as a cursor over its list. The scroll position and the highlighted line are two counters
of the program; a user sees only their sum, which the keys move up and down between the ends of the
list. Every redraw shows a stretch of the list with the selected name in it, and its bar lies on the
line of that name.
-/
namespace LavMachine.Picker

structure Menu where
  names : List Bytes
  width : Nat
  height : Nat
  keys : KeyMap

namespace Menu

def rows (menu : Menu) : Nat := max 1 (menu.height / lineHeight)

/-- The selection after a key that does not end the visit. -/
def target (menu : Menu) (sel : Nat) (key : Word) : Nat :=
  if key = menu.keys.down ∨ key = menu.keys.right then min (sel + 1) (menu.names.length - 1)
  else if key = menu.keys.up ∨ key = menu.keys.left then sel - 1
  else sel

end Menu

/-- What a redraw shows when the name with the number `sel` is selected. -/
structure View (menu : Menu) (sel : Nat) where
  first : Nat
  lines : List (Int16 × Bytes)
  right : Int16
  bottom : Int16
  barTop : Int16
  barBottom : Int16
  first_le : first ≤ sel
  names_lines : lines.map Prod.snd = (menu.names.drop first).take menu.rows
  edge_lines {row : Nat} {line : Int16 × Bytes} :
    lines[row]? = some line → line.1.toInt = row * lineHeight
  bar : ∃ name, menu.names[sel]? = some name ∧ lines[sel - first]? = some (barTop, name)
  bar_height : barBottom.toInt = barTop.toInt + lineHeight - 1
  right_eq : right.toInt = menu.width - 1
  bottom_eq : bottom.toInt = menu.height - 1

def View.calls {menu : Menu} {sel : Nat} (v : View menu sel) : List DisplayCall :=
  [.setMode (DrawMode.clear ||| DrawMode.fill ||| DrawMode.graph), .rectangle 0 0 v.right v.bottom,
    .setMode (DrawMode.copy ||| DrawMode.graph)] ++
  v.lines.map (fun line => .string 0 line.1 line.2) ++
  [.setMode (DrawMode.not ||| DrawMode.fill ||| DrawMode.graph),
    .rectangle 0 v.barTop v.right v.barBottom]

inductive Ending where
  | chosen (name : Bytes)
  | left
  | failed (e : DeviceFailure)

variable {κ φ : Type}

def Ending.result (a : Nat) (w : World κ φ) : Ending → EStateM.Result Fault (World κ φ) Word
  | .chosen name => .ok (Word.ofBool true) { w with memory := w.memory.writeBlock a (name ++ [0]) }
  | .left => .ok (Word.ofBool false) w
  | .failed e => .error e.fault w

def Shows (menu : Menu) (sel : Nat) (w v : World κ φ) : Prop :=
  ∃ view : View menu sel, World.paint view.calls w = .ok () v

/-- From the selection `sel` on, keys are read until one of them ends the visit. The screen is
redrawn once for each key that changes the selection. -/
inductive Visits [Keyboard κ] (menu : Menu) : Nat → World κ φ → Ending → World κ φ → Prop where
  | enter {sel : Nat} {w v : World κ φ} {name : Bytes} :
    World.ask .rawKey w = .ok (.ok menu.keys.enter) v →
    menu.names[sel]? = some name → Visits menu sel w (.chosen name) v
  | escape {sel : Nat} {w v : World κ φ} : World.ask .rawKey w = .ok (.ok menu.keys.escape) v →
    menu.keys.escape ≠ menu.keys.enter → Visits menu sel w .left v
  | failed {sel : Nat} {w v : World κ φ} {e : DeviceFailure} :
    World.ask .rawKey w = .ok (.error e) v →
    Visits menu sel w (.failed e) v
  | stay {sel : Nat} {w v u : World κ φ} {key : Word} {ending : Ending} :
    World.ask .rawKey w = .ok (.ok key) v →
    key ≠ menu.keys.enter → key ≠ menu.keys.escape → menu.target sel key = sel →
    Visits menu sel v ending u → Visits menu sel w ending u
  | move {sel : Nat} {w v shown u : World κ φ} {key : Word} {ending : Ending} :
    World.ask .rawKey w = .ok (.ok key) v →
    key ≠ menu.keys.enter → key ≠ menu.keys.escape → menu.target sel key ≠ sel →
    Shows menu (menu.target sel key) v shown → Visits menu (menu.target sel key) shown ending u →
    Visits menu sel w ending u

/-- The two counters stand for the selection `sel`, and its line is on the screen. -/
structure Stands (menu : Menu) (sel : Nat) (s : State) : Prop where
  names : s.names.toList = menu.names
  rows : s.rows = menu.rows
  selected : s.first + s.current = sel
  current_lt : s.current < s.rows

namespace Stands

variable {menu : Menu} {sel : Nat} {s t : State}

theorem size_names (h : Stands menu sel s) : s.names.size = menu.names.length := by
  rw [← h.names, Array.length_toList]

theorem sel_lt (h : Stands menu sel s) : sel < menu.names.length := by
  rw [← h.size_names, ← h.selected]
  exact s.selected_lt

theorem getElem?_names (h : Stands menu sel s) : menu.names[sel]? = some s.chosen := by
  have hchosen : s.names[s.first + s.current]? = some s.chosen :=
    Array.getElem?_eq_getElem s.selected_lt
  rw [← h.names, ← h.selected, Array.getElem?_toList, hchosen]

theorem down? (h : Stands menu sel s) :
    (s.down? = none ∧ min (sel + 1) (menu.names.length - 1) = sel) ∨
    ∃ t, s.down? = some t ∧ Stands menu (min (sel + 1) (menu.names.length - 1)) t ∧
      min (sel + 1) (menu.names.length - 1) ≠ sel := by
  have hsize := h.size_names
  have hsel := h.selected
  have hlt := h.sel_lt
  by_cases hlast : s.first + s.current ≥ s.names.size - 1
  · exact .inl ⟨dif_pos hlast, by omega⟩
  · have hmin : min (sel + 1) (menu.names.length - 1) = sel + 1 := by omega
    rw [hmin]
    right
    by_cases hroom : s.current + 1 < s.rows
    · exact ⟨_, (dif_neg hlast).trans (if_pos hroom),
        ⟨h.names, h.rows, by simp only; omega, hroom⟩, by omega⟩
    · exact ⟨_, (dif_neg hlast).trans (if_neg hroom),
        ⟨h.names, h.rows, by simp only; omega, h.current_lt⟩, by omega⟩

theorem up? (h : Stands menu sel s) :
    (s.up? = none ∧ sel - 1 = sel) ∨ ∃ t, s.up? = some t ∧ Stands menu (sel - 1) t ∧
    sel - 1 ≠ sel := by
  have hsel := h.selected
  have hcurrent := h.current_lt
  by_cases hfirst : s.first + s.current = 0
  · exact .inl ⟨if_pos (beq_iff_eq.2 hfirst), by omega⟩
  · right
    by_cases hroom : s.current > 0
    · exact ⟨_, (if_neg (mt beq_iff_eq.1 hfirst)).trans (if_pos hroom),
        ⟨h.names, h.rows, by simp only; omega, by simp only; omega⟩, by omega⟩
    · exact ⟨_, (if_neg (mt beq_iff_eq.1 hfirst)).trans (if_neg hroom),
        ⟨h.names, h.rows, by simp only; omega, h.current_lt⟩, by omega⟩

end Stands

inductive Chooses (menu : Menu) (sel : Nat) (key : Word) : Choice → Prop where
  | enter : key = menu.keys.enter → Chooses menu sel key .enter
  | escape : key ≠ menu.keys.enter → key = menu.keys.escape → Chooses menu sel key .escape
  | stay {c : Choice} : key ≠ menu.keys.enter → key ≠ menu.keys.escape → menu.target sel key = sel →
    c = .move none ∨ c = .other → Chooses menu sel key c
  | move {t : State} : key ≠ menu.keys.enter → key ≠ menu.keys.escape → menu.target sel key ≠ sel →
    Stands menu (menu.target sel key) t → Chooses menu sel key (.move (some t))

theorem chooses_choose {menu : Menu} {sel : Nat} {s : State} (h : Stands menu sel s) (key : Word) :
    Chooses menu sel key (choose menu.keys s key) := by
  unfold choose
  simp only [beq_iff_eq, Bool.or_eq_true]
  split
  · rename_i henter
    exact .enter henter
  rename_i henter
  split
  · rename_i hescape
    exact .escape henter hescape
  rename_i hescape
  split
  · rename_i hdown
    have htarget : menu.target sel key = min (sel + 1) (menu.names.length - 1) := if_pos hdown
    obtain ⟨hnone, hsel⟩ | ⟨t, hsome, ht, hsel⟩ := h.down?
    · exact .stay henter hescape (htarget.trans hsel) (.inl (congrArg _ hnone))
    · rw [hsome]
      exact .move henter hescape (htarget ▸ hsel) (htarget ▸ ht)
  rename_i hdown
  split
  · rename_i hup
    have htarget : menu.target sel key = sel - 1 := by rw [Menu.target, if_neg hdown, if_pos hup]
    obtain ⟨hnone, hsel⟩ | ⟨t, hsome, ht, hsel⟩ := h.up?
    · exact .stay henter hescape (htarget.trans hsel) (.inl (congrArg _ hnone))
    · rw [hsome]
      exact .move henter hescape (htarget ▸ hsel) (htarget ▸ ht)
  · rename_i hup
    have htarget : menu.target sel key = sel := by rw [Menu.target, if_neg hdown, if_neg hup]
    exact .stay henter hescape htarget (.inr rfl)

section Redraw

variable {menu : Menu} {sel : Nat} {s : State} (h : Stands menu sel s) (hwidth : menu.width ≤ 32767)
  (hheight : menu.height ≤ 32767)

include hheight in
theorem Menu.bar_le {row : Nat} (hrow : row < menu.rows) : row * lineHeight + 12 ≤ 32767 := by
  -- The only line of a screen that is too low for one sticks out of it, but no coordinate wraps.
  simp only [Menu.rows, lineHeight] at *
  omega

include hheight in
theorem Menu.toInt_edge {row : Nat} (hrow : row < menu.rows) :
    (Int16.ofNat (row * lineHeight)).toInt = row * lineHeight := by
  have hbar := menu.bar_le hheight hrow
  exact Int16.toInt_ofNat_of_lt (by omega)

theorem toInt_ofNat_sub_one {side : Nat} (hside : side ≤ 32767) :
    (Int16.ofNat side - 1).toInt = side - 1 := by
  have hone : (1 : Int16).toInt = 1 := by decide
  rw [Int16.toInt_sub, Int16.toInt_ofNat_of_lt (by omega), hone, Int.bmod_eq_of_le] <;> omega

include h in
theorem Stands.visible_eq : s.visible = ((menu.names.drop s.first).take menu.rows).zipIdx := by
  rw [State.visible, Array.toList_extract, List.extract_eq_take_drop, h.names, h.rows,
    Nat.add_sub_cancel_left]

include h in
theorem Stands.getElem?_visible (row : Nat) :
    s.visible[row]? = if row < menu.rows then menu.names[s.first + row]?.map (·, row)
      else none := by
  rw [h.visible_eq, List.getElem?_zipIdx, List.getElem?_take, List.getElem?_drop, Nat.zero_add]
  split <;> rfl

def Stands.view : View menu sel where
  first := s.first
  lines := s.visible.map fun line => (Int16.ofNat (line.2 * lineHeight), line.1)
  right := Int16.ofNat menu.width - 1
  bottom := Int16.ofNat menu.height - 1
  barTop := Int16.ofNat (s.current * lineHeight)
  barBottom := Int16.ofNat (s.current * lineHeight) + 12
  first_le := h.selected ▸ Nat.le_add_right _ _
  names_lines := by
    rw [h.visible_eq, List.map_map]
    exact List.zipIdx_map_fst 0 _
  edge_lines {row line} hline := by
    rw [List.getElem?_map, h.getElem?_visible] at hline
    split at hline
    · rename_i hrow
      simp only [Option.map_map, Option.map_eq_some_iff] at hline
      obtain ⟨name, _, rfl⟩ := hline
      exact menu.toInt_edge hheight hrow
    · cases hline
  bar := by
    have hline : sel - s.first = s.current := by rw [← h.selected, Nat.add_sub_cancel_left]
    have hname : menu.names[s.first + s.current]? = some s.chosen := h.selected ▸ h.getElem?_names
    refine ⟨s.chosen, h.getElem?_names, ?_⟩
    rw [hline, List.getElem?_map, h.getElem?_visible, if_pos (h.rows ▸ h.current_lt), hname]
    rfl
  bar_height := by
    have hrow : s.current < menu.rows := h.rows ▸ h.current_lt
    have hbar := menu.bar_le hheight hrow
    have htwelve : (12 : Int16).toInt = 12 := by decide
    rw [Int16.toInt_add, menu.toInt_edge hheight hrow, htwelve, Int.bmod_eq_of_le] <;>
      simp only [lineHeight] at * <;>
      omega
  right_eq := toInt_ofNat_sub_one hwidth
  bottom_eq := toInt_ofNat_sub_one hheight

theorem forM_string (lines : List (Bytes × Nat)) :
    (lines.forM fun (name, row) =>
      World.draw (.string 0 (Int16.ofNat (row * lineHeight)) name) : Effect κ φ Unit) =
      World.paint ((lines.map fun line => (Int16.ofNat (line.2 * lineHeight), line.1)).map
        fun line => .string 0 line.1 line.2) := by
  induction lines with
  | nil => rfl
  | cons line lines ih =>
    change (World.draw _ >>= fun _ => lines.forM _) = World.draw _ >>= fun _ => World.paint _
    rw [ih]

theorem redraw_eq_paint :
    (redraw (Int16.ofNat menu.width) (Int16.ofNat menu.height) s : Effect κ φ Unit) =
    World.paint (h.view hwidth hheight).calls := by
  simp only [redraw, forM_string, View.calls, World.paint_append, World.paint, Stands.view,
    bind_assoc, bind_pure_unit]

end Redraw

theorem View.repaints {menu : Menu} {sel : Nat} (view : View menu sel) (w : World κ φ) :
    ∃ v, World.paint view.calls w = .ok () v ∧ w.Repaints v ∧ v.keyboard = w.keyboard := by
  have hclear :
      DisplayCall.OnGraph (.setMode (DrawMode.clear ||| DrawMode.fill ||| DrawMode.graph)) :=
    .setMode (by decide)
  obtain ⟨answer, v, hdraw, hrepaints, hv, hkeyboard⟩ :=
    World.repaints_draw (w := w) hclear (.inr ⟨_, rfl⟩)
  -- The mode may have been any before the first call, so that one is drawn apart.
  have hrest : ∀ c ∈ view.calls.tail, c.OnGraph := by
    simp only [View.calls, List.cons_append, List.nil_append, List.tail_cons, List.mem_cons,
      List.mem_append, List.mem_map, List.not_mem_nil, or_false]
    rintro c (rfl | rfl | ⟨line, _, rfl⟩ | rfl | rfl)
    · exact .rectangle _ _ _ _
    · exact .setMode (by decide)
    · exact .string _ _ _
    · exact .setMode (by decide)
    · exact .rectangle _ _ _ _
  obtain ⟨u, hpaint, hrepaints', hkeyboard'⟩ := World.repaints_paint hrest hv
  refine ⟨u, ?_, hrepaints.trans hrepaints', hkeyboard'.trans hkeyboard⟩
  change (World.draw _ >>= fun _ => World.paint view.calls.tail) w = _
  simp only [bind, EStateM.bind, hdraw, hpaint]

section Run

variable {menu : Menu} (hwidth : menu.width ≤ 32767) (hheight : menu.height ≤ 32767)

include hwidth hheight in
theorem shows_redraw {sel : Nat} {s : State} (h : Stands menu sel s) (w : World κ φ) :
    ∃ v, redraw (Int16.ofNat menu.width) (Int16.ofNat menu.height) s w = .ok () v ∧
      Shows menu sel w v ∧
      w.Repaints v ∧ v.keyboard = w.keyboard := by
  rw [redraw_eq_paint h hwidth hheight]
  obtain ⟨v, hpaint, hrepaints⟩ := (h.view hwidth hheight).repaints w
  exact ⟨v, hpaint, ⟨_, hpaint⟩, hrepaints⟩

variable [Keyboard κ]

def Ending.choice (w : World κ φ) : Ending → EStateM.Result Fault (World κ φ) (Option Bytes)
  | .chosen name => .ok (some name) w
  | .left => .ok none w
  | .failed e => .error e.fault w

include hwidth hheight in
theorem visits_run {sel fuel : Nat} {s : State} (h : Stands menu sel s) {w : World κ φ}
    (hfuel : Keyboard.supply w.keyboard ≤ fuel) :
    ∃ ending v, Visits menu sel w ending v ∧ w.Repaints v ∧
      run (Int16.ofNat menu.width) (Int16.ofNat menu.height) menu.keys fuel s w =
        ending.choice v := by
  -- Every key that is read lowers the supply, so the fuel outlasts it.
  induction fuel generalizing sel s w with
  | zero =>
    rcases hanswer : Keyboard.answer .rawKey w.keyboard w.bus with ⟨e | key, keyboard, bus⟩
    · exact ⟨.failed e, _, .failed (ask_of_answer hanswer), .of_eq rfl rfl, run_of_error hanswer⟩
    · have hless := Keyboard.supply_rawKey hanswer
      omega
  | succ fuel ih =>
    rcases hanswer : Keyboard.answer .rawKey w.keyboard w.bus with ⟨e | key, keyboard, bus⟩
    · exact ⟨.failed e, _, .failed (ask_of_answer hanswer), .of_eq rfl rfl, run_of_error hanswer⟩
    · have hless := Keyboard.supply_rawKey hanswer
      have hask := ask_of_answer hanswer
      have hrepaints : w.Repaints { w with keyboard, bus } := .of_eq rfl rfl
      rw [run_of_ok hanswer]
      have hchooses := chooses_choose h key
      generalize choose menu.keys s key = c at hchooses
      cases hchooses with
      | enter henter =>
        subst henter
        exact ⟨.chosen s.chosen, _, .enter hask h.getElem?_names, hrepaints, rfl⟩
      | escape henter hescape =>
        subst hescape
        exact ⟨.left, _, .escape hask henter, hrepaints, rfl⟩
      | stay henter hescape htarget hc =>
        obtain ⟨ending, u, hvisits, hrepaints', hrun⟩ :=
          ih h (w := { w with keyboard, bus }) (by simp only; omega)
        refine ⟨ending, u, .stay hask henter hescape htarget hvisits,
          hrepaints.trans hrepaints', ?_⟩
        obtain rfl | rfl := hc <;> exact hrun
      | move henter hescape htarget ht =>
        obtain ⟨shown, hredraw, hshows, hrepaints', hkeyboard⟩ :=
          shows_redraw hwidth hheight ht { w with keyboard, bus }
        obtain ⟨ending, u, hvisits, hrepaints'', hrun⟩ :=
          ih ht (w := shown) (by rw [hkeyboard]; simp only; omega)
        refine ⟨ending, u, .move hask henter hescape htarget hshows hvisits,
          hrepaints.trans (hrepaints'.trans hrepaints''), ?_⟩
        simp only [bind, EStateM.bind, hredraw]
        exact hrun

end Run

section Pick

variable [Keyboard κ] [Disk φ] (w : World κ φ)

def menu : Menu :=
  ⟨offers w, w.config.screenWidth, w.config.screenHeight, Keyboard.keyMap w.keyboard⟩

theorem stands_ofNames : Stands (menu w) 0 (.ofNames (listing w) w.config.screenHeight) where
  names := rfl
  rows := Nat.max_comm _ _
  selected := rfl
  current_lt := lt_max_of_lt_right Nat.one_pos

theorem pick_eq (a : Nat) {shown closed : World κ φ} {ending : Ending}
    (hredraw : redraw (Int16.ofNat w.config.screenWidth) (Int16.ofNat w.config.screenHeight)
      (.ofNames (listing w) w.config.screenHeight) (opened w) = .ok () shown)
    (hrun : run (Int16.ofNat w.config.screenWidth) (Int16.ofNat w.config.screenHeight)
      (Keyboard.keyMap w.keyboard)
      (Keyboard.supply w.keyboard) (.ofNames (listing w) w.config.screenHeight) shown =
      ending.choice closed) :
    pick a w = ending.result a closed := by
  rw [pick_eq_run a hredraw]
  simp only [bind, EStateM.bind, hrun]
  cases ending with
  | chosen name =>
    simp only [Ending.choice, Ending.result, Memory.writeBlock_concat]
    rfl
  | left | failed e => rfl

/-- The picker shows its list with the first name selected and follows the keys from there. Besides
a chosen name, the redraws are all that memory shows of it, in the visible plane of a screen. -/
theorem pick_follows_cursor (a : Nat) (hwidth : w.config.screenWidth ≤ 32767)
    (hheight : w.config.screenHeight ≤ 32767) :
    ∃ shown ending closed, Shows (menu w) 0 (opened w) shown ∧
      Visits (menu w) 0 shown ending closed ∧
      pick a w = ending.result a closed ∧
      ((∀ p, w.display ≠ .screen p) → closed.memory = w.memory) ∧
      (∀ b, (∀ i, w.memory.cell b ≠ .window graphSlot i) →
        closed.memory.getByte b = w.memory.getByte b) ∧
      ∀ name, ending = .chosen name → w.memory.Unshared → name.length < addressSpace →
        closed.memory.Receives a (name ++ [0]) (closed.memory.writeBlock a (name ++ [0])) := by
  have hstands := stands_ofNames w
  obtain ⟨shown, hredraw, hshows, hrepaints, hkeyboard⟩ :=
    shows_redraw hwidth hheight hstands (opened w)
  have hfuel : Keyboard.supply shown.keyboard ≤ Keyboard.supply w.keyboard := by
    rw [hkeyboard]
    exact Nat.le_refl _
  obtain ⟨ending, closed, hvisits, hrepaints', hrun⟩ := visits_run hwidth hheight hstands hfuel
  have hopened : w.Repaints (opened w) := .of_eq rfl rfl
  have hmemory : w.Repaints closed := hopened.trans (hrepaints.trans hrepaints')
  refine ⟨shown, ending, closed, hshows, hvisits, ?_, hmemory.screenless,
    fun b => hmemory.getByte_eq, ?_⟩
  · exact pick_eq w a hredraw hrun
  · rintro name rfl hshare hlength
    exact Memory.receives_writeBlock (hmemory.unshared hshare) a (by simpa using hlength)

end Pick

def scripted (config : Config) (display : Display) (memory : Memory) (keys : List Word)
    (names : List String) :
    World ScriptedKeyboard RecordingDisk where
  config := config
  memory := memory
  seed := 0
  display := display
  teletype := .detached
  keyboard := { keys := keys.map some }
  disk := { names }
  bus := ⟨.running, .quiet⟩
  clock := { reading := fun _ => ⟨2000, 0, 1, 0, 0, 0, 0, 7⟩ }

theorem exists_ok_of_test (r : EStateM.Result Fault (World κ φ) Word) (answer : Word)
    (test : World κ φ → Bool)
    (h : (match r with | .ok a v => a == answer && test v | .error _ _ => false) = true) :
    ∃ v, r = .ok answer v ∧ test v := by
  cases r with
  | ok a v =>
    simp only [Bool.and_eq_true, beq_iff_eq] at h
    exact ⟨v, by rw [h.1], h.2⟩
  | error e v => cases h

/-- One line of text fits the screen, so the list scrolls under the bar. -/
theorem pick_follows_cursor_one_line :
    let memory := { Memory.blank (Pool.empty 0x1400 0xc00) #[#[], #[], #[7, 7, 7]] with
      mappings := [⟨0x2000, 2⟩] : Memory }
    let w := scripted { screenHeight := 20 } .recording memory [21, 22, 7, 21, 20, 13]
      ["a", "b", "c"]
    w.config.screenWidth ≤ 32767 ∧ w.config.screenHeight ≤ 32767 ∧
    (∃ shown ending closed, Shows (menu w) 0 (opened w) shown ∧
      Visits (menu w) 0 shown ending closed ∧
      pick 0x2000 w = ending.result 0x2000 closed ∧ closed.memory = w.memory) ∧
    ∃ v, pick 0x2000 w = .ok (Word.ofBool true) v ∧ v.memory.readBlock 0x2000 3 = [0x62, 0, 7] := by
  intro memory w
  have hwidth : w.config.screenWidth ≤ 32767 := by decide
  have hheight : w.config.screenHeight ≤ 32767 := by decide
  obtain ⟨shown, ending, closed, hshows, hvisits, hpick, hmemory, _⟩ :=
    pick_follows_cursor w 0x2000 hwidth hheight
  obtain ⟨v, hv, hbytes⟩ := exists_ok_of_test (pick 0x2000 w) (Word.ofBool true)
    (fun v => v.memory.readBlock 0x2000 3 == [0x62, 0, 7]) (by decide +kernel)
  exact ⟨hwidth, hheight, ⟨shown, ending, closed, hshows, hvisits, hpick, hmemory nofun⟩, v, hv,
    beq_iff_eq.1 hbytes⟩

/-- The planes of a screen are windows of memory: a redraw shows there even when nothing is
chosen. -/
theorem escape_leaves_painted_plane :
    let memory := { Memory.blank (Pool.empty 0x1400 0xc00) #[#[0], #[0]] with
      mappings := [⟨0, graphSlot⟩, ⟨0x640, bufferSlot⟩] : Memory }
    let w := scripted { screenWidth := 8, screenHeight := 1 } (.screen { width := 8, height := 1 })
      memory [27] ["a"]
    ∃ v, pick 0x2000 w = .ok (Word.ofBool false) v ∧ v.memory.getByte 0 ≠ w.memory.getByte 0 := by
  intro memory w
  obtain ⟨v, hv, hbyte⟩ := exists_ok_of_test (pick 0x2000 w) (Word.ofBool false)
    (fun v => v.memory.getByte 0 != w.memory.getByte 0) (by decide +kernel)
  exact ⟨v, hv, bne_iff_ne.1 hbyte⟩

end LavMachine.Picker
