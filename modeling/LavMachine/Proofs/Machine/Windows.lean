import Mathlib
import LavMachine.Machine.World
import LavMachine.Proofs.Memory.Shape
set_option autoImplicit false

namespace LavMachine

namespace Panel

structure Fits (p : Panel) : Prop where
  width_le : p.width ≤ 32767
  height_le : p.height ≤ 32767
  plane_le : p.stride * p.height ≤ addressSpace

theorem planeSize_le (p : Panel) : p.planeSize ≤ addressSpace := Nat.min_le_right _ _

theorem Fits.planeSize_eq {p : Panel} (h : p.Fits) : p.planeSize = p.stride * p.height := by
  have hside (n : Nat) (hn : n ≤ 32767) : (Int16.ofNat n).toInt.toNat = n := by
    have hsize : Int16.size = 65536 := rfl
    rw [Int16.toInt_ofNat', Int.bmod_eq_of_le] <;> omega
  rw [planeSize, imageSize, hside _ h.width_le, hside _ h.height_le]
  exact Nat.min_eq_left h.plane_le

theorem locate_lt {p : Panel} {x y : Int} {i : Nat} {mask : UInt8}
    (h : p.locate x y = some (i, mask)) :
    i < p.stride * p.height := by
  unfold locate at h
  split at h
  · rename_i hin
    obtain ⟨hx, hxw, hy, hyh⟩ := hin
    simp only [Option.some.injEq, Prod.mk.injEq] at h
    have hcol : x.toNat / 8 < p.stride := by
      unfold stride
      omega
    have hrow : y.toNat + 1 ≤ p.height := by omega
    calc i = y.toNat * p.stride + x.toNat / 8 := h.1.symm
      _ < (y.toNat + 1) * p.stride := by rw [Nat.add_mul]; omega
      _ ≤ p.height * p.stride := Nat.mul_le_mul_right _ hrow
      _ = p.stride * p.height := Nat.mul_comm _ _
  · cases h

theorem pixel_eq (p : Panel) (w : Window) (x y : Int) : p.pixel w x y =
    match p.locate x y with
    | some (i, mask) => Window.testBit w i mask
    | none => false := by
  unfold pixel look
  cases p.locate x y <;> rfl

theorem inRange_look (p : Panel) {w : Window} (hsize : w.size = p.stride * p.height) (x y : Int) :
    (p.look w x y).inRange := by
  unfold look
  cases hlocate : p.locate x y with
  | some place => exact ⟨(locate_lt hlocate).trans_eq hsize.symm, trivial⟩
  | none => trivial

end Panel

namespace Screen

structure Measures where
  width : Nat
  height : Nat
  graph : Nat
  buffer : Nat

def measures (s : Screen) : Measures := ⟨s.width, s.height, s.graph.size, s.buffer.size⟩

theorem plot_eq (s : Screen) (x y : Int) (f : Bool → Bool) : s.plot x y f =
    match s.locate x y with
    | some (i, mask) => s.onTarget fun w => Window.putBit w i mask (f (Window.testBit w i mask))
    | none => s := by
  unfold plot touch
  cases s.locate x y <;> rfl

theorem measures_plot (s : Screen) (x y : Int) (f : Bool → Bool) :
    (s.plot x y f).measures = s.measures := by
  rw [plot_eq]
  split
  · unfold onTarget
    split <;> simp [measures, Window.putBit, Window.markBit, Checked.modifyByte]
  · rfl

theorem inRange_touch (s : Screen) (hgraph : s.graph.size = s.stride * s.height)
    (hbuffer : s.buffer.size = s.stride * s.height) (x y : Int) (f : Bool → Bool) :
    (s.touch x y f).inRange := by
  have htarget : s.target.size = s.stride * s.height := by
    unfold target
    split
    · exact hgraph
    · exact hbuffer
  unfold touch
  cases hlocate : s.locate x y with
  | some place =>
    have hlt := (Panel.locate_lt hlocate).trans_eq htarget.symm
    exact ⟨⟨hlt, trivial⟩, hlt⟩
  | none => trivial

section Kept

variable {β : Type} {g : Screen → β}

theorem foldl_keeps {α : Type} {f : Screen → α → Screen} (hf : ∀ s a, g (f s a) = g s) (l : List α)
    (s : Screen) :
    g (l.foldl f s) = g s := by
  induction l generalizing s with
  | nil => rfl
  | cons a l ih => rw [List.foldl_cons, ih, hf]

variable (hplot : ∀ s x y f, g (plot s x y f) = g s)

include hplot

theorem paintAll_keeps (s : Screen) (points : List Point) : g (s.paintAll points) = g s :=
  foldl_keeps (fun s _ => hplot s _ _ _) points s

theorem drawRegion_keeps (s : Screen) (x y width height : Int16) (image : Bytes) :
    g (s.drawRegion x y width height image) = g s := by
  refine foldl_keeps (fun s row => ?_) _ s
  split
  · exact foldl_keeps (fun s _ => hplot s _ _ _) _ s
  · rfl

end Kept

theorem measures_answer (c : DisplayCall) (s : Screen) :
    (answer c s).2.1.measures = s.measures := by
  cases c with
  | point => exact s.measures_plot _ _ _
  | line | rectangle | oval => exact s.paintAll_keeps measures_plot _
  | region => exact s.drawRegion_keeps measures_plot _ _ _ _ _
  | clear => simp [answer, clear, measures, Window.zeroes]
  | refresh => simp [answer, refresh, measures, Window.copyFrom]
  | transform => simp [answer, transform, measures]
  | setMode | string | getPoint | getRegion => rfl

end Screen

def Caret.OnPage (c : Caret) : Prop := c.row < Console.rows ∧ c.col < Console.columns

namespace Console

theorem rows_pos : 0 < rows := by decide

theorem columns_pos : 0 < columns := by decide

theorem scroll_eq (c : Console) : c.scroll =
    { c with page := c.page.mapIdx fun i _ => c.page.getD (i + columns) 0, row := rows - 1 } := rfl

theorem put_eq (c : Console) (b : UInt8) :
    c.put b =
      { c with page := c.page.setIfInBounds (c.row * columns + c.col) b, col := c.col + 1 } := rfl

theorem newline_eq (c : Console) : c.newline =
    if c.row + 1 ≥ rows then scroll { c with col := 0, row := c.row + 1 }
    else { c with col := 0, row := c.row + 1 } := by
  simp only [newline, startRow]
  split <;> rfl

theorem addChar_eq (c : Console) (code : UInt16) : c.addChar code =
    if code == 10 then c.newline
    else
      let cells := if code > 0xff then [code.toUInt8, (code >>> 8).toUInt8] else [code.toUInt8]
      let c := if c.col + cells.length > columns then c.newline else c
      let c := cells.foldl put c
      if c.col ≥ columns then c.newline else c := by
  have hline (full : Prop) [Decidable full] (c : Console) :
      (c.startRowIf full).value = if full then c.newline else c := by
    unfold startRowIf
    split <;> rfl
  by_cases hten : code == 10
  · simp only [addChar, typeChar, hten, if_true, newline]
  · simp only [addChar, typeChar, hten, Bool.false_eq_true, if_false, Checked.value_bind, hline,
      Checked.value_foldlM]
    rfl

theorem col_newline (c : Console) : c.newline.col = 0 := by
  rw [newline_eq]
  split <;> rfl

theorem row_newline_lt (c : Console) : c.newline.row < rows := by
  rw [newline_eq]
  split
  · exact Nat.sub_lt rows_pos Nat.one_pos
  · rename_i hrow
    exact Nat.lt_of_not_le hrow

theorem onPage_newline (c : Console) : c.newline.OnPage :=
  ⟨c.row_newline_lt, by rw [col_newline]; exact columns_pos⟩

theorem size_page_newline (c : Console) : c.newline.page.size = c.page.size := by
  rw [newline_eq]
  split
  · simp [scroll_eq]
  · rfl

theorem row_foldl_put (c : Console) (cells : List UInt8) : (cells.foldl put c).row = c.row := by
  induction cells generalizing c with
  | nil => rfl
  | cons b cells ih => exact ih (c.put b)

theorem size_page_foldl_put (c : Console) (cells : List UInt8) :
    (cells.foldl put c).page.size = c.page.size := by
  induction cells generalizing c with
  | nil => rfl
  | cons b cells ih => exact (ih (c.put b)).trans Array.size_setIfInBounds

theorem onPage_addChar {c : Console} (code : UInt16) (h : c.OnPage) : (c.addChar code).OnPage := by
  simp only [addChar_eq]
  split
  · exact c.onPage_newline
  · generalize (if code > 0xff then _ else _ : List UInt8) = cells
    have hwrap : (if c.col + cells.length > columns then c.newline else c).row < rows := by
      split
      · exact c.row_newline_lt
      · exact h.1
    generalize (if c.col + cells.length > columns then c.newline else c) = c' at hwrap
    have hrow : (cells.foldl put c').row < rows := by rwa [row_foldl_put]
    split
    · exact onPage_newline _
    · rename_i hcol
      exact ⟨hrow, Nat.lt_of_not_le hcol⟩

theorem size_page_addChar (c : Console) (code : UInt16) :
    (c.addChar code).page.size = c.page.size := by
  have hline (p : Prop) [Decidable p] (c : Console) :
      (if p then c.newline else c).page.size = c.page.size := by
    split
    · exact c.size_page_newline
    · rfl
  simp only [addChar_eq]
  split
  · exact c.size_page_newline
  · rw [hline, size_page_foldl_put, hline]

theorem onPage_answer {c : Console} (call : TextCall) (h : c.OnPage) :
    (c.answer call).1.OnPage := by
  cases call with
  | char code => exact onPage_addChar code h
  | update mode => exact h
  | setMode mode =>
    simp only [answer, reply, setMode, Checked.value_pure]
    split
    · exact ⟨rows_pos, columns_pos⟩
    · exact h
  | locate row col =>
    simp only [answer, reply, locate, Checked.value_pure, Caret.OnPage, rows, columns, textPageSize]
    omega

theorem size_page_answer (c : Console) (call : TextCall) :
    (c.answer call).1.page.size = c.page.size := by
  cases call with
  | char code => exact c.size_page_addChar code
  | update mode => rfl
  | setMode mode =>
    simp only [answer, reply, setMode, Checked.value_pure]
    split
    · exact Array.size_map
    · rfl
  | locate row col => rfl

theorem cell_lt {row col : Nat} (hrow : row < rows) (hcol : col < columns) :
    row * columns + col < textPageSize := by
  simp only [rows, columns, textPageSize] at *
  omega

section InRange

variable {c : Console} (hsize : c.page.size = textPageSize)

include hsize

theorem inRange_startRow : c.startRow.inRange := by
  have hrows : rows * columns = textPageSize := rfl
  simp only [startRow]
  split
  · exact (hrows.trans hsize.symm).le
  · trivial

theorem inRange_startRowIf (full : Prop) [Decidable full] : (c.startRowIf full).inRange := by
  unfold startRowIf
  split
  · exact inRange_startRow hsize
  · trivial

theorem inRange_typeCell (hrow : c.row < rows) (hcol : c.col < columns) (b : UInt8) :
    (c.typeCell b).inRange :=
  ⟨(cell_lt hrow hcol).trans_eq hsize.symm, trivial⟩

theorem inRange_foldlM_typeCell (hrow : c.row < rows) {cells : List UInt8}
    (hfit : c.col + cells.length ≤ columns) : (cells.foldlM typeCell c).inRange := by
  induction cells generalizing c with
  | nil => trivial
  | cons b cells ih =>
    rw [List.length_cons] at hfit
    refine ⟨inRange_typeCell hsize hrow (by omega) b, ih (c := c.put b) ?_ hrow ?_⟩
    · exact Array.size_setIfInBounds.trans hsize
    · change c.col + 1 + cells.length ≤ columns
      omega

theorem inRange_typeChar (h : c.OnPage) (code : UInt16) : (c.typeChar code).inRange := by
  simp only [typeChar]
  split
  · exact inRange_startRow hsize
  · have hcells :
        (if code > 0xff then [code.toUInt8, (code >>> 8).toUInt8] else [code.toUInt8]).length ≤
        2 := by
      split <;> simp
    generalize (if code > 0xff then _ else _ : List UInt8) = cells at hcells
    -- the caret is where the whole character fits in its row, on the same line or on a new one
    obtain ⟨c', hwrap, hsize', hrow, hfit⟩ : ∃ c' : Console,
        (c.startRowIf (c.col + cells.length > columns)).value = c' ∧ c'.page.size = textPageSize ∧
        c'.row < rows ∧ c'.col + cells.length ≤ columns := by
      refine ⟨_, rfl, ?_⟩
      unfold startRowIf
      split
      · have hcolumns : columns = 20 := rfl
        have hcol := c.col_newline
        exact ⟨c.size_page_newline.trans hsize, c.row_newline_lt, by rw [← newline, hcol]; omega⟩
      · exact ⟨hsize, h.1, by simp only [Checked.value_pure]; omega⟩
    refine ⟨inRange_startRowIf hsize _, ?_, ?_⟩
    · rw [hwrap]
      exact inRange_foldlM_typeCell hsize' hrow hfit
    · rw [hwrap, Checked.value_foldlM]
      exact inRange_startRowIf ((size_page_foldl_put c' cells).trans hsize') _

theorem inRange_line {row : Nat} (hrow : row < rows) : (c.line row).inRange := by
  refine ⟨?_, trivial⟩
  simp only [Checked.slice, hsize, rows, columns, textPageSize] at hrow ⊢
  omega

theorem inRange_frame : c.frame.inRange := by
  refine ⟨Checked.inRange_mapM fun row hrow => inRange_line hsize (List.mem_range.1 hrow), trivial⟩

/-- Whatever is asked of a console whose caret is on its page, no cell beside the page is written or
shown. -/
theorem inRange_reply (h : c.OnPage) (call : TextCall) : (c.reply call).inRange := by
  cases call with
  | char code => exact ⟨inRange_typeChar hsize h code, trivial⟩
  | update mode => exact ⟨inRange_frame hsize, trivial⟩
  | setMode mode => trivial
  | locate row col => trivial

end InRange

end Console

/-- The same kind of display, of the same size. -/
inductive Display.Alike : Display → Display → Prop where
  | detached : Alike .detached .detached
  | recording : Alike .recording .recording
  | screen {p q : Panel} : q.width = p.width → q.height = p.height → Alike (.screen p) (.screen q)

inductive Teletype.Alike : Teletype → Teletype → Prop where
  | detached : Alike .detached .detached
  | recording : Alike .recording .recording
  | console {c d : Caret} : (c.OnPage → d.OnPage) → Alike (.console c) (.console d)

@[refl] theorem Display.Alike.refl (d : Display) : d.Alike d := by
  cases d with
  | detached => exact .detached
  | recording => exact .recording
  | screen p => exact .screen rfl rfl

@[refl] theorem Teletype.Alike.refl (t : Teletype) : t.Alike t := by
  cases t with
  | detached => exact .detached
  | recording => exact .recording
  | console c => exact .console id

theorem Display.Alike.trans {d e f : Display} (hd : d.Alike e) (he : e.Alike f) : d.Alike f := by
  cases hd with
  | detached => exact he
  | recording => exact he
  | screen hwidth hheight =>
    cases he with
    | screen hwidth' hheight' => exact .screen (hwidth'.trans hwidth) (hheight'.trans hheight)

theorem Teletype.Alike.trans {t u v : Teletype} (ht : t.Alike u) (hu : u.Alike v) : t.Alike v := by
  cases ht with
  | detached => exact hu
  | recording => exact hu
  | console hcaret =>
    cases hu with
    | console hcaret' => exact .console (hcaret' ∘ hcaret)

namespace Memory

theorem map_size_setWindow {m : Memory} {slot : Nat} {w : Window}
    (h : w.size = (m.window slot).size) :
    (m.bank.setIfInBounds slot w).map Array.size = m.bank.map Array.size := by
  rw [Array.map_setIfInBounds]
  apply Array.ext
  · simp
  · intro j hj hj'
    by_cases hs : slot = j
    · subst hs
      have hslot : slot < m.bank.size := by simpa using hj'
      simpa [window, hslot] using h
    · exact Array.getElem_setIfInBounds_ne hj' hs

theorem map_size_lend {m : Memory} {graph buffer : Window}
    (hg : graph.size = (m.window graphSlot).size) (hb : buffer.size = (m.window bufferSlot).size) :
    ((((m.bank.setIfInBounds graphSlot #[]).setIfInBounds bufferSlot #[]).setIfInBounds graphSlot
      graph).setIfInBounds bufferSlot buffer).map Array.size = m.bank.map Array.size := by
  have hne : bufferSlot ≠ graphSlot := by decide
  rw [Array.setIfInBounds_comm #[] graph hne, Array.setIfInBounds_setIfInBounds,
    Array.setIfInBounds_setIfInBounds, Array.map_setIfInBounds, map_size_setWindow hg,
    ← Array.map_setIfInBounds, map_size_setWindow hb]

end Memory

namespace World

variable {κ φ : Type}

/-- What serving a peripheral leaves as it was: the measures of the machine, all of memory but the
bytes in its windows, and what the clock will show. -/
structure Served (w v : World κ φ) : Prop where
  config : v.config = w.config
  memory : ∃ bank, v.memory = { w.memory with bank } ∧
    bank.map Array.size = w.memory.bank.map Array.size
  display : w.display.Alike v.display
  teletype : w.teletype.Alike v.teletype
  readings : v.clock.reading = w.clock.reading

theorem Served.of_eq {w v : World κ φ} (hc : v.config = w.config) (hm : v.memory = w.memory)
    (hd : v.display = w.display) (ht : v.teletype = w.teletype)
    (hr : v.clock.reading = w.clock.reading) : Served w v where
  config := hc
  memory := ⟨w.memory.bank, hm, rfl⟩
  display := hd ▸ .refl _
  teletype := ht ▸ .refl _
  readings := hr

theorem served_draw (c : DisplayCall) (w : World κ φ) : ∃ a v, draw c w = .ok a v ∧ Served w v := by
  obtain ⟨config, memory, seed, display, teletype, keyboard, disk, bus, clock⟩ := w
  cases display with
  | detached => exact ⟨_, _, rfl, .of_eq rfl rfl rfl rfl rfl⟩
  | recording => exact ⟨_, _, rfl, .of_eq rfl rfl rfl rfl rfl⟩
  | screen p =>
    have hm := Screen.measures_answer c (takeScreen memory p).1
    simp only [Screen.measures, Screen.Measures.mk.injEq] at hm
    obtain ⟨hwidth, hheight, hgraph, hbuffer⟩ := hm
    exact ⟨_, _, rfl, rfl, ⟨_, rfl, Memory.map_size_lend hgraph hbuffer⟩, .screen hwidth hheight,
      .refl _, rfl⟩

theorem served_type (c : TextCall) (w : World κ φ) : ∃ v, type c w = .ok () v ∧ Served w v := by
  obtain ⟨config, memory, seed, display, teletype, keyboard, disk, bus, clock⟩ := w
  cases teletype with
  | detached => exact ⟨_, rfl, .of_eq rfl rfl rfl rfl rfl⟩
  | recording => exact ⟨_, rfl, .of_eq rfl rfl rfl rfl rfl⟩
  | console caret =>
    have hpage := Console.size_page_answer ⟨caret, memory.window textSlot⟩ c
    have hcaret := Console.onPage_answer (c := ⟨caret, memory.window textSlot⟩) c
    exact ⟨_, rfl, rfl, ⟨_, rfl, Memory.map_size_setWindow hpage⟩, .refl _, .console hcaret, rfl⟩

end World
end LavMachine
