import Mathlib
import LavMachine.Proofs.Machine.Windows
import LavMachine.Proofs.Memory.Flat
set_option autoImplicit false

/-!
The console as a window on an unbounded sheet. Characters are laid out on the sheet in rows of
twenty cells, each character whole in its row; the page of the console is the last eight rows of the
sheet, however often it has moved up, and the caret is where the sheet is being written.
-/
namespace LavMachine

def characterCells (code : UInt16) : Bytes := Bytes.ofNat (if 0xff < code then 2 else 1) code.toNat

def rowCells (row : List UInt16) : Bytes := row.flatMap characterCells

/-- Rows of characters: the finished ones, and the one that is being written. -/
structure Sheet where
  finished : List (List UInt16) := []
  current : List UInt16 := []

namespace Sheet

def column (s : Sheet) : Nat := (rowCells s.current).length

def startRow (s : Sheet) : Sheet := ⟨s.finished ++ [s.current], []⟩

def write (s : Sheet) (code : UInt16) : Sheet := { s with current := s.current ++ [code] }

def roomFor (s : Sheet) (code : UInt16) : Sheet :=
  if 0xff < code ∧ s.column = 19 then s.startRow else s

/-- Code 10 starts a row, and so does a row that becomes full. -/
def add (s : Sheet) (code : UInt16) : Sheet :=
  if code = 10 then s.startRow
  else
    let s := (s.roomFor code).write code
    if s.column = 20 then s.startRow else s

def lay (codes : List UInt16) : Sheet := codes.foldl add {}

def rows (s : Sheet) : List (List UInt16) := s.finished ++ [s.current]

/-- What is written at a place; a cell without writing is 0. -/
def cell (s : Sheet) (row col : Nat) : UInt8 := (rowCells (s.rows.getD row [])).getD col 0

end Sheet

theorem length_characterCells (code : UInt16) :
    (characterCells code).length = if 0xff < code then 2 else 1 := Bytes.length_ofNat _ _

theorem rowCells_concat (row : List UInt16) (code : UInt16) :
    rowCells (row ++ [code]) = rowCells row ++ characterCells code := by simp [rowCells]

theorem characterCells_eq (code : UInt16) :
    characterCells code = if code > 0xff then [code.toUInt8, (code >>> 8).toUInt8]
      else [code.toUInt8] := by
  have hlow : UInt8.ofNat code.toNat = code.toUInt8 := rfl
  have hhigh : UInt8.ofNat (code.toNat / 256) = (code >>> 8).toUInt8 := by
    apply UInt8.toNat_inj.1
    simp [Nat.shiftRight_eq_div_pow]
  unfold characterCells
  by_cases h : 0xff < code <;> simp [h, Bytes.ofNat, hlow, hhigh]

namespace Sheet

theorem column_write (s : Sheet) (code : UInt16) :
    (s.write code).column = s.column + (characterCells code).length := by
  simp [column, write, rowCells_concat]

theorem column_startRow (s : Sheet) : s.startRow.column = 0 := rfl

theorem cell_startRow (s : Sheet) (row col : Nat) : s.startRow.cell row col = s.cell row col := by
  have hrows : s.startRow.rows.getD row [] = s.rows.getD row [] := by
    change (s.rows ++ [[]]).getD row [] = s.rows.getD row []
    rcases Nat.lt_trichotomy row s.rows.length with hlt | heq | hgt
    · rw [List.getD_append _ _ _ _ hlt]
    · rw [List.getD_append_right _ _ _ _ heq.ge, List.getD_eq_default _ _ heq.ge, heq]
      simp
    · rw [List.getD_append_right _ _ _ _ hgt.le, List.getD_eq_default _ _ hgt.le,
        List.getD_eq_default]
      simp
      omega
  rw [cell, cell, hrows]

theorem cell_of_gt (s : Sheet) {row : Nat} (h : s.finished.length < row) (col : Nat) :
    s.cell row col = 0 := by
  have hrow : s.rows.getD row [] = [] := List.getD_eq_default _ _ (by simp [rows]; omega)
  rw [cell, hrow]
  rfl

theorem cell_current (s : Sheet) (col : Nat) :
    s.cell s.finished.length col = (rowCells s.current).getD col 0 := by
  simp [cell, rows]

theorem cell_write (s : Sheet) (code : UInt16) (col : Nat) :
    (s.write code).cell s.finished.length col = (rowCells s.current ++ characterCells code).getD
      col 0 := by
  rw [← rowCells_concat]
  exact (s.write code).cell_current col

theorem cell_write_of_ne (s : Sheet) (code : UInt16) {row : Nat} (h : row ≠ s.finished.length)
    (col : Nat) :
    (s.write code).cell row col = s.cell row col := by
  have hrows : (s.write code).rows.getD row [] = s.rows.getD row [] := by
    change (s.finished ++ [s.current ++ [code]]).getD row [] =
      (s.finished ++ [s.current]).getD row []
    rcases Nat.lt_or_ge row s.finished.length with hlt | hge
    · rw [List.getD_append _ _ _ _ hlt, List.getD_append _ _ _ _ hlt]
    · rw [List.getD_append_right _ _ _ _ hge, List.getD_append_right _ _ _ _ hge,
        List.getD_eq_default, List.getD_eq_default] <;> simp <;> omega
  rw [cell, cell, hrows]

theorem flatten_rows_add (s : Sheet) (code : UInt16) :
    (s.add code).rows.flatten = s.rows.flatten ++ if code = 10 then [] else [code] := by
  have hstart (s : Sheet) : s.startRow.rows.flatten = s.rows.flatten := by simp [startRow, rows]
  have hwrite (s : Sheet) : (s.write code).rows.flatten = s.rows.flatten ++ [code] := by
    simp [write, rows]
  by_cases hten : code = 10
  · simp [add, hten, hstart]
  · simp only [add, roomFor, hten, if_false]
    split <;> split <;> simp only [hstart, hwrite]

theorem flatten_rows_lay (codes : List UInt16) :
    (lay codes).rows.flatten = codes.filter (· ≠ 10) := by
  induction codes using List.reverseRecOn with
  | nil => rfl
  | append_singleton codes code ih =>
    rw [lay, List.foldl_concat, flatten_rows_add, List.filter_append]
    change (lay codes).rows.flatten ++ _ = _
    rw [ih]
    by_cases hten : code = 10 <;> simp [hten]

theorem column_roomFor (s : Sheet) (code : UInt16) (h : s.column < 20) :
    (s.roomFor code).column + (characterCells code).length ≤ 20 := by
  rw [length_characterCells, roomFor]
  by_cases hdouble : 0xff < code
  · simp only [hdouble, true_and, if_true]
    split
    · rw [column_startRow]
      omega
    · omega
  · simp only [hdouble, false_and, if_false]
    omega

/-- Every row is within its twenty cells, and the one that is being written has room. -/
structure Fits (s : Sheet) : Prop where
  width : ∀ row ∈ s.finished, (rowCells row).length ≤ 20
  room : s.column < 20

theorem fits_startRow {s : Sheet} (hwidth : ∀ row ∈ s.finished, (rowCells row).length ≤ 20)
    (hcolumn : s.column ≤ 20) : s.startRow.Fits where
  width := List.forall_mem_append.2 ⟨hwidth, List.forall_mem_singleton.2 hcolumn⟩
  room := by
    rw [column_startRow]
    omega

theorem Fits.roomFor {s : Sheet} (h : s.Fits) (code : UInt16) : (s.roomFor code).Fits := by
  unfold Sheet.roomFor
  split
  · exact fits_startRow h.width h.room.le
  · exact h

theorem Fits.add {s : Sheet} (h : s.Fits) (code : UInt16) : (s.add code).Fits := by
  by_cases hten : code = 10
  · simp only [Sheet.add, hten, if_true]
    exact fits_startRow h.width h.room.le
  · simp only [Sheet.add, hten, if_false]
    have hcolumn := s.column_roomFor code h.room
    have hwidth := (h.roomFor code).width
    rw [← column_write] at hcolumn
    split
    · exact fits_startRow hwidth hcolumn
    · exact ⟨hwidth, by omega⟩

theorem fits_lay (codes : List UInt16) : (lay codes).Fits :=
  List.foldlRecOn codes add ⟨by simp, Nat.zero_lt_succ 19⟩ fun _ h code _ => h.add code

theorem Fits.length_le {s : Sheet} (h : s.Fits) : ∀ row ∈ s.rows, (rowCells row).length ≤ 20 :=
  List.forall_mem_append.2 ⟨h.width, List.forall_mem_singleton.2 h.room.le⟩

end Sheet

namespace Console

/-- The page shows the last rows of the sheet and the caret stands at its end. -/
structure Shows (s : Sheet) (c : Console) : Prop where
  row : c.row = min s.finished.length 7
  col : c.col = s.column
  size : c.page.size = 160
  cell {i j : Nat} :
    i < 8 → j < 20 → c.page.getD (i * 20 + j) 0 = s.cell (s.finished.length - 7 + i) j

theorem shows_blank (attached : Bool) : Shows {} (blank attached) where
  row := rfl
  col := rfl
  size := by simp [blank, blankPage, textPageSize]
  cell {i j} hi hj := by
    have hlt : i * 20 + j < textPageSize := by
      simp only [textPageSize]
      omega
    have hblank : ({} : Sheet).cell (0 - 7 + i) j = 0 := by
      cases i <;> simp [Sheet.cell, Sheet.rows, rowCells]
    simpa [blank, blankPage, Array.getD, hlt] using hblank.symm

theorem length_startRow (s : Sheet) : s.startRow.finished.length = s.finished.length + 1 := by
  simp [Sheet.startRow]

theorem getD_scroll {c : Console} {k : Nat} (hk : k < c.page.size) :
    c.scroll.page.getD k 0 = c.page.getD (k + 20) 0 := by
  simp [scroll_eq, Array.getD, hk, columns]

/-- While there is room below the page stays; from then on it moves up by one row. -/
theorem Shows.newline {s : Sheet} {c : Console} (h : Shows s c) : Shows s.startRow c.newline := by
  have hrow := h.row
  have hsize := h.size
  have hrows : rows = 8 := rfl
  by_cases hroom : s.finished.length < 7
  · have hstay : c.newline = { c with col := 0, row := c.row + 1 } := by
      rw [newline_eq, if_neg (by omega)]
    rw [hstay]
    refine ⟨by rw [length_startRow]; simp only; omega, rfl, hsize, fun {i j} hi hj => ?_⟩
    have htop : s.startRow.finished.length - 7 + i = s.finished.length - 7 + i := by
      rw [length_startRow]
      omega
    rw [htop, Sheet.cell_startRow]
    exact h.cell hi hj
  · have hmoves : c.newline = scroll { c with col := 0, row := c.row + 1 } := by
      rw [newline_eq, if_pos (by omega)]
    rw [hmoves]
    refine ⟨by rw [length_startRow]; simp only [scroll_eq]; omega, rfl, by simp [scroll_eq, hsize],
      fun {i j} hi hj => ?_⟩
    have htop : s.startRow.finished.length - 7 + i = s.finished.length - 7 + (i + 1) := by
      rw [length_startRow]
      omega
    have hbelow : i * 20 + j + 20 = (i + 1) * 20 + j := by omega
    rw [getD_scroll (by simp only; omega), htop, Sheet.cell_startRow, hbelow]
    rcases Nat.lt_or_ge (i + 1) 8 with hi' | hi'
    · exact h.cell hi' hj
    · -- The last row is new: neither the old page nor the sheet has anything there.
      rw [Sheet.cell_of_gt s (by omega)]
      simp only [Array.getD]
      exact dif_neg (by omega)

theorem col_foldl_put (c : Console) (cells : Bytes) :
    (cells.foldl put c).col = c.col + cells.length := by
  induction cells generalizing c with
  | nil => rfl
  | cons b cells ih =>
    rw [List.foldl_cons, ih, List.length_cons]
    simp only [put_eq]
    omega

theorem getD_foldl_put {c : Console} {cells : Bytes}
    (hfit : c.row * 20 + c.col + cells.length ≤ c.page.size) (k : Nat) :
    (cells.foldl put c).page.getD k 0 =
      if c.row * 20 + c.col ≤ k ∧ k < c.row * 20 + c.col + cells.length
      then cells.getD (k - (c.row * 20 + c.col)) 0 else c.page.getD k 0 := by
  induction cells generalizing c with
  | nil => simp
  | cons b cells ih =>
    rw [List.length_cons] at hfit
    have hput : (c.put b).page.getD k 0 = if k = c.row * 20 + c.col then b else c.page.getD k 0 :=
      Memory.getD_setIfInBounds c.page (by simp only [columns]; omega) b k
    have hcaret : (c.put b).row * 20 + (c.put b).col = c.row * 20 + c.col + 1 := rfl
    rw [List.foldl_cons, ih (by simp [put_eq]; omega), hput, hcaret, List.length_cons]
    rcases Nat.lt_trichotomy k (c.row * 20 + c.col) with hlt | heq | hgt
    · rw [if_neg (by omega), if_neg (by omega), if_neg (by omega)]
    · simp [heq]
    · have hnext : k - (c.row * 20 + c.col) = k - (c.row * 20 + c.col + 1) + 1 := by omega
      rw [hnext, List.getD_cons_succ, if_neg (Nat.ne_of_gt hgt)]
      congr 1
      simp only [eq_iff_iff]
      omega

theorem Shows.put {s : Sheet} {c : Console} (h : Shows s c) {code : UInt16}
    (hfit : s.column + (characterCells code).length ≤ 20) :
    Shows (s.write code) ((characterCells code).foldl put c) := by
  have hrow := h.row
  have hcol := h.col
  have hsize := h.size
  refine ⟨by rw [row_foldl_put]; exact hrow, by rw [col_foldl_put, Sheet.column_write, hcol],
    by rw [size_page_foldl_put, hsize], fun {i j} hi hj => ?_⟩
  rw [getD_foldl_put (by omega)]
  change _ = (s.write code).cell (s.finished.length - 7 + i) j
  have hold := h.cell hi hj
  by_cases hi' : i = c.row
  · have hcurrent : s.finished.length - 7 + i = s.finished.length := by omega
    rw [hcurrent, Sheet.cell_current] at hold
    rw [hold, hcurrent, Sheet.cell_write]
    change (rowCells s.current).length + _ ≤ 20 at hfit
    change c.col = (rowCells s.current).length at hcol
    rcases Nat.lt_or_ge j (rowCells s.current).length with hlt | hge
    · rw [if_neg (by omega), List.getD_append _ _ _ _ hlt]
    · have hplace : i * 20 + j - (c.row * 20 + c.col) = j - (rowCells s.current).length := by omega
      rw [List.getD_append_right _ _ _ _ hge, List.getD_eq_default _ _ hge, hplace]
      split
      · rfl
      · exact (List.getD_eq_default _ _ (by omega)).symm
  · rw [Sheet.cell_write_of_ne s code (by omega), if_neg (by omega)]
    exact hold

theorem Shows.newline_if {s : Sheet} {c : Console} (h : Shows s c) {p q : Prop} [Decidable p]
    [Decidable q] (hpq : p ↔ q) :
    Shows (if p then s.startRow else s) (if q then c.newline else c) := by
  by_cases hp : p
  · rw [if_pos hp, if_pos (hpq.1 hp)]
    exact h.newline
  · rw [if_neg hp, if_neg fun hq => hp (hpq.2 hq)]
    exact h

theorem Shows.addChar {s : Sheet} {c : Console} (h : Shows s c) (hroom : s.column < 20)
    (code : UInt16) :
    Shows (s.add code) (c.addChar code) := by
  by_cases hten : code = 10
  · simp only [Sheet.add, Console.addChar_eq, hten, if_true, beq_self_eq_true]
    exact h.newline
  · simp only [Sheet.add, Console.addChar_eq, hten, if_false, beq_iff_eq, ← characterCells_eq]
    have hwrap : 0xff < code ∧ s.column = 19 ↔ c.col + (characterCells code).length > columns := by
      rw [h.col, length_characterCells, columns]
      by_cases hdouble : 0xff < code
      · simp only [hdouble, true_and, if_true]
        omega
      · simp only [hdouble, false_and, if_false, false_iff]
        omega
    have hfit := s.column_roomFor code hroom
    have hput := Shows.put (h.newline_if hwrap) hfit
    rw [← Sheet.column_write] at hfit
    refine hput.newline_if ?_
    rw [hput.col, columns]
    change _ ↔ ((s.roomFor code).write code).column ≥ 20
    omega

theorem shows_foldl_addChar (attached : Bool) (codes : List UInt16) :
    Shows (Sheet.lay codes) (codes.foldl addChar (blank attached)) := by
  induction codes using List.reverseRecOn with
  | nil => exact shows_blank attached
  | append_singleton codes code ih =>
    rw [Sheet.lay, List.foldl_concat, List.foldl_concat]
    exact ih.addChar (Sheet.fits_lay codes).room code

/-- Whatever is typed on a blank console: with `k` rows of the sheet finished the caret is in row
`k`, or in the last one once the page moves, and the page shows the eight rows of the sheet up to
there. The sheet has every character whole in a row of at most twenty cells, and all of them in
order. -/
theorem page_shows_sheet (attached : Bool) (codes : List UInt16) :
    let c := codes.foldl addChar (blank attached)
    let s := Sheet.lay codes
    let k := s.finished.length
    c.row = min k 7 ∧ c.col = s.column ∧ c.page.size = 160 ∧
    (∀ i < 8, ∀ j < 20, c.page[i * 20 + j]? = some (s.cell (k - 7 + i) j)) ∧
    s.rows.flatten = codes.filter (· ≠ 10) ∧ ∀ row ∈ s.rows, (rowCells row).length ≤ 20 := by
  intro c s k
  have hshows := shows_foldl_addChar attached codes
  refine ⟨hshows.row, hshows.col, hshows.size, fun i hi j hj => ?_, Sheet.flatten_rows_lay codes,
    (Sheet.fits_lay codes).length_le⟩
  have hsize : c.page.size = 160 := hshows.size
  have hlt : i * 20 + j < c.page.size := by omega
  have hcell := hshows.cell hi hj
  rw [Array.getD_eq_getD_getElem?, Array.getElem?_eq_getElem hlt, Option.getD_some] at hcell
  rw [Array.getElem?_eq_getElem hlt, hcell]

/-- With one cell left a double-byte character goes to the next row, and seven rows later it has
come up to the first row of the page. -/
theorem page_shows_sheet_wrapped :
    let codes := List.replicate 19 120 ++ [0xb0a1] ++ List.replicate 7 10
    let c := codes.foldl addChar (blank true)
    c.row = 7 ∧ c.page[0]? = some 0xa1 ∧ c.page[1]? = some 0xb0 := by
  intro codes
  obtain ⟨hrow, _, _, hcell, _⟩ := page_shows_sheet true codes
  have hk : (Sheet.lay codes).finished.length = 8 := by decide +kernel
  have hlow : (Sheet.lay codes).cell 1 0 = 0xa1 := by decide +kernel
  have hhigh : (Sheet.lay codes).cell 1 1 = 0xb0 := by decide +kernel
  -- The page itself need not be computed.
  generalize codes.foldl addChar (blank true) = c at hrow hcell ⊢
  rw [hk] at hrow hcell
  refine ⟨hrow, ?_, ?_⟩
  · rw [← hlow]
    exact hcell 0 (by decide) 0 (by decide)
  · rw [← hhigh]
    exact hcell 0 (by decide) 1 (by decide)

end Console
end LavMachine
