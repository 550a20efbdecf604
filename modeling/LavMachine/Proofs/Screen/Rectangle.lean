import Mathlib
import LavMachine.Proofs.Screen.Pixels
set_option autoImplicit false

namespace LavMachine

def DrawMode.touched (m : DrawMode) (d : Bool) : Bool :=
  let n := m.bits &&& 0x0f
  if n = 0 then false else if n = 2 ∨ n = 5 then !d else if n = 4 then d else true

theorem DrawMode.paint_operation (m : DrawMode) (d : Bool) : m.operation.paint d = m.touched d := by
  simp only [operation, touched, beq_iff_eq]
  generalize m.bits &&& 0x0f = n
  by_cases h0 : n = 0
  · simp [h0, DrawOperation.paint]
  by_cases h2 : n = 2
  · simp [h2, DrawOperation.paint]
  by_cases h3 : n = 3
  · simp [h3, DrawOperation.paint]
  by_cases h4 : n = 4
  · simp [h4, DrawOperation.paint]
  by_cases h5 : n = 5 <;> simp [h0, h2, h3, h4, h5, DrawOperation.paint]

namespace Shape

/-- The closed rectangle with these corners, in whatever order they are given, or only its
border. -/
def OnRectangle (filled : Bool) (x0 y0 x1 y1 x y : Int) : Prop :=
  (min x0 x1 ≤ x ∧ x ≤ max x0 x1) ∧ (min y0 y1 ≤ y ∧ y ≤ max y0 y1) ∧
    (filled ∨ x = x0 ∨ x = x1 ∨ y = y0 ∨ y = y1)

instance (filled : Bool) (x0 y0 x1 y1 x y : Int) : Decidable (OnRectangle filled x0 y0 x1 y1 x y) :=
  inferInstanceAs (Decidable (_ ∧ _ ∧ _))

section Points

variable {width height : Nat} {left top right bottom x y : Int}

theorem mem_span {x0 x1 row : Int} : (x, y) ∈ span width x0 x1 row ↔
    y = row ∧ max (min x0 x1) 0 ≤ x ∧ x ≤ min (max x0 x1) (width - 1) := by
  simp only [span, List.mem_map, mem_interval, Prod.mk.injEq]
  constructor
  · rintro ⟨col, hcol, rfl, rfl⟩
    exact ⟨rfl, hcol⟩
  · rintro ⟨rfl, hcol⟩
    exact ⟨x, hcol, rfl, rfl⟩

theorem nodup_span (width : Nat) (x0 x1 row : Int) : (span width x0 x1 row).Nodup :=
  (nodup_interval _ _).map fun _ _ h => congrArg Prod.fst h

theorem nodup_solidRectangle (width height : Nat) (left top right bottom : Int) :
    (solidRectangle width height left top right bottom).Nodup :=
  nodup_flatMap_of_key (nodup_interval _ _) Prod.snd (nodup_span width left right) fun _ _ hp =>
    (mem_span.1 hp).1

theorem mem_solidRectangle :
    (x, y) ∈ solidRectangle width height left top right bottom ↔
      (max top 0 ≤ y ∧ y ≤ min bottom (height - 1)) ∧
        max (min left right) 0 ≤ x ∧ x ≤ min (max left right) (width - 1) := by
  simp only [solidRectangle, List.mem_flatMap, mem_interval, mem_span]
  constructor
  · rintro ⟨row, hrow, rfl, hcol⟩
    exact ⟨hrow, hcol⟩
  · rintro ⟨hrow, hcol⟩
    exact ⟨y, hrow, rfl, hcol⟩

def bottomEdge (width : Nat) (left top right bottom : Int) : List Point :=
  if bottom > top then span width left right bottom else []

/-- The two ends of a row between the edges, or the one that it has. -/
def rowEnds (left right row : Int) : List Point :=
  (left, row) :: if right > left then [(right, row)] else []

def sides (height : Nat) (left top right bottom : Int) : List Point :=
  (interval (max (top + 1) 0) (min bottom height - 1)).flatMap (rowEnds left right)

theorem mem_bottomEdge :
    (x, y) ∈ bottomEdge width left top right bottom ↔
      bottom > top ∧ y = bottom ∧ max (min left right) 0 ≤ x ∧
      x ≤ min (max left right) (width - 1) := by
  unfold bottomEdge
  split
  · rename_i hlower
    rw [mem_span, and_iff_right hlower]
  · rename_i hflat
    simp [hflat]

theorem nodup_bottomEdge (width : Nat) (left top right bottom : Int) :
    (bottomEdge width left top right bottom).Nodup := by
  unfold bottomEdge
  split
  · exact nodup_span _ _ _ _
  · exact List.nodup_nil

theorem mem_rowEnds {row : Int} :
    (x, y) ∈ rowEnds left right row ↔ y = row ∧ (x = left ∨ right > left ∧ x = right) := by
  unfold rowEnds
  split
  · rename_i hwide
    simp [hwide]
    tauto
  · rename_i hnarrow
    simp [hnarrow, and_comm]

theorem nodup_rowEnds (left right row : Int) : (rowEnds left right row).Nodup := by
  unfold rowEnds
  split
  · rename_i hwide
    simp [hwide.ne]
  · exact List.nodup_singleton _

theorem mem_sides :
    (x, y) ∈ sides height left top right bottom ↔
      (max (top + 1) 0 ≤ y ∧ y ≤ min bottom height - 1) ∧
      (x = left ∨ right > left ∧ x = right) := by
  simp only [sides, List.mem_flatMap, mem_interval, mem_rowEnds]
  constructor
  · rintro ⟨row, hrow, rfl, hends⟩
    exact ⟨hrow, hends⟩
  · rintro ⟨hrow, hends⟩
    exact ⟨y, hrow, rfl, hends⟩

theorem rectangleOutline_eq (width height : Nat) (left top right bottom : Int) :
    rectangleOutline width height left top right bottom =
      span width left right top ++ bottomEdge width left top right bottom ++ sides height left top
        right bottom := rfl

theorem nodup_rectangleOutline (width height : Nat) (left top right bottom : Int) :
    (rectangleOutline width height left top right bottom).Nodup := by
  have hsides : (sides height left top right bottom).Nodup :=
    nodup_flatMap_of_key (nodup_interval _ _) Prod.snd (nodup_rowEnds left right) fun _ _ hp =>
      (mem_rowEnds.1 hp).1
  rw [rectangleOutline_eq, List.nodup_append', List.nodup_append']
  -- the edges are rows of their own, and the sides lie in the rows between them
  refine ⟨⟨nodup_span _ _ _ _, nodup_bottomEdge _ _ _ _ _, ?_⟩, hsides, ?_⟩
  · rintro ⟨x, y⟩ htop hbottom
    rw [mem_span] at htop
    rw [mem_bottomEdge] at hbottom
    omega
  · rintro ⟨x, y⟩ hedge hside
    rw [List.mem_append, mem_span, mem_bottomEdge] at hedge
    rw [mem_sides] at hside
    omega

theorem mem_rectangleOutline {p : Panel} (hin : p.OnScreen x y) (hwide : left ≤ right)
    (hhigh : top ≤ bottom) :
    (x, y) ∈ rectangleOutline p.width p.height left top right bottom ↔
      (left ≤ x ∧ x ≤ right) ∧ (top ≤ y ∧ y ≤ bottom) ∧
      ((x = left ∨ x = right) ∨ y = top ∨ y = bottom) := by
  obtain ⟨hx, hxw, hy, hyh⟩ := hin
  rw [rectangleOutline_eq, List.mem_append, List.mem_append, mem_span, mem_bottomEdge, mem_sides,
    min_eq_left hwide, max_eq_right hwide]
  omega

end Points

def rectanglePoints (filled : Bool) (width height : Nat) (x0 y0 x1 y1 : Int) : List Point :=
  if filled then solidRectangle width height (min x0 x1) (min y0 y1) (max x0 x1) (max y0 y1)
  else rectangleOutline width height (min x0 x1) (min y0 y1) (max x0 x1) (max y0 y1)

theorem nodup_rectanglePoints (filled : Bool) (width height : Nat) (x0 y0 x1 y1 : Int) :
    (rectanglePoints filled width height x0 y0 x1 y1).Nodup := by
  cases filled with
  | true => exact nodup_solidRectangle _ _ _ _ _ _
  | false => exact nodup_rectangleOutline _ _ _ _ _ _

theorem mem_rectanglePoints {p : Panel} {x y : Int} (hin : p.OnScreen x y) (filled : Bool)
    (x0 y0 x1 y1 : Int) :
    (x, y) ∈ rectanglePoints filled p.width p.height x0 y0 x1 y1 ↔
    OnRectangle filled x0 y0 x1 y1 x y := by
  cases filled with
  | true =>
    obtain ⟨hx, hxw, hy, hyh⟩ := hin
    simp only [rectanglePoints, if_true, mem_solidRectangle, OnRectangle, true_or, and_true,
      min_eq_left min_le_max, max_eq_right min_le_max]
    omega
  | false =>
    have hcolumns : x = x0 ∨ x = x1 ↔ x = min x0 x1 ∨ x = max x0 x1 := by omega
    have hrows : y = y0 ∨ y = y1 ↔ y = min y0 y1 ∨ y = max y0 y1 := by omega
    simp only [rectanglePoints, Bool.false_eq_true, if_false,
      mem_rectangleOutline hin min_le_max min_le_max, OnRectangle, false_or, ← hcolumns, ← hrows,
      or_assoc]

end Shape

theorem DrawMode.touched_touched {m : DrawMode} (h : m.bits &&& 0x0f = 2 ∨ m.bits &&& 0x0f = 5)
    (d : Bool) :
    m.touched (m.touched d) = d := by
  obtain h | h := h <;> simp [touched, h]

namespace Screen

open Shape

variable {s : Screen}

theorem redraws_drawRectangle (s : Screen) (x0 y0 x1 y1 : Int16) :
    s.Redraws (fun x y => if OnRectangle s.mode.filled x0.toInt y0.toInt x1.toInt y1.toInt x y
        then s.mode.touched (s.pixel s.target x y) else s.pixel s.target x y)
          (s.drawRectangle x0 y0 x1 y1) := by
  have hpaint := s.redraws_paintAll
    (nodup_rectanglePoints s.mode.filled s.width s.height x0.toInt y0.toInt x1.toInt y1.toInt)
  refine hpaint.congr fun x y hheld => ?_
  simp only [mem_rectanglePoints hheld.onScreen, DrawMode.paint_operation]

theorem drawRectangle_drawRectangle (h : s.mode.bits &&& 0x0f = 2 ∨ s.mode.bits &&& 0x0f = 5)
    (x0 y0 x1 y1 : Int16) :
    (s.drawRectangle x0 y0 x1 y1).drawRectangle x0 y0 x1 y1 = s := by
  have hfirst := s.redraws_drawRectangle x0 y0 x1 y1
  have hsecond := (s.drawRectangle x0 y0 x1 y1).redraws_drawRectangle x0 y0 x1 y1
  have hmode : (s.drawRectangle x0 y0 x1 y1).mode = s.mode := congrArg Panel.mode hfirst.panel
  refine Redraws.unique ((hfirst.trans hsecond).congr fun x y hheld => ?_) (Redraws.refl s)
  rw [hmode, hfirst.pixel hheld]
  split
  · exact DrawMode.touched_touched h _
  · rfl

/-- Every pixel of a rectangle, filled or outlined and cut to the screen, is touched once, and
nothing else is. -/
theorem rectangle_touches_pixels_once (hs : s.Framed) (x0 y0 x1 y1 : Int16) :
    let t := s.drawRectangle x0 y0 x1 y1
    (∀ x y, s.OnScreen x y → t.pixel t.target x y =
      if OnRectangle s.mode.filled x0.toInt y0.toInt x1.toInt y1.toInt x y
      then s.mode.touched (s.pixel s.target x y) else s.pixel s.target x y) ∧
    (∀ i k, k < 8 → s.Padding i k →
      t.target.testBit i (pixelMask k) = s.target.testBit i (pixelMask k)) ∧
    t.target.size = s.target.size ∧ t.spared = s.spared ∧ t.toPanel = s.toPanel ∧
    (s.mode.bits &&& 0x0f = 2 ∨ s.mode.bits &&& 0x0f = 5 → t.drawRectangle x0 y0 x1 y1 = s) := by
  intro t
  have hredraws := s.redraws_drawRectangle x0 y0 x1 y1
  exact ⟨fun x y hin => hredraws.pixel (hs.holds_target hin),
    fun i k hk hpadding => hredraws.shows.padding hk hpadding, hredraws.shows.size_eq,
    hredraws.spared, hredraws.panel, fun h => drawRectangle_drawRectangle h x0 y0 x1 y1⟩

/-- The outline of a rectangle that sticks out to the left and below, its corners swapped, in a mode
that inverts. -/
theorem rectangle_touches_pixels_once_clipped :
    let s := (answer (.setMode 5) (blank 10 3 false)).2.1
    let t := s.drawRectangle 4 7 (-1) 1
    s.Framed ∧ t.pixel t.target 4 2 = true ∧ t.pixel t.target 0 1 = true ∧
      t.pixel t.target 0 2 = false ∧
      t.drawRectangle 4 7 (-1) 1 = s := by
  intro s t
  have hs : s.Framed := (framed_blank ⟨by decide, by decide, by decide⟩).answer _
  obtain ⟨hpixel, -, -, -, -, hagain⟩ := rectangle_touches_pixels_once hs 4 7 (-1) 1
  refine ⟨hs, (hpixel 4 2 (by decide)).trans ?_, (hpixel 0 1 (by decide)).trans ?_,
    (hpixel 0 2 (by decide)).trans ?_, hagain (.inr (by decide))⟩
  · decide
  · decide
  · decide

end Screen
end LavMachine
