import Mathlib
import LavMachine.Proofs.Screen.Pixels
set_option autoImplicit false

namespace LavMachine

/-- A pixel that is touched by a shape or covered by an image, in a mode of its own. -/
structure Dot where
  mode : DrawMode
  x : Int
  y : Int
  source : Option Bool

namespace Dot

def value (d : Dot) (old : Bool) : Bool :=
  match d.source with
  | none => d.mode.operation.paint old
  | some on => d.mode.operation.blend old on

def Hits (d : Dot) (x y : Int) : Prop := d.mode.visible ∧ d.x = x ∧ d.y = y

instance (d : Dot) (x y : Int) : Decidable (d.Hits x y) := inferInstanceAs (Decidable (_ ∧ _))

end Dot

theorem existsUnique_bit_pixelMask {k : Nat} (hk : k < 8) :
    ∃! j, (pixelMask k).toBitVec.getLsbD j := by
  rw [toBitVec_pixelMask hk]
  refine ⟨7 - k, by simp; omega, fun j hj => ?_⟩
  simp at hj
  omega

namespace Screen

variable {s : Screen} {x y : Int}

def inMode (s : Screen) (mode : DrawMode) : Screen := { s with mode }

def mark (s : Screen) (d : Dot) : Screen :=
  match d.source with
  | none => (s.inMode d.mode).paint d.x d.y
  | some on => (s.inMode d.mode).blend d.x d.y on

def markAll (s : Screen) (dots : List Dot) : Screen := dots.foldl mark s

theorem mark_eq (s : Screen) (d : Dot) : s.mark d = (s.inMode d.mode).plot d.x d.y d.value := by
  obtain ⟨mode, x, y, source⟩ := d
  cases source <;> rfl

theorem toPanel_mark (s : Screen) (d : Dot) :
    (s.mark d).toPanel = { s.toPanel with mode := d.mode } := by
  rw [mark_eq]
  exact ((s.inMode d.mode).redraws_plot _ _ _).panel

theorem measures_mark (s : Screen) (d : Dot) : (s.mark d).measures = s.measures := by
  rw [mark_eq, measures_plot]
  rfl

theorem spared_mark (s : Screen) (d : Dot) : (s.mark d).spared = (s.inMode d.mode).spared := by
  rw [mark_eq]
  exact ((s.inMode d.mode).redraws_plot _ _ _).spared

theorem buffer_mark (d : Dot) (h : d.mode.visible) : (s.mark d).buffer = s.buffer := by
  have hspared := s.spared_mark d
  rw [spared, spared, toPanel_mark] at hspared
  simpa [inMode, h] using hspared

theorem graph_mark (d : Dot) (h : ¬ d.mode.visible) : (s.mark d).graph = s.graph := by
  have hspared := s.spared_mark d
  rw [spared, spared, toPanel_mark] at hspared
  simpa [inMode, h] using hspared

theorem testBit_target_plot (s : Screen) {x y : Int} (f : Bool → Bool) {j k : Nat} (hk : k < 8)
    (hother : s.locate x y ≠ some (j, pixelMask k)) :
    (s.plot x y f).target.testBit j (pixelMask k) = s.target.testBit j (pixelMask k) := by
  rw [plot_eq]
  cases hspot : s.locate x y with
  | none => rfl
  | some spot =>
    obtain ⟨i, l, hl, rfl⟩ := Panel.exists_place hspot
    dsimp only
    rw [target_onTarget, Window.testBit_putBit hl hk, if_neg]
    rintro ⟨rfl, rfl, -⟩
    exact hother hspot

theorem testBit_mark (s : Screen) (d : Dot) {j k : Nat} (hk : k < 8)
    (hother : s.locate d.x d.y ≠ some (j, pixelMask k)) :
    (s.mark d).graph.testBit j (pixelMask k) = s.graph.testBit j (pixelMask k) ∧
      (s.mark d).buffer.testBit j (pixelMask k) = s.buffer.testBit j (pixelMask k) := by
  have htarget := testBit_target_plot (s.inMode d.mode) d.value hk hother
  rw [← mark_eq, target, target, toPanel_mark] at htarget
  by_cases hvisible : d.mode.visible
  · rw [buffer_mark d hvisible]
    simpa [inMode, hvisible] using htarget
  · rw [graph_mark d hvisible]
    simpa [inMode, hvisible] using htarget

theorem pixel_target_mark (h : s.Framed) (d : Dot) (hin : s.OnScreen d.x d.y) :
    (s.mark d).pixel (s.mark d).target d.x d.y =
      d.value ((s.inMode d.mode).pixel (s.inMode d.mode).target d.x d.y) := by
  have hframed : (s.inMode d.mode).Framed := h.congr rfl
  have hredraws := (s.inMode d.mode).redraws_plot d.x d.y d.value
  rw [mark_eq, hredraws.pixel (hframed.holds_target hin), if_pos ⟨rfl, rfl⟩]

theorem visiblePixel_mark_of_hits (h : s.Framed) {d : Dot} (hd : d.Hits x y)
    (hin : s.OnScreen x y) :
    (s.mark d).visiblePixel x y = d.value (s.visiblePixel x y) := by
  obtain ⟨hvisible, rfl, rfl⟩ := hd
  have hafter : (s.mark d).target = (s.mark d).graph := by
    rw [target, toPanel_mark]
    exact if_pos hvisible
  have hbefore : (s.inMode d.mode).target = s.graph := if_pos hvisible
  have hpixel := pixel_target_mark h d hin
  rw [hafter, hbefore] at hpixel
  exact hpixel

theorem visiblePixel_mark_of_not_hits {d : Dot} (hd : ¬ d.Hits x y) :
    (s.mark d).visiblePixel x y = s.visiblePixel x y := by
  have hlocate : (s.mark d).locate x y = s.locate x y := by
    rw [toPanel_mark]
    rfl
  rw [visiblePixel, visiblePixel, Panel.pixel_eq, Panel.pixel_eq, hlocate]
  cases hspot : s.locate x y with
  | none => rfl
  | some spot =>
    obtain ⟨i, k, hk, rfl⟩ := Panel.exists_place hspot
    dsimp only
    by_cases hvisible : d.mode.visible
    · refine (s.testBit_mark d hk fun hsame => hd ?_).1
      obtain ⟨rfl, rfl⟩ := Panel.locate_inj hspot hsame
      exact ⟨hvisible, rfl, rfl⟩
    · rw [graph_mark d hvisible]

theorem visiblePixel_markAll {dots : List Dot} (hdots : ∀ d ∈ dots, ¬ d.Hits x y) :
    (s.markAll dots).visiblePixel x y = s.visiblePixel x y := by
  induction dots generalizing s with
  | nil => rfl
  | cons d dots ih =>
    rw [markAll, List.foldl_cons]
    rw [List.forall_mem_cons] at hdots
    exact (ih hdots.2).trans (visiblePixel_mark_of_not_hits hdots.1)

/-- A screen of any size that memory has room for, whatever its planes hold. A pixel has a bit
inside both planes and shares it with no other pixel, so a dot changes that bit alone, in the plane
that its mode names; the visible plane shows the last dot that went there. -/
theorem pixels_addressed_apart {width height : Nat} (hwidth : width ≤ 32767)
    (hheight : height ≤ 32767) (hplane : (width + 7) / 8 * height ≤ 65536) (attached : Bool)
    {s : Screen} (hs : s.measures = (blank width height attached).measures) :
    (∀ x y, (∃ spot, s.locate x y = some spot) ↔ 0 ≤ x ∧ x < width ∧ 0 ≤ y ∧ y < height) ∧
    (∀ x y i mask, s.locate x y = some (i, mask) →
      i < s.graph.size ∧ i < s.buffer.size ∧ ∃! k, mask.toBitVec.getLsbD k) ∧
    (∀ x y x' y' spot, s.locate x y = some spot → s.locate x' y' = some spot → x = x' ∧ y = y') ∧
    (∀ d : Dot,
      let t := s.mark d
      t.toPanel = { s.toPanel with mode := d.mode } ∧ t.measures = s.measures ∧
      (d.mode.bits &&& 0x40 ≠ 0 → t.buffer = s.buffer) ∧
      (d.mode.bits &&& 0x40 = 0 → t.graph = s.graph) ∧
      (∀ j k, k < 8 → s.locate d.x d.y ≠ some (j, pixelMask k) →
        t.graph.testBit j (pixelMask k) = s.graph.testBit j (pixelMask k) ∧
        t.buffer.testBit j (pixelMask k) = s.buffer.testBit j (pixelMask k)) ∧
      (s.OnScreen d.x d.y → t.pixel t.target d.x d.y =
        d.value (s.pixel (if d.mode.bits &&& 0x40 ≠ 0 then s.graph else s.buffer) d.x d.y))) ∧
    (∀ (d : Dot) (later : List Dot) (x y : Int), s.OnScreen x y → d.Hits x y →
      (∀ e ∈ later, ¬ e.Hits x y) →
      let t := (s.mark d).markAll later
      t.visiblePixel x y = d.value (s.visiblePixel x y) ∧
      ∀ column row : Int16, column.toInt = x → row.toInt = y →
        (answer (.getPoint column row) t).1 = if d.value (s.visiblePixel x y) then 1 else 0) ∧
    (∀ (later : List Dot) (x y : Int), (∀ e ∈ later, ¬ e.Hits x y) →
      (s.markAll later).visiblePixel x y = s.visiblePixel x y) ∧
    ∀ x y, ¬ s.OnScreen x y → s.visiblePixel x y = false := by
  have hframed : s.Framed := (framed_blank ⟨hwidth, hheight, hplane⟩).congr hs
  have hsides : s.width = width ∧ s.height = height :=
    ⟨congrArg Measures.width hs, congrArg Measures.height hs⟩
  have hlast (d : Dot) (later : List Dot) (x y : Int) (hin : s.OnScreen x y) (hd : d.Hits x y)
      (hlater : ∀ e ∈ later, ¬ e.Hits x y) :
      ((s.mark d).markAll later).visiblePixel x y = d.value (s.visiblePixel x y) :=
    (visiblePixel_markAll hlater).trans (visiblePixel_mark_of_hits hframed hd hin)
  refine ⟨fun x y => ?_, fun x y i mask hspot => ?_, fun x y x' y' spot => Panel.locate_inj,
    fun d => ?_, fun d later x y hin hd hlater => ⟨hlast d later x y hin hd hlater, ?_⟩,
    fun later x y => visiblePixel_markAll, fun x y hout => Panel.pixel_of_not_onScreen hout _⟩
  · rw [← hsides.1, ← hsides.2]
    exact ⟨fun ⟨_, hspot⟩ => Panel.onScreen_of_locate hspot,
      fun hin => ⟨_, Panel.locate_of_onScreen hin⟩⟩
  · obtain ⟨_, k, hk, hplace⟩ := Panel.exists_place hspot
    cases hplace
    have hlt := Panel.locate_lt hspot
    rw [← hframed.fits.planeSize_eq] at hlt
    exact ⟨hframed.graph_size ▸ hlt, hframed.buffer_size ▸ hlt, existsUnique_bit_pixelMask hk⟩
  · have hvisible : d.mode.visible ↔ d.mode.bits &&& 0x40 ≠ 0 := by
      simp [DrawMode.visible, DrawMode.graph]
    refine ⟨s.toPanel_mark d, s.measures_mark d, fun h => buffer_mark d (hvisible.2 h),
      fun h => graph_mark d fun h' => hvisible.1 h' h,
      fun j k hk hother => s.testBit_mark d hk hother, fun hin => ?_⟩
    rw [pixel_target_mark hframed d hin, target]
    simp only [← hvisible]
    rfl
  · rintro column row rfl rfl
    rw [← hlast d later _ _ hin hd hlater]
    rfl

/-- The widest screen that memory has room for at a height of sixteen: a corner in the last byte is
inverted by an image pixel, and shapes elsewhere and in the buffer leave it. -/
theorem pixels_addressed_apart_wide :
    let s := blank 32767 16 true
    let corner : Dot := ⟨⟨0x42⟩, 32766, 15, some false⟩
    let later : List Dot :=
      [⟨⟨0x40⟩, 32765, 15, none⟩, ⟨⟨0x00⟩, 32766, 15, none⟩, ⟨⟨0x41⟩, 32767, 15, none⟩]
    s.locate 32766 15 = some (65535, 2) ∧
      ((s.mark corner).markAll later).visiblePixel 32766 15 = true ∧
      (answer (.getPoint 32766 15) ((s.mark corner).markAll later)).1 = 1 := by
  intro s corner later
  have hin : s.OnScreen 32766 15 := ⟨by decide, by decide, by decide, by decide⟩
  have hon (old : Bool) : corner.value old = true := by cases old <;> decide
  obtain ⟨-, -, -, -, hlast, -, -⟩ :=
    @pixels_addressed_apart 32767 16 (by decide) (by decide) (by decide) true s rfl
  obtain ⟨hpixel, hpoint⟩ := hlast corner later 32766 15 hin (by decide) (by decide)
  rw [hon] at hpixel hpoint
  exact ⟨(Panel.locate_of_onScreen hin).trans (by decide), hpixel, hpoint 32766 15 rfl rfl⟩

end Screen
end LavMachine
