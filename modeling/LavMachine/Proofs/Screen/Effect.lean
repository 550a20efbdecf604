import Mathlib
import LavMachine.Proofs.Screen.Pixels
set_option autoImplicit false

namespace LavMachine
namespace Screen

structure RedrawsBuffer (s : Screen) (picture : Int → Int → Bool) (t : Screen) : Prop where
  panel : t.toPanel = s.toPanel
  graph : t.graph = s.graph
  size_eq : t.buffer.size = s.buffer.size
  pixel {x y : Int} : s.OnScreen x y → t.pixel t.buffer x y = picture x y
  padding {i k : Nat} :
    k < 8 → s.Padding i k → t.buffer.testBit i (pixelMask k) = s.buffer.testBit i (pixelMask k)

variable {s t u : Screen} {x y : Int} {mode mode' : Word}

namespace RedrawsBuffer

variable {picture picture' : Int → Int → Bool}

theorem refl (s : Screen) : s.RedrawsBuffer (s.pixel s.buffer) s :=
  ⟨rfl, rfl, rfl, fun _ => rfl, fun _ _ => rfl⟩

theorem trans (h : s.RedrawsBuffer picture t) (h' : t.RedrawsBuffer picture' u) :
    s.RedrawsBuffer picture' u where
  panel := h'.panel.trans h.panel
  graph := h'.graph.trans h.graph
  size_eq := h'.size_eq.trans h.size_eq
  pixel hin := h'.pixel (h.panel ▸ hin)
  padding hk hi := (h'.padding hk (h.panel ▸ hi)).trans (h.padding hk hi)

theorem congr (h : s.RedrawsBuffer picture t)
    (hpicture : ∀ x y, s.OnScreen x y → picture x y = picture' x y) :
    s.RedrawsBuffer picture' t :=
  { h with pixel := fun hin => (h.pixel hin).trans (hpicture _ _ hin) }

theorem shows (h : s.RedrawsBuffer picture t) : s.Shows s.buffer picture t.buffer where
  size_eq := h.size_eq
  pixel hheld := by
    rw [← h.panel]
    exact h.pixel hheld.onScreen
  padding := h.padding

theorem unique (h : s.RedrawsBuffer picture t) (h' : s.RedrawsBuffer picture u) : t = u := by
  have hbuffer := h.shows.unique h'.shows
  have hgraph := h.graph.trans h'.graph.symm
  have hpanel := h.panel.trans h'.panel.symm
  obtain ⟨p, graph, buffer⟩ := t
  obtain ⟨q, graph', buffer'⟩ := u
  simp_all

end RedrawsBuffer

theorem testBit_transform (s : Screen) (mode : Word) {i k : Nat} (hi : i < s.buffer.size)
    (hk : k < 8) :
    (s.transform mode).buffer.testBit i (pixelMask k) =
      if s.OnScreen (8 * (i % s.stride) + k : Nat) (i / s.stride : Nat)
      then (s.sourcePixel mode (8 * (i % s.stride) + k : Nat) (i / s.stride : Nat)).getD
        (s.buffer.testBit i (pixelMask k))
      else s.buffer.testBit i (pixelMask k) := by
  have hbyte : (s.transform mode).buffer.getD i 0 = packPixels fun k =>
      let x := 8 * (i % s.stride) + k
      let y := i / s.stride
      let old := s.buffer.testBit i (pixelMask k)
      if x < s.width && y < s.height then (s.sourcePixel mode x y).getD old else old := by
    simp [transform, hi, Window.testBit]
  rw [Window.testBit_eq, hbyte, pixelOf_packPixels _ hk]
  simp only [Panel.onScreen_natCast, Bool.and_eq_true, decide_eq_true_eq]

theorem redrawsBuffer_transform (hs : s.Framed) (mode : Word) :
    s.RedrawsBuffer (fun x y => (s.sourcePixel mode x y).getD (s.pixel s.buffer x y))
      (s.transform mode) := by
  refine ⟨rfl, rfl, Array.size_mapIdx, ?_, ?_⟩
  · intro x y hin
    obtain ⟨spot, hspot, hi⟩ := hs.holds_buffer hin
    obtain ⟨i, k, hk, rfl⟩ := Panel.exists_place hspot
    obtain ⟨-, rfl, rfl⟩ := (Panel.locate_eq_some_iff hk).1 hspot
    have hbit : (s.transform mode).pixel (s.transform mode).buffer _ _ = _ :=
      Panel.pixel_of_locate hspot _
    rw [hbit, testBit_transform s mode hi hk, if_pos hin, Panel.pixel_of_locate hspot]
  · intro i k hk hpadding
    -- a place that the effect takes for a pixel would be one
    by_cases hi : i < s.buffer.size
    · rw [testBit_transform s mode hi hk, if_neg]
      intro hin
      exact hpadding _ _ ((Panel.locate_eq_some_iff hk).2 ⟨hin, rfl, rfl⟩)
    · have hout : s.buffer.size ≤ i := Nat.le_of_not_lt hi
      rw [Window.testBit_of_size_le hout, Window.testBit_of_size_le]
      exact Array.size_mapIdx.trans_le hout

theorem Framed.transform (hs : s.Framed) (mode : Word) : (s.transform mode).Framed :=
  hs.answer (.transform mode)

/-- Where the pixel at `(x, y)` comes from under a mirror. -/
def mirrored (p : Panel) (mode : Word) (x y : Int) : Point :=
  if mode = 2 then (p.width - 1 - x, y) else if mode = 3 then (x, p.height - 1 - y) else (x, y)

def Symmetry (mode : Word) : Prop := mode = 2 ∨ mode = 3 ∨ mode = 4

instance (mode : Word) : Decidable (Symmetry mode) := inferInstanceAs (Decidable (_ ∨ _ ∨ _))

theorem sourcePixel_of_symmetry (h : Symmetry mode) (s : Screen) (x y : Int) :
    s.sourcePixel mode x y =
      some ((mode == 4) ^^ s.pixel s.buffer (mirrored s.toPanel mode x y).1
        (mirrored s.toPanel mode x y).2) := by
  obtain rfl | rfl | rfl := h <;> simp [sourcePixel, mirrored]

theorem onScreen_mirrored {p : Panel} (h : p.OnScreen x y) (mode : Word) :
    p.OnScreen (mirrored p mode x y).1 (mirrored p mode x y).2 := by
  unfold Panel.OnScreen at *
  unfold mirrored
  split
  · omega
  · split
    · omega
    · exact h

theorem mirrored_comm (p : Panel) (mode mode' : Word) (x y : Int) :
    let a := mirrored p mode' x y
    let b := mirrored p mode x y
    mirrored p mode a.1 a.2 = mirrored p mode' b.1 b.2 := by
  by_cases h2 : mode = 2 <;> by_cases h3 : mode = 3 <;>
    by_cases h2' : mode' = 2 <;> by_cases h3' : mode' = 3 <;>
    simp [mirrored, h2, h3, h2', h3']

theorem redrawsBuffer_symmetries (hs : s.Framed) (h : Symmetry mode) (h' : Symmetry mode') :
    s.RedrawsBuffer (fun x y =>
      let p := mirrored s.toPanel mode' x y
      let q := mirrored s.toPanel mode p.1 p.2
      (mode' == 4) ^^ ((mode == 4) ^^ s.pixel s.buffer q.1 q.2))
        ((s.transform mode).transform mode') := by
  have hfirst := redrawsBuffer_transform hs mode
  have hsecond := redrawsBuffer_transform (hs.transform mode) mode'
  refine (hfirst.trans hsecond).congr fun x y hin => ?_
  rw [sourcePixel_of_symmetry h', Option.getD_some]
  have hpixel := hfirst.pixel (onScreen_mirrored hin mode')
  rw [sourcePixel_of_symmetry h, Option.getD_some] at hpixel
  exact congrArg _ hpixel

theorem transform_transform (hs : s.Framed) (h : Symmetry mode) :
    (s.transform mode).transform mode = s := by
  refine RedrawsBuffer.unique ((redrawsBuffer_symmetries hs h h).congr fun x y _ => ?_)
    (RedrawsBuffer.refl s)
  obtain rfl | rfl | rfl := h <;> simp [mirrored]

theorem transform_comm (hs : s.Framed) (h : Symmetry mode) (h' : Symmetry mode') :
    (s.transform mode).transform mode' = (s.transform mode').transform mode := by
  refine RedrawsBuffer.unique ((redrawsBuffer_symmetries hs h h').congr fun x y _ => ?_)
    (redrawsBuffer_symmetries hs h' h)
  dsimp only
  rw [mirrored_comm s.toPanel mode mode' x y, Bool.xor_left_comm]

/-- A scroll and the one that takes it back: what was pushed out on the way is lost. -/
theorem redrawsBuffer_scrolls (hs : s.Framed) {d : Int}
    (hpush : ∀ (s : Screen) (x y : Int), s.sourcePixel mode x y = some (s.pixel s.buffer (x - d) y))
    (hback : ∀ (s : Screen) (x y : Int), s.sourcePixel mode' x y =
      some (s.pixel s.buffer (x + d) y)) :
    s.RedrawsBuffer (fun x y => decide (s.OnScreen (x + d) y) && s.pixel s.buffer x y)
      ((s.transform mode).transform mode') := by
  have hfirst := redrawsBuffer_transform hs mode
  have hsecond := redrawsBuffer_transform (hs.transform mode) mode'
  refine (hfirst.trans hsecond).congr fun x y _ => ?_
  rw [hback, Option.getD_some]
  by_cases hin : s.OnScreen (x + d) y
  · rw [hfirst.pixel hin, hpush, Option.getD_some, add_sub_cancel_right]
    simp [hin]
  · rw [hfirst.panel, Panel.pixel_of_not_onScreen hin]
    simp [hin]

theorem redrawsBuffer_right_left (hs : s.Framed) :
    s.RedrawsBuffer (fun x y => decide (x ≠ s.width - 1) && s.pixel s.buffer x y)
      ((s.transform 1).transform 0) := by
  refine (redrawsBuffer_scrolls hs (d := 1) (fun _ _ _ => rfl) (fun _ _ _ => rfl)).congr
    fun x y hin => ?_
  have hlast : s.OnScreen (x + 1) y ↔ x ≠ s.width - 1 := by
    unfold Panel.OnScreen at *
    omega
  simp only [hlast]

theorem redrawsBuffer_left_right (hs : s.Framed) :
    s.RedrawsBuffer (fun x y => decide (x ≠ 0) && s.pixel s.buffer x y)
      ((s.transform 0).transform 1) := by
  refine (redrawsBuffer_scrolls hs (d := -1) (fun _ _ _ => by simp [sourcePixel])
    (fun _ _ _ => rfl)).congr
    fun x y hin => ?_
  have hfirst : s.OnScreen (x + -1) y ↔ x ≠ 0 := by
    unfold Panel.OnScreen at *
    omega
  simp only [hfirst]

theorem transform_of_other (hs : s.Framed) (h0 : mode ≠ 0) (h1 : mode ≠ 1) (h : ¬ Symmetry mode) :
    s.transform mode = s := by
  unfold Symmetry at h
  push Not at h
  obtain ⟨h2, h3, h4⟩ := h
  refine RedrawsBuffer.unique ((redrawsBuffer_transform hs mode).congr fun x y _ => ?_)
    (RedrawsBuffer.refl s)
  simp [sourcePixel, h0, h1, h2, h3, h4]

/-- Effects compose as transformations of the picture in the buffer, whatever its padding holds. -/
theorem effects_compose (hs : s.Framed) :
    (∀ mode, Symmetry mode → (s.transform mode).transform mode = s) ∧
    (∀ mode mode', Symmetry mode → Symmetry mode' →
      (s.transform mode).transform mode' = (s.transform mode').transform mode) ∧
    s.RedrawsBuffer (fun x y => decide (x ≠ s.width - 1) && s.pixel s.buffer x y)
      ((s.transform 1).transform 0) ∧
    s.RedrawsBuffer (fun x y => decide (x ≠ 0) && s.pixel s.buffer x y)
      ((s.transform 0).transform 1) ∧
    (∀ mode, mode ≠ 0 → mode ≠ 1 → ¬ Symmetry mode → s.transform mode = s) ∧
    ∀ mode, s.RedrawsBuffer (fun x y => (s.sourcePixel mode x y).getD (s.pixel s.buffer x y))
      (s.transform mode) :=
  ⟨fun _ h => transform_transform hs h, fun _ _ h h' => transform_comm hs h h',
    redrawsBuffer_right_left hs, redrawsBuffer_left_right hs,
    fun _ h0 h1 h => transform_of_other hs h0 h1 h, redrawsBuffer_transform hs⟩

/-- A buffer with rows of ten pixels and all of its padding set. -/
theorem effects_compose_padded :
    let s : Screen :=
      { width := 10, height := 2, graph := #[1, 2, 3, 4], buffer := #[0x81, 0x7f, 0x35, 0xff] }
    s.Framed ∧ (s.transform 2).transform 2 = s ∧
      (s.transform 3).transform 4 = (s.transform 4).transform 3 ∧
      ((s.transform 1).transform 0).pixel ((s.transform 1).transform 0).buffer 9 1 = false ∧
      ((s.transform 0).transform 1).pixel ((s.transform 0).transform 1).buffer 0 0 = false ∧
      s.transform 5 = s := by
  intro s
  have hs : s.Framed := ⟨⟨by decide, by decide, by decide⟩, by decide, by decide⟩
  obtain ⟨hundo, hcomm, hright, hleft, hother, -⟩ := effects_compose hs
  exact ⟨hs, hundo 2 (by decide), hcomm 3 4 (by decide) (by decide),
    (hright.pixel (by decide)).trans (by decide), (hleft.pixel (by decide)).trans (by decide),
    hother 5 (by decide) (by decide) (by decide)⟩

end Screen
end LavMachine
