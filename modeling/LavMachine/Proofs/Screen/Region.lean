import Mathlib
import LavMachine.Proofs.Screen.Pixels
set_option autoImplicit false

namespace LavMachine

def InRegion (x y width height px py : Int) : Prop :=
  (x ≤ px ∧ px < x + width) ∧ y ≤ py ∧ py < y + height

instance (x y width height px py : Int) : Decidable (InRegion x y width height px py) :=
  inferInstanceAs (Decidable (_ ∧ _ ∧ _))

/-- An image at `(x, y)` with all its bits blank that no pixel of the screen shows: those off the
screen and the padding of its rows. -/
def Panel.clip (p : Panel) (x y : Int) (width : Nat) (image : Bytes) : Bytes :=
  image.mapIdx fun i b => packPixels fun k =>
    let stride := (width + 7) / 8
    let col := 8 * (i % stride) + k
    let row := i / stride
    decide (col < width ∧ p.OnScreen (x + col) (y + row)) && pixelOf b k

namespace Screen

theorem imagePixel_of_index (image : Window) (stride i : Nat) {k : Nat} (hk : k < 8) :
    imagePixel image stride (i / stride) (8 * (i % stride) + k) = pixelOf (image.getD i 0) k := by
  have hbyte : i / stride * stride + (8 * (i % stride) + k) / 8 = i := by
    have hcol : (8 * (i % stride) + k) / 8 = i % stride := by omega
    rw [hcol, Nat.mul_comm]
    exact Nat.div_add_mod i stride
  have hplace : (8 * (i % stride) + k) % 8 = k := by omega
  rw [imagePixel, hbyte, hplace]
  rfl

theorem mem_visiblePart {start : Int} {size limit n : Nat} :
    n ∈ visiblePart start size limit ↔ n < size ∧ 0 ≤ start + n ∧ start + n < limit := by
  simp only [visiblePart, List.mem_map, mem_interval]
  constructor
  · rintro ⟨m, hm, rfl⟩
    omega
  · rintro ⟨hsize, hlow, hhigh⟩
    exact ⟨n, by omega, Int.toNat_natCast n⟩

theorem nodup_visiblePart (start : Int) (size limit : Nat) :
    (visiblePart start size limit).Nodup := by
  refine List.Nodup.map_on (fun m hm n hn heq => ?_) (nodup_interval _ _)
  rw [mem_interval] at hm hn
  omega

/-- The places of one row of an image, by row and column, that the screen has pixels for, if the
image has bytes for the row. -/
def visibleRow (p : Panel) (x : Int) (width size row : Nat) : List (Nat × Nat) :=
  if row * ((width + 7) / 8) < size then (visiblePart x width p.width).map fun col =>
    (row, col) else []

def visibleCells (p : Panel) (x y : Int) (width height size : Nat) : List (Nat × Nat) :=
  (visiblePart y height p.height).flatMap (visibleRow p x width size)

theorem mem_visibleRow {p : Panel} {x : Int} {width size row : Nat} {c : Nat × Nat} :
    c ∈ visibleRow p x width size row ↔
      c.1 = row ∧ row * ((width + 7) / 8) < size ∧ c.2 < width ∧ 0 ≤ x + c.2 ∧
      x + c.2 < p.width := by
  unfold visibleRow
  split
  · rename_i hbytes
    simp only [List.mem_map, mem_visiblePart, Prod.ext_iff, hbytes, true_and]
    constructor
    · rintro ⟨col, hcol, rfl, rfl⟩
      exact ⟨rfl, hcol⟩
    · rintro ⟨hrow, hcol⟩
      exact ⟨c.2, hcol, hrow.symm, rfl⟩
  · rename_i hbytes
    simp [hbytes]

theorem nodup_visibleRow (p : Panel) (x : Int) (width size row : Nat) :
    (visibleRow p x width size row).Nodup := by
  unfold visibleRow
  split
  · exact (nodup_visiblePart _ _ _).map fun _ _ heq => (Prod.mk.inj heq).2
  · exact List.nodup_nil

theorem mem_visibleCells {p : Panel} {x y : Int} {width height size : Nat} {c : Nat × Nat} :
    c ∈ visibleCells p x y width height size ↔
      (c.1 < height ∧ c.2 < width) ∧ p.OnScreen (x + c.2) (y + c.1) ∧
      c.1 * ((width + 7) / 8) < size := by
  simp only [visibleCells, List.mem_flatMap, mem_visiblePart, mem_visibleRow, Panel.OnScreen]
  constructor
  · rintro ⟨row, hrow, rfl, hbytes, hcol⟩
    exact ⟨⟨hrow.1, hcol.1⟩, ⟨hcol.2.1, hcol.2.2, hrow.2⟩, hbytes⟩
  · rintro ⟨⟨hrow, hcol⟩, ⟨hx, hxw, hy⟩, hbytes⟩
    exact ⟨c.1, ⟨hrow, hy⟩, rfl, hbytes, hcol, hx, hxw⟩

theorem nodup_visibleCells (p : Panel) (x y : Int) (width height size : Nat) :
    (visibleCells p x y width height size).Nodup :=
  nodup_flatMap_of_key (nodup_visiblePart _ _ _) Prod.fst (nodup_visibleRow p x width size)
    fun _ _ hc =>
    (mem_visibleRow.1 hc).1

theorem drawRegion_eq (s : Screen) (x y width height : Int16) (image : Bytes) :
    s.drawRegion x y width height image =
      (visibleCells s.toPanel x.toInt y.toInt width.toInt.toNat height.toInt.toNat
        image.length).foldl (fun s c => s.plot (x.toInt + c.2) (y.toInt + c.1) fun d =>
          s.mode.operation.blend d (imagePixel image.toArray ((width.toInt.toNat + 7) / 8) c.1 c.2))
            s := by
  rw [visibleCells, List.foldl_flatMap, drawRegion]
  congr 1
  funext s row
  simp only [visibleRow, List.size_toArray]
  split
  · rw [List.foldl_map]
    rfl
  · rfl

variable {s : Screen} {x y width height : Int16}

theorem redraws_drawRegion (s : Screen) (x y : Int16) {image : Bytes}
    (himage : image.length = (width.toInt.toNat + 7) / 8 * height.toInt.toNat) :
    s.Redraws (fun px py => if InRegion x.toInt y.toInt width.toInt height.toInt px py
        then s.mode.operation.blend (s.pixel s.target px py)
          (imagePixel image.toArray ((width.toInt.toNat + 7) / 8) (py - y.toInt).toNat
            (px - x.toInt).toNat)
        else s.pixel s.target px py) (s.drawRegion x y width height image) := by
  rw [drawRegion_eq]
  refine redraws_foldl_plot (fun c : Nat × Nat => (x.toInt + c.2, y.toInt + c.1))
    (fun mode c d =>
      mode.operation.blend d (imagePixel image.toArray ((width.toInt.toNat + 7) / 8) c.1 c.2))
    ?_ ?_ ?_
  · refine (nodup_visibleCells _ _ _ _ _ _).map fun c c' heq => ?_
    obtain ⟨hx, hy⟩ := Prod.mk.inj heq
    exact Prod.ext (by omega) (by omega)
  · rintro ⟨row, col⟩ hc hheld
    obtain ⟨⟨hrow, hcol⟩, -⟩ := mem_visibleCells.1 hc
    have hin :
        InRegion x.toInt y.toInt width.toInt height.toInt (x.toInt + col) (y.toInt + row) := by
      unfold InRegion
      omega
    rw [if_pos hin, add_sub_cancel_left, add_sub_cancel_left]
    rfl
  · intro px py hheld hnot
    refine if_neg fun hin => hnot ?_
    unfold InRegion at hin
    obtain ⟨col, rfl⟩ : ∃ col : Nat, px = x.toInt + col := ⟨(px - x.toInt).toNat, by omega⟩
    obtain ⟨row, rfl⟩ : ∃ row : Nat, py = y.toInt + row := ⟨(py - y.toInt).toNat, by omega⟩
    have hrow : row < height.toInt.toNat := by omega
    have hcol : col < width.toInt.toNat := by omega
    have hstride : 0 < (width.toInt.toNat + 7) / 8 := by omega
    refine List.mem_map.2 ⟨(row, col), mem_visibleCells.2 ⟨⟨hrow, hcol⟩, hheld.onScreen, ?_⟩, rfl⟩
    rw [himage, Nat.mul_comm]
    exact Nat.mul_lt_mul_of_pos_left hrow hstride

theorem length_getRegion (s : Screen) (x y width height : Int16) :
    (s.getRegion x y width height).length = imageSize width height := by
  simp [getRegion]

/-- The pixels of a byte that is read, if the image is small enough to be read whole. -/
theorem pixelOf_getRegion (s : Screen) (x y : Int16) {i k : Nat}
    (hfits : (width.toInt.toNat + 7) / 8 * height.toInt.toNat ≤ 65536)
    (hi : i < (width.toInt.toNat + 7) / 8 * height.toInt.toNat) (hk : k < 8) :
    let stride := (width.toInt.toNat + 7) / 8
    let col := 8 * (i % stride) + k
    pixelOf ((s.getRegion x y width height).getD i 0) k =
      (decide (col < width.toInt.toNat) && s.pixel s.target (x.toInt + col)
        (y.toInt + (i / stride : Nat))) := by
  intro stride col
  have hsize : imageSize width height = stride * height.toInt.toNat := Nat.min_eq_left hfits
  have hstride : 0 < stride := Nat.pos_of_mul_pos_right (Nat.zero_lt_of_lt hi)
  have hwhole : i / stride * stride + stride ≤ imageSize width height := by
    have hrow : i / stride + 1 ≤ height.toInt.toNat := Nat.div_lt_of_lt_mul hi
    rw [hsize, ← Nat.succ_mul, Nat.mul_comm stride]
    exact Nat.mul_le_mul_right stride hrow
  have hbyte : (s.getRegion x y width height).getD i 0 = packPixels fun k =>
      decide (8 * (i % stride) + k < width.toInt.toNat) &&
        s.pixel s.target (x.toInt + (8 * (i % stride) + k : Nat))
          (y.toInt + (i / stride : Nat)) := by
    rw [getRegion, List.getD_eq_getElem?_getD, List.getElem?_map, List.getElem?_range (hsize ▸ hi)]
    exact if_pos hwhole
  rw [hbyte, pixelOf_packPixels _ hk]

theorem imagePixel_getRegion (s : Screen) (x y : Int16) {row col : Nat}
    (hfits : (width.toInt.toNat + 7) / 8 * height.toInt.toNat ≤ 65536)
    (hrow : row < height.toInt.toNat) (hcol : col < width.toInt.toNat) :
    imagePixel (s.getRegion x y width height).toArray ((width.toInt.toNat + 7) / 8) row col =
      s.pixel s.target (x.toInt + col) (y.toInt + row) := by
  have hbyte : col / 8 < (width.toInt.toNat + 7) / 8 := by omega
  generalize hstride : (width.toInt.toNat + 7) / 8 = stride at *
  have hi : row * stride + col / 8 < stride * height.toInt.toNat := by
    have hmul := Nat.mul_le_mul_right stride hrow
    rw [Nat.succ_mul] at hmul
    rw [Nat.mul_comm stride]
    omega
  have hdiv : (row * stride + col / 8) / stride = row := by
    rw [Nat.mul_comm, Nat.mul_add_div (Nat.zero_lt_of_lt hbyte), Nat.div_eq_of_lt hbyte,
      Nat.add_zero]
  have hmod : (row * stride + col / 8) % stride = col / 8 := by
    rw [Nat.mul_comm, Nat.mul_add_mod, Nat.mod_eq_of_lt hbyte]
  have hplace : 8 * (col / 8) + col % 8 = col := Nat.div_add_mod col 8
  subst hstride
  have hpixel := s.pixelOf_getRegion x y hfits hi (Nat.mod_lt col (by decide))
  simp only [hdiv, hmod, hplace, hcol, decide_true, Bool.true_and] at hpixel
  rw [imagePixel, Window.testBit_eq, ← hpixel]
  simp

theorem pixelOf_clip (p : Panel) (x y : Int) (width : Nat) {image : Bytes} {i k : Nat}
    (hi : i < image.length) (hk : k < 8) :
    let stride := (width + 7) / 8
    let col := 8 * (i % stride) + k
    pixelOf ((p.clip x y width image).getD i 0) k =
      (decide (col < width ∧ p.OnScreen (x + col) (y + (i / stride : Nat))) &&
        pixelOf (image.getD i 0) k) := by
  intro stride col
  have hbyte : (p.clip x y width image).getD i 0 = packPixels fun k =>
      decide (8 * (i % stride) + k < width ∧
        p.OnScreen (x + (8 * (i % stride) + k : Nat)) (y + (i / stride : Nat))) &&
        pixelOf (image.getD i 0) k := by
    simp [Panel.clip, hi, stride]
  rw [hbyte, pixelOf_packPixels _ hk]

theorem getRegion_drawRegion (hs : s.Framed) (hmode : s.mode.operation = .copy) (x y : Int16)
    (hfits : (width.toInt.toNat + 7) / 8 * height.toInt.toNat ≤ 65536) {image : Bytes}
    (himage : image.length = (width.toInt.toNat + 7) / 8 * height.toInt.toNat) :
    (s.drawRegion x y width height image).getRegion x y width height =
      s.clip x.toInt y.toInt width.toInt.toNat image := by
  have hredraws := s.redraws_drawRegion x y himage
  have hsize : imageSize width height = image.length := (Nat.min_eq_left hfits).trans himage.symm
  apply List.ext_getElem
  · rw [length_getRegion, hsize, Panel.clip, List.length_mapIdx]
  intro i hi hi'
  have hlt : i < image.length := by rwa [length_getRegion, hsize] at hi
  rw [← List.getD_eq_getElem _ 0 hi, ← List.getD_eq_getElem _ 0 hi']
  apply byte_ext
  intro k hk
  rw [pixelOf_getRegion _ x y hfits (himage ▸ hlt) hk, pixelOf_clip _ _ _ _ hlt hk]
  have hbit := imagePixel_of_index image.toArray ((width.toInt.toNat + 7) / 8) i hk
  generalize hcol : 8 * (i % ((width.toInt.toNat + 7) / 8)) + k = col at *
  generalize hrow : i / ((width.toInt.toNat + 7) / 8) = row at *
  -- a bit of the image is a pixel on the screen, a pixel off it or padding of its row
  by_cases hwidth : col < width.toInt.toNat
  · by_cases hin : s.OnScreen (x.toInt + col) (y.toInt + row)
    · have hregion :
          InRegion x.toInt y.toInt width.toInt height.toInt (x.toInt + col) (y.toInt + row) := by
        have hheight : row < height.toInt.toNat := hrow ▸ Nat.div_lt_of_lt_mul (himage ▸ hlt)
        unfold InRegion
        omega
      rw [hredraws.pixel (hs.holds_target hin), if_pos hregion, hmode, DrawOperation.blend,
        add_sub_cancel_left, add_sub_cancel_left, Int.toNat_natCast, Int.toNat_natCast, hbit]
      simp [hin]
    · rw [hredraws.panel, Panel.pixel_of_not_onScreen hin]
      simp [hin]
  · simp only [hwidth, false_and, decide_false, Bool.false_and]

theorem drawRegion_getRegion (hmode : s.mode.operation = .copy) (x y : Int16)
    (hfits : (width.toInt.toNat + 7) / 8 * height.toInt.toNat ≤ 65536) :
    s.drawRegion x y width height (s.getRegion x y width height) = s := by
  have hlength := (s.length_getRegion x y width height).trans (Nat.min_eq_left hfits)
  have hredraws := s.redraws_drawRegion x y hlength
  refine Redraws.unique (hredraws.congr fun px py _ => ?_) (Redraws.refl s)
  split
  · rename_i hin
    unfold InRegion at hin
    obtain ⟨col, rfl⟩ : ∃ col : Nat, px = x.toInt + col := ⟨(px - x.toInt).toNat, by omega⟩
    obtain ⟨row, rfl⟩ : ∃ row : Nat, py = y.toInt + row := ⟨(py - y.toInt).toNat, by omega⟩
    rw [hmode, DrawOperation.blend, add_sub_cancel_left, add_sub_cancel_left, Int.toNat_natCast,
      Int.toNat_natCast]
    exact s.imagePixel_getRegion x y hfits (by omega) (by omega)
  · rfl

/-- Copying an image and reading it back undo each other, wherever the image is cut by the sides of
the screen. -/
theorem region_round_trip (hs : s.Framed) (hmode : s.mode.operation = .copy)
    (x y width height : Int16) (hfits : (width.toInt.toNat + 7) / 8 * height.toInt.toNat ≤ 65536) :
    (∀ image : Bytes, image.length = (width.toInt.toNat + 7) / 8 * height.toInt.toNat →
      let t := s.drawRegion x y width height image
      t.getRegion x y width height = s.clip x.toInt y.toInt width.toInt.toNat image ∧
      (∀ px py, s.OnScreen px py → ¬ InRegion x.toInt y.toInt width.toInt height.toInt px py →
        t.pixel t.target px py = s.pixel s.target px py) ∧
      (∀ i k, k < 8 → s.Padding i k →
        t.target.testBit i (pixelMask k) = s.target.testBit i (pixelMask k)) ∧
      t.target.size = s.target.size ∧ t.spared = s.spared ∧ t.toPanel = s.toPanel) ∧
    s.drawRegion x y width height (s.getRegion x y width height) = s := by
  refine ⟨fun image himage => ?_, drawRegion_getRegion hmode x y hfits⟩
  have hredraws := s.redraws_drawRegion x y himage
  refine ⟨getRegion_drawRegion hs hmode x y hfits himage, fun px py hin hout => ?_,
    fun i k hk hpadding => hredraws.shows.padding hk hpadding, hredraws.shows.size_eq,
    hredraws.spared, hredraws.panel⟩
  rw [hredraws.pixel (hs.holds_target hin), if_neg hout]

/-- An image that is wider than the screen and sticks out of it on three sides. -/
theorem region_round_trip_clipped :
    let s := (answer (.point 9 2) (blank 10 3 false)).2.1
    let image : Bytes := [0xff, 0xff, 0x35, 0xac, 0x00, 0x0f]
    s.Framed ∧ s.mode.operation = .copy ∧
      (s.drawRegion (-3) 1 14 3 image).getRegion (-3) 1 14 3 =
        [0x1f, 0xf8, 0x15, 0xa8, 0x00, 0x00] ∧
      s.drawRegion (-3) 1 14 3 (s.getRegion (-3) 1 14 3) = s := by
  intro s image
  have hs : s.Framed := (framed_blank ⟨by decide, by decide, by decide⟩).answer _
  obtain ⟨hdraw, hback⟩ := region_round_trip hs (by decide) (-3) 1 14 3 (by decide)
  exact ⟨hs, by decide, (hdraw image (by decide)).1.trans (by decide), hback⟩

end Screen
end LavMachine
