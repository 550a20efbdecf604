import Mathlib
import LavMachine.Proofs.Machine.Windows
set_option autoImplicit false

/-!
A plane as a picture. Each bit of a plane keeps one pixel of the screen or is padding at the end of
a row. What a call makes of a plane is said by the picture that the plane shows afterwards, with the
padding it had before: the two together determine every byte.
-/
namespace LavMachine

def pixelOf (b : UInt8) (k : Nat) : Bool := b &&& pixelMask k != 0

theorem toBitVec_pixelMask {k : Nat} (hk : k < 8) :
    (pixelMask k).toBitVec = BitVec.twoPow 8 (7 - k) := by
  interval_cases k <;> rfl

theorem pixelOf_eq (b : UInt8) {k : Nat} (hk : k < 8) :
    pixelOf b k = b.toBitVec.getLsbD (7 - k) := by
  have hmask : (b &&& pixelMask k = 0) ↔ b.toBitVec &&& BitVec.twoPow 8 (7 - k) = 0#8 := by
    rw [← toBitVec_pixelMask hk, ← UInt8.toBitVec_and, ← UInt8.toBitVec_inj]
    rfl
  have hpos : BitVec.twoPow 8 (7 - k) ≠ 0#8 := by
    interval_cases k <;> decide
  rw [BitVec.and_twoPow] at hmask
  cases hbit : b.toBitVec.getLsbD (7 - k) <;> simp [pixelOf, hmask, hbit, hpos]

theorem byte_ext {b c : UInt8} (h : ∀ k < 8, pixelOf b k = pixelOf c k) : b = c := by
  apply UInt8.toBitVec_inj.1
  apply BitVec.eq_of_getLsbD_eq
  intro j hj
  have hk : 7 - j < 8 := by omega
  have hj' : 7 - (7 - j) = j := by omega
  have := h (7 - j) hk
  rwa [pixelOf_eq _ hk, pixelOf_eq _ hk, hj'] at this

theorem pixelOf_or (b c : UInt8) {k : Nat} (hk : k < 8) :
    pixelOf (b ||| c) k = (pixelOf b k || pixelOf c k) := by
  simp [pixelOf_eq _ hk]

theorem pixelOf_and_not (b c : UInt8) {k : Nat} (hk : k < 8) :
    pixelOf (b &&& ~~~c) k = (pixelOf b k && !pixelOf c k) := by
  have hk' : 7 - k < 8 := by omega
  simp [pixelOf_eq _ hk, hk']

theorem pixelOf_pixelMask {k l : Nat} (hk : k < 8) (hl : l < 8) :
    pixelOf (pixelMask l) k = decide (k = l) := by
  have hall : ∀ k < 8, ∀ l < 8, pixelOf (pixelMask l) k = decide (k = l) := by decide
  exact hall k hk l hl

theorem pixelMask_inj {k l : Nat} (hk : k < 8) (hl : l < 8) (h : pixelMask k = pixelMask l) :
    k = l := by
  have hone := pixelOf_pixelMask hk hk
  rw [h, pixelOf_pixelMask hk hl] at hone
  simpa using hone

theorem pixelOf_zero (k : Nat) : pixelOf 0 k = false := by simp [pixelOf]

theorem pixelOf_packPixels (f : Nat → Bool) {k : Nat} (hk : k < 8) :
    pixelOf (packPixels f) k = f k := by
  have hprefix : ∀ n ≤ 8,
      pixelOf ((List.range n).foldl (fun b k => if f k then b ||| pixelMask k else b) 0) k =
      (decide (k < n) && f k) := by
    intro n hn
    induction n with
    | zero => simp [pixelOf_zero]
    | succ n ih =>
      rw [List.range_succ, List.foldl_append, List.foldl_cons, List.foldl_nil]
      have hkn : (k < n + 1) ↔ k < n ∨ k = n := by omega
      by_cases hf : f n
      · rw [if_pos hf, pixelOf_or _ _ hk, ih (by omega), pixelOf_pixelMask hk (by omega)]
        by_cases hkn' : k = n <;> simp [hkn, hkn', hf]
      · rw [if_neg hf, ih (by omega)]
        by_cases hkn' : k = n <;> simp [hkn, hkn', hf]
  rw [packPixels, hprefix 8 le_rfl]
  simp [hk]

namespace Window

variable {w v : Window} {i j k l : Nat}

theorem testBit_eq (w : Window) (i k : Nat) :
    w.testBit i (pixelMask k) = pixelOf (w.getD i 0) k := rfl

theorem testBit_of_size_le (h : w.size ≤ i) (mask : UInt8) : w.testBit i mask = false := by
  simp [testBit, h]

theorem testBit_putBit (hk : k < 8) (hl : l < 8) (on : Bool) :
    (w.putBit i (pixelMask k) on).testBit j (pixelMask l) =
      if j = i ∧ l = k ∧ i < w.size then on else w.testBit j (pixelMask l) := by
  have hbyte (b : UInt8) : pixelOf (if on then b ||| pixelMask k else b &&& ~~~pixelMask k) l =
      if l = k then on else pixelOf b l := by
    cases on <;> by_cases hlk : l = k <;>
      simp [pixelOf_or, pixelOf_and_not, pixelOf_pixelMask, hl, hk, hlk]
  rw [testBit_eq, testBit_eq, putBit, markBit, Checked.modifyByte]
  by_cases hji : j = i
  · subst hji
    by_cases hj : j < w.size <;> simp [Array.getElem_modify, hbyte, hj]
  · simp [Array.getElem?_modify, hji, Ne.symm hji]

theorem ext_testBit (hsize : w.size = v.size)
    (h : ∀ i < w.size, ∀ k < 8, w.testBit i (pixelMask k) = v.testBit i (pixelMask k)) : w = v := by
  apply Array.ext hsize
  intro i hi hi'
  apply byte_ext
  intro k hk
  have hbit := h i hi k hk
  simpa [testBit_eq, hi, hi'] using hbit

end Window

namespace Panel

variable (p : Panel)

def OnScreen (x y : Int) : Prop := 0 ≤ x ∧ x < p.width ∧ 0 ≤ y ∧ y < p.height

instance (x y : Int) : Decidable (p.OnScreen x y) := inferInstanceAs (Decidable (_ ∧ _))

/-- No pixel is kept in the `k`-th place of byte `i`. -/
def Padding (i k : Nat) : Prop := ∀ x y, p.locate x y ≠ some (i, pixelMask k)

def Holds (w : Window) (x y : Int) : Prop := ∃ spot, p.locate x y = some spot ∧ spot.1 < w.size

variable {p} {x y x' y' : Int} {w v : Window}

theorem onScreen_natCast {x y : Nat} : p.OnScreen x y ↔ x < p.width ∧ y < p.height := by
  unfold OnScreen
  omega

theorem locate_of_onScreen (h : p.OnScreen x y) :
    p.locate x y = some (y.toNat * p.stride + x.toNat / 8, pixelMask (x.toNat % 8)) := if_pos h

theorem locate_eq_none (h : ¬ p.OnScreen x y) : p.locate x y = none := if_neg h

theorem onScreen_of_locate {spot : Nat × UInt8} (h : p.locate x y = some spot) :
    p.OnScreen x y := by
  by_contra hoff
  rw [locate_eq_none hoff] at h
  cases h

theorem exists_place {spot : Nat × UInt8} (h : p.locate x y = some spot) :
    ∃ i k, k < 8 ∧ spot = (i, pixelMask k) := by
  rw [locate_of_onScreen (onScreen_of_locate h)] at h
  exact ⟨_, _, Nat.mod_lt _ (by decide), (Option.some.inj h).symm⟩

/-- The number of a byte gives the row of a pixel and, with the place in the byte, its column. -/
theorem locate_eq_some_iff {i k : Nat} (hk : k < 8) :
    p.locate x y = some (i, pixelMask k) ↔
      p.OnScreen x y ∧ x = (8 * (i % p.stride) + k : Nat) ∧ y = (i / p.stride : Nat) := by
  constructor
  · intro h
    have hin := onScreen_of_locate h
    rw [locate_of_onScreen hin, Option.some.injEq, Prod.mk.injEq] at h
    obtain ⟨rfl, hmask⟩ := h
    have hplace := pixelMask_inj (Nat.mod_lt _ (by decide)) hk hmask
    have ⟨hx, hxw, hy, _⟩ := hin
    have hcol : x.toNat / 8 < p.stride := by
      rw [stride]
      omega
    rw [Nat.mul_comm y.toNat, Nat.mul_add_mod, Nat.mod_eq_of_lt hcol,
      Nat.mul_add_div (Nat.zero_lt_of_lt hcol), Nat.div_eq_of_lt hcol]
    exact ⟨hin, by omega, by omega⟩
  · rintro ⟨hin, rfl, rfl⟩
    have hcol : (8 * (i % p.stride) + k) / 8 = i % p.stride := by omega
    have hplace : (8 * (i % p.stride) + k) % 8 = k := by omega
    rw [locate_of_onScreen hin, Int.toNat_natCast, Int.toNat_natCast, hcol, hplace, Nat.mul_comm,
      Nat.div_add_mod]

theorem locate_inj {spot : Nat × UInt8} (h : p.locate x y = some spot)
    (h' : p.locate x' y' = some spot) :
    x = x' ∧ y = y' := by
  obtain ⟨i, k, hk, rfl⟩ := exists_place h
  obtain ⟨-, hx, hy⟩ := (locate_eq_some_iff hk).1 h
  obtain ⟨-, hx', hy'⟩ := (locate_eq_some_iff hk).1 h'
  exact ⟨hx.trans hx'.symm, hy.trans hy'.symm⟩

theorem holds_of_onScreen (hsize : w.size = p.stride * p.height) (h : p.OnScreen x y) :
    p.Holds w x y :=
  ⟨_, locate_of_onScreen h, hsize ▸ locate_lt (locate_of_onScreen h)⟩

theorem Holds.onScreen (h : p.Holds w x y) : p.OnScreen x y := by
  obtain ⟨spot, hspot, -⟩ := h
  exact onScreen_of_locate hspot

theorem pixel_of_locate {i : Nat} {mask : UInt8} (h : p.locate x y = some (i, mask)) (w : Window) :
    p.pixel w x y = w.testBit i mask := by
  rw [pixel_eq, h]

theorem pixel_of_not_onScreen (h : ¬ p.OnScreen x y) (w : Window) : p.pixel w x y = false := by
  rw [pixel_eq, locate_eq_none h]

/-- `v` shows `picture` and has the padding of `w`. -/
structure Shows (p : Panel) (w : Window) (picture : Int → Int → Bool) (v : Window) : Prop where
  size_eq : v.size = w.size
  pixel {x y : Int} : p.Holds w x y → p.pixel v x y = picture x y
  padding {i k : Nat} :
    k < 8 → p.Padding i k → v.testBit i (pixelMask k) = w.testBit i (pixelMask k)

namespace Shows

variable {u : Window} {picture picture' : Int → Int → Bool}

theorem refl (p : Panel) (w : Window) : p.Shows w (p.pixel w) w :=
  ⟨rfl, fun _ => rfl, fun _ _ => rfl⟩

theorem holds_iff (h : p.Shows w picture v) : p.Holds v x y ↔ p.Holds w x y := by
  rw [Holds, Holds, h.size_eq]

theorem trans (h : p.Shows w picture v) (h' : p.Shows v picture' u) : p.Shows w picture' u where
  size_eq := h'.size_eq.trans h.size_eq
  pixel hheld := h'.pixel (h.holds_iff.2 hheld)
  padding hk hi := (h'.padding hk hi).trans (h.padding hk hi)

theorem congr (h : p.Shows w picture v)
    (hpicture : ∀ x y, p.Holds w x y → picture x y = picture' x y) :
    p.Shows w picture' v :=
  ⟨h.size_eq, fun hheld => (h.pixel hheld).trans (hpicture _ _ hheld), h.padding⟩

theorem unique (h : p.Shows w picture v) (h' : p.Shows w picture u) : v = u := by
  refine Window.ext_testBit (h.size_eq.trans h'.size_eq.symm) fun i hi k hk => ?_
  by_cases hpadding : p.Padding i k
  · rw [h.padding hk hpadding, h'.padding hk hpadding]
  · obtain ⟨x, y, hspot⟩ : ∃ x y, p.locate x y = some (i, pixelMask k) := by
      simpa [Padding] using hpadding
    have hheld : p.Holds w x y := ⟨_, hspot, h.size_eq ▸ hi⟩
    rw [← pixel_of_locate hspot, ← pixel_of_locate hspot, h.pixel hheld, h'.pixel hheld]

theorem putBit {i k : Nat} (hspot : p.locate x y = some (i, pixelMask k)) (hk : k < 8) (w : Window)
    (on : Bool) :
    p.Shows w (fun x' y' => if x' = x ∧ y' = y then on else p.pixel w x' y')
      (w.putBit i (pixelMask k) on) := by
  refine ⟨Array.size_modify, ?_, ?_⟩
  · rintro x' y' ⟨spot, hspot', hlt⟩
    obtain ⟨j, l, hl, rfl⟩ := exists_place hspot'
    rw [pixel_of_locate hspot', pixel_of_locate hspot']
    by_cases hsame : x' = x ∧ y' = y
    · obtain ⟨rfl, rfl⟩ := hsame
      obtain ⟨rfl, hmask⟩ := Prod.mk.inj (Option.some.inj (hspot.symm.trans hspot'))
      rw [if_pos ⟨rfl, rfl⟩, ← hmask, Window.testBit_putBit hk hk, if_pos ⟨rfl, rfl, hlt⟩]
    · rw [if_neg hsame, Window.testBit_putBit hk hl, if_neg]
      rintro ⟨rfl, rfl, -⟩
      exact hsame (locate_inj hspot' hspot)
  · intro j l hl hpadding
    rw [Window.testBit_putBit hk hl, if_neg]
    rintro ⟨rfl, rfl, -⟩
    exact hpadding x y hspot

end Shows
end Panel

theorem mem_interval {low high n : Int} : n ∈ interval low high ↔ low ≤ n ∧ n ≤ high := by
  simp only [interval, List.mem_map, List.mem_range]
  constructor
  · rintro ⟨i, hi, rfl⟩
    omega
  · rintro ⟨hlow, hhigh⟩
    exact ⟨(n - low).toNat, by omega, by omega⟩

theorem nodup_interval (low high : Int) : (interval low high).Nodup := by
  refine List.Nodup.map (fun i j h => ?_) List.nodup_range
  exact Int.ofNat.inj (Int.add_left_cancel h)

theorem nodup_flatMap_of_key {α β : Type} {rows : List α} (hrows : rows.Nodup) {row : α → List β}
    (key : β → α) (hnodup : ∀ a, (row a).Nodup) (hkey : ∀ a, ∀ b ∈ row a, key b = a) :
    (rows.flatMap row).Nodup := by
  refine List.nodup_flatMap.2 ⟨fun a _ => hnodup a, ?_⟩
  refine hrows.imp fun {a a'} hne b hb hb' => hne ?_
  rw [← hkey a b hb, ← hkey a' b hb']

namespace Screen

structure Framed (s : Screen) : Prop where
  fits : s.toPanel.Fits
  graph_size : s.graph.size = s.planeSize
  buffer_size : s.buffer.size = s.planeSize

def spared (s : Screen) : Window := if s.mode.visible then s.buffer else s.graph

variable {s t u : Screen} {x y : Int}

theorem framed_blank {width height : Nat} {attached : Bool}
    (h : (blank width height attached).Fits) :
    (blank width height attached).Framed :=
  ⟨h, Array.size_replicate, Array.size_replicate⟩

theorem Framed.congr (h : s.Framed) (hmeasures : t.measures = s.measures) : t.Framed := by
  simp only [measures, Measures.mk.injEq] at hmeasures
  obtain ⟨hwidth, hheight, hgraph, hbuffer⟩ := hmeasures
  have hstride : t.stride = s.stride := by rw [Panel.stride, Panel.stride, hwidth]
  have hplane : t.planeSize = s.planeSize := by
    rw [Panel.planeSize, Panel.planeSize, hwidth, hheight]
  refine ⟨⟨?_, ?_, ?_⟩, ?_, ?_⟩
  · exact hwidth.trans_le h.fits.width_le
  · exact hheight.trans_le h.fits.height_le
  · rw [hstride, hheight]
    exact h.fits.plane_le
  · rw [hgraph, hplane, h.graph_size]
  · rw [hbuffer, hplane, h.buffer_size]

theorem Framed.answer (h : s.Framed) (c : DisplayCall) : (Screen.answer c s).2.1.Framed :=
  h.congr (s.measures_answer c)

theorem Framed.holds_buffer (h : s.Framed) (hin : s.OnScreen x y) : s.Holds s.buffer x y :=
  Panel.holds_of_onScreen (h.buffer_size.trans h.fits.planeSize_eq) hin

theorem Framed.holds_target (h : s.Framed) (hin : s.OnScreen x y) : s.Holds s.target x y := by
  refine Panel.holds_of_onScreen ?_ hin
  rw [target, ← h.fits.planeSize_eq]
  split
  · exact h.graph_size
  · exact h.buffer_size

theorem ext_planes (hpanel : t.toPanel = s.toPanel) (htarget : t.target = s.target)
    (hspared : t.spared = s.spared) :
    t = s := by
  obtain ⟨p, graph, buffer⟩ := s
  obtain ⟨q, graph', buffer'⟩ := t
  obtain rfl : q = p := hpanel
  simp only [target, spared] at htarget hspared
  cases hvisible : q.mode.visible <;> simp_all

/-- `t` is `s` with another picture in the plane that drawing goes to. -/
structure Redraws (s : Screen) (picture : Int → Int → Bool) (t : Screen) : Prop where
  panel : t.toPanel = s.toPanel
  spared : t.spared = s.spared
  shows : s.Shows s.target picture t.target

namespace Redraws

variable {picture picture' : Int → Int → Bool}

theorem refl (s : Screen) : s.Redraws (s.pixel s.target) s := ⟨rfl, rfl, .refl _ _⟩

theorem trans (h : s.Redraws picture t) (h' : t.Redraws picture' u) : s.Redraws picture' u where
  panel := h'.panel.trans h.panel
  spared := h'.spared.trans h.spared
  shows := by
    have hshows := h'.shows
    rw [h.panel] at hshows
    exact h.shows.trans hshows

theorem congr (h : s.Redraws picture t)
    (hpicture : ∀ x y, s.Holds s.target x y → picture x y = picture' x y) :
    s.Redraws picture' t :=
  ⟨h.panel, h.spared, h.shows.congr hpicture⟩

theorem unique (h : s.Redraws picture t) (h' : s.Redraws picture u) : t = u :=
  ext_planes (h.panel.trans h'.panel.symm) (h.shows.unique h'.shows) (h.spared.trans h'.spared.symm)

theorem holds_iff (h : s.Redraws picture t) : t.Holds t.target x y ↔ s.Holds s.target x y := by
  rw [h.panel]
  exact h.shows.holds_iff

theorem pixel (h : s.Redraws picture t) (hheld : s.Holds s.target x y) :
    t.pixel t.target x y = picture x y := by
  rw [h.panel]
  exact h.shows.pixel hheld

end Redraws

theorem target_onTarget (s : Screen) (f : Window → Window) :
    (s.onTarget f).target = f s.target := by
  cases hvisible : s.mode.visible <;> simp [onTarget, target, hvisible]

theorem spared_onTarget (s : Screen) (f : Window → Window) : (s.onTarget f).spared = s.spared := by
  cases hvisible : s.mode.visible <;> simp [onTarget, spared, hvisible]

theorem toPanel_onTarget (s : Screen) (f : Window → Window) :
    (s.onTarget f).toPanel = s.toPanel := by
  cases hvisible : s.mode.visible <;> simp [onTarget, hvisible]

theorem redraws_plot (s : Screen) (x y : Int) (f : Bool → Bool) :
    s.Redraws
      (fun x' y' => if x' = x ∧ y' = y then f (s.pixel s.target x y) else s.pixel s.target x' y')
      (s.plot x y f) := by
  by_cases hin : s.OnScreen x y
  · have hspot := Panel.locate_of_onScreen hin
    rw [plot_eq, hspot, Panel.pixel_of_locate hspot]
    refine ⟨s.toPanel_onTarget _, s.spared_onTarget _, ?_⟩
    rw [target_onTarget]
    exact .putBit hspot (Nat.mod_lt _ (by decide)) _ _
  · rw [plot_eq, Panel.locate_eq_none hin]
    refine (Redraws.refl s).congr fun x' y' hheld => (if_neg ?_).symm
    rintro ⟨rfl, rfl⟩
    exact hin hheld.onScreen

theorem redraws_foldl_plot {α : Type} (spot : α → Point) (change : DrawMode → α → Bool → Bool)
    {l : List α} {picture : Int → Int → Bool} (hnodup : (l.map spot).Nodup)
    (hin : ∀ a ∈ l, s.Holds s.target (spot a).1 (spot a).2 →
      picture (spot a).1 (spot a).2 = change s.mode a (s.pixel s.target (spot a).1 (spot a).2))
    (hout : ∀ x y, s.Holds s.target x y → (x, y) ∉ l.map spot →
      picture x y = s.pixel s.target x y) :
    s.Redraws picture (l.foldl (fun s a => s.plot (spot a).1 (spot a).2 (change s.mode a)) s) := by
  induction l generalizing s with
  | nil => exact (Redraws.refl s).congr fun x y hheld => (hout x y hheld List.not_mem_nil).symm
  | cons a l ih =>
    have hfirst := s.redraws_plot (spot a).1 (spot a).2 (change s.mode a)
    have hmode := congrArg Panel.mode hfirst.panel
    obtain ⟨hnew, hnodup⟩ := List.nodup_cons.1 hnodup
    rw [List.foldl_cons]
    -- the first change leaves the mode and every pixel that is still to come
    refine hfirst.trans (ih hnodup ?_ ?_)
    · intro b hb hheld
      have hne : ¬ ((spot b).1 = (spot a).1 ∧ (spot b).2 = (spot a).2) := by
        rintro ⟨hx, hy⟩
        exact hnew (Prod.ext hx hy ▸ List.mem_map_of_mem hb)
      rw [hfirst.holds_iff] at hheld
      rw [hfirst.pixel hheld, if_neg hne, hmode, hin b (List.mem_cons_of_mem a hb) hheld]
    · intro x y hheld hnot
      rw [hfirst.holds_iff] at hheld
      rw [hfirst.pixel hheld]
      by_cases hsame : x = (spot a).1 ∧ y = (spot a).2
      · obtain ⟨rfl, rfl⟩ := hsame
        rw [if_pos ⟨rfl, rfl⟩, hin a List.mem_cons_self hheld]
      · rw [if_neg hsame]
        refine hout x y hheld fun hmem => ?_
        obtain heq | hmem := List.mem_cons.1 hmem
        · exact hsame ⟨congrArg Prod.fst heq, congrArg Prod.snd heq⟩
        · exact hnot hmem

theorem redraws_paintAll (s : Screen) {points : List Point} (hnodup : points.Nodup) :
    s.Redraws (fun x y => if (x, y) ∈ points then s.mode.operation.paint (s.pixel s.target x y)
      else s.pixel s.target x y) (s.paintAll points) := by
  have hmap : points.map id = points := List.map_id points
  refine redraws_foldl_plot id (fun mode _ => mode.operation.paint) ?_ ?_ ?_
  · rwa [hmap]
  · intro p hp _
    exact if_pos hp
  · intro x y _ hnot
    rw [hmap] at hnot
    exact if_neg hnot

end Screen
end LavMachine
