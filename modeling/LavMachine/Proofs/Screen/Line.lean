import Mathlib
import LavMachine.Proofs.Screen.Pixels
set_option autoImplicit false

/-!
Lines. The loop that draws a line counts nothing: it goes on until both coordinates meet the last
point. After `k` turns the pen has covered, of the extent of each axis, the share `k` of the longer
extent, to the nearest integer, and the error term is what the two shares make of it. The shares are
whole together after as many turns as the longer extent has units, and not before.
-/
namespace LavMachine
namespace Shape

/-- What stays the same along a line: how far it goes along each axis, in which directions, and its
last point. -/
structure Stroke where
  dx : Nat
  dy : Nat
  sx : Int
  sy : Int
  x1 : Int
  y1 : Int

structure Pen where
  x : Int
  y : Int
  err : Int

structure Turn where
  doubled : Int
  middle : Int
  x : Int
  err : Int
  y : Int

def Pen.point (p : Pen) : Point := (p.x, p.y)

def Turn.pen (t : Turn) : Pen := ⟨t.x, t.y, t.err⟩

def Turn.numbers (t : Turn) : List Int := [t.doubled, t.middle, t.x, t.err, t.y]

def preparation (x0 y0 x1 y1 : Int) : List Int :=
  let dx : Int := (x1 - x0).natAbs
  let dy : Int := (y1 - y0).natAbs
  [x1 - x0, dx, y1 - y0, dy, -dy, dx + -dy]

namespace Stroke

def between (x0 y0 x1 y1 : Int) : Stroke where
  dx := (x1 - x0).natAbs
  dy := (y1 - y0).natAbs
  sx := if x0 < x1 then 1 else -1
  sy := if y0 < y1 then 1 else -1
  x1
  y1

def start (l : Stroke) (x0 y0 : Int) : Pen := ⟨x0, y0, l.dx - l.dy⟩

def turn (l : Stroke) (p : Pen) : Turn :=
  let doubled := 2 * p.err
  let middle := if doubled ≥ -l.dy then p.err + -l.dy else p.err
  { doubled
    middle
    x := if doubled ≥ -l.dy then p.x + l.sx else p.x
    err := if doubled ≤ l.dx then middle + l.dx else middle
    y := if doubled ≤ l.dx then p.y + l.sy else p.y }

def alongX (l : Stroke) (p : Pen) : Int := if 2 * p.err ≥ -l.dy then 1 else 0

def alongY (l : Stroke) (p : Pen) : Int := if 2 * p.err ≤ l.dx then 1 else 0

def Ends (l : Stroke) (p : Pen) : Prop := p.x = l.x1 ∧ p.y = l.y1

/-- A run of the loop from one pen to its end, however long that takes. -/
inductive Draws (l : Stroke) : Pen → List Pen → Prop where
  | stop {p : Pen} : l.Ends p → Draws l p [p]
  | go {p : Pen} {rest : List Pen} :
    ¬ l.Ends p → Draws l (l.turn p).pen rest → Draws l p (p :: rest)

variable {l : Stroke}

/-- Each axis whose share of the error is due moves, and pays for it. -/
theorem pen_turn (l : Stroke) (p : Pen) :
    (l.turn p).pen = ⟨p.x + l.sx * l.alongX p, p.y + l.sy * l.alongY p,
      p.err - l.dy * l.alongX p + l.dx * l.alongY p⟩ := by
  by_cases hx : 2 * p.err ≥ -l.dy <;> by_cases hy : 2 * p.err ≤ l.dx <;>
    simp [turn, Turn.pen, alongX, alongY, hx, hy, Int.sub_eq_add_neg]

theorem Draws.lineFrom_eq {p : Pen} {pens : List Pen} (h : l.Draws p pens) {fuel : Nat}
    (hfuel : pens.length ≤ fuel) (passed : List Point) :
    lineFrom l.dx (-l.dy) l.sx l.sy l.x1 l.y1 fuel p.x p.y p.err passed =
      (pens.map Pen.point).reverse ++ passed := by
  induction h generalizing fuel passed with
  | @stop p hends =>
    obtain ⟨fuel, rfl⟩ := Nat.exists_eq_add_of_le' hfuel
    exact if_pos hends
  | @go p rest hends _ ih =>
    obtain ⟨fuel, rfl⟩ := Nat.exists_eq_add_of_le' (Nat.le_trans (Nat.le_add_left 1 _) hfuel)
    have hrest := ih (Nat.le_of_succ_le_succ hfuel) (p.point :: passed)
    have herr : (l.turn p).err = p.err + (if 2 * p.err ≥ -l.dy then -(l.dy : Int) else 0) +
        if 2 * p.err ≤ l.dx then (l.dx : Int) else 0 := by
      simp only [turn]
      split <;> split <;> omega
    simp only [Turn.pen, herr] at hrest
    refine (if_neg hends).trans ?_
    simp only [List.map_cons, List.reverse_cons, List.append_assoc, List.singleton_append]
    exact hrest

theorem draws_of_turns {pen : Nat → Pen} {n : Nat}
    (hturn : ∀ k < n, ¬ l.Ends (pen k) ∧ (l.turn (pen k)).pen = pen (k + 1))
    (hlast : l.Ends (pen n)) :
    l.Draws (pen 0) ((List.range (n + 1)).map pen) := by
  induction n generalizing pen with
  | zero => exact .stop hlast
  | succ n ih =>
    obtain ⟨hends, hnext⟩ := hturn 0 n.succ_pos
    have hrest := @ih (fun k => pen (k + 1)) (fun k hk => hturn (k + 1) (Nat.succ_lt_succ hk)) hlast
    rw [List.range_succ_eq_map, List.map_cons, List.map_map]
    refine .go hends ?_
    rw [hnext]
    exact hrest

end Stroke

/-- How much of an extent is covered after `k` of `major` turns, to the nearest integer with halves
going up. -/
def share (major extent k : Nat) : Nat := (2 * (k * extent) + major) / (2 * major)

section Share

variable {major extent k : Nat}

theorem share_bounds (hpos : 0 < major) (extent k : Nat) :
    2 * (share major extent k * major) ≤ 2 * (k * extent) + major ∧
      2 * (k * extent) + major < 2 * (share major extent k * major) + 2 * major := by
  have hdiv := Nat.div_add_mod (2 * (k * extent) + major) (2 * major)
  have hmod := Nat.mod_lt (2 * (k * extent) + major) (show 0 < 2 * major by omega)
  rw [← share, Nat.mul_assoc, Nat.mul_comm major] at hdiv
  omega

theorem share_eq {q : Nat} (hle : 2 * (q * major) ≤ 2 * (k * extent) + major)
    (hlt : 2 * (k * extent) + major < 2 * (q * major) + 2 * major) : share major extent k = q := by
  have htwice : q * (2 * major) = 2 * (q * major) := Nat.mul_left_comm q 2 major
  apply Nat.div_eq_of_lt_le
  · rwa [htwice]
  · rwa [Nat.add_mul, htwice, Nat.one_mul]

theorem share_zero (major extent : Nat) : share major extent 0 = 0 := by
  obtain rfl | hpos := Nat.eq_zero_or_pos major
  · exact Nat.div_zero _
  · exact share_eq (by omega) (by omega)

theorem share_major (hpos : 0 < major) (k : Nat) : share major major k = k :=
  share_eq (by omega) (by omega)

theorem share_unit (hk : k ≤ major) : share major major k = k := by
  obtain rfl | hpos := Nat.eq_zero_or_pos major
  · exact (Nat.div_zero _).trans (Nat.le_zero.1 hk).symm
  · exact share_major hpos k

theorem share_le (hle : extent ≤ major) (k : Nat) : share major extent k ≤ k := by
  obtain rfl | hpos := Nat.eq_zero_or_pos major
  · exact (Nat.div_zero _).trans_le k.zero_le
  · have hmul := Nat.mul_le_mul_left k hle
    refine Nat.le_of_lt_succ (Nat.div_lt_of_lt_mul ?_)
    rw [Nat.mul_succ, Nat.mul_assoc, Nat.mul_comm major]
    omega

theorem share_whole (hle : extent ≤ major) : share major extent major = extent := by
  obtain rfl | hpos := Nat.eq_zero_or_pos major
  · exact (share_zero 0 extent).trans (Nat.le_zero.1 hle).symm
  · have hcomm := Nat.mul_comm major extent
    exact share_eq (by omega) (by omega)

theorem share_none (major k : Nat) : share major 0 k = 0 := by
  obtain rfl | hpos := Nat.eq_zero_or_pos major
  · exact Nat.div_zero _
  · exact share_eq (by omega) (by omega)

theorem round_eq_share (hle : extent ≤ major) (k : Nat) :
    round ((k * extent : ℚ) / major) = share major extent k := by
  obtain rfl | hpos := Nat.eq_zero_or_pos major
  · simp [share]
  · have hmajor : (major : ℚ) ≠ 0 := by exact_mod_cast hpos.ne'
    have hhalf : (k * extent : ℚ) / major + 1 / 2 =
        ((2 * (k * extent) + major : Nat) : ℚ) / (2 * major : Nat) := by
      push_cast
      field_simp
    rw [round_eq, hhalf, Rat.floor_natCast_div_natCast]
    rfl

/-- One turn more: an axis moves on when the error, as the shares of both axes make it, says so. -/
theorem share_succ (extent other : Nat) (hmajor : major = max extent other) (hpos : 0 < major)
    (k : Nat) :
    (share major extent (k + 1) : Int) = share major extent k +
      if 2 * ((share major other k + 1) * extent - (share major extent k + 1) * other : Int) ≥
        -other then 1 else 0 := by
  obtain hle | hle := Nat.le_total other extent
  · obtain rfl : major = extent := by omega
    obtain ⟨-, hlt⟩ := share_bounds hpos other k
    rw [share_major hpos, share_major hpos, if_pos]
    · push_cast
      rfl
    · zify at hlt hle
      linarith
  · obtain rfl : major = other := by omega
    obtain ⟨hge, hlt⟩ := share_bounds hpos extent k
    have hstep : (k + 1) * extent = k * extent + extent := Nat.succ_mul k extent
    rw [share_major hpos]
    split
    · rename_i hmove
      have hq : share major extent (k + 1) = share major extent k + 1 := by
        apply share_eq
        · zify at hle ⊢
          linarith
        · rw [hstep, Nat.succ_mul (share major extent k)]
          omega
      exact_mod_cast hq
    · rename_i hstay
      have hq : share major extent (k + 1) = share major extent k := by
        apply share_eq
        · rw [hstep]
          omega
        · zify
          linarith
      exact_mod_cast hq

end Share

namespace Stroke

def major (l : Stroke) : Nat := max l.dx l.dy

theorem dx_le_major (l : Stroke) : l.dx ≤ l.major := Nat.le_max_left _ _

theorem dy_le_major (l : Stroke) : l.dy ≤ l.major := Nat.le_max_right _ _

def penAt (l : Stroke) (x0 y0 : Int) (k : Nat) : Pen where
  x := x0 + l.sx * share l.major l.dx k
  y := y0 + l.sy * share l.major l.dy k
  err := (share l.major l.dy k + 1) * l.dx - (share l.major l.dx k + 1) * l.dy

variable {l : Stroke}

theorem penAt_zero (l : Stroke) (x0 y0 : Int) : l.penAt x0 y0 0 = l.start x0 y0 := by
  simp [penAt, start, share_zero]

theorem turn_penAt (hpos : 0 < l.major) (x0 y0 : Int) (k : Nat) :
    (l.turn (l.penAt x0 y0 k)).pen = l.penAt x0 y0 (k + 1) := by
  have hx :
      (share l.major l.dx (k + 1) : Int) = share l.major l.dx k + l.alongX (l.penAt x0 y0 k) :=
    share_succ l.dx l.dy rfl hpos k
  -- the two axes read the same error with opposite signs
  have hopposite :
      2 * ((share l.major l.dx k + 1) * l.dy - (share l.major l.dy k + 1) * l.dx : Int) =
      -(2 * (l.penAt x0 y0 k).err) := by
    simp only [penAt]
    ring
  have hy :
      (share l.major l.dy (k + 1) : Int) = share l.major l.dy k + l.alongY (l.penAt x0 y0 k) := by
    have hmajor : l.major = max l.dy l.dx := Nat.max_comm _ _
    have hshare := share_succ l.dy l.dx hmajor hpos k
    rw [hopposite] at hshare
    simpa only [alongY, ge_iff_le, neg_le_neg_iff] using hshare
  rw [pen_turn]
  generalize l.alongX (l.penAt x0 y0 k) = a at *
  generalize l.alongY (l.penAt x0 y0 k) = b at *
  simp only [penAt, hx, hy, Pen.mk.injEq]
  refine ⟨?_, ?_, ?_⟩ <;> ring

theorem err_penAt_bounds (l : Stroke) (x0 y0 : Int) (k : Nat) :
    -(3 * l.major : Int) ≤ 2 * (l.penAt x0 y0 k).err ∧ 2 * (l.penAt x0 y0 k).err ≤ 3 * l.major := by
  obtain hzero | hpos := Nat.eq_zero_or_pos l.major
  · have hdx := l.dx_le_major
    have hdy := l.dy_le_major
    have herr : (l.penAt x0 y0 k).err = 0 := by
      rw [hzero, Nat.le_zero] at hdx hdy
      simp [penAt, hdx, hdy]
    omega
  · obtain hle | hle := Nat.le_total l.dy l.dx
    · have hmajor : l.major = l.dx := Nat.max_eq_left hle
      have hbounds := share_bounds hpos l.dy k
      rw [hmajor] at hpos hbounds
      simp only [penAt, hmajor, share_major hpos]
      zify at hle hbounds
      constructor <;> linarith
    · have hmajor : l.major = l.dy := Nat.max_eq_right hle
      have hbounds := share_bounds hpos l.dx k
      rw [hmajor] at hpos hbounds
      simp only [penAt, hmajor, share_major hpos]
      zify at hle hbounds
      constructor <;> linarith

structure From (l : Stroke) (x0 y0 : Int) : Prop where
  sx : l.sx = 1 ∨ l.sx = -1
  sy : l.sy = 1 ∨ l.sy = -1
  x1 : x0 + l.sx * l.dx = l.x1
  y1 : y0 + l.sy * l.dy = l.y1

theorem from_between (x0 y0 x1 y1 : Int) : (between x0 y0 x1 y1).From x0 y0 := by
  refine ⟨?_, ?_, ?_, ?_⟩ <;> simp only [between] <;> split <;> omega

namespace From

variable {x0 y0 : Int} {j k : Nat}

theorem share_eq_of_point_eq (h : l.From x0 y0) {a b a' b' : Nat}
    (hx : x0 + l.sx * a = x0 + l.sx * a') (hy : y0 + l.sy * b = y0 + l.sy * b') :
    a = a' ∧ b = b' := by
  obtain hsx | hsx := h.sx <;> obtain hsy | hsy := h.sy <;>
    rw [hsx] at hx <;> rw [hsy] at hy <;> omega

theorem eq_of_share_eq (hj : j ≤ l.major) (hk : k ≤ l.major)
    (hx : share l.major l.dx j = share l.major l.dx k)
    (hy : share l.major l.dy j = share l.major l.dy k) : j = k := by
  obtain hzero | hpos := Nat.eq_zero_or_pos l.major
  · omega
  -- the share of the longer axis is the number of the turn itself
  · obtain hle | hle := Nat.le_total l.dy l.dx
    · have hmajor : l.major = l.dx := Nat.max_eq_left hle
      rwa [← hmajor, share_major hpos, share_major hpos] at hx
    · have hmajor : l.major = l.dy := Nat.max_eq_right hle
      rwa [← hmajor, share_major hpos, share_major hpos] at hy

theorem point_inj (h : l.From x0 y0) (hj : j ≤ l.major) (hk : k ≤ l.major)
    (hpoint : (l.penAt x0 y0 j).point = (l.penAt x0 y0 k).point) : j = k := by
  obtain ⟨hx, hy⟩ := Prod.mk.inj hpoint
  obtain ⟨hx, hy⟩ := h.share_eq_of_point_eq hx hy
  exact eq_of_share_eq hj hk hx hy

theorem ends_major (h : l.From x0 y0) : l.Ends (l.penAt x0 y0 l.major) := by
  simp only [Ends, penAt, share_whole l.dx_le_major, share_whole l.dy_le_major]
  exact ⟨h.x1, h.y1⟩

theorem draws (h : l.From x0 y0) :
    l.Draws (l.start x0 y0) ((List.range (l.major + 1)).map (l.penAt x0 y0)) := by
  rw [← penAt_zero]
  refine draws_of_turns (fun k hk => ⟨fun hends => ?_, turn_penAt (Nat.zero_lt_of_lt hk) x0 y0 k⟩)
    h.ends_major
  -- the last point is not met on the way: a pen there would have made all the turns
  have hlast := h.ends_major
  have hpoint : (l.penAt x0 y0 k).point = (l.penAt x0 y0 l.major).point :=
    Prod.ext (hends.1.trans hlast.1.symm) (hends.2.trans hlast.2.symm)
  exact hk.ne (h.point_inj hk.le le_rfl hpoint)

theorem coordinate_bounds {a d : Int} {n : Nat} (ha : -32768 ≤ a ∧ a < 32768) (hd : d = 1 ∨ d = -1)
    (hn : n ≤ 65535) :
    -98303 ≤ a + d * n ∧ a + d * n ≤ 98303 := by
  obtain rfl | rfl := hd <;> omega

/-- Neither the error nor a coordinate ever comes near the end of the range of a word. -/
theorem numbers_bounds (h : l.From x0 y0) (hx0 : -32768 ≤ x0 ∧ x0 < 32768)
    (hy0 : -32768 ≤ y0 ∧ y0 < 32768) (hmajor : l.major ≤ 65535) (hk : k ≤ l.major) :
    ∀ n ∈ (l.turn (l.penAt x0 y0 k)).numbers, -2 ^ 31 ≤ n ∧ n < 2 ^ 31 := by
  have hdx := l.dx_le_major
  have hdy := l.dy_le_major
  have hx : -98303 ≤ (l.penAt x0 y0 k).x ∧ (l.penAt x0 y0 k).x ≤ 98303 :=
    coordinate_bounds hx0 h.sx (Nat.le_trans (share_le hdx k) (Nat.le_trans hk hmajor))
  have hy : -98303 ≤ (l.penAt x0 y0 k).y ∧ (l.penAt x0 y0 k).y ≤ 98303 :=
    coordinate_bounds hy0 h.sy (Nat.le_trans (share_le hdy k) (Nat.le_trans hk hmajor))
  have herr := l.err_penAt_bounds x0 y0 k
  have hsx := h.sx
  have hsy := h.sy
  generalize l.penAt x0 y0 k = p at *
  simp only [Turn.numbers, turn, List.mem_cons, List.not_mem_nil, or_false]
  rintro n (rfl | rfl | rfl | rfl | rfl)
  · omega
  · split <;> omega
  · split <;> omega
  · split <;> split <;> omega
  · split <;> omega

end From
end Stroke

section Points

variable (x0 y0 x1 y1 : Int)

theorem reverse_lineFrom {bound : Nat} (hbound : (Stroke.between x0 y0 x1 y1).major < bound) :
    let l := Stroke.between x0 y0 x1 y1
    (lineFrom l.dx (-l.dy) l.sx l.sy x1 y1 bound x0 y0 (l.dx - l.dy) []).reverse =
      ((List.range (l.major + 1)).map (l.penAt x0 y0)).map Pen.point := by
  intro l
  have hlength : ((List.range (l.major + 1)).map (l.penAt x0 y0)).length ≤ bound := by
    rw [List.length_map, List.length_range]
    exact hbound
  have hfrom := (Stroke.from_between x0 y0 x1 y1).draws.lineFrom_eq hlength []
  rw [List.append_nil] at hfrom
  rw [← List.reverse_reverse (List.map Pen.point _), ← hfrom]
  rfl

theorem line_eq :
    line x0 y0 x1 y1 = ((List.range ((Stroke.between x0 y0 x1 y1).major + 1)).map
      ((Stroke.between x0 y0 x1 y1).penAt x0 y0)).map Pen.point :=
  reverse_lineFrom x0 y0 x1 y1 (Nat.lt_succ_self _)

theorem direction_mul_share (a b : Int) (major k : Nat) :
    (if a < b then 1 else -1) * (share major (b - a).natAbs k : Int) =
      (b - a).sign * share major (b - a).natAbs k := by
  rcases Int.lt_trichotomy a b with hlt | rfl | hgt
  · rw [if_pos hlt, Int.sign_eq_one_of_pos (by omega)]
  -- an axis that is not moved along has a direction all the same, and no share
  · simp [share_none]
  · rw [if_neg (by omega), Int.sign_eq_neg_one_of_neg (by omega)]

theorem point_penAt (k : Nat) :
    ((Stroke.between x0 y0 x1 y1).penAt x0 y0 k).point =
      (x0 + (x1 - x0).sign * share (max (x1 - x0).natAbs (y1 - y0).natAbs) (x1 - x0).natAbs k,
        y0 + (y1 - y0).sign *
          share (max (x1 - x0).natAbs (y1 - y0).natAbs) (y1 - y0).natAbs k) := by
  rw [← direction_mul_share, ← direction_mul_share]
  rfl

theorem length_line : (line x0 y0 x1 y1).length = max (x1 - x0).natAbs (y1 - y0).natAbs + 1 := by
  rw [line_eq, List.length_map, List.length_map, List.length_range]
  rfl

theorem head?_line : (line x0 y0 x1 y1).head? = some (x0, y0) := by
  rw [line_eq, List.head?_map, List.head?_map, List.head?_range, if_neg (Nat.succ_ne_zero _),
    Option.map_some, Stroke.penAt_zero]
  rfl

theorem getLast?_line : (line x0 y0 x1 y1).getLast? = some (x1, y1) := by
  have hends := (Stroke.from_between x0 y0 x1 y1).ends_major
  rw [line_eq, List.getLast?_map, List.getLast?_map, List.getLast?_range,
    if_neg (Nat.succ_ne_zero _)]
  exact congrArg some (Prod.ext hends.1 hends.2)

theorem nodup_line : (line x0 y0 x1 y1).Nodup := by
  rw [line_eq, List.map_map]
  refine List.Nodup.map_on (fun j hj k hk hpoint => ?_) List.nodup_range
  rw [List.mem_range] at hj hk
  exact (Stroke.from_between x0 y0 x1 y1).point_inj (Nat.le_of_lt_succ hj)
    (Nat.le_of_lt_succ hk) hpoint

/-- After `k` turns the line is `k` units along its longer axis, and the rounded part of its shorter
one. -/
theorem getElem?_line {k : Nat} (hk : k ≤ max (x1 - x0).natAbs (y1 - y0).natAbs) :
    (line x0 y0 x1 y1)[k]? =
      let minor := min (x1 - x0).natAbs (y1 - y0).natAbs
      let major := max (x1 - x0).natAbs (y1 - y0).natAbs
      let aside := round ((k * minor : ℚ) / major)
      if (y1 - y0).natAbs ≤ (x1 - x0).natAbs
      then some (x0 + (x1 - x0).sign * k, y0 + (y1 - y0).sign * aside)
      else some (x0 + (x1 - x0).sign * aside, y0 + (y1 - y0).sign * k) := by
  have hlt : k < (Stroke.between x0 y0 x1 y1).major + 1 := Nat.lt_succ_of_le hk
  have hpen : (line x0 y0 x1 y1)[k]? = some ((Stroke.between x0 y0 x1 y1).penAt x0 y0 k).point := by
    rw [line_eq, List.getElem?_map, List.getElem?_map, List.getElem?_range hlt]
    rfl
  rw [hpen, point_penAt]
  by_cases hle : (y1 - y0).natAbs ≤ (x1 - x0).natAbs
  · rw [Nat.max_eq_left hle] at hk
    simp only [if_pos hle, Nat.min_eq_right hle, Nat.max_eq_left hle, round_eq_share hle,
      share_unit hk]
  · have hle' : (x1 - x0).natAbs ≤ (y1 - y0).natAbs := Nat.le_of_not_le hle
    rw [Nat.max_eq_right hle'] at hk
    simp only [if_neg hle, Nat.min_eq_left hle', Nat.max_eq_right hle', round_eq_share hle',
      share_unit hk]

end Points
end Shape

namespace Screen

open Shape

theorem int16_bounds (a : Int16) : -32768 ≤ a.toInt ∧ a.toInt < 32768 := ⟨a.le_toInt, a.toInt_lt⟩

/-- The loop of a line ends by itself, after one point for each unit of the longer axis and one
more; the points are those of the straight line, rounded; every number it computes is a word's; and
each point on the screen is touched once. -/
theorem line_marks_rounded_points (s : Screen) (x0 y0 x1 y1 : Int16) :
    let dx := (x1.toInt - x0.toInt).natAbs
    let dy := (y1.toInt - y0.toInt).natAbs
    let major := max dx dy
    let minor := min dx dy
    let stroke := Stroke.between x0.toInt y0.toInt x1.toInt y1.toInt
    let points := line x0.toInt y0.toInt x1.toInt y1.toInt
    (∃ pens, stroke.Draws (stroke.start x0.toInt y0.toInt) pens ∧ pens.map Pen.point = points ∧
      ∀ n ∈ preparation x0.toInt y0.toInt x1.toInt y1.toInt ++
          pens.flatMap fun p => (stroke.turn p).numbers,
        -2 ^ 31 ≤ n ∧ n < 2 ^ 31) ∧
    (∀ bound, major < bound →
      (lineFrom dx (-dy) stroke.sx stroke.sy x1.toInt y1.toInt bound x0.toInt y0.toInt
      (dx - dy) []).reverse = points) ∧
    points.length = major + 1 ∧ points.Nodup ∧
    points.head? = some (x0.toInt, y0.toInt) ∧ points.getLast? = some (x1.toInt, y1.toInt) ∧
    (∀ k ≤ major, points[k]? =
      let aside := round ((k * minor : ℚ) / major)
      if dy ≤ dx
      then some (x0.toInt + (x1.toInt - x0.toInt).sign * k,
        y0.toInt + (y1.toInt - y0.toInt).sign * aside)
      else some (x0.toInt + (x1.toInt - x0.toInt).sign * aside,
        y0.toInt + (y1.toInt - y0.toInt).sign * k)) ∧
    s.Redraws (fun x y => if (x, y) ∈ points then s.mode.operation.paint (s.pixel s.target x y)
      else s.pixel s.target x y) (s.drawLine x0 y0 x1 y1) := by
  intro dx dy major minor stroke points
  have hx0 := int16_bounds x0
  have hy0 := int16_bounds y0
  have hx1 := int16_bounds x1
  have hy1 := int16_bounds y1
  have hfrom : stroke.From x0.toInt y0.toInt := Stroke.from_between _ _ _ _
  have hmajor : stroke.major ≤ 65535 := by
    change max (x1.toInt - x0.toInt).natAbs (y1.toInt - y0.toInt).natAbs ≤ 65535
    omega
  refine ⟨⟨_, hfrom.draws, (line_eq _ _ _ _).symm, ?_⟩, fun bound hbound => ?_, length_line _ _ _ _,
    nodup_line _ _ _ _, head?_line _ _ _ _, getLast?_line _ _ _ _,
    fun k hk => getElem?_line _ _ _ _ hk, s.redraws_paintAll (nodup_line _ _ _ _)⟩
  · intro n hn
    obtain hn | hn := List.mem_append.1 hn
    · simp only [preparation, List.mem_cons, List.not_mem_nil, or_false] at hn
      omega
    · obtain ⟨p, hp, hn⟩ := List.mem_flatMap.1 hn
      obtain ⟨k, hk, rfl⟩ := List.mem_map.1 hp
      exact hfrom.numbers_bounds hx0 hy0 hmajor (Nat.le_of_lt_succ (List.mem_range.1 hk)) n hn
  · exact (reverse_lineFrom _ _ _ _ hbound).trans (line_eq _ _ _ _).symm

end Screen
end LavMachine
