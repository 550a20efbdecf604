import Mathlib
import LavMachine.Proofs.Screen.Pixels
set_option autoImplicit false

namespace LavMachine

abbrev Spot := Int16 × Int16

def Label.spot (l : Label) : Spot := (l.x, l.y)

namespace Screen

def answerAll (s : Screen) (calls : List DisplayCall) : Screen :=
  calls.foldl (fun s c => (answer c s).2.1) s

/-- What becomes of a list of strings drawn, the earliest first, when another call is made. -/
def inscribe (drawn : List (Spot × Bytes)) : DisplayCall → List (Spot × Bytes)
  | .string x y text => drawn ++ [((x, y), text)]
  | .clear => []
  | _ => drawn

def inscribed (calls : List DisplayCall) : List (Spot × Bytes) := calls.foldl inscribe []

def shownAs (b : UInt8) : Char := if 0x20 ≤ b ∧ b ≤ 0x7e then Char.ofNat b.toNat else '?'

def lastLabel (drawn : List (Spot × Bytes)) (spot : Spot) : Label :=
  ⟨spot.1, spot.2, String.ofList (((drawn.reverse.lookup spot).getD []).map shownAs)⟩

/-- The labels of all spots drawn on, ordered by the last string on each. -/
def lastLabels (drawn : List (Spot × Bytes)) : List Label :=
  (drawn.map Prod.fst).dedup.map (lastLabel drawn)

variable {s : Screen} {drawn : List (Spot × Bytes)}

theorem labelText_eq (text : Bytes) : labelText text = String.ofList (text.map shownAs) := by
  have hprintable : ∀ b : UInt8, CharClass.printable.holds b = decide (0x20 ≤ b ∧ b ≤ 0x7e) := by
    decide +kernel
  simp only [labelText, hprintable, decide_eq_true_eq]
  rfl

theorem map_spot_lastLabels (drawn : List (Spot × Bytes)) :
    (lastLabels drawn).map Label.spot = (drawn.map Prod.fst).dedup := by
  simp [lastLabels, Function.comp_def, Label.spot, lastLabel]

theorem nodup_spot_lastLabels (drawn : List (Spot × Bytes)) :
    ((lastLabels drawn).map Label.spot).Nodup := by
  rw [map_spot_lastLabels]
  exact List.nodup_dedup _

theorem lastLabel_concat (drawn : List (Spot × Bytes)) (spot other : Spot) (text : Bytes) :
    lastLabel (drawn ++ [(spot, text)]) other =
      if other = spot then ⟨spot.1, spot.2, labelText text⟩ else lastLabel drawn other := by
  by_cases h : other = spot
  · simp [lastLabel, labelText_eq, h]
  · have hne : (other == spot) = false := beq_eq_false_iff_ne.2 h
    simp [lastLabel, h, List.lookup_cons, hne]

theorem dedup_concat (spots : List Spot) (spot : Spot) :
    (spots ++ [spot]).dedup = spots.dedup.filter (· != spot) ++ [spot] := by
  induction spots with
  | nil => simp
  | cons first spots ih =>
    by_cases hfirst : first = spot <;> by_cases hagain : first ∈ spots <;> simp_all

theorem lastLabels_concat (drawn : List (Spot × Bytes)) (spot : Spot) (text : Bytes) :
    lastLabels (drawn ++ [(spot, text)]) =
      (lastLabels drawn).filter (·.spot != spot) ++ [⟨spot.1, spot.2, labelText text⟩] := by
  have hothers :
      ((drawn.map Prod.fst).dedup.filter (· != spot)).map (lastLabel (drawn ++ [(spot, text)])) =
      (lastLabels drawn).filter (·.spot != spot) := by
    rw [lastLabels, List.filter_map]
    refine List.map_congr_left fun other hother => ?_
    have hne : other ≠ spot := by simpa using (List.mem_filter.1 hother).2
    rw [lastLabel_concat, if_neg hne]
  have hspots : (drawn ++ [(spot, text)]).map Prod.fst = drawn.map Prod.fst ++ [spot] :=
    List.map_append
  rw [← hothers, lastLabels, hspots, dedup_concat, List.map_append, List.map_singleton,
    lastLabel_concat, if_pos rfl]

/-- It makes no difference to the last `n` labels on other spots if the list was cut to `n + 1`
before. -/
theorem rtake_filter_rtake {labels : List Label} (hnodup : (labels.map Label.spot).Nodup)
    (spot : Spot) (n : Nat) :
    ((labels.rtake (n + 1)).filter (·.spot != spot)).rtake n =
      (labels.filter (·.spot != spot)).rtake n := by
  induction labels using List.reverseRecOn generalizing n with
  | nil => simp
  | append_singleton labels l ih =>
    rw [List.map_append, List.map_singleton, List.nodup_append] at hnodup
    obtain ⟨hnodup, -, hnew⟩ := hnodup
    by_cases hl : l.spot = spot
    · -- The others are all elsewhere, so there is nothing more to take away.
      have hothers : ∀ other ∈ labels, (other.spot != spot) = true := fun other hother =>
        bne_iff_ne.2 (hl ▸ hnew _ (List.mem_map_of_mem hother) _ List.mem_cons_self)
      have hkept : ∀ other ∈ labels.rtake n, (other.spot != spot) = true := fun other hother =>
        hothers other (List.mem_of_mem_drop hother)
      have hlast : [l].filter (·.spot != spot) = [] := by simp [hl]
      rw [List.rtake_concat_succ, List.filter_append, List.filter_append, hlast, List.append_nil,
        List.append_nil, List.filter_eq_self.2 hothers, List.filter_eq_self.2 hkept]
      simp [List.rtake_eq_reverse_take_reverse]
    · cases n with
      | zero => simp
      | succ n => simp [List.rtake_concat_succ, hl, ih hnodup]

theorem drop_one_eq_rtake {labels : List Label} {n : Nat} (h : labels.length ≤ n + 1) :
    (if labels.length ≥ n + 1 then labels.drop 1 else labels) = labels.rtake n := by
  rw [List.rtake]
  split
  · rw [show labels.length - n = 1 by omega]
  · rw [show labels.length - n = 0 by omega, List.drop_zero]

/-- The labels are the latest of those that the strings drawn would leave. -/
def Bears (s : Screen) (drawn : List (Spot × Bytes)) : Prop :=
  s.labels = (lastLabels drawn).rtake maxLabels

theorem bears_nil_iff : s.Bears [] ↔ s.labels = [] := by simp [Bears, lastLabels]

theorem Bears.drawString (h : s.Bears drawn) (x y : Int16) (text : Bytes) :
    (s.drawString x y text).Bears (drawn ++ [((x, y), text)]) := by
  have hothers :
      (s.labels.filter fun l => !(l.x == x && l.y == y)) = s.labels.filter (·.spot != (x, y)) :=
    List.filter_congr fun _ _ => rfl
  have hlength : (s.labels.filter (·.spot != (x, y))).length ≤ 255 + 1 := by
    refine (List.length_filter_le _ _).trans ?_
    rw [h, List.rtake, List.length_drop, maxLabels]
    omega
  have hkept := drop_one_eq_rtake hlength
  simp only [Bears, Screen.drawString, hothers, lastLabels_concat, maxLabels,
    List.rtake_concat_succ]
  rw [hkept, h, maxLabels, rtake_filter_rtake (nodup_spot_lastLabels drawn)]

theorem labels_plot (s : Screen) (x y : Int) (f : Bool → Bool) : (s.plot x y f).labels = s.labels :=
  congrArg Panel.labels (s.redraws_plot x y f).panel

theorem Bears.answer (h : s.Bears drawn) (c : DisplayCall) :
    (Screen.answer c s).2.1.Bears (inscribe drawn c) := by
  cases c with
  | string x y text => exact h.drawString x y text
  | clear => exact bears_nil_iff.2 rfl
  | point => exact (s.labels_plot _ _ _).trans h
  | line | rectangle | oval => exact (s.paintAll_keeps (g := (·.labels)) labels_plot _).trans h
  | region => exact (s.drawRegion_keeps (g := (·.labels)) labels_plot _ _ _ _ _).trans h
  | setMode | getPoint | getRegion | refresh | transform => exact h

theorem Bears.answerAll (h : s.Bears drawn) (calls : List DisplayCall) :
    (s.answerAll calls).Bears (calls.foldl inscribe drawn) := by
  induction calls generalizing s drawn with
  | nil => exact h
  | cons c calls ih => exact ih (h.answer c)

theorem bears_inscribed {calls : List DisplayCall} (h : s.labels = [] ∨ .clear ∈ calls) :
    (s.answerAll calls).Bears (inscribed calls) := by
  obtain hblank | hclear := h
  · exact (bears_nil_iff.2 hblank).answerAll calls
  · obtain ⟨before, after, rfl⟩ := List.append_of_mem hclear
    have hbears : (s.answerAll (before ++ [.clear])).Bears [] := by
      simp only [Screen.answerAll, List.foldl_concat]
      exact bears_nil_iff.2 rfl
    have hsplit : s.answerAll (before ++ .clear :: after) =
        (s.answerAll (before ++ [.clear])).answerAll after := by
      simp [Screen.answerAll]
    have hinscribed : inscribed (before ++ .clear :: after) = after.foldl inscribe [] := by
      simp [inscribed, inscribe]
    rw [hsplit, hinscribed]
    exact hbears.answerAll after

/-- On a screen that starts without labels or is cleared on the way, the labels are those of the
last 256 spots, in the order of the last string drawn on each, and show these strings. No two of
them are on one spot. -/
theorem labels_most_recent (s : Screen) (calls : List DisplayCall)
    (h : s.labels = [] ∨ .clear ∈ calls) :
    let drawn := inscribed calls
    let labels := (s.answerAll calls).labels
    labels = ((drawn.map Prod.fst).dedup.rtake 256).map (lastLabel drawn) ∧
      (labels.map Label.spot).Nodup ∧ labels.length ≤ 256 := by
  intro drawn labels
  have hbears : labels = (lastLabels drawn).rtake 256 := bears_inscribed h
  refine ⟨?_, ?_, ?_⟩
  · rw [hbears, lastLabels]
    simp [List.rtake]
  · rw [hbears, List.rtake, List.map_drop]
    exact (nodup_spot_lastLabels drawn).sublist (List.drop_sublist _ _)
  · rw [hbears, List.rtake, List.length_drop]
    omega

/-- A string from before the clearing is gone, one that is drawn over has moved behind the other,
and a dot has no label. -/
theorem labels_most_recent_redrawn :
    let calls := [.string 5 (-1) [66], .clear, .string 0 0 [65], .string (-1) 5 [67], .point 5 (-1),
      .string 0 0 [7, 32, 126]]
    .clear ∈ calls ∧ ((blank 8 1 true).answerAll calls).labels = [⟨-1, 5, "C"⟩, ⟨0, 0, "? ~"⟩] := by
  intro calls
  have hclear : .clear ∈ calls := List.mem_cons_of_mem _ List.mem_cons_self
  obtain ⟨hlabels, -, -⟩ := labels_most_recent (blank 8 1 true) calls (.inr hclear)
  refine ⟨hclear, hlabels.trans ?_⟩
  decide +kernel

end Screen
end LavMachine
