import Mathlib
import LavMachine.Proofs.Machine.Windows
import LavMachine.Proofs.Memory.Flat
set_option autoImplicit false

namespace LavMachine

/-- Calls that leave the back buffer alone, as long as shapes go to the visible plane. -/
inductive DisplayCall.OnGraph : DisplayCall → Prop where
  | setMode {mode : Word} : (DrawMode.mk mode).visible → OnGraph (.setMode mode)
  | rectangle (x0 y0 x1 y1 : Int16) : OnGraph (.rectangle x0 y0 x1 y1)
  | string (x y : Int16) (text : Bytes) : OnGraph (.string x y text)

namespace Screen

structure Spares (plane : Window) (s : Screen) : Prop where
  visible : s.mode.visible
  buffer : s.buffer = plane

variable {plane : Window} {s : Screen}

theorem Spares.plot (h : s.Spares plane) (x y : Int) (f : Bool → Bool) :
    (s.plot x y f).Spares plane := by
  rw [Screen.plot_eq]
  split
  · rw [onTarget, if_pos h.visible]
    exact ⟨h.visible, h.buffer⟩
  · exact h

theorem Spares.answer {c : DisplayCall} (hc : c.OnGraph) (h : s.Spares plane) :
    (Screen.answer c s).2.1.Spares plane := by
  cases hc with
  | setMode hmode => exact ⟨hmode, h.buffer⟩
  | rectangle => exact List.foldlRecOn _ _ h fun s hs p _ => hs.plot _ _ _
  | string => exact ⟨h.visible, h.buffer⟩

end Screen

namespace Memory

variable (m : Memory)

theorem setWindow_window (slot : Nat) : m.setWindow slot (m.window slot) = m := by
  have hbank : m.bank.setIfInBounds slot (m.bank.getD slot #[]) = m.bank := by
    apply Array.ext
    · simp
    · intro j hj hj'
      by_cases hslot : slot = j
      · subst hslot
        simp [hj']
      · exact Array.getElem_setIfInBounds_ne hj' hslot
  rw [setWindow, window, hbank]

theorem window_setWindow_of_ne {slot other : Nat} (h : slot ≠ other) (plane : Window) :
    (m.setWindow slot plane).window other = m.window other := by
  simp [setWindow, window, Array.getElem?_setIfInBounds_ne h]

theorem shape_setWindow {slot : Nat} {plane : Window} (h : plane.size = (m.window slot).size) :
    (m.setWindow slot plane).shape = m.shape := by
  simp only [shape, setWindow, map_size_setWindow h]

theorem lendScreen_takeScreen (p : Panel) {s : Screen} (h : s.buffer = m.window bufferSlot) :
    World.lendScreen (World.takeScreen m p).2 s = m.setWindow graphSlot s.graph := by
  have hne : bufferSlot ≠ graphSlot := by decide
  have hbuffer : s.buffer = (m.setWindow graphSlot s.graph).window bufferSlot := by
    rw [h, m.window_setWindow_of_ne hne.symm]
  have hlent : World.lendScreen (World.takeScreen m p).2 s =
      (m.setWindow graphSlot s.graph).setWindow bufferSlot s.buffer := by
    simp only [World.lendScreen, World.takeScreen, setWindow,
      Array.setIfInBounds_comm #[] s.graph hne, Array.setIfInBounds_setIfInBounds]
  rw [hlent, hbuffer, setWindow_window]

end Memory

namespace World

variable {κ φ : Type} {w v u : World κ φ}

/-- The memory of `v` is that of `w` with another picture in the visible plane, if there is a
screen. -/
structure Repaints (w v : World κ φ) : Prop where
  plane : ∃ graph : Window, graph.size = (w.memory.window graphSlot).size ∧
    v.memory = w.memory.setWindow graphSlot graph
  screenless : (∀ p, w.display ≠ .screen p) → v.memory = w.memory
  display : w.display.Alike v.display

namespace Repaints

theorem of_eq (hmemory : v.memory = w.memory) (hdisplay : v.display = w.display) :
    w.Repaints v where
  plane := ⟨_, rfl, by rw [hmemory, Memory.setWindow_window]⟩
  screenless _ := hmemory
  display := hdisplay ▸ .refl _

theorem shape_eq (h : w.Repaints v) : v.memory.shape = w.memory.shape := by
  obtain ⟨graph, hsize, hmemory⟩ := h.plane
  rw [hmemory, Memory.shape_setWindow _ hsize]

theorem trans (h : w.Repaints v) (h' : v.Repaints u) : w.Repaints u where
  plane := by
    obtain ⟨graph, hsize, hmemory⟩ := h.plane
    obtain ⟨graph', hsize', hmemory'⟩ := h'.plane
    refine ⟨graph', ?_, ?_⟩
    · rw [hsize', Memory.size_window, h.shape_eq, ← Memory.size_window]
    · rw [hmemory', hmemory]
      simp only [Memory.setWindow, Array.setIfInBounds_setIfInBounds]
  screenless hw := by
    refine (h'.screenless fun p hp => ?_).trans (h.screenless hw)
    have halike := h.display
    rw [hp] at halike
    cases hd : w.display with
    | screen q => exact hw q hd
    | detached | recording =>
      rw [hd] at halike
      cases halike
  display := h.display.trans h'.display

theorem unshared (h : w.Repaints v) (hw : w.memory.Unshared) : v.memory.Unshared := by
  obtain ⟨graph, _, hmemory⟩ := h.plane
  rw [hmemory]
  exact hw

theorem getByte_eq (h : w.Repaints v) {b : Nat} (hb : ∀ i, w.memory.cell b ≠ .window graphSlot i) :
    v.memory.getByte b = w.memory.getByte b := by
  rw [Memory.getByte_eq_contents, Memory.getByte_eq_contents, Memory.cell_congr h.shape_eq]
  obtain ⟨graph, _, hmemory⟩ := h.plane
  rw [hmemory]
  cases hcell : w.memory.cell b with
  | window slot i =>
    have hslot : graphSlot ≠ slot := by
      rintro rfl
      exact hb i hcell
    simp only [Memory.contents, w.memory.window_setWindow_of_ne hslot]
  | pool i | own i => rfl

end Repaints

def DrawsOnGraph (w : World κ φ) : Prop := ∀ p, w.display = .screen p → p.mode.visible

/-- One call of a picture: it is drawn where the mode says, unless it sets the mode itself. -/
theorem repaints_draw {c : DisplayCall} (hc : c.OnGraph)
    (hw : w.DrawsOnGraph ∨ ∃ mode, c = .setMode mode) :
    ∃ answer v, draw c w = .ok answer v ∧ w.Repaints v ∧ v.DrawsOnGraph ∧
    v.keyboard = w.keyboard := by
  obtain ⟨config, memory, seed, display, teletype, keyboard, disk, bus, clock⟩ := w
  cases display with
  | detached => exact ⟨_, _, rfl, .of_eq rfl rfl, nofun, rfl⟩
  | recording => exact ⟨_, _, rfl, .of_eq rfl rfl, nofun, rfl⟩
  | screen p =>
    have hspares :
        (Screen.answer c (takeScreen memory p).1).2.1.Spares (memory.window bufferSlot) := by
      obtain hw | ⟨mode, rfl⟩ := hw
      · exact Screen.Spares.answer hc ⟨hw p rfl, rfl⟩
      · cases hc with
        | setMode hmode => exact ⟨hmode, rfl⟩
    have hmeasures := Screen.measures_answer c (takeScreen memory p).1
    simp only [Screen.measures, Screen.Measures.mk.injEq] at hmeasures
    obtain ⟨hwidth, hheight, hgraph, _⟩ := hmeasures
    refine ⟨_, _, rfl,
      ⟨⟨_, hgraph, memory.lendScreen_takeScreen p hspares.buffer⟩, ?_, .screen hwidth hheight⟩,
      ?_, rfl⟩
    · intro hnone
      exact absurd rfl (hnone p)
    · intro q hq
      cases hq
      exact hspares.visible

def paint : List DisplayCall → Effect κ φ Unit
  | [] => pure ()
  | c :: calls => do
    let _ ← draw c
    paint calls

theorem paint_append (calls more : List DisplayCall) :
    (paint (calls ++ more) : Effect κ φ Unit) =
      paint calls >>= fun _ => paint more := by
  induction calls with
  | nil => rfl
  | cons c calls ih => simp only [List.cons_append, paint, ih, bind_assoc]

theorem repaints_paint {calls : List DisplayCall} (hcalls : ∀ c ∈ calls, c.OnGraph)
    (hw : w.DrawsOnGraph) :
    ∃ v, paint calls w = .ok () v ∧ w.Repaints v ∧ v.keyboard = w.keyboard := by
  induction calls generalizing w with
  | nil => exact ⟨w, rfl, .of_eq rfl rfl, rfl⟩
  | cons c calls ih =>
    obtain ⟨answer, v, hdraw, hrepaints, hv, hkeyboard⟩ :=
      repaints_draw (hcalls c List.mem_cons_self) (.inl hw)
    obtain ⟨u, hpaint, hrepaints', hkeyboard'⟩ :=
      ih (fun d hd => hcalls d (List.mem_cons_of_mem c hd)) hv
    refine ⟨u, ?_, hrepaints.trans hrepaints', hkeyboard'.trans hkeyboard⟩
    simp only [paint, bind, EStateM.bind, hdraw]
    exact hpaint

end World
end LavMachine
