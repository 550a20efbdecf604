import Mathlib
import LavMachine.Proofs.Machine.Stable
import LavMachine.Proofs.Machine.Windows
set_option autoImplicit false

namespace LavMachine

variable {κ φ : Type}

namespace World

/-- A predicate of the measures, the memory and the windowed peripherals that no effect can
break. -/
structure Kept (I : World κ φ → Prop) : Prop where
  served {w v : World κ φ} : I w → Served w v → I v
  setByte {w : World κ φ} (a : Nat) (b : UInt8) : I w → I { w with memory := w.memory.setByte a b }
  setOwnByte {w : World κ φ} (a : Nat) (b : UInt8) :
      I w → I { w with memory := w.memory.setOwnByte a b }
  setRegion {w : World κ φ} (r : Region) : I w → I { w with memory := w.memory.setRegion r }
  setPool {w : World κ φ} (text : Bytes) : I w →
    I { w with memory := { w.memory with pool := (w.memory.pool.intern text).2 } }
  clear {w : World κ φ} : I w → I { w with memory := w.memory.clear }

theorem Kept.and {I J : World κ φ → Prop} (hI : Kept I) (hJ : Kept J) :
    Kept fun w => I w ∧ J w where
  served h hs := ⟨hI.served h.1 hs, hJ.served h.2 hs⟩
  setByte a b := .imp (hI.setByte a b) (hJ.setByte a b)
  setOwnByte a b := .imp (hI.setOwnByte a b) (hJ.setOwnByte a b)
  setRegion r := .imp (hI.setRegion r) (hJ.setRegion r)
  setPool text := .imp (hI.setPool text) (hJ.setPool text)
  clear := .imp hI.clear hJ.clear

theorem Kept.stable [Keyboard κ] [Disk φ] {I : World κ φ → Prop} (h : Kept I) :
    Stable (Diagonal I) where
  config hr := by rw [hr.1]
  memory hr := by rw [hr.1]
  seed hr := by rw [hr.1]
  keyboard hr := by rw [hr.1]
  control hr := by rw [hr.1]
  setByte a b hr := ⟨by rw [hr.1], h.setByte a b hr.2⟩
  setOwnByte a b hr := ⟨by rw [hr.1], h.setOwnByte a b hr.2⟩
  setRegion r hr := ⟨by rw [hr.1], h.setRegion r hr.2⟩
  setPool text hr := ⟨by rw [hr.1], h.setPool text hr.2⟩
  setSeed seed hr := ⟨by rw [hr.1], h.served hr.2 (.of_eq rfl rfl rfl rfl rfl)⟩
  draw c := Respects.diagonal fun w hw => by
    obtain ⟨a, v, hv, hs⟩ := served_draw c w
    exact ⟨a, v, hv, h.served hw hs⟩
  type c := Respects.diagonal fun w hw => by
    obtain ⟨v, hv, hs⟩ := served_type c w
    exact ⟨(), v, hv, h.served hw hs⟩
  ask c := Respects.diagonal fun _ hw => ⟨_, _, rfl, h.served hw (.of_eq rfl rfl rfl rfl rfl)⟩
  serve c := Respects.diagonal fun _ hw => ⟨_, _, rfl, h.served hw (.of_eq rfl rfl rfl rfl rfl)⟩
  log level text :=
    Respects.diagonal fun _ hw => ⟨_, _, rfl, h.served hw (.of_eq rfl rfl rfl rfl rfl)⟩
  now := Respects.diagonal fun _ hw => ⟨_, _, rfl, h.served hw (.of_eq rfl rfl rfl rfl rfl)⟩

theorem Kept.of_served {I : World κ φ → Prop} (hmemory : ∀ w m, I w → I { w with memory := m })
    (hserved : ∀ w v, I w → Served w v → I v) : Kept I where
  served := hserved _ _
  setByte _ _ := hmemory _ _
  setOwnByte _ _ := hmemory _ _
  setRegion _ := hmemory _ _
  setPool _ := hmemory _ _
  clear := hmemory _ _

theorem kept_config (config : Config) : Kept fun w : World κ φ => w.config = config :=
  .of_served (fun _ _ h => h) fun _ _ h hs => hs.config.trans h

theorem Served.shape_eq {w v : World κ φ} (h : Served w v) : v.memory.shape = w.memory.shape := by
  obtain ⟨bank, hm, hsizes⟩ := h.memory
  rw [hm, Memory.shape, Memory.shape, hsizes]

theorem kept_shape (shape : Memory.Shape) : Kept fun w : World κ φ => w.memory.shape = shape where
  served h hs := hs.shape_eq.trans h
  setByte a b h := (Memory.shape_setByte _ a b).trans h
  setOwnByte a b h := (Memory.shape_setOwnByte _ a b).trans h
  setRegion r h := (Memory.shape_setRegion _ r).trans h
  setPool text h := (Memory.shape_intern _ text).trans h
  clear h := (Memory.shape_clear _).trans h

theorem kept_next : Kept fun w : World κ φ => w.memory.pool.next ≤ w.memory.pool.capacity where
  served h hs := by
    obtain ⟨bank, hm, _⟩ := hs.memory
    rw [hm]
    exact h
  setByte {w} a b h := by
    have hsize : (w.memory.setByte a b).pool.capacity = w.memory.pool.capacity :=
      congrArg Memory.Shape.poolSize (w.memory.shape_setByte a b)
    change (w.memory.setByte a b).pool.next ≤ (w.memory.setByte a b).pool.capacity
    rw [Memory.next_setByte, hsize]
    exact h
  setOwnByte _ _ h := h
  setRegion _ h := h
  setPool text h := (Pool.next_intern_le _ text h).trans_eq (Pool.capacity_intern _ text).symm
  clear _ := Nat.zero_le _

theorem kept_display (display : Display) : Kept fun w : World κ φ => display.Alike w.display :=
  .of_served (fun _ _ h => h) fun _ _ h hs => h.trans hs.display

theorem kept_teletype (teletype : Teletype) : Kept fun w : World κ φ => teletype.Alike w.teletype :=
  .of_served (fun _ _ h => h) fun _ _ h hs => h.trans hs.teletype

theorem kept_readings (reading : Nat → Moment) :
    Kept fun w : World κ φ => w.clock.reading = reading :=
  .of_served (fun _ _ h => h) fun _ _ h hs => hs.readings.trans h

end World
end LavMachine
