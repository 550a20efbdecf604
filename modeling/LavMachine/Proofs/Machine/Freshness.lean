import Mathlib
import LavMachine.Proofs.Machine.Lifecycle
set_option autoImplicit false

namespace LavMachine

variable {κ φ : Type}

theorem Display.Alike.exists_screen {p : Panel} {d : Display} (h : (Display.screen p).Alike d) :
    ∃ q, d = .screen q := by
  cases h with
  | screen => exact ⟨_, rfl⟩

theorem Teletype.Alike.exists_console {c : Caret} {t : Teletype}
    (h : (Teletype.console c).Alike t) :
    ∃ d, t = .console d := by
  cases h with
  | console => exact ⟨_, rfl⟩

namespace Window

theorem getD_zeroes (size i : Nat) : (zeroes size).getD i 0 = 0 := by
  by_cases h : i < size <;> simp [zeroes, h]

theorem getD_copyFrom_zeroes (w : Window) (i : Nat) :
    (copyFrom w (zeroes w.size)).getD i 0 = 0 := by
  by_cases h : i < w.size <;> simp [copyFrom, zeroes, h]

end Window

namespace Memory

theorem window_setWindow {m : Memory} {slot : Nat} (h : slot < m.bank.size) (w : Window)
    (other : Nat) :
    (m.setWindow slot w).window other = if other = slot then w else m.window other := by
  by_cases hother : other = slot
  · subst hother
    simp [setWindow, window, h]
  · have hne : slot ≠ other := Ne.symm hother
    simp [setWindow, window, hother, Array.getElem?_setIfInBounds_ne hne]

end Memory

namespace World

theorem window_lendScreen {m : Memory} (h : bufferSlot < m.bank.size) (p : Panel) (s : Screen)
    (slot : Nat) :
    (lendScreen (takeScreen m p).2 s).window slot =
      if slot = bufferSlot then s.buffer else if slot = graphSlot then s.graph
      else m.window slot := by
  have hgraph : graphSlot < m.bank.size := Nat.lt_of_le_of_lt (by decide) h
  let taken := (m.setWindow graphSlot #[]).setWindow bufferSlot #[]
  have hsize : taken.bank.size = m.bank.size := by simp [taken, Memory.setWindow]
  have hsize' : (taken.setWindow graphSlot s.graph).bank.size = m.bank.size := by
    simp [taken, Memory.setWindow]
  change ((taken.setWindow graphSlot s.graph).setWindow bufferSlot s.buffer).window slot = _
  rw [Memory.window_setWindow (by omega), Memory.window_setWindow (by omega)]
  by_cases hb : slot = bufferSlot
  · simp only [hb, if_true]
  · by_cases hg : slot = graphSlot
    · simp only [hg, if_true]
    · have htaken : taken.window slot = m.window slot := by
        have hfirst : bufferSlot < (m.setWindow graphSlot #[]).bank.size := by
          simpa [Memory.setWindow] using h
        simp only [taken]
        rw [Memory.window_setWindow hfirst, if_neg hb, Memory.window_setWindow hgraph, if_neg hg]
      simp only [hb, hg, if_false, htaken]

structure Drawn (w v : World κ φ) (s : Screen) : Prop where
  display : v.display = .screen s.toPanel
  teletype : v.teletype = w.teletype
  pool : v.memory.pool = w.memory.pool
  bank : v.memory.bank.size = w.memory.bank.size
  graph : v.memory.window graphSlot = s.graph
  buffer : v.memory.window bufferSlot = s.buffer

theorem drawn_draw {w : World κ φ} {p : Panel} (h : w.display = .screen p)
    (hbank : bufferSlot < w.memory.bank.size) (c : DisplayCall) :
    ∃ a v, draw c w = .ok a v ∧ Drawn w v (Screen.answer c (takeScreen w.memory p).1).2.1 := by
  simp only [draw, h]
  refine ⟨_, _, rfl, rfl, rfl, rfl, ?_, ?_, ?_⟩
  · simp [lendScreen, takeScreen]
  · exact window_lendScreen hbank p _ graphSlot
  · exact window_lendScreen hbank p _ bufferSlot

theorem setMode_of_console {w : World κ φ} {c : Caret} (h : w.teletype = .console c) :
    ∃ caret bus, type (.setMode 0) w = .ok () { w with
      memory := w.memory.setWindow textSlot ((w.memory.window textSlot).map fun _ => 0)
      teletype := .console caret, bus } := by
  simp only [type, h]
  exact ⟨_, _, rfl⟩

theorem draw_blank {w : World κ φ} {p : Panel} (h : w.display = .screen p)
    (hbank : bufferSlot < w.memory.bank.size)
    (hplanes : (w.memory.window bufferSlot).size = (w.memory.window graphSlot).size) :
    ∃ v, (do draw .clear; draw .refresh : Effect κ φ Unit) w = .ok () v ∧ v.teletype = w.teletype ∧
      v.memory.pool = w.memory.pool ∧ v.memory.bank.size = w.memory.bank.size ∧
      ∀ slot, slot = graphSlot ∨ slot = bufferSlot → ∀ i, (v.memory.window slot).getD i 0 = 0 := by
  obtain ⟨_, v, hclear, hcleared⟩ := drawn_draw h hbank .clear
  have hbank' : bufferSlot < v.memory.bank.size := hbank.trans_eq hcleared.bank.symm
  obtain ⟨_, u, hrefresh, hshown⟩ := drawn_draw hcleared.display hbank' .refresh
  have hbuffer : v.memory.window bufferSlot = Window.zeroes (v.memory.window graphSlot).size := by
    rw [hcleared.buffer, hcleared.graph]
    exact congrArg Window.zeroes hplanes
  refine ⟨u, ?_, hshown.teletype.trans hcleared.teletype, hshown.pool.trans hcleared.pool,
    hshown.bank.trans hcleared.bank, ?_⟩
  · simp only [bind, EStateM.bind, hclear]
    exact hrefresh
  · rintro slot (rfl | rfl) i
    · have hgraph : u.memory.window graphSlot =
          Window.copyFrom (v.memory.window graphSlot)
            (Window.zeroes (v.memory.window graphSlot).size) := by
        rw [← hbuffer]
        exact hshown.graph
      rw [hgraph]
      exact Window.getD_copyFrom_zeroes _ i
    · have hsame : u.memory.window bufferSlot = v.memory.window bufferSlot := hshown.buffer
      rw [hsame, hbuffer]
      exact Window.getD_zeroes _ i

end World

namespace Machine

/-- What loading makes of the memory `m`. -/
structure Freshened (attached : Bool) (m n : Memory) : Prop where
  own : n.own = Vector.replicate addressSpace 0
  pool : n.pool = m.pool.clear
  page (i : Nat) : (n.window textSlot).getD i 0 = 0
  plane {slot : Nat} (h : slot = graphSlot ∨ slot = bufferSlot) (i : Nat) :
    (n.window slot).getD i 0 = if attached then 0 else (m.window slot).getD i 0

theorem freshened_clear {m : Memory} (h : textSlot < m.bank.size) :
    Freshened false m (m.clear.setWindow textSlot ((m.window textSlot).map fun _ => 0)) where
  own := rfl
  pool := rfl
  page i := by
    rw [Memory.window_setWindow (m := m.clear) h, if_pos rfl]
    by_cases hi : i < (m.window textSlot).size <;> simp [hi]
  plane {slot} hslot i := by
    have hne : slot ≠ textSlot := by obtain rfl | rfl := hslot <;> decide
    rw [Memory.window_setWindow (m := m.clear) h, if_neg hne]
    rfl

theorem freshen_of_console {w : World κ φ} {c : Caret} (h : w.teletype = .console c)
    (image : Image) :
    ∃ v, freshen false image w = .ok () v ∧
      v.memory = w.memory.clear.setWindow textSlot ((w.memory.window textSlot).map fun _ => 0) := by
  let cleared : World κ φ := { w with
    bus := { w.bus with control := w.bus.control.reset }
    memory := w.memory.clear
    seed := 0 }
  obtain ⟨caret, bus, hmode⟩ := World.setMode_of_console (w := cleared) h
  let report : Effect κ φ Unit :=
    World.log .debug fun _ => s!"loaded name={Quoted.text image.name} len={image.size}"
  have hfreshen :
      freshen false image w = (World.type (.setMode 0) >>= fun _ => report) cleared := rfl
  rw [hfreshen]
  simp only [bind, EStateM.bind, hmode]
  exact ⟨_, rfl, rfl⟩

theorem freshen_attached (image : Image) : freshen true image =
    (do (do World.draw .clear; World.draw .refresh); freshen false image : Effect κ φ Unit) := by
  simp only [bind_assoc]
  rfl

theorem freshened_load {m : Machine κ φ} {p : Panel} {c : Caret}
    (hdisplay : m.world.display = .screen p) (hteletype : m.world.teletype = .console c)
    (hbank : m.world.memory.bank.size = 3)
    (hplanes : (m.world.memory.window bufferSlot).size = (m.world.memory.window graphSlot).size)
    (image : Image) :
    Freshened m.image.isSome m.world.memory (m.load image).world.memory := by
  have htext : textSlot < m.world.memory.bank.size := by rw [hbank]; decide
  have hbuffer : bufferSlot < m.world.memory.bank.size := by rw [hbank]; decide
  cases himage : m.image with
  | none =>
    obtain ⟨v, hfreshen, hmemory⟩ := freshen_of_console hteletype image
    have hload : (m.load image).world = v := by
      simp only [load, perform, himage, Option.isSome, hfreshen]
    rw [hload, hmemory]
    exact freshened_clear htext
  | some i =>
    obtain ⟨w, hblank, hsame, hpool, hsize, hzero⟩ := World.draw_blank hdisplay hbuffer hplanes
    obtain ⟨v, hfreshen, hmemory⟩ := freshen_of_console (hsame.trans hteletype) image
    have hattached : freshen true image m.world = .ok () v := by
      rw [freshen_attached]
      simp only [bind, EStateM.bind] at hblank ⊢
      simp only [hblank, hfreshen]
    have hload : (m.load image).world = v := by
      simp only [load, perform, himage, Option.isSome, hattached]
    have hcleared := freshened_clear (m := w.memory) (by omega)
    rw [hload, hmemory]
    refine ⟨hcleared.own, by rw [hcleared.pool, hpool], hcleared.page, fun {slot} hslot j => ?_⟩
    rw [hcleared.plane hslot]
    exact hzero slot hslot j

def onScreen (config : Config) (panel : Panel) (a : Nat) : Bool :=
  [config.graphBase, config.bufferBase].any fun base =>
    base ≤ a % addressSpace && a % addressSpace < base + panel.planeSize

variable {config : Config} {panel : Panel} {caret : Caret} {a : Nat}

theorem onScreen_iff : onScreen config panel a ↔
    (config.graphBase ≤ a % addressSpace ∧ a % addressSpace < config.graphBase + panel.planeSize) ∨
    (config.bufferBase ≤ a % addressSpace ∧
      a % addressSpace < config.bufferBase + panel.planeSize) := by
  simp [onScreen]

/-- A memory in which a screen and a console have their windows. -/
structure Mapped (config : Config) (panel : Panel) (m : Memory) : Prop where
  mappings : m.mappings =
    [⟨config.graphBase, graphSlot⟩, ⟨config.bufferBase, bufferSlot⟩, ⟨config.textBase, textSlot⟩]
  bank : m.bank.size = 3
  graph : (m.window graphSlot).size = panel.planeSize
  buffer : (m.window bufferSlot).size = panel.planeSize

theorem Mapped.inMapping_graph {m : Memory} (h : Mapped config panel m) :
    m.inMapping (a % addressSpace) ⟨config.graphBase, graphSlot⟩ ↔
      config.graphBase ≤ a % addressSpace ∧
      a % addressSpace < config.graphBase + panel.planeSize := by
  have hsize : (m.window graphSlot).size ≤ addressSpace := h.graph.trans_le panel.planeSize_le
  rw [Memory.inMapping_iff_of_size_le hsize, h.graph]

theorem Mapped.inMapping_buffer {m : Memory} (h : Mapped config panel m) :
    m.inMapping (a % addressSpace) ⟨config.bufferBase, bufferSlot⟩ ↔
      config.bufferBase ≤ a % addressSpace ∧
      a % addressSpace < config.bufferBase + panel.planeSize := by
  have hsize : (m.window bufferSlot).size ≤ addressSpace := h.buffer.trans_le panel.planeSize_le
  rw [Memory.inMapping_iff_of_size_le hsize, h.buffer]

theorem Mapped.cell_of_onScreen {m : Memory} (h : Mapped config panel m)
    (ha : onScreen config panel a) :
    ∃ slot i, (slot = graphSlot ∨ slot = bufferSlot) ∧ m.cell a = .window slot i := by
  have hin : m.inMapping (a % addressSpace) ⟨config.graphBase, graphSlot⟩ ∨
      m.inMapping (a % addressSpace) ⟨config.bufferBase, bufferSlot⟩ := by
    rw [h.inMapping_graph, h.inMapping_buffer]
    exact onScreen_iff.1 ha
  unfold Memory.cell
  by_cases hgraph : m.inMapping (a % addressSpace) ⟨config.graphBase, graphSlot⟩
  · exact ⟨graphSlot, _, .inl rfl, by simp [h.mappings, hgraph]; rfl⟩
  · exact ⟨bufferSlot, _, .inr rfl, by simp [h.mappings, hgraph, hin.resolve_left hgraph]; rfl⟩

theorem Mapped.slot_of_not_onScreen {m : Memory} (h : Mapped config panel m) {slot i : Nat}
    (ha : ¬ onScreen config panel a) (hcell : m.cell a = .window slot i) : slot = textSlot := by
  obtain ⟨w, hw, hin, hc⟩ | ⟨_, hc⟩ | hc := m.cell_cases a
  · rw [hcell] at hc
    obtain ⟨rfl, _⟩ := Cell.window.inj hc
    simp only [h.mappings, List.mem_cons, List.not_mem_nil, or_false] at hw
    obtain rfl | rfl | rfl := hw
    · rw [h.inMapping_graph] at hin
      exact absurd (onScreen_iff.2 (.inl hin)) ha
    · rw [h.inMapping_buffer] at hin
      exact absurd (onScreen_iff.2 (.inr hin)) ha
    · rfl
  · cases hcell.symm.trans hc
  · cases hcell.symm.trans hc

theorem Freshened.getByte {attached : Bool} {m n : Memory} (h : Freshened attached m n)
    (hshape : n.shape = m.shape) (hmapped : Mapped config panel m) (a : Nat) :
    n.getByte a = if onScreen config panel a && !attached then m.getByte a else 0 := by
  rw [Memory.getByte_eq_contents, Memory.getByte_eq_contents, Memory.cell_congr hshape]
  by_cases ha : onScreen config panel a
  · obtain ⟨slot, i, hslot, hcell⟩ := hmapped.cell_of_onScreen ha
    rw [hcell]
    cases attached <;> simpa [ha, Memory.contents] using h.plane hslot i
  · simp only [ha, Bool.false_and, Bool.false_eq_true, if_false]
    cases hcell : m.cell a with
    | window slot i =>
      rw [hmapped.slot_of_not_onScreen ha hcell]
      exact h.page i
    | pool i =>
      simp only [Memory.contents, h.pool, Pool.clear, Pool.empty]
      exact Window.getD_zeroes _ i
    | own i => simp [Memory.contents, h.own]

/-- Until a program is attached memory is as it was at first. -/
def Untouched (n : Memory) (m : Machine κ φ) : Prop := m.image = none → m.world.memory = n

section

variable [Keyboard κ] [Disk φ] {n : Memory} {m : Machine κ φ}

theorem Untouched.step (h : m.Untouched n) : m.step.2.Untouched n := by
  cases m.step_cases with
  | unloaded _ hstep | ended _ hstep | detached _ _ hstep =>
    rw [hstep]
    exact h
  | live i _ _ hstep =>
    intro himage
    have hsome := (settle_cases i.cursor (Processor.step ⟨i, m.stack, m.world⟩)).1
    rw [← hstep, himage] at hsome
    cases hsome

theorem Untouched.obey (h : m.Untouched n) {c : Command} (hc : c ≠ .dispose) :
    (m.obey c).Untouched n := by
  cases c with
  | load image => rintro ⟨⟩
  | dispose => exact absurd rfl hc
  | turn t => exact take_keeps (fun _ => Untouched.step) (fun _ hm => hm) h t
  | control change => exact h

theorem Untouched.obeyAll (h : m.Untouched n) {commands : List Command}
    (hc : ∀ c ∈ commands, c ≠ .dispose) :
    (m.obeyAll commands).Untouched n :=
  List.foldlRecOn commands Machine.obey h fun _ hm c hmem => hm.obey (hc c hmem)

variable {keyboard : κ} {disk : φ} {journal : Journal} {clock : Clock}

omit [Keyboard κ] [Disk φ] in
theorem mapped_of_follows {w : World κ φ}
    (h : (initial config (.screen panel) (.console caret) keyboard disk journal
      clock).world.Follows w) :
    Mapped config panel w.memory where
  mappings := congrArg Memory.Shape.mappings h.1
  bank := by
    have hsize := congrArg (fun s : Memory.Shape => s.windows.size) h.1
    simp only [Memory.shape, Array.size_map] at hsize
    exact hsize
  graph := (h.window_size graphSlot).trans Array.size_replicate
  buffer := (h.window_size bufferSlot).trans Array.size_replicate

/-- Whatever a machine with a screen and a console has run before, a program finds blank memory when
it is loaded, but for the picture of one that was disposed of. -/
theorem memory_after_load
    (hcreate : create config (.screen panel) (.console caret) keyboard disk journal clock = .ok m)
    (history : List Command) (image : Image) :
    let before := m.obeyAll history
    let after := before.load image
    (∀ a, after.world.memory.getByte a =
      if onScreen config panel a && before.image.isNone then before.world.memory.getByte a else 0) ∧
    ((∀ c ∈ history, c ≠ .dispose) → ∀ a, after.world.memory.getByte a = 0) := by
  intro before after
  obtain ⟨rfl, _⟩ := create_eq_ok hcreate
  let m := initial config (.screen panel) (.console caret) keyboard disk journal clock
  have hstart : m.Upholds config.stackSize m.world.Follows := ⟨Array.size_replicate, .refl _⟩
  have hbefore := hstart.obeyAll (World.kept_follows _) history
  have hafter := hbefore.obey (World.kept_follows _) (.load image)
  have hmapped : Mapped config panel before.world.memory := mapped_of_follows hbefore.world
  have hfresh : Freshened before.image.isSome before.world.memory after.world.memory := by
    obtain ⟨p, hdisplay⟩ := hbefore.world.2.1.exists_screen
    obtain ⟨c, hteletype⟩ := hbefore.world.2.2.exists_console
    exact freshened_load hdisplay hteletype hmapped.bank
      (hmapped.buffer.trans hmapped.graph.symm) image
  have hbytes (a : Nat) := hfresh.getByte (hafter.world.1.trans hbefore.world.1.symm) hmapped a
  simp only [Option.not_isSome] at hbytes
  refine ⟨hbytes, fun hkept a => ?_⟩
  rw [hbytes]
  split
  · rename_i hstale
    rw [Bool.and_eq_true, Option.isNone_iff_eq_none] at hstale
    have hfirst : m.Untouched m.world.memory := fun _ => rfl
    have hsame : before.world.memory = m.world.memory := hfirst.obeyAll hkept hstale.2
    have hinitial : Mapped config panel m.world.memory := mapped_of_follows (.refl _)
    obtain ⟨slot, i, hslot, hcell⟩ := hinitial.cell_of_onScreen hstale.1
    rw [hsame, Memory.getByte_eq_contents, hcell]
    obtain rfl | rfl := hslot <;> exact Window.getD_zeroes panel.planeSize i
  · rfl

def dots : Image :=
  ⟨"DOTS", #[76, 65, 86, 18, 0, 0, 0, 0, 0, 0, 0, 0, 0, 0, 0, 0, 2, 0, 0, 55, 1, 0x5a, 53, 64],
    Image.headerSize⟩

/-- The pixels are gone when the program is still attached. -/
theorem memory_after_load_dots :
    let clock : Clock := { reading := fun _ => ⟨2000, 0, 1, 0, 0, 0, 0, 7⟩ }
    let history : List Command := [.load dots, .turn (.execute 10)]
    ∃ m : Machine Detached Detached,
      create {} (.screen { width := 160, height := 80 }) (.console {}) {} {} .quiet clock = .ok m ∧
      (m.obeyAll history).world.memory.getByte 0 = 0x5a ∧
      ∀ a, ((m.obeyAll history).load dots).world.memory.getByte a = 0 := by
  intro clock history
  have hcreate := create_usual ({} : Detached) ({} : Detached) .quiet clock
  have hkept : ∀ c ∈ history, c ≠ .dispose := by simp [history]
  exact ⟨_, hcreate, by decide +kernel, (memory_after_load hcreate history dots).2 hkept⟩

/-- The pixels are still there when the program has been disposed of. -/
theorem dots_outlive_dispose :
    let clock : Clock := { reading := fun _ => ⟨2000, 0, 1, 0, 0, 0, 0, 7⟩ }
    let stop : Image :=
      ⟨"STOP", #[76, 65, 86, 18, 0, 0, 0, 0, 0, 0, 0, 0, 0, 0, 0, 0, 64], Image.headerSize⟩
    let history : List Command := [.load dots, .turn (.execute 10), .dispose]
    ∃ m : Machine Detached Detached,
      create {} (.screen { width := 160, height := 80 }) (.console {}) {} {} .quiet clock = .ok m ∧
      ((m.obeyAll history).load stop).world.memory.getByte 0 = 0x5a :=
  ⟨_, create_usual _ _ _ _, by decide +kernel⟩

end

end Machine
end LavMachine
