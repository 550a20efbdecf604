import Mathlib
import LavMachine.Proofs.Machine.Command
import LavMachine.Proofs.Memory.Install
set_option autoImplicit false

namespace LavMachine

variable {κ φ : Type}

namespace Picker

theorem names_down? {s t : State} (h : s.down? = some t) : t.names = s.names := by
  unfold State.down? at h
  split at h
  · cases h
  · split at h <;> cases h <;> rfl

theorem names_up? {s t : State} (h : s.up? = some t) : t.names = s.names := by
  unfold State.up? at h
  split at h
  · cases h
  · split at h <;> cases h <;> rfl

theorem names_choose {keys : KeyMap} {s t : State} {key : Word}
    (h : choose keys s key = .move (some t)) : t.names = s.names := by
  unfold choose at h
  split at h
  · cases h
  · split at h
    · cases h
    · split at h
      · exact names_down? (Choice.move.inj h)
      · split at h
        · exact names_up? (Choice.move.inj h)
        · cases h

theorem run_mem [Keyboard κ] {width height : Int16} {keys : KeyMap} {fuel : Nat} {s : State}
    {name : Bytes} {w v : World κ φ} (h : run width height keys fuel s w = .ok (some name) v) :
    name ∈ s.names := by
  induction fuel generalizing s w with
  | zero =>
    obtain ⟨_, _, _, h⟩ := bind_eq_ok h
    cases h
  | succ fuel ih =>
    obtain ⟨key, w₁, _, h⟩ := bind_eq_ok h
    cases hc : choose keys s key with
    | enter =>
      simp only [hc] at h
      cases h
      exact Array.getElem_mem _
    | escape =>
      simp only [hc] at h
      cases h
    | move next =>
      cases next with
      | some next =>
        simp only [hc] at h
        obtain ⟨_, w₂, _, h⟩ := bind_eq_ok h
        rw [← names_choose hc]
        exact ih h
      | none =>
        simp only [hc] at h
        exact ih h
    | other =>
      simp only [hc] at h
      exact ih h

end Picker

namespace World

/-- What any run of effects leaves of a world: memory keeps its shape, and the peripherals their
kind and size. -/
def Follows (w₀ w : World κ φ) : Prop :=
  w.memory.shape = w₀.memory.shape ∧ w₀.display.Alike w.display ∧ w₀.teletype.Alike w.teletype

theorem Follows.refl (w : World κ φ) : w.Follows w := ⟨rfl, .refl _, .refl _⟩

theorem Follows.trans {w₀ w v : World κ φ} (hw : w₀.Follows w) (hv : w.Follows v) : w₀.Follows v :=
  ⟨hv.1.trans hw.1, hw.2.1.trans hv.2.1, hw.2.2.trans hv.2.2⟩

theorem kept_follows (w₀ : World κ φ) : Kept w₀.Follows :=
  (kept_shape _).and ((kept_display _).and (kept_teletype _))

theorem Follows.window_size {w₀ w : World κ φ} (h : w₀.Follows w) (slot : Nat) :
    (w.memory.window slot).size = (w₀.memory.window slot).size := by
  rw [Memory.size_window, h.1, ← Memory.size_window]

/-- No index that an instruction uses in this world is out of range. -/
structure InBounds [Keyboard κ] [Disk φ] (w : World κ φ) : Prop where
  load (a : Nat) : (w.memory.load a).inRange
  store (a : Nat) (b : UInt8) : (w.memory.store a b).inRange
  literal (text : Bytes) : (w.memory.pool.addLiteral text).inRange
  -- Shapes go on from the screens that their first pixels leave, so not only the world's own screen
  -- counts.
  pixel {p : Panel} {s : Screen} (x y : Int) (f : Bool → Bool) : w.display = .screen p →
    s.measures = (takeScreen w.memory p).1.measures →
    (s.touch x y f).inRange ∧ (s.touch x y f).value.measures = s.measures ∧
      (s.look s.graph x y).inRange ∧ (s.look s.buffer x y).inRange
  text {c : Caret} (call : TextCall) : w.teletype = .console c →
    (Console.reply { c with page := w.memory.window textSlot } call).inRange
  arguments {s t : Stack} {count : Nat} {words : Checked (Vector Word count)} :
    count < Stack.moveLimit → Stack.dropBlock count s = .ok words t → words.inRange
  transfer {size handle count : Word} {data : Checked Bytes} {v : World κ φ} :
    SystemCall.receive size handle w = .ok (count, data) v → data.inRange
  picked {width height : Int16} {keys : KeyMap} {fuel lines : Nat} {names : List String}
    {name : Bytes} {v : World κ φ} :
    Picker.run width height keys fuel (.ofNames names lines) w = .ok (some name) v →
    name = [0x2e, 0x2e] ∨ name ∈ names.map Gbk.encode

end World

namespace Machine

def initial (config : Config) (display : Display) (teletype : Teletype) (keyboard : κ) (disk : φ)
    (journal : Journal) (clock : Clock) : Machine κ φ where
  phase := .unloaded
  image := none
  stack := Stack.empty config.stackSize
  world := {
    config, seed := 0, display, teletype, keyboard, disk, clock
    memory := { Memory.blank (Pool.empty config.poolBase config.poolSize)
      (lentWindows display teletype) with mappings := layout config display teletype }
    bus := { control := .running, journal } }

variable {config : Config} {display : Display} {teletype : Teletype} {keyboard : κ} {disk : φ}
  {journal : Journal} {clock : Clock} {m : Machine κ φ}

theorem create_eq_ok (h : create config display teletype keyboard disk journal clock = .ok m) :
    m = initial config display teletype keyboard disk journal clock ∧ m.world.memory.Placed := by
  simp only [create] at h
  split at h
  · cases h
  · rename_i memory hmemory
    obtain rfl := Except.ok.inj h
    have hbuilt := Memory.mappings_installAll hmemory
    refine ⟨?_, (Memory.placed_blank _ _).installAll hmemory⟩
    rw [hbuilt]
    rfl

structure Represented (config : Config) (display : Display) (teletype : Teletype)
    (m : Machine κ φ) : Prop where
  own_size : m.world.memory.own.toArray.size = addressSpace
  start_lt : m.world.memory.region.start < addressSpace
  limit_lt : m.world.memory.region.limit < addressSpace
  slots_size : m.stack.slots.size = config.stackSize
  depth_le : m.stack.depth ≤ config.stackSize
  pool_base : m.world.memory.pool.base = config.poolBase
  pool_size : m.world.memory.pool.bytes.size = config.poolSize
  next_le : m.world.memory.pool.next ≤ config.poolSize
  mappings : m.world.memory.mappings = layout config display teletype
  window_size (slot : Nat) :
    (m.world.memory.window slot).size = ((lentWindows display teletype).getD slot #[]).size
  placed : m.world.memory.Placed
  /-- A window whose end is a machine word lies inside the address space. -/
  within {w : Mapping} : w ∈ m.world.memory.mappings →
    w.base + (m.world.memory.window w.slot).size < UInt64.size →
    w.base + (m.world.memory.window w.slot).size ≤ addressSpace
  display : display.Alike m.world.display
  caret {c : Caret} : m.world.teletype = .console c → c.row < 8 ∧ c.col < 20

theorem represented_of_follows (hcaret : ∀ c, teletype = .console c → c.OnPage)
    (hplaced : (initial config display teletype keyboard disk journal clock).world.memory.Placed)
    (hslots : m.stack.capacity = config.stackSize)
    (h : (initial config display teletype keyboard disk journal clock).world.Follows m.world)
    (hnext : m.world.memory.pool.next ≤ m.world.memory.pool.capacity) :
    m.Represented config display teletype := by
  have hshape := h.1
  have hteletype := h.2.2
  have hkept : m.world.memory.Placed := hplaced.congr hshape.symm
  have hsize : m.world.memory.pool.bytes.size = config.poolSize :=
    (congrArg Memory.Shape.poolSize hshape).trans Array.size_replicate
  exact {
    own_size := m.world.memory.own.size_toArray
    start_lt := m.world.memory.region.start_lt
    limit_lt := m.world.memory.region.limit_lt
    slots_size := hslots
    depth_le := m.stack.depth_le.trans_eq hslots
    pool_base := congrArg Memory.Shape.poolBase hshape
    pool_size := hsize
    next_le := hnext.trans_eq hsize
    mappings := congrArg Memory.Shape.mappings hshape
    window_size := h.window_size
    placed := hkept
    within := fun {w} hw hend => by
      rw [← Nat.mod_eq_of_lt hend]
      exact hkept.within w hw
    display := h.2.1
    caret := fun {c} hc => by
      rw [hc] at hteletype
      cases hteletype with
      | console hpage => exact hpage (hcaret _ rfl) }

variable [Keyboard κ] [Disk φ] {w : World κ φ}

theorem inBounds_of_follows (hfits : ∀ p, display = .screen p → p.Fits)
    (hcaret : ∀ c, teletype = .console c → c.OnPage)
    (h : (initial config display teletype keyboard disk journal clock).world.Follows w) :
    w.InBounds where
  load := w.memory.inRange_load
  store := w.memory.inRange_store
  literal := w.memory.pool.inRange_addLiteral
  pixel {p s} x y f hp hs := by
    have hdisplay := h.2.1
    rw [hp] at hdisplay
    cases hdisplay with
    | @screen q _ hwidth hheight =>
      have hwidth' : s.width = p.width := congrArg Screen.Measures.width hs
      have hheight' : s.height = p.height := congrArg Screen.Measures.height hs
      have hplane : q.planeSize = s.stride * s.height := by
        rw [(hfits q rfl).planeSize_eq, Panel.stride, Panel.stride, hwidth', hheight', hwidth,
          hheight]
      have hlent {slot : Nat}
          (hslot : ((lentWindows (.screen q) teletype).getD slot #[]).size = q.planeSize) :
          (w.memory.window slot).size = s.stride * s.height := by
        rw [h.window_size, ← hplane]
        exact hslot
      have hgraph : s.graph.size = s.stride * s.height :=
        (congrArg Screen.Measures.graph hs).trans (hlent Array.size_replicate)
      have hbuffer : s.buffer.size = s.stride * s.height :=
        (congrArg Screen.Measures.buffer hs).trans (hlent Array.size_replicate)
      exact ⟨s.inRange_touch hgraph hbuffer x y f, s.measures_plot x y f, s.inRange_look hgraph x y,
        s.inRange_look hbuffer x y⟩
  text {c} call hc := by
    have hteletype := h.2.2
    rw [hc] at hteletype
    cases hteletype with
    | console hpage =>
      refine Console.inRange_reply ?_ (hpage (hcaret _ rfl)) call
      exact (h.window_size textSlot).trans Array.size_replicate
  arguments := Stack.inRange_of_dropBlock
  transfer {size handle count data v} hreceive := by
    obtain ⟨_, _, hserve, hdata⟩ := bind_eq_ok hreceive
    cases hserve
    cases hdata
    exact (Nat.min_le_right _ _).trans_eq (Disk.length_read handle size.length _ _).symm
  picked hrun := by
    have hmem := Picker.run_mem hrun
    simpa [Picker.State.ofNames] using hmem

/-- Whatever a driver does with a new machine, its representation stays whole, and neither in the
world it has reached nor in one that an instruction makes of it does a lookup miss. -/
theorem represented_obeyAll (hfits : ∀ p, display = .screen p → p.Fits)
    (hcaret : ∀ c, teletype = .console c → c.OnPage)
    (hcreate : create config display teletype keyboard disk journal clock = .ok m)
    (commands : List Command) :
    (m.obeyAll commands).Represented config display teletype ∧
      ∀ w, (m.obeyAll commands).world.Follows w → w.InBounds := by
  obtain ⟨hm, hplaced⟩ := create_eq_ok hcreate
  have hstart : m.Upholds config.stackSize fun w =>
      m.world.Follows w ∧ w.memory.pool.next ≤ w.memory.pool.capacity := by
    rw [hm]
    exact ⟨Array.size_replicate, .refl _, Nat.zero_le _⟩
  obtain ⟨hslots, hfollows, hnext⟩ :=
    hstart.obeyAll ((World.kept_follows _).and World.kept_next) commands
  subst hm
  exact ⟨represented_of_follows hcaret hplaced hslots hfollows hnext,
    fun w hw => inBounds_of_follows hfits hcaret (hfollows.trans hw)⟩

omit [Keyboard κ] [Disk φ] in
theorem create_usual (keyboard : κ) (disk : φ) (journal : Journal) (clock : Clock) :
    create {} (.screen { width := 160, height := 80 }) (.console {}) keyboard disk journal clock =
      .ok (initial {} (.screen { width := 160, height := 80 }) (.console {}) keyboard disk journal
        clock) := by
  have hplane : Panel.planeSize { width := 160, height := 80 } = 1600 := by decide
  simp [create, initial, layout, lentWindows, hplane, Window.zeroes, Console.blankPage,
    textPageSize, graphSlot, bufferSlot, textSlot, Memory.install, Memory.installAll, Memory.blank,
    Memory.window, Memory.mappingLimit,
    addressSpace, UInt64.size, rangesOverlap, Pool.empty, Pool.limit, Pool.capacity, bind,
    EStateM.bind, pure, EStateM.pure]

/-- A screen, a console and a program that is only noise. -/
theorem represented_obeyAll_noise :
    let panel : Panel := { width := 160, height := 80 }
    let clock : Clock := { reading := fun _ => ⟨2000, 0, 1, 0, 0, 0, 0, 7⟩ }
    let noise : Image := ⟨"NOISE", (Array.range 256).map UInt8.ofNat, Image.headerSize⟩
    let commands : List Command :=
      [.load noise, .turn (.execute 1000), .dispose, .load noise, .turn .step]
    ∃ m : Machine ScriptedKeyboard RecordingDisk,
      create {} (.screen panel) (.console {}) ⟨[some 13], {}⟩ ⟨["A.TXT"], none⟩ .quiet
        clock = .ok m ∧
      (m.obeyAll commands).Represented {} (.screen panel) (.console {}) ∧
      (m.obeyAll commands).world.InBounds := by
  intro panel clock noise commands
  have hcreate :=
    create_usual (⟨[some 13], {}⟩ : ScriptedKeyboard) (⟨["A.TXT"], none⟩ : RecordingDisk)
      .quiet clock
  have hfits : ∀ p, Display.screen panel = .screen p → p.Fits := by
    rintro p ⟨⟩
    exact ⟨by decide, by decide, by decide⟩
  have hcaret : ∀ c, Teletype.console {} = .console c → c.OnPage := by
    rintro c ⟨⟩
    exact ⟨by decide, by decide⟩
  obtain ⟨hrepresented, hbounds⟩ := represented_obeyAll hfits hcaret hcreate commands
  exact ⟨_, hcreate, hrepresented, hbounds _ (.refl _)⟩

end Machine
end LavMachine
