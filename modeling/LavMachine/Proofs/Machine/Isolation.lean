import Mathlib
import LavMachine.Proofs.Machine.Representation
set_option autoImplicit false

/-!
Loading isolates programs. A machine without peripherals that has run any number of programs
behaves, once the next one is loaded, like a new machine: loading resets everything an instruction
can observe. What is left over are words above the stack pointer, the journal and the clock, and a
program sees none of these but the readings still to come.
-/
namespace LavMachine

variable {κ φ : Type}

theorem Memory.clear_eq_of_shape {m n : Memory} (h : m.shape = n.shape)
    (hbank : ∀ w ∈ n.bank, w = #[]) :
    m.clear = n.clear := by
  have hsizes : m.bank.map Array.size = n.bank.map Array.size := congrArg Shape.windows h
  have hsame : m.bank = n.bank := by
    have hlen : m.bank.size = n.bank.size := by simpa using congrArg Array.size hsizes
    apply Array.ext hlen
    intro i hm hn
    have hempty : n.bank[i] = #[] := hbank _ (Array.getElem_mem hn)
    have hsize : m.bank[i].size = n.bank[i].size := by
      simpa [hm, hn] using congrArg (·[i]?) hsizes
    rw [hempty] at hsize ⊢
    exact Array.eq_empty_of_size_eq_zero hsize
  have hmap : m.mappings = n.mappings := congrArg Shape.mappings h
  have hbase : m.pool.base = n.pool.base := congrArg Shape.poolBase h
  have hcapacity : m.pool.capacity = n.pool.capacity := congrArg Shape.poolSize h
  simp only [clear, Pool.clear, hsame, hmap, hbase, hcapacity]

namespace World

/-- A world of the given measures without windows. -/
def Bare (config : Config) (w : World κ φ) : Prop :=
  w.config = config ∧
    w.memory.shape =
      (Memory.blank (Pool.empty config.poolBase config.poolSize)
        (Machine.lentWindows .detached .detached)).shape ∧
    Display.detached.Alike w.display ∧ Teletype.detached.Alike w.teletype

theorem kept_bare (config : Config) : Kept fun w : World κ φ => w.Bare config :=
  (kept_config _).and ((kept_shape _).and ((kept_display _).and (kept_teletype _)))

theorem Bare.detached {config : Config} {w : World κ φ} (h : w.Bare config) :
    w.display = .detached ∧ w.teletype = .detached := by
  obtain ⟨_, _, hdisplay, hteletype⟩ := h
  cases hd : w.display <;> rw [hd] at hdisplay <;> cases hdisplay
  cases ht : w.teletype <;> rw [ht] at hteletype <;> cases hteletype
  exact ⟨rfl, rfl⟩

theorem Bare.clear_eq {config : Config} {w v : World κ φ} (hw : w.Bare config)
    (hv : v.Bare config) :
    w.memory.clear = v.memory.clear := by
  have hempty : ∀ window ∈ (Memory.blank (Pool.empty config.poolBase config.poolSize)
      (Machine.lentWindows .detached .detached)).bank, window = #[] := by
    simp [Memory.blank, Machine.lentWindows]
  rw [Memory.clear_eq_of_shape hw.2.1 hempty, Memory.clear_eq_of_shape hv.2.1 hempty]

/-- A program that has no peripherals cannot tell these worlds apart. -/
structure Indistinguishable (w v : World Detached Detached) : Prop where
  config : w.config = v.config
  memory : w.memory = v.memory
  seed : w.seed = v.seed
  control : w.bus.control = v.bus.control
  display : w.display = .detached ∧ v.display = .detached
  teletype : w.teletype = .detached ∧ v.teletype = .detached
  clock (n : Nat) : w.clock.reading (w.clock.taken + n) = v.clock.reading (v.clock.taken + n)

theorem stable_indistinguishable : Stable Indistinguishable where
  config h := h.config
  memory h := h.memory
  seed h := h.seed
  keyboard _ := rfl
  control h := h.control
  setByte a b h := { h with memory := congrArg (·.setByte a b) h.memory }
  setOwnByte a b h := { h with memory := congrArg (·.setOwnByte a b) h.memory }
  setRegion r h := { h with memory := congrArg (·.setRegion r) h.memory }
  setPool text h :=
    { h with memory :=
      congrArg (fun m : Memory => { m with pool := (m.pool.intern text).2 }) h.memory }
  setSeed seed h := { h with seed := rfl }
  draw c w v h := by
    simp only [draw, h.display.1, h.display.2]
    exact .ok h
  type c w v h := by
    simp only [type, h.teletype.1, h.teletype.2]
    exact .ok h
  ask c w v h := .ok { h with }
  serve c w v h := .ok { h with }
  log level text w v h := .ok { h with }
  now := Respects.modifyGet fun w v h => by
    refine ⟨h.clock 0, { h with clock := fun n => ?_ }⟩
    simpa only [Nat.add_assoc, Nat.add_comm 1 n] using h.clock (n + 1)

end World

namespace Machine

theorem world_load {m : Machine κ φ} (hdisplay : m.world.display = .detached)
    (hteletype : m.world.teletype = .detached) (image : Image) :
    ∃ journal, (m.load image).world = { m.world with
      memory := m.world.memory.clear, seed := 0, bus := { control := .running, journal } } := by
  obtain ⟨phase, loaded, stack, config, memory, seed, display, teletype, keyboard, disk, bus,
      clock⟩ := m
  simp only at hdisplay hteletype
  subst hdisplay hteletype
  cases loaded with
  | none => exact ⟨_, rfl⟩
  | some i => exact ⟨_, rfl⟩

theorem stack_load (m : Machine κ φ) (image : Image) : (m.load image).stack = m.stack.clear := by
  obtain ⟨phase, loaded, stack, world⟩ := m
  simp only [load, perform]
  split <;> rfl

structure Observation where
  words : List Word
  bytes : Bytes
  region : Region
  next : Nat
  count : Nat
  seed : Word
  offset : Option Nat
  ended : Bool

def observe (m : Machine κ φ) : Observation where
  words := m.stack.toList
  bytes := m.world.memory.readBlock 0 addressSpace
  region := m.world.memory.region
  next := m.world.memory.pool.next
  count := m.world.memory.pool.count
  seed := m.world.seed
  offset := m.offset?
  ended := m.isEnded

def takeAll [Keyboard κ] [Disk φ] (m : Machine κ φ) : List Turn → List Response × Machine κ φ
  | [] => ([], m)
  | t :: turns =>
    let rest := (m.take t).2.takeAll turns
    ((m.take t).1 :: rest.1, rest.2)

variable {capacity : Nat}

theorem Related.takeAll [Keyboard κ] [Disk φ] {R : World κ φ → World κ φ → Prop} {m n : Machine κ φ}
    (hR : World.Stable R) (turns : List Turn) (h : Related capacity R m n) :
    (m.takeAll turns).1 = (n.takeAll turns).1 ∧
    Related capacity R (m.takeAll turns).2 (n.takeAll turns).2 := by
  induction turns generalizing m n with
  | nil => exact ⟨rfl, h⟩
  | cons t turns ih =>
    obtain ⟨hresponse, hnext⟩ := h.take hR t
    obtain ⟨hresponses, hlast⟩ := ih hnext
    exact ⟨by rw [Machine.takeAll, Machine.takeAll, hresponse, hresponses], hlast⟩

theorem Related.observe_eq {m n : Machine Detached Detached}
    (h : Related capacity World.Indistinguishable m n) :
    m.observe = n.observe := by
  simp only [observe, offset?, h.stack.2.2, h.world.memory, h.world.seed, h.image, h.isEnded]

variable {config : Config} {journal journal' : Journal} {clock clock' : Clock}
  {m n : Machine Detached Detached}

theorem upholds_bare (h : create config .detached .detached {} {} journal clock = .ok m) :
    m.Upholds config.stackSize fun w => w.Bare config := by
  obtain ⟨rfl, _⟩ := create_eq_ok h
  exact ⟨Array.size_replicate, rfl, rfl, .refl _, .refl _⟩

theorem related_load (hm : m.Upholds config.stackSize fun w => w.Bare config)
    (hn : n.Upholds config.stackSize fun w => w.Bare config)
    (hclock : ∀ k, m.world.clock.reading (m.world.clock.taken + k) =
      n.world.clock.reading (n.world.clock.taken + k)) (image : Image) :
    Related config.stackSize World.Indistinguishable (m.load image) (n.load image) := by
  obtain ⟨journal, hmload⟩ := world_load hm.world.detached.1 hm.world.detached.2 image
  obtain ⟨journal', hnload⟩ := world_load hn.world.detached.1 hn.world.detached.2 image
  refine ⟨rfl, rfl, ?_, ?_⟩
  · rw [stack_load, stack_load]
    exact ⟨hm.stack, hn.stack, by rw [Stack.toList_clear, Stack.toList_clear]⟩
  · rw [hmload, hnload]
    exact {
      config := hm.world.1.trans hn.world.1.symm
      memory := hm.world.clear_eq hn.world
      seed := rfl
      control := rfl
      display := ⟨hm.world.detached.1, hn.world.detached.1⟩
      teletype := ⟨hm.world.detached.2, hn.world.detached.2⟩
      clock := hclock }

/-- Whatever a machine has run before, the program it loads runs as on a new machine. -/
theorem load_isolates (hm : create config .detached .detached {} {} journal clock = .ok m)
    (history : List Command) (hn : create config .detached .detached {} {} journal' clock' = .ok n)
    (hclock : ∀ k, clock.reading ((m.obeyAll history).world.clock.taken + k) =
      clock'.reading (clock'.taken + k))
    (image : Image) (turns : List Turn) :
    (((m.obeyAll history).load image).takeAll turns).1 = ((n.load image).takeAll turns).1 ∧
      (((m.obeyAll history).load image).takeAll turns).2.observe =
        ((n.load image).takeAll turns).2.observe := by
  have hm₀ : m.Upholds config.stackSize fun w => w.clock.reading = clock.reading := by
    rw [(create_eq_ok hm).1]
    exact ⟨Array.size_replicate, rfl⟩
  have hreadings := (hm₀.obeyAll (World.kept_readings _) history).world
  have hnew : n.world.clock = clock' := by rw [(create_eq_ok hn).1, initial]
  have hused := (upholds_bare hm).obeyAll (World.kept_bare config) history
  have hload := related_load hused (upholds_bare hn) (by rw [hreadings, hnew]; exact hclock) image
  obtain ⟨hresponses, hlast⟩ := hload.takeAll World.stable_indistinguishable turns
  exact ⟨hresponses, hlast.observe_eq⟩

/-- A program that pushes a word and is cancelled leaves no trace. -/
theorem load_isolates_cancelled :
    let clock : Clock := { reading := fun _ => ⟨2000, 0, 1, 0, 0, 0, 0, 7⟩ }
    let code : Image :=
      ⟨"PUSH", #[76, 65, 86, 18, 0, 0, 0, 0, 0, 0, 0, 0, 0, 0, 0, 0, 1, 42, 1, 43],
        Image.headerSize⟩
    let history : List Command :=
      [.load code, .turn .step, .control .cancel, .turn (.execute 1), .dispose]
    let turns : List Turn := [.execute 2, .step]
    ∃ m : Machine Detached Detached, create {} .detached .detached {} {} .quiet clock = .ok m ∧
      (m.obeyAll history).stack.toList = [42] ∧
      (((m.obeyAll history).load code).takeAll turns).1 = ((m.load code).takeAll turns).1 ∧
      (((m.obeyAll history).load code).takeAll turns).2.observe =
        ((m.load code).takeAll turns).2.observe := by
  intro clock code history turns
  have hcreate : create {} .detached .detached {} {} .quiet clock =
      .ok (initial {} .detached .detached {} {} .quiet clock : Machine Detached Detached) := rfl
  exact ⟨_, hcreate, by decide +kernel,
    load_isolates hcreate history hcreate (fun _ => rfl) code turns⟩

end Machine
end LavMachine
