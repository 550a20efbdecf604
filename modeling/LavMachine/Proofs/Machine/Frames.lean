import Mathlib
import LavMachine.Proofs.Machine.Invocation
set_option autoImplicit false

/-!
Call frames. They lie one behind the other in ordinary memory, each with a header of five bytes that
says where to go on and where the caller's frame starts. As long as the instructions in between
leave the headers of the open frames alone, every return gives its caller back the offset and the
region it had, however deep the calls are nested.
-/
namespace LavMachine

variable {κ φ : Type}

theorem Region.zero_setLimit_setStart (r : Region) :
    (Region.zero.setLimit r.limit).setStart r.start = r := by
  obtain ⟨start, limit, hstart, hlimit⟩ := r
  simp only [setStart, setLimit, Nat.mod_eq_of_lt hstart, Nat.mod_eq_of_lt hlimit]

/-- A frame start survives in the sixteen bits that it is saved in. -/
theorem Word.address_toInt16_ofNat {n : Nat} (h : n < addressSpace) :
    Word.address (Int32.ofNat n).toInt16.toInt32 = n := by
  have hword : (Int32.ofNat n).toInt16.toInt32.toUInt32.toNat =
      (((BitVec.ofNat 32 n).setWidth 16).signExtend 32).toNat := by
    rw [← BitVec.signExtend_eq_setWidth_of_le _ (by decide)]
    rfl
  rw [Word.address, hword, BitVec.toNat_signExtend]
  simp only [addressSpace] at h
  split <;> simp <;> omega

namespace Memory

theorem outside_of_lt {a count b : Nat} (hb : b < a) (h : a + count ≤ addressSpace) :
    Outside a count b := by
  intro i hi
  simp only [addressSpace] at *
  omega

theorem readBlock_add (m : Memory) (a j k : Nat) :
    m.readBlock a (j + k) = m.readBlock a j ++ m.readBlock (a + j) k := by
  simp [readBlock, List.range_add, Nat.add_assoc]

end Memory

/-- A call that has not come back yet: the region and the offset it goes back to, where the callee
starts, and the size and parameter count of the callee's frame. -/
structure Frame where
  caller : Region
  back : Nat
  callee : Nat
  size : Nat
  count : Nat

namespace Frame

def SavedIn (f : Frame) (m : Memory) : Prop :=
  m.getOffset f.caller.limit = f.back ∧ (m.getInt (f.caller.limit + 3)).address = f.caller.start

theorem SavedIn.congr {f : Frame} {m n : Memory} (h : f.SavedIn m)
    (hbytes : n.readBlock f.caller.limit 5 = m.readBlock f.caller.limit 5) : f.SavedIn n := by
  rw [n.readBlock_add _ 3 2, m.readBlock_add _ 3 2] at hbytes
  obtain ⟨hoffset, hstart⟩ := List.append_inj hbytes (by simp [Memory.readBlock])
  simp only [SavedIn, Memory.getOffset, Memory.getInt, Memory.getBytes, Nat.reduceLeDiff,
    min_eq_left] at h ⊢
  rw [hoffset, hstart]
  exact h

section Header

variable {f : Frame} {m n : Memory} (hshare : m.Unshared)
  (hbytes : ∀ b, Memory.Outside (f.caller.limit + 5) (4 * f.count) b → n.getByte b =
    ((m.setOffset f.caller.limit f.back).setInt (f.caller.limit + 3)
      (Int32.ofNat f.caller.start)).getByte b)
  (hfits : f.caller.limit + (5 + 4 * f.count) ≤ addressSpace)

include hshare hbytes hfits

theorem getByte_of_lt {b : Nat} (hb : b < f.caller.limit) : n.getByte b = m.getByte b := by
  have hinvoked := hshare.writes (m.writes_setOffset f.caller.limit f.back)
  rw [hbytes b (Memory.outside_of_lt (by omega) (by omega)),
    Memory.setInt,
    Memory.getByte_setBytes_of_outside hinvoked _ (Memory.outside_of_lt (by omega) (by omega)),
    Memory.getByte_setOffset_of_outside hshare _ (Memory.outside_of_lt hb (by omega))]

theorem savedIn_of_call (hback : f.back < 2 ^ 24) : f.SavedIn n := by
  have hinvoked := hshare.writes (m.writes_setOffset f.caller.limit f.back)
  have hoffset : n.readBlock f.caller.limit 3 =
      (m.setOffset f.caller.limit f.back).readBlock f.caller.limit 3 :=
    Memory.readBlock_congr fun i hi => by
      rw [hbytes _ (Memory.outside_of_lt (by omega) (by omega)), Memory.setInt,
        Memory.getByte_setBytes_of_outside hinvoked _ (Memory.outside_of_lt (by omega) (by omega))]
  have hstart : n.readBlock (f.caller.limit + 3) 2 = _ :=
    Memory.readBlock_congr fun i hi => hbytes _ (Memory.outside_of_lt (by omega) (by omega))
  constructor
  · rw [Memory.getOffset, hoffset]
    exact (Memory.getOffset_setOffset hshare _ _).trans (Nat.mod_eq_of_lt hback)
  · rw [Memory.getInt, Memory.getBytes, min_eq_left (by decide), hstart]
    have hsaved := Memory.getInt_setInt hinvoked (f.caller.limit + 3) (Int32.ofNat f.caller.start)
    rw [Memory.getInt, Memory.getBytes, min_eq_left (by decide)] at hsaved
    rw [hsaved]
    exact Word.address_toInt16_ofNat f.caller.start_lt

end Header

def top (base : Region) : List Frame → Nat
  | [] => base.limit
  | f :: _ => f.caller.limit + f.size

/-- The open frames, innermost first, lie one behind the other between a base and the current
region. -/
inductive Stacked (base : Region) : List Frame → Region → Prop where
  | base : Stacked base [] base
  | frame {f : Frame} {fs : List Frame} {r : Region} : Stacked base fs f.caller →
    f.caller.limit = top base fs → 5 ≤ f.size → r.start = f.caller.limit →
    r.limit = (f.caller.limit + f.size) % addressSpace → Stacked base (f :: fs) r

theorem Stacked.limit_eq {base : Region} {fs : List Frame} {r : Region} (h : Stacked base fs r) :
    r.limit = top base fs % addressSpace := by
  cases h with
  | base => exact (Nat.mod_eq_of_lt base.limit_lt).symm
  | frame _ _ _ _ hlimit => exact hlimit

theorem Stacked.header_le {base : Region} {fs : List Frame} {r : Region} (h : Stacked base fs r) :
    ∀ f ∈ fs, f.caller.limit + 5 ≤ top base fs := by
  induction h with
  | base => simp
  | @frame f fs r _ htop hsize _ _ ih =>
    intro g hg
    rcases List.mem_cons.1 hg with rfl | hg
    · exact Nat.add_le_add_left hsize _
    · have hbelow := ih g hg
      simp only [top]
      omega

end Frame

namespace Machine

structure Opens (top : Nat) (f : Frame) (m : Machine κ φ) : Prop where
  opcode : m.opcode? = some .invoke
  code : ∃ i, m.image = some i ∧ i.field (i.cursor + 1) 3 = some f.callee ∧ i.cursor + 4 = f.back ∧
    i.opcodeAt f.callee = some .entry ∧ i.field (f.callee + 1) 2 = some f.size ∧
    i.field (f.callee + 3) 1 = some f.count
  caller : m.region = f.caller
  back_lt : f.back < 2 ^ 24
  size_le : 5 ≤ f.size
  words : f.count ≤ m.stack.depth
  fits : top + max f.size (5 + 4 * f.count) ≤ addressSpace

variable [Keyboard κ] [Disk φ]

/-- Some steps that end in the region they started in and leave the headers of the open frames as
they were. -/
structure Quiet (fs : List Frame) (m n : Machine κ φ) : Prop where
  steps : ∃ k, n = (fun m : Machine κ φ => m.step.2)^[k] m
  region : n.region = m.region
  headers :
    ∀ f ∈ fs, n.world.memory.readBlock f.caller.limit 5 = m.world.memory.readBlock f.caller.limit 5

/-- A run of calls and returns, with quiet steps between them, and the frames that are open at its
end. -/
inductive Run (m₀ : Machine κ φ) : List Frame → Machine κ φ → Prop where
  | start : Run m₀ [] m₀
  | quiet {fs : List Frame} {m n : Machine κ φ} : Run m₀ fs m → Quiet fs m n → Run m₀ fs n
  | call {fs : List Frame} {f : Frame} {m : Machine κ φ} : Run m₀ fs m →
    m.Opens (Frame.top m₀.region fs) f → Run m₀ (f :: fs) m.step.2.step.2
  | leave {fs : List Frame} {f : Frame} {m : Machine κ φ} : Run m₀ (f :: fs) m →
    m.opcode? = some .leave → Run m₀ fs m.step.2

/-- However quietly the program goes on, its returns close the open frames one after the other: each
goes back to the saved offset and the caller's region, and the last one to the base. -/
def Unwinds (base : Region) : List Frame → Machine κ φ → Prop
  | [], m => m.region = base
  | f :: fs, m => ∀ n, Quiet (f :: fs) m n → n.opcode? = some .leave →
    n.step.1 = .ok () ∧ n.step.2.offset? = some f.back ∧ n.step.2.region = f.caller ∧
    Unwinds base fs n.step.2

structure Threaded (base : Region) (fs : List Frame) (m : Machine κ φ) : Prop where
  unshared : m.world.memory.Unshared
  stacked : Frame.Stacked base fs m.region
  saved : ∀ f ∈ fs, f.SavedIn m.world.memory

variable {base : Region} {fs : List Frame} {f : Frame} {m n : Machine κ φ}

theorem mappings_iterate_step (k : Nat) (m : Machine κ φ) :
    ((fun m : Machine κ φ => m.step.2)^[k] m).world.memory.mappings = m.world.memory.mappings := by
  induction k generalizing m with
  | zero => rfl
  | succ k ih =>
    have hstart : m.Upholds m.stack.capacity fun w => w.memory.shape = m.world.memory.shape :=
      ⟨rfl, rfl⟩
    have hstep := hstart.obey (World.kept_shape _) (.turn .step)
    rw [Function.iterate_succ_apply, ih]
    exact congrArg Memory.Shape.mappings hstep.world

theorem Threaded.quiet (h : Threaded base fs m) (hq : Quiet fs m n) : Threaded base fs n where
  unshared := by
    obtain ⟨k, rfl⟩ := hq.steps
    rw [Memory.Unshared, mappings_iterate_step]
    exact h.unshared
  stacked := hq.region ▸ h.stacked
  saved f hf := (h.saved f hf).congr (hq.headers f hf)

theorem Threaded.leave (h : Threaded base (f :: fs) m) (hop : m.opcode? = some .leave) :
    m.step.1 = .ok () ∧ m.step.2.offset? = some f.back ∧ m.step.2.region = f.caller ∧
      Threaded base fs m.step.2 := by
  obtain ⟨_, i, himage, _⟩ := live_of_opcode? hop
  have hgoes := goesOn_leave hop himage
  obtain ⟨hoffset, hcaller⟩ := h.saved f List.mem_cons_self
  cases h.stacked with
  | frame hbelow _ _ hstart _ =>
    have hregion : m.step.2.region = f.caller := by
      rw [region, hgoes.memory, hstart, hcaller]
      exact f.caller.zero_setLimit_setStart
    refine ⟨hgoes.result, ?_, hregion, ?_, hregion ▸ hbelow, ?_⟩
    · rw [offset?, hgoes.image, hstart]
      exact congrArg some hoffset
    · rw [hgoes.memory]
      exact h.unshared
    · intro g hg
      rw [hgoes.memory]
      exact h.saved g (List.mem_cons_of_mem f hg)

structure Called (f : Frame) (m : Machine κ φ) : Prop where
  invoked : m.step.1 = .ok ()
  entered : m.step.2.step.1 = .ok ()
  offset : m.step.2.step.2.offset? = some (f.callee + 4)
  region : m.step.2.step.2.region = (f.caller.setStart f.caller.limit).setLimit
    (f.caller.limit + f.size)
  unshared : m.step.2.step.2.world.memory.Unshared
  bytes (b : Nat) : Memory.Outside (f.caller.limit + 5) (4 * f.count) b →
    m.step.2.step.2.world.memory.getByte b =
      ((m.world.memory.setOffset f.caller.limit f.back).setInt (f.caller.limit + 3)
        (Int32.ofNat f.caller.start)).getByte b

theorem Opens.called {top : Nat} (ho : m.Opens top f) (hshare : m.world.memory.Unshared) :
    m.Called f := by
  obtain ⟨i, himage, htarget, hback, hentry, hsize, hcount⟩ := ho.code
  have hinvoke := goesOn_invoke ho.opcode himage htarget
  rw [hback, ho.caller] at hinvoke
  have hregion : m.step.2.region = f.caller := by
    rw [Machine.region, hinvoke.memory, (m.world.memory.writes_setOffset _ _).region_eq]
    exact ho.caller
  have hshare' : m.step.2.world.memory.Unshared := by
    rw [hinvoke.memory]
    exact hshare.writes (m.world.memory.writes_setOffset _ _)
  have hnext : m.step.2.opcode? = some .entry := by
    rw [opcode?, hinvoke.phase, hinvoke.image]
    exact hentry
  have hwords : f.count ≤ m.step.2.stack.depth := by
    rw [hinvoke.stack]
    exact ho.words
  obtain ⟨s, n, hgoes, hwrites, hbytes⟩ := goesOn_entry hnext hinvoke.image hsize hcount hwords
  rw [hregion] at hwrites hbytes
  refine ⟨hinvoke.result, hgoes.result, ?_, ?_, ?_, ?_⟩
  · rw [offset?, hgoes.image]
    rfl
  · rw [Machine.region, hgoes.memory, hwrites.region_eq]
    rfl
  · rw [hgoes.memory]
    exact ((hshare'.writes (Memory.writes_setBytes _ _ _ _)).setRegion _).writes hwrites
  · rw [hgoes.memory, ← hinvoke.memory]
    exact hbytes hshare'

theorem Threaded.call (h : Threaded base fs m) (ho : m.Opens (Frame.top base fs) f) :
    m.Called f ∧ Threaded base (f :: fs) m.step.2.step.2 := by
  have hcalled := ho.called h.unshared
  have hfits := ho.fits
  have hsize := ho.size_le
  -- Nothing in the new frame wraps, so the caller's limit is the end of the innermost frame itself.
  have hlimit : f.caller.limit = Frame.top base fs := by
    rw [← ho.caller, h.stacked.limit_eq]
    exact Nat.mod_eq_of_lt (by omega)
  have hroom : f.caller.limit + (5 + 4 * f.count) ≤ addressSpace := by omega
  refine ⟨hcalled, hcalled.unshared, ?_, ?_⟩
  · rw [hcalled.region]
    exact .frame (ho.caller ▸ h.stacked) hlimit hsize (Nat.mod_eq_of_lt f.caller.limit_lt) rfl
  · intro g hg
    rcases List.mem_cons.1 hg with rfl | hg
    · exact Frame.savedIn_of_call h.unshared hcalled.bytes hroom ho.back_lt
    -- An older header ends where the new frame starts, or before.
    · have hbelow := h.stacked.header_le g hg
      exact (h.saved g hg).congr (Memory.readBlock_congr fun i hi =>
        Frame.getByte_of_lt h.unshared hcalled.bytes hroom (by omega))

theorem Threaded.unwinds (h : Threaded base fs m) : m.Unwinds base fs := by
  induction fs generalizing m with
  | nil =>
    cases h.stacked with
    | base => rfl
  | cons f fs ih =>
    intro n hq hop
    obtain ⟨hresult, hoffset, hregion, hrest⟩ := (h.quiet hq).leave hop
    exact ⟨hresult, hoffset, hregion, ih hrest⟩

theorem threaded_of_run {m₀ : Machine κ φ} (hshare : m₀.world.memory.Unshared) (h : Run m₀ fs m) :
    Threaded m₀.region fs m := by
  induction h with
  | start => exact ⟨hshare, .base, by simp⟩
  | quiet _ hq ih => exact ih.quiet hq
  | call _ ho ih => exact (ih.call ho).2
  | leave _ hop ih => exact (ih.leave hop).2.2.2

/-- Calls open their frames and returns close them, to any depth. -/
theorem unwinds_of_run {m₀ : Machine κ φ} (hshare : m₀.world.memory.Unshared) (h : Run m₀ fs m) :
    m.Unwinds m₀.region fs ∧
      ∀ f, m.Opens (Frame.top m₀.region fs) f → m.step.1 = .ok () ∧ m.step.2.step.1 = .ok () ∧
        m.step.2.step.2.offset? = some (f.callee + 4) ∧
        m.step.2.step.2.Unwinds m₀.region (f :: fs) := by
  have hthreaded := threaded_of_run hshare h
  refine ⟨hthreaded.unwinds, fun f ho => ?_⟩
  obtain ⟨hcalled, hnext⟩ := hthreaded.call ho
  exact ⟨hcalled.invoked, hcalled.entered, hcalled.offset, hnext.unwinds⟩

def nesting : Machine Detached Detached where
  phase := .running
  image := some ⟨"NEST", #[61, 7, 0, 0, 0, 0, 0, 62, 9, 0, 1, 61, 16, 0, 0, 63, 62, 5, 0, 0, 63], 0⟩
  stack := ⟨#[42, 0], 1, by decide⟩
  world := {
    config := {}, seed := 0, display := .detached, teletype := .detached, keyboard := {}, disk := {}
    clock := { reading := fun _ => ⟨2000, 0, 1, 0, 0, 0, 0, 7⟩ }
    memory :=
  (Memory.blank (Pool.empty 0x1400 0xc00) #[]).setRegion ⟨0x3000, 0x3000, by decide, by decide⟩
    bus := { control := .running, journal := .quiet } }

/-- The second function goes back into the first one and that one into the program. -/
theorem unwinds_of_run_nesting :
    let outer : Frame := ⟨nesting.region, 4, 7, 9, 1⟩
    let inner : Frame := ⟨⟨0x3000, 0x3009, by decide, by decide⟩, 15, 16, 5, 0⟩
    let deep := nesting.step.2.step.2.step.2.step.2
    Run nesting [inner, outer] deep ∧
      deep.step.2.offset? = some 15 ∧ deep.step.2.region = inner.caller ∧
      deep.step.2.step.2.offset? = some 4 ∧ deep.step.2.step.2.region = nesting.region := by
  intro outer inner deep
  have hquiet (fs : List Frame) (m : Machine Detached Detached) : Quiet fs m m :=
    ⟨⟨0, rfl⟩, rfl, fun _ _ => rfl⟩
  have houter : nesting.Opens (Frame.top nesting.region []) outer :=
    ⟨by decide +kernel, ⟨_, rfl, by decide +kernel⟩, rfl,
      by decide, by decide, by decide, by decide⟩
  have hinner : nesting.step.2.step.2.Opens (Frame.top nesting.region [outer]) inner :=
    ⟨by decide +kernel, ⟨{ nesting.image.get rfl with cursor := 11 }, by decide +kernel⟩,
      by decide +kernel, by decide, by decide, Nat.zero_le _, by decide⟩
  have hrun : Run nesting [inner, outer] deep := (Run.start.call houter).call hinner
  have hshare : nesting.world.memory.Unshared := List.nodup_nil
  have hleave : deep.opcode? = some .leave := by decide +kernel
  have himage : deep.image = some { nesting.image.get rfl with cursor := 20 } := by decide +kernel
  obtain ⟨_, hback, hregion, hrest⟩ := (unwinds_of_run hshare hrun).1 deep (hquiet _ _) hleave
  have hgoes := goesOn_leave hleave himage
  have hcursor : deep.world.memory.getOffset deep.region.start = 15 := by
    simpa [offset?, hgoes.image] using hback
  have hleave' : deep.step.2.opcode? = some .leave := by
    rw [opcode?, hgoes.phase, hgoes.image, hcursor]
    decide +kernel
  obtain ⟨_, hback', hregion', _⟩ := hrest deep.step.2 (hquiet _ _) hleave'
  exact ⟨hrun, hback, hregion, hback', hregion'⟩

end Machine
end LavMachine
