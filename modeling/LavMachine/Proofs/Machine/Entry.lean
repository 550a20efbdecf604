import Mathlib
import LavMachine.Proofs.Machine.Invocation
import LavMachine.Proofs.Machine.Signature
set_option autoImplicit false

namespace LavMachine

namespace Memory

structure LaidOut (before : Memory) (size : Nat) (parameters : List Word) (after : Memory) :
    Prop where
  start : after.region.start = before.region.limit
  limit : after.region.limit = (before.region.limit + size) % addressSpace
  parameter (j : Nat) (hj : j < parameters.length) :
    after.getLong (before.region.limit + 5 + 4 * j) = parameters[j]
  caller : (after.readBlock (before.region.limit + 3) 2).toNat = before.region.start
  back : after.readBlock before.region.limit 3 = before.readBlock before.region.limit 3
  outside (b : Nat) : Outside (before.region.limit + 3) (2 + 4 * parameters.length) b →
    after.getByte b = before.getByte b

variable {m : Memory} {vs : List Word} (h : m.Unshared)

include h

/-- Below the parameters and above them there is only the saved frame start. -/
theorem getByte_openFrame (size : Nat) {b : Nat}
    (hb : Outside (m.region.limit + 5) (4 * vs.length) b) :
    (m.openFrame size vs).getByte b =
      (m.setInt (m.region.limit + 3) (Int32.ofNat m.region.start)).getByte b :=
  (writesIn_storeParameters _ vs _).getByte_eq ((h.writes (m.writes_setBytes _ 2 _)).setRegion _) hb

theorem toNat_caller_openFrame (size : Nat) (hcount : vs.length < 256) :
    ((m.openFrame size vs).readBlock (m.region.limit + 3) 2).toNat = m.region.start := by
  have hkept : ∀ i < 2, (m.openFrame size vs).getByte (m.region.limit + 3 + i) =
      (m.setInt (m.region.limit + 3) (Int32.ofNat m.region.start)).getByte
        (m.region.limit + 3 + i) := by
    intro i hi
    refine getByte_openFrame h size fun j hj => ?_
    simp only [addressSpace]
    omega
  have hstart : (Int32.ofNat m.region.start).toUInt32.toNat = m.region.start := by
    have hlt := m.region.start_lt
    rw [addressSpace] at hlt
    rw [Int32.toUInt32_ofNat', UInt32.toNat_ofNat']
    omega
  rw [readBlock_congr hkept, setInt, setBytes, Nat.min_eq_left (by decide),
    toNat_readBlock_writeBlock h _ (by decide), hstart]
  exact Nat.mod_eq_of_lt m.region.start_lt

theorem getByte_openFrame_of_outside (size : Nat) {b : Nat}
    (hb : Outside (m.region.limit + 3) (2 + 4 * vs.length) b) :
    (m.openFrame size vs).getByte b = m.getByte b := by
  have hslots : Outside (m.region.limit + 5) (4 * vs.length) b := fun i hi => by
    have hi' := hb (2 + i) (by omega)
    rwa [← Nat.add_assoc] at hi'
  have hcaller : Outside (m.region.limit + 3) 2 b := fun i hi => hb i (by omega)
  rw [getByte_openFrame h size hslots]
  exact getByte_setBytes_of_outside h _ hcaller

theorem laidOut_openFrame (size : Nat) (hcount : vs.length < 256) :
    m.LaidOut size vs (m.openFrame size vs) := by
  have hfits : 4 * vs.length ≤ addressSpace := by
    rw [addressSpace]
    omega
  have hregion : (m.openFrame size vs).region =
      (m.region.setStart m.region.limit).setLimit (m.region.limit + size) :=
    (writesIn_storeParameters _ vs _).writes.region_eq
  exact {
    start := by
      rw [hregion]
      exact Nat.mod_eq_of_lt m.region.limit_lt
    limit := by rw [hregion]; rfl
    parameter := fun j hj =>
      getLong_storeParameters ((h.writes (m.writes_setBytes _ 2 _)).setRegion _) hfits hj
    caller := toNat_caller_openFrame h size hcount
    back := readBlock_congr fun i hi => getByte_openFrame_of_outside h size fun j hj => by
      simp only [addressSpace]
      omega
    outside := fun b hb => getByte_openFrame_of_outside h size hb }

end Memory

namespace Machine

variable {κ φ : Type} [Keyboard κ] [Disk φ] {m : Machine κ φ}

/-- Entering a function takes its parameters off the stack and lays out its frame, whatever their
number. -/
theorem entry_lays_out_frame {i : Image} {size : Nat} {ws vs : List Word}
    (hshare : m.world.memory.Unshared) (hop : m.opcode? = some .entry) (himage : m.image = some i)
    (hsize : i.field (i.cursor + 1) 2 = some size)
    (hcount : i.field (i.cursor + 3) 1 = some vs.length) (hstack : m.stack.toList = ws ++ vs) :
    ∃ s after, m.GoesOn { i with cursor := i.cursor + 4 } s after ∧ s.toList = ws ∧
      s.capacity = m.stack.capacity ∧ m.world.memory.LaidOut size vs after := by
  obtain ⟨s, hgoes, hs, hcapacity⟩ := goesOn_openFrame hop himage hsize hcount hstack
  obtain ⟨b, -, hb⟩ := Image.byte_of_field (i := { i with cursor := i.cursor + 3 }) hcount
  have hlt : vs.length < 256 := hb ▸ b.toNat_lt
  exact ⟨s, _, hgoes, hs, hcapacity, Memory.laidOut_openFrame hshare size hlt⟩

/-- Two parameters, the first of which lies across the end of the address space. The header is in a
window up to the lower byte of the saved frame start. -/
theorem entry_lays_out_frame_wrapped :
    let start := bare #[0x3e, 9, 0, 2] ⟨#[7, -2, 0x1234567, 0], 3, by decide⟩
    let framed := { Memory.blank (Pool.empty 4096 16) #[#[77, 0, 0, 9]] with
      mappings := [⟨65530, 0⟩], region := ⟨0x2000, 65530, by decide, by decide⟩ : Memory }
    let m := { start with world := { start.world with memory := framed } }
    let after := m.step.2.world.memory
    m.world.memory.Unshared ∧ m.step.1 = .ok () ∧ m.step.2.stack.toList = [7] ∧
      after.region.start = 65530 ∧
      after.region.limit = 3 ∧ after.getLong 65535 = -2 ∧ after.getLong 65539 = 0x1234567 ∧
      (after.readBlock 65533 2).toNat = 0x2000 ∧ after.getOffset 65530 = 77 := by
  intro start framed m after
  have hshare : m.world.memory.Unshared := by simp [m, framed, Memory.Unshared]
  have hsize : Image.field ⟨"BARE", #[0x3e, 9, 0, 2], 0⟩ 1 2 = some 9 := by decide
  have hstack : m.stack.toList = [7] ++ [-2, 0x1234567] := by decide
  obtain ⟨s, n, hgoes, hs, _, hlaid⟩ :=
    entry_lays_out_frame hshare (by decide +kernel) rfl hsize (by decide) hstack
  have htaken : m.step.2.stack.toList = [7] := by rw [hgoes.stack, hs]
  have hend : m.world.memory.region.limit = 65530 := rfl
  have hmemory : after = n := hgoes.memory
  rw [← hmemory] at hlaid
  obtain ⟨hstart, hlimit, hparameter, hcaller, hback, -⟩ := hlaid
  rw [hend] at hstart hlimit hcaller hback
  simp only [hend] at hparameter
  have hoffset : after.getOffset 65530 = 77 := by
    rw [Memory.getOffset, hback]
    decide +kernel
  exact ⟨hshare, hgoes.result, htaken, hstart, hlimit, hparameter 0 (by decide),
    hparameter 1 (by decide), hcaller, hoffset⟩

end Machine
end LavMachine
