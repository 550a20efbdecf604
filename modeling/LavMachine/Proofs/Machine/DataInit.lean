import Mathlib
import LavMachine.Proofs.Machine.Expression
import LavMachine.Proofs.Memory.Copy
set_option autoImplicit false

namespace LavMachine

namespace Memory

def Lent (m : Memory) (a : Nat) : Prop :=
  (∃ w ∈ m.mappings, m.inMapping (a % addressSpace) w) ∨ m.pool.covers (a % addressSpace)

instance (m : Memory) (a : Nat) : Decidable (m.Lent a) := inferInstanceAs (Decidable (_ ∨ _))

def uncovered (m : Memory) : Memory := { m with pool := Pool.empty 0 0, mappings := [] }

def storeOwn (m : Memory) (a : Nat) : Bytes → Memory
  | [] => m
  | b :: rest => storeOwn (m.setOwnByte a b) (a + 1) rest

variable {m : Memory} {a b : Nat} {data : Bytes}

theorem cell_uncovered (m : Memory) (b : Nat) :
    m.uncovered.cell b = .own ⟨b % addressSpace, mod_addressSpace_lt b⟩ := by
  simp [cell, uncovered, Pool.covers, Pool.limit, Pool.empty, Pool.capacity]

theorem getByte_of_not_lent (h : ¬ m.Lent b) : m.getByte b = m.uncovered.getByte b := by
  obtain ⟨w, hw, hin, _⟩ | ⟨hcovers, _⟩ | hcell := m.cell_cases b
  · exact absurd (.inl ⟨w, hw, hin⟩) h
  · exact absurd (.inr hcovers) h
  · rw [getByte_eq_contents, getByte_eq_contents, hcell, cell_uncovered]
    rfl

theorem cell_ne_own_of_lent (h : m.Lent b) (k : Fin addressSpace) : m.cell b ≠ .own k := by
  unfold cell
  cases hfind : m.mappings.find? (m.inMapping (b % addressSpace)) with
  | some w => simp [hfind]
  | none =>
    obtain ⟨w, hw, hin⟩ | hcovers := h
    · exact absurd hin (List.find?_eq_none.1 hfind w hw)
    · simp [hfind, hcovers]

theorem getByte_of_lent (h : m.Lent b) (own : Vector UInt8 addressSpace) :
    { m with own }.getByte b = m.getByte b := by
  have hcell : { m with own }.cell b = m.cell b := cell_congr (n := m) rfl b
  rw [getByte_eq_contents, getByte_eq_contents, hcell]
  cases hc : m.cell b with
  | window | pool => rfl
  | own k => exact absurd hc (cell_ne_own_of_lent h k)

theorem storeOwn_eq (m : Memory) (a : Nat) (data : Bytes) :
    m.storeOwn a data = { m with own := (m.storeOwn a data).own } := by
  induction data generalizing m a with
  | nil => rfl
  | cons v rest ih => exact ih (m.setOwnByte a v) (a + 1)

/-- Under windows and pool it is an ordinary block that is written. -/
theorem uncovered_storeOwn (m : Memory) (a : Nat) (data : Bytes) :
    (m.storeOwn a data).uncovered = m.uncovered.writeBlock a data := by
  induction data generalizing m a with
  | nil => rfl
  | cons v rest ih =>
    have hfirst : (m.setOwnByte a v).uncovered = m.uncovered.setByte a v := by
      rw [setByte_eq, cell_uncovered]
      rfl
    rw [storeOwn, ih, hfirst, writeBlock]

/-- `after` is `before` with `data` stored from `a` on: what is read at each address, and what is
stored there. -/
structure Initialised (before : Memory) (a : Nat) (data : Bytes) (after : Memory) : Prop where
  own (j : Nat) (hj : j < data.length) : ¬ before.Lent (a + j) → after.getByte (a + j) = data[j]
  lent (b : Nat) : before.Lent b → after.getByte b = before.getByte b
  outside (b : Nat) : Outside a data.length b → after.getByte b = before.getByte b
  stored (j : Nat) (hj : j < data.length) : after.uncovered.getByte (a + j) = data[j]
  kept (b : Nat) : Outside a data.length b → after.uncovered.getByte b = before.uncovered.getByte b
  rest : after = { before with own := after.own }

theorem initialised_storeOwn (hlen : data.length ≤ addressSpace) (m : Memory) (a : Nat) :
    m.Initialised a data (m.storeOwn a data) := by
  have hrest := m.storeOwn_eq a data
  have hlent (b : Nat) (hb : m.Lent b) : (m.storeOwn a data).getByte b = m.getByte b := by
    rw [hrest]
    exact getByte_of_lent hb _
  have hseen (b : Nat) (hb : ¬ m.Lent b) :
      (m.storeOwn a data).getByte b = (m.storeOwn a data).uncovered.getByte b := by
    rw [hrest]
    exact getByte_of_not_lent (m := { m with own := _ }) hb
  have hshare : m.uncovered.Unshared := List.nodup_nil
  have hstored (j : Nat) (hj : j < data.length) :
      (m.storeOwn a data).uncovered.getByte (a + j) = data[j] := by
    rw [uncovered_storeOwn, getByte_writeBlock hshare a hlen hj]
  have hkept (b : Nat) (hb : Outside a data.length b) :
      (m.storeOwn a data).uncovered.getByte b = m.uncovered.getByte b := by
    rw [uncovered_storeOwn, getByte_writeBlock_of_outside hshare hb]
  refine ⟨fun j hj hown => ?_, hlent, fun b hb => ?_, hstored, hkept, hrest⟩
  · rw [hseen _ hown, hstored j hj]
  · by_cases hb' : m.Lent b
    · exact hlent b hb'
    · rw [hseen b hb', hkept b hb, getByte_of_not_lent hb']

end Memory

namespace Processor

variable {κ φ : Type} {i : Image} {s : Stack}

theorem copyData_eq (a count : Nat) (w : World κ φ) :
    let stored := { w with memory := w.memory.storeOwn a (i.rest.take count) }
    (copyData a count : Exec κ φ Unit) ⟨i, s, w⟩ = if count ≤ i.rest.length then
      .ok () ⟨i.skip count, s, stored⟩
      else .error (Image.pastEnd (i.cursor + i.rest.length)) ⟨i.skip i.rest.length, s, stored⟩ := by
  induction count generalizing i a w with
  | zero => simp [copyData, Memory.storeOwn, Image.skip, pure, EStateM.pure]
  | succ count ih =>
    simp only [copyData, bind, EStateM.bind, fetch]
    cases hrest : i.rest with
    | nil => simp [Image.reads_byte i, hrest, Memory.storeOwn, Image.skip]
    | cons b rest =>
      obtain ⟨hbyte, hnext⟩ := Image.rest_eq_cons hrest
      have hcursor : (i.skip 1).cursor + rest.length = i.cursor + (rest.length + 1) := by
        simp only [Image.skip]
        omega
      have hskip (n : Nat) : (i.skip 1).skip n = i.skip (n + 1) := by
        rw [Image.skip_skip, Nat.add_comm]
      have hchange : (changeMemory (·.setOwnByte a b) : Exec κ φ Unit) ⟨i.skip 1, s, w⟩ =
          .ok () ⟨i.skip 1, s, { w with memory := w.memory.setOwnByte a b }⟩ := rfl
      have hlater := ih (i := i.skip 1) (a + 1) { w with memory := w.memory.setOwnByte a b }
      rw [hnext, hcursor, hskip, hskip] at hlater
      simpa [hbyte, hchange, Memory.storeOwn] using hlater

theorem execute_dataInit [Keyboard κ] [Disk φ] {a n : UInt16} {data : Bytes}
    (hrest : i.rest = Bytes.ofNat 2 a.toNat ++ (Bytes.ofNat 2 n.toNat ++ data)) (w : World κ φ) :
    let stored := { w with memory := w.memory.storeOwn a.toNat (data.take n.toNat) }
    execute .dataInit ⟨i, s, w⟩ = if n.toNat ≤ data.length then
      .ok () ⟨i.skip (4 + n.toNat), s, stored⟩
      else .error (Image.pastEnd (i.cursor + (4 + data.length)))
        ⟨i.skip (4 + data.length), s, stored⟩ := by
  have hoperand (k : UInt16) : (Bytes.ofNat 2 k.toNat).toNat = k.toNat := by
    rw [Bytes.toNat_ofNat]
    exact Nat.mod_eq_of_lt k.toNat_lt
  have hnext := Image.rest_skip_append hrest
  have hdata := Image.rest_skip_append hnext
  rw [Bytes.length_ofNat] at hnext hdata
  rw [Bytes.length_ofNat, Image.skip_skip] at hdata
  have ha := Image.reads_address.of_append hrest (Bytes.length_ofNat ..)
  have hn := Image.reads_address.of_append hnext (Bytes.length_ofNat ..)
  rw [Image.skip_skip] at hn
  have hcopy := copyData_eq (i := i.skip 4) (s := s) a.toNat n.toNat w
  rw [hdata, Image.skip_skip, Image.skip_skip] at hcopy
  simp only [execute, bind, EStateM.bind, fetch, ha, hn, hoperand, hcopy]
  simp only [Image.skip, Nat.add_assoc]

end Processor

namespace Machine

variable {κ φ : Type} [Keyboard κ] [Disk φ] {m : Machine κ φ} {i : Image}

theorem step_of_rest_error {b : UInt8} {tail : Bytes} {op : Opcode} {f : Fault} {j : Image}
    {t : Stack} {k : Memory} (hlive : m.Live) (himage : m.image = some i)
    (hrest : i.rest = b :: tail) (hop : (Instruction.ofByte? b).map (·.opcode) = some op)
    (h : ∀ w : World κ φ, w.memory = m.world.memory →
      Processor.execute op ⟨i.skip 1, m.stack, w⟩ = .error f ⟨j, t, { w with memory := k }⟩) :
    ∃ bus, m.world.bus.Logged bus ∧
      m.step = (.error (f.locate i.cursor),
        ⟨.ended, some j, t, { m.world with memory := k, bus }⟩) := by
  obtain ⟨text, -, herror⟩ := Processor.step_of_execute (s := m.stack) (w := m.world)
    ((Image.opcodeAt_of_rest hrest).trans hop)
  obtain ⟨bus, hbus, hsettle⟩ := settle_error i.cursor f
    ⟨j, t, { m.world with memory := k, bus := m.world.bus.log .trace text }⟩
  refine ⟨bus, (m.world.bus.logged_log .trace text).trans hbus, ?_⟩
  rw [step_eq_settle hlive himage, herror _ _ (h _ rfl), hsettle]

/-- An initialiser stores the bytes that follow it, as many as it says or as there are. With fewer
it fails where the image ends, and otherwise it goes on behind them. -/
theorem data_fills_own_memory (hlive : m.Live) (himage : m.image = some i) {a n : UInt16}
    {data : Bytes}
    (hcode : i.rest = 0x41 :: (Bytes.ofNat 2 a.toNat ++ (Bytes.ofNat 2 n.toNat ++ data))) :
    ∃ after bus, m.world.memory.Initialised a.toNat (data.take n.toNat) after ∧
      m.world.bus.Logged bus ∧
      m.step =
        if n.toNat ≤ data.length then
          (.ok (),
            ⟨.running, some (i.skip (5 + n.toNat)), m.stack, { m.world with memory := after, bus }⟩)
        else
          (.error (Image.pastEnd i.bytes.size),
            ⟨.ended, some (i.skip (5 + data.length)), m.stack,
              { m.world with memory := after, bus }⟩) := by
  have hlen : (data.take n.toNat).length ≤ addressSpace :=
    (List.length_take_le _ _).trans (Nat.le_of_lt n.toNat_lt)
  have hafter := Memory.initialised_storeOwn hlen m.world.memory a.toNat
  have hoperands := (Image.rest_eq_cons hcode).2
  have hexecute (w : World κ φ) (hw : w.memory = m.world.memory) :=
    hw ▸ Processor.execute_dataInit (s := m.stack) hoperands w
  simp only [Image.skip_skip, ← Nat.add_assoc] at hexecute
  by_cases hfits : n.toNat ≤ data.length
  · simp only [if_pos hfits] at hexecute ⊢
    obtain ⟨bus, hbus, hstep⟩ := step_of_rest hlive himage hcode rfl (by decide) hexecute
    exact ⟨_, bus, hafter, hbus, hstep⟩
  · simp only [if_neg hfits] at hexecute ⊢
    obtain ⟨bus, hbus, hstep⟩ := step_of_rest_error hlive himage hcode rfl hexecute
    have hend : (i.skip 1).cursor + 4 + data.length = i.bytes.size := by
      have hsize := i.length_rest
      rw [hcode] at hsize
      simp only [List.length_cons, List.length_append, Bytes.length_ofNat] at hsize
      simp only [Image.skip]
      omega
    rw [hend] at hstep
    exact ⟨_, bus, hafter, hbus, hstep⟩

/-- Three of four bytes are there, for the last address and the first two. The first address is that
of a window, which keeps its byte; the byte that was meant for it lies underneath. -/
theorem data_fills_own_memory_truncated :
    let code := #[0x41, 0xff, 0xff, 4, 0, 7, 8, 9]
    let start := bare code (Stack.empty 2)
    let covered := { Memory.blank (Pool.empty 4096 16) #[#[77]] with mappings := [⟨0, 0⟩] : Memory }
    let m := { start with world := { start.world with memory := covered } }
    let after := m.step.2.world.memory
    m.step.1 = .error (Image.pastEnd 8) ∧ m.step.2.offset? = some 8 ∧ after.getByte 65535 = 7 ∧
      after.getByte 0 = 77 ∧ after.uncovered.getByte 0 = 8 ∧ after.getByte 1 = 9 := by
  intro code start covered m after
  have hcode : Image.rest ⟨"BARE", code, 0⟩ =
      0x41 :: (Bytes.ofNat 2 (0xffff : UInt16).toNat ++
        (Bytes.ofNat 2 (4 : UInt16).toNat ++ [7, 8, 9])) := by decide
  obtain ⟨filled, bus, hfilled, -, hstep⟩ := data_fills_own_memory (m := m) (.inr rfl) rfl hcode
  rw [if_neg (by decide)] at hstep
  obtain rfl : after = filled := congrArg (fun r => r.2.world.memory) hstep
  have hlent : covered.Lent 0 := by decide
  have hlast : ¬ covered.Lent 65535 := by decide
  have hsecond : ¬ covered.Lent 65537 := by decide
  have hwindow : covered.getByte 0 = 77 := by decide
  have hbelow : after.uncovered.getByte 65536 = 8 := hfilled.stored 1 (by decide)
  have hbehind : after.getByte 65537 = 9 := hfilled.own 2 (by decide) hsecond
  rw [Memory.getByte_eq_of_mod_eq _ (show 65536 % addressSpace = 0 % addressSpace from rfl)]
    at hbelow
  rw [Memory.getByte_eq_of_mod_eq _ (show 65537 % addressSpace = 1 % addressSpace from rfl)]
    at hbehind
  exact ⟨congrArg Prod.fst hstep, congrArg (fun r => r.2.offset?) hstep,
    hfilled.own 0 (by decide) hlast, (hfilled.lent 0 hlent).trans hwindow, hbelow, hbehind⟩

end Machine
end LavMachine
