import Mathlib
import LavMachine.Proofs.Machine.Access
set_option autoImplicit false

namespace LavMachine

def Memory.formatted (m : Memory) (a : Nat) (args : List Word) : Bytes :=
  (Format.expand m a args false).map UInt16.toUInt8

namespace Processor

variable {κ φ : Type} [Keyboard κ] [Disk φ] {i : Image} {s : Stack} {ws vs args : List Word}
  {t dst format : Word}

omit [Keyboard κ] [Disk φ] in
theorem formatArguments_eq (hstack : s.toList = ws ++ vs ++ [t])
    (hcount : vs.length = t.lowByte.toNat) :
    ∃ u, (∀ w : World κ φ, formatArguments ⟨i, s, w⟩ = .ok vs ⟨i, u, w⟩) ∧ u.toList = ws ∧
      u.capacity = s.capacity := by
  obtain ⟨s', hpop, hs', hcapacity⟩ := Stack.pop_concat hstack
  obtain ⟨v, u, hblock, hv, hu, hcapacity'⟩ :=
    Stack.popBlock_append (hcount ▸ Stack.toNat_lt_moveLimit _) hs'
  refine ⟨u, fun w => ?_, hu, hcapacity'.trans hcapacity⟩
  simp only [formatArguments, bind, EStateM.bind, pop, onStack, hpop]
  rw [← hcount]
  simp only [hblock, hv, pure, EStateM.pure]

theorem execute_sprintf_of_lt (hstack : s.toList = ws ++ vs ++ [t])
    (hcount : vs.length = t.lowByte.toNat) (hfew : vs.length < 2) (m : Memory) :
    ∃ u, (∀ w : World κ φ, w.memory = m →
      execute .sprintf ⟨i, s, w⟩ = .ok () ⟨i, u, { w with memory := m }⟩) ∧
      u.toList = ws ∧ u.capacity = s.capacity := by
  obtain ⟨u, hargs, hu⟩ := formatArguments_eq (κ := κ) (φ := φ) (i := i) hstack hcount
  refine ⟨u, ?_, hu⟩
  rintro w rfl
  simp only [execute, sprintf, bind, EStateM.bind, hargs]
  cases vs with
  | nil => rfl
  | cons dst rest =>
    cases rest with
    | nil => rfl
    | cons format args => exact absurd hfew (by simp)

theorem execute_sprintf (hstack : s.toList = ws ++ (dst :: format :: args) ++ [t])
    (hcount : (dst :: format :: args).length = t.lowByte.toNat) (m : Memory) :
    ∃ u, (∀ w : World κ φ, w.memory = m → execute .sprintf ⟨i, s, w⟩ =
        .ok () ⟨i, u,
          { w with memory := m.writeBlock dst.address (m.formatted format.address args ++ [0]) }⟩) ∧
      u.toList = ws ∧ u.capacity = s.capacity := by
  obtain ⟨u, hargs, hu⟩ := formatArguments_eq (κ := κ) (φ := φ) (i := i) hstack hcount
  refine ⟨u, ?_, hu⟩
  rintro w rfl
  simp only [execute, sprintf, bind, EStateM.bind, hargs, Memory.writeBlock_concat]
  rfl

end Processor

namespace Machine

open Processor

variable {κ φ : Type} [Keyboard κ] [Disk φ] {m : Machine κ φ} {i : Image} {ws vs : List Word}
  {t : Word}

/-- With fewer than two words there is nothing to format. Otherwise the expansion of the format
stands at its destination afterwards, with a terminator behind it, if there is room for it in the
address space. -/
theorem sprintf_writes_expansion (hfaces : m.Faces i .sprintf []) (hshare : m.world.memory.Unshared)
    (hstack : m.stack.toList = ws ++ vs ++ [t]) (hcount : vs.length = t.lowByte.toNat) :
    (vs.length < 2 → m.Leads (i.skip 1) ws m.world.memory) ∧
    ∀ dst format args, vs = dst :: format :: args →
      let text := m.world.memory.formatted format.address args
      ∃ after, m.Leads (i.skip 1) ws after ∧ (text.length < addressSpace →
        m.world.memory.Receives dst.address (text ++ [0]) after ∧
        after.string dst.address = text.takeWhile (· ≠ 0)) := by
  constructor
  · intro hfew
    exact hfaces.leads (by simp) (execute_sprintf_of_lt hstack hcount hfew m.world.memory)
  · rintro dst format args rfl text
    refine ⟨_, hfaces.leads (by simp) (execute_sprintf hstack hcount m.world.memory),
      fun hlength => ?_⟩
    have hroom : (text ++ [0]).length ≤ addressSpace := by simpa using hlength
    have hreceives := Memory.receives_writeBlock hshare dst.address hroom
    exact ⟨hreceives, hreceives.string_eq hlength⟩

/-- The format is its own string argument, its expansion is written over its end, and a character in
the middle of the text is a zero. -/
theorem sprintf_writes_expansion_over_format :
    let start := bare #[184] ⟨#[9, 0x12001, 0x2000, 0x2000, 0x100, 0x704], 6, by decide⟩
    let ends := { Memory.blank (Pool.empty 4096 16) #[#[0x25, 0x73, 0x25, 0x63, 0x21, 0]] with
      mappings := [⟨0x2000, 0⟩] : Memory }
    let m := { start with world := { start.world with memory := ends } }
    let after := m.step.2.world.memory
    m.world.memory.Unshared ∧ m.step.1 = .ok () ∧ m.step.2.stack.toList = [9] ∧
      m.world.memory.Receives 0x2001 [0x25, 0x73, 0x25, 0x63, 0x21, 0, 0x21, 0] after ∧
      after.string 0x2001 = [0x25, 0x73, 0x25, 0x63, 0x21] := by
  intro start ends m after
  have hshare : m.world.memory.Unshared := by simp [m, ends, Memory.Unshared]
  have hfaces : m.Faces ⟨"BARE", #[184], 0⟩ .sprintf [] :=
    ⟨.inr rfl, rfl, 184, [], by decide, by decide⟩
  have hstack : m.stack.toList = [9] ++ [0x12001, 0x2000, 0x2000, 0x100] ++ [0x704] := rfl
  have htext : m.world.memory.formatted 0x2000 [0x2000, 0x100] =
      [0x25, 0x73, 0x25, 0x63, 0x21, 0, 0x21] := by
    decide +kernel
  obtain ⟨n, hleads, hwrites⟩ :=
    (sprintf_writes_expansion hfaces hshare hstack (by decide)).2 _ _ _ rfl
  have hmemory : after = n := hleads.memory
  obtain ⟨hreceives, hstring⟩ :=
    hwrites (by rw [show Word.address 0x2000 = 0x2000 from rfl, htext]; decide)
  rw [← hmemory] at hreceives hstring
  rw [show Word.address 0x2000 = 0x2000 from rfl, htext] at hreceives hstring
  exact ⟨hshare, hleads.result, hleads.stack, hreceives, hstring⟩

end Machine
end LavMachine
