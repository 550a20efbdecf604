import Mathlib
import LavMachine.Proofs.Image.Fetches
import LavMachine.Proofs.Machine.Access
set_option autoImplicit false

namespace LavMachine

theorem Pool.decode_intern {p : Pool} (hsize : 0 < p.capacity)
    (hlimit : p.base + p.capacity ≤ addressSpace) (text : Bytes) :
    Reference.decode (p.intern text).1 = Reference.literal (p.base + p.start text) := by
  have hroom := p.start_add_le hsize text
  rw [intern_of_pos hsize, Reference.decode_literal]
  omega

def Opcode.makesReference : Opcode → Bool
  | .cell _ (.reference _) | .makeReference | .intern => true
  | _ => false

example :
    ((Instruction.core ++ Instruction.calls).toList.filter (·.opcode.makesReference)).map
      (·.mnemonic) =
    ["REFCHAR", "REFINT", "REFLONG", "INTERN", "LOCALREFCHAR", "LOCALREFINT", "LOCALREFLONG",
      "MAKEREF"] := by decide

namespace Processor

variable {κ φ α : Type} {p q : Processor κ φ} {a : α}

theorem onStack_eq_ok {f : Stack.Op α} (h : onStack f p = .ok a q) :
    ∃ t, f p.stack = .ok a t ∧ q = { p with stack := t } := by
  simp only [onStack] at h
  cases hf : f p.stack with
  | ok b t =>
    rw [hf] at h
    cases h
    exact ⟨t, rfl, rfl⟩
  | error e t =>
    rw [hf] at h
    cases h

theorem fetch_eq_ok {f : Image.Fetch α} (h : fetch f p = .ok a q) :
    ∃ j, f p.image = .ok a j ∧ q = { p with image := j } := by
  simp only [fetch] at h
  cases hf : f p.image with
  | ok b j =>
    rw [hf] at h
    cases h
    exact ⟨j, rfl, rfl⟩
  | error e j =>
    rw [hf] at h
    cases h

theorem room_of_push {w : Word} (h : push w p = .ok () q) :
    p.stack.toList.length < p.stack.capacity := by
  obtain ⟨t, hpush, -⟩ := onStack_eq_ok h
  by_contra hfull
  rw [Stack.push_of_le (Nat.not_lt.1 hfull)] at hpush
  cases hpush

theorem rest_of_offset {k : Int16 → Exec κ φ α}
    (hk : ∀ offset p a q, k offset p = .ok a q → q.stack = p.stack)
    (h : (fetch Image.int16 >>= k) p = .ok a q) :
    ∃ (offset : Int16) (tail : Bytes), p.image.rest = Bytes.ofNat 2 offset.toUInt16.toNat ++ tail ∧
      q.stack = p.stack := by
  obtain ⟨offset, p', hoffset, h⟩ := bind_eq_ok h
  obtain ⟨j, hint16, rfl⟩ := fetch_eq_ok hoffset
  obtain ⟨tail, hrest⟩ := Image.rest_of_int16 hint16
  have hstack := hk _ _ _ _ h
  exact ⟨offset, tail, hrest, hstack⟩

theorem operands_of_effectiveAddress {place : Place} {n : Nat}
    (h : effectiveAddress place p = .ok n q) :
    ∃ (offset : Int16) (index : Word) (tail : Bytes),
    p.image.rest = Bytes.ofNat 2 offset.toUInt16.toNat ++ tail ∧
      p.stack.toList = q.stack.toList ++ (if place.indexed then [index] else []) ∧
      q.stack.capacity = p.stack.capacity := by
  have hframe (a : Nat) (p : Processor κ φ) (n : Nat) (q : Processor κ φ)
      (h : (if place.framed then do return (a + (← region).start) % addressSpace
        else pure a : Exec κ φ Nat) p =
        .ok n q) : q.stack = p.stack := by
    split at h <;> cases h <;> rfl
  unfold effectiveAddress at h
  split at h
  · rename_i hindexed
    obtain ⟨index, p', htaken, h⟩ := bind_eq_ok h
    obtain ⟨t, hpop, rfl⟩ := onStack_eq_ok htaken
    obtain ⟨offset, tail, hrest, hstack⟩ := rest_of_offset (fun _ => hframe _) h
    refine ⟨offset, index, tail, hrest, ?_, ?_⟩
    · rw [if_pos hindexed, hstack]
      exact Stack.toList_of_pop hpop
    · rw [hstack]
      exact Stack.takes_pop.capacity_eq hpop
  · rename_i hindexed
    obtain ⟨offset, tail, hrest, hstack⟩ := rest_of_offset (fun _ => hframe _) h
    exact ⟨offset, 0, tail, hrest, by rw [if_neg hindexed, List.append_nil, hstack], by rw [hstack]⟩

end Processor

namespace Machine

open Processor

variable {κ φ : Type} [Keyboard κ] [Disk φ] {m : Machine κ φ} {op : Opcode}

theorem execute_of_step (hop : m.opcode? = some op) (hok : m.step.1 = .ok ()) :
    ∃ (i : Image) (w : World κ φ) (p : Processor κ φ),
      (∀ operand tail, (i.skip 1).rest = operand ++ tail → m.Faces i op operand) ∧
      Processor.execute op ⟨i.skip 1, m.stack, w⟩ = .ok () p := by
  obtain ⟨hlive, i, himage, hopcode⟩ := live_of_opcode? hop
  obtain ⟨bus, hstep⟩ := step_of_opcode? hop himage
  refine ⟨i, { m.world with bus }, ?_⟩
  cases hexecute : Processor.execute op ⟨i.skip 1, m.stack, { m.world with bus }⟩ with
  | ok u p =>
    refine ⟨p, fun operand tail hrest => ⟨hlive, himage, ?_⟩, rfl⟩
    obtain ⟨b, instruction, hbyte, hinstruction, hopcode, -⟩ := Image.byte_of_opcodeAt hopcode
    refine ⟨b, tail, by rw [hinstruction, Option.map_some, hopcode], ?_⟩
    rw [← hrest, Image.rest_skip]
    rw [Image.reads_byte i] at hbyte
    split at hbyte
    · cases hbyte
      cases hbytes : i.rest with
      | nil => simp_all
      | cons b rest => simp
    · cases hbyte
  | error f p =>
    have hskip : ({ i with cursor := i.cursor + 1 } : Image) = i.skip 1 := rfl
    rw [hstep, hskip] at hok
    simp only [bind, EStateM.bind, hexecute] at hok
    cases hok

/-- Every instruction that makes a reference and does not fail has found the cell that it refers
to. -/
theorem refers_of_step (hop : m.opcode? = some op) (hmakes : op.makesReference)
    (hok : m.step.1 = .ok ()) :
    ∃ ws width a k, m.Refers ws width a k := by
  obtain ⟨i, w, p, hfaces, hexecute⟩ := execute_of_step hop hok
  cases op with
  | cell place use =>
    cases use with
    | reference width =>
      obtain ⟨a, q, haddress, hpush⟩ := bind_eq_ok hexecute
      obtain ⟨offset, index, tail, hrest, hstack, hcapacity⟩ :=
        operands_of_effectiveAddress haddress
      have hroom := room_of_push hpush
      rw [hcapacity] at hroom
      exact ⟨_, width, _, _, .cell (.intro (hfaces _ tail hrest) hstack hroom)⟩
    | value | address => simp [Opcode.makesReference] at hmakes
  | makeReference =>
    obtain ⟨x, q, htaken, hpush⟩ := bind_eq_ok hexecute
    obtain ⟨t, hpop, rfl⟩ := onStack_eq_ok htaken
    exact ⟨_, .char, _, _, .word (hfaces [] _ rfl) (Stack.toList_of_pop hpop)⟩
  | intern =>
    obtain ⟨text, q, hfetch, h⟩ := bind_eq_ok hexecute
    obtain ⟨word, q', heffect, hpush⟩ := bind_eq_ok h
    obtain ⟨j, hliteral, rfl⟩ := fetch_eq_ok hfetch
    cases heffect
    obtain ⟨tail, hrest⟩ := Image.rest_of_literal hliteral
    have hrest' : (i.skip 1).rest = text ++ [0] ++ tail := by simpa using hrest
    exact ⟨_, .char, _, _,
      .literal (hfaces _ tail hrest') (Image.zero_notMem_literal hliteral) rfl (room_of_push hpush)⟩
  | _ => simp [Opcode.makesReference] at hmakes

/-- References survive as words, and words as references unless the pool bit hides a width. Whatever
reference an instruction pushes has no frame bit and leads to the cell that the instruction found,
in every frame; that of a literal is the place which the pool has given to it. -/
theorem references_exact :
    (∀ r : Reference, r.addr < addressSpace →
      (r.pool = true ∧ r.width = 1 ∨ r.pool = false ∧ r.width ∈ [1, 2, 4]) →
      Reference.decode r.encode = r) ∧
    (∀ w : Word, (Reference.decode w).encode = w &&& 0xffffff ↔
      w.bit 20 = false ∨ ∀ k ∈ [16, 17, 18, 19, 21, 22], w.bit k = false) ∧
    (∀ (m : Machine κ φ) (op : Opcode), m.opcode? = some op → op.makesReference →
      m.step.1 = .ok () →
      ∃ ws width a k r, m.Refers ws width a k ∧ m.step.2.stack.toList = ws ++ [r] ∧
        (Reference.decode r).width = width.bytes ∧ (Reference.decode r).frame = false ∧
        ∀ start, (Reference.decode r).resolve start = a) ∧
    ∀ (p : Pool) (text : Bytes), 0 < p.capacity → p.base + p.capacity ≤ addressSpace →
      Reference.decode (p.intern text).1 = Reference.literal (p.base + p.start text) ∧
      (p.intern text).1.address = p.base + p.start text := by
  refine ⟨fun r haddr hwidth => ?_, Reference.encode_decode_eq_iff, fun m op hop hmakes hok => ?_,
    fun p text hsize hlimit => ?_⟩
  · refine Reference.decode_encode ⟨haddr, ?_⟩
    obtain ⟨hpool, hwidth⟩ | ⟨hpool, hwidth⟩ := hwidth
    · simpa [hpool] using hwidth
    · simpa [hpool] using hwidth
  · obtain ⟨ws, width, a, k, hrefers⟩ := refers_of_step hop hmakes hok
    obtain ⟨r, hnames, j, hleads⟩ := hrefers.leads
    exact ⟨ws, width, a, k, r, hrefers, hleads.stack, hnames.width, hnames.frame, hnames.resolve⟩
  · have hdecode := Pool.decode_intern hsize hlimit text
    exact ⟨hdecode, congrArg Reference.addr hdecode⟩

/-- A reference to a frame that starts near the end of the address space, a word whose width the
pool bit hides, and a literal that starts the pool over. -/
theorem references_exact_wrapped :
    let start := bare #[0x15, 0xfe, 0xff] ⟨#[9, 5], 2, by decide⟩
    let framed := start.world.memory.setRegion ⟨65534, 65535, by decide, by decide⟩
    let m := { start with world := { start.world with memory := framed } }
    let r : Reference := { addr := 65535, width := 4, frame := true }
    let pool := { Pool.empty 65532 4 with next := 3 }
    Reference.decode r.encode = r ∧ (Reference.decode 0x110000).encode ≠ 0x110000 ∧
      m.step.2.stack.toList = [9, 131073] ∧ (∀ start, (Reference.decode 131073).resolve start = 1) ∧
      (pool.intern [65]).1.address = 65532 := by
  intro start framed m r pool
  have hmade : m.step.2.stack.toList = [9, 131073] := by decide +kernel
  obtain ⟨hsurvives, hwords, hpushed, hpool⟩ := references_exact (κ := Detached) (φ := Detached)
  obtain ⟨ws, width, a, k, w, -, hstack, -, -, hresolve⟩ :=
    hpushed m (.cell ⟨true, true⟩ (.reference .int))
    (by decide +kernel) rfl (by decide +kernel)
  obtain ⟨-, hw⟩ :=
    List.append_inj' (show [9] ++ [131073] = ws ++ [w] from hmade.symm.trans hstack) rfl
  obtain rfl : 131073 = w := List.singleton_inj.1 hw
  have ha : 1 = a := hresolve 0
  refine ⟨hsurvives r (by decide) (.inr ⟨rfl, by decide⟩), ?_, hmade,
    fun start => ha ▸ hresolve start, (hpool pool [65] (by decide) (by decide)).2⟩
  exact fun h => absurd ((hwords 0x110000).1 h) (by decide)

end Machine
end LavMachine
