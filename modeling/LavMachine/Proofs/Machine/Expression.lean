import Mathlib
import LavMachine.Proofs.Machine.Batch
import LavMachine.Proofs.Machine.Location
import LavMachine.Proofs.Word
set_option autoImplicit false

/-!
Expressions in postfix code. Running the code of an expression, one step for each of its nodes,
leaves its value on the stack and nothing else changed, if the stack has room for as many words as
the expression needs at its peak. If it has not, the stack overflows on the way.
-/
namespace LavMachine

def UnaryOp.byte : UnaryOp → UInt8
  | .negate => 0x1c
  | .complement => 0x25
  | .not => 0x29
  | .absolute => 0x8f

def BinaryOp.stackBytes : List (BinaryOp × UInt8) :=
  [(.add, 0x21), (.subtract, 0x22), (.bitAnd, 0x23), (.bitOr, 0x24), (.bitXor, 0x26), (.both, 0x27),
    (.either, 0x28), (.multiply, 0x2a), (.divide, 0x2b), (.modulo, 0x2c), (.shiftLeft, 0x2d),
    (.shiftRight, 0x2e), (.equal, 0x2f), (.notEqual, 0x30), (.lessEqual, 0x31),
    (.greaterEqual, 0x32), (.greater, 0x33), (.less, 0x34)]

def BinaryOp.immediateBytes : List (BinaryOp × UInt8) :=
  [(.add, 0x45), (.subtract, 0x46), (.multiply, 0x47), (.divide, 0x48), (.modulo, 0x49),
    (.shiftLeft, 0x4a), (.shiftRightLogical, 0x4b), (.equal, 0x4c), (.notEqual, 0x4d),
    (.greater, 0x4e), (.less, 0x4f), (.greaterEqual, 0x50), (.lessEqual, 0x51)]

structure Coded (table : List (BinaryOp × UInt8)) where
  op : BinaryOp
  byte : UInt8
  listed : (op, byte) ∈ table

/-- If the opcode computes with words, the tables give it this byte. -/
def Opcode.listed (b : UInt8) : Opcode → Bool
  | .unary op => op.byte == b
  | .binary op => BinaryOp.stackBytes.contains (op, b)
  | .immediate op => BinaryOp.immediateBytes.contains (op, b)
  | _ => true

theorem Instruction.listed_opcode :
    ∀ b : UInt8, ((Instruction.ofByte? b).map (·.opcode)).all (·.listed b) := by
  decide +kernel

theorem UnaryOp.byte_eq_iff {op : UnaryOp} {b : UInt8} :
    op.byte = b ↔ (Instruction.ofByte? b).map (·.opcode) = some (.unary op) := by
  constructor
  · rintro rfl
    cases op <;> rfl
  · intro h
    simpa [h, Opcode.listed] using Instruction.listed_opcode b

theorem BinaryOp.mem_stackBytes_iff {op : BinaryOp} {b : UInt8} :
    (op, b) ∈ stackBytes ↔ (Instruction.ofByte? b).map (·.opcode) = some (.binary op) := by
  have htable : ∀ entry ∈ stackBytes, (Instruction.ofByte? entry.2).map (·.opcode) =
      some (.binary entry.1) := by
    decide +kernel
  refine ⟨htable (op, b), fun h => ?_⟩
  simpa [h, Opcode.listed] using Instruction.listed_opcode b

theorem BinaryOp.mem_immediateBytes_iff {op : BinaryOp} {b : UInt8} :
    (op, b) ∈ immediateBytes ↔ (Instruction.ofByte? b).map (·.opcode) = some (.immediate op) := by
  have htable : ∀ entry ∈ immediateBytes,
      (Instruction.ofByte? entry.2).map (·.opcode) = some (.immediate entry.1) := by
    decide +kernel
  refine ⟨htable (op, b), fun h => ?_⟩
  simpa [h, Opcode.listed] using Instruction.listed_opcode b

inductive Expression where
  | const (w : Word)
  | unary (op : UnaryOp) (e : Expression)
  | binary (op : Coded BinaryOp.stackBytes) (left right : Expression)
  | immediate (op : Coded BinaryOp.immediateBytes) (k : Int16) (e : Expression)

namespace Expression

/-- Operands come before their operation, the left one first. -/
def code : Expression → Bytes
  | .const w => 0x03 :: Bytes.ofNat 4 w.toUInt32.toNat
  | .unary op e => e.code ++ [op.byte]
  | .binary op left right => left.code ++ (right.code ++ [op.byte])
  | .immediate op k e => e.code ++ op.byte :: Bytes.ofNat 2 k.toUInt16.toNat

def size : Expression → Nat
  | .const _ => 1
  | .unary _ e | .immediate _ _ e => e.size + 1
  | .binary _ left right => left.size + (right.size + 1)

/-- The words that an expression has on the stack at once. -/
def peak : Expression → Nat
  | .const _ => 1
  | .unary _ e | .immediate _ _ e => e.peak
  | .binary _ left right => max left.peak (1 + right.peak)

def value : Expression → Int
  | .const w => w.toInt
  | .unary op e => op.value e.value
  | .binary op left right => op.op.value left.value right.value
  | .immediate op k e => op.op.value e.value k.toInt

def word : Expression → Word
  | .const w => w
  | .unary op e => op.eval e.word
  | .binary op left right => op.op.eval left.word right.word
  | .immediate op k e => op.op.eval e.word k.toInt32

theorem toInt_word (e : Expression) : e.word.toInt = e.value := by
  induction e with
  | const w => rfl
  | unary op e ih => rw [word, UnaryOp.toInt_eval, ih, value]
  | binary op left right ihl ihr => rw [word, BinaryOp.toInt_eval, ihl, ihr, value]
  | immediate op k e ih => rw [word, BinaryOp.toInt_eval, ih, value, Int16.toInt_toInt32]

end Expression

namespace Image

variable {i : Image} {b : UInt8} {bytes tail : Bytes}

theorem opcodeAt_of_rest (h : i.rest = b :: tail) :
    i.opcodeAt i.cursor = (Instruction.ofByte? b).map (·.opcode) := by
  have hget : i.bytes[i.cursor]? = some b := by
    have hhead : i.rest.head? = some b := by rw [h, List.head?_cons]
    simpa [rest, List.head?_drop] using hhead
  rw [opcodeAt, hget]
  rfl

theorem rest_skip_append (h : i.rest = bytes ++ tail) : (i.skip bytes.length).rest = tail := by
  rw [rest_skip, h, List.drop_left]

theorem Reads.of_append {α : Type} {n : Nat} {f : Fetch α} {value : Bytes → α}
    (hf : Reads n f value) (h : i.rest = bytes ++ tail) (hlen : bytes.length = n) :
    f i = .ok (value bytes) (i.skip n) := by
  subst hlen
  rw [hf i, h, if_pos (by simp), List.take_left]

theorem int32_of_rest {w : Word} (h : i.rest = Bytes.ofNat 4 w.toUInt32.toNat ++ tail) :
    int32 i = .ok w (i.skip 4) := by
  have hw : Int32.ofNat (Bytes.ofNat 4 w.toUInt32.toNat).toNat = w := by
    rw [Bytes.toNat_ofNat, Nat.mod_eq_of_lt w.toUInt32.toNat_lt]
    exact Int32.toBitVec_inj.1 (by simp)
  rw [reads_int32.of_append h (Bytes.length_ofNat ..), hw]

theorem int16_of_rest {k : Int16} (h : i.rest = Bytes.ofNat 2 k.toUInt16.toNat ++ tail) :
    int16 i = .ok k (i.skip 2) := by
  have hk : Int16.ofNat (Bytes.ofNat 2 k.toUInt16.toNat).toNat = k := by
    rw [Bytes.toNat_ofNat, Nat.mod_eq_of_lt k.toUInt16.toNat_lt]
    exact Int16.toBitVec_inj.1 (by simp)
  rw [reads_int16.of_append h (Bytes.length_ofNat ..), hk]

end Image

namespace Stack

variable {s : Stack}

theorem push_of_taken {t : Stack} (hcapacity : t.capacity = s.capacity)
    (h : t.toList.length < s.toList.length) (w : Word) :
    ∃ u, push w t = .ok () u ∧ u.toList = t.toList ++ [w] ∧ u.capacity = s.capacity := by
  have hle : s.toList.length ≤ s.capacity := by
    rw [length_toList]
    exact s.depth_le
  obtain ⟨u, hpush, hu, hcapacity'⟩ := push_of_lt (s := t) (by omega) w
  exact ⟨u, hpush, hu, hcapacity'.trans hcapacity⟩

end Stack

namespace Processor

variable {κ φ : Type} [Keyboard κ] [Disk φ] {i : Image} {s : Stack} {ws : List Word} {a b : Word}
  {tail : Bytes}

theorem execute_unary (op : UnaryOp) (h : s.toList = ws ++ [a]) :
    ∃ t, (∀ w : World κ φ, execute (.unary op) ⟨i, s, w⟩ = .ok () ⟨i, t, w⟩) ∧
      t.toList = ws ++ [op.eval a] ∧ t.capacity = s.capacity := by
  obtain ⟨t, hpop, rfl, hcapacity⟩ := Stack.pop_concat h
  obtain ⟨u, hpush, hu, hcapacity'⟩ := Stack.push_of_taken hcapacity (by simp [h]) (op.eval a)
  refine ⟨u, fun w => ?_, hu, hcapacity'⟩
  simp only [execute, bind, EStateM.bind, pop, push, onStack, hpop, hpush]

theorem execute_binary (op : BinaryOp) (h : s.toList = ws ++ [a] ++ [b]) :
    ∃ t, (∀ w : World κ φ, execute (.binary op) ⟨i, s, w⟩ = .ok () ⟨i, t, w⟩) ∧
      t.toList = ws ++ [op.eval a b] ∧ t.capacity = s.capacity := by
  obtain ⟨t, hpop, rfl, hcapacity⟩ := Stack.popTwo_concat h
  obtain ⟨u, hpush, hu, hcapacity'⟩ := Stack.push_of_taken hcapacity (by simp [h]) (op.eval a b)
  refine ⟨u, fun w => ?_, hu, hcapacity'⟩
  simp only [execute, bind, EStateM.bind, push, onStack, hpop, hpush]

theorem execute_immediate (op : BinaryOp) {k : Int16}
    (hrest : i.rest = Bytes.ofNat 2 k.toUInt16.toNat ++ tail) (h : s.toList = ws ++ [a]) :
    ∃ t, (∀ w : World κ φ, execute (.immediate op) ⟨i, s, w⟩ = .ok () ⟨i.skip 2, t, w⟩) ∧
      t.toList = ws ++ [op.eval a k.toInt32] ∧ t.capacity = s.capacity := by
  obtain ⟨t, hpop, rfl, hcapacity⟩ := Stack.pop_concat h
  obtain ⟨u, hpush, hu, hcapacity'⟩ :=
    Stack.push_of_taken hcapacity (by simp [h]) (op.eval a k.toInt32)
  refine ⟨u, fun w => ?_, hu, hcapacity'⟩
  simp only [execute, bind, EStateM.bind, fetch, Image.int16_of_rest hrest, pop, push, onStack,
    hpop, hpush]

theorem execute_pushLong {v : Word} (hrest : i.rest = Bytes.ofNat 4 v.toUInt32.toNat ++ tail)
    (h : s.depth < s.capacity) :
    ∃ t, (∀ w : World κ φ, execute (.push .long) ⟨i, s, w⟩ = .ok () ⟨i.skip 4, t, w⟩) ∧
      t.toList = s.toList ++ [v] ∧ t.capacity = s.capacity := by
  obtain ⟨t, hpush, ht, hcapacity⟩ := Stack.push_of_lt (by rwa [Stack.length_toList]) v
  refine ⟨t, fun w => ?_, ht, hcapacity⟩
  simp only [execute, bind, EStateM.bind, literal, fetch, Image.int32_of_rest hrest, push,
    onStack, hpush]

theorem execute_pushLong_full {v : Word} (hrest : i.rest = Bytes.ofNat 4 v.toUInt32.toNat ++ tail)
    (h : s.capacity ≤ s.depth) (w : World κ φ) :
    execute (.push .long) ⟨i, s, w⟩ = .error s.overflow ⟨i.skip 4, s, w⟩ := by
  have hpush := Stack.push_of_le (by rwa [Stack.length_toList]) v
  simp only [execute, bind, EStateM.bind, literal, fetch, Image.int32_of_rest hrest, push,
    onStack, hpush]

end Processor

namespace Machine

variable {κ φ : Type} [Keyboard κ] [Disk φ] {m : Machine κ φ} {i j : Image} {n k : Nat}
  {ws vs : List Word}

/-- The next `n` steps succeed and come to `i` with the live words `ws`; of the world only the log
has changed. -/
structure Reaches (m : Machine κ φ) (n : Nat) (i : Image) (ws : List Word) : Prop where
  runs : m.Runs n
  live : (m.after n).Live
  image : (m.after n).image = some i
  stack : (m.after n).stack.toList = ws
  capacity : (m.after n).stack.capacity = m.stack.capacity
  world : ∃ bus, m.world.bus.Logged bus ∧ (m.after n).world = { m.world with bus }

/-- One of the next `n` steps, the first that fails, overflows the stack. -/
def Overflows (m : Machine κ φ) (n : Nat) : Prop :=
  ∃ k < n, m.Runs k ∧ (m.after k).Faults .stackOverflow

theorem Reaches.trans (h : m.Reaches n i ws) (h' : (m.after n).Reaches k j vs) :
    m.Reaches (n + k) j vs := by
  obtain ⟨bus, hbus, hworld⟩ := h.world
  obtain ⟨bus', hbus', hworld'⟩ := h'.world
  rw [hworld] at hbus' hworld'
  have hadd := m.after_add n k
  exact ⟨h.runs.add h'.runs, hadd ▸ h'.live, hadd ▸ h'.image, hadd ▸ h'.stack,
    hadd ▸ h'.capacity.trans h.capacity, bus', hbus.trans hbus', hadd ▸ hworld'⟩

theorem Reaches.depth_concat {w : Word} (h : m.Reaches n i (m.stack.toList ++ [w])) :
    (m.after n).stack.depth = m.stack.depth + 1 := by
  rw [← Stack.length_toList, h.stack, List.length_append, Stack.length_toList,
    List.length_singleton]

theorem Overflows.mono (h : m.Overflows n) (hle : n ≤ k) : m.Overflows k := by
  obtain ⟨l, hl, hfault⟩ := h
  exact ⟨l, by omega, hfault⟩

theorem Reaches.overflows (h : m.Reaches n i ws) (h' : (m.after n).Overflows k) :
    m.Overflows (n + k) := by
  obtain ⟨l, hl, hruns, hfault⟩ := h'
  exact ⟨n + l, by omega, h.runs.add hruns, m.after_add n l ▸ hfault⟩

variable {op : Opcode} {b : UInt8} {tail : Bytes}

omit [Keyboard κ] [Disk φ] in
theorem Live.phase_ne (h : m.Live) : m.phase ≠ .ended := by
  obtain hready | hrunning := h
  · simp [hready]
  · simp [hrunning]

theorem step_of_rest {t : Stack} {k : Memory} (hlive : m.Live) (himage : m.image = some i)
    (hrest : i.rest = b :: tail) (hop : (Instruction.ofByte? b).map (·.opcode) = some op)
    (hstop : op ≠ .stop) (h : ∀ w : World κ φ, w.memory = m.world.memory →
      Processor.execute op ⟨i.skip 1, m.stack, w⟩ = .ok () ⟨j, t, { w with memory := k }⟩) :
    ∃ bus, m.world.bus.Logged bus ∧
      m.step = (.ok (), ⟨.running, some j, t, { m.world with memory := k, bus }⟩) := by
  obtain ⟨text, hok, -⟩ := Processor.step_of_execute (s := m.stack) (w := m.world)
    ((Image.opcodeAt_of_rest hrest).trans hop)
  refine ⟨_, m.world.bus.logged_log .trace text, ?_⟩
  rw [step_eq_settle hlive himage, hok _ (h _ rfl), beq_eq_false_iff_ne.2 hstop]
  rfl

theorem reaches_of_execute (hlive : m.Live) (himage : m.image = some i) (hrest : i.rest = b :: tail)
    (hop : (Instruction.ofByte? b).map (·.opcode) = some op) (hstop : op ≠ .stop)
    (h : ∃ t, (∀ w : World κ φ, Processor.execute op ⟨i.skip 1, m.stack, w⟩ = .ok () ⟨j, t, w⟩) ∧
      t.toList = ws ∧ t.capacity = m.stack.capacity) : m.Reaches 1 j ws := by
  obtain ⟨t, hexecute, hws, hcapacity⟩ := h
  have hsame (w : World κ φ) (hw : w.memory = m.world.memory) :
      Processor.execute op ⟨i.skip 1, m.stack, w⟩ =
        .ok () ⟨j, t, { w with memory := m.world.memory }⟩ := by
    rw [hexecute w, ← hw]
  obtain ⟨bus, hbus, hstep⟩ := step_of_rest hlive himage hrest hop hstop hsame
  have hafter : m.after 1 = ⟨.running, some j, t, { m.world with bus }⟩ := congrArg Prod.snd hstep
  have hruns : m.Runs 1 := by
    refine ⟨hlive.phase_ne, fun l hl => ?_⟩
    obtain rfl : l = 0 := by omega
    refine ⟨congrArg Prod.fst hstep, ?_⟩
    simp [hafter]
  refine ⟨hruns, ?_, ?_, ?_, ?_, bus, hbus, ?_⟩ <;> rw [hafter]
  · exact .inr rfl
  · exact hws
  · exact hcapacity

theorem overflows_of_execute (hlive : m.Live) (himage : m.image = some i)
    (hrest : i.rest = b :: tail) (hop : (Instruction.ofByte? b).map (·.opcode) = some op)
    (h : ∀ w : World κ φ, ∃ p, Processor.execute op ⟨i.skip 1, m.stack, w⟩ =
      .error m.stack.overflow p) :
    m.Overflows 1 := by
  obtain ⟨text, -, herror⟩ := Processor.step_of_execute (s := m.stack) (w := m.world)
    ((Image.opcodeAt_of_rest hrest).trans hop)
  obtain ⟨p, hexecute⟩ := h { m.world with bus := m.world.bus.log .trace text }
  obtain ⟨bus, -, hsettle⟩ := settle_error i.cursor m.stack.overflow p
  refine ⟨0, Nat.one_pos, ⟨hlive.phase_ne, fun l hl => by omega⟩, _, ?_,
    m.stack.overflow.kind_locate i.cursor⟩
  change m.step.1 = _
  rw [step_eq_settle hlive himage, herror _ _ hexecute, hsettle]

end Machine

namespace Expression

open Machine

variable {κ φ : Type} [Keyboard κ] [Disk φ] {m : Machine κ φ} {i : Image} {tail : Bytes}

theorem reaches (e : Expression) (hlive : m.Live) (himage : m.image = some i)
    (hcode : i.rest = e.code ++ tail) (hroom : m.stack.depth + e.peak ≤ m.stack.capacity) :
    m.Reaches e.size (i.skip e.code.length) (m.stack.toList ++ [e.word]) := by
  -- The code that follows is general, so that an operand's code may be followed by its operation.
  induction e generalizing m i tail with
  | const w =>
    have hrest : i.rest = 0x03 :: (Bytes.ofNat 4 w.toUInt32.toNat ++ tail) := hcode
    have hbytes := (Image.rest_eq_cons hrest).2
    have hone :=
      reaches_of_execute hlive himage hrest rfl (by decide)
        (Processor.execute_pushLong hbytes hroom)
    simpa [code, size, word, Image.skip_skip] using hone
  | unary op e ih =>
    have hcode' : i.rest = e.code ++ op.byte :: tail := by simpa [code] using hcode
    have he := ih hlive himage hcode' hroom
    have hone :=
      reaches_of_execute he.live he.image (Image.rest_skip_append hcode')
        (UnaryOp.byte_eq_iff.1 rfl) (by simp) (Processor.execute_unary op he.stack)
    simpa [code, size, word, Image.skip_skip] using he.trans hone
  | binary op left right ihl ihr =>
    simp only [peak] at hroom
    have hcode' : i.rest = left.code ++ (right.code ++ op.byte :: tail) := by
      simpa [code] using hcode
    have hl := ihl hlive himage hcode' (by omega)
    have hdepth := hl.depth_concat
    have hcode'' := Image.rest_skip_append hcode'
    have hr := ihr hl.live hl.image hcode'' (by rw [hdepth, hl.capacity]; omega)
    have hone := reaches_of_execute hr.live hr.image (Image.rest_skip_append hcode'')
      (BinaryOp.mem_stackBytes_iff.1 op.listed) (by simp)
      (Processor.execute_binary op.op (hr.stack.trans (by rw [hl.stack])))
    simpa [code, size, word, Image.skip_skip, Nat.add_assoc] using hl.trans (hr.trans hone)
  | immediate op k e ih =>
    have hcode' : i.rest = e.code ++ op.byte :: (Bytes.ofNat 2 k.toUInt16.toNat ++ tail) := by
      simpa [code] using hcode
    have he := ih hlive himage hcode' hroom
    have hrest := Image.rest_skip_append hcode'
    have hone :=
      reaches_of_execute he.live he.image hrest (BinaryOp.mem_immediateBytes_iff.1 op.listed)
        (by simp) (Processor.execute_immediate op.op (Image.rest_eq_cons hrest).2 he.stack)
    simpa [code, size, word, Image.skip_skip, Nat.add_assoc] using he.trans hone

theorem overflows (e : Expression) (hlive : m.Live) (himage : m.image = some i)
    (hcode : i.rest = e.code ++ tail) (hfull : m.stack.capacity < m.stack.depth + e.peak) :
    m.Overflows e.size := by
  induction e generalizing m i tail with
  | const w =>
    have hrest : i.rest = 0x03 :: (Bytes.ofNat 4 w.toUInt32.toNat ++ tail) := hcode
    have hbytes := (Image.rest_eq_cons hrest).2
    have hle : m.stack.capacity ≤ m.stack.depth := Nat.le_of_lt_succ hfull
    exact overflows_of_execute hlive himage hrest rfl fun v =>
      ⟨_, Processor.execute_pushLong_full hbytes hle v⟩
  | unary op e ih =>
    have hcode' : i.rest = e.code ++ op.byte :: tail := by simpa [code] using hcode
    exact (ih hlive himage hcode' hfull).mono (Nat.le_succ _)
  | binary op left right ihl ihr =>
    have hcode' : i.rest = left.code ++ (right.code ++ op.byte :: tail) := by
      simpa [code] using hcode
    by_cases hleft : m.stack.depth + left.peak ≤ m.stack.capacity
    · -- The left operand fits, so it is the right one, a word higher, that does not.
      have hl := left.reaches hlive himage hcode' hleft
      have hdepth := hl.depth_concat
      simp only [peak] at hfull
      have hr :=
        ihr hl.live hl.image (Image.rest_skip_append hcode') (by rw [hdepth, hl.capacity]; omega)
      exact hl.overflows (hr.mono (Nat.le_succ _))
    · exact (ihl hlive himage hcode' (Nat.lt_of_not_le hleft)).mono (Nat.le_add_right _ _)
  | immediate op k e ih =>
    have hcode' : i.rest = e.code ++ op.byte :: (Bytes.ofNat 2 k.toUInt16.toNat ++ tail) := by
      simpa [code] using hcode
    exact (ih hlive himage hcode' hfull).mono (Nat.le_succ _)

/-- Where the code of an expression stands at the cursor, running it takes one step for each node.
It pushes the value if the stack has room for the words at the peak, and overflows the stack if it
has not. -/
theorem code_evaluates (e : Expression) (hlive : m.Live) (himage : m.image = some i)
    (hcode : e.code <+: i.rest) :
    (m.stack.depth + e.peak ≤ m.stack.capacity → ∃ w : Word, w.toInt = e.value ∧
      m.Reaches e.size (i.skip e.code.length) (m.stack.toList ++ [w])) ∧
    (m.stack.capacity < m.stack.depth + e.peak → m.Overflows e.size) := by
  obtain ⟨tail, hcode⟩ := hcode
  exact ⟨fun hroom => ⟨e.word, e.toInt_word, e.reaches hlive himage hcode.symm hroom⟩,
    fun hfull => e.overflows hlive himage hcode.symm hfull⟩

/-- A quotient that wraps, a difference that wraps and a negative immediate operand, in the middle
of an image. Three words are enough above the one that is there, two are not. -/
theorem code_evaluates_wrapped :
    let quotient := binary ⟨.divide, 0x2b, by decide⟩ (.const (-2147483648)) (.const (-1))
    let e := immediate ⟨.add, 0x45, by decide⟩ (-7)
      (binary ⟨.subtract, 0x22, by decide⟩ (.const 100) quotient)
    let i : Image := ⟨"BARE", (0 :: 0 :: e.code ++ [0x40]).toArray, 2⟩
    let roomy := { bare #[] ⟨#[5, 0, 0, 0], 1, by decide⟩ with image := some i }
    let tight := { bare #[] ⟨#[5, 0, 0], 1, by decide⟩ with image := some i }
    e.code <+: i.rest ∧ e.value = -2147483555 ∧ e.peak = 3 ∧
      (∃ w : Word, w.toInt = -2147483555 ∧ roomy.Reaches 6 (i.skip 20) [5, w]) ∧
      tight.Overflows 6 := by
  intro quotient e i roomy tight
  have hcode : e.code <+: i.rest := by decide +kernel
  have hvalue : e.value = -2147483555 := by decide +kernel
  have hpeak : e.peak = 3 := by decide
  refine ⟨hcode, hvalue, hpeak, ?_,
    (e.code_evaluates (m := tight) (.inr rfl) rfl hcode).2 (by decide)⟩
  obtain ⟨w, hw, hreaches⟩ := (e.code_evaluates (m := roomy) (.inr rfl) rfl hcode).1 (by decide)
  exact ⟨w, hw.trans hvalue, hreaches⟩

end Expression

end LavMachine
