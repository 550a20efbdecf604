import Mathlib
import LavMachine.Proofs.Machine.Expression
set_option autoImplicit false

namespace LavMachine

theorem unsigned_lt (n : Int) : unsigned n < 2 ^ 32 := by
  simp only [unsigned]
  omega

theorem shiftCount_eq_zero_iff (n : Int) : shiftCount n = 0 ↔ n % 32 = 0 := by
  simp only [shiftCount]
  omega

/-- All operations with an operand in the image but one are also there on the stack. -/
theorem BinaryOp.exists_stackByte {op : BinaryOp} {b : UInt8} (hb : (op, b) ∈ immediateBytes)
    (hop : op ≠ .shiftRightLogical) : ∃ c, (op, c) ∈ stackBytes := by
  have htable : ∀ entry ∈ immediateBytes, entry.1 ≠ .shiftRightLogical →
      ∃ other ∈ stackBytes, other.1 = entry.1 := by decide
  obtain ⟨⟨_, c⟩, hc, rfl⟩ := htable (op, b) hb hop
  exact ⟨c, hc⟩

/-- Zeros come in place of the sign as soon as a negative word is shifted at all. -/
theorem BinaryOp.shiftRightLogical_eq_iff (a b : Word) :
    shiftRightLogical.eval a b = shiftRight.eval a b ↔ 0 ≤ a.toInt ∨ b.toInt % 32 = 0 := by
  have hhigh := a.toInt_lt
  have hlow := a.le_toInt
  rw [← Int32.toInt_inj, toInt_eval, toInt_eval, value, value, ← shiftCount_eq_zero_iff]
  rcases Nat.eq_zero_or_pos (shiftCount b.toInt) with hzero | hpos
  · have hsame : wrap (unsigned a.toInt : Nat) = a.toInt := by
      rw [Word.unsigned_toInt, ← Word.toInt_eq_wrap]
    simp [hzero, hsame]
  · have hdivisor : 2 ≤ 2 ^ shiftCount b.toInt := Nat.le_self_pow hpos.ne' 2
    have hlt := unsigned_lt a.toInt
    have hhalf : unsigned a.toInt / 2 ^ shiftCount b.toInt ≤ unsigned a.toInt / 2 :=
      Nat.div_le_div_left hdivisor (by decide)
    generalize hquotient : unsigned a.toInt / 2 ^ shiftCount b.toInt = q at hhalf ⊢
    have hwrap : wrap q = q := Int.bmod_eq_of_le (by omega) (by omega)
    rw [hwrap]
    by_cases hsign : 0 ≤ a.toInt
    · have hsame : (unsigned a.toInt : Int) = a.toInt := by
        simp only [unsigned]
        omega
      simp [hsign, ← hquotient, hsame]
    · have hnegative : a.toInt / 2 ^ shiftCount b.toInt < 0 :=
        Int.ediv_neg_of_neg_of_pos (by omega) (by positivity)
      have hne : (q : Int) ≠ a.toInt / 2 ^ shiftCount b.toInt := by omega
      simp [hne, hsign, hpos.ne']

namespace Processor

variable {κ φ : Type} [Keyboard κ] [Disk φ] {i : Image} {s : Stack} {tail : Bytes}

theorem execute_pushInt {k : Int16} (hrest : i.rest = Bytes.ofNat 2 k.toUInt16.toNat ++ tail)
    (h : s.depth < s.capacity) :
    ∃ t, (∀ w : World κ φ, execute (.push .int) ⟨i, s, w⟩ = .ok () ⟨i.skip 2, t, w⟩) ∧
      t.toList = s.toList ++ [k.toInt32] ∧ t.capacity = s.capacity := by
  obtain ⟨t, hpush, ht, hcapacity⟩ := Stack.push_of_lt (by rwa [Stack.length_toList]) k.toInt32
  refine ⟨t, fun w => ?_, ht, hcapacity⟩
  simp only [execute, bind, EStateM.bind, literal, fetch, Image.int16_of_rest hrest, pure,
    EStateM.pure, push, onStack, hpush]

end Processor

namespace Machine

variable {κ φ : Type} [Keyboard κ] [Disk φ] {m n : Machine κ φ} {i j : Image} {ws vs : List Word}
  {x : Word} {k : Int16} {op : BinaryOp} {b : UInt8}

structure Matches (m n : Machine κ φ) : Prop where
  stack : m.stack.toList = n.stack.toList
  memory : m.world.memory = n.world.memory
  seed : m.world.seed = n.world.seed

theorem Reaches.matches_iff {p q : Nat} (hm : m.Reaches p i ws) (hn : n.Reaches q j vs)
    (hworld : m.world = n.world) :
    (m.after p).Matches (n.after q) ↔ ws = vs := by
  obtain ⟨_, _, hmworld⟩ := hm.world
  obtain ⟨_, _, hnworld⟩ := hn.world
  constructor
  · intro h
    rw [← hm.stack, h.stack, hn.stack]
  · intro h
    exact ⟨by rw [hm.stack, hn.stack, h], by rw [hmworld, hnworld, hworld],
      by rw [hmworld, hnworld, hworld]⟩

theorem reaches_immediate (hlive : m.Live) (himage : m.image = some i)
    (hstack : m.stack.toList = ws ++ [x]) (hb : (op, b) ∈ BinaryOp.immediateBytes)
    (hcode : b :: Bytes.ofNat 2 k.toUInt16.toNat <+: i.rest) :
    m.Reaches 1 (i.skip 3) (ws ++ [op.eval x k.toInt32]) := by
  obtain ⟨tail, hcode⟩ := hcode
  have hrest : i.rest = b :: (Bytes.ofNat 2 k.toUInt16.toNat ++ tail) := hcode.symm
  have hone :=
    reaches_of_execute hlive himage hrest (BinaryOp.mem_immediateBytes_iff.1 hb) (by simp)
    (Processor.execute_immediate op (Image.rest_eq_cons hrest).2 hstack)
  rwa [Image.skip_skip] at hone

theorem reaches_pushed (hlive : m.Live) (himage : m.image = some i)
    (hstack : m.stack.toList = ws ++ [x]) (hroom : m.stack.depth < m.stack.capacity)
    (hb : (op, b) ∈ BinaryOp.stackBytes)
    (hcode : 0x02 :: (Bytes.ofNat 2 k.toUInt16.toNat ++ [b]) <+: i.rest) :
    m.Reaches 2 (i.skip 4) (ws ++ [op.eval x k.toInt32]) := by
  obtain ⟨tail, hcode⟩ := hcode
  have hrest : i.rest = 0x02 :: (Bytes.ofNat 2 k.toUInt16.toNat ++ b :: tail) := by
    simpa using hcode.symm
  have hoperand := (Image.rest_eq_cons hrest).2
  have hpush :=
    reaches_of_execute hlive himage hrest rfl (by decide) (Processor.execute_pushInt hoperand hroom)
  have hnext : ((i.skip 1).skip 2).rest = b :: tail := Image.rest_skip_append hoperand
  have happly :=
    reaches_of_execute hpush.live hpush.image hnext (BinaryOp.mem_stackBytes_iff.1 hb) (by simp)
    (Processor.execute_binary op (hpush.stack.trans (by rw [hstack])))
  simpa only [Image.skip_skip] using hpush.trans happly

/-- An operation with its right operand in the image comes to the same state as pushing the operand
and the operation on the stack, and all but the shift to the right are there in both forms. With an
operand in the image that shift is the logical one; it agrees with the one on the stack exactly for
words without a sign and for counts that shift by nothing. -/
theorem immediate_matches_pushed (hlive : m.Live) (hstack : m.stack.toList = ws ++ [x])
    (hroom : m.stack.depth < m.stack.capacity) (k : Int16) (hb : (op, b) ∈ BinaryOp.immediateBytes)
    (hcode : b :: Bytes.ofNat 2 k.toUInt16.toNat <+: i.rest) :
    let short := { m with image := some i }
    let long (j : Image) := { m with image := some j }
    let pushed (c : UInt8) := 0x02 :: (Bytes.ofNat 2 k.toUInt16.toNat ++ [c])
    short.Runs 1 ∧
    (op ≠ .shiftRightLogical → ∃ c, (op, c) ∈ BinaryOp.stackBytes) ∧
    (∀ j c, (op, c) ∈ BinaryOp.stackBytes → pushed c <+: j.rest →
      (long j).Runs 2 ∧ (short.after 1).Matches ((long j).after 2)) ∧
    (op = .shiftRightLogical →
      (∃ u : Word, u.toInt = wrap (unsigned x.toInt / 2 ^ shiftCount k.toInt : Nat) ∧
        (short.after 1).stack.toList = ws ++ [u]) ∧
      ∀ j c, (.shiftRight, c) ∈ BinaryOp.stackBytes → pushed c <+: j.rest → (long j).Runs 2 ∧
        ((short.after 1).Matches ((long j).after 2) ↔ 0 ≤ x.toInt ∨ k.toInt % 32 = 0)) := by
  intro short long pushed
  have hshort : short.Reaches 1 (i.skip 3) (ws ++ [op.eval x k.toInt32]) :=
    reaches_immediate hlive rfl hstack hb hcode
  have hlong {other : BinaryOp} (j : Image) (c : UInt8) (hc : (other, c) ∈ BinaryOp.stackBytes)
      (hpushed : pushed c <+: j.rest) :
      (long j).Reaches 2 (j.skip 4) (ws ++ [other.eval x k.toInt32]) :=
    reaches_pushed hlive rfl hstack hroom hc hpushed
  refine ⟨hshort.runs, BinaryOp.exists_stackByte hb, fun j c hc hpushed => ?_, ?_⟩
  · have hsteps := hlong j c hc hpushed
    exact ⟨hsteps.runs, (hshort.matches_iff hsteps rfl).2 rfl⟩
  · rintro rfl
    refine ⟨⟨_, ?_, hshort.stack⟩, fun j c hc hpushed => ?_⟩
    · rw [BinaryOp.toInt_eval, Int16.toInt_toInt32, BinaryOp.value]
    · have hsteps := hlong j c hc hpushed
      refine ⟨hsteps.runs, ?_⟩
      rw [hshort.matches_iff hsteps rfl, List.append_cancel_left_eq, List.singleton_inj,
        BinaryOp.shiftRightLogical_eq_iff, Int16.toInt_toInt32]

/-- Dividing by zero comes to the same either way. Shifting -16 by 28 places does not: it leaves 15,
or its sign. -/
theorem immediate_matches_pushed_signed :
    let m := bare #[] ⟨#[7, -16, 0], 2, by decide⟩
    let run (code : Array UInt8) := { m with image := some ⟨"BARE", code, 0⟩ }
    ((run #[0x48, 0, 0]).after 1).Matches ((run #[0x02, 0, 0, 0x2b]).after 2) ∧
      ((run #[0x4b, 28, 0]).after 1).stack.toList = [7, 15] ∧
      ¬ ((run #[0x4b, 28, 0]).after 1).Matches ((run #[0x02, 28, 0, 0x2e]).after 2) := by
  intro m run
  have hlive : m.Live := .inr rfl
  have hwords : m.stack.toList = [7] ++ [-16] := rfl
  have hdivision : (.divide, 0x48) ∈ BinaryOp.immediateBytes := by decide
  have hdivisor : 0x48 :: Bytes.ofNat 2 (0 : Int16).toUInt16.toNat <+: Image.rest
      ⟨"BARE", #[0x48, 0, 0], 0⟩ := by
    decide
  have hshifting : (.shiftRightLogical, 0x4b) ∈ BinaryOp.immediateBytes := by decide
  have hcount : 0x4b :: Bytes.ofNat 2 (28 : Int16).toUInt16.toNat <+: Image.rest
      ⟨"BARE", #[0x4b, 28, 0], 0⟩ := by
    decide
  obtain ⟨-, -, hdivide, -⟩ :=
    immediate_matches_pushed hlive hwords (by decide) 0 hdivision hdivisor
  obtain ⟨-, -, -, hshift⟩ := immediate_matches_pushed hlive hwords (by decide) 28 hshifting hcount
  obtain ⟨⟨u, hu, hstack⟩, hdiffer⟩ := hshift rfl
  obtain rfl : u = 15 := Int32.toInt_inj.1 (hu.trans (by decide))
  have hcode := hdiffer ⟨"BARE", #[0x02, 28, 0, 0x2e], 0⟩ 0x2e (by decide) (by decide)
  refine ⟨(hdivide ⟨"BARE", #[0x02, 0, 0, 0x2b], 0⟩ 0x2b (by decide) (by decide)).2, hstack, ?_⟩
  rw [hcode.2]
  decide

end Machine
end LavMachine
