import Mathlib
import LavMachine.Proofs.Machine.Stable
import LavMachine.Proofs.Stack
set_option autoImplicit false

/-!
Every instruction respects every stable relation. Two processors that run the same image from the
same offset, with the same live words on stacks of one capacity and in related worlds, come out the
same way and stay so related. The image's bytes and the stack's capacity never change.
-/
namespace LavMachine

namespace Image

abbrev Over (bytes : Array UInt8) : Image → Image → Prop := Diagonal fun i => i.bytes = bytes

variable {bytes : Array UInt8}

theorem respects_take (width : Nat) : Respects (Over bytes) (take width) := by
  rintro i j ⟨rfl, hb⟩
  unfold take
  split
  · exact .ok ⟨rfl, hb⟩
  · exact .error ⟨rfl, hb⟩

theorem respects_byte : Respects (Over bytes) byte :=
  (respects_take 1).bind fun _ => Respects.pure _

theorem respects_int16 : Respects (Over bytes) int16 :=
  (respects_take 2).bind fun _ => Respects.pure _

theorem respects_target : Respects (Over bytes) target :=
  (respects_take 3).bind fun _ => Respects.pure _

theorem respects_int32 : Respects (Over bytes) int32 :=
  (respects_take 4).bind fun _ => Respects.pure _

theorem respects_address : Respects (Over bytes) address :=
  (respects_take 2).bind fun _ => Respects.pure _

theorem respects_literal : Respects (Over bytes) literal := by
  have hfrom (fuel : Nat) (read : Bytes) : Respects (Over bytes) (literalFrom fuel read) := by
    induction fuel generalizing read with
    | zero => exact Respects.pure _
    | succ fuel ih =>
      refine respects_byte.bind fun b => ?_
      split
      · exact Respects.pure _
      · exact ih _
  rintro i j ⟨rfl, hb⟩
  exact hfrom _ _ i i ⟨rfl, hb⟩

theorem respects_jump (offset : Nat) : Respects (Over bytes) (jump offset) :=
  Respects.modify fun _ _ h => ⟨by rw [h.1], h.2⟩

theorem respects_cursor : Respects (Over bytes) (do return (← get).cursor : Fetch Nat) :=
  Respects.get (fun _ _ h => by rw [h.1]) fun _ => Respects.pure _

end Image

theorem SystemCall.arity_lt_moveLimit {κ φ : Type} [Keyboard κ] [Disk φ] (c : SystemCall) :
    (c.routine : Routine κ φ).arity < Stack.moveLimit := by
  have harity : (c.routine : Routine κ φ).arity ≤ 6 := by
    cases c <;> exact Nat.le_of_ble_eq_true rfl
  exact Nat.lt_of_le_of_lt harity (by decide)

namespace Processor

variable {κ φ α : Type}

structure Related (bytes : Array UInt8) (capacity : Nat) (R : World κ φ → World κ φ → Prop)
    (p q : Processor κ φ) : Prop where
  image : Image.Over bytes p.image q.image
  stack : Stack.Same capacity p.stack q.stack
  world : R p.world q.world

variable {bytes : Array UInt8} {capacity : Nat} {R : World κ φ → World κ φ → Prop}

theorem respects_fetch {f : Image.Fetch α} (hf : Respects (Image.Over bytes) f) :
    Respects (Related bytes capacity R) (fetch f) := by
  rintro ⟨i, s, w⟩ ⟨j, t, v⟩ h
  have hij := h.image
  simp only [fetch]
  cases hi : f i with
  | ok a i' =>
    obtain ⟨j', hj, h'⟩ := hf.of_ok hij hi
    rw [hj]
    exact .ok ⟨h', h.stack, h.world⟩
  | error e i' =>
    obtain ⟨j', hj, h'⟩ := hf.of_error hij hi
    rw [hj]
    exact .error ⟨h', h.stack, h.world⟩

theorem respects_onStack {f : Stack.Op α} (hf : Respects (Stack.Same capacity) f) :
    Respects (Related bytes capacity R) (onStack f) := by
  rintro ⟨i, s, w⟩ ⟨j, t, v⟩ h
  have hst := h.stack
  simp only [onStack]
  cases hs : f s with
  | ok a s' =>
    obtain ⟨t', ht, h'⟩ := hf.of_ok hst hs
    rw [ht]
    exact .ok ⟨h.image, h', h.world⟩
  | error e s' =>
    obtain ⟨t', ht, h'⟩ := hf.of_error hst hs
    rw [ht]
    exact .error ⟨h.image, h', h.world⟩

theorem respects_effect {f : Effect κ φ α} (hf : Respects R f) :
    Respects (Related bytes capacity R) (effect f) := by
  rintro ⟨i, s, w⟩ ⟨j, t, v⟩ h
  have hwv := h.world
  simp only [effect]
  cases hw : f w with
  | ok a w' =>
    obtain ⟨v', hv, h'⟩ := hf.of_ok hwv hw
    rw [hv]
    exact .ok ⟨h.image, h.stack, h'⟩
  | error e w' =>
    obtain ⟨v', hv, h'⟩ := hf.of_error hwv hw
    rw [hv]
    exact .error ⟨h.image, h.stack, h'⟩

theorem respects_push (w : Word) : Respects (Related bytes capacity R) (push w) :=
  respects_onStack (Stack.respects_push w)

theorem respects_pop : Respects (Related bytes capacity R) pop :=
  respects_onStack Stack.respects_pop

theorem respects_jump (offset : Nat) : Respects (Related bytes capacity R) (jump offset) :=
  respects_fetch (Image.respects_jump offset)

theorem respects_literal (w : Width) : Respects (Related bytes capacity R) (literal w) := by
  cases w with
  | char => exact (respects_fetch Image.respects_byte).bind fun _ => Respects.pure _
  | int => exact (respects_fetch Image.respects_int16).bind fun _ => Respects.pure _
  | long => exact respects_fetch Image.respects_int32

theorem respects_formatArguments : Respects (Related bytes capacity R) formatArguments := by
  refine respects_pop.bind fun word => ?_
  exact (respects_onStack (Stack.respects_popBlock (Stack.toNat_lt_moveLimit _))).bind fun _ =>
    Respects.pure _

theorem respects_popArguments (popping : Popping) {arity : Nat} (harity : arity < Stack.moveLimit) :
    Respects (Related bytes capacity R) (popArguments popping arity) := by
  cases popping with
  | each => exact respects_onStack (Stack.respects_popEach arity)
  | block => exact respects_onStack (Stack.respects_popBlock harity)

theorem respects_call {r : Routine κ φ} (harity : r.arity < Stack.moveLimit)
    (hr : r.body.Respects R) :
    Respects (Related bytes capacity R) (call r) := by
  obtain ⟨popping, arity, body⟩ := r
  refine (respects_popArguments popping harity).bind fun args => ?_
  cases body with
  | procedure run => exact respects_effect (hr args.get)
  | function run => exact (respects_effect (hr args.get)).bind fun _ => respects_push _

variable [Keyboard κ] [Disk φ]

theorem respects_region (h : World.Stable R) : Respects (Related bytes capacity R) region :=
  respects_effect (h.readMemory _)

theorem respects_readMemory (h : World.Stable R) (f : Memory → α) :
    Respects (Related bytes capacity R) (effect (World.readMemory f)) :=
  respects_effect (h.readMemory f)

theorem respects_setRegion (h : World.Stable R) (r : Region) :
    Respects (Related bytes capacity R) (setRegion r) :=
  respects_effect (Respects.modify fun _ _ hr => h.setRegion r hr)

theorem respects_changeMemory (h : World.Stable R) {f : Memory → Memory}
    (hf : ∀ m : Memory, m.Writes (f m)) :
    Respects (Related bytes capacity R) (changeMemory f) :=
  respects_effect (h.changeMemory hf)

theorem respects_effectiveAddress (h : World.Stable R) (place : Place) :
    Respects (Related bytes capacity R) (effectiveAddress place) := by
  obtain ⟨indexed, framed⟩ := place
  have hoffset : Respects (Related bytes capacity R) (fetch Image.int16) :=
    respects_fetch Image.respects_int16
  cases indexed with
  | true =>
    refine respects_pop.bind fun index => hoffset.bind fun offset => ?_
    cases framed with
    | true => exact (respects_region h).bind fun _ => Respects.pure _
    | false => exact Respects.pure _
  | false =>
    refine (Respects.pure 0).bind fun index => hoffset.bind fun offset => ?_
    cases framed with
    | true => exact (respects_region h).bind fun _ => Respects.pure _
    | false => exact Respects.pure _

theorem respects_increment (h : World.Stable R) (delta : Word) (old : Bool) :
    Respects (Related bytes capacity R) (increment delta old) := by
  refine respects_pop.bind fun word => (respects_region h).bind fun frame => ?_
  refine (respects_readMemory h _).bind fun before => ?_
  exact (respects_changeMemory h fun m => m.writes_setBytes _ _ _).bind fun _ => respects_push _

theorem respects_popParameters (h : World.Stable R) (frame count : Nat) :
    Respects (Related bytes capacity R) (popParameters frame count) := by
  induction count with
  | zero => exact Respects.pure _
  | succ count ih =>
    refine respects_pop.bind fun value => ?_
    exact (respects_changeMemory h fun m => m.writes_setBytes _ _ _).bind fun _ => ih

theorem respects_enter (h : World.Stable R) : Respects (Related bytes capacity R) enter := by
  refine (respects_region h).bind fun caller => ?_
  refine (respects_changeMemory h fun m => m.writes_setBytes _ _ _).bind fun _ => ?_
  refine (respects_fetch Image.respects_address).bind fun size => ?_
  refine (respects_fetch Image.respects_byte).bind fun count => ?_
  exact (respects_setRegion h _).bind fun _ => respects_popParameters h _ _

theorem respects_leave (h : World.Stable R) : Respects (Related bytes capacity R) leave := by
  refine (respects_region h).bind fun frame => (respects_readMemory h _).bind fun offset => ?_
  refine (respects_readMemory h _).bind fun caller => ?_
  exact (respects_setRegion h _).bind fun _ => respects_jump _

theorem respects_copyData (h : World.Stable R) (a count : Nat) :
    Respects (Related bytes capacity R) (copyData a count) := by
  induction count generalizing a with
  | zero => exact Respects.pure _
  | succ count ih =>
    refine (respects_fetch Image.respects_byte).bind fun b => ?_
    exact (respects_effect (Respects.modify fun _ _ hr => h.setOwnByte a b hr)).bind fun _ => ih _

theorem respects_printf (h : World.Stable R) : Respects (Related bytes capacity R) printf := by
  refine respects_formatArguments.bind fun args => ?_
  have hshow : Respects (Related bytes capacity R) (effect (World.type (.update 0))) :=
    respects_effect (h.type _)
  split
  · refine (respects_readMemory h _).bind fun codes => ?_
    exact (respects_effect (Respects.forM (fun code => h.type _) _)).bind fun _ => hshow
  · exact hshow

theorem respects_sprintf (h : World.Stable R) : Respects (Related bytes capacity R) sprintf := by
  refine respects_formatArguments.bind fun args => ?_
  split
  · exact respects_changeMemory h fun m => (m.writesIn_terminated _ _ _).writes
  · exact Respects.pure _

theorem respects_execute (h : World.Stable R) (op : Opcode) :
    Respects (Related bytes capacity R) (execute op) := by
  cases op with
  | nop => exact Respects.pure _
  | stop => exact Respects.pure _
  | push w => exact (respects_literal w).bind fun _ => respects_push _
  | cell place use =>
    refine (respects_effectiveAddress h place).bind fun a => ?_
    cases use with
    | value w => exact (respects_readMemory h _).bind fun _ => respects_push _
    | reference w => exact respects_push _
    | address => exact respects_push _
  | intern =>
    refine (respects_fetch Image.respects_literal).bind fun text => ?_
    refine (respects_effect (Respects.modifyGet fun w v hr => ?_)).bind fun _ => respects_push _
    exact ⟨by rw [h.memory hr], h.setPool text hr⟩
  | base plane =>
    refine (respects_effect ?_).bind fun config => respects_push _
    exact Respects.get (fun _ _ hr => by rw [h.config hr]) fun _ => Respects.pure _
  | unary op => exact respects_pop.bind fun _ => respects_push _
  | binary op => exact (respects_onStack Stack.respects_popTwo).bind fun _ => respects_push _
  | immediate op =>
    exact (respects_fetch Image.respects_int16).bind fun _ => respects_pop.bind fun _ =>
      respects_push _
  | increment delta old => exact respects_increment h delta old
  | store =>
    refine respects_pop.bind fun value => respects_pop.bind fun word =>
      (respects_region h).bind fun frame => ?_
    exact (respects_changeMemory h fun m => m.writes_setBytes _ _ _).bind fun _ => respects_push _
  | dereference =>
    exact respects_pop.bind fun _ => (respects_readMemory h _).bind fun _ => respects_push _
  | makeReference => exact respects_pop.bind fun _ => respects_push _
  | drop => exact respects_pop.bind fun _ => Respects.pure _
  | branch onZero =>
    refine (respects_fetch Image.respects_target).bind fun target => ?_
    refine (respects_onStack Stack.respects_peekTop).bind fun top => ?_
    split
    · exact respects_jump _
    · exact Respects.pure _
  | jump => exact (respects_fetch Image.respects_target).bind fun _ => respects_jump _
  | mark => exact (respects_fetch Image.respects_address).bind fun _ => respects_setRegion h _
  | invoke =>
    refine (respects_fetch Image.respects_target).bind fun target => ?_
    refine (respects_fetch Image.respects_cursor).bind fun saved =>
      (respects_region h).bind fun frame => ?_
    exact (respects_changeMemory h fun m => m.writes_setOffset _ _).bind fun _ => respects_jump _
  | entry => exact respects_enter h
  | leave => exact respects_leave h
  | dataInit =>
    refine (respects_fetch Image.respects_address).bind fun a => ?_
    exact (respects_fetch Image.respects_address).bind fun count => respects_copyData h a count
  | invalid => exact Respects.throw _
  | printf => exact respects_printf h
  | sprintf => exact respects_sprintf h
  | call c => exact respects_call c.arity_lt_moveLimit (h.routine c)

omit [Keyboard κ] [Disk φ] in
theorem toList_eq_ofFn {count : Nat} (v : Vector Word count) : v.toList = List.ofFn v.get := by
  apply List.ext_getElem
  · simp
  · intro n _ _
    simp [Vector.get_eq_getElem]

omit [Keyboard κ] [Disk φ] in
/-- Either way of popping takes the arguments off the stack, in the order in which they were
pushed. -/
theorem exists_popArguments (popping : Popping) {arity : Nat} (harity : arity < Stack.moveLimit) :
    ∃ x : Stack.Op (Vector Word arity), (popArguments popping arity : Exec κ φ _) = onStack x ∧
      Stack.Takes arity x ∧ ∀ s v t, x s = .ok v t → s.toList = t.toList ++ List.ofFn v.get := by
  cases popping with
  | each =>
    refine ⟨_, rfl, Stack.takes_popEach arity, fun s v t h => ?_⟩
    rw [← toList_eq_ofFn, Stack.toList_of_popEach h]
  | block =>
    refine ⟨_, rfl, Stack.takes_popBlock harity, fun s v t h => ?_⟩
    rw [← toList_eq_ofFn, Stack.toList_of_popBlock harity h]

theorem respects_step (h : World.Stable R) : Respects (Related bytes capacity R) step := by
  refine (respects_fetch Image.respects_cursor).bind fun offset => ?_
  refine (respects_fetch Image.respects_byte).bind fun byte => ?_
  split
  · exact Respects.throw _
  · refine (respects_effect (h.log _ _)).bind fun _ => ?_
    exact (respects_execute h _).bind fun _ => Respects.pure _

end Processor
end LavMachine
