import Mathlib
import LavMachine.Proofs.Image
import LavMachine.Proofs.Machine.Invocation
import LavMachine.Proofs.Machine.Refusal
set_option autoImplicit false

/-!
The signature of every instruction: how many operand bytes it reads, how many words it takes off the
stack and how many it puts back. Its operands and the words that it needs decide alone whether an
instruction succeeds and where the program goes on; the only other thing that can stop it is the
refusal of a peripheral it waits for.
-/
namespace LavMachine

variable {κ φ α β : Type}

def SystemCall.pops : SystemCall → Nat
  | .getChar | .refresh | .clearScreen | .random | .inkey | .ticks | .fillArea => 0
  | .putChar | .stringLength | .setScreen | .updateLcd | .delay | .seedRandom | .isClass _
  | .toLower | .toUpper
  | .closeFile | .tellFile | .atEndOfFile | .rewindFile | .getByte | .makeDirectory | .deleteFile
  | .changeDirectory | .checkKey | .pickFile | .getTime | .setTime | .getWord | .transform
  | .releaseKey | .cosine | .sine => 1
  | .copyString | .locate | .getPoint | .appendString | .findChar | .compareStrings | .findString
  | .openFile | .putByte | .checksum => 2
  | .point | .fillMemory | .copyMemory | .moveMemory | .seekFile | .mask => 3
  | .textOut | .readFile | .writeFile => 4
  | .rectangle _ | .line | .circle => 5
  | .writeBlock | .box | .ellipse | .getBlock => 6

def SystemCall.pushes : SystemCall → Nat
  | .getChar | .stringLength | .random | .inkey | .getPoint | .isClass _ | .findChar
  | .compareStrings
  | .findString | .toLower | .toUpper | .openFile | .readFile | .writeFile | .seekFile | .tellFile
  | .atEndOfFile | .getByte | .putByte | .makeDirectory | .deleteFile | .changeDirectory | .ticks
  | .checkKey | .checksum | .pickFile | .getWord | .cosine | .sine => 1
  | _ => 0

namespace Opcode

def operandSize : Opcode → Bytes → Nat
  | .push w, _ => w.bytes
  | .cell .., _ | .immediate _, _ | .mark, _ => 2
  | .branch _, _ | .jump, _ | .invoke, _ | .entry, _ => 3
  | .intern, bytes => Image.literalSize bytes
  | .dataInit, bytes => Bytes.toNat ((bytes.drop 2).take 2) + 2 + 2
  | _, _ => 0

/-- Words taken off the stack. A function says in its third operand byte how many parameters it has,
and the top word of a formatting call how many arguments lie below it. -/
def pops : Opcode → Bytes → List Word → Nat
  | .cell place _, _, _ => if place.indexed then 1 else 0
  | .unary _, _, _ | .immediate _, _, _ | .increment .., _, _ | .dereference, _, _
  | .makeReference, _, _ | .drop, _, _ => 1
  | .binary _, _, _ | .store, _, _ => 2
  | .entry, bytes, _ => ((bytes.drop 2).headD 0).toNat
  | .printf, _, words | .sprintf, _, words => (words.getLastD 0).lowByte.toNat + 1
  | .call c, _, _ => c.pops
  | _, _, _ => 0

/-- Words that have to be on the stack; a branch looks at one and leaves it there. -/
def needs : Opcode → Bytes → List Word → Nat
  | .branch _, _, _ => 1
  | op, bytes, words => op.pops bytes words

def pushes : Opcode → Nat
  | .push _ | .cell .. | .intern | .base _ | .unary _ | .binary _ | .immediate _ | .increment ..
  | .store | .dereference | .makeReference => 1
  | .call c => c.pushes
  | _ => 0

def Refused [Keyboard κ] [Disk φ] (op : Opcode) (words : List Word) (w : World κ φ) : Prop :=
  match op with
  | .call c => c.Refused words w
  | _ => False

/-- Where the program goes on after the instruction whose operands start at the cursor. -/
def destination (op : Opcode) (i : Image) (words : List Word) (m : Memory) : Nat :=
  match op with
  | .jump | .invoke => Bytes.toNat (i.rest.take 3)
  | .branch onZero =>
    if (words.getLastD 0 == 0) == onZero then Bytes.toNat (i.rest.take 3) else i.cursor + 3
  | .leave => m.getOffset m.region.start
  | op => i.cursor + op.operandSize i.rest

end Opcode

structure Signature where
  reads : Nat
  needs : Nat
  pops : Nat
  pushes : Nat
  refused : Prop

def Opcode.signature [Keyboard κ] [Disk φ] (op : Opcode) (bytes : Bytes) (words : List Word)
    (w : World κ φ) : Signature :=
  ⟨op.operandSize bytes, op.needs bytes words, op.pops bytes words, op.pushes, op.Refused words w⟩

namespace Processor

/-- The ways in which a computation of the given signature can come out, from image `i` and stack
`s`; when it succeeds the image is `j`. -/
inductive Meets (g : Signature) (i j : Image) (s : Stack) :
    EStateM.Result Fault (Processor κ φ) α → Prop where
  | done {a : α} {t : Stack} {w : World κ φ} :
    ¬ g.refused → g.reads ≤ i.rest.length → g.needs ≤ s.depth →
    t.toList.take (s.depth - g.pops) = s.toList.take (s.depth - g.pops) →
    t.depth + g.pops = s.depth + g.pushes → t.capacity = s.capacity →
    Meets g i j s (.ok a ⟨j, t, w⟩)
  | pastEnd {offset : Nat} {p : Processor κ φ} : i.rest.length < g.reads →
    Meets g i j s (.error (Image.pastEnd offset) p)
  | underflow {p : Processor κ φ} : s.depth < g.needs → Meets g i j s (.error Stack.underflow p)
  | overflow {p : Processor κ φ} :
    ¬ g.refused → g.needs ≤ s.depth → s.capacity + g.pops < s.depth + g.pushes →
    Meets g i j s (.error s.overflow p)
  | refused {e : DeviceFailure} {p : Processor κ φ} : g.refused → g.needs ≤ s.depth →
    Meets g i j s (.error e.fault p)

namespace Meets

variable {g : Signature} {i j : Image} {s : Stack} {w : World κ φ}

theorem pure {refused : Prop} (h : ¬ refused) (a : α) :
    Meets ⟨0, 0, 0, 0, refused⟩ i i s ((Pure.pure a : Exec κ φ α) ⟨i, s, w⟩) :=
  .done h (Nat.zero_le _) (Nat.zero_le _) rfl rfl rfl

theorem push {refused : Prop} (hserved : ¬ refused) (v : Word) :
    Meets ⟨0, 0, 0, 1, refused⟩ i i s ((Processor.push v : Exec κ φ Unit) ⟨i, s, w⟩) := by
  simp only [Processor.push, onStack]
  by_cases h : s.toList.length < s.capacity
  · obtain ⟨t, hpush, ht, hcapacity⟩ := Stack.push_of_lt h v
    rw [hpush]
    refine .done hserved (Nat.zero_le _) (Nat.zero_le _) ?_ ?_ hcapacity
    · simp [ht, ← Stack.length_toList]
    · simp [ht, ← Stack.length_toList]
  · rw [Stack.push_of_le (by omega)]
    rw [Stack.length_toList] at h
    exact .overflow hserved (Nat.zero_le _) (by simp only; omega)

theorem fetch {f : Image.Fetch β} {n offset : Nat} {b : β} {i' : Image}
    (hf : f i = if n ≤ i.rest.length then .ok b (i.skip n) else .error (Image.pastEnd offset) i')
    (r : Nat) (hr : g.reads = r + n) {k : β → Exec κ φ α}
    (hk : Meets { g with reads := r } (i.skip n) j s (k b ⟨i.skip n, s, w⟩)) :
    Meets g i j s ((Processor.fetch f >>= k) ⟨i, s, w⟩) := by
  simp only [bind, EStateM.bind, Processor.fetch, hf]
  by_cases h : n ≤ i.rest.length
  · simp only [h, if_true]
    generalize k b ⟨i.skip n, s, w⟩ = result at hk
    have hlen : (i.skip n).rest.length = i.rest.length - n := by simp
    cases hk with
    | done hserved hreads hneeds hkept hdepth hcapacity =>
      simp only at hreads
      exact .done hserved (by omega) hneeds hkept hdepth hcapacity
    | pastEnd hreads =>
      simp only at hreads
      exact .pastEnd (by omega)
    | underflow hneeds => exact .underflow hneeds
    | overflow hserved hneeds hroom => exact .overflow hserved hneeds hroom
    | refused hrefused hneeds => exact .refused hrefused hneeds
  · simp only [h, if_false]
    exact .pastEnd (by omega)

theorem take {x : Stack.Op β} {n : Nat} (hx : Stack.Takes n x) (p : Nat) (hp : g.pops = p + n)
    (hn : g.needs = p + n) {k : β → Exec κ φ α}
    (hk : ∀ b t, x s = .ok b t → Meets { g with pops := p, needs := p } i j t (k b ⟨i, t, w⟩)) :
    Meets g i j s ((onStack x >>= k) ⟨i, s, w⟩) := by
  simp only [bind, EStateM.bind, onStack]
  by_cases h : n ≤ s.depth
  · obtain ⟨b, t, hxs, ht, hcapacity⟩ := hx.of_le h
    have hk := hk b t hxs
    have hdepth : t.depth = s.depth - n := by
      rw [← Stack.length_toList, ht, List.length_take, Stack.length_toList]
      omega
    simp only [hxs]
    generalize k b ⟨i, t, w⟩ = result at hk
    cases hk with
    | @done _ u _ hserved hreads hneeds hkept hdepth' hcapacity' =>
      simp only at hneeds hkept hdepth'
      have hbase : t.depth - p = s.depth - g.pops := by omega
      refine .done hserved hreads (by omega) ?_ (by omega) (hcapacity'.trans hcapacity)
      rw [← hbase, hkept, ht, List.take_take]
      congr 1
      omega
    | pastEnd hreads => exact .pastEnd hreads
    | underflow hneeds =>
      simp only at hneeds
      exact .underflow (by omega)
    | overflow hserved hneeds hroom =>
      simp only at hneeds hroom
      have hfull : t.overflow = s.overflow := by simp only [Stack.overflow, hcapacity]
      rw [hfull]
      exact .overflow hserved (by omega) (by omega)
    | refused hrefused hneeds =>
      simp only at hneeds
      exact .refused hrefused (by omega)
  · obtain ⟨t, hxs⟩ := hx.of_lt (s := s) (by omega)
    simp only [hxs]
    exact .underflow (by omega)

theorem effect {x : Effect κ φ β} (hx : ∀ w, ∃ b v, x w = .ok b v) {k : β → Exec κ φ α}
    (hk : ∀ b v, Meets g i j s (k b ⟨i, s, v⟩)) :
    Meets g i j s ((Processor.effect x >>= k) ⟨i, s, w⟩) := by
  obtain ⟨b, v, h⟩ := hx w
  simp only [bind, EStateM.bind, Processor.effect, h]
  exact hk b v

/-- Once all words are there, a peripheral may still refuse. -/
theorem await [Keyboard κ] [Disk φ] {waits acts : Bool} {x : Effect κ φ β}
    (hx : World.Composed waits acts x) (hrefused : (∃ f v, x w = .error f v) ↔ g.refused)
    (hn : g.needs = 0) {k : β → Exec κ φ α}
    (hk : ¬ g.refused → ∀ b v, Meets g i j s (k b ⟨i, s, v⟩)) :
    Meets g i j s ((Processor.effect x >>= k) ⟨i, s, w⟩) := by
  simp only [bind, EStateM.bind, Processor.effect]
  cases h : x w with
  | ok b v => exact hk (fun hg => not_error_of_ok h (hrefused.2 hg)) b v
  | error f v =>
    obtain ⟨_, e, rfl⟩ := hx.eq_error h
    exact .refused (hrefused.1 ⟨_, _, h⟩) (by omega)

theorem andReturn {x : Exec κ φ α} {p : Processor κ φ} (h : Meets g i j s (x p)) (b : β) :
    Meets g i j s ((do let _ ← x; return b) p) := by
  simp only [bind, EStateM.bind]
  generalize x p = result at h
  cases h with
  | done hserved hreads hneeds hkept hdepth hcapacity =>
    exact .done hserved hreads hneeds hkept hdepth hcapacity
  | pastEnd hreads => exact .pastEnd hreads
  | underflow hneeds => exact .underflow hneeds
  | overflow hserved hneeds hroom => exact .overflow hserved hneeds hroom
  | refused hrefused hneeds => exact .refused hrefused hneeds

end Meets

end Processor

def Body.results {arity : Nat} : Body κ φ arity → Nat
  | .procedure _ => 0
  | .function _ => 1

theorem SystemCall.signature_routine [Keyboard κ] [Disk φ] (c : SystemCall) :
    (c.routine : Routine κ φ).arity = c.pops ∧
    (c.routine : Routine κ φ).body.results = c.pushes := by
  cases c <;> exact ⟨rfl, rfl⟩

namespace Processor

section

variable {i : Image} {s : Stack} {w : World κ φ}

theorem meets_call [Keyboard κ] [Disk φ] {r : Routine κ φ} {waits acts : Bool} {refused : Prop}
    (harity : r.arity < Stack.moveLimit) (hr : r.body.Composed waits acts)
    (hfails : ∀ v below, s.toList = below ++ List.ofFn v → (r.body.Fails v w ↔ refused)) :
    Meets ⟨0, r.arity, r.arity, r.body.results, refused⟩ i i s (call r ⟨i, s, w⟩) := by
  obtain ⟨popping, arity, body⟩ := r
  obtain ⟨x, hargs, hx, hwords⟩ := exists_popArguments (κ := κ) (φ := φ) popping harity
  simp only [call, hargs]
  refine .take hx 0 (Nat.zero_add _).symm (Nat.zero_add _).symm fun args t hpop => ?_
  have hrefused := hfails args.get t.toList (hwords s args t hpop)
  cases body with
  | procedure run =>
    have h : Meets ⟨0, 0, 0, 0, refused⟩ i i t
        ((effect (run args.get) >>= Pure.pure) ⟨i, t, w⟩) := by
      refine .await (hr args.get) ?_ rfl fun hserved b v => .pure hserved b
      exact hrefused
    rwa [bind_pure] at h
  | function run =>
    refine .await (hr args.get) ?_ rfl fun hserved b v => .push hserved b
    exact hrefused

theorem meets_popParameters (frame count : Nat) :
    Meets ⟨0, count, count, 0, False⟩ i i s
      ((popParameters frame count : Exec κ φ Unit) ⟨i, s, w⟩) := by
  induction count generalizing s w with
  | zero => exact .pure not_false ()
  | succ count ih =>
    refine .take Stack.takes_pop count rfl rfl fun value t _ => ?_
    exact .effect (fun _ => ⟨_, _, rfl⟩) fun _ v => ih

theorem meets_copyData (a count : Nat) :
    Meets ⟨count, 0, 0, 0, False⟩ i (i.skip count) s
      ((copyData a count : Exec κ φ Unit) ⟨i, s, w⟩) := by
  induction count generalizing i a w with
  | zero => exact .pure not_false ()
  | succ count ih =>
    refine .fetch (Image.reads_byte i) count rfl ?_
    have hskip : i.skip (count + 1) = (i.skip 1).skip count := by rw [Image.skip_skip, Nat.add_comm]
    rw [hskip]
    exact .effect (fun _ => ⟨_, _, rfl⟩) fun _ v => ih _

theorem meets_effectiveAddress {place : Place} {k : Nat → Exec κ φ α} {pushes : Nat}
    (hk : ∀ a t v, Meets ⟨0, 0, 0, pushes, False⟩ (i.skip 2) (i.skip 2) t (k a ⟨i.skip 2, t, v⟩)) :
    Meets ⟨2, if place.indexed then 1 else 0, if place.indexed then 1 else 0, pushes, False⟩ i
      (i.skip 2) s ((effectiveAddress place >>= k) ⟨i, s, w⟩) := by
  -- What follows the index is the same whether it was popped or not.
  have hoffset (index : Word) (t : Stack) : Meets ⟨2, 0, 0, pushes, False⟩ i (i.skip 2) t
      (((do
        let offset ← Processor.fetch Image.int16
        let a := (index + offset.toInt32).address
        if place.framed then return (a + (← region).start) % addressSpace
        else return a) >>= k) ⟨i, t, w⟩) := by
    rw [bind_assoc]
    refine .fetch (Image.reads_int16 i) 0 rfl ?_
    by_cases hframed : place.framed
    · simp only [hframed, if_true, bind_assoc, pure_bind]
      exact .effect (fun _ => ⟨_, _, rfl⟩) fun r v => hk _ t v
    · simp only [hframed, Bool.false_eq_true, if_false, pure_bind]
      exact hk _ t w
  by_cases hindexed : place.indexed
  · simp only [effectiveAddress, hindexed, if_true]
    rw [bind_assoc]
    exact .take Stack.takes_pop 0 rfl rfl fun index t _ => hoffset index t
  · simp only [effectiveAddress, hindexed, Bool.false_eq_true, if_false, pure_bind]
    exact hoffset 0 s

theorem meets_increment (delta : Word) (old : Bool) :
    Meets ⟨0, 1, 1, 1, False⟩ i i s ((increment delta old : Exec κ φ Unit) ⟨i, s, w⟩) := by
  refine .take Stack.takes_pop 0 rfl rfl fun word t _ => ?_
  refine .effect (fun _ => ⟨_, _, rfl⟩) fun r v => .effect (fun _ => ⟨_, _, rfl⟩) fun before v => ?_
  exact .effect (fun _ => ⟨_, _, rfl⟩) fun _ v => .push not_false _

theorem meets_store [Keyboard κ] [Disk φ] :
    Meets ⟨0, 2, 2, 1, False⟩ i i s ((execute .store : Exec κ φ Unit) ⟨i, s, w⟩) := by
  refine .take Stack.takes_pop 1 rfl rfl fun value t _ => ?_
  refine .take Stack.takes_pop 0 rfl rfl fun word t _ => ?_
  refine .effect (fun _ => ⟨_, _, rfl⟩) fun r v => ?_
  exact .effect (fun _ => ⟨_, _, rfl⟩) fun _ v => .push not_false _

theorem meets_branch [Keyboard κ] [Disk φ] (onZero : Bool) :
    Meets ⟨3, 1, 0, 0, False⟩ i
      { i with cursor := Opcode.destination (.branch onZero) i s.toList w.memory } s
      (execute (.branch onZero) ⟨i, s, w⟩) := by
  refine .fetch (Image.reads_target i) 0 rfl ?_
  simp only [bind, EStateM.bind, onStack]
  by_cases hnil : s.toList = []
  · have hdepth : s.depth = 0 := by simpa using congrArg List.length hnil
    rw [Stack.peekTop_nil hnil]
    exact .underflow (by simp [hdepth])
  · obtain ⟨ws, top, htop⟩ := Stack.exists_concat hnil
    have hdepth : s.depth = ws.length + 1 := by simpa using congrArg List.length htop
    have hlast : s.toList.getLastD 0 = top := by simp [htop]
    rw [Stack.peekTop_concat htop]
    simp only [Opcode.destination, hlast]
    by_cases htaken : (top == 0) == onZero
    · simp only [htaken, if_true]
      exact .done not_false (Nat.zero_le _) (by simp [hdepth]) rfl rfl rfl
    · simp only [htaken]
      exact .done not_false (Nat.zero_le _) (by simp [hdepth]) rfl rfl rfl

theorem meets_enter :
    Meets ⟨3, ((i.rest.drop 2).headD 0).toNat, ((i.rest.drop 2).headD 0).toNat, 0, False⟩ i
      (i.skip 3) s ((enter : Exec κ φ Unit) ⟨i, s, w⟩) := by
  have hcount : ((i.skip 2).rest.take 1).headD 0 = (i.rest.drop 2).headD 0 := by
    rw [Image.rest_skip]
    cases i.rest.drop 2 <;> rfl
  have hbyte := Image.reads_byte (i.skip 2)
  simp only [hcount] at hbyte
  refine .effect (fun _ => ⟨_, _, rfl⟩) fun caller v => .effect (fun _ => ⟨_, _, rfl⟩) fun _ v => ?_
  refine .fetch (Image.reads_address i) 1 rfl (.fetch hbyte 0 rfl ?_)
  exact .effect (fun _ => ⟨_, _, rfl⟩) fun _ v => meets_popParameters _ _

theorem meets_dataInit [Keyboard κ] [Disk φ] :
    Meets ⟨Opcode.dataInit.operandSize i.rest, 0, 0, 0, False⟩ i
      (i.skip (Opcode.dataInit.operandSize i.rest)) s (execute .dataInit ⟨i, s, w⟩) := by
  refine .fetch (Image.reads_address i) (Bytes.toNat ((i.rest.drop 2).take 2) + 2) rfl ?_
  refine .fetch (Image.reads_address (i.skip 2)) (Bytes.toNat ((i.rest.drop 2).take 2)) rfl ?_
  rw [Image.rest_skip]
  have hskip : i.skip (Opcode.dataInit.operandSize i.rest) =
      ((i.skip 2).skip 2).skip (Bytes.toNat ((i.rest.drop 2).take 2)) := by
    simp only [Image.skip_skip, Opcode.operandSize]
    congr 1
    omega
  rw [hskip]
  exact meets_copyData _ _

theorem meets_formatArguments {k : List Word → Exec κ φ α}
    (hk : ∀ args t, Meets ⟨0, 0, 0, 0, False⟩ i i t (k args ⟨i, t, w⟩)) :
    Meets ⟨0, (s.toList.getLastD 0).lowByte.toNat + 1, (s.toList.getLastD 0).lowByte.toNat + 1, 0,
      False⟩ i i s ((formatArguments >>= k) ⟨i, s, w⟩) := by
  rw [formatArguments, bind_assoc]
  refine .take Stack.takes_pop _ rfl rfl fun word t hpop => ?_
  rw [Stack.getLastD_of_pop hpop, bind_assoc]
  exact .take (Stack.takes_popBlock (Stack.toNat_lt_moveLimit _)) 0 (Nat.zero_add _).symm
    (Nat.zero_add _).symm fun args t _ => hk _ t

theorem meets_printf [Keyboard κ] [Disk φ] :
    Meets ⟨0, (s.toList.getLastD 0).lowByte.toNat + 1, (s.toList.getLastD 0).lowByte.toNat + 1, 0,
      False⟩ i i s ((printf : Exec κ φ Unit) ⟨i, s, w⟩) := by
  refine meets_formatArguments fun args t => ?_
  have hupdate (v : World κ φ) :
      Meets ⟨0, 0, 0, 0, False⟩ i i t
        ((effect (World.type (.update 0)) : Exec κ φ Unit) ⟨i, t, v⟩) := by
    rw [← bind_pure (effect _)]
    exact .effect (World.Composed.type _ : World.Composed false false _).total fun _ _ =>
      .pure not_false _
  cases args with
  | nil => exact hupdate w
  | cons format args =>
    refine .effect (fun _ => ⟨_, _, rfl⟩) fun codes v => ?_
    have hcodes : World.Composed false false
        (codes.forM fun code => (World.type (.char code) : Effect κ φ Unit)) :=
      .forM (fun code => .type _) codes
    exact .effect hcodes.total fun _ v => hupdate v

theorem meets_sprintf :
    Meets ⟨0, (s.toList.getLastD 0).lowByte.toNat + 1, (s.toList.getLastD 0).lowByte.toNat + 1, 0,
      False⟩ i i s ((sprintf : Exec κ φ Unit) ⟨i, s, w⟩) := by
  refine meets_formatArguments fun args t => ?_
  match args with
  | [] => exact .pure not_false ()
  | [_] => exact .pure not_false ()
  | dst :: format :: args => exact .done not_false (Nat.zero_le _) (Nat.zero_le _) rfl rfl rfl

theorem meets_execute [Keyboard κ] [Disk φ] (op : Opcode) (hinvalid : op ≠ .invalid)
    (hfill : op ≠ .call .fillArea) :
    Meets (op.signature i.rest s.toList w) i
      { i with cursor := op.destination i s.toList w.memory } s
      (execute op ⟨i, s, w⟩) := by
  cases op with
  | nop => exact .pure not_false ()
  | push width =>
    cases width with
    | char =>
      simp only [execute, literal, bind_assoc, pure_bind]
      exact .fetch (Image.reads_byte i) 0 rfl (.push not_false _)
    | int =>
      simp only [execute, literal, bind_assoc, pure_bind]
      exact .fetch (Image.reads_int16 i) 0 rfl (.push not_false _)
    | long => exact .fetch (Image.reads_int32 i) 0 rfl (.push not_false _)
  | cell place use =>
    refine meets_effectiveAddress fun a t v => ?_
    cases use with
    | value width => exact .effect (fun _ => ⟨_, _, rfl⟩) fun _ _ => .push not_false _
    | reference width => exact .push not_false _
    | address => exact .push not_false _
  | intern =>
    refine .fetch (Image.literal_eq i) 0 (Nat.zero_add _).symm ?_
    exact .effect (fun _ => ⟨_, _, rfl⟩) fun _ _ => .push not_false _
  | base plane => exact .effect (fun _ => ⟨_, _, rfl⟩) fun _ _ => .push not_false _
  | unary op => exact .take Stack.takes_pop 0 rfl rfl fun _ _ _ => .push not_false _
  | binary op => exact .take Stack.takes_popTwo 0 rfl rfl fun _ _ _ => .push not_false _
  | immediate op =>
    refine .fetch (Image.reads_int16 i) 0 rfl ?_
    exact .take Stack.takes_pop 0 rfl rfl fun _ _ _ => .push not_false _
  | increment delta old => exact meets_increment delta old
  | store => exact meets_store
  | dereference =>
    refine .take Stack.takes_pop 0 rfl rfl fun _ _ _ => ?_
    exact .effect (fun _ => ⟨_, _, rfl⟩) fun _ _ => .push not_false _
  | makeReference => exact .take Stack.takes_pop 0 rfl rfl fun _ _ _ => .push not_false _
  | drop => exact .take Stack.takes_pop 0 rfl rfl fun _ _ _ => .pure not_false ()
  | branch onZero => exact meets_branch onZero
  | jump =>
    exact .fetch (Image.reads_target i) 0 rfl
      (.done not_false (Nat.zero_le _) (Nat.zero_le _) rfl rfl rfl)
  | mark =>
    refine .fetch (Image.reads_address i) 0 rfl ?_
    exact .done not_false (Nat.zero_le _) (Nat.zero_le _) rfl rfl rfl
  | invoke =>
    refine .fetch (Image.reads_target i) 0 rfl ?_
    exact .done not_false (Nat.zero_le _) (Nat.zero_le _) rfl rfl rfl
  | entry => exact meets_enter
  | leave => exact .done not_false (Nat.zero_le _) (Nat.zero_le _) rfl rfl rfl
  | stop => exact .pure not_false ()
  | dataInit => exact meets_dataInit
  | invalid => exact absurd rfl hinvalid
  | printf => exact meets_printf
  | sprintf => exact meets_sprintf
  | call c =>
    have hbody : c ≠ .fillArea := fun h => hfill (h ▸ rfl)
    have h := meets_call (i := i) (s := s) (w := w) c.arity_lt_moveLimit (c.composed_routine hbody)
      fun v below => c.fails_iff hbody
    obtain ⟨harity, hresults⟩ := c.signature_routine (κ := κ) (φ := φ)
    rwa [hresults, harity] at h

end

end Processor

@[simp] theorem Fault.kind_locate (f : Fault) (offset : Nat) : (f.locate offset).kind = f.kind := by
  unfold locate
  split <;> rfl

theorem SystemCall.pushes_le_one (c : SystemCall) : c.pushes ≤ 1 := by
  unfold pushes
  split <;> decide

namespace Opcode

theorem pushes_le_one (op : Opcode) : op.pushes ≤ 1 := by
  cases op with
  | call c => exact c.pushes_le_one
  | nop | drop | branch | jump | mark | invoke | entry | leave | stop | dataInit | invalid | printf
  | sprintf =>
    exact Nat.zero_le 1
  | push | cell | intern | base | unary | binary | immediate | increment | store | dereference
  | makeReference =>
    exact Nat.le_refl 1

/-- A result never makes up for the words that are missing. -/
theorem needs_add_pushes_le (op : Opcode) (bytes : Bytes) (words : List Word) :
    op.needs bytes words + op.pushes ≤ op.pops bytes words + 1 := by
  have hpushes := op.pushes_le_one
  unfold needs
  split
  case h_1 onZero => exact Nat.le_refl 1
  case h_2 => exact Nat.add_le_add_left hpushes _

end Opcode

namespace Machine

variable [Keyboard κ] [Disk φ] {m : Machine κ φ} {i : Image} {op : Opcode}

theorem step_meets (hop : m.opcode? = some op) (himage : m.image = some i)
    (hinvalid : op ≠ .invalid) (hfill : op ≠ .call .fillArea) :
    ∃ r : EStateM.Result Fault (Processor κ φ) Bool, m.step = settle i.cursor r ∧
      Processor.Meets (op.signature (i.skip 1).rest m.stack.toList (m.world.announce i)) (i.skip 1)
        { i with cursor := op.destination (i.skip 1) m.stack.toList m.world.memory } m.stack r := by
  have h :=
    Processor.meets_execute (i := i.skip 1) (s := m.stack) (w := m.world.announce i) op
      hinvalid hfill
  exact ⟨_, step_eq_of_opcode? hop himage, h.andReturn (op == .stop)⟩

def Faults (m : Machine κ φ) (kind : FaultKind) : Prop := ∃ f, m.step.1 = .error f ∧ f.kind = kind

theorem faults_of_error {f : Fault} (h : m.step.1 = .error f) (kind : FaultKind) :
    m.Faults kind ↔ f.kind = kind := by
  simp [Faults, h]

theorem not_faults_of_ok (h : m.step.1 = .ok ()) (kind : FaultKind) : ¬ m.Faults kind := by
  simp [Faults, h]

/-- The next step needs, takes and leaves as many words as the signature says. A peripheral stops
it, by an interruption or a failure of the host, exactly when it refuses what the step waits for. -/
structure Conforms (m : Machine κ φ) (g : Signature) : Prop where
  underflow : m.Faults .stackUnderflow ↔ m.stack.depth < g.needs
  refused : m.Faults .interrupted ∨ m.Faults .hostIo ↔ g.refused ∧ g.needs ≤ m.stack.depth
  overflow :
    ¬ g.refused → (m.Faults .stackOverflow ↔ m.stack.capacity + g.pops < m.stack.depth + g.pushes)
  done : ¬ g.refused → g.needs ≤ m.stack.depth →
    m.stack.depth + g.pushes ≤ m.stack.capacity + g.pops →
    m.step.1 = .ok () ∧ m.step.2.stack.depth + g.pops = m.stack.depth + g.pushes ∧
    m.step.2.stack.toList.take (m.stack.depth - g.pops) =
      m.stack.toList.take (m.stack.depth - g.pops)

theorem conforms_of_meets {g : Signature} {j : Image} {offset : Nat}
    {r : EStateM.Result Fault (Processor κ φ) Bool} (hstep : m.step = settle offset r)
    (hmeets : Processor.Meets g i j m.stack r) (hreads : g.reads ≤ i.rest.length)
    (hshort : g.needs + g.pushes ≤ g.pops + 1) : m.Conforms g := by
  have hfits : m.stack.depth ≤ m.stack.capacity := m.stack.depth_le
  cases hmeets with
  | @done finished t w hserved _ hneeds hkept hdepth hcapacity =>
    obtain ⟨bus, hsettle⟩ := settle_ok offset finished j t w
    rw [hsettle] at hstep
    have hok : m.step.1 = .ok () := by rw [hstep]
    have hnot := not_faults_of_ok hok
    have hroom : t.depth ≤ t.capacity := t.depth_le
    exact {
      underflow := iff_of_false (hnot _) (by omega)
      refused := iff_of_false (by simp [hnot]) fun h => hserved h.1
      overflow := fun _ => iff_of_false (hnot _) (by omega)
      done := fun _ _ _ => ⟨hok, by rw [hstep]; exact hdepth, by rw [hstep]; exact hkept⟩ }
  | pastEnd hend => omega
  | underflow hneeds =>
    have hfaults := faults_of_error (m := m) (by rw [hstep]; rfl)
    exact {
      underflow := by simpa [hfaults, Stack.underflow] using hneeds
      refused := iff_of_false (by simp [hfaults, Stack.underflow]) (by omega)
      overflow := fun _ => iff_of_false (by simp [hfaults, Stack.underflow]) (by omega)
      done := fun _ hneeds' => by omega }
  | overflow hserved hneeds hroom =>
    have hfaults := faults_of_error (m := m) (by rw [hstep]; rfl)
    exact {
      underflow := iff_of_false (by simp [hfaults, Stack.overflow]) (by omega)
      refused := iff_of_false (by simp [hfaults, Stack.overflow]) fun h => hserved h.1
      overflow := fun _ => by simpa [hfaults, Stack.overflow] using hroom
      done := fun _ _ hroom' => by omega }
  | @refused e p hrefused hneeds =>
    have hfaults := faults_of_error (m := m) (by rw [hstep]; rfl)
    exact {
      underflow := iff_of_false (by cases e <;> simp [hfaults, DeviceFailure.fault]) (by omega)
      refused := iff_of_true (by cases e <;> simp [hfaults, DeviceFailure.fault]) ⟨hrefused, hneeds⟩
      overflow := fun h => absurd hrefused h
      done := fun h => absurd hrefused h }

/-- When its operands are there, an instruction fails for lack of words or of room exactly when its
signature says so. Otherwise it succeeds, unless the peripheral that it waits for refuses. -/
theorem conforms_signature (hop : m.opcode? = some op) (himage : m.image = some i)
    (hinvalid : op ≠ .invalid) (hfill : op ≠ .call .fillArea)
    (hoperands : op.operandSize (i.skip 1).rest ≤ (i.skip 1).rest.length) :
    op.pushes ≤ 1 ∧
    m.Conforms (op.signature (i.skip 1).rest m.stack.toList (m.world.announce i)) := by
  obtain ⟨r, hstep, hmeets⟩ := step_meets hop himage hinvalid hfill
  exact ⟨op.pushes_le_one, conforms_of_meets hstep hmeets hoperands (op.needs_add_pushes_le _ _)⟩

def bare (code : Array UInt8) (stack : Stack) : Machine Detached Detached where
  phase := .running
  image := some ⟨"BARE", code, 0⟩
  stack := stack
  world := {
    config := {}, seed := 0, display := .detached, teletype := .detached, keyboard := {}, disk := {}
    clock := { reading := fun _ => ⟨2000, 0, 1, 0, 0, 0, 0, 7⟩ }
    memory := Memory.blank (Pool.empty 0x1400 0xc00) #[]
    bus := { control := .running, journal := .quiet } }

/-- Formatting takes the count on top and the two words below it, and leaves the last one. -/
theorem conforms_signature_sprintf :
    let m := bare #[184] ⟨#[9, 0x2000, 0x2100, 2], 4, by decide⟩
    m.opcode? = some .sprintf ∧ m.step.1 = .ok () ∧ m.step.2.stack.toList = [9] := by
  intro m
  have hop : m.opcode? = some .sprintf := by decide +kernel
  have h := (conforms_signature hop rfl (by decide) (by decide) (Nat.zero_le _)).2
  obtain ⟨hok, hdepth, hkept⟩ := h.done not_false (by decide +kernel) (by decide +kernel)
  have hlen : m.step.2.stack.depth = 1 := Nat.add_right_cancel hdepth
  refine ⟨hop, hok, ?_⟩
  calc m.step.2.stack.toList = m.step.2.stack.toList.take 1 := by
        rw [List.take_of_length_le (by rw [Stack.length_toList, hlen])]
    _ = [9] := hkept

theorem bytes_step (m : Machine κ φ) : m.step.2.image.map (·.bytes) = m.image.map (·.bytes) := by
  cases m.step_cases with
  | unloaded _ hstep | ended _ hstep | detached _ _ hstep => rw [hstep]
  | live i _ himage hstep =>
    have hkept : World.Kept fun _ : World κ φ => True :=
      .of_served (fun _ _ h => h) fun _ _ h _ => h
    let R := Processor.Related i.bytes m.stack.capacity (Diagonal fun _ : World κ φ => True)
    have hrespects : Respects R Processor.step := Processor.respects_step hkept.stable
    have hself : R ⟨i, m.stack, m.world⟩ ⟨i, m.stack, m.world⟩ :=
      ⟨⟨rfl, rfl⟩, ⟨rfl, rfl, rfl⟩, rfl, trivial⟩
    rw [hstep, himage]
    cases hr : Processor.step ⟨i, m.stack, m.world⟩ with
    | ok finished p =>
      obtain ⟨_, _, hp⟩ := hrespects.of_ok hself hr
      obtain ⟨bus, hsettle⟩ := settle_ok i.cursor finished p.image p.stack p.world
      rw [hsettle]
      exact congrArg some hp.image.2
    | error f p =>
      obtain ⟨_, _, hp⟩ := hrespects.of_error hself hr
      exact congrArg some hp.image.2

theorem image_step (hop : m.opcode? = some op) (himage : m.image = some i)
    (hok : m.step.1 = .ok ()) :
    m.step.2.image =
      some { i with cursor := op.destination (i.skip 1) m.stack.toList m.world.memory } := by
  have hrun {f : Fault} {p : Processor κ φ} : m.step ≠ settle i.cursor (.error f p) := fun h => by
    rw [h] at hok
    cases hok
  have hmeant : op ≠ .invalid ∧ op ≠ .call .fillArea := by
    obtain ⟨bus, hstep⟩ := step_of_opcode? hop himage
    constructor <;> rintro rfl <;> exact hrun hstep
  obtain ⟨r, hstep, hmeets⟩ := step_meets hop himage hmeant.1 hmeant.2
  cases hmeets with
  | @done finished t w _ _ _ _ _ _ =>
    obtain ⟨bus, hsettle⟩ := settle_ok i.cursor finished _ t w
    rw [hstep, hsettle]
  | pastEnd | underflow | overflow | refused => exact absurd hstep hrun

/-- A step that succeeds is one of an instruction and goes on at its destination, in the same
image. -/
theorem step_reaches_destination (m : Machine κ φ) :
    m.step.2.image.map (·.bytes) = m.image.map (·.bytes) ∧
      (m.step.1 = .ok () → ∃ op i, m.opcode? = some op ∧ m.image = some i ∧
        m.step.2.image =
          some { i with cursor := op.destination (i.skip 1) m.stack.toList m.world.memory }) := by
  refine ⟨m.bytes_step, fun hok => ?_⟩
  obtain ⟨op, i, hop, himage⟩ := opcode?_of_step hok
  exact ⟨op, i, hop, himage, image_step hop himage hok⟩

/-- The word under test is zero, so the branch is taken. -/
theorem step_reaches_destination_branch :
    let m := bare #[57, 6, 0, 0, 0, 0, 64] ⟨#[0], 1, by decide⟩
    m.step.1 = .ok () ∧ m.step.2.offset? = some 6 := by
  intro m
  have hok : m.step.1 = .ok () := by rfl
  obtain ⟨op, i, hop, himage, hnext⟩ := (step_reaches_destination m).2 hok
  have hbranch : m.opcode? = some (.branch true) := by decide +kernel
  obtain rfl : op = .branch true := Option.some.inj (hop.symm.trans hbranch)
  obtain rfl := Option.some.inj himage
  exact ⟨hok, by rw [offset?, hnext]; decide +kernel⟩

end Machine
end LavMachine
