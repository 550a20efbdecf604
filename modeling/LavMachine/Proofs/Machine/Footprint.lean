import Mathlib
import LavMachine.Proofs.Machine.Isolation
import LavMachine.Proofs.Machine.Location
import LavMachine.Proofs.Memory.Footprint
set_option autoImplicit false

/-!
What an instruction may change. The region belongs to the three instructions that open and close
frames, the seed to the two random calls. Of memory an instruction changes only its footprint, which
follows from its operands, the words on the stack and the frame; everything else stays, also when
the instruction fails halfway. A screen or a console would have windows of its own in memory, so the
machine has neither here; its keyboard and its disk may answer anything.
-/
namespace LavMachine

variable {κ φ ε σ α β : Type}

def Leaves (P : σ → Prop) : EStateM.Result ε σ α → Prop
  | .ok _ s | .error _ s => P s

namespace Leaves

variable {P Q : σ → Prop}

theorem imp (hPQ : ∀ s, P s → Q s) {r : EStateM.Result ε σ α} (h : Leaves P r) : Leaves Q r := by
  cases r <;> exact hPQ _ h

theorem of_ok {x : EStateM ε σ α} {s t : σ} {a : α} (h : Leaves P (x s)) (hx : x s = .ok a t) :
    P t := by
  rwa [hx] at h

theorem of_error {x : EStateM ε σ α} {s t : σ} {e : ε} (h : Leaves P (x s))
    (hx : x s = .error e t) : P t := by
  rwa [hx] at h

theorem bind {x : EStateM ε σ α} {k : α → EStateM ε σ β} {s : σ}
    (herror : ∀ e t, x s = .error e t → P t) (hok : ∀ a t, x s = .ok a t → Leaves P (k a t)) :
    Leaves P ((x >>= k) s) := by
  simp only [Bind.bind, EStateM.bind]
  cases hx : x s with
  | ok a t => exact hok a t hx
  | error e t => exact herror e t hx

end Leaves

namespace World

structure Muted (w : World κ φ) : Prop where
  display : w.display = .detached
  teletype : w.teletype = .detached

structure Unmoved (w v : World κ φ) : Prop where
  memory : v.memory = w.memory
  seed : v.seed = w.seed
  display : v.display = w.display
  teletype : v.teletype = w.teletype

theorem Unmoved.refl (w : World κ φ) : w.Unmoved w := ⟨rfl, rfl, rfl, rfl⟩

theorem Unmoved.trans {w v u : World κ φ} (h : w.Unmoved v) (h' : v.Unmoved u) : w.Unmoved u :=
  ⟨h'.memory.trans h.memory, h'.seed.trans h.seed, h'.display.trans h.display,
    h'.teletype.trans h.teletype⟩

theorem Unmoved.muted {w v : World κ φ} (h : w.Unmoved v) (hw : w.Muted) : v.Muted :=
  ⟨h.display.trans hw.display, h.teletype.trans hw.teletype⟩

/-- In a world without screen and console, what does not act changes neither memory nor seed. -/
theorem Composed.unmoved [Keyboard κ] [Disk φ] {waits : Bool} {x : Effect κ φ α}
    (hx : Composed waits false x) {w : World κ φ} (hw : w.Muted) : Leaves w.Unmoved (x w) := by
  induction hx generalizing w with
  | bind _ _ ihx ihk =>
    refine Leaves.bind (fun e v hv => (ihx hw).of_error hv) fun a v hv => ?_
    have hmoved := (ihx hw).of_ok hv
    exact (ihk a (hmoved.muted hw)).imp fun u hu => hmoved.trans hu
  | look _ _ ih => exact ih w hw
  | changeMemory hacts | seed _ hacts => cases hacts
  | draw c =>
    simp only [World.draw, hw.display]
    exact .refl w
  | type c =>
    simp only [World.type, hw.teletype]
    exact .refl w
  | require e =>
    cases e with
    | ok a => exact Unmoved.refl w
    | error e => exact Unmoved.refl w
  | pure | ask | serve | log | now => exact ⟨rfl, rfl, rfl, rfl⟩

end World

namespace Picker

def store (a : Nat) (name : Bytes) (m : Memory) : Memory :=
  (m.writeBlock a name).setByte (a + name.length) 0

/-- Nothing is stored, or a name is stored and the answer says so. -/
inductive Picks (names : List Bytes) (a : Nat) (w : World κ φ) :
    EStateM.Result Fault (World κ φ) Word → Prop where
  | none {r : EStateM.Result Fault (World κ φ) Word} : Leaves w.Unmoved r → Picks names a w r
  | some {name : Bytes} {v : World κ φ} :
    name ∈ names → v.memory = store a name w.memory → v.seed = w.seed →
    Picks names a w (.ok (Word.ofBool true) v)

theorem Picks.bind [Keyboard κ] [Disk φ] {names : List Bytes} {a : Nat} {w : World κ φ}
    {x : Effect κ φ α} {k : α → Effect κ φ Word} (hw : w.Muted) (hx : World.Composed true false x)
    (hk : ∀ b v, x w = .ok b v → v.Muted → Picks names a v (k b v)) :
    Picks names a w ((x >>= k) w) := by
  have hmoved := hx.unmoved hw
  simp only [Bind.bind, EStateM.bind]
  cases h : x w with
  | error e v => exact .none (hmoved.of_error h)
  | ok b v =>
    have hv := hmoved.of_ok h
    have hpicks := hk b v h (hv.muted hw)
    simp only
    generalize k b v = r at hpicks
    cases hpicks with
    | none hleaves => exact .none (hleaves.imp fun u hu => hv.trans hu)
    | some hname hmemory hseed =>
      exact .some hname (by rw [hmemory, hv.memory]) (hseed.trans hv.seed)

theorem Picks.look {names : List Bytes} {a : Nat} {w : World κ φ} {k : World κ φ → Effect κ φ Word}
    (hk : Picks names a w (k w w)) : Picks names a w ((get >>= k) w) := hk

theorem picks_pick [Keyboard κ] [Disk φ] {w : World κ φ} (hw : w.Muted) (a : Nat) :
    Picks (offers w) a w (pick a w) := by
  refine .bind hw (.serve .count) fun count w₁ hcount hw₁ => ?_
  refine .bind hw₁ (.serve (.list 0 count)) fun names w₂ hnames hw₂ => ?_
  have hlisting : names = listing w := by
    cases hcount
    cases hnames
    rfl
  refine .look (.look (.bind hw₂ (.log .debug _) fun _ w₃ _ hw₃ => ?_))
  refine .bind hw₃ (.redraw _ _ _) fun _ w₄ _ hw₄ => ?_
  refine .bind hw₄ (.pickerRun _ _ _ _ _) fun choice w₅ hrun _ => ?_
  cases choice with
  | none => exact .none (.refl w₅)
  | some name =>
    have hname : name ∈ offers w := by
      have hmem := run_mem hrun
      simpa [State.ofNames, offers, ← hlisting] using hmem
    exact .some hname rfl rfl

end Picker

namespace SystemCall

open Memory

/-- The call with these arguments may change the byte at `b`. -/
inductive Touches (before after : Memory) (b : Nat) : SystemCall → List Word → Prop where
  | fillMemory {dst value size : Word} : Within dst.address size.length b →
    Touches before after b .fillMemory [dst, value, size]
  | copyMemory {dst src size : Word} : Within dst.address size.length b →
    Touches before after b .copyMemory [dst, src, size]
  | moveMemory {dst src size : Word} : Within dst.address size.length b →
    Touches before after b .moveMemory [dst, src, size]
  | mask {dst size key : Word} :
    Within dst.address size.length b → Touches before after b .mask [dst, size, key]
  | readFile {dst unit size handle : Word} : Within dst.address size.length b →
    Touches before after b .readFile [dst, unit, size, handle]
  | getBlock {x y width height mode dst : Word} :
    Within dst.address (imageSize width.toInt16 height.toInt16) b →
    Touches before after b .getBlock [x, y, width, height, mode, dst]
  | getTime {dst : Word} : Within dst.address 8 b → Touches before after b .getTime [dst]
  | copyString {dst src : Word} :
    Within dst.address (min (after.stringLength dst.address + 1) addressSpace) b →
    Touches before after b .copyString [dst, src]
  | appendString {dst src : Word} {start : Nat} :
    start = dst.address + before.stringLength dst.address →
    Within start (min (after.stringLength start + 1) addressSpace) b →
    Touches before after b .appendString [dst, src]
  | pickFile {dst : Word} {name : Bytes} : after = Picker.store dst.address name before →
    Within dst.address (name.length + 1) b → Touches before after b .pickFile [dst]

end SystemCall

namespace Opcode

open Memory

/-- The instruction, with these bytes behind it and these words on the stack, may change the byte at
`b`. -/
inductive Touches (bytes : Bytes) (before after : Memory) (b : Nat) :
    Opcode → List Word → Prop where
  | store {below : List Word} {target value : Word} :
    Within ((Reference.decode target).resolve before.region.start)
      (min (Reference.decode target).width 4) b →
    Touches bytes before after b .store (below ++ [target, value])
  | increment {below : List Word} {target delta : Word} {old : Bool} :
    Within ((Reference.decode target).resolve before.region.start)
      (min (Reference.decode target).width 4) b →
    Touches bytes before after b (.increment delta old) (below ++ [target])
  | invoke {words : List Word} :
    Within before.region.limit 3 b → Touches bytes before after b .invoke words
  | entry {words : List Word} :
    Within (before.region.limit + 3) (2 + 4 * ((bytes.drop 2).headD 0).toNat) b →
    Touches bytes before after b .entry words
  | dataInit {words : List Word} {index : Fin addressSpace} :
    Within (Bytes.toNat (bytes.take 2)) (Bytes.toNat ((bytes.drop 2).take 2)) b →
    before.cell b = .own index →
    Touches bytes before after b .dataInit words
  | intern {words : List Word} :
    before.pool.covers (b % addressSpace) → Touches bytes before after b .intern words
  | sprintf {below args : List Word} {dst format count : Word} :
    (dst :: format :: args).length = count.lowByte.toNat →
    Within dst.address ((Format.expand before format.address args false).length + 1) b →
    Touches bytes before after b .sprintf (below ++ (dst :: format :: args) ++ [count])
  | call {below args : List Word} {c : SystemCall} :
    args.length = c.pops → c.Touches before after b args →
    Touches bytes before after b (.call c) (below ++ args)

structure Confines (op : Opcode) (bytes : Bytes) (words : List Word) (w v : World κ φ) : Prop where
  region : v.memory.region ≠ w.memory.region → op = .mark ∨ op = .entry ∨ op = .leave
  seed : v.seed ≠ w.seed → op = .call .random ∨ op = .call .seedRandom
  memory (b : Nat) :
    v.memory.getByte b ≠ w.memory.getByte b → op.Touches bytes w.memory v.memory b words

namespace Confines

variable {op : Opcode} {bytes : Bytes} {words : List Word} {w v : World κ φ}

theorem of_unmoved (h : w.Unmoved v) : op.Confines bytes words w v where
  region hr := absurd (by rw [h.memory]) hr
  seed hs := absurd h.seed hs
  memory b hb := absurd (by rw [h.memory]) hb

theorem refl (w : World κ φ) : op.Confines bytes words w w := of_unmoved (.refl w)

theorem of_writesIn {a count : Nat} (hshare : w.memory.Unshared) (hseed : v.seed = w.seed)
    (hwrites : WritesIn (Within a count) w.memory v.memory)
    (htouches : ∀ b, Within a count b → op.Touches bytes w.memory v.memory b words) :
    op.Confines bytes words w v where
  region hr := absurd hwrites.writes.region_eq hr
  seed hs := absurd hseed hs
  memory b hb := htouches b (hwrites.within_of_ne hshare hb)

end Confines
end Opcode

def Body.Leaves (P : World κ φ → Prop) {arity : Nat} (v : Fin arity → Word) (w : World κ φ) :
    Body κ φ arity → Prop
  | .procedure run => LavMachine.Leaves P (run v w)
  | .function run => LavMachine.Leaves P (run v w)

theorem Moment.length_bytes (t : Moment) : t.bytes.length = 8 := by simp [Moment.bytes]

namespace SystemCall

open Opcode Memory

variable {bytes : Bytes} {below : List Word} {w : World κ φ}

theorem confines_of_touches {c : SystemCall} {args : List Word} {v : World κ φ} {a count : Nat}
    (hshare : w.memory.Unshared) (hargs : args.length = c.pops) (hseed : v.seed = w.seed)
    (hwrites : WritesIn (Within a count) w.memory v.memory)
    (htouches : ∀ b, Within a count b → c.Touches w.memory v.memory b args) :
    (Opcode.call c).Confines bytes (below ++ args) w v :=
  .of_writesIn hshare hseed hwrites fun b hb => .call hargs (htouches b hb)

theorem confines_routine [Keyboard κ] [Disk φ] (c : SystemCall) (hw : w.Muted)
    (hshare : w.memory.Unshared) (v : Fin (c.routine : Routine κ φ).arity → Word) :
    (c.routine : Routine κ φ).body.Leaves ((Opcode.call c).Confines bytes (below ++ List.ofFn v) w)
      v w := by
  cases hacts : c.acts with
  | false =>
    by_cases hfill : c = .fillArea
    · subst hfill
      exact .refl w
    · have hbody := c.composed_routine (κ := κ) (φ := φ) hfill
      rw [hacts] at hbody
      generalize (c.routine : Routine κ φ) = r at v hbody
      obtain ⟨popping, arity, body⟩ := r
      cases body with
      | procedure run => exact ((hbody v).unmoved hw).imp fun _ => .of_unmoved
      | function run => exact ((hbody v).unmoved hw).imp fun _ => .of_unmoved
  | true =>
    cases c with
    | copyString =>
      exact confines_of_touches hshare rfl rfl (writesIn_copyString hshare _ _) fun _ => .copyString
    | appendString =>
      exact confines_of_touches hshare rfl rfl (writesIn_copyString hshare _ _) fun _ =>
        .appendString rfl
    | fillMemory =>
      exact confines_of_touches hshare rfl rfl (writesIn_fill _ _ _ _) fun _ => .fillMemory
    | copyMemory =>
      exact confines_of_touches hshare rfl rfl (writesIn_copyUp _ _ _ _) fun _ => .copyMemory
    | moveMemory =>
      exact confines_of_touches hshare rfl rfl (writesIn_move _ _ _ _) fun _ => .moveMemory
    | mask => exact confines_of_touches hshare rfl rfl (writesIn_mask _ _ _ _) fun _ => .mask
    | readFile =>
      -- Whatever count the disk gives, no more than the size asked for is stored.
      change Fin 4 → Word at v
      let answer := (Disk.answer (.read (v 3) (v 2).length) w.disk w.bus).1
      let stored := answer.2.take (min answer.1.toInt.toNat (v 2).length)
      have hlen : stored.length ≤ (v 2).length :=
        (List.length_take_le _ _).trans (Nat.min_le_right _ _)
      have hwrites :=
        (w.memory.writesIn_writeBlock (v 0).address stored).mono fun _ h => h.mono hlen
      exact confines_of_touches hshare rfl rfl hwrites fun _ => .readFile
    | getTime =>
      change Fin 1 → Word at v
      change LavMachine.Leaves _ ((do
        let time ← World.now
        World.changeMemory (·.writeBlock (v 0).address time.bytes) : Effect κ φ Unit) w)
      simp only [bind, EStateM.bind, World.now, modifyGet, MonadStateOf.modifyGet,
        EStateM.modifyGet]
      have hlen := (w.clock.reading w.clock.taken).length_bytes
      generalize (w.clock.reading w.clock.taken).bytes = data at hlen
      refine confines_of_touches hshare rfl rfl (writesIn_writeBlock _ _ _) fun _ hb => .getTime ?_
      rwa [hlen] at hb
    | getBlock =>
      change Fin 6 → Word at v
      change LavMachine.Leaves _ ((do
        World.draw (.setMode (v 4))
        let image ← World.draw (.getRegion (v 0).toInt16 (v 1).toInt16 (v 2).toInt16 (v 3).toInt16)
        World.changeMemory (·.writeBlock (v 5).address image) : Effect κ φ Unit) w)
      simp only [bind, EStateM.bind, World.draw, hw.display]
      refine confines_of_touches hshare rfl rfl (writesIn_writeBlock _ _ _) fun _ hb => ?_
      simp only [DisplayCall.absentAnswer, List.length_replicate] at hb
      exact .getBlock hb
    | pickFile =>
      change Fin 1 → Word at v
      change LavMachine.Leaves _ (Picker.pick (v 0).address w)
      have hpicks := Picker.picks_pick hw (v 0).address
      generalize Picker.pick (v 0).address w = r at hpicks
      cases hpicks with
      | none hleaves => exact hleaves.imp fun _ => .of_unmoved
      | @some name u _ hmemory hseed =>
        have hwrites := w.memory.writesIn_terminated (v 0).address name 0
        change WritesIn _ w.memory (Picker.store (v 0).address name w.memory) at hwrites
        rw [← hmemory] at hwrites
        exact confines_of_touches hshare rfl hseed hwrites fun _ => .pickFile hmemory
    | random => exact ⟨fun hr => absurd rfl hr, fun _ => .inl rfl, fun _ hb => absurd rfl hb⟩
    | seedRandom => exact ⟨fun hr => absurd rfl hr, fun _ => .inr rfl, fun _ hb => absurd rfl hb⟩
    | _ => cases hacts

end SystemCall

namespace Processor

abbrev Ends (P : World κ φ → Prop) (r : EStateM.Result Fault (Processor κ φ) α) : Prop :=
  Leaves (fun p => P p.world) r

namespace Ends

variable {P : World κ φ → Prop} {i : Image} {s : Stack} {w : World κ φ}

theorem fetch {f : Image.Fetch β} {k : β → Exec κ φ α} (hw : P w)
    (hk : ∀ b j, f i = .ok b j → Ends P (k b ⟨j, s, w⟩)) :
    Ends P ((Processor.fetch f >>= k) ⟨i, s, w⟩) := by
  simp only [bind, EStateM.bind, Processor.fetch]
  cases hf : f i with
  | ok b j => exact hk b j hf
  | error e j => exact hw

theorem take {x : Stack.Op β} {k : β → Exec κ φ α} (hw : P w)
    (hk : ∀ b t, x s = .ok b t → Ends P (k b ⟨i, t, w⟩)) :
    Ends P ((onStack x >>= k) ⟨i, s, w⟩) := by
  simp only [bind, EStateM.bind, onStack]
  cases hx : x s with
  | ok b t => exact hk b t hx
  | error e t => exact hw

theorem push (hw : P w) (v : Word) : Ends P ((Processor.push v : Exec κ φ Unit) ⟨i, s, w⟩) := by
  simp only [Processor.push, onStack]
  cases Stack.push v s <;> exact hw

theorem effect [Keyboard κ] [Disk φ] {x : Effect κ φ β} (hx : World.Composed true false x)
    (hmuted : w.Muted) {k : β → Exec κ φ α} (hP : ∀ v, w.Unmoved v → P v)
    (hk : ∀ b v, w.Unmoved v → Ends P (k b ⟨i, s, v⟩)) :
    Ends P ((Processor.effect x >>= k) ⟨i, s, w⟩) := by
  have hmoved := hx.unmoved hmuted
  simp only [bind, EStateM.bind, Processor.effect]
  cases h : x w with
  | ok b v => exact hk b v (hmoved.of_ok h)
  | error e v => exact hP v (hmoved.of_error h)

end Ends

section

variable {P : World κ φ → Prop} {i : Image} {s : Stack} {w : World κ φ}

theorem ends_effectiveAddress {place : Place} {k : Nat → Exec κ φ α} (hw : P w)
    (hk : ∀ a j t, Ends P (k a ⟨j, t, w⟩)) : Ends P ((effectiveAddress place >>= k) ⟨i, s, w⟩) := by
  -- What follows the index is the same whether it was popped or not.
  have hoffset (index : Word) (t : Stack) : Ends P
      (((do
        let offset ← Processor.fetch Image.int16
        let a := (index + offset.toInt32).address
        if place.framed then return (a + (← region).start) % addressSpace
        else return a) >>= k) ⟨i, t, w⟩) := by
    rw [bind_assoc]
    refine .fetch hw fun offset j _ => ?_
    by_cases hframed : place.framed
    · simp only [hframed, if_true, bind_assoc, pure_bind]
      exact hk _ j t
    · simp only [hframed, Bool.false_eq_true, if_false, pure_bind]
      exact hk _ j t
  by_cases hindexed : place.indexed
  · simp only [effectiveAddress, hindexed, if_true]
    rw [bind_assoc]
    exact .take hw fun index t _ => hoffset index t
  · simp only [effectiveAddress, hindexed, Bool.false_eq_true, if_false, pure_bind]
    exact hoffset 0 s

theorem ends_formatArguments {k : List Word → Exec κ φ α} (hw : P w)
    (hk : ∀ args count t, args.length = count.lowByte.toNat →
      s.toList = t.toList ++ args ++ [count] →
      Ends P (k args ⟨i, t, w⟩)) : Ends P ((formatArguments >>= k) ⟨i, s, w⟩) := by
  rw [formatArguments, bind_assoc]
  refine .take hw fun count t hpop => ?_
  rw [bind_assoc]
  refine .take hw fun args u hblock => hk _ count u (by simp) ?_
  rw [Stack.toList_of_pop hpop, Stack.toList_of_popBlock (Stack.toNat_lt_moveLimit _) hblock]

theorem ends_call {r : Routine κ φ} (harity : r.arity < Stack.moveLimit) (hw : P w)
    (hbody : ∀ (v : Fin r.arity → Word) (below : List Word), s.toList = below ++ List.ofFn v →
      r.body.Leaves P v w) : Ends P (call r ⟨i, s, w⟩) := by
  obtain ⟨popping, arity, body⟩ := r
  obtain ⟨x, hargs, _, hwords⟩ := exists_popArguments (κ := κ) (φ := φ) popping harity
  simp only [call, hargs]
  refine .take hw fun args t hpop => ?_
  have hleaves := hbody args.get t.toList (hwords s args t hpop)
  cases body with
  | procedure run =>
    simp only [effect]
    cases h : run args.get w with
    | ok _ v => exact hleaves.of_ok h
    | error e v => exact hleaves.of_error h
  | function run =>
    simp only [bind, EStateM.bind, effect]
    cases h : run args.get w with
    | ok b v => exact .push (hleaves.of_ok h) b
    | error e v => exact hleaves.of_error h

open Memory

theorem ends_popParameters (frame count : Nat) :
    Ends (fun v => v.seed = w.seed ∧ WritesIn (Within (frame + 5) (4 * count)) w.memory v.memory)
      ((popParameters frame count : Exec κ φ Unit) ⟨i, s, w⟩) := by
  induction count generalizing s w with
  | zero => exact ⟨rfl, .refl _⟩
  | succ count ih =>
    refine .take ⟨rfl, .refl _⟩ fun value t _ => ?_
    have hslot : WritesIn (Within (frame + 5) (4 * (count + 1))) w.memory
        (w.memory.setLong (frame + 5 + 4 * count) value) := by
      refine (w.memory.writesIn_setBytes _ 4 value).mono fun b hb => ?_
      obtain ⟨j, hj, hb⟩ := hb
      exact ⟨4 * count + j, by omega, by rw [hb, Nat.add_assoc (frame + 5)]⟩
    refine (ih (w := { w with memory := w.memory.setLong (frame + 5 + 4 * count) value })).imp
      fun p hp => ?_
    exact ⟨hp.1, hslot.trans (hp.2.mono fun _ hb => hb.mono (by omega))⟩

theorem ends_copyData (a count : Nat) :
    Ends (fun v => v.seed = w.seed ∧ v.memory.region = w.memory.region ∧
        ∀ b, v.memory.getByte b ≠ w.memory.getByte b →
        Within a count b ∧ ∃ j, w.memory.cell b = .own j)
      ((copyData a count : Exec κ φ Unit) ⟨i, s, w⟩) := by
  induction count generalizing i a w with
  | zero => exact ⟨rfl, rfl, fun b hb => absurd rfl hb⟩
  | succ count ih =>
    refine .fetch ⟨rfl, rfl, fun b hb => absurd rfl hb⟩ fun x j _ => ?_
    let next := w.memory.setOwnByte a x
    refine (ih (w := { w with memory := next }) (a + 1)).imp fun p hp =>
      ⟨hp.1, hp.2.1, fun b hb => ?_⟩
    by_cases hnext : p.world.memory.getByte b = next.getByte b
    · obtain ⟨hmod, hown⟩ := getByte_setOwnByte_of_ne (hnext ▸ hb)
      exact ⟨(Within.head a count).congr hmod, hown⟩
    · obtain ⟨hwithin, index, hown⟩ := hp.2.2 b hnext
      exact ⟨hwithin.tail, index, by rw [← hown, cell_congr (w.memory.shape_setOwnByte a x)]⟩

theorem confines_enter (hshare : w.memory.Unshared) :
    Ends (Opcode.entry.Confines i.rest s.toList w) ((enter : Exec κ φ Unit) ⟨i, s, w⟩) := by
  let frame := w.memory.region.limit
  let saved := w.memory.setInt (frame + 3) (Int32.ofNat w.memory.region.start)
  let slots := ((i.rest.drop 2).headD 0).toNat
  have hheader {b : Nat} (hb : saved.getByte b ≠ w.memory.getByte b) :
      Within (frame + 3) (2 + 4 * slots) b :=
    ((w.memory.writesIn_setBytes _ 2 _).within_of_ne hshare hb).mono (Nat.le_add_right _ _)
  -- The caller's frame is saved already when a fetch fails.
  have hsaved : Opcode.entry.Confines i.rest s.toList w { w with memory := saved } :=
    ⟨fun _ => .inr (.inl rfl), fun hs => absurd rfl hs, fun b hb => .entry (hheader hb)⟩
  refine .fetch (w := { w with memory := saved }) hsaved fun size j hsize =>
    .fetch hsaved fun count k hcount => ?_
  obtain ⟨rfl, rfl⟩ := Image.reads_address.of_ok hsize
  obtain ⟨hvalue, rfl⟩ := Image.reads_byte.of_ok hcount
  have hslots : count.toNat = slots := by
    rw [hvalue, Image.rest_skip]
    cases h : i.rest.drop 2 <;> simp [slots, h]
  let opened :=
    saved.setRegion
      ((w.memory.region.setStart frame).setLimit (frame + Bytes.toNat (i.rest.take 2)))
  have hopened : opened.Unshared := (hshare.writes (w.memory.writes_setBytes _ 2 _)).setRegion _
  refine (ends_popParameters (w := { w with memory := opened }) frame count.toNat).imp
    fun p hp => ?_
  refine ⟨fun _ => .inr (.inl rfl), fun hs => absurd hp.1 hs, fun b hb => .entry ?_⟩
  by_cases hopen : p.world.memory.getByte b = saved.getByte b
  · exact hheader (hopen ▸ hb)
  · obtain ⟨n, hn, hb⟩ := hp.2.within_of_ne hopened hopen
    exact ⟨2 + n, by omega, by rw [hb]; congr 1; omega⟩

theorem confines_sprintf (hshare : w.memory.Unshared) :
    Ends (Opcode.sprintf.Confines i.rest s.toList w) ((sprintf : Exec κ φ Unit) ⟨i, s, w⟩) := by
  refine ends_formatArguments (.refl w) fun args count t hlen hwords => ?_
  match args with
  | [] => exact .refl w
  | [_] => exact .refl w
  | dst :: format :: args =>
    refine .of_writesIn hshare rfl (writesIn_terminated _ _ _ _) fun b hb => ?_
    rw [hwords]
    rw [List.length_map] at hb
    exact .sprintf hlen hb

variable [Keyboard κ] [Disk φ]

theorem confines_dataInit :
    Ends (Opcode.dataInit.Confines i.rest s.toList w) (execute .dataInit ⟨i, s, w⟩) := by
  refine .fetch (.refl w) fun a j ha => .fetch (.refl w) fun count k hcount => ?_
  obtain ⟨rfl, rfl⟩ := Image.reads_address.of_ok ha
  obtain ⟨rfl, rfl⟩ := Image.reads_address.of_ok hcount
  refine (ends_copyData _ _).imp fun p hp =>
    ⟨fun hr => absurd hp.2.1 hr, fun hs => absurd hp.1 hs, fun b hb => ?_⟩
  obtain ⟨hwithin, index, hown⟩ := hp.2.2 b hb
  rw [Image.rest_skip] at hwithin
  exact .dataInit hwithin hown

theorem confines_printf (hmuted : w.Muted) :
    Ends (Opcode.printf.Confines i.rest s.toList w) ((printf : Exec κ φ Unit) ⟨i, s, w⟩) := by
  have hupdate (t : Stack) (v : World κ φ) (hv : w.Unmoved v) :
      Ends (Opcode.printf.Confines i.rest s.toList w)
      ((effect (World.type (.update 0)) : Exec κ φ Unit) ⟨i, t, v⟩) := by
    rw [← bind_pure (effect _)]
    exact .effect (.type _) (hv.muted hmuted) (fun _ hu => .of_unmoved (hv.trans hu))
      fun _ _ hu => .of_unmoved (hv.trans hu)
  refine ends_formatArguments (.refl w) fun args count t _ _ => ?_
  cases args with
  | nil => exact hupdate t w (.refl w)
  | cons format args =>
    refine .effect (.readMemory _) hmuted (fun _ hu => .of_unmoved hu) fun codes v hv => ?_
    refine .effect (.forM (fun code => .type _) codes) (hv.muted hmuted)
      (fun _ hu => .of_unmoved (hv.trans hu)) ?_
    exact fun _ u hu => hupdate t u (hv.trans hu)

/-- Whatever becomes of it, an instruction changes only what it may. -/
theorem confines_execute (hmuted : w.Muted) (hshare : w.memory.Unshared) (op : Opcode) :
    Ends (op.Confines i.rest s.toList w) (execute op ⟨i, s, w⟩) := by
  have hsame {op : Opcode} : op.Confines i.rest s.toList w w := .refl w
  cases op with
  | nop | stop | invalid => exact hsame
  | push width =>
    cases width with
    | char | int =>
      simp only [execute, literal, bind_assoc, pure_bind]
      exact .fetch hsame fun _ _ _ => .push hsame _
    | long => exact .fetch hsame fun _ _ _ => .push hsame _
  | cell place use =>
    refine ends_effectiveAddress hsame fun a j t => ?_
    cases use with
    | value width => exact .push hsame _
    | reference width => exact .push hsame _
    | address => exact .push hsame _
  | intern =>
    refine .fetch hsame fun text j _ => .push ?_ _
    exact ⟨fun hr => absurd rfl hr, fun hs => absurd rfl hs,
      fun b hb => .intern (covers_of_intern_ne hb)⟩
  | base plane => exact .push hsame _
  | unary op => exact .take hsame fun _ _ _ => .push hsame _
  | binary op => exact .take hsame fun _ _ _ => .push hsame _
  | immediate op => exact .fetch hsame fun _ _ _ => .take hsame fun _ _ _ => .push hsame _
  | increment delta old =>
    refine .take hsame fun target t hpop => .push ?_ _
    rw [Stack.toList_of_pop hpop]
    exact .of_writesIn hshare rfl (writesIn_setBytes _ _ _ _) fun b => .increment
  | store =>
    refine .take hsame fun value t hvalue => .take hsame fun target u htarget => .push ?_ _
    rw [Stack.toList_of_pop hvalue, Stack.toList_of_pop htarget, List.append_assoc]
    exact .of_writesIn hshare rfl (writesIn_setBytes _ _ _ _) fun b => .store
  | dereference => exact .take hsame fun _ _ _ => .push hsame _
  | makeReference => exact .take hsame fun _ _ _ => .push hsame _
  | drop => exact .take hsame fun _ _ _ => hsame
  | branch onZero =>
    refine .fetch hsame fun target j _ => .take hsame fun top t _ => ?_
    split <;> exact hsame
  | jump => exact .fetch hsame fun _ _ _ => hsame
  | mark =>
    refine .fetch hsame fun a j _ => ?_
    exact ⟨fun _ => .inl rfl, fun hs => absurd rfl hs, fun b hb => absurd rfl hb⟩
  | invoke =>
    refine .fetch hsame fun target j _ => .fetch hsame fun saved k _ => ?_
    exact .of_writesIn hshare rfl (writesIn_setOffset _ _ _) fun b => .invoke
  | entry => exact confines_enter hshare
  | leave => exact ⟨fun _ => .inr (.inr rfl), fun hs => absurd rfl hs, fun b hb => absurd rfl hb⟩
  | dataInit => exact confines_dataInit
  | printf => exact confines_printf hmuted
  | sprintf => exact confines_sprintf hshare
  | call c =>
    refine ends_call c.arity_lt_moveLimit hsame fun v below hwords => ?_
    rw [hwords]
    exact c.confines_routine hmuted hshare v

theorem execute_pickFile (hmuted : w.Muted) :
    Ends w.Unmoved (execute (.call .pickFile) ⟨i, s, w⟩) ∨
    ∃ below dst name t v, s.toList = below ++ [dst] ∧ t.toList = below ++ [Word.ofBool true] ∧
      name ∈ Picker.offers w ∧ v.memory = Picker.store dst.address name w.memory ∧
      execute (.call .pickFile) ⟨i, s, w⟩ = .ok () ⟨i, t, v⟩ := by
  have hexecute : execute (.call .pickFile) ⟨i, s, w⟩ = (do
      let args ← onStack (Stack.popEach 1)
      push (← effect (Picker.pick (args.get 0).address)) : Exec κ φ Unit) ⟨i, s, w⟩ := rfl
  rw [hexecute]
  simp only [bind, EStateM.bind, onStack]
  cases hpop : Stack.popEach 1 s with
  | error e t => exact .inl (.refl w)
  | ok args t =>
    have hwords : s.toList = t.toList ++ [args.get 0] := by
      rw [Stack.toList_of_popEach hpop, toList_eq_ofFn]
      rfl
    have hpicks := Picker.picks_pick hmuted (args.get 0).address
    simp only [effect]
    generalize Picker.pick (args.get 0).address w = r at hpicks
    cases hpicks with
    | none hleaves =>
      left
      cases r with
      | ok answer v => exact .push hleaves answer
      | error e v => exact hleaves
    | @some name v hname hmemory _ =>
      right
      -- The argument has made room for the answer.
      have hroom : t.toList.length < t.capacity := by
        have hdepth := congrArg List.length hwords
        rw [List.length_append, Stack.length_toList, List.length_singleton] at hdepth
        rw [(Stack.takes_popEach 1).capacity_eq hpop]
        exact Nat.lt_of_lt_of_le (by omega) s.depth_le
      obtain ⟨u, hpush, hu, _⟩ := Stack.push_of_lt hroom (Word.ofBool true)
      refine ⟨t.toList, args.get 0, name, u, v, hwords, hu, hname, hmemory, ?_⟩
      simp only [push, onStack, hpush]

end

end Processor

namespace Machine

theorem settle_ends {P : World κ φ → Prop} (hP : ∀ w bus, P w → P { w with bus }) (offset : Nat)
    {r : EStateM.Result Fault (Processor κ φ) Bool} (h : Processor.Ends P r) :
    P (settle offset r).2.world := by
  cases r with
  | ok finished p =>
    obtain ⟨bus, hsettle⟩ := settle_ok offset finished p.image p.stack p.world
    rw [hsettle]
    exact hP _ bus h
  | error f p =>
    obtain ⟨bus, _, hsettle⟩ := settle_error offset f p
    rw [hsettle]
    exact hP _ bus h

variable [Keyboard κ] [Disk φ] {m : Machine κ φ} {i : Image} {op : Opcode}

theorem unmoved_step_of_opcode?_eq_none (h : m.opcode? = none) :
    m.world.Unmoved m.step.2.world := by
  cases m.step_cases with
  | unloaded _ hstep | ended _ hstep | detached _ _ hstep =>
    rw [hstep]
    exact .refl _
  | live i hlive himage hstep =>
    rw [hstep]
    refine settle_ends (fun _ _ hw => ⟨hw.memory, hw.seed, hw.display, hw.teletype⟩) _ ?_
    have hop : i.opcodeAt i.cursor = none := by
      cases hop : i.opcodeAt i.cursor with
      | none => rfl
      | some op => rw [opcode?_of_live hlive himage hop] at h; cases h
    obtain hlt | hle := Nat.lt_or_ge i.cursor i.bytes.size
    · obtain ⟨detail, hunassigned⟩ :=
        Processor.step_of_unassigned (s := m.stack) (w := m.world) hlt hop
      rw [hunassigned]
      exact .refl _
    · rw [Processor.step_of_size_le hle]
      exact .refl _

theorem confines_step (hmuted : m.world.Muted) (hshare : m.world.memory.Unshared)
    (hop : m.opcode? = some op) (himage : m.image = some i) :
    op.Confines (i.skip 1).rest m.stack.toList m.world m.step.2.world := by
  obtain ⟨bus, hstep⟩ := step_of_opcode? hop himage
  rw [hstep]
  refine settle_ends (fun _ _ hw => ⟨hw.region, hw.seed, hw.memory⟩) _ ?_
  have hexecute :=
    Processor.confines_execute (i := i.skip 1) (s := m.stack) (w := { m.world with bus })
    ⟨hmuted.display, hmuted.teletype⟩ hshare op
  refine Leaves.bind (fun e p hp => ?_) fun _ p hp => ?_
  · have h := hexecute.of_error hp
    exact ⟨h.region, h.seed, h.memory⟩
  · have h := hexecute.of_ok hp
    exact ⟨h.region, h.seed, h.memory⟩

/-- What the next step may change. -/
structure Confined (m : Machine κ φ) : Prop where
  region : m.step.2.region ≠ m.region →
    m.opcode? = some .mark ∨ m.opcode? = some .entry ∨ m.opcode? = some .leave
  seed : m.step.2.world.seed ≠ m.world.seed →
    m.opcode? = some (.call .random) ∨ m.opcode? = some (.call .seedRandom)
  memory (b : Nat) : m.step.2.world.memory.getByte b ≠ m.world.memory.getByte b →
    ∃ op i, m.opcode? = some op ∧ m.image = some i ∧
      op.Touches (i.skip 1).rest m.world.memory m.step.2.world.memory b m.stack.toList
  picked : m.opcode? = some (.call .pickFile) → m.step.2.world.memory ≠ m.world.memory →
    ∃ below dst name bus, m.stack.toList = below ++ [dst] ∧ m.step.1 = .ok () ∧
      m.step.2.stack.toList = below ++ [Word.ofBool true] ∧ m.world.bus.Logged bus ∧
      name ∈ Picker.offers { m.world with bus } ∧
      m.step.2.world.memory = Picker.store dst.address name m.world.memory

theorem picked_step (hmuted : m.world.Muted) (hop : m.opcode? = some (.call .pickFile))
    (himage : m.image = some i) (hchanged : m.step.2.world.memory ≠ m.world.memory) :
    ∃ below dst name bus, m.stack.toList = below ++ [dst] ∧ m.step.1 = .ok () ∧
      m.step.2.stack.toList = below ++ [Word.ofBool true] ∧ m.world.bus.Logged bus ∧
      name ∈ Picker.offers { m.world with bus } ∧
      m.step.2.world.memory = Picker.store dst.address name m.world.memory := by
  obtain ⟨hlive, i', hi', hat⟩ := live_of_opcode? hop
  obtain rfl : i' = i := Option.some.inj (hi'.symm.trans himage)
  obtain ⟨text, hok, herror⟩ := Processor.step_of_execute (s := m.stack) (w := m.world) hat
  let w : World κ φ := { m.world with bus := m.world.bus.log .trace text }
  rw [step_eq_settle hlive himage] at hchanged ⊢
  obtain hmoved | ⟨below, dst, name, t, v, hwords, ht, hname, hmemory, hexecute⟩ :=
    Processor.execute_pickFile (i := i'.skip 1) (s := m.stack) (w := w)
      ⟨hmuted.display, hmuted.teletype⟩
  · refine absurd (settle_ends (P := fun v => v.memory = m.world.memory) (fun _ _ h => h) _ ?_)
      hchanged
    cases hr : Processor.execute (.call .pickFile) ⟨i'.skip 1, m.stack, w⟩ with
    | ok _ p =>
      rw [hok p hr]
      exact (hmoved.of_ok hr).memory
    | error f p =>
      rw [herror f p hr]
      exact (hmoved.of_error hr).memory
  · rw [hok _ hexecute]
    exact ⟨below, dst, name, w.bus, hwords, rfl, ht, m.world.bus.logged_log _ _, hname, hmemory⟩

theorem confined_of_unshared (hmuted : m.world.Muted) (hshare : m.world.memory.Unshared) :
    m.Confined := by
  cases hop : m.opcode? with
  | none =>
    have hmoved := unmoved_step_of_opcode?_eq_none hop
    exact {
      region := fun hr => absurd (congrArg Memory.region hmoved.memory) hr
      seed := fun hs => absurd hmoved.seed hs
      memory := fun b hb => absurd (by rw [hmoved.memory]) hb
      picked := fun h => by rw [hop] at h; cases h }
  | some op =>
    obtain ⟨_, i, himage, _⟩ := live_of_opcode? hop
    have hconfines := confines_step hmuted hshare hop himage
    exact {
      region := fun hr => by simpa [hop] using hconfines.region hr
      seed := fun hs => by simpa [hop] using hconfines.seed hs
      memory := fun b hb => ⟨op, i, hop, himage, hconfines.memory b hb⟩
      picked := fun h => picked_step hmuted h himage }

/-- A machine that was made without a screen and a console never has a window. -/
theorem bare_obeyAll {config : Config} {keyboard : κ} {disk : φ} {journal : Journal} {clock : Clock}
    (hcreate : create config .detached .detached keyboard disk journal clock = .ok m)
    (commands : List Command) :
    (m.obeyAll commands).world.Muted ∧ (m.obeyAll commands).world.memory.Unshared := by
  have hnew : m.Upholds config.stackSize fun w => w.Bare config := by
    rw [(create_eq_ok hcreate).1]
    exact ⟨Array.size_replicate, rfl, rfl, .refl _, .refl _⟩
  have hbare := (hnew.obeyAll (World.kept_bare config) commands).world
  have hmappings : (m.obeyAll commands).world.memory.mappings = [] :=
    congrArg Memory.Shape.mappings hbare.2.1
  refine ⟨⟨hbare.detached.1, hbare.detached.2⟩, ?_⟩
  simp [Memory.Unshared, hmappings]

/-- On a machine without a screen and a console, a step changes nothing but its instruction's
footprint, whether it succeeds or not and whatever keyboard and disk answer. All that is asked of
memory is that no window is mapped twice, and such a machine maps none, whatever it has been
through. -/
theorem step_confined :
    (∀ m : Machine κ φ, m.world.display = .detached → m.world.teletype = .detached →
      m.world.memory.Unshared → m.Confined) ∧
    ∀ (config : Config) (keyboard : κ) (disk : φ) (journal : Journal) (clock : Clock)
      (m : Machine κ φ), create config .detached .detached keyboard disk journal clock = .ok m →
      ∀ commands : List Command, (m.obeyAll commands).Confined := by
  refine ⟨fun m hdisplay hteletype hshare => confined_of_unshared ⟨hdisplay, hteletype⟩ hshare, ?_⟩
  intro config keyboard disk journal clock m hcreate commands
  obtain ⟨hmuted, hshare⟩ := bare_obeyAll hcreate commands
  exact confined_of_unshared hmuted hshare

/-- Two bytes are filled and the one behind them stays. -/
theorem step_confined_fill :
    let m := bare #[172] ⟨#[0x2000, 7, 2], 3, by decide⟩
    m.opcode? = some (.call .fillMemory) ∧ m.step.1 = .ok () ∧
      m.step.2.world.memory.getByte 0x2002 = m.world.memory.getByte 0x2002 := by
  intro m
  have hop : m.opcode? = some (.call .fillMemory) := by decide +kernel
  have hshare : m.world.memory.Unshared := List.nodup_nil
  have hconfined : m.Confined := step_confined.1 m rfl rfl hshare
  refine ⟨hop, rfl, ?_⟩
  by_contra hne
  obtain ⟨op, i, hop', _, htouches⟩ := hconfined.memory _ hne
  obtain rfl : op = .call .fillMemory := Option.some.inj (hop'.symm.trans hop)
  have hwords : m.stack.toList = [] ++ [0x2000, 7, 2] := rfl
  generalize m.stack.toList = words at hwords htouches
  cases htouches with
  | @call below args _ hlen hcall =>
    cases hcall with
    | @fillMemory dst value size hwithin =>
      obtain ⟨_, hargs⟩ := List.append_inj' hwords rfl
      cases hargs
      obtain ⟨n, hn, hmod⟩ := hwithin
      have haddress : (0x2000 : Word).address = 0x2000 := by decide
      have hsize : (2 : Word).length = 2 := by decide
      rw [haddress] at hmod
      rw [hsize] at hn
      simp only [addressSpace] at hmod
      omega

end Machine
end LavMachine
