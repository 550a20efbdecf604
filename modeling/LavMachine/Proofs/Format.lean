import Mathlib
import LavMachine.Format
import LavMachine.Proofs.Memory.Search
set_option autoImplicit false

/-!
Formatted text as a function of the format's bytes. The narrow form is the expansion that the
grammar gives. The wide form meets the same bytes two at a time; taken apart again it is the narrow
form, unless a percent sign was the second byte of a double-byte character: only the narrow form
takes that one for a conversion.
-/
namespace LavMachine

namespace Memory

inductive Spells (m : Memory) : Nat → Bytes → Prop where
  | nil {a : Nat} : m.getByte a = 0 → Spells m a []
  | cons {a : Nat} {b : UInt8} {rest : Bytes} : m.getByte a = b → b ≠ 0 → Spells m (a + 1) rest →
    Spells m a (b :: rest)

theorem spells_stringWithin (m : Memory) {a fuel : Nat}
    (h : (m.stringWithin a fuel).length < fuel) :
    m.Spells a (m.stringWithin a fuel) := by
  induction fuel generalizing a with
  | zero => simp at h
  | succ fuel ih =>
    rw [stringWithin_succ] at h ⊢
    by_cases hzero : m.getByte a = 0
    · rw [if_pos hzero]
      exact .nil hzero
    · rw [if_neg hzero, List.length_cons] at h
      rw [if_neg hzero]
      exact .cons rfl hzero (ih (by omega))

theorem spells_string {m : Memory} (h : ∃ z < addressSpace, m.getByte z = 0) (a : Nat) :
    m.Spells a (m.string a) ∧ (m.string a).length < addressSpace := by
  have hlt : m.stringLength a < addressSpace := (m.stringLength_lt_iff a).2 h
  rw [← length_string] at hlt
  exact ⟨m.spells_stringWithin hlt, hlt⟩

end Memory

namespace Format

def digits (w : Word) : Bytes := (toString w.toInt).toList.map fun c => UInt8.ofNat c.toNat

/-- What `%d`, `%c` and `%s` make of an argument. -/
def conversion? (m : Memory) (c : UInt8) (arg : Word) : Option Bytes :=
  if c = 0x64 then some (digits arg)
  else if c = 0x63 then some [arg.lowByte]
  else if c = 0x73 then some (m.string arg.address)
  else none

/-- What a format makes of its arguments. -/
def reference (m : Memory) : Bytes → List Word → Bytes
  | [], _ => []
  | b :: rest, args =>
    if b = 0x25 then
      match rest with
      | [] => []
      | c :: rest =>
        match conversion? m c (args.headD 0) with
        | some text => text ++ reference m rest args.tail
        | none => c :: reference m rest args
    else b :: reference m rest args

/-- The double-byte characters that the wide form finds among the literal bytes of a format. -/
def doubles : Bytes → List (UInt8 × UInt8)
  | [] | [_] => []
  | b :: c :: rest =>
    if b = 0x25 then doubles rest
    else if b ≥ 0x80 then (b, c) :: doubles rest
    else doubles (c :: rest)

def halves (code : UInt16) : List UInt16 := if code > 0xff then [code % 256, code / 256] else [code]

theorem halves_toUInt16 : ∀ b : UInt8, halves b.toUInt16 = [b.toUInt16] := by decide +kernel

theorem toNat_join (first second : UInt8) :
    (join first second).toNat = first.toNat + 256 * second.toNat := by
  have hfirst : first.toNat < 2 ^ 8 := first.toNat_lt
  have hsecond := second.toNat_lt
  have hhigh : second.toNat <<< 8 % 2 ^ 16 = second.toNat <<< 8 := by
    rw [Nat.shiftLeft_eq]
    omega
  have hshift : (second.toUInt16 <<< 8).toNat = second.toNat <<< 8 := by
    rw [UInt16.toNat_shiftLeft]
    exact hhigh
  rw [join, UInt16.toNat_or, hshift, UInt8.toNat_toUInt16,
    Nat.or_comm, ← Nat.shiftLeft_add_eq_or_of_lt hfirst, Nat.shiftLeft_eq]
  omega

theorem halves_join {first second : UInt8} (h : second ≠ 0) :
    halves (join first second) = [first.toUInt16, second.toUInt16] := by
  have hcode := toNat_join first second
  have hfirst := first.toNat_lt
  have hsecond : second.toNat ≠ 0 := fun hzero => h (UInt8.toNat_inj.1 hzero)
  have hlarge : join first second > 0xff := by
    rw [gt_iff_lt, UInt16.lt_iff_toNat_lt, hcode]
    change 255 < _
    omega
  have hlow : join first second % 256 = first.toUInt16 := by
    rw [← UInt16.toNat_inj, UInt16.toNat_mod, hcode, UInt8.toNat_toUInt16]
    change _ % 256 = _
    omega
  have hhigh : join first second / 256 = second.toUInt16 := by
    rw [← UInt16.toNat_inj, UInt16.toNat_div, hcode, UInt8.toNat_toUInt16]
    change _ / 256 = _
    omega
  rw [halves, if_pos hlarge, hlow, hhigh]

theorem toNat_lt_of_mem_repr {n : Nat} {c : Char} (h : c ∈ n.repr.toList) : c.toNat < 256 := by
  rw [Nat.repr_eq_ofList_toDigits, String.toList_ofList] at h
  have hdigit := Char.isDigit_iff_toNat.1 (Nat.isDigit_of_mem_toDigits (by decide) (by decide) h)
  exact Nat.lt_of_le_of_lt hdigit.2 (by decide)

theorem toNat_lt_of_mem_toString {n : Int} {c : Char} (h : c ∈ (toString n).toList) :
    c.toNat < 256 := by
  rw [Int.toString_eq_repr, Int.repr_eq_if] at h
  split at h
  · exact toNat_lt_of_mem_repr h
  · rw [String.toList_append, List.mem_append] at h
    obtain hsign | hdigit := h
    · obtain rfl : c = '-' := by simpa using hsign
      decide
    · exact toNat_lt_of_mem_repr hdigit

theorem decimal_eq (w : Word) : decimal w = (digits w).map UInt8.toUInt16 := by
  rw [decimal, digits, List.map_map]
  refine List.map_congr_left fun c hc => ?_
  have hlt := toNat_lt_of_mem_toString hc
  rw [Function.comp_apply, ← UInt16.toNat_inj, UInt8.toNat_toUInt16, UInt16.toNat_ofNat',
    UInt8.toNat_ofNat']
  omega

/-- A way to take codes apart that gives back the bytes which a form has put into them. -/
structure Undoes (wide : Bool) (parts : UInt16 → List UInt16) : Prop where
  byte (b : UInt8) : parts b.toUInt16 = [b.toUInt16]
  pair : wide = true → ∀ first second : UInt8, second ≠ 0 →
    parts (join first second) = [first.toUInt16, second.toUInt16]

theorem undoes_halves (wide : Bool) : Undoes wide halves :=
  ⟨halves_toUInt16, fun _ _ _ => halves_join⟩

theorem undoes_singleton : Undoes false fun code => [code] := ⟨fun _ => rfl, nofun⟩

def spread (parts : UInt16 → List UInt16) (out : List UInt16) : List UInt16 :=
  out.reverse.flatMap parts

section

variable {m : Memory} {wide : Bool} {parts : UInt16 → List UInt16} {fuel a : Nat}

theorem spread_cons (parts : UInt16 → List UInt16) (code : UInt16) (out : List UInt16) :
    spread parts (code :: out) = spread parts out ++ parts code := by
  simp [spread]

theorem spread_reverse_append (h : Undoes wide parts) (bytes : Bytes) (out : List UInt16) :
    spread parts ((bytes.map UInt8.toUInt16).reverse ++ out) =
      spread parts out ++ bytes.map UInt8.toUInt16 := by
  induction bytes generalizing out with
  | nil => simp
  | cons b bytes ih => simpa [spread_cons, h.byte] using ih (b.toUInt16 :: out)

theorem spread_textFrom (hparts : Undoes wide parts) {text : Bytes} (h : m.Spells a text)
    (hfuel : text.length < fuel) (out : List UInt16) :
    spread parts (textFrom m wide fuel a out) = spread parts out ++ text.map UInt8.toUInt16 := by
  induction fuel generalizing a out text with
  | zero => omega
  | succ fuel ih =>
    cases h with
    | nil hend => simp [textFrom, hend]
    | @cons _ b rest hb hne hrest =>
      rw [List.length_cons] at hfuel
      by_cases hlead : wide = true ∧ b ≥ 0x80
      · obtain ⟨rfl, hlead⟩ := hlead
        cases hrest with
        | nil hend => simp [textFrom, hb, hne, hlead, hend, spread_cons, hparts.byte]
        | @cons _ c rest hc hcne hrest =>
          rw [List.length_cons] at hfuel
          have hturn : textFrom m true (fuel + 1) a out =
              textFrom m true fuel (a + 2) (join b c :: out) := by
            simp [textFrom, hb, hne, hlead, hc, hcne]
          rw [hturn, ih hrest (by omega), spread_cons, hparts.pair rfl b c hcne]
          simp
      · have hturn : textFrom m wide (fuel + 1) a out =
            textFrom m wide fuel (a + 1) (b.toUInt16 :: out) := by
          simp [textFrom, hb, hne, hlead]
        rw [hturn, ih hrest (by omega), spread_cons, hparts.byte]
        simp

theorem spread_convert? (hparts : Undoes wide parts) (hzero : ∃ z < addressSpace, m.getByte z = 0)
    (c : UInt8) (arg : Word) (out : List UInt16) : (convert? m wide c arg out).map (spread parts) =
      (conversion? m c arg).map fun text => spread parts out ++ text.map UInt8.toUInt16 := by
  obtain ⟨hspells, hlength⟩ := m.spells_string hzero arg.address
  simp only [convert?, conversion?, beq_iff_eq]
  split_ifs with hd hc hs
  · simp [decimal_eq, spread_reverse_append hparts]
  · simp [spread_cons, hparts.byte]
  · simp [spread_textFrom hparts hspells hlength]
  · rfl

theorem reference_literal (m : Memory) {b : UInt8} (hb : b ≠ 0x25) (rest : Bytes)
    (args : List Word) :
    reference m (b :: rest) args = b :: reference m rest args := by
  cases rest <;> simp [reference, hb]

theorem doubles_ascii {b : UInt8} (hb : b ≠ 0x25) (hlow : ¬ b ≥ 0x80) (rest : Bytes) :
    doubles (b :: rest) = doubles rest := by
  cases rest <;> simp [doubles, hb, hlow]

end

section Turn

variable {m : Memory} {wide : Bool} {fuel a : Nat} {args : List Word} {out : List UInt16}
  {b c : UInt8} (hb : m.getByte a = b) (hc : m.getByte (a + 1) = c)

include hb

theorem expandFrom_literal (hne : b ≠ 0) (hpercent : b ≠ 0x25)
    (hlead : ¬ (wide = true ∧ b ≥ 0x80)) :
    expandFrom m wide (fuel + 1) a args out =
      expandFrom m wide fuel (a + 1) args (b.toUInt16 :: out) := by
  simp [expandFrom, hb, hne, hpercent, hlead]

include hc

theorem expandFrom_pair (hne : b ≠ 0) (hpercent : b ≠ 0x25) (hlead : b ≥ 0x80) (hcne : c ≠ 0) :
    expandFrom m true (fuel + 1) a args out =
      expandFrom m true fuel (a + 2) args (join b c :: out) := by
  simp [expandFrom, hb, hne, hpercent, hlead, hc, hcne]

theorem expandFrom_percent (hpercent : b = 0x25) (hcne : c ≠ 0) :
    expandFrom m wide (fuel + 1) a args out = match convert? m wide c (args.headD 0) out with
      | some out => expandFrom m wide fuel (a + 2) args.tail out
      | none => expandFrom m wide fuel (a + 2) args (c.toUInt16 :: out) := by
  have hend : ¬ (c == 0) = true := by simpa using hcne
  rewrite [expandFrom, hb, hpercent, hc, if_neg (by decide), if_pos (by decide), if_neg hend]
  rfl

end Turn

/-- Both forms stand for the bytes of the reference, whatever was collected before. -/
theorem spread_expandFrom {m : Memory} {wide : Bool} {parts : UInt16 → List UInt16} {fuel a : Nat}
    (hparts : Undoes wide parts) (hzero : ∃ z < addressSpace, m.getByte z = 0) {format : Bytes}
    (h : m.Spells a format) (hfuel : format.length < fuel)
    (hdoubles : wide = true → ∀ lead, (lead, 0x25) ∉ doubles format) (args : List Word)
    (out : List UInt16) :
    spread parts (expandFrom m wide fuel a args out) =
      spread parts out ++ (reference m format args).map UInt8.toUInt16 := by
  -- A turn may take two bytes, so the induction is on the fuel and not on the format.
  induction fuel generalizing a format args out with
  | zero => omega
  | succ fuel ih =>
    cases h with
    | nil hend => simp [expandFrom, hend, reference]
    | @cons _ b rest hb hne hrest =>
      rw [List.length_cons] at hfuel
      by_cases hpercent : b = 0x25
      · cases hrest with
        | nil hend => simp [expandFrom, hb, hpercent, hend, reference]
        | @cons _ c rest hc hcne hrest =>
          rw [List.length_cons] at hfuel
          simp only [doubles, if_pos hpercent] at hdoubles
          have hconvert := spread_convert? hparts hzero c (args.headD 0) out
          rw [expandFrom_percent hb hc hpercent hcne, reference, if_pos hpercent]
          cases hconversion : conversion? m c (args.headD 0) with
          | none =>
            rw [hconversion, Option.map_none, Option.map_eq_none_iff] at hconvert
            simp only [hconvert]
            rw [ih hrest (by omega) hdoubles, spread_cons, hparts.byte]
            simp
          | some text =>
            rw [hconversion, Option.map_some, Option.map_eq_some_iff] at hconvert
            obtain ⟨out', hconvert, hout⟩ := hconvert
            simp only [hconvert]
            rw [ih hrest (by omega) hdoubles, hout]
            simp
      · rw [reference_literal m hpercent]
        by_cases hlead : wide = true ∧ b ≥ 0x80
        · obtain ⟨rfl, hlead⟩ := hlead
          replace hdoubles := hdoubles rfl
          cases hrest with
          | nil hend =>
            simp [expandFrom, hb, hne, hpercent, hlead, hend, reference, spread_cons, hparts.byte]
          | @cons _ c rest hc hcne hrest =>
            rw [List.length_cons] at hfuel
            simp only [doubles, if_neg hpercent, if_pos hlead, List.mem_cons, Prod.mk.injEq, not_or]
              at hdoubles
            have hsecond : c ≠ 0x25 := fun hc => (hdoubles b).1 ⟨rfl, hc.symm⟩
            rw [expandFrom_pair hb hc hne hpercent hlead hcne,
              ih hrest (by omega) fun _ lead => (hdoubles lead).2, spread_cons,
              hparts.pair rfl b c hcne, reference_literal m hsecond]
            simp
        · have hrest' : wide = true → ∀ lead, (lead, 0x25) ∉ doubles rest := by
            intro hwide
            rw [← doubles_ascii hpercent fun hhigh => hlead ⟨hwide, hhigh⟩]
            exact hdoubles hwide
          rw [expandFrom_literal hb hne hpercent hlead, ih hrest (by omega) hrest', spread_cons,
            hparts.byte]
          simp

theorem spread_expand {m : Memory} {wide : Bool} {parts : UInt16 → List UInt16}
    (hparts : Undoes wide parts) (hzero : ∃ z < addressSpace, m.getByte z = 0) {a : Nat}
    (hdoubles : wide = true → ∀ lead, (lead, 0x25) ∉ doubles (m.string a)) (args : List Word) :
    (expand m a args wide).flatMap parts = (reference m (m.string a) args).map UInt8.toUInt16 := by
  obtain ⟨hspells, hlength⟩ := m.spells_string hzero a
  exact spread_expandFrom hparts hzero hspells hlength hdoubles args []

theorem expand_narrow {m : Memory} (hzero : ∃ z < addressSpace, m.getByte z = 0) (a : Nat)
    (args : List Word) :
    expand m a args false = (reference m (m.string a) args).map UInt8.toUInt16 := by
  have hspread := spread_expand undoes_singleton hzero (a := a) nofun args
  rwa [List.flatMap_singleton'] at hspread

/-- The narrow form is the expansion that the grammar gives. The wide form, with every double-byte
code taken apart, is the narrow one, if no double-byte character of the format ends in a percent
sign. -/
theorem expansion_follows_grammar {m : Memory} (hzero : ∃ z < addressSpace, m.getByte z = 0)
    (a : Nat) (args : List Word) :
    expand m a args false = (reference m (m.string a) args).map UInt8.toUInt16 ∧
    ((∀ lead, (lead, 0x25) ∉ doubles (m.string a)) →
      (expand m a args true).flatMap halves = expand m a args false) := by
  refine ⟨expand_narrow hzero a args, fun hdoubles => ?_⟩
  rw [spread_expand (undoes_halves true) hzero (fun _ => hdoubles), expand_narrow hzero]

/-- The string argument has a percent sign inside a double-byte character, the format has one behind
such a character, and the byte at its end is without a partner. -/
theorem expansion_follows_grammar_double :
    let format : Array UInt8 :=
      #[0xd6, 0xd0, 0x25, 0x73, 0x25, 0x64, 0x25, 0x21, 0x25, 0x63, 0xff, 0]
    let m := { Memory.blank (Pool.empty 4096 16) #[format ++ #[0xb0, 0x25, 0x41, 0]] with
      mappings := [⟨0x2000, 0⟩] : Memory }
    let args : List Word := [0x1200c, -7]
    m.getByte 0 = 0 ∧ doubles (m.string 0x2000) = [(0xd6, 0xd0)] ∧
      expand m 0x2000 args false = [0xd6, 0xd0, 0xb0, 0x25, 0x41, 0x2d, 0x37, 0x21, 0, 0xff] ∧
      expand m 0x2000 args true = [0xd0d6, 0x25b0, 0x41, 0x2d, 0x37, 0x21, 0, 0xff] ∧
      (expand m 0x2000 args true).flatMap halves = expand m 0x2000 args false := by
  intro format m args
  have hzero : m.getByte 0 = 0 := by decide +kernel
  have hdoubles : doubles (m.string 0x2000) = [(0xd6, 0xd0)] := by decide +kernel
  obtain ⟨hnarrow, hwide⟩ := expansion_follows_grammar ⟨0, by decide, hzero⟩ 0x2000 args
  refine ⟨hzero, hdoubles,
    hnarrow.trans (by decide +kernel), by decide +kernel, hwide fun lead => ?_⟩
  rw [hdoubles]
  simp

end Format
end LavMachine
