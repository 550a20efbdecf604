import Mathlib
import LavMachine.Machine.Routine
import LavMachine.Proofs.Word
set_option autoImplicit false

/-!
The period of the random numbers. A step multiplies the seed by a number that is 1 modulo 4 and adds
1. So `2 ^ k` steps keep the low `k` bits of a seed and flip the bit above them, whatever the seed,
and one bit after the other can be brought to any value: every word is reached before the first one
comes again.
-/
namespace LavMachine

variable {κ φ : Type}

def Routine.invoke (r : Routine κ φ) (args : Fin r.arity → Word) : Effect κ φ (List Word) :=
  match r.body with
  | .procedure run => do
    run args
    return []
  | .function run => return [← run args]

namespace Random

def draws [Keyboard κ] [Disk φ] : (n : Nat) → Effect κ φ (List Word)
  | 0 => return []
  | n + 1 => return (← draws n) ++ (← (SystemCall.routine .random).invoke Fin.elim0)

theorem invoke_random [Keyboard κ] [Disk φ] (w : World κ φ) :
    (SystemCall.routine .random).invoke Fin.elim0 w =
      .ok [output (next w.seed)] { w with seed := next w.seed } := rfl

theorem draws_eq [Keyboard κ] [Disk φ] (n : Nat) (w : World κ φ) :
    draws n w = .ok ((List.range n).map fun i => output (next^[i + 1] w.seed))
      { w with seed := next^[n] w.seed } := by
  induction n with
  | zero => rfl
  | succ n ih =>
    simp [draws, bind, EStateM.bind, ih, invoke_random, pure, EStateM.pure, List.range_succ,
      Function.iterate_succ_apply']

def unwrapped (n : Int) : Int := n * 22695477 + 1

theorem unwrapped_modEq {m a b : Int} (h : a ≡ b [ZMOD m]) : unwrapped a ≡ unwrapped b [ZMOD m] :=
  (h.mul_right _).add_right _

theorem toInt_next (seed : Word) : (next seed).toInt ≡ unwrapped seed.toInt [ZMOD 2 ^ 32] := by
  rw [next, Int32.toInt_add, Int32.toInt_mul, Int.bmod_add_bmod]
  exact Int.bmod_emod

theorem toInt_iterate_next (n : Nat) (seed : Word) :
    (next^[n] seed).toInt ≡ unwrapped^[n] seed.toInt [ZMOD 2 ^ 32] := by
  induction n with
  | zero => rfl
  | succ n ih =>
    simp only [Function.iterate_succ_apply']
    exact (toInt_next _).trans (unwrapped_modEq ih)

theorem word_eq_of_modEq {a b : Word} (h : a.toInt ≡ b.toInt [ZMOD 2 ^ 32]) : a = b := by
  have ha := a.le_toInt
  have ha' := a.toInt_lt
  have hb := b.le_toInt
  have hb' := b.toInt_lt
  rw [← Int32.toInt_inj]
  simp only [Int.ModEq] at h
  omega

/-- Doubling the number of steps squares the factor, which stays 1 modulo twice as much, and doubles
the summand but for an odd factor. -/
theorem exists_iterate_two_pow (k : Nat) :
    ∃ t u : Int, ∀ n, unwrapped^[2 ^ k] n = n * (1 + 2 ^ (k + 2) * t) + 2 ^ k * (1 + 2 * u) := by
  induction k with
  | zero => exact ⟨5673869, 0, fun n => by simp [unwrapped]⟩
  | succ k ih =>
    obtain ⟨t, u, h⟩ := ih
    refine ⟨t + 2 ^ (k + 1) * t ^ 2, u + 2 ^ k * t * (1 + 2 * u), fun n => ?_⟩
    rw [pow_succ, mul_two, Function.iterate_add_apply, h, h]
    ring

/-- The low bits stay and the one above them is flipped. -/
theorem iterate_two_pow_modEq (k : Nat) (n : Int) :
    unwrapped^[2 ^ k] n ≡ n + 2 ^ k [ZMOD 2 ^ (k + 1)] := by
  obtain ⟨t, u, h⟩ := exists_iterate_two_pow k
  rw [h]
  refine Int.ModEq.symm (Int.modEq_iff_dvd.2 ⟨2 * n * t + u, ?_⟩)
  ring

/-- The low `k` bits take all their values within `2 ^ k` steps: those below by induction, and the
highest, if it is not right by then, by `2 ^ k` steps more. -/
theorem exists_iterate_modEq (k : Nat) (n goal : Int) :
    ∃ i < 2 ^ k, unwrapped^[i] n ≡ goal [ZMOD 2 ^ k] := by
  induction k with
  | zero => exact ⟨0, by simp, by simp [Int.modEq_one]⟩
  | succ k ih =>
    obtain ⟨i, hi, hlow⟩ := ih
    obtain ⟨c, hc⟩ := Int.modEq_iff_dvd.1 hlow
    obtain ⟨d, rfl | rfl⟩ := Int.even_or_odd' c
    · refine ⟨i, by rw [pow_succ]; omega, Int.modEq_iff_dvd.2 ⟨d, ?_⟩⟩
      rw [hc]
      ring
    · refine ⟨2 ^ k + i, by rw [pow_succ]; omega, ?_⟩
      rw [Function.iterate_add_apply]
      refine (iterate_two_pow_modEq k _).trans (Int.modEq_iff_dvd.2 ⟨d, ?_⟩)
      rw [sub_add_eq_sub_sub, hc]
      ring

theorem exists_iterate_next (seed goal : Word) : ∃ i < 2 ^ 32, next^[i] seed = goal := by
  obtain ⟨i, hi, h⟩ := exists_iterate_modEq 32 seed.toInt goal.toInt
  exact ⟨i, hi, word_eq_of_modEq ((toInt_iterate_next i seed).trans h)⟩

theorem minimalPeriod_next (seed : Word) : Function.minimalPeriod next seed = 2 ^ 32 := by
  apply Function.minimalPeriod_eq_prime_pow (k := 31)
  · intro hback
    -- Half way round the highest bit is the other one.
    have hflip := (toInt_iterate_next (2 ^ 31) seed).trans (iterate_two_pow_modEq 31 seed.toInt)
    rw [hback] at hflip
    simp only [Int.ModEq] at hflip
    omega
  · have hround :=
      (iterate_two_pow_modEq 32 seed.toInt).of_dvd (pow_dvd_pow 2 (by decide : 32 ≤ 33))
    have hsame : seed.toInt + 2 ^ 32 ≡ seed.toInt [ZMOD 2 ^ 32] := by simp [Int.ModEq]
    exact word_eq_of_modEq ((toInt_iterate_next _ seed).trans (hround.trans hsame))

theorem toInt_output (seed : Word) :
    (output seed).toInt = (unsigned seed.toInt / 2 ^ 16 % 2 ^ 15 : Nat) := by
  have hshift : (seed >>> 16).toInt = seed.toInt / 2 ^ 16 := seed.toInt_shiftRight 16
  have hmask :
      unsigned (seed.toInt / 2 ^ 16) &&& 0x7fff = unsigned seed.toInt / 2 ^ 16 % 2 ^ 15 := by
    rw [show 0x7fff = 2 ^ 15 - 1 from rfl, Nat.and_two_pow_sub_one_eq_mod, unsigned, unsigned]
    omega
  have heval : (output seed).toInt = wrap (unsigned (seed.toInt / 2 ^ 16) &&& 0x7fff : Nat) := by
    rw [← hshift]
    exact BinaryOp.bitAnd.toInt_eval (seed >>> 16) 0x7fff
  rw [heval, hmask]
  exact Int.bmod_eq_of_le (by omega) (by omega)

/-- From any seed, calls of the generator visit every word once before the seed comes again, after
`2 ^ 32` calls. Each answers with bits 16 to 30 of the seed it leaves. -/
theorem calls_visit_every_seed [Keyboard κ] [Disk φ] (w : World κ φ) :
    (∀ n, draws n w = .ok ((List.range n).map fun i => output (next^[i + 1] w.seed))
      { w with seed := next^[n] w.seed }) ∧
    (∀ seed, ∃! n, n < 2 ^ 32 ∧ next^[n] w.seed = seed) ∧
    IsLeast {n | 1 ≤ n ∧ next^[n] w.seed = w.seed} (2 ^ 32) ∧
    ∀ seed, (output seed).toInt = (unsigned seed.toInt / 2 ^ 16 % 2 ^ 15 : Nat) ∧
      0 ≤ (output seed).toInt ∧ (output seed).toInt ≤ 32767 := by
  have hperiod := minimalPeriod_next w.seed
  refine ⟨fun n => draws_eq n w, fun seed => ?_, ⟨⟨by decide, ?_⟩, fun n hn => ?_⟩, fun seed => ?_⟩
  · obtain ⟨n, hn, hseed⟩ := exists_iterate_next w.seed seed
    refine ⟨n, ⟨hn, hseed⟩, fun m hm => ?_⟩
    rw [← hperiod] at hn hm
    exact (Function.iterate_eq_iterate_iff_of_lt_minimalPeriod hm.1 hn).1 (hm.2.trans hseed.symm)
  · rw [← hperiod]
    exact Function.iterate_minimalPeriod
  · rw [← hperiod]
    exact Function.IsPeriodicPt.minimalPeriod_le hn.1 hn.2
  · have hbits := toInt_output seed
    exact ⟨hbits, by omega, by omega⟩

end Random
end LavMachine
