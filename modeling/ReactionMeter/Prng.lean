import Mathlib.Data.BitVec
import Mathlib.Dynamics.PeriodicPts.Defs
import Mathlib.NumberTheory.Divisors

/-!
# The pseudo random number generator

`prng.vhd`: an eight-bit linear feedback shift register, clocked together with the meter. The meter
ties `RST` to `'0'` and drives `EN` from its own `rng_en` register, so the register shifts once in
every cycle that begins with `rng_en = '1'`.

The taps are those of a primitive polynomial: from `x"01"` the register goes through all values but
zero before it comes back (`minimalPeriod_shift`, `exists_iterate_shift`).
-/

namespace ReactionMeter

namespace Prng

/-- The feedback bit `tmp`, from taps 4, 3, 2 and 0. -/
def tmp (lfsr : BitVec 8) : Bool := lfsr[4] ^^ lfsr[3] ^^ lfsr[2] ^^ lfsr[0]

/-- `tmp & LFSR(7 DOWNTO 1)`. -/
def shift (lfsr : BitVec 8) : BitVec 8 := BitVec.cons (tmp lfsr) (lfsr.extractLsb' 1 7)

/-- One rising edge of `CLK`. -/
def step (lfsr : BitVec 8) (rst en : Bool) : BitVec 8 :=
  if rst = true then 1#8 else if en = true then shift lfsr else lfsr

@[simp] theorem step_disabled (lfsr : BitVec 8) : step lfsr false false = lfsr := rfl

/-- The lowest bit is one of the taps, so the register does not run into the state it could not
leave. -/
theorem shift_ne_zero : ∀ lfsr : BitVec 8, lfsr ≠ 0#8 → shift lfsr ≠ 0#8 := by decide +kernel

theorem step_ne_zero {lfsr : BitVec 8} (h : lfsr ≠ 0#8) (rst en : Bool) :
    step lfsr rst en ≠ 0#8 := by
  unfold step
  split_ifs
  · decide
  · exact shift_ne_zero lfsr h
  · exact h

/-! ## The period -/

open Function

/-- The register is back at `x"01"` after 255 shifts, and not before. -/
theorem minimalPeriod_shift : minimalPeriod shift 1#8 = 255 := by
  have hperiod : IsPeriodicPt shift 255 1#8 := by
    show shift^[255] 1#8 = 1#8
    decide +kernel
  have hmem : minimalPeriod shift 1#8 ∈ Nat.divisors 255 :=
    Nat.mem_divisors.mpr ⟨hperiod.minimalPeriod_dvd, by decide⟩
  have hdivisors : Nat.divisors 255 = {1, 3, 5, 15, 17, 51, 85, 255} := by decide
  have hback : shift^[minimalPeriod shift 1#8] 1#8 = 1#8 := isPeriodicPt_minimalPeriod shift 1#8
  simp only [hdivisors, Finset.mem_insert, Finset.mem_singleton] at hmem
  rcases hmem with h | h | h | h | h | h | h | h
  case inr.inr.inr.inr.inr.inr.inr => exact h
  all_goals
    rw [h] at hback
    exact absurd hback (by decide +kernel)

theorem iterate_shift_eq_iff {m n : ℕ} : shift^[m] 1#8 = shift^[n] 1#8 ↔ m ≡ n [MOD 255] := by
  rw [← iterate_mod_minimalPeriod_eq (n := m), ← iterate_mod_minimalPeriod_eq (n := n),
    minimalPeriod_shift]
  have hlt : ∀ k, k % 255 < minimalPeriod shift 1#8 := fun k => by
    rw [minimalPeriod_shift]
    exact Nat.mod_lt k (by decide)
  exact iterate_eq_iterate_iff_of_lt_minimalPeriod (hlt m) (hlt n)

theorem iterate_shift_ne_zero (n : ℕ) : shift^[n] 1#8 ≠ 0#8 := by
  induction n with
  | zero => decide
  | succ n ih => rw [iterate_succ_apply']; exact shift_ne_zero _ ih

/-- Every value but zero occurs: 255 different values do not leave one out. -/
theorem exists_iterate_shift {v : BitVec 8} (hv : v ≠ 0#8) : ∃ n, shift^[n] 1#8 = v := by
  have himage : (Finset.range 255).image (fun n => (shift^[n] 1#8).toNat) = Finset.Icc 1 255 := by
    apply Finset.eq_of_subset_of_card_le
    · intro k hk
      obtain ⟨n, -, rfl⟩ := Finset.mem_image.mp hk
      have hlt := (shift^[n] 1#8).isLt
      have hne : (shift^[n] 1#8).toNat ≠ 0 := fun h =>
        iterate_shift_ne_zero n (BitVec.eq_of_toNat_eq h)
      exact Finset.mem_Icc.mpr ⟨Nat.one_le_iff_ne_zero.mpr hne, by omega⟩
    · rw [Finset.card_image_of_injOn, Finset.card_range, Nat.card_Icc]
      intro m hm n hn h
      have hmod : m % 255 = n % 255 := iterate_shift_eq_iff.mp (BitVec.eq_of_toNat_eq h)
      rwa [Nat.mod_eq_of_lt (Finset.mem_range.mp hm), Nat.mod_eq_of_lt (Finset.mem_range.mp hn)]
        at hmod
  have hmem : v.toNat ∈ Finset.Icc 1 255 := by
    have hlt := v.isLt
    have hne : v.toNat ≠ 0 := fun h => hv (BitVec.eq_of_toNat_eq h)
    exact Finset.mem_Icc.mpr ⟨Nat.one_le_iff_ne_zero.mpr hne, by omega⟩
  rw [← himage] at hmem
  obtain ⟨n, -, hn⟩ := Finset.mem_image.mp hmem
  exact ⟨n, BitVec.eq_of_toNat_eq hn⟩

end Prng

end ReactionMeter
