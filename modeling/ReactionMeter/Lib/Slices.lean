import Mathlib.Data.BitVec

/-!
# Assignments to a part of a vector

A hardware register is often written a part at a time: `Q(hi DOWNTO lo) <= V(hi DOWNTO lo)`. The
operation is `assign q v lo len`, and a part is read back with `BitVec.extractLsb'`. `connect`
drives a part from a narrower vector, as a port map to a slice does.

* `extract_assign_inside`, `extract_connect_self`: a part that was assigned reads as assigned.
* `extract_assign_outside`, `extract_connect_outside`: a part that was not assigned is unchanged.
-/

namespace Slices

variable {w : ℕ}

/-- The `len` bits from bit `lo` on. -/
def mask (w lo len : ℕ) : BitVec w := (BitVec.allOnes len).setWidth w <<< lo

/-- `q` with the `len` bits from bit `lo` on taken from `v`. -/
def assign (q v : BitVec w) (lo len : ℕ) : BitVec w :=
  q &&& ~~~ mask w lo len ||| v &&& mask w lo len

theorem getLsbD_mask {lo len k : ℕ} (hk : k < w) :
    (mask w lo len).getLsbD k = decide (lo ≤ k ∧ k < lo + len) := by
  unfold mask
  rw [BitVec.getLsbD_shiftLeft, BitVec.getLsbD_setWidth, BitVec.getLsbD_allOnes]
  by_cases hlo : lo ≤ k
  · have hsub : k - lo < w := by omega
    by_cases hlen : k < lo + len
    · simp [hk, hlo, hlen, hsub]
      omega
    · simp [hk, hlo, hlen, hsub]
      omega
  · simp [hlo]

theorem getLsbD_assign {q v : BitVec w} {lo len k : ℕ} (hk : k < w) :
    (assign q v lo len).getLsbD k =
      if lo ≤ k ∧ k < lo + len then v.getLsbD k else q.getLsbD k := by
  unfold assign
  rw [BitVec.getLsbD_or, BitVec.getLsbD_and, BitVec.getLsbD_and, BitVec.getLsbD_not,
    getLsbD_mask hk]
  by_cases h : lo ≤ k ∧ k < lo + len
  · simp [h, hk]
  · simp [h, hk]

/-- A part that was assigned reads as assigned. -/
theorem extract_assign_inside {q v : BitVec w} {lo len a b : ℕ} (hw : a + b ≤ w) (hlo : lo ≤ a)
    (hlen : a + b ≤ lo + len) :
    (assign q v lo len).extractLsb' a b = v.extractLsb' a b := by
  apply BitVec.eq_of_getLsbD_eq
  intro k hk
  rw [BitVec.getLsbD_extractLsb', BitVec.getLsbD_extractLsb', getLsbD_assign (by omega),
    if_pos (by omega)]

/-- A part that was not assigned is unchanged. -/
theorem extract_assign_outside {q v : BitVec w} {lo len a b : ℕ} (hw : a + b ≤ w)
    (hout : a + b ≤ lo ∨ lo + len ≤ a) :
    (assign q v lo len).extractLsb' a b = q.extractLsb' a b := by
  apply BitVec.eq_of_getLsbD_eq
  intro k hk
  rw [BitVec.getLsbD_extractLsb', BitVec.getLsbD_extractLsb', getLsbD_assign (by omega),
    if_neg (by omega)]

/-! ## Parts driven from narrower vectors -/

variable {n : ℕ}

/-- `q` with the bits from bit `lo` on taken from `x`. -/
def connect (q : BitVec w) (x : BitVec n) (lo : ℕ) : BitVec w := assign q (x.setWidth w <<< lo) lo n

theorem extract_connect_self {q : BitVec w} {x : BitVec n} {lo : ℕ} (hw : lo + n ≤ w) :
    (connect q x lo).extractLsb' lo n = x := by
  unfold connect
  rw [extract_assign_inside hw le_rfl le_rfl]
  apply BitVec.eq_of_getLsbD_eq
  intro k hk
  have hlt : lo + k < w := by omega
  simp [hk, hlt]

theorem extract_connect_outside {q : BitVec w} {x : BitVec n} {lo a b : ℕ} (hw : a + b ≤ w)
    (hout : a + b ≤ lo ∨ lo + n ≤ a) : (connect q x lo).extractLsb' a b = q.extractLsb' a b :=
  extract_assign_outside hw hout

end Slices
