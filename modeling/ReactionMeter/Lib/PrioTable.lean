import Mathlib.Algebra.GroupWithZero.Nat
import Mathlib.Data.Fin.Basic
import Mathlib.Data.Finset.Insert
import Mathlib.Data.Fintype.Basic
import Mathlib.Order.Bounds.Basic
import Mathlib.Logic.Equiv.Fin.Basic
import Mathlib.Tactic.Common

/-!
# Priority tables

A set of the priorities below `m * n` as `m` rows of `n` bits, with a group word that has one bit
for each row. A bit of the group is set if and only if its row is not zero, so the least member is
found with two look-ups, one in the group and one in a row, whatever the size of the set.

The invariant is a field of the structure. `toFinset` is the set a table stands for: the three
operations are `insert`, `erase` and the minimum of finite sets (`toFinset_insert`,
`toFinset_erase`, `isLeast_first`).
-/

/-- The least set bit of a word, zero if there is none. -/
def BitVec.lowest {n : ℕ} [NeZero n] (b : BitVec n) : Fin n :=
  ((List.finRange n).find? fun i : Fin n => b.getLsbD i).getD ⟨0, Nat.pos_of_neZero n⟩

section Words

variable {n : ℕ}

theorem BitVec.getLsbD_bit (x i : Fin n) : (1#n <<< x.val).getLsbD i = decide (i = x) := by
  rw [← BitVec.twoPow_eq, BitVec.getLsbD_twoPow]
  by_cases h : i = x
  · simp [h]
  · simp [h, Fin.val_inj, Ne.symm h]

theorem BitVec.getLsbD_or_bit (b : BitVec n) (x i : Fin n) :
    (b ||| 1#n <<< x.val).getLsbD i = (b.getLsbD i || decide (i = x)) := by
  rw [BitVec.getLsbD_or, BitVec.getLsbD_bit]

theorem BitVec.getLsbD_clear_bit (b : BitVec n) (x i : Fin n) :
    (b &&& ~~~(1#n <<< x.val)).getLsbD i = (b.getLsbD i && decide (i ≠ x)) := by
  rw [BitVec.getLsbD_and, BitVec.getLsbD_not, BitVec.getLsbD_bit]
  simp

theorem BitVec.ne_zero_iff {b : BitVec n} : b ≠ 0#n ↔ ∃ i : Fin n, b.getLsbD i = true := by
  constructor
  · intro h
    by_contra hall
    push Not at hall
    refine h (BitVec.eq_of_getLsbD_eq fun i hi => ?_)
    simpa using hall ⟨i, hi⟩
  · rintro ⟨i, hi⟩ rfl
    simp at hi

variable [NeZero n] {b : BitVec n}

theorem BitVec.getLsbD_lowest (h : b ≠ 0#n) : b.getLsbD b.lowest = true := by
  obtain ⟨i, hi⟩ := BitVec.ne_zero_iff.mp h
  unfold BitVec.lowest
  cases hf : (List.finRange n).find? fun i : Fin n => b.getLsbD i with
  | none =>
    rw [List.find?_eq_none] at hf
    exact absurd hi (hf i (List.mem_finRange i))
  | some j => exact List.find?_some (p := fun i : Fin n => b.getLsbD i) hf

theorem BitVec.lowest_le {i : Fin n} (h : b.getLsbD i = true) : b.lowest ≤ i := by
  unfold BitVec.lowest
  cases hf : (List.finRange n).find? fun i : Fin n => b.getLsbD i with
  | none => exact Nat.zero_le _
  | some j =>
    rw [List.find?_eq_some_iff_getElem] at hf
    obtain ⟨-, k, hk, hkj, hlt⟩ := hf
    obtain rfl : (⟨k, by simpa using hk⟩ : Fin n) = j := by simpa using hkj
    by_contra hij
    have hik : i.val < k := by simpa [Fin.lt_def] using hij
    have hi := hlt i.val hik
    simp only [List.getElem_finRange, Fin.cast_mk, Fin.eta, h, Bool.not_true] at hi
    cases hi

end Words

structure PrioTable (m n : ℕ) where
  grp : BitVec m
  row : Fin m → BitVec n
  grp_iff (y : Fin m) : grp.getLsbD y = true ↔ row y ≠ 0#n

namespace PrioTable

variable {m n : ℕ}

instance : Membership (Fin (m * n)) (PrioTable m n) :=
  ⟨fun t p => (t.row p.divNat).getLsbD p.modNat = true⟩

instance (p : Fin (m * n)) (t : PrioTable m n) : Decidable (p ∈ t) :=
  inferInstanceAs (Decidable (_ = true))

def empty : PrioTable m n where
  grp := 0#m
  row _ := 0#n
  grp_iff y := by simp

/-- Set the bit of `p` in its row, and the bit of the row in the group. -/
def insert (t : PrioTable m n) (p : Fin (m * n)) : PrioTable m n where
  grp := t.grp ||| 1#m <<< p.divNat.val
  row := Function.update t.row p.divNat (t.row p.divNat ||| 1#n <<< p.modNat.val)
  grp_iff y := by
    rw [BitVec.getLsbD_or_bit]
    by_cases hy : y = p.divNat
    · subst hy
      rw [Function.update_self, BitVec.ne_zero_iff]
      simp only [decide_true, Bool.or_true, true_iff]
      exact ⟨p.modNat, by rw [BitVec.getLsbD_or_bit]; simp⟩
    · rw [Function.update_of_ne hy, ← t.grp_iff, decide_eq_false hy, Bool.or_false]

/-- Clear the bit of `p` in its row, and the bit of the row in the group if it was the last. -/
def erase (t : PrioTable m n) (p : Fin (m * n)) : PrioTable m n where
  grp :=
    if t.row p.divNat &&& ~~~(1#n <<< p.modNat.val) = 0#n then t.grp &&& ~~~(1#m <<< p.divNat.val)
    else t.grp
  row := Function.update t.row p.divNat (t.row p.divNat &&& ~~~(1#n <<< p.modNat.val))
  grp_iff y := by
    by_cases hy : y = p.divNat
    · subst hy
      rw [Function.update_self]
      split_ifs with h0
      · rw [BitVec.getLsbD_clear_bit, h0]
        simp
      · refine ⟨fun _ => h0, fun _ => (t.grp_iff _).mpr ?_⟩
        intro hz
        exact h0 (by rw [hz]; exact BitVec.zero_and)
    · rw [Function.update_of_ne hy, ← t.grp_iff]
      split_ifs
      · rw [BitVec.getLsbD_clear_bit, decide_eq_true hy, Bool.and_true]
      · rfl

theorem mem_def {p : Fin (m * n)} {t : PrioTable m n} :
    p ∈ t ↔ (t.row p.divNat).getLsbD p.modNat = true := Iff.rfl

theorem eq_iff_divNat_modNat {p q : Fin (m * n)} :
    p = q ↔ p.divNat = q.divNat ∧ p.modNat = q.modNat := by
  rw [← finProdFinEquiv.symm.apply_eq_iff_eq, Prod.ext_iff]
  rfl

@[simp] theorem not_mem_empty (p : Fin (m * n)) : ¬ p ∈ (empty : PrioTable m n) := by
  simp [mem_def, empty]

@[simp] theorem mem_insert {p q : Fin (m * n)} {t : PrioTable m n} :
    q ∈ t.insert p ↔ q = p ∨ q ∈ t := by
  rw [eq_iff_divNat_modNat, mem_def, mem_def, insert]
  by_cases hy : q.divNat = p.divNat
  · simp only [hy, Function.update_self, BitVec.getLsbD_or_bit, Bool.or_eq_true, decide_eq_true_eq,
      true_and]
    exact or_comm
  · simp [hy]

@[simp] theorem mem_erase {p q : Fin (m * n)} {t : PrioTable m n} :
    q ∈ t.erase p ↔ q ≠ p ∧ q ∈ t := by
  rw [Ne, eq_iff_divNat_modNat, mem_def, mem_def, erase]
  by_cases hy : q.divNat = p.divNat
  · simp only [hy, Function.update_self, BitVec.getLsbD_clear_bit, Bool.and_eq_true,
      decide_eq_true_eq, true_and, ne_eq]
    exact and_comm
  · simp [hy]

/-- The group word alone tells whether a table is empty. -/
theorem grp_eq_zero_iff {t : PrioTable m n} : t.grp = 0#m ↔ ∀ p, ¬ p ∈ t := by
  constructor
  · intro h p hp
    have := (t.grp_iff p.divNat).mpr (BitVec.ne_zero_iff.mpr ⟨_, hp⟩)
    simp [h] at this
  · intro h
    by_contra hg
    obtain ⟨y, hy⟩ := BitVec.ne_zero_iff.mp hg
    obtain ⟨x, hx⟩ := BitVec.ne_zero_iff.mp ((t.grp_iff y).mp hy)
    have hyx := finProdFinEquiv.symm_apply_apply (y, x)
    refine h (finProdFinEquiv (y, x)) ?_
    rw [mem_def]
    rw [finProdFinEquiv_symm_apply, Prod.mk.injEq] at hyx
    rw [hyx.1, hyx.2]
    exact hx

/-! ## The least member -/

section First

variable [NeZero m] [NeZero n]

/-- The least bit of the group, and the least bit of its row. -/
def first (t : PrioTable m n) : Fin (m * n) :=
  finProdFinEquiv (t.grp.lowest, (t.row t.grp.lowest).lowest)

theorem first_divNat (t : PrioTable m n) : t.first.divNat = t.grp.lowest :=
  congrArg Prod.fst (finProdFinEquiv.symm_apply_apply (t.grp.lowest, (t.row t.grp.lowest).lowest))

theorem first_modNat (t : PrioTable m n) : t.first.modNat = (t.row t.grp.lowest).lowest :=
  congrArg Prod.snd (finProdFinEquiv.symm_apply_apply (t.grp.lowest, (t.row t.grp.lowest).lowest))

theorem first_mem {t : PrioTable m n} (h : t.grp ≠ 0#m) : t.first ∈ t := by
  have hrow := (t.grp_iff t.grp.lowest).mp (BitVec.getLsbD_lowest h)
  rw [mem_def, first_divNat, first_modNat]
  exact BitVec.getLsbD_lowest hrow

theorem first_le {t : PrioTable m n} {p : Fin (m * n)} (h : p ∈ t) : t.first ≤ p := by
  have hrow : t.row p.divNat ≠ 0#n := BitVec.ne_zero_iff.mpr ⟨_, h⟩
  have hy : t.grp.lowest ≤ p.divNat := BitVec.lowest_le ((t.grp_iff _).mpr hrow)
  have hp : p.val = p.modNat.val + n * p.divNat.val :=
    congrArg Fin.val (finProdFinEquiv.apply_symm_apply p).symm
  rw [Fin.le_def, hp]
  show (t.row t.grp.lowest).lowest.val + n * t.grp.lowest.val ≤ _
  rcases lt_or_eq_of_le hy with hlt | heq
  · have hx := (t.row t.grp.lowest).lowest.isLt
    have hmul : n * (t.grp.lowest.val + 1) ≤ n * p.divNat.val :=
      Nat.mul_le_mul_left n hlt
    rw [Nat.mul_add, Nat.mul_one] at hmul
    omega
  · have hx : (t.row p.divNat).lowest ≤ p.modNat := BitVec.lowest_le h
    rw [heq]
    exact Nat.add_le_add_right hx _

end First

/-! ## Tables as sets -/

/-- The set a table stands for. -/
def toFinset (t : PrioTable m n) : Finset (Fin (m * n)) := Finset.univ.filter (· ∈ t)

@[simp] theorem mem_toFinset {t : PrioTable m n} {p : Fin (m * n)} : p ∈ t.toFinset ↔ p ∈ t := by
  simp [toFinset]

theorem toFinset_empty : (empty : PrioTable m n).toFinset = ∅ := by
  ext p
  simp

theorem toFinset_insert (t : PrioTable m n) (p : Fin (m * n)) :
    (t.insert p).toFinset = Insert.insert p t.toFinset := by
  ext q
  simp

theorem toFinset_erase (t : PrioTable m n) (p : Fin (m * n)) :
    (t.erase p).toFinset = t.toFinset.erase p := by
  ext q
  simp

theorem grp_ne_zero_iff {t : PrioTable m n} : t.grp ≠ 0#m ↔ t.toFinset.Nonempty := by
  rw [Ne, grp_eq_zero_iff]
  simp [Finset.Nonempty]

theorem isLeast_first [NeZero m] [NeZero n] {t : PrioTable m n} (h : t.grp ≠ 0#m) :
    IsLeast (t.toFinset : Set (Fin (m * n))) t.first :=
  ⟨mem_toFinset.mpr (first_mem h), fun _ hp => first_le (mem_toFinset.mp hp)⟩

end PrioTable
