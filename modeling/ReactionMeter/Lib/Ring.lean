import Mathlib.Data.List.Basic
import Mathlib.Data.Nat.ModEq
import Mathlib.Logic.Function.Basic
import Mathlib.Tactic.Common

/-!
# Circular buffers

The contents of a circular buffer of `n` cells are the `len` cells from `out` on, around the end
(`window`). A write at the cell behind the window appends (`window_push`), and a read at `out`
takes the head (`window_pop`). Blocks of cells are windows too: a window splits into two
(`window_add`), and cells written behind it leave it alone (`window_update`). Implementations
differ in how they store the end of the window and in how they step an index around; `next` is the
step that all of them compute.
-/

namespace Ring

variable {α : Type*} {n : ℕ}

/-- The next cell. -/
def next (n i : ℕ) : ℕ := (i + 1) % n

/-- The `len` cells from `out` on, around the end of the buffer. -/
def window (n : ℕ) (buf : ℕ → α) (out len : ℕ) : List α :=
  (List.range len).map fun i => buf ((out + i) % n)

variable {buf : ℕ → α} {out len : ℕ}

theorem next_eq_ite {i : ℕ} (h : i < n) : next n i = if i + 1 = n then 0 else i + 1 := by
  unfold next
  split_ifs with h'
  · rw [h', Nat.mod_self]
  · exact Nat.mod_eq_of_lt (by omega)

theorem next_add_mod (n i k : ℕ) : next n ((i + k) % n) = (i + (k + 1)) % n := by
  rw [next, Nat.mod_add_mod, Nat.add_assoc]

theorem mod_next_add (n i k : ℕ) : (next n i + k) % n = (i + (k + 1)) % n := by
  rw [next, Nat.mod_add_mod, Nat.add_assoc, Nat.add_comm 1 k]

@[simp] theorem window_zero : window n buf out 0 = [] := rfl

@[simp] theorem length_window : (window n buf out len).length = len := by simp [window]

theorem window_eq_nil_iff : window n buf out len = [] ↔ len = 0 := by
  rw [← List.length_eq_zero_iff, length_window]

theorem window_pop (h : out < n) :
    window n buf out (len + 1) = buf out :: window n buf (next n out) len := by
  unfold window
  rw [List.range_succ_eq_map, List.map_cons, List.map_map, Nat.add_zero, Nat.mod_eq_of_lt h]
  congr 1
  refine List.map_congr_left fun i _ => ?_
  rw [Function.comp_apply, mod_next_add]

theorem index_ne {i j : ℕ} (hij : i < j) (hj : j < n) : (out + i) % n ≠ (out + j) % n := by
  intro h
  have hmod : i ≡ j [MOD n] := Nat.ModEq.add_left_cancel' out h
  exact hij.ne (Nat.ModEq.eq_of_lt_of_lt hmod (hij.trans hj) hj)

/-- A write into the cell behind a window appends to it. -/
theorem window_push (h : len < n) (x : α) :
    window n (Function.update buf ((out + len) % n) x) out (len + 1) =
      window n buf out len ++ [x] := by
  unfold window
  rw [List.range_succ, List.map_append, List.map_singleton, Function.update_self]
  congr 1
  refine List.map_congr_left fun i hi => ?_
  rw [Function.update_of_ne (index_ne (List.mem_range.mp hi) h)]

theorem window_succ :
    window n buf out (len + 1) = window n buf out len ++ [buf ((out + len) % n)] := by
  unfold window
  rw [List.range_succ, List.map_append, List.map_singleton]

theorem window_add (a b : ℕ) :
    window n buf out (a + b) = window n buf out a ++ window n buf ((out + a) % n) b := by
  induction b with
  | zero => rw [Nat.add_zero, window_zero, List.append_nil]
  | succ b ih =>
    rw [← Nat.add_assoc, window_succ, ih, window_succ, Nat.mod_add_mod, Nat.add_assoc,
      List.append_assoc]

/-- A write behind a window leaves it alone. -/
theorem window_update {k : ℕ} (hk : len ≤ k) (h : k < n) (x : α) :
    window n (Function.update buf ((out + k) % n) x) out len = window n buf out len := by
  unfold window
  refine List.map_congr_left fun i hi => ?_
  have hlt : i < k := (List.mem_range.mp hi).trans_le hk
  rw [Function.update_of_ne (index_ne hlt h)]

/-! ## Two indices

A buffer that keeps the index of the next read and that of the next write leaves one cell free, so
that equal indices mean an empty buffer. -/

/-- The cells in use. -/
def size (n inp out : ℕ) : ℕ := (inp + n - out) % n

variable {inp k : ℕ}

theorem size_eq (hi : inp < n) (ho : out < n) :
    size n inp out = if out ≤ inp then inp - out else inp + n - out := by
  unfold size
  split_ifs with h
  · rw [show inp + n - out = inp - out + n by omega, Nat.add_mod_right, Nat.mod_eq_of_lt (by omega)]
  · exact Nat.mod_eq_of_lt (by omega)

theorem size_lt (h : 0 < n) (inp out : ℕ) : size n inp out < n := Nat.mod_lt _ h

theorem size_eq_zero_iff (hi : inp < n) (ho : out < n) : size n inp out = 0 ↔ inp = out := by
  rw [size_eq hi ho]
  split_ifs <;> omega

theorem add_size (hi : inp < n) (ho : out < n) : (out + size n inp out) % n = inp := by
  rw [size_eq hi ho]
  split_ifs with h
  · rw [Nat.add_sub_cancel' h, Nat.mod_eq_of_lt hi]
  · rw [show out + (inp + n - out) = inp + n by omega, Nat.add_mod_right, Nat.mod_eq_of_lt hi]

theorem size_push (hi : inp < n) (ho : out < n) (h : size n inp out + k < n) :
    size n ((inp + k) % n) out = size n inp out + k := by
  have hend : (inp + k) % n < n := Nat.mod_lt _ (by omega)
  rw [size_eq hi ho] at h ⊢
  rw [size_eq hend ho]
  rcases Nat.lt_or_ge (inp + k) n with hlt | hge
  · rw [Nat.mod_eq_of_lt hlt]
    split_ifs at h ⊢ <;> omega
  · rw [Nat.mod_eq_sub_mod hge, Nat.mod_eq_of_lt (by split_ifs at h <;> omega)]
    split_ifs at h ⊢ <;> omega

theorem size_pop (hi : inp < n) (ho : out < n) (h : k ≤ size n inp out) :
    size n inp ((out + k) % n) = size n inp out - k := by
  have hend : (out + k) % n < n := Nat.mod_lt _ (by omega)
  rw [size_eq hi ho] at h ⊢
  rw [size_eq hi hend]
  rcases Nat.lt_or_ge (out + k) n with hlt | hge
  · rw [Nat.mod_eq_of_lt hlt]
    split_ifs at h ⊢ <;> omega
  · rw [Nat.mod_eq_sub_mod hge, Nat.mod_eq_of_lt (by split_ifs at h <;> omega)]
    split_ifs at h ⊢ <;> omega

/-- The test of a full buffer. -/
theorem next_eq_iff (hi : inp < n) (ho : out < n) : next n inp = out ↔ size n inp out + 1 = n := by
  rw [next_eq_ite hi, size_eq hi ho]
  split_ifs <;> omega

/-- What is in the buffer. -/
def contents (n : ℕ) (buf : ℕ → α) (inp out : ℕ) : List α := window n buf out (size n inp out)

theorem length_contents : (contents n buf inp out).length = size n inp out := length_window

theorem contents_eq_nil_iff (hi : inp < n) (ho : out < n) :
    contents n buf inp out = [] ↔ inp = out := by
  rw [contents, window_eq_nil_iff, size_eq_zero_iff hi ho]

/-- A value stored at the write index, which then steps on. -/
theorem contents_push (hi : inp < n) (ho : out < n) (h : next n inp ≠ out) (x : α) :
    contents n (Function.update buf inp x) (next n inp) out = contents n buf inp out ++ [x] := by
  have hfree : size n inp out + 1 ≠ n := mt (next_eq_iff hi ho).mpr h
  have hlt : size n inp out + 1 < n := by
    have hsize := size_lt (Nat.zero_lt_of_lt hi) inp out
    omega
  have hend : next n inp = (inp + 1) % n := rfl
  have hpush : window n (Function.update buf ((out + size n inp out) % n) x) out
      (size n inp out + 1) = window n buf out (size n inp out) ++ [x] :=
    window_push (Nat.lt_of_succ_lt hlt) x
  rw [add_size hi ho] at hpush
  rw [contents, hend, size_push hi ho hlt]
  exact hpush

/-- The value at the read index, which then steps on. -/
theorem contents_pop (hi : inp < n) (ho : out < n) (h : out ≠ inp) :
    contents n buf inp out = buf out :: contents n buf inp (next n out) := by
  have hpos : 0 < size n inp out := Nat.pos_of_ne_zero (mt (size_eq_zero_iff hi ho).mp (Ne.symm h))
  have hend : next n out = (out + 1) % n := rfl
  obtain ⟨m, hm⟩ := Nat.exists_eq_succ_of_ne_zero hpos.ne'
  rw [contents, contents, hend, size_pop hi ho hpos, hm, Nat.succ_sub_one, window_pop ho]
  rfl

theorem contents_take (hi : inp < n) (ho : out < n) (h : k ≤ size n inp out) :
    contents n buf inp out = window n buf out k ++ contents n buf inp ((out + k) % n) := by
  rw [contents, contents, size_pop hi ho h, ← window_add, Nat.add_sub_cancel' h]

/-- A block behind the end, cells written before the write index moves. -/
theorem contents_append (hi : inp < n) (ho : out < n) (h : size n inp out + k < n) :
    contents n buf ((inp + k) % n) out = contents n buf inp out ++ window n buf inp k := by
  rw [contents, contents, size_push hi ho h, window_add, add_size hi ho]

/-- A cell behind the end is not part of the contents. -/
theorem contents_update (hi : inp < n) (ho : out < n) (h : size n inp out + k < n) (x : α) :
    contents n (Function.update buf ((inp + k) % n) x) inp out = contents n buf inp out := by
  have hcell : (inp + k) % n = (out + (size n inp out + k)) % n := by
    rw [← Nat.add_assoc, ← Nat.mod_add_mod (out + size n inp out), add_size hi ho]
  rw [contents, hcell]
  exact window_update (Nat.le_add_right _ _) h x

end Ring
