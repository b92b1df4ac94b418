import Mathlib.Data.BitVec
import Mathlib.Logic.Function.Iterate
import ReactionMeter.App

/-!
# The animation of a new high score

`leds = rotate_left(leds, 1)`, in a 16-bit variable, written to the port of the ten LEDs. The shift
back in `rotate_left` is `9 - shift`, so the bit that comes back to LED 0 is that of LED 8, and LED
9 comes back to LED 1. Bits above the port come back too.

`port_step_iff` says which variables one step rotates, `animation_circles_iff` which patterns the
animation rotates, and for how long.
-/

namespace ReactionMeter

namespace Animation

/-- The ten LEDs, by the low bits of what was written last. -/
def ledPort (v : Vars) : BitVec 10 := v.ports.leds.setWidth 10

/-- The task with a pattern on the LEDs. -/
def showing (v : Vars) (pattern : BitVec 10) : Vars :=
  { v with leds := pattern.setWidth 16 }.writeLeds

/-- The number of LEDs that are on. -/
def lit (pattern : BitVec 10) : ℕ := (List.range 10).countP fun m => pattern.getLsbD m

/-- One step of the cyclic rotation of ten LEDs. -/
def turn (pattern : BitVec 10) : BitVec 10 := pattern.rotateLeft 1

/-- Through the first `k` steps the port shows the rotations of the pattern, with as many LEDs on
as in the pattern, and the pattern itself after every ten steps. -/
def Circles (v : Vars) (pattern : BitVec 10) (k : ℕ) : Prop :=
  ∀ j ≤ k, ledPort (Vars.rotate^[j] (showing v pattern)) = turn^[j] pattern ∧
    lit (ledPort (Vars.rotate^[j] (showing v pattern))) = lit pattern ∧
    (10 ∣ j → ledPort (Vars.rotate^[j] (showing v pattern)) = pattern)

/-! ## The rotation -/

theorem getLsbD_turn_zero (p : BitVec 10) : (turn p).getLsbD 0 = p.getLsbD 9 := by
  rw [turn, BitVec.getLsbD_rotateLeft_of_le (by decide)]
  rfl

theorem getLsbD_turn_succ (p : BitVec 10) {m : ℕ} (hm : m < 9) :
    (turn p).getLsbD (m + 1) = p.getLsbD m := by
  have hlt : m + 1 < 10 := Nat.succ_lt_succ hm
  rw [turn, BitVec.getLsbD_rotateLeft_of_le (by decide)]
  simp [hlt]

theorem getLsbD_turn_iterate (p : BitVec 10) {j m : ℕ} (hm : m + j < 10) :
    (turn^[j] p).getLsbD (m + j) = p.getLsbD m := by
  induction j with
  | zero => rfl
  | succ j ih =>
    rw [Function.iterate_succ_apply', ← Nat.add_assoc, getLsbD_turn_succ _ (by omega)]
    exact ih (by omega)

/-- LED 9 goes to LED 0, and all others go up. -/
theorem lit_turn (p : BitVec 10) : lit (turn p) = lit p := by
  have hup : (List.range 9).countP (fun m => (turn p).getLsbD (m + 1)) =
      (List.range 9).countP fun m => p.getLsbD m :=
    List.countP_congr fun m hm => by rw [getLsbD_turn_succ p (List.mem_range.mp hm)]
  calc lit (turn p)
      = (List.range 9).countP (fun m => (turn p).getLsbD (m + 1)) +
          if (turn p).getLsbD 0 = true then 1 else 0 := by
        rw [lit, List.range_succ_eq_map, List.countP_cons, List.countP_map]
        rfl
    _ = (List.range 9).countP (fun m => p.getLsbD m) + if p.getLsbD 9 = true then 1 else 0 := by
        rw [hup, getLsbD_turn_zero]
    _ = lit p := by
        rw [lit, List.range_succ (n := 9), List.countP_append, List.countP_singleton]

theorem lit_turn_iterate (p : BitVec 10) (j : ℕ) : lit (turn^[j] p) = lit p := by
  induction j with
  | zero => rfl
  | succ j ih => rw [Function.iterate_succ_apply', lit_turn, ih]

theorem turn_iterate_ten (p : BitVec 10) : turn^[10] p = p := by
  apply BitVec.eq_of_getLsbD_eq
  intro m hm
  have hten : turn^[10] p = turn^[m] (turn (turn^[9 - m] p)) := by
    rw [← Function.iterate_succ_apply' turn, ← Function.iterate_add_apply]
    congr 1
    omega
  have hover := getLsbD_turn_iterate (turn (turn^[9 - m] p)) (j := m) (m := 0) (by omega)
  have hup := getLsbD_turn_iterate p (j := 9 - m) (m := m) (by omega)
  rw [Nat.zero_add] at hover
  rw [Nat.add_sub_cancel' (by omega)] at hup
  rw [hten, hover, getLsbD_turn_zero, hup]

theorem turn_iterate_dvd (p : BitVec 10) {j : ℕ} (hj : 10 ∣ j) : turn^[j] p = p := by
  obtain ⟨n, rfl⟩ := hj
  rw [Function.iterate_mul]
  exact Function.iterate_fixed (turn_iterate_ten p) n

/-- The rotations of a pattern have its LEDs and come back to it. -/
theorem circles_iff {v : Vars} {p : BitVec 10} {k : ℕ} :
    Circles v p k ↔ ∀ j ≤ k, ledPort (Vars.rotate^[j] (showing v p)) = turn^[j] p := by
  refine ⟨fun h j hj => (h j hj).1, fun h j hj => ?_⟩
  rw [h j hj]
  exact ⟨rfl, lit_turn_iterate p j, turn_iterate_dvd p⟩

/-! ## The variable -/

/-- What a step of the animation makes of the variable. -/
def shifted (leds : BitVec 16) : BitVec 16 := (rotateLeft (leds.setWidth 32) 1).setWidth 16

theorem getLsbD_shifted (leds : BitVec 16) {m : ℕ} (hm : m < 16) :
    (shifted leds).getLsbD m = ((1 ≤ m && leds.getLsbD (m - 1)) || leds.getLsbD (m + 8)) := by
  have hlow : m < 32 ∧ 8 + m < 32 := by omega
  rw [shifted, rotateLeft, BitVec.getLsbD_setWidth, BitVec.getLsbD_or, BitVec.getLsbD_shiftLeft,
    BitVec.getLsbD_sshiftRight, if_pos hlow.2, BitVec.getLsbD_setWidth, BitVec.getLsbD_setWidth]
  have hprev : m - 1 < 32 := by omega
  have hone : (!decide (m < 1)) = decide (1 ≤ m) := by
    rw [Bool.eq_iff_iff, Bool.not_eq_true', decide_eq_false_iff_not, decide_eq_true_iff, Nat.not_lt]
  simp only [hm, hlow, hprev, hone, Nat.not_le.mpr hlow.1, Nat.add_comm m 8, decide_true,
    decide_false, Bool.true_and, Bool.not_false]

theorem leds_rotate_iterate (v : Vars) (p : BitVec 10) (k : ℕ) :
    (Vars.rotate^[k] (showing v p)).leds = shifted^[k] (p.setWidth 16) ∧
      (Vars.rotate^[k] (showing v p)).ports.leds = shifted^[k] (p.setWidth 16) := by
  induction k with
  | zero => exact ⟨rfl, rfl⟩
  | succ k ih =>
    rw [Function.iterate_succ_apply', Function.iterate_succ_apply', ← ih.1]
    exact ⟨rfl, rfl⟩

theorem ledPort_rotate_iterate (v : Vars) (p : BitVec 10) (k : ℕ) :
    ledPort (Vars.rotate^[k] (showing v p)) = (shifted^[k] (p.setWidth 16)).setWidth 10 := by
  rw [ledPort, (leds_rotate_iterate v p k).2]

/-- One step shows the rotation if LED 8 is like LED 9, and no bit that comes back lights an LED that
should stay dark. -/
theorem port_step_iff (leds : BitVec 16) :
    (shifted leds).setWidth 10 = turn (leds.setWidth 10) ↔
      leds.getLsbD 8 = leds.getLsbD 9 ∧
        ∀ m, m < 7 → leds.getLsbD (m + 9) = true → leds.getLsbD m = true := by
  constructor
  · intro h
    have hbit : ∀ m, m < 10 →
        ((shifted leds).setWidth 10).getLsbD m = (turn (leds.setWidth 10)).getLsbD m := fun m _ => by
      rw [h]
    refine ⟨?_, fun m hm hback => ?_⟩
    · have h0 := hbit 0 (by decide)
      rw [getLsbD_turn_zero, BitVec.getLsbD_setWidth, BitVec.getLsbD_setWidth,
        getLsbD_shifted _ (by decide)] at h0
      simpa using h0
    · have hm1 := hbit (m + 1) (by omega)
      rw [getLsbD_turn_succ _ (by omega), BitVec.getLsbD_setWidth, BitVec.getLsbD_setWidth,
        getLsbD_shifted _ (by omega)] at hm1
      have hm10 : m < 10 ∧ m + 1 < 10 := by omega
      simpa [hm10, Nat.add_assoc, Nat.add_comm 1, hback] using hm1.symm
  · intro hstep
    obtain ⟨h8, hback⟩ := hstep
    apply BitVec.eq_of_getLsbD_eq
    intro m hm
    rw [BitVec.getLsbD_setWidth, getLsbD_shifted _ (by omega)]
    cases m with
    | zero =>
      rw [getLsbD_turn_zero, BitVec.getLsbD_setWidth]
      simpa using h8
    | succ m =>
      rw [getLsbD_turn_succ _ (by omega), BitVec.getLsbD_setWidth]
      have hm10 : m < 10 := by omega
      by_cases hm7 : m < 7
      · have hb := hback m hm7
        cases hlow : leds.getLsbD m with
        | true => simp [hm, hm10, hlow]
        | false =>
          have hhigh : leds.getLsbD (m + 9) = false := by
            rw [hlow] at hb
            simpa using hb
          simp [hm10, hlow, Nat.add_assoc, Nat.add_comm 1, hhigh]
      · have hhigh : leds.getLsbD (m + 1 + 8) = false := BitVec.getLsbD_of_ge _ _ (by omega)
        simp [hm, hm10, hhigh]

/-! ## The first steps -/

variable {p : BitVec 10}

/-- The LEDs from `9 - k` on are all off, or all on. -/
def Top (p : BitVec 10) (k : ℕ) (on : Bool) : Prop := ∀ m, 9 - k ≤ m → m < 10 → p.getLsbD m = on

theorem dark_iterate {k j : ℕ} (h : Top p k false) (hj : j ≤ k) {m : ℕ} (hm : 9 - (k - j) ≤ m) :
    (shifted^[j] (p.setWidth 16)).getLsbD m = false := by
  induction j generalizing m with
  | zero =>
    have hp : p.getLsbD m = false := by
      by_cases hm10 : m < 10
      · exact h m hm hm10
      · exact BitVec.getLsbD_of_ge _ _ (Nat.le_of_not_lt hm10)
    rw [Function.iterate_zero_apply, BitVec.getLsbD_setWidth, hp, Bool.and_false]
  | succ j ih =>
    rw [Function.iterate_succ_apply']
    by_cases hm16 : m < 16
    · have hback := ih (Nat.le_of_succ_le hj) (m := m + 8) (by omega)
      rw [getLsbD_shifted _ hm16, hback, Bool.or_false]
      cases m with
      | zero => rfl
      | succ m => exact ih (Nat.le_of_succ_le hj) (by omega)
    · exact BitVec.getLsbD_of_ge _ _ (Nat.le_of_not_lt hm16)

/-- The bits of a variable in which what comes back after `j` of `k` steps is on already. -/
structure Lit (leds : BitVec 16) (k j : ℕ) : Prop where
  top : ∀ m, 9 - (k - j) ≤ m → m < 10 → leds.getLsbD m = true
  low : ∀ m, m ≤ j → m < 10 → leds.getLsbD m = true
  above : ∀ m, 10 + j ≤ m → leds.getLsbD m = false

theorem lit_iterate {k j : ℕ} (h0 : p.getLsbD 0 = true) (h : Top p k true) (hj : j ≤ k) :
    Lit (shifted^[j] (p.setWidth 16)) k j := by
  induction j with
  | zero =>
    refine ⟨fun m hm hm10 => ?_, fun m hm _ => ?_, fun m hm => ?_⟩
    · have hm16 : m < 16 := by omega
      simp [hm16, h m hm hm10]
    · obtain rfl : m = 0 := Nat.le_zero.mp hm
      simp [h0]
    · have hp : p.getLsbD m = false := BitVec.getLsbD_of_ge _ _ hm
      simp [hp]
  | succ j ih =>
    obtain ⟨htop, hlow, habove⟩ := ih (Nat.le_of_succ_le hj)
    rw [Function.iterate_succ_apply']
    have hzero : (shifted (shifted^[j] (p.setWidth 16))).getLsbD 0 = true := by
      rw [getLsbD_shifted _ (by decide)]
      exact htop 8 (by omega) (by decide)
    refine ⟨fun m hm hm10 => ?_, fun m hm hm10 => ?_, fun m hm => ?_⟩
    · cases m with
      | zero => exact hzero
      | succ m =>
        rw [getLsbD_shifted _ (by omega), Nat.add_sub_cancel, htop m (by omega) (by omega)]
        simp
    · cases m with
      | zero => exact hzero
      | succ m =>
        rw [getLsbD_shifted _ (by omega), Nat.add_sub_cancel, hlow m (by omega) (by omega)]
        simp
    · by_cases hm16 : m < 16
      · rw [getLsbD_shifted _ hm16, habove (m - 1) (by omega), BitVec.getLsbD_of_ge _ _ (by omega)]
        simp
      · exact BitVec.getLsbD_of_ge _ _ (Nat.le_of_not_lt hm16)

theorem port_iterate {k : ℕ}
    (h : ∀ j < k, (shifted (shifted^[j] (p.setWidth 16))).setWidth 10 =
      turn ((shifted^[j] (p.setWidth 16)).setWidth 10)) {j : ℕ} (hj : j ≤ k) :
    (shifted^[j] (p.setWidth 16)).setWidth 10 = turn^[j] p := by
  induction j with
  | zero => simp
  | succ j ih =>
    rw [Function.iterate_succ_apply', Function.iterate_succ_apply', h j hj,
      ih (Nat.le_of_succ_le hj)]

/-- Rotations through `k` steps need LEDs from `9 - k` on that are like LED 9, which comes back to
LED 1 over LED 0. -/
theorem top_of_port {k : ℕ}
    (h : ∀ j ≤ k, (shifted^[j] (p.setWidth 16)).setWidth 10 = turn^[j] p) :
    Top p k (p.getLsbD 9) ∧ (0 < k → p.getLsbD 9 = true → p.getLsbD 0 = true) := by
  have hstep : ∀ j, j < k → _ ∧ _ := fun j hj => (port_step_iff _).mp (by
    rw [h j hj.le, ← Function.iterate_succ_apply' turn, ← h (j + 1) hj,
      Function.iterate_succ_apply'])
  have hbit : ∀ j m, j ≤ k → m < 10 →
      (shifted^[j] (p.setWidth 16)).getLsbD m = (turn^[j] p).getLsbD m := fun j m hj hm => by
    rw [← h j hj, BitVec.getLsbD_setWidth, decide_eq_true hm, Bool.true_and]
  have htop : ∀ d, d ≤ k → d ≤ 9 → p.getLsbD (9 - d) = p.getLsbD 9 := by
    intro d hd hd9
    induction d with
    | zero => rfl
    | succ d ih =>
      -- Step `d` has bit `8 - d` of the pattern in LED 8 and bit `9 - d` in LED 9.
      have h89 := (hstep d hd).1
      have h8 := getLsbD_turn_iterate p (j := d) (m := 8 - d) (by omega)
      have h9 := getLsbD_turn_iterate p (j := d) (m := 9 - d) (by omega)
      rw [Nat.sub_add_cancel (by omega)] at h8 h9
      rw [hbit d 8 (by omega) (by decide), hbit d 9 (by omega) (by decide), h8, h9] at h89
      have hsucc : 9 - (d + 1) = 8 - d := by omega
      rw [hsucc]
      exact h89.trans (ih (by omega) (by omega))
  refine ⟨fun m hm hm10 => ?_, fun hk h9 => ?_⟩
  · have hd := htop (9 - m) (by omega) (by omega)
    rwa [Nat.sub_sub_self (by omega)] at hd
  · have hback := (hstep 0 hk).2 0 (by decide)
    rw [hbit 0 9 (Nat.zero_le k) (by decide), hbit 0 0 (Nat.zero_le k) (by decide)] at hback
    exact hback h9

theorem circles_iff_top (v : Vars) (p : BitVec 10) (k : ℕ) :
    Circles v p k ↔ k = 0 ∨ Top p k false ∨ p.getLsbD 0 = true ∧ Top p k true := by
  simp only [circles_iff, ledPort_rotate_iterate]
  constructor
  · intro h
    obtain ⟨htop, hback⟩ := top_of_port h
    rcases Nat.eq_zero_or_pos k with hk | hk
    · exact Or.inl hk
    · cases h9 : p.getLsbD 9 with
      | false => exact Or.inr (Or.inl (h9 ▸ htop))
      | true => exact Or.inr (Or.inr ⟨hback hk h9, h9 ▸ htop⟩)
  · intro h j hj
    refine port_iterate (k := k) (fun j hj => (port_step_iff _).mpr ?_) hj
    rcases h with rfl | hdark | ⟨h0, hlit⟩
    · exact absurd hj (Nat.not_lt_zero j)
    · have hoff : ∀ m, 8 ≤ m → (shifted^[j] (p.setWidth 16)).getLsbD m = false := fun m hm =>
        dark_iterate hdark hj.le (by omega)
      refine ⟨by rw [hoff 8 le_rfl, hoff 9 (by decide)], fun m _ hback => ?_⟩
      rw [hoff (m + 9) (by omega)] at hback
      cases hback
    · obtain ⟨htop, hlow, habove⟩ := lit_iterate h0 hlit hj.le
      refine ⟨by rw [htop 8 (by omega) (by decide), htop 9 (by omega) (by decide)], ?_⟩
      intro m hm hback
      by_cases hmj : m ≤ j
      · exact hlow m hmj (by omega)
      · rw [habove (m + 9) (by omega)] at hback
        cases hback

/-- **Which patterns the animation circles.** The first `k` steps rotate a pattern if and only if
`k` is 0, or the LEDs from `9 - k` on are off, or they are on and LED 0 is. All steps do if and only
if all LEDs are off, or all are on. -/
theorem animation_circles_iff (v : Vars) (p : BitVec 10) :
    (∀ k, Circles v p k ↔ k = 0 ∨ Top p k false ∨ p.getLsbD 0 = true ∧ Top p k true) ∧
    ((∀ k, Circles v p k) ↔ p = 0#10 ∨ p = BitVec.allOnes 10) := by
  refine ⟨circles_iff_top v p, ?_⟩
  have hdark : ∀ k, p = 0#10 → Top p k false := by
    rintro k rfl m - -
    simp
  have hlit : ∀ k, p = BitVec.allOnes 10 → Top p k true := by
    rintro k rfl m - hm
    rw [BitVec.getLsbD_allOnes, decide_eq_true hm]
  constructor
  · intro hall
    rcases (circles_iff_top v p 9).mp (hall 9) with h9 | hoff | ⟨-, hon⟩
    · cases h9
    · refine Or.inl (BitVec.eq_of_getLsbD_eq fun m hm => ?_)
      simp [hoff m (Nat.zero_le m) hm]
    · refine Or.inr (BitVec.eq_of_getLsbD_eq fun m hm => ?_)
      rw [hon m (Nat.zero_le m) hm, BitVec.getLsbD_allOnes, decide_eq_true hm]
  · intro h k
    rw [circles_iff_top]
    rcases h with h | h
    · exact Or.inr (Or.inl (hdark k h))
    · exact Or.inr (Or.inr ⟨by rw [h]; decide, hlit k h⟩)

/-- One LED that is on becomes two when it comes round. -/
theorem animation_duplicates : ¬ ∀ (v : Vars) (p : BitVec 10) (k : ℕ), Circles v p k := by
  intro hall
  have hport := circles_iff.mp (hall {} 1#10 9) 9 le_rfl
  exact absurd hport (by decide)

end Animation

end ReactionMeter
