import ReactionMeter.MeterRange

/-!
# The random delay over many rounds

The generator keeps its register from round to round, and how long the start button is held decides
how far it moves. `enabledCycles` counts the edges that shift it since power-up: the register is a
function of that count (`lfsr_enabled`), and the count of its residue modulo 255.

`random_delay_period` puts together the period of the generator, the edge by which `rng_en` lags
START (`enabledCycles_start`), and the formula of the threshold, which loses nothing.
-/

namespace ReactionMeter

namespace Meter

variable {g : Generics} {i : ℕ → MeterIn}

/-! ## Enabled cycles -/

/-- The number of edges before time `n` that begin with `rng_en = '1'`. -/
def enabledCycles (g : Generics) (i : ℕ → MeterIn) : ℕ → ℕ
  | 0 => 0
  | n + 1 => if (trace g i n).rngEn = true then enabledCycles g i n + 1 else enabledCycles g i n

theorem lfsr_enabled (g : Generics) (i : ℕ → MeterIn) (n : ℕ) :
    (trace g i n).lfsr = Prng.shift^[enabledCycles g i n] 1#8 := by
  induction n with
  | zero => rfl
  | succ n ih =>
    rw [trace_succ, enabledCycles]
    show Prng.step (trace g i n).lfsr false (trace g i n).rngEn = _
    cases hen : (trace g i n).rngEn with
    | false => rw [Prng.step_disabled, ih, if_neg (by decide)]
    | true => rw [if_pos rfl, Function.iterate_succ_apply', ← ih]; rfl

/-- START is entered with the generator still. -/
theorem rngEn_enters_start {a : ℕ} (h : Enters g i .start a) : (trace g i (a + 1)).rngEn = false := by
  obtain ⟨hr, hs⟩ := h.pred (by decide)
  have hen : (trace g i a).rngEn = false := rngEn_eq_false h.1
  have heq := h.2
  rw [trace_succ] at heq ⊢
  cases hb : (i a).buttons[0] with
  | true => rw [step_idle_stay hr hs hb] at heq; exact absurd (hs.symm.trans heq) (by decide)
  | false => rw [step_idle_press hr hs hb]; exact hen

section Start

variable {a m : ℕ} (hm : MovesAt g i .start .delay a m)
  (hreset : ∀ j, 1 ≤ j → j ≤ m → (i (a + j)).resetn = true)
include hm hreset

/-- From the second cycle of START to its last the generator is enabled, and no longer. -/
theorem rngEn_start_visit {k : ℕ} (h1 : 1 ≤ k) (hk : k < m) :
    (trace g i (a + k + 1)).rngEn = true := by
  have hs : (trace g i (a + k)).nextState = .start := hm.1 k h1 hk.le
  have hs' : (trace g i (a + k + 1)).nextState = .start := hm.1 (k + 1) (by omega) hk
  have hr := hreset k h1 hk.le
  rw [trace_succ] at hs' ⊢
  cases hb : (i (a + k)).buttons[0] with
  | true => rw [step_start_release hr hs hb] at hs'; cases hs'
  | false => rw [step_start_hold hr hs hb]

/-- A visit to START of `m` cycles enables the generator for `m - 1` of them. -/
theorem enabledCycles_start (ha : Enters g i .start a) {k : ℕ} (hk : k < m) :
    enabledCycles g i (a + k + 2) = enabledCycles g i (a + 1) + k := by
  induction k with
  | zero =>
    show enabledCycles g i (a + 1 + 1) = enabledCycles g i (a + 1)
    rw [enabledCycles, rngEn_enters_start ha, if_neg (by decide)]
  | succ k ih =>
    have hen : (trace g i (a + (k + 1) + 1)).rngEn = true :=
      rngEn_start_visit hm hreset (Nat.le_add_left 1 k) hk
    rw [enabledCycles, if_pos hen]
    exact congrArg (· + 1) (ih (Nat.lt_of_succ_lt hk))

end Start

/-! ## The delays -/

/-- Cycle `n` is a cycle of DELAY, out of reset, with the delay register at 0. -/
def RandomCycle (i : ℕ → MeterIn) (n : ℕ) : Prop :=
  (i n).resetn = true ∧ (trace {} i n).nextState = .delay ∧ (i n).regDelay = 0

theorem waitTicks_random {n : ℕ} (h : RandomCycle i n) :
    (trace {} i (n + 1)).waitTicks = 300000000 - 588235 * (trace {} i n).lfsr.toNat := by
  obtain ⟨hr, hs, hreg⟩ := h
  rw [waitTicks_delay hr hs, hreg]
  rfl

theorem waitTicks_eq_iff {j : ℕ → MeterIn} {n m : ℕ} (hn : RandomCycle i n) (hm : RandomCycle j m) :
    (trace {} i (n + 1)).waitTicks = (trace {} j (m + 1)).waitTicks ↔
      (trace {} i n).lfsr = (trace {} j m).lfsr := by
  have hi := (trace {} i n).lfsr.isLt
  have hj := (trace {} j m).lfsr.isLt
  rw [waitTicks_random hn, waitTicks_random hm]
  constructor
  · intro h
    apply BitVec.eq_of_toNat_eq
    omega
  · intro h
    rw [h]

/-- The history `i` up to edge `a`, and then the start button held for `m` cycles of START and let
go, with the delay register at 0. -/
def heldFor (i : ℕ → MeterIn) (a m : ℕ) (n : ℕ) : MeterIn :=
  if n ≤ a then i n
  else { resetn := true, regDelay := 0, buttons := if n < a + m then 0b10#2 else 0b11#2 }

section Held

variable {a m : ℕ}

theorem heldFor_after {k : ℕ} (h1 : 1 ≤ k) :
    heldFor i a m (a + k) =
      { resetn := true, regDelay := 0, buttons := if k < m then 0b10#2 else 0b11#2 } := by
  have hgt : ¬ a + k ≤ a := by omega
  simp [heldFor, hgt]

theorem trace_heldFor {n : ℕ} (hn : n ≤ a + 1) : trace {} (heldFor i a m) n = trace {} i n :=
  Clocked.run_congr fun _ hk => if_pos (Nat.le_of_lt_succ (hk.trans_le hn))

theorem enabledCycles_heldFor {n : ℕ} (hn : n ≤ a + 1) :
    enabledCycles {} (heldFor i a m) n = enabledCycles {} i n := by
  induction n with
  | zero => rfl
  | succ n ih =>
    rw [enabledCycles, enabledCycles, trace_heldFor (Nat.le_of_succ_le hn),
      ih (Nat.le_of_succ_le hn)]

variable (ha : Enters {} i .start a)
include ha

theorem enters_heldFor : Enters {} (heldFor i a m) .start a := by
  unfold Enters
  rw [trace_heldFor (Nat.le_succ a), trace_heldFor le_rfl]
  exact ha

theorem spends_heldFor {k : ℕ} (hk : k < m) : Spends {} (heldFor i a m) .start a (k + 1) := by
  induction k with
  | zero => exact (enters_heldFor ha).spends_one
  | succ k ih =>
    have hspl := ih (Nat.lt_of_succ_lt hk)
    have hs : (trace {} (heldFor i a m) (a + (k + 1))).nextState = .start :=
      hspl (k + 1) (Nat.le_add_left 1 k) le_rfl
    have hin := heldFor_after (i := i) (a := a) (m := m) (Nat.le_add_left 1 k)
    apply hspl.succ
    rw [trace_succ, step_start_hold (by rw [hin]) hs (by rw [hin, if_pos hk]; rfl)]
    exact hs

theorem moves_heldFor (hm : 1 ≤ m) : MovesAt {} (heldFor i a m) .start .delay a m := by
  obtain ⟨k, rfl⟩ := Nat.exists_eq_succ_of_ne_zero (Nat.one_le_iff_ne_zero.mp hm)
  have hspl := spends_heldFor ha (Nat.lt_succ_self k)
  have hs : (trace {} (heldFor i a (k + 1)) (a + (k + 1))).nextState = .start :=
    hspl (k + 1) hm le_rfl
  have hin := heldFor_after (i := i) (a := a) (m := k + 1) (Nat.le_add_left 1 k)
  refine ⟨hspl, ?_⟩
  rw [trace_succ, step_start_release (by rw [hin]) hs (by rw [hin, if_neg (lt_irrefl _)]; rfl)]

/-- After a press of `m` cycles the generator stands `m - 1` shifts further. -/
theorem lfsr_heldFor (hm : 1 ≤ m) :
    RandomCycle (heldFor i a m) (a + m + 1) ∧
      (trace {} (heldFor i a m) (a + m + 1)).lfsr =
        Prng.shift^[enabledCycles {} i (a + 1) + (m - 1)] 1#8 := by
  have hmoves := moves_heldFor ha hm
  have hin := heldFor_after (i := i) (a := a) (m := m) (Nat.le_add_left 1 m)
  refine ⟨⟨congrArg MeterIn.resetn hin, hmoves.2, congrArg MeterIn.regDelay hin⟩, ?_⟩
  have hcount := enabledCycles_start hmoves
    (fun j h1 _ => congrArg MeterIn.resetn (heldFor_after h1)) (enters_heldFor ha) (k := m - 1)
    (by omega)
  rw [enabledCycles_heldFor le_rfl] at hcount
  have htime : a + (m - 1) + 2 = a + m + 1 := by omega
  rw [lfsr_enabled, ← htime, hcount]

end Held

/-- **The random delay has full period.** For any two histories, with any resets, buttons and delays
before: two random cycles of DELAY have equal thresholds if and only if the numbers of cycles the
generator was enabled in agree modulo 255. A visit to START of `m` cycles adds `m - 1` to that
number. And from any history that enters START, of 255 consecutive lengths of the press each of the
255 delays takes exactly one. -/
theorem random_delay_period :
    (∀ (i j : ℕ → MeterIn) (n m : ℕ), RandomCycle i n → RandomCycle j m →
      ((trace {} i (n + 1)).waitTicks = (trace {} j (m + 1)).waitTicks ↔
        enabledCycles {} i n ≡ enabledCycles {} j m [MOD 255])) ∧
    (∀ (i : ℕ → MeterIn) (a m : ℕ), Enters {} i .start a → MovesAt {} i .start .delay a m →
      (∀ j, 1 ≤ j → j ≤ m → (i (a + j)).resetn = true) →
      enabledCycles {} i (a + m + 1) = enabledCycles {} i (a + 1) + (m - 1)) ∧
    ∀ (i : ℕ → MeterIn) (a l : ℕ), Enters {} i .start a → 1 ≤ l → ∀ v, 1 ≤ v → v ≤ 255 →
      ∃! m, l ≤ m ∧ m < l + 255 ∧
        (trace {} (heldFor i a m) (a + m + 2)).waitTicks = 300000000 - 588235 * v := by
  refine ⟨fun i j n m hn hm => ?_, fun i a m ha hm hreset => ?_,
    fun i a l ha hl v hv1 hv => ?_⟩
  · rw [waitTicks_eq_iff hn hm, lfsr_enabled, lfsr_enabled, Prng.iterate_shift_eq_iff]
  · have hpos : 1 ≤ m := by
      by_contra h0
      obtain rfl : m = 0 := by omega
      exact absurd (ha.2.symm.trans hm.2) (by decide)
    have htime : a + (m - 1) + 2 = a + m + 1 := by omega
    rw [← htime, enabledCycles_start hm hreset ha (by omega)]
  · -- The value `v` comes after `n` shifts, so after every number of shifts that is `n` modulo 255.
    obtain ⟨n, hn⟩ := Prng.exists_iterate_shift (v := BitVec.ofNat 8 v) fun h => by
      have h0 := congrArg BitVec.toNat h
      rw [BitVec.toNat_ofNat] at h0
      simp at h0
      omega
    have hwait : ∀ m, 1 ≤ m →
        ((trace {} (heldFor i a m) (a + m + 2)).waitTicks = 300000000 - 588235 * v ↔
          (enabledCycles {} i (a + 1) + (m - 1)) % 255 = n % 255) := by
      intro m hm
      obtain ⟨hrandom, hlfsr⟩ := lfsr_heldFor ha hm
      have hlt := (trace {} (heldFor i a m) (a + m + 1)).lfsr.isLt
      rw [waitTicks_random hrandom]
      have hvalue : 300000000 - 588235 * (trace {} (heldFor i a m) (a + m + 1)).lfsr.toNat =
            300000000 - 588235 * v ↔
          (trace {} (heldFor i a m) (a + m + 1)).lfsr = BitVec.ofNat 8 v := by
        rw [← BitVec.toNat_inj, BitVec.toNat_ofNat]
        omega
      rw [hvalue, hlfsr, ← hn, Prng.iterate_shift_eq_iff]
      rfl
    generalize enabledCycles {} i (a + 1) = c at hwait
    refine ⟨l + (n + 254 * (c + (l - 1))) % 255, ⟨by omega, by omega, ?_⟩, fun m hm => ?_⟩
    · exact (hwait _ (by omega)).mpr (by omega)
    · obtain ⟨h1, h2, hw⟩ := hm
      have hmod := (hwait m (by omega)).mp hw
      omega

/-- The start button goes down at power-up: after presses of 1 and of 256 cycles the same delay
follows, and just one press of at most 255 cycles gives the shortest. -/
theorem random_delay_period_power_up :
    (trace {} (heldFor (fun _ => ⟨true, 0, 0b10#2⟩) 0 1) 3).waitTicks =
      (trace {} (heldFor (fun _ => ⟨true, 0, 0b10#2⟩) 0 256) 258).waitTicks ∧
    enabledCycles {} (heldFor (fun _ => ⟨true, 0, 0b10#2⟩) 0 256) 257 = 255 ∧
    ∃! m, 1 ≤ m ∧ m < 256 ∧
      (trace {} (heldFor (fun _ => ⟨true, 0, 0b10#2⟩) 0 m) (0 + m + 2)).waitTicks = 150000075 := by
  have henter : Enters {} (fun _ => ⟨true, 0, 0b10#2⟩) .start 0 := ⟨by decide, by decide⟩
  obtain ⟨hequal, hadds, hevery⟩ := random_delay_period
  refine ⟨?_, ?_, hevery _ 0 1 henter le_rfl 255 (by decide) le_rfl⟩
  · exact (hequal _ _ 2 257 (lfsr_heldFor henter le_rfl).1 (lfsr_heldFor henter (by decide)).1).mpr
      (by decide +kernel)
  · exact hadds _ 0 256 (enters_heldFor henter) (moves_heldFor henter (by decide))
      fun j h1 _ => congrArg MeterIn.resetn (heldFor_after h1)

end Meter

end ReactionMeter
