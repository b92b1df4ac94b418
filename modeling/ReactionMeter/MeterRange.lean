import ReactionMeter.MeterTiming

/-!
# What the registers of the meter may hold

The ranges the entity declares, followed over runs with arbitrary resets. Reset freezes the state
machine, so the cycles of a visit to COUNT are the edges without reset: `countCycle` counts them,
and `tick_countCycle` says that `tick` is that count.

**The response time (`respTime_le_iff`).** `resp_time` is declared `0 TO 2000`, but COUNT
lasts 150000000 cycles, which is 3000 ms: the values stay in the range exactly in those runs that
accept no press in the last 49950000 cycles of COUNT.

**The random delay (`random_wait`).** The generator is not reset with the meter. Its register is
never zero, and it stands still outside START, so a visit to DELAY with an unset delay compares with
one threshold, strictly between 3 s and 6 s. A reset edge does not come to the assignment of
`wait_ticks`: where the visit begins in reset, the old value stays until the first edge out of it
(`random_wait_reset_first`).

**The counters (`ticks_in_range`).** `tick` and `wait_ticks` are declared `0 TO 3 * MAX_DELAY` and
stay there, whatever the delay register does in the middle of a visit: `Ticks` bounds what an edge
may find, and every edge keeps it.
-/

namespace ReactionMeter

namespace Meter

variable {g : Generics} {i : ℕ → MeterIn}

/-- The number of COUNT cycles of the current visit that are complete at time `n`. -/
def countCycle (g : Generics) (i : ℕ → MeterIn) : ℕ → ℕ
  | 0 => 0
  | n + 1 =>
    if (trace g i n).nextState = .count then
      if (i n).resetn = true then countCycle g i n + 1 else countCycle g i n
    else 0

theorem tick_countCycle (n : ℕ) (h : (trace g i n).nextState = .count) :
    (trace g i n).tick = countCycle g i n := by
  induction n with
  | zero => cases h
  | succ n ih =>
    rw [trace_succ] at h ⊢
    rw [countCycle]
    cases hr : (i n).resetn with
    | false =>
      obtain ⟨hn, -, -, ht⟩ := step_reset_frozen g (trace g i n) hr
      rw [hn] at h
      rw [ht, if_pos h, if_neg (by decide), ih h]
    | true =>
      cases hs : (trace g i n).nextState with
      | count =>
        rw [if_pos rfl, if_pos rfl, ← ih hs]
        by_cases ht : (trace g i n).tick + 1 < g.maxDelay
        · cases hb : (i n).buttons[1] with
          | true => rw [step_count_wait hr hs ht hb]
          | false => rw [step_count_press hr hs ht hb] at h; cases h
        · rw [step_count_timeout hr hs (Nat.le_of_not_lt ht)] at h; cases h
      | delay =>
        rw [if_neg (by decide)]
        by_cases ht : (trace g i n).tick + 1 < waitOf g (i n).regDelay (trace g i n).lfsr
        · rw [step_delay_wait hr hs ht] at h; exact absurd (hs.symm.trans h) (by decide)
        · have ht := Nat.le_of_not_lt ht
          cases hb : (i n).buttons[1] with
          | true => rw [step_delay_done hr hs ht hb]
          | false =>
            rw [step_delay_restart hr hs ht hb] at h; exact absurd (hs.symm.trans h) (by decide)
      | idle | start | stop =>
        have hpred := (edge_step g (trace g i n) hr).pred (by rw [hs]; decide) h (by decide)
        exact absurd (hs.symm.trans hpred) (by decide)

/-- Edge `n` accepts a press: the meter is in COUNT, out of reset and before its timeout, and the
response button is down. -/
def Accepts (g : Generics) (i : ℕ → MeterIn) (n : ℕ) : Prop :=
  (i n).resetn = true ∧ (trace g i n).nextState = .count ∧
    countCycle g i n + 1 < g.maxDelay ∧ (i n).resp = false

instance (g : Generics) (i : ℕ → MeterIn) (n : ℕ) : Decidable (Accepts g i n) := by
  unfold Accepts; infer_instance

theorem Accepts.step {n : ℕ} (h : Accepts g i n) :
    (trace g i (n + 1)).nextState = .stop ∧
      (trace g i (n + 1)).respTime = (countCycle g i n + 1) / (g.fClk / 1000) := by
  obtain ⟨hr, hs, hlt, hb⟩ := h
  have ht := tick_countCycle n hs
  rw [trace_succ, step_count_press hr hs (by rw [ht]; exact hlt) hb, ← ht]
  exact ⟨rfl, rfl⟩

theorem respTime_succ (n : ℕ) :
    (trace g i (n + 1)).respTime = (trace g i n).respTime ∨
      ((i n).resetn = false ∧ (trace g i (n + 1)).respTime = 0) ∨ Accepts g i n := by
  cases hr : (i n).resetn with
  | false => exact Or.inr (Or.inl ⟨rfl, by rw [trace_succ, step_reset hr]⟩)
  | true =>
    rw [trace_succ]
    cases edge_step g (trace g i n) hr with
    | stop hs hn hi ht hv =>
      refine Or.inr (Or.inr ⟨hr, hs, by rw [← tick_countCycle n hs]; exact ht, ?_⟩)
      cases hb : (i n).resp with
      | false => rfl
      | true =>
        rw [step_count_wait hr hs ht hb] at hn
        exact absurd (hs.symm.trans hn) (by decide)
    | stay _ _ h | start _ _ _ h | delay _ _ _ h | count _ _ _ h | timeout _ _ _ h
    | idle _ _ _ h => exact Or.inl h

/-- The COUNT cycle of the latest accepted press, unless a reset has followed it. -/
def lastPress (g : Generics) (i : ℕ → MeterIn) : ℕ → Option ℕ
  | 0 => none
  | n + 1 =>
    if (i n).resetn = false then none
    else if Accepts g i n then some (countCycle g i n + 1)
    else lastPress g i n

theorem respTime_lastPress (n : ℕ) :
    (trace g i n).respTime = (lastPress g i n).elim 0 fun c => c / (g.fClk / 1000) := by
  induction n with
  | zero => rfl
  | succ n ih =>
    rw [lastPress]
    by_cases hr : (i n).resetn = false
    · rw [if_pos hr, trace_succ, step_reset hr]
      rfl
    · rw [if_neg hr]
      by_cases ha : Accepts g i n
      · rw [if_pos ha]
        exact ha.step.2
      · rw [if_neg ha, ← ih]
        rcases respTime_succ (g := g) (i := i) n with hk | ⟨hlow, -⟩ | hacc
        · exact hk
        · exact absurd hlow hr
        · exact absurd hacc ha

/-- In a run with any buttons, delays and resets, every value assigned to `resp_time` is at most
2000 if and only if every accepted press comes before COUNT cycle 100050000. -/
theorem respTime_le_iff (i : ℕ → MeterIn) :
    (∀ n, (trace {} i n).respTime ≤ 2000) ↔
      ∀ n, Accepts {} i n → countCycle {} i n + 1 < 100050000 := by
  constructor
  · intro h n hn
    have hle := h (n + 1)
    rw [hn.step.2] at hle
    exact (Nat.div_lt_iff_lt_mul (by decide)).mp (Nat.lt_succ_of_le hle)
  · intro h n
    induction n with
    | zero => exact Nat.zero_le 2000
    | succ n ih =>
      rcases respTime_succ (g := {}) (i := i) n with hk | ⟨-, h0⟩ | hacc
      · rw [hk]; exact ih
      · rw [h0]; exact Nat.zero_le _
      · rw [hacc.step.2]
        exact Nat.le_of_lt_succ ((Nat.div_lt_iff_lt_mul (by decide)).mpr (h n hacc))

theorem played_accepts {d n : ℕ} (hd : 0 < d) (hn : 1 ≤ n) (hlt : n < 150000000) :
    Accepts {} (played d n) (1 + d * 50000 + n) ∧
      countCycle {} (played d n) (1 + d * 50000 + n) + 1 = n := by
  obtain ⟨hk, hc, -⟩ := played_round hd hn hlt
  have hs : (trace {} (played d n) (1 + d * 50000 + n)).nextState = .count := hc.1 n hn le_rfl
  obtain ⟨m, rfl⟩ := Nat.exists_eq_succ_of_ne_zero (Nat.one_le_iff_ne_zero.mp hn)
  have ha := played_enters d (m + 1) hn
  have ht := (tick_count (fun _ => rfl) (hk.enters (by decide) ha) hc.1).1
  have hcyc : countCycle {} (played d (m + 1)) (1 + d * 50000 + (m + 1)) = m :=
    (tick_countCycle _ hs).symm.trans ht
  exact ⟨⟨rfl, hs, by rw [hcyc]; exact hlt, played_down le_rfl⟩, congrArg (· + 1) hcyc⟩

/-- A response after 2001 ms is accepted and leaves the declared range. -/
theorem respTime_leaves_range :
    ¬ ∀ i : ℕ → MeterIn, (∀ n, (i n).regDelay ≤ 5000) → ∀ n, (trace {} i n).respTime ≤ 2000 := by
  intro h
  obtain ⟨-, -, hv⟩ :=
    played_round (d := 2000) (n := 100050000) (by decide) (by decide) (by decide)
  have hle := h (played 2000 100050000) (fun t => by simp only [played]; split_ifs <;> decide)
    (1 + 2000 * 50000 + 100050000 + 1)
  rw [hv] at hle
  exact absurd hle (by decide)

/-! ## The random delay -/

theorem lfsr_ne_zero (g : Generics) (i : ℕ → MeterIn) (n : ℕ) : (trace g i n).lfsr ≠ 0#8 :=
  Clocked.run_invariant (C := fun _ => True) (P := fun s : Meter => s.lfsr ≠ 0#8)
    (by decide) (fun s _ _ h => Prng.step_ne_zero h false s.rngEn) (fun _ => trivial) n

theorem waitOf_random {rnd : BitVec 8} (h : rnd ≠ 0#8) :
    150000000 < waitOf {} 0 rnd ∧ waitOf {} 0 rnd < 2 * 150000000 := by
  have hlt := rnd.isLt
  have hpos : 0 < rnd.toNat := Nat.pos_of_ne_zero fun h0 => h (BitVec.eq_of_toNat_eq h0)
  have hw : waitOf {} 0 rnd = 300000000 - 588235 * rnd.toNat := rfl
  omega

theorem waitTicks_delay {n : ℕ} (hr : (i n).resetn = true) (hs : (trace g i n).nextState = .delay) :
    (trace g i (n + 1)).waitTicks = waitOf g (i n).regDelay (trace g i n).lfsr := by
  rw [trace_succ]
  by_cases ht : (trace g i n).tick + 1 < waitOf g (i n).regDelay (trace g i n).lfsr
  · rw [step_delay_wait hr hs ht]
  · have ht := Nat.le_of_not_lt ht
    by_cases hb : (i n).buttons[1] = true
    · rw [step_delay_done hr hs ht hb]
    · rw [step_delay_restart hr hs ht (by simpa using hb)]

/-- From its first cycle out of reset on, a visit to DELAY compares with one threshold, also where
later resets interrupt it. -/
theorem waitTicks_visit {a k w : ℕ} (hw : Threshold g i a w) (hk : Spends g i .delay a k)
    (hfirst : ∃ j, 1 ≤ j ∧ j ≤ k ∧ (i (a + j)).resetn = true) :
    (trace g i (a + k + 1)).waitTicks = w := by
  induction k with
  | zero =>
    obtain ⟨j, h1, hj, -⟩ := hfirst
    omega
  | succ k ih =>
    by_cases hr : (i (a + (k + 1))).resetn = true
    · rw [waitTicks_delay hr (hk (k + 1) (Nat.le_add_left 1 k) le_rfl)]
      exact hw (k + 1) (Nat.le_add_left 1 k) hk
    · have hfrozen : (trace g i (a + (k + 1) + 1)).waitTicks =
          (trace g i (a + (k + 1))).waitTicks := by
        rw [trace_succ, step_reset (by simpa using hr)]
      rw [hfrozen]
      apply ih (hk.mono (Nat.le_succ k))
      obtain ⟨j, h1, hj, hjr⟩ := hfirst
      have hne : j ≠ k + 1 := fun hjk => hr (hjk ▸ hjr)
      exact ⟨j, h1, by omega, hjr⟩

/-- **The random delay.** In a run with any buttons, delays and resets the register of the generator
is never zero, `rng_en` is high only in START, and in a visit to DELAY with `reg_delay` at 0
`wait_ticks` has one value in all cycles from the first one out of reset, strictly between
`MAX_DELAY` and `2 * MAX_DELAY`. -/
theorem random_wait (i : ℕ → MeterIn) :
    (∀ n, (trace {} i n).lfsr ≠ 0#8) ∧
    (∀ n, (trace {} i n).rngEn = true → (trace {} i n).nextState = .start) ∧
    ∀ a, Enters {} i .delay a →
      (∀ k, 1 ≤ k → Spends {} i .delay a k → (i (a + k)).regDelay = 0) →
      ∃ w, 150000000 < w ∧ w < 2 * 150000000 ∧
        ∀ k, Spends {} i .delay a k → (∃ j, 1 ≤ j ∧ j ≤ k ∧ (i (a + j)).resetn = true) →
          (trace {} i (a + k + 1)).waitTicks = w := by
  refine ⟨lfsr_ne_zero {} i, rngEn_start {} i, fun a _ hreg => ?_⟩
  obtain ⟨hlo, hhi⟩ := waitOf_random (lfsr_ne_zero {} i (a + 1))
  exact ⟨_, hlo, hhi, fun k hk hfirst => waitTicks_visit (threshold_of_const hreg) hk hfirst⟩

/-- The first random delay after power-up is nearly six seconds long. -/
theorem random_wait_power_up :
    150000000 < (trace {} (played 0 1) 3).waitTicks ∧
      (trace {} (played 0 1) 3).waitTicks < 2 * 150000000 := by
  have henter : Enters {} (played 0 1) .delay 1 := played_enters 0 1 le_rfl
  obtain ⟨w, hlo, hhi, hw⟩ := (random_wait (played 0 1)).2.2 1 henter
    fun k _ _ => by simp [played]
  rw [hw 1 henter.spends_one ⟨1, le_rfl, le_rfl, rfl⟩]
  exact ⟨hlo, hhi⟩

/-- The start button is down at the first edge and up from the second, which enters DELAY; the
third, the first of the visit, is in reset. -/
def resetFirst (n : ℕ) : MeterIn :=
  { resetn := decide (n ≠ 2), regDelay := 0, buttons := if n = 0 then 0b10#2 else 0b11#2 }

/-- Not in every cycle of the visit has `wait_ticks` its value: reset keeps the one before. -/
theorem random_wait_reset_first :
    ¬ ∀ i : ℕ → MeterIn, (∀ n, (trace {} i n).lfsr ≠ 0#8) ∧
      (∀ n, (trace {} i n).rngEn = true → (trace {} i n).nextState = .start) ∧
      ∀ a, Enters {} i .delay a →
        (∀ k, 1 ≤ k → Spends {} i .delay a k → (i (a + k)).regDelay = 0) →
        ∃ w, 150000000 < w ∧ w < 2 * 150000000 ∧
          ∀ k, 1 ≤ k → Spends {} i .delay a k → (trace {} i (a + k + 1)).waitTicks = w := by
  intro h
  have henter : Enters {} resetFirst .delay 1 := ⟨by decide, by decide⟩
  obtain ⟨w, hlo, -, hw⟩ := (h resetFirst).2.2 1 henter fun _ _ _ => rfl
  have hzero : (trace {} resetFirst 3).waitTicks = 0 := by decide
  have hcycle := hw 1 le_rfl henter.spends_one
  rw [hzero] at hcycle
  omega

/-! ## The counters -/

/-- What an edge finds in `tick` and `wait_ticks`. -/
structure Ticks (s : Meter) : Prop where
  tick : s.tick ≤ 2 * 150000000
  waitTicks : s.waitTicks ≤ 2 * 150000000
  delay : s.nextState = .delay → s.tick < 2 * 150000000
  count : s.nextState = .count → s.tick < 150000000

theorem waitOf_le {d : ℕ} (hd : d ≤ 5000) (rnd : BitVec 8) : waitOf {} d rnd ≤ 2 * 150000000 := by
  unfold waitOf
  split_ifs
  · omega
  · exact (Nat.sub_le _ _).trans (by decide)

theorem Ticks.step {s : Meter} {i : MeterIn} (hreg : i.regDelay ≤ 5000) (h : Ticks s) :
    Ticks (step {} s i) := by
  obtain ⟨htick, hwait, hdelay, hcount⟩ := h
  cases hr : i.resetn with
  | false =>
    rw [step_reset hr]
    exact ⟨htick, hwait, hdelay, hcount⟩
  | true =>
    cases hs : s.nextState with
    | idle =>
      cases hb : i.buttons[0] with
      | true => rw [step_idle_stay hr hs hb]; exact ⟨htick, hwait, hdelay, hcount⟩
      | false => rw [step_idle_press hr hs hb]; exact ⟨htick, hwait, by simp, by simp⟩
    | start =>
      cases hb : i.buttons[0] with
      | true => rw [step_start_release hr hs hb]; exact ⟨by simp, hwait, by simp, by simp⟩
      | false => rw [step_start_hold hr hs hb]; exact ⟨htick, hwait, hdelay, hcount⟩
    | delay =>
      have hle := waitOf_le hreg s.lfsr
      by_cases ht : s.tick + 1 < waitOf {} i.regDelay s.lfsr
      · -- `tick` stays below a threshold that is itself in the range.
        have hlt := ht.trans_le hle
        rw [step_delay_wait hr hs ht]
        exact ⟨hlt.le, hle, fun _ => hlt, fun hc => absurd (hs.symm.trans hc) (by decide)⟩
      · have ht := Nat.le_of_not_lt ht
        cases hb : i.buttons[1] with
        | true => rw [step_delay_done hr hs ht hb]; exact ⟨by simp, hle, by simp, by simp⟩
        | false => rw [step_delay_restart hr hs ht hb]; exact ⟨by simp, hle, by simp, by simp⟩
    | count =>
      have hlt := hcount hs
      by_cases ht : s.tick + 1 < ({} : Generics).maxDelay
      · cases hb : i.buttons[1] with
        | true =>
          rw [step_count_wait hr hs ht hb]
          exact ⟨by show s.tick + 1 ≤ _; omega, hwait,
            fun hd => absurd (hs.symm.trans hd) (by decide), fun _ => ht⟩
        | false => rw [step_count_press hr hs ht hb]; exact ⟨by simp, hwait, by simp, by simp⟩
      · -- The timeout leaves `tick` behind in IDLE.
        rw [step_count_timeout hr hs (Nat.le_of_not_lt ht)]
        exact ⟨by show s.tick + 1 ≤ _; omega, hwait, by simp, by simp⟩
    | stop =>
      cases hb : i.buttons[1] with
      | true => rw [step_stop_release hr hs hb]; exact ⟨htick, hwait, by simp, by simp⟩
      | false => rw [step_stop_hold hr hs hb]; exact ⟨htick, hwait, hdelay, hcount⟩

theorem ticks_trace (hreg : ∀ n, (i n).regDelay ≤ 5000) (n : ℕ) : Ticks (trace {} i n) :=
  Clocked.run_invariant (C := fun a : MeterIn => a.regDelay ≤ 5000)
    ⟨by decide, by decide, by simp [powerUp], by simp [powerUp]⟩
    (fun _ _ ha h => h.step ha) hreg n

/-- **The counters stay in their range.** In a run with any buttons and resets, and a delay that
changes arbitrarily within `0 TO 5000`: at every time `tick` and `wait_ticks` are in
`0 TO 3 * MAX_DELAY`, and so are the values an edge assigns on the way, `tick + 1` in DELAY and COUNT
and the threshold in DELAY, whose difference is not negative. In DELAY `tick` is below
`2 * MAX_DELAY`, in COUNT below `MAX_DELAY`. -/
theorem ticks_in_range (i : ℕ → MeterIn) (hreg : ∀ n, (i n).regDelay ≤ 5000) (n : ℕ) :
    let s := trace {} i n
    s.tick ≤ 3 * 150000000 ∧ s.waitTicks ≤ 3 * 150000000 ∧
    (s.nextState = .delay ∨ s.nextState = .count → s.tick + 1 ≤ 3 * 150000000) ∧
    (s.nextState = .delay → waitOf {} (i n).regDelay s.lfsr ≤ 3 * 150000000 ∧
      150000000 / 255 * s.lfsr.toNat ≤ 150000000 * 2) ∧
    (s.nextState = .delay → s.tick < 2 * 150000000) ∧
    (s.nextState = .count → s.tick < 150000000) := by
  intro s
  have h := ticks_trace hreg n
  have htick : s.tick ≤ 2 * 150000000 := h.tick
  have hlfsr := s.lfsr.isLt
  refine ⟨by omega, h.waitTicks.trans (by decide), fun _ => by omega, fun _ => ?_, h.delay, h.count⟩
  exact ⟨(waitOf_le (hreg n) s.lfsr).trans (by decide), by omega⟩

/-- A delay that is written down to 1 ms in the middle of the visit. -/
theorem ticks_in_range_lowered :
    (trace {} (fun n => { played 5000 1 n with regDelay := if n < 100 then 5000 else 1 }) 1000).tick
      ≤ 3 * 150000000 :=
  (ticks_in_range _ (fun n => by simp only; split_ifs <;> decide) 1000).1

end Meter

end ReactionMeter
