import Mathlib.Order.Bounds.Defs
import ReactionMeter.Meter

/-!
# Rounds of the meter, counted in cycles

A visit to a state is counted from the edge that entered it: cycle `k` of the visit that edge `a`
began is edge `a + k`, which takes the state at time `a + k` to the state at time `a + k + 1`.

**The DELAY law (`delay_moves_iff`).** The visit ends at the first cycle whose index is a multiple
of the threshold and in which the response button is up. The induction carries
`tick_delay`: after `k` cycles `tick` is `k` modulo the threshold.

**The COUNT law (`count_stop`, `count_timeout`).** The visit ends in STOP at the first cycle with
the response button down, or in IDLE at cycle `maxDelay`. The induction carries `tick_count`:
after `k` cycles `tick` is `k`.

Nothing is assumed about the rounds before the visit. What a round may leave behind in `tick` is
cleared by the edge that leaves START, and `rng_en` is high only in START (`rngEn_start`), so the
generator stands still during DELAY.
-/

namespace ReactionMeter

namespace Meter

variable {g : Generics} {i : ℕ → MeterIn}

/-! ## Visits -/

/-- Edge `a` enters `p`. -/
def Enters (g : Generics) (i : ℕ → MeterIn) (p : StateT) (a : ℕ) : Prop :=
  (trace g i a).nextState ≠ p ∧ (trace g i (a + 1)).nextState = p

/-- The first `k` cycles of the visit that edge `a` began are spent in `p`. -/
def Spends (g : Generics) (i : ℕ → MeterIn) (p : StateT) (a k : ℕ) : Prop :=
  ∀ j, 1 ≤ j → j ≤ k → (trace g i (a + j)).nextState = p

/-- The visit to `p` that edge `a` began ends at its cycle `k` with a move to `q`. -/
def MovesAt (g : Generics) (i : ℕ → MeterIn) (p q : StateT) (a k : ℕ) : Prop :=
  Spends g i p a k ∧ (trace g i (a + k + 1)).nextState = q

theorem Spends.mono {p : StateT} {a k l : ℕ} (h : Spends g i p a k) (hl : l ≤ k) :
    Spends g i p a l :=
  fun j h1 hj => h j h1 (hj.trans hl)

theorem Spends.succ {p : StateT} {a k : ℕ} (h : Spends g i p a k)
    (hk : (trace g i (a + k + 1)).nextState = p) : Spends g i p a (k + 1) := by
  intro j h1 hj
  rcases Nat.lt_or_eq_of_le hj with hlt | rfl
  · exact h j h1 (Nat.le_of_lt_succ hlt)
  · exact hk

theorem Enters.spends_one {p : StateT} {a : ℕ} (h : Enters g i p a) : Spends g i p a 1 := by
  intro j h1 hj
  rw [Nat.le_antisymm hj h1]
  exact h.2

/-- Reset does not move, so a visit begins out of reset, and in the state before. -/
theorem Enters.pred {q : StateT} {a : ℕ} (h : Enters g i q a) (hq : q ≠ .idle) :
    (i a).resetn = true ∧ (trace g i a).nextState = q.pred := by
  obtain ⟨hne, heq⟩ := h
  rw [trace_succ] at heq
  cases hr : (i a).resetn with
  | false => exact absurd ((step_reset_frozen g (trace g i a) hr).1.symm.trans heq) hne
  | true => exact ⟨rfl, (edge_step g (trace g i a) hr).pred hne heq hq⟩

/-! ## The generator stands still outside START -/

theorem rngEn_step (s : Meter) (a : MeterIn) (h : s.rngEn = true → s.nextState = .start) :
    (step g s a).rngEn = true → (step g s a).nextState = .start := by
  cases hr : a.resetn with
  | false => rw [step_reset hr]; exact h
  | true =>
    cases hs : s.nextState <;> rw [hs] at h <;>
      simp only [step, process, onState, onIdle, onStart, onDelay, onCount, onStop, hr, hs] <;>
      split_ifs <;> simp_all

theorem rngEn_start (g : Generics) (i : ℕ → MeterIn) (n : ℕ) :
    (trace g i n).rngEn = true → (trace g i n).nextState = .start :=
  Clocked.run_invariant (C := fun _ => True) (by intro h; cases h)
    (fun s a _ h => rngEn_step s a h) (fun _ => trivial) n

theorem rngEn_eq_false {n : ℕ} (h : (trace g i n).nextState ≠ .start) :
    (trace g i n).rngEn = false := by
  apply Bool.eq_false_of_not_eq_true
  intro hr
  exact h (rngEn_start g i n hr)

theorem lfsr_succ {n : ℕ} (h : (trace g i n).nextState ≠ .start) :
    (trace g i (n + 1)).lfsr = (trace g i n).lfsr := by
  rw [trace_succ]
  show Prng.step _ false (trace g i n).rngEn = _
  rw [rngEn_eq_false h, Prng.step_disabled]

/-- The generator keeps one value during a visit to a state other than START. -/
theorem lfsr_visit {p : StateT} (hp : p ≠ .start) {a k : ℕ} (h : Spends g i p a (k + 1)) :
    (trace g i (a + k + 1)).lfsr = (trace g i (a + 1)).lfsr := by
  induction k with
  | zero => rfl
  | succ k ih =>
    have hk : (trace g i (a + k + 1)).nextState = p := h (k + 1) (by omega) (by omega)
    rw [← ih (h.mono (by omega)), ← lfsr_succ (n := a + k + 1) (by rw [hk]; exact hp)]
    rfl

/-! ## DELAY -/

/-- The edge that leaves START clears `tick`, whatever it held. -/
theorem tick_enters_delay {a : ℕ} (h : Enters g i .delay a) : (trace g i (a + 1)).tick = 0 := by
  obtain ⟨hr, hs⟩ := h.pred (by decide)
  have heq := h.2
  rw [trace_succ] at heq ⊢
  cases hb : (i a).buttons[0] with
  | true => rw [step_start_release hr hs hb]
  | false => rw [step_start_hold hr hs hb] at heq; rw [hs] at heq; cases heq

/-- The threshold a visit to DELAY compares with: `w` in every cycle of the visit. -/
def Threshold (g : Generics) (i : ℕ → MeterIn) (a w : ℕ) : Prop :=
  ∀ k, 1 ≤ k → Spends g i .delay a k → waitOf g (i (a + k)).regDelay (trace g i (a + k)).lfsr = w

theorem succ_mod_of_lt {k w : ℕ} (h : k % w + 1 < w) : (k + 1) % w = k % w + 1 := by
  rw [← Nat.mod_add_mod, Nat.mod_eq_of_lt h]

theorem succ_mod_of_le {k w : ℕ} (hpos : 0 < w) (h : w ≤ k % w + 1) : (k + 1) % w = 0 := by
  have heq : k % w + 1 = w := Nat.le_antisymm (Nat.mod_lt k hpos) h
  rw [← Nat.mod_add_mod, heq, Nat.mod_self]

theorem dvd_succ_iff {k w : ℕ} (hpos : 0 < w) : w ∣ k + 1 ↔ w ≤ k % w + 1 := by
  rw [Nat.dvd_iff_mod_eq_zero]
  constructor
  · intro h
    by_contra hlt
    rw [succ_mod_of_lt (Nat.lt_of_not_le hlt)] at h
    cases h
  · exact succ_mod_of_le hpos

section Delay

variable {a w : ℕ} (hreset : ∀ n, (i n).resetn = true) (ha : Enters g i .delay a)
  (hpos : 0 < w) (hw : Threshold g i a w)
include hreset ha hpos hw

theorem tick_delay {k : ℕ} (h : Spends g i .delay a (k + 1)) :
    (trace g i (a + k + 1)).tick = k % w := by
  induction k with
  | zero => rw [Nat.zero_mod]; exact tick_enters_delay ha
  | succ k ih =>
    have hk := h.mono (Nat.le_succ (k + 1))
    have hs : (trace g i (a + k + 1)).nextState = .delay := h (k + 1) (by omega) (by omega)
    have hs' : (trace g i (a + (k + 1) + 1)).nextState = .delay := h (k + 2) (by omega) le_rfl
    have ht := ih hk
    have hwk := hw (k + 1) (by omega) hk
    rw [← Nat.add_assoc] at hwk hs' ⊢
    rw [trace_succ] at hs' ⊢
    by_cases hlt : (trace g i (a + k + 1)).tick + 1 < w
    · rw [step_delay_wait (hreset _) hs (by rw [hwk]; exact hlt)]
      rw [ht] at hlt
      rw [succ_mod_of_lt hlt, ← ht]
    · have hle := Nat.le_of_not_lt hlt
      cases hb : (i (a + k + 1)).buttons[1] with
      | true =>
        rw [step_delay_done (hreset _) hs (by rw [hwk]; exact hle) hb] at hs'
        cases hs'
      | false =>
        rw [step_delay_restart (hreset _) hs (by rw [hwk]; exact hle) hb]
        rw [ht] at hle
        exact (succ_mod_of_le hpos hle).symm

/-- Where one cycle of the visit leads. -/
theorem delay_cycle {k : ℕ} (h : Spends g i .delay a (k + 1)) :
    (trace g i (a + k + 1 + 1)).nextState =
      if w ∣ k + 1 ∧ (i (a + k + 1)).buttons[1] = true then .count else .delay := by
  have hs : (trace g i (a + k + 1)).nextState = .delay := h (k + 1) (by omega) le_rfl
  have ht := tick_delay hreset ha hpos hw h
  have hwk := hw (k + 1) (by omega) h
  rw [← Nat.add_assoc] at hwk
  rw [trace_succ]
  simp only [dvd_succ_iff hpos, ← ht]
  by_cases hlt : (trace g i (a + k + 1)).tick + 1 < w
  · rw [step_delay_wait (hreset _) hs (by rw [hwk]; exact hlt),
      if_neg fun hc => Nat.not_le.mpr hlt hc.1]
    exact hs
  · have hle := Nat.le_of_not_lt hlt
    cases hb : (i (a + k + 1)).buttons[1] with
    | true =>
      rw [step_delay_done (hreset _) hs (by rw [hwk]; exact hle) hb, if_pos ⟨hle, rfl⟩]
    | false =>
      rw [step_delay_restart (hreset _) hs (by rw [hwk]; exact hle) hb, if_neg (by simp)]
      exact hs

/-- The cycles in which a visit to DELAY may end. -/
theorem delay_moves_iff {k : ℕ} :
    MovesAt g i .delay .count a k ↔
      IsLeast {k | 1 ≤ k ∧ w ∣ k ∧ (i (a + k)).buttons[1] = true} k := by
  constructor
  · intro hmoves
    obtain ⟨hk, hc⟩ := hmoves
    cases k with
    | zero => exact absurd (ha.2.symm.trans hc) (by decide)
    | succ k =>
      have hmem : w ∣ k + 1 ∧ (i (a + k + 1)).buttons[1] = true := by
        by_contra hne
        rw [← Nat.add_assoc, delay_cycle hreset ha hpos hw hk, if_neg hne] at hc
        cases hc
      refine ⟨⟨by omega, hmem⟩, fun l ⟨hl1, hl⟩ => ?_⟩
      by_contra hlt
      obtain ⟨m, rfl⟩ := Nat.exists_eq_succ_of_ne_zero (Nat.one_le_iff_ne_zero.mp hl1)
      -- An earlier such cycle would already have left DELAY.
      have hm := delay_cycle hreset ha hpos hw (hk.mono (l := m + 1) (by omega))
      have hm' : (trace g i (a + (m + 2))).nextState = .delay := hk _ (by omega) (by omega)
      rw [if_pos (by simpa [← Nat.add_assoc] using hl)] at hm
      exact absurd (hm'.symm.trans hm) (by decide)
  · intro hfirst
    obtain ⟨⟨hk1, hk⟩, hleast⟩ := hfirst
    have hspend : ∀ l, l < k → Spends g i .delay a (l + 1) := by
      intro l hl
      induction l with
      | zero => exact ha.spends_one
      | succ l ih =>
        have hspl := ih (by omega)
        apply hspl.succ
        rw [← Nat.add_assoc, delay_cycle hreset ha hpos hw hspl, if_neg]
        intro hc
        have hle : k ≤ l + 1 := hleast ⟨by omega, by simpa [← Nat.add_assoc] using hc⟩
        omega
    obtain ⟨m, rfl⟩ := Nat.exists_eq_succ_of_ne_zero (Nat.one_le_iff_ne_zero.mp hk1)
    have hm := hspend m (Nat.lt_succ_self m)
    refine ⟨hm, ?_⟩
    have := delay_cycle hreset ha hpos hw hm
    rwa [if_pos (by simpa [← Nat.add_assoc] using hk)] at this

end Delay

/-! ## COUNT -/

theorem enters_count {a : ℕ} (h : Enters g i .count a) :
    (trace g i (a + 1)).tick = 0 ∧
      (trace g i (a + 1)).respTime = (trace g i a).respTime := by
  obtain ⟨hr, hs⟩ := h.pred (by decide)
  have heq := h.2
  rw [trace_succ] at heq ⊢
  by_cases ht : (trace g i a).tick + 1 < waitOf g (i a).regDelay (trace g i a).lfsr
  · rw [step_delay_wait hr hs ht] at heq
    exact absurd (hs.symm.trans heq) (by decide)
  · have ht := Nat.le_of_not_lt ht
    cases hb : (i a).buttons[1] with
    | true => rw [step_delay_done hr hs ht hb]; exact ⟨rfl, rfl⟩
    | false =>
      rw [step_delay_restart hr hs ht hb] at heq
      exact absurd (hs.symm.trans heq) (by decide)

section Count

variable {c : ℕ} (hreset : ∀ n, (i n).resetn = true) (hc : Enters g i .count c)
include hreset hc

theorem tick_count {n : ℕ} (h : Spends g i .count c (n + 1)) :
    (trace g i (c + n + 1)).tick = n ∧
      (trace g i (c + n + 1)).respTime = (trace g i c).respTime := by
  induction n with
  | zero => exact enters_count hc
  | succ n ih =>
    have hs : (trace g i (c + n + 1)).nextState = .count := h (n + 1) (by omega) (by omega)
    have hs' : (trace g i (c + n + 1 + 1)).nextState = .count := h (n + 2) (by omega) le_rfl
    obtain ⟨ht, hr⟩ := ih (h.mono (Nat.le_succ (n + 1)))
    show (trace g i (c + n + 1 + 1)).tick = n + 1 ∧ (trace g i (c + n + 1 + 1)).respTime = _
    rw [trace_succ] at hs' ⊢
    by_cases hlt : (trace g i (c + n + 1)).tick + 1 < g.maxDelay
    · cases hb : (i (c + n + 1)).buttons[1] with
      | true => rw [step_count_wait (hreset _) hs hlt hb]; exact ⟨congrArg (· + 1) ht, hr⟩
      | false => rw [step_count_press (hreset _) hs hlt hb] at hs'; cases hs'
    · rw [step_count_timeout (hreset _) hs (Nat.le_of_not_lt hlt)] at hs'; cases hs'

theorem spends_count {n : ℕ} (hn : n < g.maxDelay)
    (hb : ∀ k, 1 ≤ k → k ≤ n → (i (c + k)).buttons[1] = true) : Spends g i .count c (n + 1) := by
  induction n with
  | zero => exact hc.spends_one
  | succ n ih =>
    have hspl := ih (by omega) fun k h1 hk => hb k h1 (by omega)
    have hs : (trace g i (c + n + 1)).nextState = .count := hspl (n + 1) (by omega) le_rfl
    have ht := (tick_count hreset hc hspl).1
    have hbn : (i (c + n + 1)).buttons[1] = true := hb (n + 1) (by omega) le_rfl
    apply hspl.succ
    show (trace g i (c + n + 1 + 1)).nextState = .count
    rw [trace_succ, step_count_wait (hreset _) hs (by rw [ht]; exact hn) hbn]
    exact hs

/-- The response button ends the visit in STOP, with the cycle number in milliseconds. -/
theorem count_stop {n : ℕ} (hn : n < g.maxDelay)
    (hleast : IsLeast {n | 1 ≤ n ∧ (i (c + n)).buttons[1] = false} n) :
    MovesAt g i .count .stop c n ∧
      (trace g i (c + n + 1)).respTime = n / (g.fClk / 1000) := by
  obtain ⟨⟨hn1, hb⟩, hmin⟩ := hleast
  obtain ⟨m, rfl⟩ := Nat.exists_eq_succ_of_ne_zero (Nat.one_le_iff_ne_zero.mp hn1)
  have hup : ∀ k, 1 ≤ k → k ≤ m → (i (c + k)).buttons[1] = true := by
    intro k h1 hk
    by_contra hbk
    have hle : m + 1 ≤ k := hmin ⟨h1, by simpa using hbk⟩
    omega
  have hspl := spends_count hreset hc (by omega) hup
  have hs : (trace g i (c + m + 1)).nextState = .count := hspl (m + 1) (by omega) le_rfl
  have ht := (tick_count hreset hc hspl).1
  have hstep := step_count_press (g := g) (hreset (c + m + 1)) hs (by rw [ht]; exact hn) hb
  refine ⟨⟨hspl, ?_⟩, ?_⟩
  · show (trace g i (c + m + 1 + 1)).nextState = .stop
    rw [trace_succ, hstep]
  · show (trace g i (c + m + 1 + 1)).respTime = _
    rw [trace_succ, hstep, ht]

/-- Without a press below `maxDelay` the visit times out, and `resp_time` keeps its value. -/
theorem count_timeout (hpos : 0 < g.maxDelay)
    (hb : ∀ n, 1 ≤ n → n < g.maxDelay → (i (c + n)).buttons[1] = true) :
    MovesAt g i .count .idle c g.maxDelay ∧
      ∀ n, 1 ≤ n → n ≤ g.maxDelay + 1 →
        (trace g i (c + n)).respTime = (trace g i c).respTime := by
  obtain ⟨m, hm⟩ := Nat.exists_eq_succ_of_ne_zero hpos.ne'
  have hspl := spends_count hreset hc (n := m) (by omega) fun k h1 hk => hb k h1 (by omega)
  have hs : (trace g i (c + m + 1)).nextState = .count := hspl (m + 1) (by omega) le_rfl
  have ht := (tick_count hreset hc hspl).1
  have hstep := step_count_timeout (g := g) (hreset (c + m + 1)) hs (by rw [ht, hm])
  rw [hm]
  refine ⟨⟨hspl, ?_⟩, fun n h1 hn => ?_⟩
  · show (trace g i (c + m + 1 + 1)).nextState = .idle
    rw [trace_succ, hstep]
  · obtain ⟨k, rfl⟩ := Nat.exists_eq_succ_of_ne_zero (Nat.one_le_iff_ne_zero.mp h1)
    rcases Nat.lt_or_eq_of_le (Nat.le_of_succ_le_succ hn) with hlt | rfl
    · exact (tick_count hreset hc (hspl.mono hlt)).2
    · show (trace g i (c + m + 1 + 1)).respTime = _
      rw [trace_succ, hstep]
      exact (tick_count hreset hc hspl).2

end Count

/-! ## Whole rounds -/

theorem MovesAt.enters {p q : StateT} {a k : ℕ} (hpq : q ≠ p) (ha : Enters g i p a)
    (h : MovesAt g i p q a k) : Enters g i q (a + k) := by
  refine ⟨?_, h.2⟩
  cases k with
  | zero => exact absurd (h.2.symm.trans ha.2) hpq
  | succ k => rw [h.1 (k + 1) (by omega) le_rfl]; exact hpq.symm

theorem waitOf_pos (d : ℕ) (rnd : BitVec 8) : 0 < waitOf {} d rnd := by
  have hlt := rnd.isLt
  unfold waitOf
  split_ifs with hd
  · exact Nat.mul_pos (Nat.pos_of_ne_zero hd) (by decide)
  · simp only
    omega

theorem threshold_of_const {a d : ℕ}
    (hreg : ∀ k, 1 ≤ k → Spends g i .delay a k → (i (a + k)).regDelay = d) :
    Threshold g i a (waitOf g d (trace g i (a + 1)).lfsr) := by
  intro k h1 hk
  obtain ⟨m, rfl⟩ := Nat.exists_eq_succ_of_ne_zero (Nat.one_le_iff_ne_zero.mp h1)
  have hl : (trace g i (a + m.succ)).lfsr = (trace g i (a + 1)).lfsr :=
    lfsr_visit (by decide) hk
  rw [hreg _ h1 hk, hl]

/-- **A whole round.** In a run without reset, take any visit to DELAY during which the configured
delay is `d`, after whatever rounds. With `w` the threshold of the visit, the meter moves to COUNT
at exactly the first cycle that is a multiple of `w` and has the response button up. Counted from
there, a first press at cycle `n` before the timeout is reported as `n / 50000`; without one the
meter is back in IDLE after 150000000 cycles, and `resp_time` keeps its value. -/
theorem round_timing (i : ℕ → MeterIn) (hreset : ∀ n, (i n).resetn = true) (a d : ℕ)
    (ha : Enters {} i .delay a)
    (hreg : ∀ k, 1 ≤ k → Spends {} i .delay a k → (i (a + k)).regDelay = d) :
    let st := trace {} i
    let rnd := (st (a + 1)).lfsr.toNat
    let w := if d ≠ 0 then d * 50000 else 2 * 150000000 - 150000000 / 255 * rnd
    (∀ k, 1 ≤ k → Spends {} i .delay a k → (st (a + k)).lfsr.toNat = rnd) ∧
    (∀ k, Spends {} i .delay a k →
      (st (a + k + 1)).nextState = .delay ∨ (st (a + k + 1)).nextState = .count) ∧
    (∀ k, MovesAt {} i .delay .count a k ↔
      IsLeast {k | 1 ≤ k ∧ w ∣ k ∧ (i (a + k)).resp = true} k) ∧
    ∀ k, MovesAt {} i .delay .count a k →
      (∀ n, n < 150000000 → IsLeast {n | 1 ≤ n ∧ (i (a + k + n)).resp = false} n →
        MovesAt {} i .count .stop (a + k) n ∧ (st (a + k + n + 1)).respTime = n / 50000) ∧
      ((∀ n, 1 ≤ n → n < 150000000 → (i (a + k + n)).resp = true) →
        MovesAt {} i .count .idle (a + k) 150000000 ∧
        ∀ n, 1 ≤ n → n ≤ 150000001 → (st (a + k + n)).respTime = (st (a + k)).respTime) := by
  intro st rnd w
  have hw : waitOf {} d (st (a + 1)).lfsr = w := by
    simp only [waitOf, w, rnd, Nat.mul_comm 2]
  have hpos : 0 < w := hw ▸ waitOf_pos d _
  have hth : Threshold {} i a w := hw ▸ threshold_of_const hreg
  refine ⟨fun k h1 hk => ?_, fun k hk => ?_, fun k => delay_moves_iff hreset ha hpos hth,
    fun k hk => ?_⟩
  · obtain ⟨m, rfl⟩ := Nat.exists_eq_succ_of_ne_zero (Nat.one_le_iff_ne_zero.mp h1)
    exact congrArg BitVec.toNat (lfsr_visit (by decide) hk)
  · cases k with
    | zero => exact Or.inl ha.2
    | succ k =>
      have hcyc := delay_cycle hreset ha hpos hth hk
      split_ifs at hcyc
      · exact Or.inr hcyc
      · exact Or.inl hcyc
  · have hc := hk.enters (by decide) ha
    exact ⟨fun n hn hleast => count_stop hreset hc hn hleast,
      fun hb => count_timeout hreset hc (by decide) hb⟩

/-! ## A round played on a fixed delay -/

/-- The lines of one round played on a meter whose delay is configured to `d` in edge 0: the start
button is down in that edge, the response button from COUNT cycle `n` on. -/
def played (d n : ℕ) (t : ℕ) : MeterIn :=
  { resetn := true
    regDelay := if t = 0 then 0 else d
    buttons := if t = 0 then 0b10#2 else if t < 1 + d * 50000 + n then 0b11#2 else 0b01#2 }

theorem played_regDelay {d n t : ℕ} (ht : 1 ≤ t) : (played d n t).regDelay = d := by
  simp [played, Nat.one_le_iff_ne_zero.mp ht]

theorem played_up {d n t : ℕ} (h1 : 1 ≤ t) (ht : t < 1 + d * 50000 + n) :
    (played d n t).buttons[1] = true := by
  simp [played, Nat.one_le_iff_ne_zero.mp h1, ht]

theorem played_down {d n t : ℕ} (ht : 1 + d * 50000 + n ≤ t) :
    (played d n t).buttons[1] = false := by
  have h0 : t ≠ 0 := by omega
  simp [played, h0, Nat.not_lt.mpr ht]

theorem played_enters (d n : ℕ) (hn : 1 ≤ n) : Enters {} (played d n) .delay 1 := by
  have h0 : trace {} (played d n) 1 = { powerUp with nextState := .start, irq := true } := by
    rw [trace_succ, step_idle_press rfl rfl (by simp [played])]; rfl
  have hb : (played d n 1).buttons = 0b11#2 := by simp [played]; omega
  refine ⟨by rw [h0]; decide, ?_⟩
  rw [trace_succ, h0, step_start_release rfl rfl (by rw [hb]; rfl)]

theorem played_delay {d n : ℕ} (hd : 0 < d) (hn : 1 ≤ n) :
    MovesAt {} (played d n) .delay .count 1 (d * 50000) := by
  have ha := played_enters d n hn
  have hth := threshold_of_const (g := {}) (i := played d n) (a := 1) (d := d)
    fun k _ _ => played_regDelay (Nat.le_add_right 1 k)
  have hwd : waitOf {} d (trace {} (played d n) (1 + 1)).lfsr = d * 50000 := by
    simp [waitOf, hd.ne']
  rw [hwd] at hth
  refine (delay_moves_iff (fun _ => rfl) ha (by omega) hth).mpr
    ⟨⟨by omega, dvd_rfl, played_up (by omega) (by omega)⟩, fun l ⟨h1, hl, _⟩ => ?_⟩
  exact Nat.le_of_dvd (by omega) hl

theorem played_round {d n : ℕ} (hd : 0 < d) (hn : 1 ≤ n) (hlt : n < 150000000) :
    MovesAt {} (played d n) .delay .count 1 (d * 50000) ∧
      MovesAt {} (played d n) .count .stop (1 + d * 50000) n ∧
      (trace {} (played d n) (1 + d * 50000 + n + 1)).respTime = n / 50000 := by
  have hk := played_delay hd hn
  have hc := count_stop (fun _ => rfl) (hk.enters (by decide) (played_enters d n hn)) hlt
    ⟨⟨hn, played_down le_rfl⟩, fun m ⟨h1, hm⟩ => by
      by_contra hmn
      rw [played_up (by omega) (by omega)] at hm
      cases hm⟩
  exact ⟨hk, hc⟩

/-- A press that comes after the timeout of COUNT finds the meter back in IDLE. -/
theorem played_timeout {d n : ℕ} (hd : 0 < d) (hn : 150000000 ≤ n) :
    MovesAt {} (played d n) .count .idle (1 + d * 50000) 150000000 := by
  have hk := played_delay (n := n) hd (by omega)
  have hc := hk.enters (by decide) (played_enters d n (by omega))
  refine (count_timeout (fun _ => rfl) hc (by decide) fun m h1 hm => ?_).1
  have hlt : m < 150000000 := hm
  exact played_up (by omega) (by omega)

/-- A delay of two seconds, and a response in COUNT cycle 4000000. -/
theorem round_timing_two_seconds :
    MovesAt {} (played 2000 4000000) .delay .count 1 100000000 ∧
      MovesAt {} (played 2000 4000000) .count .stop 100000001 4000000 ∧
      (trace {} (played 2000 4000000) 104000002).respTime = 80 := by
  obtain ⟨-, -, hdelay, hcount⟩ := round_timing (played 2000 4000000) (fun _ => rfl) 1 2000
    (played_enters 2000 4000000 (by decide)) fun k _ _ => played_regDelay (Nat.le_add_right 1 k)
  have hk : MovesAt {} (played 2000 4000000) .delay .count 1 100000000 :=
    (hdelay 100000000).mpr ⟨⟨by decide, dvd_rfl, played_up (by decide) (by decide)⟩,
      fun l ⟨h1, hl, _⟩ => Nat.le_of_dvd h1 hl⟩
  refine ⟨hk, (hcount _ hk).1 4000000 (by decide) ⟨⟨by decide, played_down (by decide)⟩, ?_⟩⟩
  intro m hpress
  obtain ⟨h1, hm⟩ := hpress
  by_contra hlt
  have hup : (played 2000 4000000 (1 + 100000000 + m)).resp = true :=
    played_up (by omega) (by omega)
  rw [hup] at hm
  cases hm

end Meter

end ReactionMeter
