import Mathlib.Data.Nat.Count
import ReactionMeter.MeterTiming

/-!
# Interrupts and transitions

The meter is to interrupt whenever it makes a transition. Each branch of the `CASE` assigns `irq`
and `next_state` separately: low first, and high again next to every assignment of `next_state`
but one. The timeout of COUNT returns to IDLE and leaves the output low.

* `drives_iff_moves` says so of one edge.
* `interrupts_iff` counts: along a run there are as many interrupts as transitions, plus the
  timeouts (`count_moves`).
-/

namespace ReactionMeter

namespace Meter

variable {g : Generics} {i : ℕ → MeterIn}

/-- COUNT is in its last cycle. -/
def TimesOut (g : Generics) (s : Meter) : Prop := s.nextState = .count ∧ g.maxDelay ≤ s.tick + 1

instance (g : Generics) (s : Meter) : Decidable (TimesOut g s) := by
  unfold TimesOut; infer_instance

theorem drives_iff_moves (s : Meter) {a : MeterIn} (h : a.resetn = true) :
    ((step g s a).irq = true ↔ (step g s a).nextState ≠ s.nextState) ↔ ¬ TimesOut g s := by
  by_cases ht : TimesOut g s
  · obtain ⟨hs, hle⟩ := ht
    rw [step_count_timeout h hs hle]
    simp [TimesOut, hs, hle]
  · have hmoves : (step g s a).nextState ≠ s.nextState → (step g s a).irq = true := by
      intro hmove
      cases edge_step g s h with
      | stay hn => exact absurd hn hmove
      | start _ _ hi | delay _ _ hi | count _ _ hi | stop _ _ hi | idle _ _ hi => exact hi
      | timeout hs hn =>
        -- Below the bound COUNT waits or is left for STOP.
        have hlt : s.tick + 1 < g.maxDelay := Nat.lt_of_not_le fun hle => ht ⟨hs, hle⟩
        by_cases hb : a.buttons[1] = true
        · rw [step_count_wait h hs hlt hb] at hn
          exact absurd (hs.symm.trans hn) (by decide)
        · rw [step_count_press h hs hlt (by simpa using hb)] at hn
          cases hn
    exact iff_of_true ⟨moved_of_irq (edge_step g s h), hmoves⟩ ht

/-! ## Whole runs -/

/-- Edge `n` drives the interrupt output high. -/
def Drives (g : Generics) (i : ℕ → MeterIn) (n : ℕ) : Prop :=
  (i n).resetn = true ∧ (trace g i (n + 1)).irq = true

/-- Edge `n` is a transition. -/
def Moves (g : Generics) (i : ℕ → MeterIn) (n : ℕ) : Prop :=
  (trace g i (n + 1)).nextState ≠ (trace g i n).nextState

/-- Edge `n` is the timeout of a COUNT. -/
def Expires (g : Generics) (i : ℕ → MeterIn) (n : ℕ) : Prop :=
  (i n).resetn = true ∧ TimesOut g (trace g i n)

instance : DecidablePred (Drives g i) := fun n => by unfold Drives; infer_instance

instance : DecidablePred (Moves g i) := fun n => by unfold Moves; infer_instance

instance : DecidablePred (Expires g i) := fun n => by unfold Expires; infer_instance

theorem moves_cases (n : ℕ) :
    (Moves g i n ↔ Drives g i n ∨ Expires g i n) ∧ ¬ (Drives g i n ∧ Expires g i n) := by
  unfold Moves Drives Expires
  rw [trace_succ]
  by_cases hr : (i n).resetn = true
  · have hiff := drives_iff_moves (g := g) (trace g i n) hr
    by_cases ht : TimesOut g (trace g i n)
    · have hstep := step_count_timeout hr ht.1 ht.2
      simp [hr, ht, hstep, ht.1]
    · simp only [hr, ht, true_and, and_false, or_false, not_false_eq_true, and_true]
      exact (hiff.mpr ht).symm
  · have hframe := (step_reset_frozen g (trace g i n) (by simpa using hr)).1
    simp [hr, hframe]

theorem count_moves (n : ℕ) :
    Nat.count (Moves g i) n = Nat.count (Drives g i) n + Nat.count (Expires g i) n := by
  induction n with
  | zero => simp
  | succ n ih =>
    obtain ⟨hiff, hnot⟩ := moves_cases (g := g) (i := i) n
    rw [Nat.count_succ, Nat.count_succ, Nat.count_succ, ih]
    by_cases hd : Drives g i n
    · have he : ¬ Expires g i n := fun he => hnot ⟨hd, he⟩
      simp only [hiff, hd, he, or_false, if_true, if_false]
      omega
    · simp only [hiff, hd, false_or, if_false]
      omega

/-- **Interrupts and transitions.** In a run with any buttons, delays and resets, an edge without
reset drives the interrupt output exactly if it makes a transition, unless it is the timeout of
COUNT; and up to any time there are as many interrupts as transitions if and only if no COUNT has
timed out. -/
theorem interrupts_iff (i : ℕ → MeterIn) (n : ℕ) :
    ((i n).resetn = true →
      (((trace {} i (n + 1)).irq = true ↔
        (trace {} i (n + 1)).nextState ≠ (trace {} i n).nextState) ↔
          ¬ TimesOut {} (trace {} i n))) ∧
    (Nat.count (Drives {} i) n = Nat.count (Moves {} i) n ↔
      ∀ k < n, (i k).resetn = true → ¬ TimesOut {} (trace {} i k)) := by
  refine ⟨fun hr => drives_iff_moves _ hr, ?_⟩
  have hcount := count_moves (g := {}) (i := i) n
  have hnone : Nat.count (Expires {} i) n = 0 ↔
      ∀ k < n, (i k).resetn = true → ¬ TimesOut {} (trace {} i k) := by
    rw [Nat.count_iff_forall_not]
    simp only [Expires, not_and]
  rw [← hnone]
  omega

/-- The state in edge 1 of a round: the meter has seen the start button. -/
theorem interrupts_iff_press :
    ((trace {} (played 2000 1) 1).irq = true ↔
        (trace {} (played 2000 1) 1).nextState ≠ (trace {} (played 2000 1) 0).nextState) ∧
      Nat.count (Drives {} (played 2000 1)) 1 = Nat.count (Moves {} (played 2000 1)) 1 := by
  refine ⟨((interrupts_iff (played 2000 1) 0).1 rfl).mpr (by decide),
    (interrupts_iff (played 2000 1) 1).2.mpr ?_⟩
  intro k hk _
  obtain rfl : k = 0 := by omega
  decide

/-- A COUNT without a response ends without an interrupt. -/
theorem timeout_unnoticed :
    ¬ ∀ i : ℕ → MeterIn, (∀ n, (i n).regDelay ≤ 5000) → ∀ n, (i n).resetn = true →
      ((trace {} i (n + 1)).irq = true ↔
        (trace {} i (n + 1)).nextState ≠ (trace {} i n).nextState) := by
  intro hall
  obtain ⟨hspend, hidle⟩ := played_timeout (d := 2000) (n := 150000000) (by decide) le_rfl
  have hc : (trace {} (played 2000 150000000) 250000001).nextState = .count :=
    hspend 150000000 (by decide) le_rfl
  have hn : (trace {} (played 2000 150000000) 250000002).nextState = .idle := hidle
  have hirq := hall (played 2000 150000000)
    (fun t => by simp only [played]; split_ifs <;> decide) 250000001 rfl
  rw [hc, hn] at hirq
  have hedge : Edge {} (trace {} (played 2000 150000000) 250000001)
      (trace {} (played 2000 150000000) 250000002) :=
    edge_step {} _ (i := played 2000 150000000 250000001) rfl
  cases hedge with
  | stay hn' => rw [hc, hn] at hn'; cases hn'
  | timeout _ _ hi => exact absurd (hirq.mpr (by decide)) (by rw [hi]; decide)
  | start hs | delay hs | count hs | idle hs => rw [hc] at hs; cases hs
  | stop _ hn' => rw [hn] at hn'; cases hn'

end Meter

end ReactionMeter
