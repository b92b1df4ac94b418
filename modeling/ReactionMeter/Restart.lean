import ReactionMeter.RespReg

/-!
# Reset

Reset clears the registers of `resp_reg`, but of the meter only `resp_time`: `next_state`, the
published state, `tick` and the meter's interrupt output stand through it. So whether a reset makes
a fresh start of the register file depends on the state it is applied in.

Two states are compared after a reset, on the same inputs. `Alike` relates meters that differ in
their generators, thresholds and stale ticks at most, and `Alike.step` says that no edge tells such
meters apart. `Twin` adds the registers around them and what the inputs have written so far.

* `erased_iff` says between which states a reset erases the difference.
* `reset_in_start`: in a round it does not.
-/

namespace ReactionMeter

namespace Meter

/-! ## Meters that look alike -/

/-- Meters that differ in the generator and in what is assigned before it is read, at most. -/
structure Alike (s t : Meter) : Prop where
  nextState : s.nextState = t.nextState
  rngEn : s.rngEn = t.rngEn
  irq : s.irq = t.irq
  state : s.state = t.state
  respTime : s.respTime = t.respTime
  tick : s.nextState = .delay ∨ s.nextState = .count → s.tick = t.tick

variable {s t : Meter} {i j : MeterIn}

theorem Alike.step (h : Alike s t) (hreset : i.resetn = j.resetn) (hb : i.buttons = j.buttons)
    (hw : s.nextState = .delay → waitOf {} i.regDelay s.lfsr = waitOf {} j.regDelay t.lfsr) :
    Alike (step {} s i) (step {} t j) := by
  obtain ⟨hnext, hrng, hirq, hstate, hresp, htick⟩ := h
  cases hri : i.resetn with
  | false =>
    rw [step_reset hri, step_reset (hreset.symm.trans hri)]
    exact ⟨hnext, hrng, hirq, hstate, rfl, htick⟩
  | true =>
    have hrj := hreset.symm.trans hri
    cases hs : s.nextState with
    | idle =>
      have ht := hnext.symm.trans hs
      cases hbi : i.buttons[0] with
      | true =>
        rw [step_idle_stay hri hs hbi, step_idle_stay hrj ht (hb ▸ hbi)]
        exact ⟨hnext, hrng, rfl, rfl, hresp, htick⟩
      | false =>
        rw [step_idle_press hri hs hbi, step_idle_press hrj ht (hb ▸ hbi)]
        exact ⟨rfl, hrng, rfl, rfl, hresp, by simp⟩
    | start =>
      have ht := hnext.symm.trans hs
      cases hbi : i.buttons[0] with
      | true =>
        rw [step_start_release hri hs hbi, step_start_release hrj ht (hb ▸ hbi)]
        exact ⟨rfl, rfl, rfl, rfl, hresp, fun _ => rfl⟩
      | false =>
        rw [step_start_hold hri hs hbi, step_start_hold hrj ht (hb ▸ hbi)]
        exact ⟨hnext, rfl, rfl, rfl, hresp, htick⟩
    | delay =>
      have ht := hnext.symm.trans hs
      have htick := htick (Or.inl hs)
      have hw := hw hs
      by_cases hlt : s.tick + 1 < waitOf {} i.regDelay s.lfsr
      · rw [step_delay_wait hri hs hlt, step_delay_wait hrj ht (by rwa [← htick, ← hw])]
        exact ⟨hnext, hrng, rfl, rfl, hresp, fun _ => congrArg (· + 1) htick⟩
      · have hge := Nat.le_of_not_lt hlt
        have hge' : waitOf {} j.regDelay t.lfsr ≤ t.tick + 1 := by rwa [← htick, ← hw]
        cases hbi : i.buttons[1] with
        | true =>
          rw [step_delay_done hri hs hge hbi, step_delay_done hrj ht hge' (hb ▸ hbi)]
          exact ⟨rfl, hrng, rfl, rfl, hresp, fun _ => rfl⟩
        | false =>
          rw [step_delay_restart hri hs hge hbi, step_delay_restart hrj ht hge' (hb ▸ hbi)]
          exact ⟨hnext, hrng, rfl, rfl, hresp, fun _ => rfl⟩
    | count =>
      have ht := hnext.symm.trans hs
      have htick := htick (Or.inr hs)
      by_cases hlt : s.tick + 1 < ({} : Generics).maxDelay
      · have hlt' : t.tick + 1 < ({} : Generics).maxDelay := by rwa [← htick]
        cases hbi : i.buttons[1] with
        | true =>
          rw [step_count_wait hri hs hlt hbi, step_count_wait hrj ht hlt' (hb ▸ hbi)]
          exact ⟨hnext, hrng, rfl, rfl, hresp, fun _ => congrArg (· + 1) htick⟩
        | false =>
          rw [step_count_press hri hs hlt hbi, step_count_press hrj ht hlt' (hb ▸ hbi), htick]
          exact ⟨rfl, hrng, rfl, rfl, rfl, fun _ => rfl⟩
      · have hge := Nat.le_of_not_lt hlt
        rw [step_count_timeout hri hs hge, step_count_timeout hrj ht (by rwa [← htick])]
        exact ⟨rfl, hrng, rfl, rfl, hresp, by simp⟩
    | stop =>
      have ht := hnext.symm.trans hs
      cases hbi : i.buttons[1] with
      | true =>
        rw [step_stop_release hri hs hbi, step_stop_release hrj ht (hb ▸ hbi)]
        exact ⟨rfl, hrng, rfl, rfl, hresp, by simp⟩
      | false =>
        rw [step_stop_hold hri hs hbi, step_stop_hold hrj ht (hb ▸ hbi)]
        exact ⟨hnext, hrng, rfl, rfl, hresp, htick⟩

end Meter

namespace RespReg

/-! ## Two register files on the same inputs -/

/-- A delay other than zero has been written after the reset at edge 0 and before edge `n`. -/
def Configured (i : ℕ → RespRegIn) (n : ℕ) : Prop :=
  ∃ m, 1 ≤ m ∧ m < n ∧ WritesDelay i m ∧ (i m).writedata ≠ 0#16

/-- Inputs of a restart: a reset at edge 0, and no button is down after it before a delay other than
zero has been written. -/
structure Restart (i : ℕ → RespRegIn) : Prop where
  reset : (i 0).resetn = false
  buttons : ∀ n, 1 ≤ n → (i n).buttons ≠ 0b11#2 → Configured i n

/-- Register files that no later cycle tells apart, `same` saying whether their generators agree. -/
structure Twin (same configured : Prop) (s t : RespReg) : Prop where
  meter : Meter.Alike s.meter t.meter
  lfsr : same → s.meter.lfsr = t.meter.lfsr
  irq : s.irq = t.irq
  readdata : s.readdata = t.readdata
  delay : configured → s.delay = t.delay ∧ (same ∨ s.delay ≠ 0)
  idle : ¬ configured → s.meter.nextState = .idle

variable {same : Prop} {i : ℕ → RespRegIn}

theorem Configured.succ_iff {n : ℕ} (hn : 1 ≤ n) :
    Configured i (n + 1) ↔
      Configured i n ∨ WritesDelay i n ∧ (i n).writedata ≠ 0#16 := by
  constructor
  · intro hsucc
    obtain ⟨m, h1, hm, hw⟩ := hsucc
    rcases Nat.lt_or_eq_of_le (Nat.le_of_lt_succ hm) with hlt | rfl
    · exact Or.inl ⟨m, h1, hlt, hw⟩
    · exact Or.inr hw
  · rintro (⟨m, h1, hm, hw⟩ | hw)
    · exact ⟨m, h1, Nat.lt_succ_of_lt hm, hw⟩
    · exact ⟨n, hn, Nat.lt_succ_self n, hw⟩

theorem Twin.wait {configured : Prop} {s t : RespReg} (h : Twin same configured s t)
    (hs : s.meter.nextState = .delay) :
    Meter.waitOf {} s.delay s.meter.lfsr = Meter.waitOf {} t.delay t.meter.lfsr := by
  have hc : configured := by
    by_contra hc
    rw [h.idle hc] at hs
    cases hs
  obtain ⟨hd, hsame | hne⟩ := h.delay hc
  · rw [hd, h.lfsr hsame]
  · unfold Meter.waitOf
    rw [if_pos hne, if_pos (hd ▸ hne), hd]

/-- The registers of `resp_reg` read nothing of the meter that twins differ in. -/
theorem Twin.registers {configured : Prop} {s t : RespReg} (h : Twin same configured s t)
    (a : RespRegIn) :
    (step s a).irq = (step t a).irq ∧ (step s a).readdata = (step t a).readdata := by
  cases hr : a.resetn with
  | false => simp [step, process, hr]
  | true =>
    simp [step, process, hr, h.irq, h.readdata, h.meter.irq, h.meter.respTime, h.meter.state]

theorem idle_step {s : RespReg} {a : RespRegIn} (hs : s.meter.nextState = .idle)
    (hb : a.buttons = 0b11#2) : (step s a).meter.nextState = .idle := by
  rw [step_meter]
  cases hr : a.resetn with
  | false => rw [Meter.step_reset hr]; exact hs
  | true => rw [Meter.step_idle_stay hr hs (by simp [meterIn, hb])]; exact hs

theorem Twin.step {s t : RespReg} {n : ℕ} (hn : 1 ≤ n) (h : Twin same (Configured i n) s t)
    (hb : (i n).buttons ≠ 0b11#2 → Configured i n)
    (hzero : WritesDelay i n → same ∨ (i n).writedata ≠ 0#16) :
    Twin same (Configured i (n + 1)) (step s (i n)) (step t (i n)) := by
  obtain ⟨hirq, hread⟩ := h.registers (i n)
  refine ⟨h.meter.step rfl rfl h.wait, fun hsame => ?_, hirq, hread, fun hc => ?_, fun hc => ?_⟩
  · show Prng.step _ false _ = Prng.step _ false _
    rw [h.lfsr hsame, h.meter.rngEn]
  · rw [delay_step, delay_step]
    split_ifs with hw
    · refine ⟨rfl, (hzero hw).imp_right fun hne h0 => hne ?_⟩
      exact BitVec.eq_of_toNat_eq h0
    · exact h.delay (((Configured.succ_iff hn).mp hc).resolve_right fun hw' => hw hw'.1)
  · have hc' : ¬ Configured i n := fun h' => hc ((Configured.succ_iff hn).mpr (Or.inl h'))
    exact idle_step (h.idle hc') (not_not.mp fun hne => hc' (hb hne))

/-! ## What reset erases -/

/-- The states of the register file. -/
def Reachable (s : RespReg) : Prop := ∃ i n, trace i n = s

theorem Reachable.rngEn {s : RespReg} (h : Reachable s) (hs : s.meter.nextState = .idle) :
    s.meter.rngEn = false := by
  obtain ⟨i, n, rfl⟩ := h
  rw [meter_trace] at hs ⊢
  exact Meter.rngEn_eq_false (by rw [hs]; decide)

/-- Reset erases the difference of two states: after any restart on the same inputs they show the
same `irq`, `readdata` and state of the meter in every cycle. Where the generators disagree the
inputs must not put the delay back to zero, which would show a random wait. -/
def Erased (s t : RespReg) : Prop :=
  ∀ i, Restart i →
    (s.meter.lfsr = t.meter.lfsr ∨ ∀ n, WritesDelay i n → (i n).writedata ≠ 0#16) →
    ∀ n, 1 ≤ n →
      (Clocked.run step s i n).irq = (Clocked.run step t i n).irq ∧
      (Clocked.run step s i n).readdata = (Clocked.run step t i n).readdata ∧
      (Clocked.run step s i n).meter.state = (Clocked.run step t i n).meter.state ∧
      (Clocked.run step s i n).meter.nextState = (Clocked.run step t i n).meter.nextState

/-- After a cycle of reset the meter is in IDLE, and both interrupt outputs are low. -/
def Rests (s : RespReg) : Prop :=
  ∀ a : RespRegIn, a.resetn = false →
    (step s a).meter.nextState = .idle ∧ (step s a).meter.irq = false ∧ (step s a).irq = false

theorem rests_iff (s : RespReg) :
    Rests s ↔ s.meter.nextState = .idle ∧ s.meter.irq = false := by
  constructor
  · intro h
    obtain ⟨hn, hi, -⟩ := h { resetn := false } rfl
    exact ⟨hn, hi⟩
  · intro h a ha
    rw [step_meter, Meter.step_reset ha]
    exact ⟨h.1, h.2, irq_reset ha⟩

/-- States in IDLE that publish the same are twins after a reset. -/
theorem twin_reset {s t : RespReg} {a : RespRegIn} (hs : Reachable s) (ht : Reachable t)
    (hrs : Rests s) (hrt : Rests t) (hstate : s.meter.state = t.meter.state)
    (ha : a.resetn = false) :
    Twin (s.meter.lfsr = t.meter.lfsr) False (step s a) (step t a) := by
  obtain ⟨hsn, hsi⟩ := (rests_iff s).mp hrs
  obtain ⟨htn, hti⟩ := (rests_iff t).mp hrt
  have hrng := (hs.rngEn hsn).trans (ht.rngEn htn).symm
  refine ⟨?_, fun hl => ?_, (irq_reset ha).trans (irq_reset ha).symm, ?_, False.elim, fun _ => ?_⟩
  · rw [step_meter, step_meter, Meter.step_reset ha, Meter.step_reset ha]
    exact ⟨hsn.trans htn.symm, hrng, hsi.trans hti.symm, hstate, rfl, by simp [hsn]⟩
  · show Prng.step _ false _ = Prng.step _ false _
    rw [hl, hrng]
  · simp [step, process, ha]
  · exact (hrs a ha).1

/-- **What reset erases.** Of two reachable states, reset erases the difference and leaves both
meters in IDLE with their interrupts low if and only if it is applied to both in IDLE, with no pulse
of the meter standing and the same state published. -/
theorem erased_iff {s t : RespReg} (hs : Reachable s) (ht : Reachable t) :
    Erased s t ∧ Rests s ∧ Rests t ↔
      (s.meter.nextState = .idle ∧ s.meter.irq = false) ∧
      (t.meter.nextState = .idle ∧ t.meter.irq = false) ∧ s.meter.state = t.meter.state := by
  rw [← rests_iff, ← rests_iff]
  constructor
  · intro hreset
    obtain ⟨herased, hrs, hrt⟩ := hreset
    refine ⟨hrs, hrt, ?_⟩
    have hquiet : Restart fun n => { resetn := decide (n ≠ 0) } :=
      ⟨rfl, fun n _ hne => absurd rfl hne⟩
    have hshown := herased _ hquiet (Or.inr fun n hw => absurd hw.2.1 (by simp)) 1 le_rfl
    exact hshown.2.2.1
  · intro hrest
    obtain ⟨hrs, hrt, hstate⟩ := hrest
    refine ⟨fun i hi hzero n hn => ?_, hrs, hrt⟩
    have htwin : Twin (s.meter.lfsr = t.meter.lfsr) (Configured i n) (Clocked.run step s i n)
        (Clocked.run step t i n) := by
      refine Clocked.run_related (R := fun n => Twin _ (Configured i n)) ?_ ?_ hn
      · have hnone : Configured i 1 ↔ False :=
          iff_of_false (fun ⟨m, h1, hm, _⟩ => absurd h1 (Nat.not_le.mpr hm)) id
        simp only [hnone]
        exact twin_reset hs ht hrs hrt hstate hi.reset
      · exact fun k a b hk h => h.step hk (hi.buttons k hk) fun hw => hzero.imp_right (· k hw)
    exact ⟨htwin.irq, htwin.readdata, htwin.meter.state, htwin.meter.nextState⟩

/-- A bus write of the delay before the reset leaves no trace. -/
theorem erased_delay :
    Erased (trace (fun _ => { write := true, writedata := 2000#16 }) 1) {} :=
  ((erased_iff ⟨_, 1, rfl⟩ ⟨fun _ => {}, 0, rfl⟩).mpr (by decide)).1

/-- A reset with the start button just pressed leaves the meter in START, and its pulse makes
`irq` rise after the reset. -/
theorem reset_in_start :
    ¬ ∀ s t : RespReg, Reachable s → Reachable t → Erased s t := by
  intro hall
  have herased := hall (trace (fun _ => { buttons := 0b10#2 }) 1) {} ⟨_, 1, rfl⟩
    ⟨fun _ => {}, 0, rfl⟩
  have hirq := (herased (fun n => { resetn := decide (n ≠ 0) })
    ⟨rfl, fun n _ hne => absurd rfl hne⟩ (Or.inl (by decide)) 2 (by decide)).1
  exact absurd hirq (by decide)

end RespReg

end ReactionMeter
