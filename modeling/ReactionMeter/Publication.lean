import ReactionMeter.RespReg

/-!
# In which order the registers are published

One transition reaches the bus in three steps: the meter changes `next_state` and raises its
interrupt output in one edge, the next edge without reset publishes the code in `state` and sets
`irq`, and a read latches the code after that. A reset may fall between any two of them, and it
freezes the meter with its interrupt output still high.

Two observers of a run name the transitions concerned. `pulseEdge` is the edge of the latest
transition that drove the interrupt output, and `raisedBy` the edge of the one that raised `irq`.

* `irq_published`: while `irq` is high the published code is that of a state the meter was in
  since the transition that raised it.
* `respTime_kept`: `resp_time` keeps the value of an accepted press up to the next reset or press.
* `respTime_in_range_iff` and `publication_order` put them together for the bus.
-/

namespace ReactionMeter

namespace RespReg

variable {i : ℕ → RespRegIn}

/-- The lines driven into the meter in each edge of a run. -/
def lines (i : ℕ → RespRegIn) (n : ℕ) : MeterIn := meterIn (trace i n) (i n)

/-- The edge of the latest transition that drove the interrupt output. -/
def pulseEdge (i : ℕ → RespRegIn) : ℕ → ℕ
  | 0 => 0
  | n + 1 =>
    if (i n).resetn = true ∧ (trace i (n + 1)).meter.irq = true then n else pulseEdge i n

/-- The edge of the transition that raised `irq`. -/
def raisedBy (i : ℕ → RespRegIn) : ℕ → ℕ
  | 0 => 0
  | n + 1 =>
    if (trace i n).irq = false ∧ (trace i (n + 1)).irq = true then pulseEdge i n
    else raisedBy i n

/-- While the interrupt output is high, possibly frozen by a reset, `pulseEdge` is a pulse. -/
theorem pulse_standing (n : ℕ) (h : (trace i n).meter.irq = true) :
    pulseEdge i n < n ∧ Pulses i (pulseEdge i n) := by
  induction n with
  | zero => cases h
  | succ n ih =>
    rw [pulseEdge]
    cases hr : (i n).resetn with
    | true =>
      rw [if_pos ⟨rfl, h⟩]
      exact ⟨Nat.lt_succ_self n, hr, h⟩
    | false =>
      rw [trace_succ, step_meter, (Meter.step_reset_frozen {} _ hr).2.1] at h
      obtain ⟨hlt, hp⟩ := ih h
      rw [if_neg (fun hc => by cases hc.1)]
      exact ⟨Nat.lt_succ_of_lt hlt, hp⟩

/-- While `irq` is high, the published code is that of a state the meter was in since the
transition that raised it. -/
theorem irq_published (n : ℕ) (h : (trace i n).irq = true) :
    raisedBy i n < n ∧ Pulses i (raisedBy i n) ∧
      ∃ e, raisedBy i n < e ∧ e ≤ n ∧
        (trace i n).meter.state = (trace i e).meter.nextState.pos := by
  induction n with
  | zero => cases h
  | succ n ih =>
    have hr : (i n).resetn = true := by
      by_contra hr
      rw [trace_succ, irq_reset (by simpa using hr)] at h
      cases h
    have hread : (i n).read = false := by
      by_contra hread
      rw [trace_succ, irq_read (by simpa using hread)] at h
      cases h
    have hpub : (trace i (n + 1)).meter.state = (trace i n).meter.nextState.pos := by
      rw [trace_succ, meter_state hr]
    rw [raisedBy]
    cases hirq : (trace i n).irq with
    | true =>
      obtain ⟨hlt, hp, -⟩ := ih hirq
      rw [if_neg (fun hc => by cases hc.1)]
      exact ⟨Nat.lt_succ_of_lt hlt, hp, n, hlt, Nat.le_succ n, hpub⟩
    | false =>
      have hm : (trace i n).meter.irq = true := by
        rw [trace_succ, irq_quiet hr hread, hirq, Bool.or_false] at h
        exact h
      obtain ⟨hlt, hp⟩ := pulse_standing n hm
      rw [if_pos ⟨rfl, h⟩]
      exact ⟨Nat.lt_succ_of_lt hlt, hp, n, hlt, Nat.le_succ n, hpub⟩

theorem respTime_kept {p w : ℕ} (hpw : p ≤ w) (hreset : ∀ e, p ≤ e → e < w → (i e).resetn = true)
    (hno : ∀ e, p ≤ e → e < w → ¬ Meter.Accepts {} (lines i) e) :
    (trace i w).meter.respTime = (trace i p).meter.respTime := by
  induction w, hpw using Nat.le_induction with
  | base => rfl
  | succ w hw ih =>
    rw [← ih (fun e h1 h2 => hreset e h1 (by omega)) fun e h1 h2 => hno e h1 (by omega)]
    rw [meter_trace, meter_trace i w]
    rcases Meter.respTime_succ (g := {}) (i := lines i) w with hk | ⟨hr, -⟩ | hacc
    · exact hk
    · exact absurd ((hreset w hw (Nat.lt_succ_self w)).symm.trans hr) (by decide)
    · exact absurd hacc (hno w hw (Nat.lt_succ_self w))

/-- The COUNT cycle of the press that edge `p` accepts. -/
def pressCycle (i : ℕ → RespRegIn) (p : ℕ) : ℕ := Meter.countCycle {} (lines i) p + 1

/-- Edge `u` latches the code of STOP for the round whose press edge `p` accepted. -/
def ReadsStop (i : ℕ → RespRegIn) (p u : ℕ) : Prop :=
  p < u ∧ ReadsState i u ∧ (trace i (u + 1)).readdata = BitVec.ofNat 16 StateT.stop.pos ∧
    ∀ e, p < e → e < u → ¬ Meter.Accepts {} (lines i) e

theorem respTime_press {p : ℕ} (h : Meter.Accepts {} (lines i) p) :
    (trace i (p + 1)).meter.respTime = pressCycle i p / 50000 := by
  rw [meter_trace]
  exact h.step.2

/-- **The declared range of `resp_time`.** In a run of the meter with any buttons, delays and
resets, the values assigned to `resp_time` stay in `0 TO 2000` if and only if every accepted press
comes before COUNT cycle 100050000. With any traffic on the bus, the same condition decides whether
they do and every read of address 1 returns the time of the latest press, within the range. -/
theorem respTime_in_range_iff (m : ℕ → MeterIn) (i : ℕ → RespRegIn) :
    ((∀ n, (Meter.trace {} m n).respTime ≤ 2000) ↔
      ∀ n, Meter.Accepts {} m n → Meter.countCycle {} m n + 1 < 100050000) ∧
    ((∀ n, (trace i n).meter.respTime ≤ 2000 ∧ (ReadsRespTime i n →
        (trace i (n + 1)).readdata.toNat ≤ 2000 ∧
        (trace i (n + 1)).readdata.toNat =
          (Meter.lastPress {} (lines i) n).elim 0 fun c => c / 50000)) ↔
      ∀ n, Meter.Accepts {} (lines i) n → pressCycle i n < 100050000) := by
  refine ⟨Meter.respTime_le_iff m, ?_⟩
  have hiff : (∀ n, (trace i n).meter.respTime ≤ 2000) ↔
      ∀ n, Meter.Accepts {} (lines i) n → pressCycle i n < 100050000 := by
    simp only [meter_trace]
    exact Meter.respTime_le_iff (lines i)
  rw [← hiff]
  constructor
  · intro h n
    exact (h n).1
  · intro h n
    refine ⟨h n, fun ⟨hr, hread, haddr⟩ => ?_⟩
    have hval : (trace i (n + 1)).readdata.toNat = (trace i n).meter.respTime := by
      have hle := h n
      rw [trace_succ, readdata_respTime hr hread haddr, BitVec.toNat_ofNat,
        Nat.mod_eq_of_lt (by omega)]
    refine ⟨hval.le.trans (h n), ?_⟩
    rw [hval, meter_trace]
    exact Meter.respTime_lastPress n

/-- **The order of publication**, for any buttons, resets and bus traffic. A read of address 0
latched while `irq` is high returns the code of a state the meter was in since the transition that
raised it. Once a read has latched STOP for a round, a read of address 1 returns the time of that
round's press, up to the next press and as long as no reset has followed the press. -/
theorem publication_order (i : ℕ → RespRegIn) :
    (∀ u, ReadsState i u → (trace i u).irq = true →
      Pulses i (raisedBy i u) ∧ LatchesSince i (raisedBy i u) u) ∧
    ∀ p u w, Meter.Accepts {} (lines i) p → pressCycle i p / 50000 ≤ 2000 → ReadsStop i p u →
      u < w → ReadsRespTime i w → (∀ e, p < e → e < w → (i e).resetn = true) →
      (∀ e, u ≤ e → e < w → ¬ Meter.Accepts {} (lines i) e) →
      (trace i (w + 1)).readdata.toNat = pressCycle i p / 50000 := by
  constructor
  · intro u hread hirq
    obtain ⟨hlt, hp, e, hle, hev, hcode⟩ := irq_published u hirq
    refine ⟨hp, hread, e, hle, hev, ?_⟩
    rw [trace_succ, readdata_state hread.1 hread.2.1 hread.2.2, hcode]
  · intro p u w hacc hle hstop huw htime hreset hafter
    obtain ⟨hpu, -, -, hbefore⟩ := hstop
    obtain ⟨hr, hread, haddr⟩ := htime
    have hkept : (trace i w).meter.respTime = pressCycle i p / 50000 := by
      rw [← respTime_press hacc]
      refine respTime_kept (by omega) (fun e h1 h2 => hreset e h1 h2) fun e h1 h2 => ?_
      rcases Nat.lt_or_ge e u with hlt | hge
      · exact hbefore e h1 hlt
      · exact hafter e hge h2
    rw [trace_succ, readdata_respTime hr hread haddr, hkept, BitVec.toNat_ofNat,
      Nat.mod_eq_of_lt (by omega)]

/-! ## A round read over the bus -/

/-- The edge in which `playedBus d n` presses the response button. -/
def pressEdge (d : BitVec 16) (n : ℕ) : ℕ := 1 + d.toNat * 50000 + n

/-- The round `played d n`, with the delay written in edge 0 and both registers read after the
press: address 0 in the third and fourth edge after it, address 1 in the fifth and sixth. The
edge right after the press is a reset if `r` is low. -/
def playedBus (d : BitVec 16) (n : ℕ) (r : Bool) (t : ℕ) : RespRegIn :=
  { resetn := if t = pressEdge d n + 1 then r else true
    address := decide (pressEdge d n + 5 ≤ t)
    writedata := d
    read := decide (pressEdge d n + 3 ≤ t)
    write := decide (t = 0)
    buttons := (Meter.played d.toNat n t).buttons }

section PlayedBus

variable {d : BitVec 16} {n : ℕ} {r : Bool}

theorem playedBus_resetn {t : ℕ} (ht : t ≠ pressEdge d n + 1) :
    (playedBus d n r t).resetn = true := if_neg ht

theorem playedBus_down {t : ℕ} (ht : pressEdge d n ≤ t) (s : RespReg) :
    (meterIn s (playedBus d n r t)).buttons[1] = false := Meter.played_down ht

theorem playedBus_delay (t : ℕ) :
    (trace (playedBus d n r) t).delay = if t = 0 then 0 else d.toNat := by
  induction t with
  | zero => rfl
  | succ t ih =>
    rw [trace_succ, if_neg (Nat.succ_ne_zero t)]
    cases t with
    | zero =>
      have hr : (playedBus d n r 0).resetn = true := playedBus_resetn (by omega)
      have ha : (playedBus d n r 0).address = false := by simp [playedBus]
      exact delay_write hr rfl ha
    | succ t => rw [delay_quiet rfl, ih, if_neg (Nat.succ_ne_zero t)]

theorem playedBus_meter {t : ℕ} (ht : t ≤ pressEdge d n + 1) :
    Meter.trace {} (lines (playedBus d n r)) t = Meter.trace {} (Meter.played d.toNat n) t := by
  refine Clocked.run_congr fun k hk => ?_
  have hr : (playedBus d n r k).resetn = true := playedBus_resetn (by omega)
  simp only [lines, meterIn, playedBus_delay, hr]
  rfl

theorem playedBus_accepts (hd : 0 < d.toNat) (hn : 1 ≤ n) (hlt : n < 150000000) :
    Meter.Accepts {} (lines (playedBus d n r)) (pressEdge d n) ∧
      pressCycle (playedBus d n r) (pressEdge d n) = n := by
  obtain ⟨⟨-, hs, hcyc, hb⟩, hn'⟩ := Meter.played_accepts hd hn hlt
  have htr := playedBus_meter (r := r) (Nat.le_succ (pressEdge d n))
  have hs' : (Meter.trace {} (lines (playedBus d n r)) (pressEdge d n)).nextState = .count := by
    rw [htr]; exact hs
  have hc : Meter.countCycle {} (lines (playedBus d n r)) (pressEdge d n) =
      Meter.countCycle {} (Meter.played d.toNat n) (pressEdge d n) := by
    rw [← Meter.tick_countCycle _ hs', htr]
    exact Meter.tick_countCycle _ hs
  refine ⟨⟨playedBus_resetn (by omega), hs', by rw [hc]; exact hcyc, hb⟩, ?_⟩
  rw [pressCycle, hc]
  exact hn'

theorem playedBus_stop (hd : 0 < d.toNat) (hn : 1 ≤ n) (hlt : n < 150000000) {t : ℕ}
    (ht : pressEdge d n + 1 ≤ t) : (trace (playedBus d n r) t).meter.nextState = .stop := by
  induction t, ht using Nat.le_induction with
  | base =>
    rw [meter_trace]
    exact (playedBus_accepts hd hn hlt).1.step.1
  | succ t ht ih =>
    rw [trace_succ, step_meter]
    cases hr : (playedBus d n r t).resetn with
    | false => rw [(Meter.step_reset_frozen {} _ hr).1]; exact ih
    | true =>
      rw [Meter.step_stop_hold hr ih (playedBus_down (Nat.le_of_succ_le ht) _)]
      exact ih

theorem playedBus_cleared (hd : 0 < d.toNat) (hn : 1 ≤ n) (hlt : n < 150000000) {t : ℕ}
    (ht : pressEdge d n + 2 ≤ t) : (trace (playedBus d n false) t).meter.respTime = 0 := by
  induction t, ht using Nat.le_induction with
  | base => rw [trace_succ, step_meter, Meter.step_reset (if_pos rfl)]
  | succ t ht ih =>
    have hs := playedBus_stop (r := false) hd hn hlt (t := t) (by omega)
    have hr : (playedBus d n false t).resetn = true := playedBus_resetn (by omega)
    have hp : pressEdge d n ≤ t := by omega
    rw [trace_succ, step_meter, Meter.step_stop_hold hr hs (playedBus_down hp _)]
    exact ih

theorem playedBus_reads (hd : 0 < d.toNat) (hn : 1 ≤ n) (hlt : n < 150000000) :
    ReadsStop (playedBus d n r) (pressEdge d n) (pressEdge d n + 3) ∧
      ReadsRespTime (playedBus d n r) (pressEdge d n + 5) ∧
      ∀ e, pressEdge d n < e → ¬ Meter.Accepts {} (lines (playedBus d n r)) e := by
  have hno : ∀ e, pressEdge d n < e → ¬ Meter.Accepts {} (lines (playedBus d n r)) e := by
    intro e he hacc
    obtain ⟨-, hs, -⟩ := hacc
    have hstop := playedBus_stop (r := r) hd hn hlt he
    rw [meter_trace] at hstop
    exact absurd (hstop.symm.trans hs) (by decide)
  have hread : ReadsState (playedBus d n r) (pressEdge d n + 3) :=
    ⟨playedBus_resetn (by omega), decide_eq_true (by omega), decide_eq_false (by omega)⟩
  refine ⟨⟨by omega, hread, ?_, fun e h1 _ => hno e h1⟩,
    ⟨playedBus_resetn (by omega), decide_eq_true (by omega), decide_eq_true (by omega)⟩, hno⟩
  rw [trace_succ, readdata_state hread.1 hread.2.1 hread.2.2, trace_succ _ (pressEdge d n + 2),
    meter_state (playedBus_resetn (by omega)), playedBus_stop hd hn hlt (by omega)]

end PlayedBus

/-- A response after 80 ms, read back without a reset. -/
theorem publication_order_eighty :
    (trace (playedBus 2000#16 4000000 true) (pressEdge 2000#16 4000000 + 6)).readdata.toNat =
      80 := by
  have hd : 0 < (2000#16).toNat := by decide
  obtain ⟨hstop, htime, hno⟩ :=
    playedBus_reads (r := true) (n := 4000000) hd (by decide) (by decide)
  obtain ⟨hacc, hcyc⟩ := playedBus_accepts (r := true) (n := 4000000) hd (by decide) (by decide)
  have h := (publication_order (playedBus 2000#16 4000000 true)).2 _ _ _
    hacc (by rw [hcyc]; decide) hstop (by omega) htime
    (fun e _ _ => ite_self _) fun e h1 _ => hno e (by omega)
  rwa [hcyc] at h

/-- A reset between the press and the read of STOP: the meter still publishes STOP, but the
response time is gone. -/
theorem reset_clears_published_time :
    ¬ ∀ (i : ℕ → RespRegIn) (p u w : ℕ), Meter.Accepts {} (lines i) p →
      pressCycle i p / 50000 ≤ 2000 → ReadsStop i p u → u < w → ReadsRespTime i w →
      (∀ e, u < e → e < w → (i e).resetn = true) →
      (∀ e, u ≤ e → e < w → ¬ Meter.Accepts {} (lines i) e) →
      (trace i (w + 1)).readdata.toNat = pressCycle i p / 50000 := by
  intro h
  have hd : 0 < (1#16).toNat := by decide
  obtain ⟨hstop, htime, hno⟩ :=
    playedBus_reads (r := false) (n := 50000) hd (by decide) (by decide)
  obtain ⟨hacc, hcyc⟩ := playedBus_accepts (r := false) (n := 50000) hd (by decide) (by decide)
  have hv := h (playedBus 1#16 50000 false) _ _ _ hacc (by rw [hcyc]; decide) hstop (by omega)
    htime (fun e h1 _ => playedBus_resetn (by omega)) fun e h1 _ => hno e (by omega)
  rw [trace_succ, readdata_respTime htime.1 htime.2.1 htime.2.2, hcyc,
    playedBus_cleared hd (by decide) (by decide) (by omega)] at hv
  exact absurd hv (by decide)

end RespReg

end ReactionMeter
