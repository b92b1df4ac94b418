import Mathlib.Order.WellFounded
import ReactionMeter.MeterRange

/-!
# The register file

`resp_reg.vhd`: the Avalon slave around the meter. Address 0 reads the published state and writes
the delay, address 1 reads the response time. A read of either address clears `irq`; otherwise a
pulse of the meter's interrupt output sets it.

The slave declares one wait state, so a bus read holds `read` for two edges. The slave latches
`readdata` at both; the master takes the value of the first.

* `meter_trace` says that the meter inside is the meter of `Meter.trace`, with `reg_delay` driven
  by the register.
* `delay_in_range_iff` says what the unchecked write does to the range of `delay`.
* `kept_iff` says which notifications survive the bus.
-/

namespace ReactionMeter

/-- The signals of `resp_reg`. A signal the source gives no initial value powers up low. -/
structure RespReg where
  meter : Meter := Meter.powerUp
  delay : ℕ := 0
  readdata : BitVec 16 := 0#16
  irq : Bool := false
  deriving DecidableEq, Repr

/-- The input ports of `resp_reg`. -/
structure RespRegIn where
  resetn : Bool := true
  address : Bool := false
  writedata : BitVec 16 := 0#16
  read : Bool := false
  write : Bool := false
  buttons : BitVec 2 := 0b11#2
  deriving DecidableEq, Repr

namespace RespReg

/-- The lines the port map drives into the meter. -/
def meterIn (s : RespReg) (i : RespRegIn) : MeterIn :=
  { resetn := i.resetn, regDelay := s.delay, buttons := i.buttons }

/-- The clocked process of `resp_reg`, reading the meter's outputs as they were before the edge. -/
def process (s : RespReg) (i : RespRegIn) : RespReg :=
  if i.resetn = false then { s with readdata := 0#16, irq := false }
  else
    { s with
      readdata :=
        if i.read = true ∧ i.address = true then BitVec.ofNat 16 s.meter.respTime
        else if i.read = true ∧ i.address = false then BitVec.ofNat 16 s.meter.state
        else s.readdata
      delay := if i.write = true ∧ i.address = false then i.writedata.toNat else s.delay
      irq :=
        if i.read = true then false
        else if s.meter.irq = true ∧ s.irq = false then true
        else s.irq }

/-- One rising edge of `clock`, for the register file and the meter in it. -/
def step (s : RespReg) (i : RespRegIn) : RespReg :=
  { process s i with meter := Meter.step {} s.meter (meterIn s i) }

/-- The register file from power-up. -/
def trace (i : ℕ → RespRegIn) : ℕ → RespReg := Clocked.run step {} i

theorem trace_succ (i : ℕ → RespRegIn) (n : ℕ) :
    trace i (n + 1) = step (trace i n) (i n) := rfl

@[simp] theorem step_meter (s : RespReg) (i : RespRegIn) :
    (step s i).meter = Meter.step {} s.meter (meterIn s i) := rfl

/-- The meter in the register file is the meter on its own, on the lines of the port map. -/
theorem meter_trace (i : ℕ → RespRegIn) (n : ℕ) :
    (trace i n).meter = Meter.trace {} (fun k => meterIn (trace i k) (i k)) n := by
  induction n with
  | zero => rfl
  | succ n ih => rw [trace_succ, step_meter, Meter.trace_succ, ← ih]

/-! ## One edge of the register file -/

section Edges

variable {s : RespReg} {i : RespRegIn}

theorem irq_reset (h : i.resetn = false) : (step s i).irq = false := by
  simp [step, process, h]

theorem irq_read (h : i.read = true) : (step s i).irq = false := by
  cases hr : i.resetn <;> simp [step, process, h, hr]

theorem irq_quiet (h : i.resetn = true) (hr : i.read = false) :
    (step s i).irq = (s.meter.irq || s.irq) := by
  cases hm : s.meter.irq <;> cases hi : s.irq <;> simp [step, process, h, hr, hm, hi]

theorem readdata_state (h : i.resetn = true) (hr : i.read = true) (ha : i.address = false) :
    (step s i).readdata = BitVec.ofNat 16 s.meter.state := by
  simp [step, process, h, hr, ha]

theorem readdata_respTime (h : i.resetn = true) (hr : i.read = true) (ha : i.address = true) :
    (step s i).readdata = BitVec.ofNat 16 s.meter.respTime := by
  simp [step, process, h, hr, ha]

theorem delay_write (h : i.resetn = true) (hw : i.write = true) (ha : i.address = false) :
    (step s i).delay = i.writedata.toNat := by
  simp [step, process, h, hw, ha]

theorem delay_quiet (hw : i.write = false) : (step s i).delay = s.delay := by
  cases hr : i.resetn <;> simp [step, process, hr, hw]

theorem meter_edge (h : i.resetn = true) : Meter.Edge {} s.meter (step s i).meter :=
  Meter.edge_step {} s.meter h

theorem meter_state (h : i.resetn = true) :
    (step s i).meter.state = s.meter.nextState.pos :=
  Meter.step_state {} s.meter h

end Edges

/-! ## The configured delay -/

/-- Edge `n` writes the delay. -/
def WritesDelay (i : ℕ → RespRegIn) (n : ℕ) : Prop :=
  (i n).resetn = true ∧ (i n).write = true ∧ (i n).address = false

instance (i : ℕ → RespRegIn) (n : ℕ) : Decidable (WritesDelay i n) := by
  unfold WritesDelay; infer_instance

theorem delay_step (s : RespReg) (i : ℕ → RespRegIn) (n : ℕ) :
    (step s (i n)).delay = if WritesDelay i n then (i n).writedata.toNat else s.delay := by
  split_ifs with hw
  · exact delay_write hw.1 hw.2.1 hw.2.2
  · cases hr : (i n).resetn with
    | false => simp [step, process, hr]
    | true =>
      cases hwr : (i n).write with
      | false => exact delay_quiet hwr
      | true =>
        cases ha : (i n).address with
        | false => exact absurd ⟨hr, hwr, ha⟩ hw
        | true => simp [step, process, hr, ha]

theorem delay_succ (i : ℕ → RespRegIn) (n : ℕ) :
    (trace i (n + 1)).delay =
      if WritesDelay i n then (i n).writedata.toNat else (trace i n).delay :=
  delay_step (trace i n) i n

/-- A cycle of DELAY out of reset takes its threshold from the register. -/
theorem waitTicks_delay {i : ℕ → RespRegIn} {n : ℕ} (hr : (i n).resetn = true)
    (hs : (trace i n).meter.nextState = .delay) :
    (trace i (n + 1)).meter.waitTicks =
      Meter.waitOf {} (trace i n).delay (trace i n).meter.lfsr := by
  rw [meter_trace] at hs
  rw [meter_trace, meter_trace i n]
  exact Meter.waitTicks_delay (i := fun k => meterIn (trace i k) (i k)) hr hs

/-- **The range of `delay`.** With any buttons, resets and bus traffic, `delay` stays in `0 TO 5000`
and every cycle of DELAY assigns a product below `2 ^ 31`, and a threshold in `0 TO 3 * MAX_DELAY`,
if and only if no write of more than 5000 reaches the register. -/
theorem delay_in_range_iff (i : ℕ → RespRegIn) :
    ((∀ n, (trace i n).delay ≤ 5000) ∧
      ∀ n, (i n).resetn = true → (trace i n).meter.nextState = .delay →
        (trace i n).delay * 50000 < 2 ^ 31 ∧
        (trace i n).delay * 50000 ≤ 3 * 150000000 ∧
        (trace i (n + 1)).meter.waitTicks ≤ 3 * 150000000) ↔
      ∀ n, WritesDelay i n → (i n).writedata.toNat ≤ 5000 := by
  constructor
  · rintro ⟨hdelay, -⟩ n hw
    have hle := hdelay (n + 1)
    rw [delay_succ, if_pos hw] at hle
    exact hle
  · intro hwrites
    have hdelay : ∀ n, (trace i n).delay ≤ 5000 := by
      intro n
      induction n with
      | zero => exact Nat.zero_le 5000
      | succ n ih =>
        rw [delay_succ]
        split_ifs with hw
        · exact hwrites n hw
        · exact ih
    refine ⟨hdelay, fun n hr hs => ?_⟩
    have hle := hdelay n
    refine ⟨by omega, by omega, ?_⟩
    rw [waitTicks_delay hr hs]
    unfold Meter.waitOf
    split_ifs
    · omega
    · exact (Nat.sub_le _ _).trans (by decide)

/-- A bus write of 5001 is taken as it is. -/
theorem delay_leaves_range :
    ¬ ∀ (i : ℕ → RespRegIn) (n : ℕ), (trace i n).delay ≤ 5000 := by
  intro hall
  have hle := hall (fun _ => { write := true, writedata := 5001#16 }) 1
  exact absurd hle (by decide)

/-! ## Notifications -/

/-- Edge `u` is a read of address 0 outside reset: it latches the published state. -/
def ReadsState (i : ℕ → RespRegIn) (u : ℕ) : Prop :=
  (i u).resetn = true ∧ (i u).read = true ∧ (i u).address = false

/-- Edge `u` is a read of address 1 outside reset: it latches the response time. -/
def ReadsRespTime (i : ℕ → RespRegIn) (u : ℕ) : Prop :=
  (i u).resetn = true ∧ (i u).read = true ∧ (i u).address = true

/-- Edge `u` latches the code of a state the meter was in since its edge `t`: the state entered by
the transition at edge `t`, or one entered after it. -/
def LatchesSince (i : ℕ → RespRegIn) (t u : ℕ) : Prop :=
  ReadsState i u ∧ ∃ e, t < e ∧ e ≤ u ∧
    (trace i (u + 1)).readdata = BitVec.ofNat 16 (trace i e).meter.nextState.pos

/-- The meter pulses its interrupt output for the transition it makes at edge `t`. -/
def Pulses (i : ℕ → RespRegIn) (t : ℕ) : Prop :=
  (i t).resetn = true ∧ (trace i (t + 1)).meter.irq = true

/-- The notification of edge `t` is kept: `irq` is high from the cycle after the pulse until a read
latches the state it announces, or a later one. -/
def Kept (i : ℕ → RespRegIn) (t : ℕ) : Prop :=
  ∀ m, t + 2 ≤ m → (∀ u, t < u → u < m → ¬ LatchesSince i t u) → (trace i m).irq = true

theorem ofNat_pos_injective {p q : StateT} (h : BitVec.ofNat 16 p.pos = BitVec.ofNat 16 q.pos) :
    p = q := by
  cases p <;> cases q <;> first | rfl | exact absurd h (by decide)

/-- A pulse is a transition. -/
theorem Pulses.moved {i : ℕ → RespRegIn} {t : ℕ} (h : Pulses i t) :
    (trace i (t + 1)).meter.nextState ≠ (trace i t).meter.nextState :=
  Meter.moved_of_irq (meter_edge h.1) h.2

section NoReset

variable {i : ℕ → RespRegIn} (hreset : ∀ n, (i n).resetn = true) {t : ℕ}
include hreset

/-- A read that overlaps the pulse still latches the state before the transition. -/
theorem not_latchesSince_overlap (ht : Pulses i t) : ¬ LatchesSince i t (t + 1) := by
  intro hlatch
  obtain ⟨⟨hr, hread, haddr⟩, e, hlt, hle, hv⟩ := hlatch
  obtain rfl : e = t + 1 := Nat.le_antisymm hle hlt
  rw [trace_succ i (t + 1), readdata_state hr hread haddr, trace_succ i t,
    meter_state (hreset t)] at hv
  exact ht.moved (ofNat_pos_injective hv).symm

/-- A later read of address 0 latches the announced state or a later one. -/
theorem latchesSince_of_read {u : ℕ} (hu : t + 1 < u) (hread : (i u).read = true)
    (haddr : (i u).address = false) : LatchesSince i t u := by
  obtain ⟨v, rfl⟩ := Nat.exists_eq_succ_of_ne_zero (Nat.ne_of_gt (Nat.zero_lt_of_lt hu))
  refine ⟨⟨hreset _, hread, haddr⟩, v, Nat.lt_of_succ_lt_succ hu, Nat.le_succ v, ?_⟩
  rw [trace_succ i (v + 1), readdata_state (hreset _) hread haddr, trace_succ i v,
    meter_state (hreset v)]

/-- Without a read after the pulse `irq` is set and stays. -/
theorem irq_of_quiet (ht : Pulses i t) {m : ℕ} (hm : t + 2 ≤ m)
    (hq : ∀ u, t < u → u < m → (i u).read = false) : (trace i m).irq = true := by
  induction m, hm using Nat.le_induction with
  | base =>
    rw [trace_succ, irq_quiet (hreset _) (hq (t + 1) (by omega) (by omega)), ht.2, Bool.true_or]
  | succ m hm ih =>
    rw [trace_succ, irq_quiet (hreset _) (hq m (by omega) (by omega)),
      ih fun u h1 h2 => hq u h1 (by omega), Bool.or_true]

/-- **Which notifications survive the bus.** In a run without reset the notification of a pulse at
edge `t` is kept if and only if no read overlaps the pulse and the first read after it is of
address 0. -/
theorem kept_iff (ht : Pulses i t) :
    Kept i t ↔ (i (t + 1)).read = false ∧
      ∀ u, t + 1 < u → (i u).read = true → (∀ v, t + 1 < v → v < u → (i v).read = false) →
        (i u).address = false := by
  constructor
  · intro hk
    have hover : (i (t + 1)).read = false := by
      by_contra hread
      have hirq := hk (t + 2) le_rfl fun u h1 h2 => by
        obtain rfl : u = t + 1 := by omega
        exact not_latchesSince_overlap hreset ht
      rw [trace_succ, irq_read (by simpa using hread)] at hirq
      cases hirq
    refine ⟨hover, fun u hu hread hfirst => ?_⟩
    by_contra haddr
    have hirq := hk (u + 1) (by omega) fun v h1 h2 hv => by
      rcases Nat.lt_or_eq_of_le (Nat.le_of_lt_succ h2) with hlt | rfl
      · rcases Nat.lt_or_eq_of_le (Nat.succ_le_of_lt h1) with hgt | rfl
        · exact absurd ((hfirst v hgt hlt).symm.trans hv.1.2.1) (by decide)
        · exact not_latchesSince_overlap hreset ht hv
      · exact haddr hv.1.2.2
    rw [trace_succ, irq_read hread] at hirq
    cases hirq
  · intro hquiet m hm hno
    obtain ⟨hover, hfirst⟩ := hquiet
    apply irq_of_quiet hreset ht hm
    -- The first read, if there were one, would be of address 0 and latch the announced state.
    intro u
    induction u using Nat.strong_induction_on with
    | _ u ih =>
      intro h1 h2
      by_contra hread
      have hread : (i u).read = true := by simpa using hread
      rcases Nat.lt_or_eq_of_le (Nat.succ_le_of_lt h1) with hgt | rfl
      · have haddr := hfirst u hgt hread fun v hv1 hv2 => ih v hv2 (by omega) (by omega)
        exact hno u h1 h2 (latchesSince_of_read hreset hgt hread haddr)
      · rw [hover] at hread; cases hread

end NoReset

/-- Every bus read holds `read` for two edges, at one address. -/
def TwoCycleReads (i : ℕ → RespRegIn) : Prop :=
  ∃ starts : ℕ → Prop, ∀ n,
    ((i n).read = true ↔ starts n ∨ ∃ m, n = m + 1 ∧ starts m) ∧
      (starts n → ¬ starts (n + 1) ∧ (i (n + 1)).address = (i n).address)

/-- A read of address 0 in edges `u` and `u + 1`, with the start button down from edge `p` on. -/
def readAndPress (u p n : ℕ) : RespRegIn :=
  { read := decide (n = u ∨ n = u + 1), buttons := if n < p then 0b11#2 else 0b10#2 }

theorem readAndPress_twoCycle (u p : ℕ) : TwoCycleReads (readAndPress u p) := by
  refine ⟨fun n => n = u, fun n => ⟨?_, fun h => ⟨by omega, rfl⟩⟩⟩
  simp only [readAndPress, decide_eq_true_eq]
  constructor
  · rintro (rfl | rfl)
    · exact Or.inl rfl
    · exact Or.inr ⟨u, rfl, rfl⟩
  · rintro (rfl | ⟨m, rfl, rfl⟩) <;> simp

/-- Served in good time, the start button's notification is kept. -/
theorem kept_served : Kept (readAndPress 3 0) 0 :=
  (kept_iff (fun _ => rfl) ⟨rfl, by decide⟩).mpr ⟨rfl, fun _ _ _ _ => rfl⟩

/-- The read the software makes at boot swallows a start button pressed in its first cycle. -/
theorem boot_read_swallows :
    ¬ ∀ i : ℕ → RespRegIn, (∀ n, (i n).resetn = true) → TwoCycleReads i →
      ∀ t, Pulses i t → Kept i t := by
  intro h
  have hk := h (readAndPress 1 1) (fun _ => rfl) (readAndPress_twoCycle 1 1) 1
    ⟨rfl, by decide⟩ 3 le_rfl
  have hirq : (trace (readAndPress 1 1) 3).irq = false := by decide
  rw [hirq] at hk
  refine Bool.false_ne_true (hk fun u h1 h2 => ?_)
  obtain rfl : u = 2 := by omega
  exact not_latchesSince_overlap (fun _ => rfl) ⟨rfl, by decide⟩

end RespReg

end ReactionMeter
