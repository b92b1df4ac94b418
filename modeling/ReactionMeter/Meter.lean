import ReactionMeter.Lib.Clocked
import ReactionMeter.Prng

/-!
# The reaction meter

`reaction_meter.vhd`: the five-state machine that waits, counts and reports a response time, and
the generator it instantiates. Both processes are clocked by the same edge, so one `step` is one
rising edge of `clock` for the pair.

Signal assignments take effect after the edge and the last one wins; `tick` and `wait_ticks` are
process variables, so a test inside the edge sees the value just assigned. The functions `onIdle`
to `onStop` are the five branches of the `CASE`, in the order of the source.

* `step_*` lists what one edge can do, branch by branch.
* `Edge` is the same list reduced to what the outside can observe; `edge_step` proves it of every
  edge without reset.
* `delay_wait` and `count_wait` are the edges of the two long waits, in which only `tick` changes.
-/

namespace ReactionMeter

/-- `TYPE state_t IS (IDLE, START, DELAY, COUNT, STOP)`. -/
inductive StateT
  | idle | start | delay | count | stop
  deriving DecidableEq, Repr

/-- `state_t'POS`. -/
def StateT.pos : StateT → ℕ
  | .idle => 0
  | .start => 1
  | .delay => 2
  | .count => 3
  | .stop => 4

/-- The state of a round before this one. IDLE also follows on COUNT, by the timeout. -/
def StateT.pred : StateT → StateT
  | .idle => .stop
  | .start => .idle
  | .delay => .start
  | .count => .delay
  | .stop => .count

/-- The generics of the entity, with their defaults. -/
structure Generics where
  maxDelay : ℕ := 150000000
  fClk : ℕ := 50000000

/-- The signals and variables of `reaction_meter`, and the register of its generator. A signal the
source gives no initial value powers up low. -/
structure Meter where
  nextState : StateT := .idle
  rngEn : Bool := false
  irq : Bool := false
  state : ℕ := 0
  respTime : ℕ := 0
  tick : ℕ := 0
  waitTicks : ℕ := 0
  lfsr : BitVec 8 := 1#8
  deriving DecidableEq, Repr

/-- The input ports; `buttons` is active low. -/
structure MeterIn where
  resetn : Bool
  regDelay : ℕ
  buttons : BitVec 2
  deriving DecidableEq, Repr

/-- `buttons(1)`: low while the response button is down. -/
def MeterIn.resp (i : MeterIn) : Bool := i.buttons[1]

namespace Meter

/-- The state at power-up. -/
def powerUp : Meter := {}

/-- `WHEN IDLE`. -/
def onIdle (s : Meter) (i : MeterIn) : Meter :=
  let s := { s with irq := false }
  if i.buttons[0] = false then { s with nextState := .start, irq := true } else s

/-- `WHEN START`. -/
def onStart (s : Meter) (i : MeterIn) : Meter :=
  let s := { s with rngEn := true, irq := false }
  if i.buttons[0] = true then
    { s with rngEn := false, tick := 0, nextState := .delay, irq := true }
  else s

/-- The value `WHEN DELAY` assigns to `wait_ticks`. -/
def waitOf (g : Generics) (regDelay : ℕ) (rndDelay : BitVec 8) : ℕ :=
  if regDelay ≠ 0 then regDelay * 50000
  else g.maxDelay * 2 - g.maxDelay / 255 * rndDelay.toNat

/-- `WHEN DELAY`. -/
def onDelay (g : Generics) (s : Meter) (i : MeterIn) : Meter :=
  let s := { s with waitTicks := waitOf g i.regDelay s.lfsr, irq := false, tick := s.tick + 1 }
  if s.tick ≥ s.waitTicks then
    let s := { s with tick := 0 }
    if i.buttons[1] = true then { s with nextState := .count, irq := true } else s
  else s

/-- `WHEN COUNT`. The timeout branch leaves `tick` as it is and drives no interrupt. -/
def onCount (g : Generics) (s : Meter) (i : MeterIn) : Meter :=
  let s := { s with irq := false, tick := s.tick + 1 }
  if s.tick ≥ g.maxDelay then { s with nextState := .idle }
  else if i.buttons[1] = false then
    { s with respTime := s.tick / (g.fClk / 1000), tick := 0, nextState := .stop, irq := true }
  else s

/-- `WHEN STOP`. -/
def onStop (s : Meter) (i : MeterIn) : Meter :=
  let s := { s with irq := false }
  if i.buttons[1] = true then { s with nextState := .idle, irq := true } else s

/-- `CASE next_state IS`. -/
def onState (g : Generics) (s : Meter) (i : MeterIn) : Meter :=
  match s.nextState with
  | .idle => onIdle s i
  | .start => onStart s i
  | .delay => onDelay g s i
  | .count => onCount g s i
  | .stop => onStop s i

/-- The clocked process: in reset only `resp_time` is assigned. -/
def process (g : Generics) (s : Meter) (i : MeterIn) : Meter :=
  if i.resetn = false then { s with respTime := 0 }
  else { onState g s i with state := s.nextState.pos }

/-- One rising edge of `clock`, for the meter and its generator. -/
def step (g : Generics) (s : Meter) (i : MeterIn) : Meter :=
  { process g s i with lfsr := Prng.step s.lfsr false s.rngEn }

/-- The meter from power-up, driven by an input stream. -/
def trace (g : Generics) (i : ℕ → MeterIn) : ℕ → Meter := Clocked.run (step g) powerUp i

theorem trace_succ (g : Generics) (i : ℕ → MeterIn) (n : ℕ) :
    trace g i (n + 1) = step g (trace g i n) (i n) := rfl

/-! ## What one edge does -/

section Branches

variable {g : Generics} {s : Meter} {i : MeterIn}

theorem step_reset (h : i.resetn = false) :
    step g s i = { s with respTime := 0, lfsr := Prng.step s.lfsr false s.rngEn } := by
  simp [step, process, h]

theorem step_idle_stay (h : i.resetn = true) (hs : s.nextState = .idle)
    (hb : i.buttons[0] = true) :
    step g s i = { s with irq := false, state := 0, lfsr := Prng.step s.lfsr false s.rngEn } := by
  simp [step, process, onState, onIdle, h, hs, hb, StateT.pos]

theorem step_idle_press (h : i.resetn = true) (hs : s.nextState = .idle)
    (hb : i.buttons[0] = false) :
    step g s i = { s with nextState := .start, irq := true, state := 0,
                          lfsr := Prng.step s.lfsr false s.rngEn } := by
  simp [step, process, onState, onIdle, h, hs, hb, StateT.pos]

theorem step_start_hold (h : i.resetn = true) (hs : s.nextState = .start)
    (hb : i.buttons[0] = false) :
    step g s i = { s with rngEn := true, irq := false, state := 1,
                          lfsr := Prng.step s.lfsr false s.rngEn } := by
  simp [step, process, onState, onStart, h, hs, hb, StateT.pos]

theorem step_start_release (h : i.resetn = true) (hs : s.nextState = .start)
    (hb : i.buttons[0] = true) :
    step g s i = { s with nextState := .delay, rngEn := false, irq := true, tick := 0, state := 1,
                          lfsr := Prng.step s.lfsr false s.rngEn } := by
  simp [step, process, onState, onStart, h, hs, hb, StateT.pos]

theorem step_delay_wait (h : i.resetn = true) (hs : s.nextState = .delay)
    (ht : s.tick + 1 < waitOf g i.regDelay s.lfsr) :
    step g s i = { s with waitTicks := waitOf g i.regDelay s.lfsr, irq := false,
                          tick := s.tick + 1, state := 2,
                          lfsr := Prng.step s.lfsr false s.rngEn } := by
  simp [step, process, onState, onDelay, h, hs, StateT.pos, Nat.not_le.mpr ht]

/-- The response button is down when the wait ends: the wait starts over. -/
theorem step_delay_restart (h : i.resetn = true) (hs : s.nextState = .delay)
    (ht : waitOf g i.regDelay s.lfsr ≤ s.tick + 1) (hb : i.buttons[1] = false) :
    step g s i = { s with waitTicks := waitOf g i.regDelay s.lfsr, irq := false, tick := 0,
                          state := 2, lfsr := Prng.step s.lfsr false s.rngEn } := by
  simp [step, process, onState, onDelay, h, hs, hb, StateT.pos, ht]

theorem step_delay_done (h : i.resetn = true) (hs : s.nextState = .delay)
    (ht : waitOf g i.regDelay s.lfsr ≤ s.tick + 1) (hb : i.buttons[1] = true) :
    step g s i = { s with nextState := .count, waitTicks := waitOf g i.regDelay s.lfsr,
                          irq := true, tick := 0, state := 2,
                          lfsr := Prng.step s.lfsr false s.rngEn } := by
  simp [step, process, onState, onDelay, h, hs, hb, StateT.pos, ht]

theorem step_count_wait (h : i.resetn = true) (hs : s.nextState = .count)
    (ht : s.tick + 1 < g.maxDelay) (hb : i.buttons[1] = true) :
    step g s i = { s with irq := false, tick := s.tick + 1, state := 3,
                          lfsr := Prng.step s.lfsr false s.rngEn } := by
  simp [step, process, onState, onCount, h, hs, hb, StateT.pos, Nat.not_le.mpr ht]

theorem step_count_press (h : i.resetn = true) (hs : s.nextState = .count)
    (ht : s.tick + 1 < g.maxDelay) (hb : i.buttons[1] = false) :
    step g s i = { s with nextState := .stop, respTime := (s.tick + 1) / (g.fClk / 1000),
                          irq := true, tick := 0, state := 3,
                          lfsr := Prng.step s.lfsr false s.rngEn } := by
  simp [step, process, onState, onCount, h, hs, hb, StateT.pos, Nat.not_le.mpr ht]

theorem step_count_timeout (h : i.resetn = true) (hs : s.nextState = .count)
    (ht : g.maxDelay ≤ s.tick + 1) :
    step g s i = { s with nextState := .idle, irq := false, tick := s.tick + 1, state := 3,
                          lfsr := Prng.step s.lfsr false s.rngEn } := by
  simp [step, process, onState, onCount, h, hs, StateT.pos, ht]

theorem step_stop_hold (h : i.resetn = true) (hs : s.nextState = .stop)
    (hb : i.buttons[1] = false) :
    step g s i = { s with irq := false, state := 4, lfsr := Prng.step s.lfsr false s.rngEn } := by
  simp [step, process, onState, onStop, h, hs, hb, StateT.pos]

theorem step_stop_release (h : i.resetn = true) (hs : s.nextState = .stop)
    (hb : i.buttons[1] = true) :
    step g s i = { s with nextState := .idle, irq := true, state := 4,
                          lfsr := Prng.step s.lfsr false s.rngEn } := by
  simp [step, process, onState, onStop, h, hs, hb, StateT.pos]

end Branches

/-! ## What one edge shows outside -/

/-- An edge without reset either stays in its state or takes one of the six transitions. All but
the timeout of `COUNT` drive the interrupt output, and only the press in `COUNT` assigns
`resp_time`. -/
inductive Edge (g : Generics) (s s' : Meter) : Prop
  | stay (hn : s'.nextState = s.nextState) (hi : s'.irq = false) (hr : s'.respTime = s.respTime)
  | start (hs : s.nextState = .idle) (hn : s'.nextState = .start) (hi : s'.irq = true)
      (hr : s'.respTime = s.respTime)
  | delay (hs : s.nextState = .start) (hn : s'.nextState = .delay) (hi : s'.irq = true)
      (hr : s'.respTime = s.respTime)
  | count (hs : s.nextState = .delay) (hn : s'.nextState = .count) (hi : s'.irq = true)
      (hr : s'.respTime = s.respTime)
  | timeout (hs : s.nextState = .count) (hn : s'.nextState = .idle) (hi : s'.irq = false)
      (hr : s'.respTime = s.respTime)
  | stop (hs : s.nextState = .count) (hn : s'.nextState = .stop) (hi : s'.irq = true)
      (ht : s.tick + 1 < g.maxDelay) (hr : s'.respTime = (s.tick + 1) / (g.fClk / 1000))
  | idle (hs : s.nextState = .stop) (hn : s'.nextState = .idle) (hi : s'.irq = true)
      (hr : s'.respTime = s.respTime)

theorem edge_step (g : Generics) (s : Meter) {i : MeterIn} (h : i.resetn = true) :
    Edge g s (step g s i) := by
  cases hs : s.nextState with
  | idle =>
    cases hb : i.buttons[0] with
    | true => rw [step_idle_stay h hs hb]; exact .stay rfl rfl rfl
    | false => rw [step_idle_press h hs hb]; exact .start hs rfl rfl rfl
  | start =>
    cases hb : i.buttons[0] with
    | true => rw [step_start_release h hs hb]; exact .delay hs rfl rfl rfl
    | false => rw [step_start_hold h hs hb]; exact .stay rfl rfl rfl
  | delay =>
    by_cases ht : s.tick + 1 < waitOf g i.regDelay s.lfsr
    · rw [step_delay_wait h hs ht]; exact .stay rfl rfl rfl
    · have ht := Nat.le_of_not_lt ht
      cases hb : i.buttons[1] with
      | true => rw [step_delay_done h hs ht hb]; exact .count hs rfl rfl rfl
      | false => rw [step_delay_restart h hs ht hb]; exact .stay rfl rfl rfl
  | count =>
    by_cases ht : s.tick + 1 < g.maxDelay
    · cases hb : i.buttons[1] with
      | true => rw [step_count_wait h hs ht hb]; exact .stay rfl rfl rfl
      | false => rw [step_count_press h hs ht hb]; exact .stop hs rfl rfl ht rfl
    · rw [step_count_timeout h hs (Nat.le_of_not_lt ht)]; exact .timeout hs rfl rfl rfl
  | stop =>
    cases hb : i.buttons[1] with
    | true => rw [step_stop_release h hs hb]; exact .idle hs rfl rfl rfl
    | false => rw [step_stop_hold h hs hb]; exact .stay rfl rfl rfl

/-- A state other than IDLE is entered from the one before it. -/
theorem Edge.pred {g : Generics} {s s' : Meter} {q : StateT} (h : Edge g s s')
    (hne : s.nextState ≠ q) (heq : s'.nextState = q) (hq : q ≠ .idle) :
    s.nextState = q.pred := by
  subst heq
  cases h with
  | stay hn => exact absurd hn.symm hne
  | start hs hn | delay hs hn | count hs hn | stop hs hn => rw [hn]; exact hs
  | timeout _ hn | idle _ hn => exact absurd hn hq

/-- The published state lags `next_state` by one edge. -/
theorem step_state (g : Generics) (s : Meter) {i : MeterIn} (h : i.resetn = true) :
    (step g s i).state = s.nextState.pos := by
  simp [step, process, h]

/-- Reset freezes everything but `resp_time` and the generator. -/
theorem step_reset_frozen (g : Generics) (s : Meter) {i : MeterIn} (h : i.resetn = false) :
    (step g s i).nextState = s.nextState ∧ (step g s i).irq = s.irq ∧
      (step g s i).state = s.state ∧ (step g s i).tick = s.tick := by
  rw [step_reset h]; exact ⟨rfl, rfl, rfl, rfl⟩

/-- An interrupt after an edge without reset means the edge made a transition. -/
theorem moved_of_irq {g : Generics} {s s' : Meter} (h : Edge g s s') (hi : s'.irq = true) :
    s'.nextState ≠ s.nextState := by
  cases h with
  | stay _ hi' _ => rw [hi'] at hi; cases hi
  | timeout _ _ hi' _ => rw [hi'] at hi; cases hi
  | start hs hn | delay hs hn | count hs hn | stop hs hn | idle hs hn => rw [hs, hn]; decide

/-! ## The two long waits -/

/-- One edge of the wait in DELAY, once the published state and the generator have settled. -/
theorem delay_wait {g : Generics} {s : Meter} {i : MeterIn} (hs : s.nextState = .delay)
    (hq : s.irq = false ∧ s.state = 2 ∧ s.rngEn = false) (hr : i.resetn = true)
    (hw : waitOf g i.regDelay s.lfsr = s.waitTicks) (ht : s.tick + 1 < s.waitTicks) :
    step g s i = { s with tick := s.tick + 1 } := by
  obtain ⟨hirq, hst, hrng⟩ := hq
  rw [step_delay_wait hr hs (by rw [hw]; exact ht), hw, hrng, Prng.step_disabled]
  simp [← hirq, ← hst]

/-- One edge of COUNT with the response button up. -/
theorem count_wait {g : Generics} {s : Meter} {i : MeterIn} (hs : s.nextState = .count)
    (hq : s.irq = false ∧ s.state = 3 ∧ s.rngEn = false) (hr : i.resetn = true)
    (hb : i.buttons[1] = true) (ht : s.tick + 1 < g.maxDelay) :
    step g s i = { s with tick := s.tick + 1 } := by
  obtain ⟨hirq, hst, hrng⟩ := hq
  rw [step_count_wait hr hs ht hb, hrng, Prng.step_disabled]
  simp [← hirq, ← hst]

end Meter

end ReactionMeter
