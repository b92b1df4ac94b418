import ReactionMeter.Qsys.Moves

/-!
# Runs with prompt service

`Served` is the condition on the environment under which the two state machines are compared.
The delay of a round is a hundred million cycles, and a response may take as many; `delay_exec` and
`count_exec` follow such waits in closed form, so that a run over whole rounds is a few dozen
explicit cycles with waits between them.
-/

namespace ReactionMeter

namespace Qsys

namespace Sys

/-- Every interrupt is served before the meter's next transition. -/
def Served (s s' : Sys) : Prop := IrqSys.Served s.io s'.io

instance (s s' : Sys) : Decidable (Served s s') := by unfold Served; infer_instance

/-- The system after `n` cycles in which only the meter's `tick` runs. -/
def later (s : Sys) (n : ℕ) : Sys :=
  { s with
    io.hw.meter.tick := s.io.hw.meter.tick + n
    clock := s.clock + n }

/-- Nothing is going on: no interrupt, no access of the bus, the published state up to date. -/
structure Settled (s : Sys) : Prop where
  pc : s.pc ≠ .readTime2
  isr : s.io.isr = .out
  pulse : s.io.hw.meter.irq = false
  irq : s.io.hw.irq = false
  state : s.io.hw.meter.state = s.phase.pos
  rngEn : s.io.hw.meter.rngEn = false
  shown : s.io.shown = s.io.transitions.length

instance (s : Sys) : Decidable (Settled s) :=
  decidable_of_iff
    (s.pc ≠ .readTime2 ∧ s.io.isr = .out ∧ s.io.hw.meter.irq = false ∧ s.io.hw.irq = false ∧
      s.io.hw.meter.state = s.phase.pos ∧ s.io.hw.meter.rngEn = false ∧
      s.io.shown = s.io.transitions.length)
    ⟨fun ⟨h1, h2, h3, h4, h5, h6, h7⟩ => ⟨h1, h2, h3, h4, h5, h6, h7⟩,
      fun ⟨h1, h2, h3, h4, h5, h6, h7⟩ => ⟨h1, h2, h3, h4, h5, h6, h7⟩⟩

variable {s : Sys}

theorem Settled.later (h : Settled s) (n : ℕ) : Settled (s.later n) :=
  ⟨h.pc, h.isr, h.pulse, h.irq, h.state, h.rngEn, h.shown⟩

theorem Settled.served (h : Settled s) : Served s (s.later 1) :=
  ⟨fun hn => absurd rfl hn, fun hor => by simp [h.pulse, h.irq] at hor⟩

/-- A cycle in which the processor stalls and only `tick` runs. -/
theorem stall_step (h : Settled s)
    (hm : Meter.step {} s.io.hw.meter (RespReg.meterIn s.io.hw {}) =
      { s.io.hw.meter with tick := s.io.hw.meter.tick + 1 }) :
    s.step { cpu := .stall } = some (s.later 1) := by
  have hhw : s.io.hw.step {} =
      { s.io.hw with meter.tick := s.io.hw.meter.tick + 1 } := by
    simp [RespReg.step, RespReg.process, h.pulse, hm]
  have hio : s.io.step (0b11#2, .idle) =
      some { s.io with hw.meter.tick := s.io.hw.meter.tick + 1 } := by
    simp [IrqSys.step, h.isr, IrqSys.edge, hhw, h.shown]
  have hmeas : ¬ (s.phase = .count ∧ s.io.hw.meter.nextState = .stop) := by
    intro hturn
    obtain ⟨hc, hs⟩ := hturn
    exact absurd (hc.symm.trans hs) (by decide)
  simp only [step, h.pc, if_false, cycle, hio, Option.map_some]
  rw [if_neg hmeas]
  rfl

theorem stall_exec {ok : Sys → Sys → Prop} [∀ s s', Decidable (ok s s')]
    (hok : ∀ s, Settled s → ok s (s.later 1)) (h : Settled s) {n : ℕ}
    (hs : ∀ k < n, (s.later k).step { cpu := .stall } = some ((s.later k).later 1)) :
    Machine.exec (Machine.restrict ok step) s (List.replicate n { cpu := .stall }) =
      some (s.later n) := by
  refine Machine.exec_replicate (c := s.later) fun k hk => ?_
  exact Machine.restrict_eq_some.mpr ⟨hs k hk, hok _ (h.later k)⟩

/-- Nothing happens in the next `n` cycles if the processor stalls and the buttons are up. -/
def CanWait (s : Sys) (n : ℕ) : Prop :=
  Settled s ∧
    ((s.phase = .delay ∧
        Meter.waitOf {} s.io.hw.delay s.io.hw.meter.lfsr = s.io.hw.meter.waitTicks ∧
        s.io.hw.meter.tick + n < s.io.hw.meter.waitTicks) ∨
      (s.phase = .count ∧ s.io.hw.meter.tick + n < 150000000))

instance (s : Sys) (n : ℕ) : Decidable (CanWait s n) := by unfold CanWait; infer_instance

/-- A wait in DELAY or COUNT, in closed form. -/
theorem wait_exec {ok : Sys → Sys → Prop} [∀ s s', Decidable (ok s s')]
    (hok : ∀ s, Settled s → ok s (s.later 1)) {n : ℕ} (h : CanWait s n) :
    Machine.exec (Machine.restrict ok step) s (List.replicate n { cpu := .stall }) =
      some (s.later n) := by
  obtain ⟨hs, hcase⟩ := h
  refine stall_exec hok hs fun k hk => stall_step (hs.later k) ?_
  have hk' := Nat.add_le_add_left hk s.io.hw.meter.tick
  rcases hcase with ⟨hp, hw, hn⟩ | ⟨hp, hn⟩
  · refine Meter.delay_wait hp ⟨hs.pulse, ?_, hs.rngEn⟩ rfl hw (Nat.lt_of_le_of_lt hk' hn)
    exact hs.state.trans (by rw [hp]; rfl)
  · have hup : (0b11#2)[1] = true := by simp
    refine Meter.count_wait hp ⟨hs.pulse, ?_, hs.rngEn⟩ rfl hup (Nat.lt_of_le_of_lt hk' hn)
    exact hs.state.trans (by rw [hp]; rfl)

end Sys

/-! ## Scripts -/

/-- A piece of a run: explicit cycles, or a wait. -/
inductive Leg
  | acts (as : List Act)
  | wait (n : ℕ)

namespace Sys

section Play

variable (ok : Sys → Sys → Prop) [∀ s s', Decidable (ok s s')]

/-- The state a script leads to. A wait is not executed but added. -/
def play (s : Sys) : List Leg → Option Sys
  | [] => some s
  | .acts as :: ls => (Machine.exec (Machine.restrict ok step) s as).bind fun t => play t ls
  | .wait n :: ls => if CanWait s n then play (s.later n) ls else none

def playTo (ls : List Leg) : Sys := (play ok {} ls).getD {}

variable {ok}

theorem play_reach (hok : ∀ s, Settled s → ok s (s.later 1)) {s₀ s s' : Sys} {ls : List Leg}
    (hr : Machine.Reach (Machine.restrict ok step) s₀ s) (h : play ok s ls = some s') :
    Machine.Reach (Machine.restrict ok step) s₀ s' := by
  induction ls generalizing s with
  | nil => cases h; exact hr
  | cons l ls ih =>
    cases l with
    | acts as =>
      obtain ⟨t, ht, h⟩ := Option.bind_eq_some_iff.mp h
      exact ih (hr.exec ht) h
    | wait n =>
      rw [play] at h
      split_ifs at h with hw
      exact ih (hr.exec (wait_exec hok hw)) h

/-- A script that can be played ends in a reachable state. -/
theorem playTo_reach (hok : ∀ s, Settled s → ok s (s.later 1)) {ls : List Leg}
    (h : (play ok {} ls).isSome) : Machine.Reach (Machine.restrict ok step) {} (playTo ok ls) := by
  obtain ⟨t, ht⟩ := Option.isSome_iff_exists.mp h
  rw [playTo, ht, Option.getD_some]
  exact play_reach hok (Machine.Reach.refl _) ht

end Play

end Sys

/-! ## Pieces of a round -/

def startKey : BitVec 2 := 0b10#2
def respKey : BitVec 2 := 0b01#2
def noKey : BitVec 2 := 0b11#2

/-- A transition of the meter with the buttons at `b`, and its service: the pulse, `irq`, the two
edges of the read, and the post. -/
def serviced (b : BitVec 2) : List Act :=
  [⟨b, .stall⟩, ⟨b, .stall⟩, ⟨b, .isr⟩, ⟨b, .isr⟩, ⟨b, .isr⟩]

def taskSteps (b : BitVec 2) (n : ℕ) : List Act := List.replicate n ⟨b, .task⟩

/-- The delay, but for the four cycles of the service at its start and the one that ends it, and
then the transition to COUNT. -/
def delayOver : List Leg := [.wait 99999995, .acts (serviced noKey)]

/-- The cycles of `MIN_RESP_TIME`. -/
def eightyMs : ℕ := 4000000

end Qsys

end ReactionMeter
