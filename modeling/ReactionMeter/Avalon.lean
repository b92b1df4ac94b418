import ReactionMeter.RespReg

/-!
# The register file on the bus

`resp_reg_avalon_interface.vhd`: the wrapper that connects `resp_reg` to the Avalon bus. It gates
the data of both directions by `chipselect` and passes the strobes `read` and `write` on as they
are, so `resp_reg` obeys them whether it is selected or not. `reg32_avalon_interface`, the wrapper
of the other component, turns an unselected write into one that enables no byte.

Two runs are compared: one on the lines of the bus, and one on the lines with the strobes of the
unselected cycles taken away. `Agree` relates their states, and `Agree.step_iff` says which cycles
keep it.

* `unselected_iff` says in which runs the strobes make no difference.
* `unselected_read`: an access elsewhere acknowledges an interrupt.
-/

namespace ReactionMeter

/-- The input ports of `resp_reg_avalon_interface`. -/
structure AvalonIn where
  resetn : Bool := true
  address : Bool := false
  chipselect : Bool := false
  read : Bool := false
  write : Bool := false
  writedata : BitVec 16 := 0#16
  buttons : BitVec 2 := 0b11#2
  deriving DecidableEq, Repr

namespace Avalon

/-- `to_reg`. -/
def toReg (i : AvalonIn) : BitVec 16 :=
  if i.chipselect = true ∧ i.write = true then i.writedata else 0xFFFF#16

/-- The port map of `reg_instance`. -/
def regIn (i : AvalonIn) : RespRegIn :=
  { resetn := i.resetn
    address := i.address
    writedata := toReg i
    read := i.read
    write := i.write
    buttons := i.buttons }

/-- The output `readdata`; `irq` is that of `resp_reg`. -/
def readdata (s : RespReg) (i : AvalonIn) : BitVec 16 :=
  if i.chipselect = true ∧ i.read = true then s.readdata else 0xFFFF#16

/-- One rising edge of `clock`. -/
def step (s : RespReg) (i : AvalonIn) : RespReg := RespReg.step s (regIn i)

/-- The component from power-up. -/
def trace (i : ℕ → AvalonIn) : ℕ → RespReg := Clocked.run step {} i

theorem trace_succ (i : ℕ → AvalonIn) (n : ℕ) : trace i (n + 1) = step (trace i n) (i n) := rfl

/-- The register file in the component is the register file on its own, on the lines of the port
map. -/
theorem trace_eq (i : ℕ → AvalonIn) (n : ℕ) : trace i n = RespReg.trace (fun k => regIn (i k)) n := by
  induction n with
  | zero => rfl
  | succ n ih => rw [trace_succ, ih]; rfl

/-- The lines without the strobes of an unselected cycle. -/
def deselect (i : AvalonIn) : AvalonIn :=
  if i.chipselect = true then i else { i with read := false, write := false }

/-! ## Selected cycles only -/

/-- The states of two register files that a bus master and a player cannot tell apart without a
read: `readdata` is left out. -/
structure Agree (s t : RespReg) : Prop where
  irq : s.irq = t.irq
  delay : s.delay = t.delay
  meter : s.meter = t.meter

/-- A cycle in which the strobes may be there or not: the register file is in reset or selected, or
a read finds no interrupt to acknowledge, and a write of address 0 finds in the delay register what
`to_reg` holds for it. -/
def Unheard (s : RespReg) (i : AvalonIn) : Prop :=
  i.resetn = true → i.chipselect = false →
    (i.read = true → s.irq = false ∧ s.meter.irq = false) ∧
    (i.write = true → i.address = false → s.delay = 65535)

variable {s t : RespReg} {i : AvalonIn}

theorem Agree.meter_step (h : Agree s t) : (step s i).meter = (step t (deselect i)).meter := by
  have hin : RespReg.meterIn s (regIn i) = RespReg.meterIn t (regIn (deselect i)) := by
    rw [RespReg.meterIn, RespReg.meterIn, h.delay]
    unfold deselect
    split_ifs <;> rfl
  rw [step, step, RespReg.step_meter, RespReg.step_meter, h.meter, hin]

theorem deselect_selected (hc : i.chipselect = true) : deselect i = i := if_pos hc

theorem deselect_unselected (hc : i.chipselect = false) :
    deselect i = { i with read := false, write := false } := by
  simp [deselect, hc]

theorem irq_unselected (h : Agree s t) (hr : i.resetn = true) (hc : i.chipselect = false) :
    (step s i).irq = (step t (deselect i)).irq ↔
      (i.read = true → s.irq = false ∧ s.meter.irq = false) := by
  have ht : (step t (deselect i)).irq = (s.meter.irq || s.irq) := by
    rw [deselect_unselected hc, h.irq, h.meter]
    exact RespReg.irq_quiet hr rfl
  rw [ht]
  cases hread : i.read with
  | false =>
    rw [step, RespReg.irq_quiet hr hread]
    simp
  | true =>
    rw [step, RespReg.irq_read hread]
    simp [and_comm]

theorem delay_unselected (h : Agree s t) (hr : i.resetn = true) (hc : i.chipselect = false) :
    (step s i).delay = (step t (deselect i)).delay ↔
      (i.write = true → i.address = false → s.delay = 65535) := by
  have ht : (step t (deselect i)).delay = s.delay := by
    rw [deselect_unselected hc, h.delay]
    exact RespReg.delay_quiet rfl
  have hs : (step s i).delay = if i.write = true ∧ i.address = false then 65535 else s.delay := by
    simp [step, RespReg.step, RespReg.process, regIn, toReg, hr, hc]
  rw [ht, hs]
  split_ifs with hw
  · simp [hw, eq_comm]
  · simpa using fun h1 h2 => absurd ⟨h1, h2⟩ hw

theorem Agree.step_iff (h : Agree s t) : Agree (step s i) (step t (deselect i)) ↔ Unheard s i := by
  cases hr : i.resetn with
  | false =>
    apply iff_of_true
    · have hr' : (regIn (deselect i)).resetn = false := by
        unfold deselect
        split_ifs <;> exact hr
      refine ⟨?_, ?_, h.meter_step⟩
      · rw [step, step, RespReg.irq_reset hr, RespReg.irq_reset hr']
      · have hdelay : ∀ (s : RespReg) (j : RespRegIn), j.resetn = false →
            (RespReg.step s j).delay = s.delay := fun s j hj => by
          simp [RespReg.step, RespReg.process, hj]
        rw [step, step, hdelay s _ hr, hdelay t _ hr', h.delay]
    · intro hreset
      rw [hr] at hreset
      cases hreset
  | true =>
    cases hc : i.chipselect with
    | true =>
      apply iff_of_true
      · have hmeter := h.meter_step (i := i)
        rw [deselect_selected hc] at hmeter ⊢
        refine ⟨?_, ?_, hmeter⟩
        · simp only [step, RespReg.step, RespReg.process, h.irq, h.meter]
          split_ifs <;> rfl
        · simp only [step, RespReg.step, RespReg.process, h.delay]
          split_ifs <;> rfl
      · intro _ hsel
        rw [hc] at hsel
        cases hsel
    | false =>
      have hirq := irq_unselected h hr hc
      have hdelay := delay_unselected h hr hc
      constructor
      · intro hagree _ _
        exact ⟨hirq.mp hagree.irq, hdelay.mp hagree.delay⟩
      · intro hquiet
        obtain ⟨hread, hwrite⟩ := hquiet hr hc
        exact ⟨hirq.mpr hread, hdelay.mpr hwrite, h.meter_step⟩

/-- **Where an unselected slave is left alone.** For every run, with any buttons, resets and lines:
taking the strobes of the unselected cycles away changes `irq`, the delay and the meter in no cycle,
if and only if out of reset no unselected read meets an interrupt of `resp_reg` or of the meter, and
no unselected write of address 0 meets a delay other than 65535. -/
theorem unselected_iff (i : ℕ → AvalonIn) :
    (∀ n, (trace i n).irq = (trace (fun k => deselect (i k)) n).irq ∧
      (trace i n).delay = (trace (fun k => deselect (i k)) n).delay ∧
      (trace i n).meter = (trace (fun k => deselect (i k)) n).meter) ↔
    ∀ n, Unheard (trace i n) (i n) := by
  constructor
  · intro hsame n
    obtain ⟨hirq, hdelay, hmeter⟩ := hsame n
    obtain ⟨hirq', hdelay', hmeter'⟩ := hsame (n + 1)
    exact (Agree.step_iff ⟨hirq, hdelay, hmeter⟩).mp ⟨hirq', hdelay', hmeter'⟩
  · intro hquiet n
    have hagree : Agree (trace i n) (trace (fun k => deselect (i k)) n) := by
      induction n with
      | zero => exact ⟨rfl, rfl, rfl⟩
      | succ n ih => exact ih.step_iff.mpr (hquiet n)
    exact ⟨hagree.irq, hagree.delay, hagree.meter⟩

/-- The start button goes down, and in the cycle after the pulse the bus reads from another slave:
the interrupt is gone. -/
theorem unselected_read :
    ¬ ∀ (i : ℕ → AvalonIn) (n : ℕ),
      (trace i n).irq = (trace (fun k => deselect (i k)) n).irq := by
  intro hall
  have hirq := hall (fun n => { read := decide (n = 2), buttons := 0b10#2 }) 3
  exact absurd hirq (by decide)

end Avalon

end ReactionMeter
