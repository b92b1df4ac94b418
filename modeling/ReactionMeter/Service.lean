import ReactionMeter.Isr

/-!
# Prompt service

The meter has one interrupt output for all its transitions, so the routine can tell them apart only
if it is done with one before the meter makes the next. `Served` is that condition on a cycle: the
meter does not move while an interrupt is pending or in service, and a pending interrupt stays so
until the routine reads. `Prompt` is what it gives in every reachable state: whatever the routine is
about to read, has read or compares is the code of the state the meter is in.
-/

namespace ReactionMeter

namespace IrqSys

/-- Every interrupt is served before the meter's next transition. -/
structure Served (s s' : IrqSys) : Prop where
  quiet : s'.hw.meter.nextState ≠ s.hw.meter.nextState →
    s.hw.meter.irq = false ∧ s.hw.irq = false ∧ s.isr = .out
  kept : s.hw.meter.irq = true ∨ s.hw.irq = true → s'.hw.irq = true ∨ s'.isr = .reading

instance (s s' : IrqSys) : Decidable (Served s s') :=
  decidable_of_iff
    ((s'.hw.meter.nextState ≠ s.hw.meter.nextState →
      s.hw.meter.irq = false ∧ s.hw.irq = false ∧ s.isr = .out) ∧
      (s.hw.meter.irq = true ∨ s.hw.irq = true → s'.hw.irq = true ∨ s'.isr = .reading))
    ⟨fun ⟨h1, h2⟩ => ⟨h1, h2⟩, fun ⟨h1, h2⟩ => ⟨h1, h2⟩⟩

/-- An interrupt is pending or in service. -/
def Active (s : IrqSys) : Prop := s.hw.meter.irq = true ∨ s.hw.irq = true ∨ s.isr ≠ .out

theorem Served.not_active {s s' : IrqSys} (h : Served s s')
    (hmove : s'.hw.meter.nextState ≠ s.hw.meter.nextState) : ¬ Active s := by
  obtain ⟨hpulse, hirq, hout⟩ := h.quiet hmove
  simp [Active, hpulse, hirq, hout]

/-- What the routine sees is the state the meter is in. -/
structure Prompt (s : IrqSys) : Prop where
  pulse : s.hw.meter.irq = true → s.hw.irq = false ∧ s.isr = .out
  irq : s.hw.irq = true → s.isr = .out ∧ s.hw.meter.state = s.hw.meter.nextState.pos
  reading : s.isr = .reading →
    s.hw.irq = false ∧ s.hw.readdata = BitVec.ofNat 16 s.hw.meter.nextState.pos
  posting : ∀ c, s.isr = .posting c →
    s.hw.irq = false ∧ c = BitVec.ofNat 16 s.hw.meter.nextState.pos

theorem prompt_init (d : ℕ) : Prompt { hw := { delay := d } } where
  pulse := by intro h; cases h
  irq := by intro h; cases h
  reading := by intro h; cases h
  posting := by intro c h; cases h

theorem Access.hw {s s' : IrqSys} (h : Access s s') :
    ∃ i : RespRegIn, i.resetn = true ∧ s'.hw = s.hw.step i ∧
      s'.transitions = (s.edge i).transitions := by
  cases h with
  | other hi | startRead hi | finishRead hi | post hi => exact ⟨_, hi, rfl, rfl⟩

theorem Access.meter {s s' : IrqSys} (h : Access s s') :
    Meter.Edge {} s.hw.meter s'.hw.meter := by
  obtain ⟨i, hi, hhw, -⟩ := h.hw
  rw [hhw]
  exact RespReg.meter_edge hi

section Steps

variable {s s' : IrqSys}

/-- A cycle in which the meter stays leaves its interrupt output low. -/
theorem Access.low_of_stay (h : Access s s')
    (hn : s'.hw.meter.nextState = s.hw.meter.nextState) : s'.hw.meter.irq = false := by
  apply Bool.eq_false_of_not_eq_true
  intro hp
  exact Meter.moved_of_irq h.meter hp hn

/-- After a move nothing but the new pulse is outstanding. -/
theorem Access.quiet (h : Access s s') (hok : Served s s')
    (hmove : s'.hw.meter.nextState ≠ s.hw.meter.nextState) :
    s'.hw.irq = false ∧ s'.isr = .out := by
  obtain ⟨hm, hq, hout⟩ := hok.quiet hmove
  cases h with
  | @other i hi hpc =>
    refine ⟨?_, hout⟩
    show (s.hw.step i).irq = false
    cases hr : i.read with
    | true => exact RespReg.irq_read hr
    | false => rw [RespReg.irq_quiet hi hr, hm, hq, Bool.or_false]
  | startRead _ _ _ _ hirq => rw [hq] at hirq; cases hirq
  | finishRead _ _ hpc => rw [hout] at hpc; cases hpc
  | post _ hpc => rw [hout] at hpc; cases hpc

theorem Access.active (h : Access s s')
    (hstay : s'.hw.meter.irq = false) (ha : Active s') : Active s := by
  cases h with
  | @other i hi hpc =>
    rcases ha with ha | ha | ha
    · exact absurd (ha.symm.trans hstay) (by decide)
    · cases hr : i.read with
      | true => exact absurd (ha.symm.trans (RespReg.irq_read hr)) (by decide)
      | false =>
        have hor : (s.hw.meter.irq || s.hw.irq) = true := (RespReg.irq_quiet hi hr).symm.trans ha
        rcases Bool.or_eq_true_iff.mp hor with hm | hq
        · exact Or.inl hm
        · exact Or.inr (Or.inl hq)
    · exact Or.inr (Or.inr ha)
  | startRead _ _ _ _ hirq => exact Or.inr (Or.inl hirq)
  | finishRead _ _ hpc => exact Or.inr (Or.inr (by simp [hpc]))
  | post _ hpc => exact Or.inr (Or.inr (by simp [hpc]))

theorem Prompt.stay (h : Prompt s) (ha : Access s s')
    (hn : s'.hw.meter.nextState = s.hw.meter.nextState) (hm : s'.hw.meter.irq = false) :
    Prompt s' := by
  have hbusy : s.isr ≠ .out → s.hw.meter.irq = false := fun hne => by
    apply Bool.eq_false_of_not_eq_true
    intro hp
    exact hne (h.pulse hp).2
  cases ha with
  | @other i hi hpc =>
    have hirq : (s.edge i).hw.irq = true → s.isr = .out := fun hq => by
      rcases Access.active (.other hi hpc) hm (Or.inr (Or.inl hq)) with hp | hp | hp
      · exact (h.pulse hp).2
      · exact (h.irq hp).1
      · -- The routine is past its read, and the read cleared the interrupt.
        cases hisr : s.isr with
        | out => rfl
        | reading => exact absurd hisr hpc
        | posting c =>
          cases hr : i.read with
          | true => exact absurd (hq.symm.trans (RespReg.irq_read hr)) (by decide)
          | false =>
            have hor : (s.hw.meter.irq || s.hw.irq) = true :=
              (RespReg.irq_quiet hi hr).symm.trans hq
            rw [hbusy (by simp [hisr]), (h.posting c hisr).1] at hor
            cases hor
    exact
      { pulse := fun hp => absurd (hp.symm.trans hm) (by decide)
        irq := fun hq =>
          ⟨hirq hq, (RespReg.meter_state hi).trans (congrArg StateT.pos hn.symm)⟩
        reading := fun hr => absurd hr hpc
        posting := fun c hc => by
          refine ⟨?_, by rw [hn]; exact (h.posting c hc).2⟩
          cases hq : (s.edge i).hw.irq with
          | false => rfl
          | true => exact absurd ((hirq hq).symm.trans hc) (by simp) }
  | @startRead i hi hr haddr hpc hirq =>
    have hlow : (s.edge i).hw.irq = false := RespReg.irq_read hr
    exact
      { pulse := fun hp => absurd (hp.symm.trans hm) (by decide)
        irq := fun hq => absurd (hq.symm.trans hlow) (by decide)
        reading := fun _ => ⟨hlow, by
          refine (RespReg.readdata_state hi hr haddr).trans ?_
          rw [(h.irq hirq).2, ← hn]⟩
        posting := fun c hc => by cases hc }
  | @finishRead i hi hr hpc =>
    have hlow : (s.edge i).hw.irq = false := RespReg.irq_read hr
    exact
      { pulse := fun hp => absurd (hp.symm.trans hm) (by decide)
        irq := fun hq => absurd (hq.symm.trans hlow) (by decide)
        reading := fun hc => by cases hc
        posting := fun c hc => by
          cases hc
          exact ⟨hlow, by rw [(h.reading hpc).2, ← hn]⟩ }
  | @post i c hi hpc =>
    exact
      { pulse := fun hp => absurd (hp.symm.trans hm) (by decide)
        irq := fun hq =>
          ⟨rfl, (RespReg.meter_state hi).trans (congrArg StateT.pos hn.symm)⟩
        reading := fun hc => by cases hc
        posting := fun c hc => by cases hc }

theorem Prompt.step (h : Prompt s) (ha : Access s s') (hok : Served s s') : Prompt s' := by
  by_cases hn : s'.hw.meter.nextState = s.hw.meter.nextState
  · exact h.stay ha hn (ha.low_of_stay hn)
  · obtain ⟨hq, hout⟩ := ha.quiet hok hn
    exact
      { pulse := fun _ => ⟨hq, hout⟩
        irq := fun hq' => absurd (hq.symm.trans hq') (by decide)
        reading := fun hr => absurd (hout.symm.trans hr) (by simp)
        posting := fun c hc => absurd (hout.symm.trans hc) (by simp) }

theorem step_posting {b : BitVec 2} {op : BusOp} {c : BitVec 16} (hc : s.isr = .posting c)
    (hs : s.step (b, op) = some s') :
    (op = .isr ∧ s'.isr = .out) ∨ (op ≠ .isr ∧ s'.isr = .posting c) := by
  cases op <;> simp only [IrqSys.step, hc, Option.some.injEq] at hs <;> subst hs
  case isr => exact Or.inl ⟨rfl, rfl⟩
  all_goals exact Or.inr ⟨by simp, hc⟩

/-- An interrupt is pending or in service, and the access `op` does not end its service. -/
def Outstanding (s : IrqSys) (op : BusOp) : Prop :=
  Active s ∧ ¬ (op = .isr ∧ ∃ c, s.isr = .posting c)

/-- While the meter stays, only the post ends an interrupt. -/
theorem active_iff_outstanding {b : BitVec 2} {op : BusOp} (h : Prompt s)
    (hs : s.step (b, op) = some s') (hok : Served s s')
    (hn : s'.hw.meter.nextState = s.hw.meter.nextState) : Active s' ↔ Outstanding s op := by
  have ha := access_step hs
  have hm := ha.low_of_stay hn
  constructor
  · intro hact
    refine ⟨ha.active hm hact, ?_⟩
    intro hpost
    obtain ⟨rfl, c, hc⟩ := hpost
    rcases step_posting hc hs with ⟨-, hout⟩ | ⟨hne, -⟩
    · rcases hact with hp | hq | hne
      · exact absurd (hp.symm.trans hm) (by decide)
      · -- `irq` is low after the post, because it was low during the service.
        obtain ⟨hlow, -⟩ := h.posting c hc
        have hpulse : s.hw.meter.irq = false := by
          apply Bool.eq_false_of_not_eq_true
          intro hp
          exact absurd ((h.pulse hp).2.symm.trans hc) (by simp)
        simp only [IrqSys.step, hc, Option.some.injEq] at hs
        subst hs
        have hquiet : (s.hw.step { buttons := b }).irq = false := by
          rw [RespReg.irq_quiet rfl rfl, hpulse, hlow]; rfl
        exact absurd (hq.symm.trans hquiet) (by decide)
      · exact hne hout
    · exact hne rfl
  · intro hout
    obtain ⟨hact, hpost⟩ := hout
    have hpending : s.hw.meter.irq = true ∨ s.hw.irq = true → Active s' := fun hor => by
      rcases hok.kept hor with hq | hr
      · exact Or.inr (Or.inl hq)
      · exact Or.inr (Or.inr (by simp [hr]))
    rcases hact with hp | hq | hne
    · exact hpending (Or.inl hp)
    · exact hpending (Or.inr hq)
    · cases hisr : s.isr with
      | out => exact absurd hisr hne
      | reading =>
        cases ha with
        | other _ hpc | post _ hpc | startRead _ _ _ hpc => simp [hisr] at hpc
        | finishRead => exact Or.inr (Or.inr (by simp))
      | posting c =>
        rcases step_posting hisr hs with ⟨hop, -⟩ | ⟨-, hc⟩
        · exact absurd ⟨hop, c, hisr⟩ hpost
        · exact Or.inr (Or.inr (by simp [hc]))

end Steps

end IrqSys

end ReactionMeter
