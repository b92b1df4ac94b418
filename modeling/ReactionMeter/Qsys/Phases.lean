import ReactionMeter.Qsys.Waits

/-!
# The two state machines

The meter never waits for the task. Where the task is in COUNT the meter should be too, and
`phases_agree` says when it is: the task has to take the `start_counting_sem` token of a round
before the meter leaves the COUNT of that round (`Heard`). A token that outlives its COUNT is kept
by the semaphore, and starts the task's COUNT at some later time (`late_start`).
-/

namespace ReactionMeter

namespace Qsys

namespace Sys

/-- The meter leaves COUNT only when no `start_counting_sem` token is waiting. -/
def Heard (s s' : Sys) : Prop :=
  s.phase = .count → s'.phase ≠ .count → s'.sems.startCounting = []

instance (s s' : Sys) : Decidable (Heard s s') := by unfold Heard; infer_instance

/-- Interrupts are served in time, and every COUNT is heard. -/
def InStep (s s' : Sys) : Prop := Served s s' ∧ Heard s s'

instance (s s' : Sys) : Decidable (InStep s s') := by unfold InStep; infer_instance

theorem inStep_later {s : Sys} (h : Settled s) : InStep s (s.later 1) :=
  ⟨h.served, fun hc hn => absurd hc hn⟩

/-- A waiting token is of the COUNT the meter is in. -/
structure Agrees (s : Sys) : Prop where
  prompt : s.io.Prompt
  waiting : ∀ k ∈ s.sems.startCounting, k = s.round ∧ s.phase = .count

theorem agrees_init : Agrees {} where
  prompt := IrqSys.prompt_init _
  waiting := by intro k hk; cases hk

theorem Agrees.move {s t : Sys} {op : BusOp} (h : Agrees s) (hm : Move s t op) : Agrees t where
  prompt := by rw [hm.io]; exact h.prompt
  waiting := by
    intro k hk
    rw [hm.round, hm.phase]
    rcases hm.mem h.prompt (q := .startCounting) hk with hk | ⟨hq, hk, -⟩
    · exact h.waiting k hk
    · exact ⟨hk, hq.symm⟩

theorem Agrees.cycle {t s' : Sys} (h : Agrees t) (hc : Cycle t s') (hok : InStep t s') :
    Agrees s' where
  prompt := h.prompt.step hc.access hok.1
  waiting := by
    intro k hk
    have hk' : k ∈ t.sems.startCounting := hc.sems ▸ hk
    obtain ⟨hround, hcount⟩ := h.waiting k hk'
    have hstay : s'.phase = .count := by
      by_contra hn
      rw [hok.2 hcount hn] at hk
      cases hk
    cases hc.turn with
    | stay hp _ hr _ => exact ⟨hround.trans hr.symm, hstay⟩
    | start hp | timeout _ hp | idle hp | stop _ hp | advance hp => simp_all

theorem agrees_step {s s' : Sys} {a : Act} (h : Agrees s) (hs : s.step a = some s')
    (hok : InStep s s') : Agrees s' := by
  obtain ⟨t, op, hm, hc⟩ := move_step hs
  apply (h.move hm).cycle (cycle_cycle hc)
  simpa only [InStep, Served, Heard, hm.io, hm.phase] using hok

theorem reach_agrees {s : Sys} (h : Machine.Reach (Machine.restrict InStep step) {} s) :
    Agrees s := by
  refine h.invariant agrees_init fun s a s' hs ha => ?_
  obtain ⟨hstep, hok⟩ := Machine.restrict_eq_some.mp ha
  exact agrees_step hs hstep hok

/-- The only way into COUNT is a `start_counting_sem` token. -/
theorem enters_count {s t : Sys} {op : BusOp} (hm : Move s t op) (hst : s.pc.state ≠ .count)
    (hc : t.pc.state = .count) : t.played ∈ s.sems.startCounting := by
  cases hm with
  | takeCounting _ _ hs => rw [hs]; exact List.mem_cons_self
  | quiet hq =>
    rcases hq with ⟨rfl, -⟩ | ⟨-, -, hq | ⟨hq, -⟩⟩
    · exact absurd hc hst
    · exact absurd (hq.symm.trans hc) hst
    · exact absurd hq hst
  | access | post => exact absurd hc hst
  | takeStop hpc | latch hpc | fetch hpc | judge hpc => rw [hpc] at hst; exact absurd rfl hst
  | takeStart | takeRestart => cases hc

/-- **Phase agreement.** In every run in which interrupts are served in time and every COUNT is
heard, the task enters COUNT only while the meter is in COUNT, and of the same round. -/
theorem phases_agree {s s' : Sys} {a : Act}
    (hr : Machine.Reach (Machine.restrict InStep step) {} s)
    (hs : Machine.restrict InStep step s a = some s')
    (hst : s.pc.state ≠ .count) (hc : s'.pc.state = .count) :
    s.phase = .count ∧ s'.played = s.round := by
  obtain ⟨hstep, -⟩ := Machine.restrict_eq_some.mp hs
  obtain ⟨t, op, hm, hcyc⟩ := move_step hstep
  have hcyc := cycle_cycle hcyc
  have hmem := enters_count hm hst (hcyc.pc ▸ hc)
  obtain ⟨hk, hcount⟩ := (reach_agrees hr).waiting _ hmem
  exact ⟨hcount, hcyc.played.trans hk⟩

/-! ## A round that is heard, and one that is not -/

/-- The task has its name, and takes the token of the first round. -/
def namedStart : List Act :=
  { cpu := .console } :: taskSteps noKey 2 ++ serviced startKey ++ taskSteps startKey 2 ++
    serviced noKey

/-- The meter is in COUNT, and the task at `OSSemPend(start_counting_sem, 0)`. -/
def namedCount : Sys := playTo InStep (.acts namedStart :: delayOver)

theorem phases_agree_named :
    (playTo InStep (.acts namedStart :: delayOver ++ [.acts (taskSteps noKey 1)])).pc.state =
        .count ∧
      namedCount.phase = .count ∧
      (playTo InStep (.acts namedStart :: delayOver ++ [.acts (taskSteps noKey 1)])).played =
        namedCount.round := by
  have hr : Machine.Reach (Machine.restrict InStep step) {} namedCount :=
    playTo_reach (fun _ => inStep_later) (by decide +kernel)
  have hlast : Machine.restrict InStep step namedCount ⟨noKey, .task⟩ =
      some (playTo InStep (.acts namedStart :: delayOver ++ [.acts (taskSteps noKey 1)])) := by
    decide +kernel
  have hst : (playTo InStep (.acts namedStart :: delayOver ++
      [.acts (taskSteps noKey 1)])).pc.state = .count := by decide +kernel
  exact ⟨hst, phases_agree hr hlast (by decide +kernel) hst⟩

/-- The first round begins while the task waits for a name. -/
def unnamedStart : List Act := taskSteps noKey 1 ++ serviced startKey ++ serviced noKey

/-- The meter counts, the response button goes down, and only then a name arrives: the task takes
the `start_sem` token of this round, and gets to `OSSemPend(start_counting_sem, 0)`. -/
def lateName : List Act := serviced respKey ++ ⟨respKey, .console⟩ :: taskSteps respKey 3

def lateTask : Sys := playTo Served (.acts unnamedStart :: delayOver ++ [.acts lateName])

/-- Prompt service alone is not enough: with the response button held, the task enters COUNT while
the meter is in STOP. -/
theorem phases_disagree :
    ¬ ∀ (s s' : Sys) (a : Act), Machine.Reach (Machine.restrict Served step) {} s →
      Machine.restrict Served step s a = some s' →
      s.pc.state ≠ .count → s'.pc.state = .count → s.phase = .count ∧ s'.played = s.round := by
  intro hall
  have hr : Machine.Reach (Machine.restrict Served step) {} lateTask :=
    playTo_reach (fun _ => Settled.served) (by decide +kernel)
  have hlast : Machine.restrict Served step lateTask ⟨respKey, .task⟩ =
      some (playTo Served (.acts unnamedStart :: delayOver ++
        [.acts (lateName ++ taskSteps respKey 1)])) := by decide +kernel
  have hstop : lateTask.phase = .stop := by decide +kernel
  obtain ⟨hcount, -⟩ := hall _ _ _ hr hlast (by decide +kernel) (by decide +kernel)
  exact absurd (hstop.symm.trans hcount) (by decide)

end Sys

end Qsys

end ReactionMeter
