import ReactionMeter.Qsys.Phases

/-!
# Whose time is shown

The task takes a `start_counting_sem` token, a `stop_sem` token, and the value of a register that
the meter overwrites in every round. Nothing in the code ties the three together. `Values` follows
the value from the meter to `response_time`; `Attributed` follows the round numbers.

`score_attributed` gives the condition under which all three are of one round: when a round begins,
no token of `start_counting_sem` or `stop_sem` is left over and the task is not still in COUNT
(`CleanStart`).
-/

namespace ReactionMeter

namespace Qsys

namespace Sys

/-! ## The value -/

/-- What the history `read` and `measured` says about the values in the registers. -/
structure Values (s : Sys) : Prop where
  measured : s.measured.2 = s.io.hw.meter.respTime
  bound : s.measured.2 < 2 ^ 16
  judged : ∀ c, s.pc = .judge c → c.toNat = s.read.2
  shown : s.pc.state = .stop → s.vars.responseTime = s.read.2

/-- Between the two edges of its read, the slave holds what the task is going to get. -/
def Latched (s : Sys) : Prop :=
  s.pc = .readTime2 → s.io.hw.readdata = BitVec.ofNat 16 s.read.2 ∧ s.read.2 < 2 ^ 16

theorem values_init : Values {} where
  measured := rfl
  bound := by decide
  judged := by intro c h; cases h
  shown := by intro h; cases h

theorem toNat_of_latched {v : ℕ} (h : v < 2 ^ 16) : (BitVec.ofNat 16 v).toNat = v := by
  rw [BitVec.toNat_ofNat, Nat.mod_eq_of_lt h]

/-- A move that does not enter STOP shows what it showed. -/
theorem Values.move {s t : Sys} {op : BusOp} (h : Values s) (hl : Latched s) (hm : Move s t op) :
    Values t where
  measured := by rw [hm.measured, hm.io]; exact h.measured
  bound := by rw [hm.measured]; exact h.bound
  judged := by
    intro c hc
    cases hm with
    | quiet hq =>
      rcases hq with ⟨rfl, -⟩ | ⟨-, hn, -⟩
      · exact h.judged c hc
      · exact absurd (TaskPc.reads_of_eq hc trivial) hn
    | access | post => exact h.judged c hc
    | fetch hpc =>
      obtain ⟨hdata, hlt⟩ := hl hpc
      cases hc
      rw [hdata]
      exact toNat_of_latched hlt
    | judge => simp only at hc; split_ifs at hc
    | takeStart | takeCounting | takeStop | latch | takeRestart => cases hc
  shown := by
    intro hst
    cases hm with
    | quiet hq hv =>
      refine hv.trans (h.shown ?_)
      rcases hq with ⟨rfl, -⟩ | ⟨-, -, hq | ⟨-, rfl⟩⟩
      · exact hst
      · exact hq ▸ hst
      · cases hst
    | access _ hv | post _ hv => exact hv.trans (h.shown hst)
    | judge hpc => exact h.judged _ hpc
    | takeStart | takeCounting | takeStop | latch | fetch | takeRestart => cases hst

theorem Values.cycle {t s' : Sys} {b : BitVec 2} {op : BusOp} (h : Values t)
    (hc : t.cycle b op = some s') : Values s' := by
  obtain ⟨io, hio, rfl⟩ := cycle_eq hc
  have hedge := (IrqSys.access_step hio).meter
  have hnew : (if t.phase = .count ∧ io.hw.meter.nextState = .stop
      then (t.round, io.hw.meter.respTime) else t.measured).2 = io.hw.meter.respTime ∧
      io.hw.meter.respTime < 2 ^ 16 := by
    have hold : t.io.hw.meter.respTime < 2 ^ 16 := h.measured ▸ h.bound
    cases hedge with
    | stop hs hn _ ht hr =>
      rw [if_pos ⟨hs, hn⟩]
      refine ⟨rfl, ?_⟩
      rw [hr]
      have ht' : t.io.hw.meter.tick + 1 < 150000000 := ht
      show (t.io.hw.meter.tick + 1) / 50000 < 2 ^ 16
      omega
    | stay hn _ hr | start _ hn _ hr | delay _ hn _ hr | count _ hn _ hr | timeout _ hn _ hr
    | idle _ hn _ hr =>
      rw [hr]
      refine ⟨?_, hold⟩
      split_ifs
      · rfl
      · exact h.measured
  exact ⟨hnew.1, hnew.1.trans_lt hnew.2, h.judged, h.shown⟩

/-- The first edge of the task's read latches the response time. -/
theorem latched_step {s s' : Sys} {a : Act} (h : Values s) (hs : s.step a = some s') :
    Latched s' := by
  obtain ⟨t, op, hm, hc⟩ := move_step hs
  obtain ⟨io, hio, rfl⟩ := cycle_eq hc
  intro hpc
  cases hm with
  | latch _ hisr =>
    simp only [IrqSys.step, hisr, Option.some.injEq] at hio
    subst hio
    refine ⟨?_, h.bound⟩
    rw [h.measured]
    exact RespReg.readdata_respTime rfl rfl rfl
  | quiet hq =>
    rcases hq with ⟨rfl, hne⟩ | ⟨-, hn, -⟩
    · exact absurd hpc hne
    · exact absurd (TaskPc.reads_of_eq hpc trivial) hn
  | access hne | post hne => exact absurd hpc hne
  | judge => simp only at hpc; split_ifs at hpc
  | takeStart | takeCounting | takeStop | fetch | takeRestart => cases hpc

theorem reach_values {s : Sys} {ok : Sys → Sys → Prop} [∀ s s', Decidable (ok s s')]
    (h : Machine.Reach (Machine.restrict ok step) {} s) : Values s ∧ Latched s := by
  refine h.invariant (P := fun s => Values s ∧ Latched s)
    ⟨values_init, fun h => by cases h⟩ fun s a s' hs ha => ?_
  obtain ⟨hstep, -⟩ := Machine.restrict_eq_some.mp ha
  obtain ⟨t, op, hm, hc⟩ := move_step hstep
  exact ⟨(hs.1.move hs.2 hm).cycle hc, latched_step hs.1 hstep⟩

/-! ## The round -/

/-- A round begins only when the task is done with the tokens of the rounds before it. -/
def CleanStart (s s' : Sys) : Prop :=
  s.phase = .idle → s'.phase = .start →
    s'.sems.startCounting = [] ∧ s'.sems.stop = [] ∧ s'.pc.state ≠ .count

instance (s s' : Sys) : Decidable (CleanStart s s') := by unfold CleanStart; infer_instance

/-- Interrupts are served in time, and every round starts clean. -/
def Clean (s s' : Sys) : Prop := Served s s' ∧ CleanStart s s'

instance (s s' : Sys) : Decidable (Clean s s') := by unfold Clean; infer_instance

theorem clean_later {s : Sys} (h : Settled s) : Clean s (s.later 1) :=
  ⟨h.served, fun hi hs => absurd (hi.symm.trans hs) (by decide)⟩

/-- Everything the task has in hand is of the current round. -/
structure Attributed (s : Sys) : Prop where
  prompt : s.io.Prompt
  stopped : s.phase = .stop → s.measured.1 = s.round
  waiting : ∀ k ∈ s.sems.startCounting, k = s.round
  playing : s.pc.state = .count → s.played = s.round
  answered : ∀ k ∈ s.sems.stop, s.measured.1 = s.round
  reading : s.pc.reads → s.measured.1 = s.round
  read : s.pc.reads → s.pc ≠ .readTime → s.read.1 = s.round

theorem attributed_init : Attributed {} where
  prompt := IrqSys.prompt_init _
  stopped := by intro h; cases h
  waiting := by intro k hk; cases hk
  playing := by intro h; cases h
  answered := by intro k hk; cases hk
  reading := False.elim
  read := False.elim

theorem Attributed.move {s t : Sys} {op : BusOp} (h : Attributed s) (hm : Move s t op) :
    Attributed t where
  prompt := by rw [hm.io]; exact h.prompt
  stopped := by rw [hm.phase, hm.measured, hm.round]; exact h.stopped
  waiting := by
    intro k hk
    rw [hm.round]
    rcases hm.mem h.prompt (q := .startCounting) hk with hk | ⟨-, hk, -⟩
    · exact h.waiting k hk
    · exact hk
  playing := by
    intro hc
    rw [hm.round]
    cases hm with
    | quiet hq =>
      rcases hq with ⟨rfl, -⟩ | ⟨-, -, hq | ⟨-, rfl⟩⟩
      · exact h.playing hc
      · exact h.playing (hq ▸ hc)
      · cases hc
    | access | post => exact h.playing hc
    | takeCounting _ _ hs => exact h.waiting _ (hs ▸ List.mem_cons_self)
    | takeStop hpc | latch hpc | fetch hpc | judge hpc => exact h.playing (by rw [hpc]; rfl)
    | takeStart | takeRestart => cases hc
  answered := by
    intro k hk
    rw [hm.measured, hm.round]
    rcases hm.mem h.prompt (q := .stop) hk with hk | ⟨hq, -⟩
    · exact h.answered k hk
    · exact h.stopped hq.symm
  reading := by
    intro hr
    rw [hm.measured, hm.round]
    cases hm with
    | quiet hq =>
      rcases hq with ⟨rfl, -⟩ | ⟨-, hn, -⟩
      · exact h.reading hr
      · exact absurd hr hn
    | access | post => exact h.reading hr
    | takeStop _ hs => exact h.answered _ (hs ▸ List.mem_cons_self)
    | latch hpc | fetch hpc => exact h.reading (by rw [hpc]; trivial)
    | judge => simp only at hr; split_ifs at hr <;> cases hr
    | takeStart | takeCounting | takeRestart => cases hr
  read := by
    intro hr hne
    rw [hm.round]
    cases hm with
    | quiet hq =>
      rcases hq with ⟨rfl, -⟩ | ⟨-, hn, -⟩
      · exact h.read hr hne
      · exact absurd hr hn
    | access | post => exact h.read hr hne
    | takeStop => exact absurd rfl hne
    | latch hpc => exact h.reading (by rw [hpc]; trivial)
    | fetch hpc => exact h.read (by rw [hpc]; trivial) (by simp [hpc])
    | judge => simp only at hr; split_ifs at hr <;> cases hr
    | takeStart | takeCounting | takeRestart => cases hr

theorem Attributed.cycle {t s' : Sys} (h : Attributed t) (hc : Cycle t s') (hok : Clean t s') :
    Attributed s' := by
  have hprompt := h.prompt.step hc.access hok.1
  rcases hc.turn.round_cases with ⟨hp, hp'⟩ | ⟨hround, hmeas⟩
  · -- A new round: nothing of the old one is left.
    obtain ⟨hcounting, hstop, hpc⟩ := hok.2 hp hp'
    exact
      { prompt := hprompt
        stopped := fun h => by rw [hp'] at h; cases h
        waiting := fun k hk => by rw [hcounting] at hk; cases hk
        playing := fun hc => absurd hc hpc
        answered := fun k hk => by rw [hstop] at hk; cases hk
        reading := fun hr => absurd (TaskPc.state_of_reads hr) hpc
        read := fun hr => absurd (TaskPc.state_of_reads hr) hpc }
  · exact
      { prompt := hprompt
        stopped := fun hp => by
          cases hc.turn with
          | stay hst _ _ _ => exact hmeas (h.stopped (hst ▸ hp))
          | stop _ _ hr hm => exact hm.trans hr.symm
          | start _ hp' | timeout _ hp' | idle _ hp' => rw [hp'] at hp; cases hp
          | advance hpp => simp_all
        waiting := fun k hk => (h.waiting k (hc.sems ▸ hk)).trans hround.symm
        playing := fun hst => by rw [hc.played, hround]; exact h.playing (hc.pc ▸ hst)
        answered := fun k hk => hmeas (h.answered k (hc.sems ▸ hk))
        reading := fun hr => hmeas (h.reading (hc.pc ▸ hr))
        read := fun hr hne => by
          rw [hc.read, hround]
          exact h.read (hc.pc ▸ hr) (hc.pc ▸ hne) }

theorem reach_attributed {s : Sys} (h : Machine.Reach (Machine.restrict Clean step) {} s) :
    Attributed s := by
  refine h.invariant attributed_init fun s a s' hs ha => ?_
  obtain ⟨hstep, hok⟩ := Machine.restrict_eq_some.mp ha
  obtain ⟨t, op, hm, hc⟩ := move_step hstep
  apply (hs.move hm).cycle (cycle_cycle hc)
  simpa only [Clean, Served, CleanStart, hm.io, hm.phase] using hok

/-- The only way from COUNT to STOP is a response that is judged. -/
theorem leaves_count {s t : Sys} {op : BusOp} (hm : Move s t op) (hc : s.pc.state = .count)
    (hst : t.pc.state = .stop) :
    ∃ c, s.pc = .judge c ∧ t.vars.responseTime = c.toNat ∧ t.read = s.read ∧
      t.played = s.played := by
  cases hm with
  | @judge c hpc => exact ⟨c, hpc, rfl, rfl, rfl⟩
  | quiet hq =>
    rcases hq with ⟨rfl, -⟩ | ⟨-, -, hq | ⟨-, rfl⟩⟩ <;> simp_all [TaskPc.state]
  | access | post => simp_all
  | takeStart | takeCounting | takeStop | latch | fetch | takeRestart => cases hst

/-- **Score attribution.** In every run in which interrupts are served in time and every round
starts clean, a response time the task accepts is the one the meter measured in the round whose
`start_counting_sem` token the task took. -/
theorem score_attributed {s s' : Sys} {a : Act}
    (hr : Machine.Reach (Machine.restrict Clean step) {} s)
    (hs : Machine.restrict Clean step s a = some s')
    (hc : s.pc.state = .count) (hst : s'.pc.state = .stop) :
    s'.read.1 = s'.played ∧ s'.vars.responseTime = s'.read.2 := by
  obtain ⟨hstep, -⟩ := Machine.restrict_eq_some.mp hs
  obtain ⟨t, op, hm, hcyc⟩ := move_step hstep
  have hcyc := cycle_cycle hcyc
  obtain ⟨c, hpc, hresp, hread, hplayed⟩ := leaves_count hm hc (hcyc.pc ▸ hst)
  have hatt := reach_attributed hr
  have hround : s.read.1 = s.round :=
    hatt.read (TaskPc.reads_of_eq hpc trivial) (by simp [hpc])
  rw [hcyc.read, hcyc.played, hcyc.vars, hresp, hread, hplayed]
  exact ⟨hround.trans (hatt.playing hc).symm, (reach_values hr).1.judged c hpc⟩

/-! ## A clean round, and two rounds nobody plays -/

/-- The named player's round: the response comes after 80 ms, and the task reads it. -/
def answeredRound : List Leg :=
  .acts namedStart :: delayOver ++
    [.acts (taskSteps noKey 2), .wait eightyMs, .acts (serviced respKey ++ taskSteps respKey 3)]

def answered : Sys := playTo Clean answeredRound

def accepted : Sys := playTo Clean (answeredRound ++ [.acts (taskSteps respKey 1)])

theorem score_attributed_eighty :
    accepted.pc.state = .stop ∧ accepted.vars.responseTime = 80 ∧
      accepted.read.1 = accepted.played ∧ accepted.vars.responseTime = accepted.read.2 := by
  have hr : Machine.Reach (Machine.restrict Clean step) {} answered :=
    playTo_reach (fun _ => clean_later) (by decide +kernel)
  have hlast : Machine.restrict Clean step answered ⟨respKey, .task⟩ = some accepted := by
    decide +kernel
  have hst : accepted.pc.state = .stop := by decide +kernel
  exact ⟨hst, by decide +kernel, score_attributed hr hlast (by decide +kernel) hst⟩

/-- A whole round and most of a second one are over while the task waits for a name. -/
def twoRounds : List Leg :=
  .acts unnamedStart :: delayOver ++
    .acts (serviced respKey ++ serviced noKey ++ serviced startKey ++ serviced noKey) ::
    delayOver ++ [.wait eightyMs, .acts (serviced respKey)]

/-- A name arrives, and the task works through the tokens of the first round. -/
def belatedName : List Act := ⟨respKey, .console⟩ :: taskSteps respKey 8

def belated : Sys := playTo Served (twoRounds ++ [.acts belatedName])

def misattributed : Sys :=
  playTo Served (twoRounds ++ [.acts (belatedName ++ taskSteps respKey 1)])

/-- Prompt service alone is not enough: the response of the second round is accepted as the score
of the first. -/
theorem score_misattributed :
    ¬ ∀ (s s' : Sys) (a : Act), Machine.Reach (Machine.restrict Served step) {} s →
      Machine.restrict Served step s a = some s' →
      s.pc.state = .count → s'.pc.state = .stop →
      s'.read.1 = s'.played ∧ s'.vars.responseTime = s'.read.2 := by
  intro hall
  have hr : Machine.Reach (Machine.restrict Served step) {} belated :=
    playTo_reach (fun _ => Settled.served) (by decide +kernel)
  have hlast : Machine.restrict Served step belated ⟨respKey, .task⟩ = some misattributed := by
    decide +kernel
  obtain ⟨hround, -⟩ := hall _ _ _ hr hlast (by decide +kernel) (by decide +kernel)
  have hread : misattributed.read.1 = 2 := by decide +kernel
  have hplayed : misattributed.played = 1 := by decide +kernel
  rw [hread, hplayed] at hround
  cases hround

end Sys

end Qsys

end ReactionMeter
