import ReactionMeter.Game
import ReactionMeter.Qsys.Scores
import ReactionMeter.Rtos.Scores

/-!
# The high score of both applications

Each `reaction_meter` task is a `Task`, and each of its steps a `Deed` (`Qsys.deed_taskStep`,
`Rtos.deed_taskStep`), so both keep the record (`highscore_kept`).

The runs of `Plays` leave everything around the task open. `Qsys.plays_of_reach` and
`Rtos.plays_after` say that the runs of the two systems are among them.
-/

namespace ReactionMeter

namespace Vars

theorem judgeScore_spec (v : Vars) :
    v.judgeScore.1.highscore = min v.highscore v.responseTime ∧
      v.judgeScore.1.responseTime = v.responseTime ∧ v.judgeScore.1.leds = v.leds ∧
      v.judgeScore.1.ports.leds = v.ports.leds ∧
      v.judgeScore.2 = decide (v.responseTime < v.highscore) := by
  unfold judgeScore
  by_cases h : v.responseTime < v.highscore
  · simp [h, showScore, Nat.min_eq_right h.le]
  · simp [h, showScore, Nat.min_eq_left (Nat.le_of_not_lt h)]

end Vars

/-! ## Qsys -/

namespace Qsys

/-- The stage of a place. -/
def TaskPc.stage : TaskPc → Stage
  | .idle => .home
  | .register | .ready => .shown
  | .start | .armed | .count _ | .pendStop _ _ | .readTime | .readTime2 | .judge _ => .playing
  | .stop => .judge
  | .pendRestart _ newHighscore => .result newHighscore

/-- The task, as long as the response times it reads are below 65535. -/
def task : Task Sys TaskPc where
  boot := {}
  pc := Sys.pc
  vars := Sys.vars
  stage := TaskPc.stage
  step s t := (∃ op, s.taskStep = some (t, op)) ∧ ∀ value, s.pc = .judge value → value.toNat < 65535

theorem deed_taskStep {s t : Sys} {op : BusOp} (h : s.taskStep = some (t, op))
    (hread : ∀ value, s.pc = .judge value → value.toNat < 65535) :
    Deed s.vars t.vars s.pc.stage t.pc.stage := by
  cases taskStep_cases h with
  | home hpc hnext =>
    rw [hpc, hnext]
    split_ifs
    · exact .home rfl rfl
    · exact .home rfl rfl
  | register hpc => rw [hpc]; exact .wait rfl rfl
  | takeStart hpc => rw [hpc]; exact .start rfl
  | start hpc | takeCounting hpc | pass hpc | takeStop hpc | timeout hpc | latch hpc | fetch hpc =>
    rw [hpc]
    exact .play rfl
  | expire hpc => rw [hpc]; exact .void rfl
  | @judge value hpc =>
    rw [hpc]
    by_cases hmin : minRespTime ≤ value.toNat
    · simp only [hmin, if_true]
      exact .accept rfl hmin (hread value hpc)
    · simp only [hmin, if_false]
      exact .void rfl
  | stop hpc =>
    obtain ⟨hh, hr, hl, hp, hflag⟩ := (s.vars.measure States.stop.index).judgeScore_spec
    rw [hpc, hflag]
    exact .judge hh hr hl hp
  | takeRestart hpc => rw [hpc]; exact .again rfl rfl rfl
  | @wait deadline newHighscore hpc =>
    rw [hpc]
    cases newHighscore with
    | true => exact .rotate rfl rfl
    | false => exact .hold rfl rfl rfl rfl

theorem doesDeeds : task.DoesDeeds fun _ => True where
  boot := ⟨rfl, rfl⟩
  good_boot := trivial
  good_step := fun _ _ _ _ => trivial
  deed := fun _ _ _ hs => by
    obtain ⟨⟨op, hstep⟩, hread⟩ := hs
    exact deed_taskStep hstep hread

/-- The values the task reads are response times of the meter. -/
structure Low (s : Sys) : Prop where
  values : s.Values
  latched : s.Latched
  respTime : s.io.hw.meter.respTime < 3000
  read : s.read.2 < 3000

theorem low_init : Low {} := ⟨Sys.values_init, (fun h => by cases h), by decide, by decide⟩

theorem Low.step {s s' : Sys} {a : Act} (h : Low s) (hs : s.step a = some s') : Low s' := by
  obtain ⟨t, op, hm, hc⟩ := move_step hs
  have hcycle := cycle_cycle hc
  refine ⟨(h.values.move h.latched hm).cycle hc, Sys.latched_step h.values hs, ?_, ?_⟩
  · have hold : t.io.hw.meter.respTime < 3000 := by rw [hm.io]; exact h.respTime
    cases hcycle.access.meter with
    | stop _ _ _ ht hr =>
      have ht' : t.io.hw.meter.tick + 1 < 150000000 := ht
      rw [hr]
      show (t.io.hw.meter.tick + 1) / 50000 < 3000
      omega
    | stay _ _ hr | start _ _ _ hr | delay _ _ _ hr | count _ _ _ hr | timeout _ _ _ hr
    | idle _ _ _ hr =>
      rw [hr]
      exact hold
  · rw [hcycle.read]
    cases hm with
    | latch =>
      show s.measured.2 < 3000
      rw [h.values.measured]
      exact h.respTime
    | quiet | access | post | takeStart | takeCounting | takeStop | fetch | judge | takeRestart =>
      exact h.read

/-- A cycle of the system leaves the task alone, or is a step of it with the edge of the clock. -/
theorem others_or_task {s s' : Sys} {a : Act} (hs : s.step a = some s') :
    task.Others s s' ∨ ∃ t op, s.taskStep = some (t, op) ∧ task.Others t s' := by
  have hedge : ∀ {t : Sys} {b : BitVec 2} {op : BusOp}, t.cycle b op = some s' →
      s'.pc = t.pc ∧ s'.vars = t.vars := fun hc => ⟨(cycle_cycle hc).pc, (cycle_cycle hc).vars⟩
  obtain ⟨b, cpu⟩ := a
  cases cpu with
  | stall =>
    simp only [Sys.step] at hs
    split_ifs at hs
    exact Or.inl ⟨(hedge hs).1, Or.inl (hedge hs).2⟩
  | isr =>
    simp only [Sys.step] at hs
    split_ifs at hs
    obtain ⟨hpc, hvars⟩ := hedge hs
    -- The routine writes the measurement port on its way out.
    unfold Sys.serve at hpc hvars
    cases hisr : s.io.isr with
    | out | reading =>
      rw [hisr] at hpc hvars
      exact Or.inl ⟨hpc, Or.inl hvars⟩
    | posting c =>
      rw [hisr] at hpc hvars
      exact Or.inl ⟨hpc, Or.inr ⟨c.toNat, hvars⟩⟩
  | task =>
    simp only [Sys.step] at hs
    split_ifs at hs
    obtain ⟨⟨t, op⟩, ht, hc⟩ := Option.bind_eq_some_iff.mp hs
    exact Or.inr ⟨t, op, ht, (hedge hc).1, Or.inl (hedge hc).2⟩
  | console =>
    simp only [Sys.step] at hs
    split_ifs at hs
    exact Or.inl ⟨(hedge hs).1, Or.inl (hedge hs).2⟩

/-- A run of the system is a run of its task. -/
theorem plays_of_reach {s : Sys} (h : Machine.Reach Sys.step {} s) :
    ∃ accepted, task.Plays s accepted := by
  suffices hgo : Low s ∧ ∃ accepted, task.Plays s accepted from hgo.2
  refine h.invariant (P := fun s => Low s ∧ ∃ accepted, task.Plays s accepted)
    ⟨low_init, [], .boot⟩ ?_
  rintro s a s' ⟨hlow, accepted, hplays⟩ hs
  refine ⟨hlow.step hs, ?_⟩
  rcases others_or_task hs with ho | ⟨t, op, ht, ho⟩
  · exact ⟨accepted, hplays.others ho⟩
  · refine ⟨_, (hplays.step ⟨⟨op, ht⟩, fun value hpc => ?_⟩).others ho⟩
    rw [hlow.values.judged value hpc]
    exact hlow.read.trans (by decide)

end Qsys

/-! ## RTOS -/

namespace Rtos

/-- The stage of a place. -/
def TaskPc.stage : TaskPc → Stage
  | .idle => .home
  | .register | .ready => .shown
  | .start | .pollStart | .waitStart _ | .delay | .delayWait _ _ | .cheatCheck _ | .count _
  | .pendStop _ _ => .playing
  | .stop => .judge
  | .pollStop newHighscore | .waitStop newHighscore _ => .result newHighscore

/-- The task. -/
def task (rand : ℕ → ℕ) : Task Sys TaskPc where
  boot := {}
  pc := Sys.pc
  vars := Sys.vars
  stage := TaskPc.stage
  step s t := s.taskStep rand = some t

/-- The loop in COUNT is inside its bound where it pends. -/
def Bounded (pc : TaskPc) : Prop :=
  ∀ time deadline, pc = .pendStop time deadline → time < respTimeout

variable {rand : ℕ → ℕ} {s t : Sys}

theorem bounded_taskStep (h : s.taskStep rand = some t) : Bounded t.pc := by
  intro time deadline hpc
  have hcount : t.pc.state = .count := by rw [hpc]; rfl
  cases Sys.move_taskStep h with
  | away hc => exact absurd hcount hc
  | begin | timeout | accept => cases hpc
  | pass _ hlt => cases hpc; exact hlt

theorem Sys.fillLeds_highscore (v : Vars) (time : ℕ) :
    (Sys.fillLeds v time).highscore = v.highscore := by
  unfold Sys.fillLeds
  split_ifs <;> rfl

theorem deed_taskStep (hb : Bounded s.pc) (h : s.taskStep rand = some t) :
    Deed s.vars t.vars s.pc.stage t.pc.stage := by
  cases Sys.taskStep_cases h with
  | home hpc hv | homeReady hpc hv =>
    rw [hpc, hv]
    exact .home rfl rfl
  | register hpc => rw [hpc]; exact .wait rfl rfl
  | takeStart hpc => rw [hpc]; exact .start rfl
  | start hpc | held hpc | letGo hpc | again hpc | delay hpc | delayed hpc | cheat hpc | count hpc
  | timeout hpc =>
    rw [hpc]
    exact .play rfl
  | @pass time hpc =>
    rw [hpc]
    exact .play (Sys.fillLeds_highscore s.vars time)
  | expire hpc | tooFast hpc => rw [hpc]; exact .void rfl
  | @accept time deadline k ts hpc hs hmin =>
    rw [hpc]
    exact .accept rfl hmin ((hb time deadline hpc).trans (by decide))
  | stop hpc =>
    obtain ⟨hh, hr, hl, hp, hflag⟩ := (s.vars.measure States.stop.index).judgeScore_spec
    rw [hpc, hflag]
    exact .judge hh hr hl hp
  | hold hpc => rw [hpc]; exact .hold rfl rfl rfl rfl
  | restart hpc => rw [hpc]; exact .again rfl rfl rfl
  | @wait newHighscore deadline hpc =>
    rw [hpc]
    cases newHighscore with
    | true => exact .rotate rfl rfl
    | false => exact .hold rfl rfl rfl rfl

theorem doesDeeds (rand : ℕ → ℕ) : (task rand).DoesDeeds Bounded where
  boot := ⟨rfl, rfl⟩
  good_boot := fun _ _ hpc => by cases hpc
  good_step := fun _ _ _ hs => bounded_taskStep hs
  deed := fun _ _ hb hs => deed_taskStep hb hs

theorem TaskPc.stops_stage (pc : TaskPc) : pc.stage.stops ↔ pc.state = .stop := by
  cases pc <;> simp [stage, state, Stage.stops]

/-- The response times STOP was entered with, in the history of visits. -/
def Sys.stops (s : Sys) : List ℕ := (s.visits.filter fun visit => visit.1 = .stop).map Prod.snd

theorem stops_record (hd : Deed s.vars t.vars s.pc.stage t.pc.stage) :
    (Sys.record s t).stops =
      if t.pc.stage = .judge then s.stops ++ [t.vars.responseTime] else s.stops := by
  by_cases hstop : t.pc.state = .stop
  · have henters := hd.enters (t.pc.stops_stage.mpr hstop)
    rw [s.pc.stops_stage] at henters
    by_cases hjudge : t.pc.stage = .judge
    · have hne : States.stop ≠ s.pc.state := fun h => henters.mp hjudge h.symm
      rw [if_pos hjudge]
      simp [Sys.stops, Sys.record, hne, hstop]
    · have heq : t.pc.state = s.pc.state :=
        hstop.trans (not_not.mp (mt henters.mpr hjudge)).symm
      rw [if_neg hjudge]
      simp [Sys.stops, Sys.record, heq]
  · have hjudge : t.pc.stage ≠ .judge := fun h =>
      hstop (t.pc.stops_stage.mp (by rw [h]; trivial))
    rw [if_neg hjudge]
    unfold Sys.stops Sys.record
    by_cases heq : t.pc.state = s.pc.state
    · simp [heq]
    · simp [heq, hstop]

/-- An event leaves the task alone, or is a step of it. -/
theorem others_or_task (s : Sys) (e : Event) :
    (task rand).Others s (s.step rand e) ∨
      ∃ t, s.taskStep rand = some t ∧ s.step rand e = Sys.record s t := by
  cases e with
  | isr pin =>
    refine Or.inl ⟨(s.buttonIsr_frame pin).1, Or.inl ?_⟩
    show (s.buttonIsr pin).vars = s.vars
    unfold Sys.buttonIsr
    split_ifs <;> rfl
  | tick | pins | console => exact Or.inl ⟨rfl, Or.inl rfl⟩
  | task =>
    unfold Sys.step Sys.react
    cases ht : s.taskStep rand with
    | none => exact Or.inl ⟨rfl, Or.inl rfl⟩
    | some t => exact Or.inr ⟨t, rfl, rfl⟩

/-- A run of the system is a run of its task. -/
theorem plays_after (rand : ℕ → ℕ) (es : List Event) :
    (task rand).Plays (Sys.after rand es) (Sys.after rand es).stops := by
  refine List.reverseRecOn es .boot fun es e ih => ?_
  have hgen : Sys.Genuine (Sys.after rand es) := Sys.genuine_after es
  rw [Sys.after_concat rand]
  generalize Sys.after rand es = s at ih hgen
  rcases others_or_task s e with ho | ⟨t, ht, hs⟩
  · have hstops : (s.step rand e).stops = s.stops := by
      have hpc : (s.react rand e).pc = s.pc := ho.1
      simp [Sys.stops, Sys.step, Sys.record, hpc]
    rw [hstops]
    exact ih.others ho
  · have hd := deed_taskStep (fun time deadline hpc => (hgen.waiting time deadline hpc).2) ht
    rw [hs, stops_record hd]
    exact (ih.step ht).others ⟨rfl, Or.inl rfl⟩

end Rtos

/-- **The high score.** Whatever happens around them, both tasks keep the record. -/
theorem highscore_kept : Qsys.task.KeepsRecord ∧ ∀ rand, (Rtos.task rand).KeepsRecord :=
  ⟨Qsys.doesDeeds.keepsRecord, fun rand => (Rtos.doesDeeds rand).keepsRecord⟩

end ReactionMeter
