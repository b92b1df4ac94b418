import ReactionMeter.Displays
import ReactionMeter.Highscore
import ReactionMeter.Turns

/-!
# Tries and registrations of both applications

The counters of the two `reaction_meter` tasks are the same code, and every step of the tasks is a
`Tally` (`Qsys.tally_taskStep`, `Rtos.tally_taskStep`). So both have the same laws, and both differ
from the README in the same way:

* `tries` is a `uint8_t`, which wraps at 256, and the display shows two decimal digits of it
  (`tries_shown_iff`).
* `rounds` is reset after the increment of the test, so a registration is followed by four turns
  (`registration_period`).

A `Run` is a run of either task in any environment. `Qsys.run_of_reach` and `run_after` say that the
runs of the two systems are among them, and `Rtos.exists_called` that there is one with any number
of calls.
-/

namespace ReactionMeter

theorem Vars.judgeScore_counters (v : Vars) :
    v.judgeScore.1.ports.tries = v.ports.tries ∧ v.judgeScore.1.tries = v.tries ∧
      v.judgeScore.1.rounds = v.rounds := by
  simp only [judgeScore]
  split_ifs <;> exact ⟨rfl, rfl, rfl⟩

/-! ## Qsys -/

namespace Qsys

/-- Where a place is towards `user_register`. -/
def TaskPc.desk : TaskPc → Desk
  | .idle => .home
  | .register => .asking
  | .ready | .start | .armed | .count _ | .pendStop _ _ | .readTime | .readTime2 | .judge _ | .stop
  | .pendRestart _ _ => .away

/-- The task, whatever it reads. -/
def loop : Task Sys TaskPc where
  boot := {}
  pc := Sys.pc
  vars := Sys.vars
  stage := TaskPc.stage
  step s t := ∃ op, s.taskStep = some (t, op)

theorem tally_taskStep {s t : Sys} {op : BusOp} (h : s.taskStep = some (t, op)) :
    Tally s.vars t.vars s.pc.desk t.pc.desk := by
  cases taskStep_cases h with
  | @home pc hpc hnext =>
    have hdesk : pc.desk = if 3 ≤ s.vars.rounds then .asking else .away := by
      rw [hnext]
      show (if 3 ≤ s.vars.rounds then TaskPc.register else .ready).desk = _
      split_ifs <;> rfl
    rw [hpc]
    exact .home hdesk rfl rfl rfl
  | register hpc =>
    rw [hpc]
    exact .registered rfl rfl rfl
  | takeStart hpc | start hpc | takeCounting hpc | pass hpc | takeStop hpc | timeout hpc | latch hpc
  | fetch hpc | expire hpc | takeRestart hpc =>
    rw [hpc]
    exact .away (by simp [TaskPc.desk]) rfl rfl rfl
  | judge hpc =>
    rw [hpc]
    refine .away ?_ rfl rfl rfl
    split_ifs <;> simp [TaskPc.desk]
  | stop hpc =>
    obtain ⟨hp, ht, hr⟩ := (s.vars.measure States.stop.index).judgeScore_counters
    rw [hpc]
    exact .away (by simp [TaskPc.desk]) hp ht hr
  | wait hpc =>
    rw [hpc]
    refine .away (by simp [TaskPc.desk]) ?_ ?_ ?_ <;> split_ifs <;> rfl

theorem tallies : loop.Tallies TaskPc.desk where
  boot := ⟨rfl, rfl⟩
  tally := fun _ _ hs => by
    obtain ⟨op, hstep⟩ := hs
    exact tally_taskStep hstep

/-- A run of the system is a run of its task. -/
theorem turns_of_reach {s : Sys} (h : Machine.Reach Sys.step {} s) :
    ∃ calls, loop.Turns TaskPc.desk s calls := by
  refine h.invariant (P := fun s => ∃ calls, loop.Turns TaskPc.desk s calls) ⟨[], .boot⟩ ?_
  rintro s a s' ⟨calls, hturns⟩ hs
  rcases others_or_task hs with ho | ⟨t, op, ht, ho⟩
  · exact ⟨calls, hturns.others ho⟩
  · exact ⟨_, (hturns.step ⟨op, ht⟩).others ho⟩

end Qsys

/-! ## RTOS -/

namespace Rtos

/-- Where a place is towards `user_register`. -/
def TaskPc.desk : TaskPc → Desk
  | .idle => .home
  | .register => .asking
  | .ready | .start | .pollStart | .waitStart _ | .delay | .delayWait _ _ | .cheatCheck _ | .count _
  | .pendStop _ _ | .stop | .pollStop _ | .waitStop _ _ => .away

variable {rand : ℕ → ℕ} {s t : Sys} {calls : List Bool}

theorem Sys.fillLeds_counters (v : Vars) (time : ℕ) :
    (Sys.fillLeds v time).ports.tries = v.ports.tries ∧ (Sys.fillLeds v time).tries = v.tries ∧
      (Sys.fillLeds v time).rounds = v.rounds := by
  unfold Sys.fillLeds
  split_ifs <;> exact ⟨rfl, rfl, rfl⟩

theorem tally_taskStep (h : s.taskStep rand = some t) :
    Tally s.vars t.vars s.pc.desk t.pc.desk := by
  cases Sys.taskStep_cases h with
  | home hpc hv hreg =>
    have hask : 3 ≤ s.vars.rounds := by rw [hv] at hreg; exact hreg
    rw [hpc, hv]
    exact .home (if_pos hask).symm rfl rfl rfl
  | homeReady hpc hv hreg =>
    have hask : ¬ 3 ≤ s.vars.rounds := by rw [hv] at hreg; exact hreg
    rw [hpc, hv]
    exact .home (if_neg hask).symm rfl rfl rfl
  | register hpc =>
    rw [hpc]
    exact .registered rfl rfl rfl
  | takeStart hpc | start hpc | held hpc | letGo hpc | again hpc | delay hpc | delayed hpc
  | cheat hpc | count hpc | expire hpc | tooFast hpc | accept hpc | timeout hpc | hold hpc
  | restart hpc =>
    rw [hpc]
    exact .away (by simp [TaskPc.desk]) rfl rfl rfl
  | @pass time hpc =>
    obtain ⟨hp, ht, hr⟩ := Sys.fillLeds_counters s.vars time
    rw [hpc]
    exact .away (by simp [TaskPc.desk]) hp ht hr
  | stop hpc =>
    obtain ⟨hp, ht, hr⟩ := (s.vars.measure States.stop.index).judgeScore_counters
    rw [hpc]
    exact .away (by simp [TaskPc.desk]) hp ht hr
  | wait hpc =>
    rw [hpc]
    refine .away (by simp [TaskPc.desk]) ?_ ?_ ?_ <;> split_ifs <;> rfl

theorem tallies (rand : ℕ → ℕ) : (task rand).Tallies TaskPc.desk where
  boot := ⟨rfl, rfl⟩
  tally := fun _ _ hs => tally_taskStep hs

theorem TaskPc.desk_home (pc : TaskPc) : pc.desk = .home ↔ pc = .idle := by
  cases pc <;> simp [desk]

theorem TaskPc.desk_asking (pc : TaskPc) : pc.desk = .asking ↔ pc = .register := by
  cases pc <;> simp [desk]

namespace Sys

/-- An event, with the calls of `user_register` so far. -/
def turn (rand : ℕ → ℕ) (r : Sys × List Bool) (e : Event) : Sys × List Bool :=
  let t := r.1.step rand e
  (t, if r.1.pc = .idle ∧ t.pc ≠ .idle then r.2 ++ [decide (t.pc = .register)] else r.2)

/-- The calls of `user_register` in a run: whether each asked for a name. -/
def called (rand : ℕ → ℕ) (es : List Event) : List Bool := (es.foldl (turn rand) ({}, [])).2

theorem fst_turns (es : List Event) : (es.foldl (turn rand) ({}, [])).1 = after rand es :=
  (List.foldl_hom Prod.fst fun _ _ => rfl).symm

theorem called_concat (es : List Event) (e : Event) :
    called rand (es ++ [e]) = (turn rand (after rand es, called rand es) e).2 := by
  rw [called, List.foldl_append, ← fst_turns]
  rfl

end Sys

theorem turns_after (rand : ℕ → ℕ) (es : List Event) :
    (task rand).Turns TaskPc.desk (Sys.after rand es) (Sys.called rand es) := by
  refine List.reverseRecOn es .boot fun es e ih => ?_
  rw [Sys.called_concat, Sys.after_concat rand]
  generalize Sys.after rand es = s at ih
  generalize Sys.called rand es = calls at ih
  rcases others_or_task s e with ho | ⟨t, ht, hs⟩
  · have hpc : (s.step rand e).pc = s.pc := ho.1
    have hsame : (Sys.turn rand (s, calls) e).2 = calls :=
      if_neg fun h => h.2 (hpc.trans h.1)
    rw [hsame]
    exact ih.others ho
  · have hleave : s.pc = .idle → t.pc ≠ .idle := fun hidle hpc => by
      have htally := tally_taskStep ht
      rw [hidle, hpc] at htally
      cases htally with
      | home he => split_ifs at he <;> cases he
    have hturn : (Sys.turn rand (s, calls) e).2 =
        if s.pc.desk = .home then calls ++ [decide (t.pc.desk = .asking)] else calls := by
      simp only [Sys.turn, hs, TaskPc.desk_home, TaskPc.desk_asking]
      exact if_congr (and_iff_left_of_imp hleave) rfl rfl
    rw [hs, hturn]
    exact (ih.step ht).others ⟨rfl, Or.inl rfl⟩

/-! ## A run of any length -/

/-- The task stands at a place, with the buttons up. -/
structure Sys.At (s : Sys) (pc : TaskPc) (now queue start stop : ℕ) : Prop where
  pc : s.pc = pc
  data : s.data = 0b1111#4
  now : s.now = now
  queue : s.queue = queue
  start : s.startSem.length = start
  stop : s.stopSem.length = stop

/-- Some run stands there after `n` calls. -/
def Stands (rand : ℕ → ℕ) (pc : TaskPc) (now queue start stop n : ℕ) : Prop :=
  ∃ es, (Sys.after rand es).At pc now queue start stop ∧ (Sys.called rand es).length = n

section

variable {pc pc' : TaskPc} {now now' queue queue' start start' stop stop' n : ℕ}

theorem Stands.event (h : Stands rand pc now queue start stop n) (hpc : pc ≠ .idle) (e : Event)
    (hs : ∀ s : Sys, s.At pc now queue start stop →
      (s.react rand e).At pc' now' queue' start' stop') :
    Stands rand pc' now' queue' start' stop' n := by
  obtain ⟨es, hat, hn⟩ := h
  refine ⟨es ++ [e], ?_, ?_⟩
  · obtain ⟨hpc, hdata, hnow, hqueue, hstart, hstop⟩ := hs _ hat
    rw [Sys.after_concat rand]
    exact ⟨hpc, hdata, hnow, hqueue, hstart, hstop⟩
  · rw [Sys.called_concat]
    have hne : (Sys.after rand es).pc ≠ .idle := hat.pc ▸ hpc
    exact (congrArg List.length (if_neg fun hidle => hne hidle.1)).trans hn

theorem Stands.ticks (h : Stands rand pc now queue start stop n) (hpc : pc ≠ .idle) (k : ℕ) :
    Stands rand pc (now + k) queue start stop n := by
  induction k with
  | zero => exact h
  | succ k ih =>
    exact ih.event hpc .tick fun s hs =>
      ⟨hs.pc, hs.data, congrArg (· + 1) hs.now, hs.queue, hs.start, hs.stop⟩

/-- A visit to IDLE, up to the pend on `start_sem`. -/
theorem Stands.visit (h : Stands rand .idle now 0 0 0 n) :
    Stands rand .ready now 0 0 0 (n + 1) := by
  obtain ⟨es, hat, hn⟩ := h
  have hstep : ∃ pc, (pc = .register ∨ pc = .ready) ∧
      ((Sys.after rand es).step rand .task).At pc now 0 0 0 := by
    obtain ⟨hpc, hdata, hnow, hqueue, hstart, hstop⟩ := hat
    by_cases hreg :
        (((Sys.after rand es).vars.measure States.idle.index).showHome).mustRegister
    · refine ⟨.register, Or.inl rfl, ?_⟩
      rw [Sys.step, Sys.react, Sys.taskStep, hpc]
      simp only [hreg, if_true]
      exact ⟨rfl, hdata, hnow, hqueue, hstart, hstop⟩
    · refine ⟨.ready, Or.inr rfl, ?_⟩
      rw [Sys.step, Sys.react, Sys.taskStep, hpc]
      simp only [hreg, if_false]
      exact ⟨rfl, hdata, hnow, hqueue, hstart, hstop⟩
  obtain ⟨pc, hpc, hstands⟩ := hstep
  have hcall : Stands rand pc now 0 0 0 (n + 1) := by
    refine ⟨es ++ [.task], Sys.after_concat rand es _ ▸ hstands, ?_⟩
    have hleave : ((Sys.after rand es).step rand .task).pc ≠ .idle := by
      rw [hstands.pc]
      rcases hpc with rfl | rfl <;> simp
    rw [Sys.called_concat, Sys.turn, if_pos ⟨hat.pc, hleave⟩, List.length_append, hn]
    rfl
  rcases hpc with rfl | rfl
  · have hnamed : Stands rand .register now 1 0 0 (n + 1) :=
      hcall.event (by simp) .console fun s h =>
        ⟨h.pc, h.data, h.now, by simp [Sys.react, Sys.postName, maxMsgAmt, h.queue], h.start, h.stop⟩
    refine hnamed.event (by simp) .task fun s h => ?_
    have hq : 0 < s.queue := by rw [h.queue]; decide
    simp only [Sys.react, Sys.taskStep, h.pc, hq, if_true, Option.getD_some]
    exact ⟨rfl, h.data, h.now, congrArg (· - 1) h.queue, h.start, h.stop⟩
  · exact hcall

/-- A round, ended by a response that is too fast. -/
theorem Stands.round (h : Stands rand .ready now 0 0 0 n) :
    ∃ now', Stands rand .idle now' 0 0 0 n := by
  let d := Sys.randDelay rand now
  have hkey : Stands rand .ready now 0 1 0 n :=
    h.event (by simp) (.isr 1#4) fun s h =>
      ⟨h.pc, h.data, h.now, h.queue, List.length_append.trans (congrArg (· + 1) h.start), h.stop⟩
  have hstart : Stands rand .start now 0 0 0 n := by
    refine hkey.event (by simp) .task fun s h => ?_
    obtain ⟨k, hk⟩ := List.length_eq_one_iff.mp h.start
    simp only [Sys.react, Sys.taskStep, h.pc, hk, Option.getD_some]
    exact ⟨rfl, h.data, h.now, h.queue, rfl, h.stop⟩
  have hpoll : Stands rand .pollStart now 0 0 0 n := by
    refine hstart.event (by simp) .task fun s h => ?_
    simp only [Sys.react, Sys.taskStep, h.pc, Option.getD_some]
    exact ⟨rfl, h.data, h.now, h.queue, h.start, h.stop⟩
  have hdelay : Stands rand .delay now 0 0 0 n := by
    refine hpoll.event (by simp) .task fun s h => ?_
    have hup : ¬ pressed s.data .start := by rw [h.data]; decide
    simp only [Sys.react, Sys.taskStep, h.pc, hup, if_false, Option.getD_some]
    exact ⟨rfl, h.data, h.now, h.queue, h.start, h.stop⟩
  have hwait : Stands rand (.delayWait d (now + d)) now 0 0 0 n := by
    refine hdelay.event (by simp) .task fun s h => ?_
    simp only [Sys.react, Sys.taskStep, h.pc, h.now, Option.getD_some]
    exact ⟨rfl, h.data, rfl, h.queue, h.start, h.stop⟩
  have hcheat : Stands rand (.cheatCheck d) (now + d) 0 0 0 n := by
    refine (hwait.ticks (by simp) d).event (by simp) .task fun s h => ?_
    simp only [Sys.react, Sys.taskStep, h.pc, h.now.ge, if_true, Option.getD_some]
    exact ⟨rfl, h.data, h.now, h.queue, h.start, h.stop⟩
  have hcount : Stands rand (.count 0) (now + d) 0 0 0 n := by
    refine hcheat.event (by simp) .task fun s h => ?_
    have hup : ¬ pressed s.data .resp := by rw [h.data]; decide
    simp only [Sys.react, Sys.taskStep, h.pc, hup, if_false, Option.getD_some]
    exact ⟨rfl, h.data, h.now, h.queue, h.start, h.stop⟩
  have hpend : Stands rand (.pendStop 0 (now + d + 1)) (now + d) 0 0 0 n := by
    refine hcount.event (by simp) .task fun s h => ?_
    have hlt : 0 < respTimeout := by decide
    simp only [Sys.react, Sys.taskStep, h.pc, h.now, hlt, if_true, Option.getD_some]
    exact ⟨rfl, h.data, rfl, h.queue, h.start, h.stop⟩
  have hresp : Stands rand (.pendStop 0 (now + d + 1)) (now + d) 0 0 1 n :=
    hpend.event (by simp) (.isr 2#4) fun s h =>
      ⟨h.pc, h.data, h.now, h.queue, h.start, List.length_append.trans (congrArg (· + 1) h.stop)⟩
  -- The first pend takes the token.
  refine ⟨now + d, hresp.event (by simp) .task fun s h => ?_⟩
  obtain ⟨k, hk⟩ := List.length_eq_one_iff.mp h.stop
  have hfast : 0 < minRespTime := by decide
  simp only [Sys.react, Sys.taskStep, h.pc, hk, hfast, if_true, Option.getD_some]
  exact ⟨rfl, h.data, h.now, h.queue, h.start, rfl⟩

/-- There is a run with any number of calls. -/
theorem exists_called (rand : ℕ → ℕ) (n : ℕ) :
    ∃ es, (Sys.called rand es).length = n := by
  have hidle : ∃ now, Stands rand .idle now 0 0 0 n := by
    induction n with
    | zero => exact ⟨0, [], ⟨rfl, rfl, rfl, rfl, rfl, rfl⟩, rfl⟩
    | succ n ih =>
      obtain ⟨now, h⟩ := ih
      exact h.visit.round
  obtain ⟨now, es, -, hn⟩ := hidle
  exact ⟨es, hn⟩

end

end Rtos

/-! ## Either task -/

/-- The variables of either task after a run with these calls. -/
def Run (rand : ℕ → ℕ) (v : Vars) (calls : List Bool) : Prop :=
  (∃ s, Qsys.loop.Turns Qsys.TaskPc.desk s calls ∧ s.vars = v) ∨
    ∃ s, (Rtos.task rand).Turns Rtos.TaskPc.desk s calls ∧ s.vars = v

variable {rand : ℕ → ℕ} {v : Vars} {calls : List Bool}

theorem Run.counts (h : Run rand v calls) : ∃ d, Counts d v calls := by
  rcases h with ⟨s, hs, rfl⟩ | ⟨s, hs, rfl⟩
  · exact ⟨_, Qsys.tallies.counts hs⟩
  · exact ⟨_, (Rtos.tallies rand).counts hs⟩

theorem Qsys.run_of_reach (rand : ℕ → ℕ) {s : Sys} (h : Machine.Reach Sys.step {} s) :
    ∃ calls, Run rand s.vars calls := by
  obtain ⟨calls, hturns⟩ := turns_of_reach h
  exact ⟨calls, Or.inl ⟨s, hturns, rfl⟩⟩

theorem run_after (rand : ℕ → ℕ) (es : List Rtos.Event) :
    Run rand (Rtos.Sys.after rand es).vars (Rtos.Sys.called rand es) :=
  Or.inr ⟨_, Rtos.turns_after rand es, rfl⟩

/-! ## The tries -/

/-- The displays show the two last digits of `n`, from a call of `show_tries` to the next. -/
def ShowsTries (tries n : ℕ) : Prop :=
  ∀ (q : BitVec 48) (before rest : List Displays.Cycle),
    (∀ t, Displays.Cycle.call (.showTries t) ∉ rest) →
    let q' := Displays.after q (before ++ .call (.showTries (BitVec.ofNat 32 tries)) :: rest)
    Displays.shown q' .hex5 = some (n % 100 / 10) ∧ Displays.shown q' .hex4 = some (n % 100 % 10)

theorem showsTries_iff {tries : ℕ} (h : tries < 256) (n : ℕ) :
    ShowsTries tries n ↔ tries % 100 = n % 100 := by
  have htries : (BitVec.ofNat 32 tries).toNat = tries := by
    rw [BitVec.toNat_ofNat, Nat.mod_eq_of_lt (by omega)]
  constructor
  · intro hall
    obtain ⟨h5, h4⟩ := hall 0#48 [] [] (by simp)
    obtain ⟨h4', h5'⟩ := Displays.shown_tries 0#48 [] [] (BitVec.ofNat 32 tries) (by simp)
    rw [htries] at h4' h5'
    have htens := Option.some.inj (h5'.symm.trans h5)
    have hunits := Option.some.inj (h4'.symm.trans h4)
    omega
  · intro heq q before rest hlast
    obtain ⟨h4, h5⟩ := Displays.shown_tries q before rest (BitVec.ofNat 32 tries) hlast
    rw [htries, heq] at h4 h5
    exact ⟨h5, h4⟩

theorem Counts.shows_iff {d : Desk} (h : Counts d v calls) {n : ℕ} (hn : calls.length = n + 1) :
    ShowsTries v.ports.tries n ↔ n % 6400 < 256 := by
  have hne : calls ≠ [] := List.ne_nil_of_length_eq_add_one hn
  have htries : v.ports.tries = n % 256 := by rw [h.shown hne, hn, Nat.add_sub_cancel]
  rw [htries, showsTries_iff (Nat.mod_lt n (by decide))]
  -- The least common multiple of 256 and 100 is 6400.
  omega

/-- **The tries.** In every run of either task, from the `n`-th visit to IDLE to the next one, the
two leftmost displays show `n` modulo 100 if and only if the counter has wrapped a multiple of 25
times. -/
theorem tries_shown_iff (h : Run rand v calls) {n : ℕ} (hn : calls.length = n + 1) :
    ShowsTries v.ports.tries n ↔ n % 6400 < 256 := by
  obtain ⟨d, hcounts⟩ := h.counts
  exact hcounts.shows_iff hn

theorem tries_shown_first :
    ShowsTries (Rtos.Sys.after (fun _ => 0) [.task]).vars.ports.tries 0 :=
  (tries_shown_iff (run_after (fun _ => 0) [.task]) (by decide)).mpr (by decide)

/-- At visit 256 they show 00. -/
theorem tries_wrapped :
    ¬ ∀ (rand : ℕ → ℕ) (es : List Rtos.Event) (n : ℕ),
      (Rtos.Sys.called rand es).length = n + 1 →
        ShowsTries (Rtos.Sys.after rand es).vars.ports.tries n := by
  intro hall
  obtain ⟨es, hes⟩ := Rtos.exists_called (fun _ => 0) 257
  obtain ⟨d, hcounts⟩ := (run_after (fun _ => 0) es).counts
  exact absurd ((hcounts.shows_iff hes).mp (hall _ es 256 hes)) (by decide)

/-! ## The registrations -/

/-- **Registrations.** In every run of either task, the `n`-th call of `user_register` follows the
period of three turns if and only if `n` modulo 12 is none of 4, 5, 7, 9 and 10, and all calls of
the run follow it if and only if there are at most three. -/
theorem registration_period (h : Run rand v calls) :
    (∀ n, 1 ≤ n → n ≤ calls.length → ((Asked calls n ↔ n % 3 = 1) ↔ n % 12 ∉ [4, 5, 7, 9, 10])) ∧
      ((∀ n, 1 ≤ n → n ≤ calls.length → (Asked calls n ↔ n % 3 = 1)) ↔ calls.length ≤ 3) := by
  obtain ⟨d, hcounts⟩ := h.counts
  exact ⟨fun n h1 hn => hcounts.period_iff h1 hn, hcounts.periods_iff⟩

theorem registration_period_first :
    Rtos.Sys.called (fun _ => 0) [.task] = [true] ∧
      ∀ n, 1 ≤ n → n ≤ 1 → (Asked [true] n ↔ n % 3 = 1) := by
  have hcalled : Rtos.Sys.called (fun _ => 0) [.task] = [true] := by decide
  have hrun := run_after (fun _ => 0) [.task]
  rw [hcalled] at hrun
  exact ⟨hcalled, (registration_period hrun).2.mpr (by decide)⟩

/-- The fourth call asks for no name. -/
theorem registration_late :
    ¬ ∀ (rand : ℕ → ℕ) (es : List Rtos.Event) (n : ℕ), 1 ≤ n →
      n ≤ (Rtos.Sys.called rand es).length →
        (Asked (Rtos.Sys.called rand es) n ↔ n % 3 = 1) := by
  intro hall
  obtain ⟨es, hes⟩ := Rtos.exists_called (fun _ => 0) 4
  obtain ⟨d, hcounts⟩ := (run_after (fun _ => 0) es).counts
  have hfour := (hcounts.asked_iff (n := 4) (by decide) hes.ge).mp
    ((hall _ es 4 (by decide) hes.ge).mpr rfl)
  exact absurd hfour (by decide)

end ReactionMeter
