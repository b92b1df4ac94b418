import ReactionMeter.Qsys.Task
import ReactionMeter.Service

/-!
# What one cycle of the Qsys system can do

A cycle is a move of the software followed by an edge of the clock. `Move` lists the moves and
`Turn` the edges, each with all that the later modules need to know of it. Every invariant of the
system is proved along them: a move lemma, an edge lemma, and nothing unfolds `step` again.

The quiet moves are those that neither take nor post a token and do not touch the response time.
-/

namespace ReactionMeter

namespace Qsys

/-- The tokens of one semaphore. -/
def Sems.get (σ : Sems) : SemId → List ℕ
  | .start => σ.start
  | .startCounting => σ.startCounting
  | .stop => σ.stop
  | .restart => σ.restart

theorem Sems.get_post (σ : Sems) (p q : SemId) (k : ℕ) :
    (σ.post p k).get q = if p = q then σ.get q ++ [k] else σ.get q := by
  cases p <;> cases q <;> rfl

/-- The task has taken a `stop_sem` token, and has not decided about the response yet. -/
def TaskPc.reads : TaskPc → Prop
  | .readTime | .readTime2 | .judge _ => True
  | _ => False

theorem TaskPc.state_of_reads {pc : TaskPc} (h : pc.reads) : pc.state = .count := by
  cases pc <;> first | rfl | exact absurd h (by simp [reads])

theorem TaskPc.reads_of_eq {pc pc' : TaskPc} (h : pc = pc') (hr : pc'.reads) : pc.reads := h ▸ hr

/-- The steps of the task, one constructor for each way a block of the source can go. -/
inductive TaskStep (s : Sys) : Sys → BusOp → Prop
  | home {pc : TaskPc} (hpc : s.pc = .idle)
      (hnext : pc = if (s.vars.measure States.idle.index).showHome.writeLeds.mustRegister
        then .register else .ready) :
      TaskStep s { s with
        vars := (s.vars.measure States.idle.index).showHome.writeLeds.countRound
        pc := pc } .idle
  | register (hpc : s.pc = .register) (hq : 0 < s.queue) :
      TaskStep s { s with queue := s.queue - 1, vars := s.vars.registered, pc := .ready } .idle
  | takeStart {k : ℕ} {ts : List ℕ} (hpc : s.pc = .ready) (hs : s.sems.start = k :: ts) :
      TaskStep s { s with sems := { s.sems with start := ts }, pc := .start } .idle
  | start (hpc : s.pc = .start) :
      TaskStep s { s with
        vars := (s.vars.measure States.start.index).showScore 0
        pc := .armed } .idle
  | takeCounting {k : ℕ} {ts : List ℕ} (hpc : s.pc = .armed) (hs : s.sems.startCounting = k :: ts) :
      TaskStep s { s with
        sems := { s.sems with startCounting := ts }
        vars := s.vars.measure States.count.index
        played := k
        pc := .count 0 } .idle
  | pass {time : ℕ} (hpc : s.pc = .count time) (hlt : time < 20) :
      TaskStep s { s with
        vars := { s.vars with leds := s.vars.leds <<< 1 ||| 1#16 }.writeLeds
        pc := .pendStop time (s.now + 100) } .idle
  | expire {time : ℕ} (hpc : s.pc = .count time) (hge : ¬ time < 20) :
      TaskStep s { s with pc := .idle } .idle
  | takeStop {time deadline k : ℕ} {ts : List ℕ} (hpc : s.pc = .pendStop time deadline)
      (hs : s.sems.stop = k :: ts) :
      TaskStep s { s with sems := { s.sems with stop := ts }, pc := .readTime } .idle
  | timeout {time deadline : ℕ} (hpc : s.pc = .pendStop time deadline) (hs : s.sems.stop = [])
      (hnow : deadline ≤ s.now) : TaskStep s { s with pc := .count (time + 1) } .idle
  | latch (hpc : s.pc = .readTime) :
      TaskStep s { s with read := s.measured, pc := .readTime2 } .readTime
  | fetch (hpc : s.pc = .readTime2) :
      TaskStep s { s with pc := .judge s.io.hw.readdata } .readTime
  | judge {value : BitVec 16} (hpc : s.pc = .judge value) :
      TaskStep s { s with
        vars := { s.vars with responseTime := value.toNat }
        pc := if minRespTime ≤ value.toNat then .stop else .idle } .idle
  | stop (hpc : s.pc = .stop) :
      TaskStep s { s with
        vars := (s.vars.measure States.stop.index).judgeScore.1
        pc := .pendRestart (s.now + 100) (s.vars.measure States.stop.index).judgeScore.2 } .idle
  | takeRestart {deadline k : ℕ} {newHighscore : Bool} {ts : List ℕ}
      (hpc : s.pc = .pendRestart deadline newHighscore) (hs : s.sems.restart = k :: ts) :
      TaskStep s { s with sems := { s.sems with restart := ts }, released := k, pc := .idle } .idle
  | wait {deadline : ℕ} {newHighscore : Bool} (hpc : s.pc = .pendRestart deadline newHighscore)
      (hs : s.sems.restart = []) (hnow : deadline ≤ s.now) :
      TaskStep s { s with
        vars := if newHighscore = true then s.vars.rotate else s.vars
        pc := .pendRestart (s.now + 100) newHighscore } .idle

/-- A place the task can get to by a quiet move: the same one, one of the same state, or `IDLE`
when the loop in `COUNT` is over. -/
def Quiet (pc pc' : TaskPc) : Prop :=
  (pc' = pc ∧ pc ≠ .readTime2) ∨
    (¬ pc.reads ∧ ¬ pc'.reads ∧ (pc'.state = pc.state ∨ pc.state = .count ∧ pc' = .idle))

/-- The moves of the software, with the access of the cycle. -/
inductive Move (s : Sys) : Sys → BusOp → Prop
  | quiet {queue : ℕ} {v : Vars} {pc : TaskPc} (hpc : Quiet s.pc pc)
      (hv : v.responseTime = s.vars.responseTime) :
      Move s { s with queue := queue, vars := v, pc := pc } .idle
  | access {v : Vars} (hpc : s.pc ≠ .readTime2)
      (hv : v.responseTime = s.vars.responseTime)
      (hn : ∀ c, s.io.isr = .posting c → semOf c = none) : Move s { s with vars := v } .isr
  | post {v : Vars} {c : BitVec 16} {q : SemId} (hpc : s.pc ≠ .readTime2)
      (hv : v.responseTime = s.vars.responseTime) (hisr : s.io.isr = .posting c)
      (hq : semOf c = some q) :
      Move s { s with sems := s.sems.post q s.round, vars := v } .isr
  | takeStart {k : ℕ} {ts : List ℕ} (hpc : s.pc = .ready) (hs : s.sems.start = k :: ts) :
      Move s { s with sems := { s.sems with start := ts }, pc := .start } .idle
  | takeCounting {v : Vars} {k : ℕ} {ts : List ℕ} (hpc : s.pc = .armed)
      (hv : v.responseTime = s.vars.responseTime) (hs : s.sems.startCounting = k :: ts) :
      Move s { s with sems := { s.sems with startCounting := ts }, vars := v, played := k,
                      pc := .count 0 } .idle
  | takeStop {time deadline k : ℕ} {ts : List ℕ} (hpc : s.pc = .pendStop time deadline)
      (hs : s.sems.stop = k :: ts) :
      Move s { s with sems := { s.sems with stop := ts }, pc := .readTime } .idle
  | latch (hpc : s.pc = .readTime) (hisr : s.io.isr = .out) :
      Move s { s with read := s.measured, pc := .readTime2 } .readTime
  | fetch (hpc : s.pc = .readTime2) : Move s { s with pc := .judge s.io.hw.readdata } .readTime
  | judge {c : BitVec 16} (hpc : s.pc = .judge c) :
      Move s { s with vars := { s.vars with responseTime := c.toNat },
                      pc := if minRespTime ≤ c.toNat then .stop else .idle } .idle
  | takeRestart {deadline k : ℕ} {b : Bool} {ts : List ℕ} (hpc : s.pc = .pendRestart deadline b)
      (hs : s.sems.restart = k :: ts) :
      Move s { s with sems := { s.sems with restart := ts }, released := k, pc := .idle } .idle

/-- A quiet move within one state. -/
theorem Quiet.within {pc pc' : TaskPc} (h : ¬ pc.reads) (h' : ¬ pc'.reads)
    (hst : pc'.state = pc.state) : Quiet pc pc' := Or.inr ⟨h, h', Or.inl hst⟩

variable {s t s' : Sys}

theorem responseTime_judgeScore (v : Vars) :
    v.judgeScore.1.responseTime = v.responseTime := by
  simp only [Vars.judgeScore]
  split_ifs <;> rfl

theorem taskStep_cases {op : BusOp} (h : s.taskStep = some (t, op)) : TaskStep s t op := by
  unfold Sys.taskStep at h
  cases hpc : s.pc with
  | idle =>
    simp only [hpc, Option.some.injEq, Prod.mk.injEq] at h
    obtain ⟨rfl, rfl⟩ := h
    exact .home hpc rfl
  | register =>
    simp only [hpc] at h
    split_ifs at h with hq
    obtain ⟨rfl, rfl⟩ := Prod.mk.inj (Option.some.inj h)
    exact .register hpc hq
  | ready =>
    simp only [hpc] at h
    cases hs : s.sems.start with
    | nil => simp [hs] at h
    | cons k ts =>
      simp only [hs, Option.some.injEq, Prod.mk.injEq] at h
      obtain ⟨rfl, rfl⟩ := h
      exact .takeStart hpc hs
  | start =>
    simp only [hpc, Option.some.injEq, Prod.mk.injEq] at h
    obtain ⟨rfl, rfl⟩ := h
    exact .start hpc
  | armed =>
    simp only [hpc] at h
    cases hs : s.sems.startCounting with
    | nil => simp [hs] at h
    | cons k ts =>
      simp only [hs, Option.some.injEq, Prod.mk.injEq] at h
      obtain ⟨rfl, rfl⟩ := h
      exact .takeCounting hpc hs
  | count time =>
    simp only [hpc] at h
    split_ifs at h with hlt <;> obtain ⟨rfl, rfl⟩ := Prod.mk.inj (Option.some.inj h)
    · exact .pass hpc hlt
    · exact .expire hpc hlt
  | pendStop time deadline =>
    simp only [hpc] at h
    cases hs : s.sems.stop with
    | nil =>
      simp only [hs] at h
      split_ifs at h with hnow
      obtain ⟨rfl, rfl⟩ := Prod.mk.inj (Option.some.inj h)
      exact .timeout hpc hs hnow
    | cons k ts =>
      simp only [hs, Option.some.injEq, Prod.mk.injEq] at h
      obtain ⟨rfl, rfl⟩ := h
      exact .takeStop hpc hs
  | readTime =>
    simp only [hpc, Option.some.injEq, Prod.mk.injEq] at h
    obtain ⟨rfl, rfl⟩ := h
    exact .latch hpc
  | readTime2 =>
    simp only [hpc, Option.some.injEq, Prod.mk.injEq] at h
    obtain ⟨rfl, rfl⟩ := h
    exact .fetch hpc
  | judge value =>
    simp only [hpc, Option.some.injEq, Prod.mk.injEq] at h
    obtain ⟨rfl, rfl⟩ := h
    exact .judge hpc
  | stop =>
    simp only [hpc, Option.some.injEq, Prod.mk.injEq] at h
    obtain ⟨rfl, rfl⟩ := h
    exact .stop hpc
  | pendRestart deadline newHighscore =>
    simp only [hpc] at h
    cases hs : s.sems.restart with
    | nil =>
      simp only [hs] at h
      by_cases hnow : deadline ≤ s.now
      · rw [if_pos hnow] at h
        obtain ⟨rfl, rfl⟩ := Prod.mk.inj (Option.some.inj h)
        exact .wait hpc hs hnow
      · rw [if_neg hnow] at h
        cases h
    | cons k ts =>
      simp only [hs, Option.some.injEq, Prod.mk.injEq] at h
      obtain ⟨rfl, rfl⟩ := h
      exact .takeRestart hpc hs

theorem move_task {op : BusOp} (hisr : s.io.isr = .out) (h : s.taskStep = some (t, op)) :
    Move s t op := by
  cases taskStep_cases h with
  | home hpc hnext =>
    refine .quiet (hpc ▸ ?_) rfl
    rw [hnext]
    split_ifs
    · exact .within id id rfl
    · exact .within id id rfl
  | register hpc | start hpc | pass hpc => exact .quiet (hpc ▸ .within id id rfl) rfl
  | timeout hpc => exact .quiet (hpc ▸ .within id id rfl) rfl
  | expire hpc => exact .quiet (hpc ▸ Or.inr ⟨id, id, Or.inr ⟨rfl, rfl⟩⟩) rfl
  | takeStart hpc hs => exact .takeStart hpc hs
  | takeCounting hpc hs => exact .takeCounting hpc rfl hs
  | takeStop hpc hs => exact .takeStop hpc hs
  | latch hpc => exact .latch hpc hisr
  | fetch hpc => exact .fetch hpc
  | judge hpc => exact .judge hpc
  | stop hpc => exact .quiet (hpc ▸ .within id id rfl) (responseTime_judgeScore _)
  | takeRestart hpc hs => exact .takeRestart hpc hs
  | wait hpc =>
    refine .quiet (hpc ▸ .within id id rfl) ?_
    split_ifs <;> rfl

theorem move_serve (hpc : s.pc ≠ .readTime2) : Move s s.serve .isr := by
  unfold Sys.serve
  cases hisr : s.io.isr with
  | out => exact .access hpc rfl (by simp [hisr])
  | reading => exact .access hpc rfl (by simp [hisr])
  | posting c =>
    cases hq : semOf c with
    | none =>
      simpa only [hq] using
        Move.access (v := s.vars.measure c.toNat) hpc rfl (by simp [hisr, hq])
    | some q => simpa only [hq] using Move.post (v := s.vars.measure c.toNat) hpc rfl hisr hq

/-- Every cycle is a move and an edge. -/
theorem move_step {a : Act} (h : s.step a = some s') :
    ∃ t op, Move s t op ∧ t.cycle a.buttons op = some s' := by
  obtain ⟨b, cpu⟩ := a
  cases cpu with
  | stall =>
    simp only [Sys.step] at h
    split_ifs at h with hpc
    exact ⟨s, .idle, .quiet (Or.inl ⟨rfl, hpc⟩) rfl, h⟩
  | isr =>
    simp only [Sys.step] at h
    split_ifs at h with hpc
    exact ⟨s.serve, .isr, move_serve hpc, h⟩
  | task =>
    simp only [Sys.step] at h
    split_ifs at h with hisr
    obtain ⟨⟨t, op⟩, ht, hc⟩ := Option.bind_eq_some_iff.mp h
    exact ⟨t, op, move_task hisr ht, hc⟩
  | console =>
    simp only [Sys.step] at h
    split_ifs at h with hpc
    rw [not_or] at hpc
    exact ⟨s.postName, .idle, .quiet (Or.inl ⟨rfl, hpc.1⟩) rfl, h⟩

/-! ## What a move leaves alone -/

theorem Move.io {op : BusOp} (h : Move s t op) : t.io = s.io := by cases h <;> rfl

theorem Move.phase {op : BusOp} (h : Move s t op) : t.phase = s.phase :=
  congrArg (fun io : IrqSys => io.hw.meter.nextState) h.io

theorem Move.round {op : BusOp} (h : Move s t op) : t.round = s.round :=
  congrArg (fun io : IrqSys => io.transitions.count StateT.start) h.io

theorem Move.measured {op : BusOp} (h : Move s t op) : t.measured = s.measured := by
  cases h <;> rfl

/-- A token after a move was there before, or the routine has just posted it, for the state the
meter is in. -/
theorem Move.mem {op : BusOp} (h : Move s t op) (hp : s.io.Prompt) {q : SemId} {k : ℕ}
    (hk : k ∈ t.sems.get q) :
    k ∈ s.sems.get q ∨ (q.state = s.phase ∧ k = s.round ∧ s.io.isr ≠ .out) := by
  cases h with
  | quiet | access | latch | fetch | judge => exact Or.inl hk
  | @post v c p hpc hv hisr hq =>
    rw [Sems.get_post] at hk
    by_cases hpq : p = q
    · subst hpq
      rw [if_pos rfl] at hk
      rcases List.mem_append.mp hk with hk | hk
      · exact Or.inl hk
      · rw [(hp.posting c hisr).2] at hq
        exact Or.inr ⟨semOf_pos.mp hq, List.mem_singleton.mp hk, by simp [hisr]⟩
    · rw [if_neg hpq] at hk
      exact Or.inl hk
  | takeStart hpc hs | takeCounting hpc hv hs | takeStop hpc hs | takeRestart hpc hs =>
    left
    cases q <;> simp only [Sems.get] at hk ⊢
    all_goals first
      | exact hk
      | (rw [hs]; exact List.mem_cons_of_mem _ hk)

/-! ## The edge -/

/-- What an edge does to the meter's state, the round and the latest measurement. -/
inductive Turn (t s' : Sys) : Prop
  | stay (hp : s'.phase = t.phase) (hi : s'.io.hw.meter.irq = false) (hr : s'.round = t.round)
      (hm : s'.measured = t.measured)
  | start (hp : t.phase = .idle) (hp' : s'.phase = .start) (hr : s'.round = t.round + 1)
      (hm : s'.measured = t.measured)
  | advance (hp : t.phase = .start ∧ s'.phase = .delay ∨ t.phase = .delay ∧ s'.phase = .count)
      (hr : s'.round = t.round) (hm : s'.measured = t.measured)
  | stop (hp : t.phase = .count) (hp' : s'.phase = .stop) (hr : s'.round = t.round)
      (hm : s'.measured.1 = t.round)
  | timeout (hp : t.phase = .count) (hp' : s'.phase = .idle) (hi : s'.io.hw.meter.irq = false)
      (hr : s'.round = t.round) (hm : s'.measured = t.measured)
  | idle (hp : t.phase = .stop) (hp' : s'.phase = .idle) (hi : s'.io.hw.meter.irq = true)
      (hr : s'.round = t.round) (hm : s'.measured = t.measured)

/-- An edge leaves the software alone. -/
structure Cycle (t s' : Sys) : Prop where
  access : IrqSys.Access t.io s'.io
  turn : Turn t s'
  sems : s'.sems = t.sems
  pc : s'.pc = t.pc
  vars : s'.vars = t.vars
  played : s'.played = t.played
  read : s'.read = t.read
  released : s'.released = t.released

theorem cycle_eq {b : BitVec 2} {op : BusOp} (h : t.cycle b op = some s') :
    ∃ io, t.io.step (b, op) = some io ∧ s' = { t with
      io := io
      clock := t.clock + 1
      measured :=
        if t.phase = .count ∧ io.hw.meter.nextState = .stop then (t.round, io.hw.meter.respTime)
        else t.measured } := by
  obtain ⟨io, hio, rfl⟩ := Option.map_eq_some_iff.mp h
  exact ⟨io, hio, rfl⟩

theorem cycle_io {b : BitVec 2} {op : BusOp} (h : t.cycle b op = some s') :
    t.io.step (b, op) = some s'.io := by
  obtain ⟨io, hio, rfl⟩ := cycle_eq h
  exact hio

/-- A transition to START begins a round, and no other does. -/
theorem round_of_access (ha : IrqSys.Access t.io s'.io) :
    s'.round = t.round + if s'.phase = t.phase then 0 else [s'.phase].count .start := by
  obtain ⟨i, -, hhw, htr⟩ := ha.hw
  have hround : s'.round = (if s'.phase = t.phase then t.io.transitions
      else t.io.transitions ++ [s'.phase]).count .start := by
    show s'.io.transitions.count .start = _
    rw [htr]
    simp only [IrqSys.edge, Sys.phase, hhw]
  rw [hround]
  split_ifs
  · rfl
  · exact List.count_append

theorem turn_of_access (ha : IrqSys.Access t.io s'.io)
    (hm : s'.measured =
      if t.phase = .count ∧ s'.phase = .stop then (t.round, s'.io.hw.meter.respTime)
      else t.measured) : Turn t s' := by
  have hr := round_of_access ha
  cases ha.meter with
  | stay hn hi _ =>
    have hp : s'.phase = t.phase := hn
    apply Turn.stay hp hi (by simpa [hp] using hr)
    rw [hm, if_neg]
    intro hturn
    obtain ⟨hc, hs⟩ := hturn
    exact absurd (hc.symm.trans (hp.symm.trans hs)) (by decide)
  | start hs hn _ _ =>
    have hp : t.phase = .idle := hs
    have hp' : s'.phase = .start := hn
    exact .start hp hp' (by simpa [hp, hp'] using hr) (by simpa [hp] using hm)
  | delay hs hn _ _ =>
    have hp : t.phase = .start := hs
    have hp' : s'.phase = .delay := hn
    exact .advance (Or.inl ⟨hp, hp'⟩) (by simpa [hp, hp'] using hr) (by simpa [hp] using hm)
  | count hs hn _ _ =>
    have hp : t.phase = .delay := hs
    have hp' : s'.phase = .count := hn
    exact .advance (Or.inr ⟨hp, hp'⟩) (by simpa [hp, hp'] using hr) (by simpa [hp] using hm)
  | timeout hs hn hi _ =>
    have hp : t.phase = .count := hs
    have hp' : s'.phase = .idle := hn
    exact .timeout hp hp' hi (by simpa [hp, hp'] using hr) (by simpa [hp'] using hm)
  | stop hs hn _ _ _ =>
    have hp : t.phase = .count := hs
    have hp' : s'.phase = .stop := hn
    exact .stop hp hp' (by simpa [hp, hp'] using hr) (by rw [hm, if_pos ⟨hp, hp'⟩])
  | idle hs hn hi _ =>
    have hp : t.phase = .stop := hs
    have hp' : s'.phase = .idle := hn
    exact .idle hp hp' hi (by simpa [hp, hp'] using hr) (by simpa [hp] using hm)

theorem cycle_cycle {b : BitVec 2} {op : BusOp} (h : t.cycle b op = some s') : Cycle t s' := by
  obtain ⟨io, hio, rfl⟩ := cycle_eq h
  have ha := IrqSys.access_step hio
  exact ⟨ha, turn_of_access ha rfl, rfl, rfl, rfl, rfl, rfl, rfl⟩

/-- An edge begins a round, or keeps the round and what is known of its response. -/
theorem Turn.round_cases (h : Turn t s') :
    (t.phase = .idle ∧ s'.phase = .start) ∨
      (s'.round = t.round ∧ (t.measured.1 = t.round → s'.measured.1 = s'.round)) := by
  cases h with
  | start hp hp' => exact Or.inl ⟨hp, hp'⟩
  | stop _ _ hr hm => exact Or.inr ⟨hr, fun _ => hm.trans hr.symm⟩
  | stay _ _ hr hm | advance _ hr hm | timeout _ _ _ hr hm | idle _ _ _ hr hm =>
    exact Or.inr ⟨hr, fun h => by rw [hm, hr]; exact h⟩

end Qsys

end ReactionMeter
