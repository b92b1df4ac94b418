import ReactionMeter.Rtos.Task

/-!
# Every accepted score is genuine

Nothing clears `stop_sem` when COUNT begins, so it may hold tokens of any age. An old token is
taken by the very first pend and rejected as too fast. Conversely a pend that times out has found
the semaphore empty: every token the task takes after it was posted in this COUNT. `Genuine` is
that argument as an invariant, and `score_genuine` what it gives for the scores.
-/

namespace ReactionMeter

namespace Rtos

namespace Sys

variable (rand : ℕ → ℕ)

/-- The system after a list of events. -/
def after (es : List Event) : Sys := es.foldl (step rand) {}

theorem after_concat (es : List Event) (e : Event) :
    after rand (es ++ [e]) = (after rand es).step rand e := by
  rw [after, List.foldl_append]
  rfl

/-- The steps of the task, one constructor for each way a block of the source can go. -/
inductive TaskStep (s : Sys) : Sys → Prop
  | home {v : Vars} (hpc : s.pc = .idle) (hv : v = (s.vars.measure States.idle.index).showHome)
      (hreg : v.mustRegister) : TaskStep s { s with vars := v.countRound, pc := .register }
  | homeReady {v : Vars} (hpc : s.pc = .idle)
      (hv : v = (s.vars.measure States.idle.index).showHome) (hreg : ¬ v.mustRegister) :
      TaskStep s { s with vars := v.countRound.writeLeds, pc := .ready }
  | register (hpc : s.pc = .register) (hq : 0 < s.queue) :
      TaskStep s { s with
        queue := s.queue - 1
        vars := s.vars.registered.writeLeds
        pc := .ready }
  | takeStart {k : ℕ} {ts : List ℕ} (hpc : s.pc = .ready) (hs : s.startSem = k :: ts) :
      TaskStep s { s with startSem := ts, pc := .start }
  | start (hpc : s.pc = .start) :
      TaskStep s { s with
        vars := (s.vars.measure States.start.index).showScore 0
        pc := .pollStart }
  | held (hpc : s.pc = .pollStart) (hp : pressed s.data .start) :
      TaskStep s { s with pc := .waitStart (s.now + 1) }
  | letGo (hpc : s.pc = .pollStart) (hp : ¬ pressed s.data .start) :
      TaskStep s { s with pc := .delay }
  | again {deadline : ℕ} (hpc : s.pc = .waitStart deadline) (hnow : deadline ≤ s.now) :
      TaskStep s { s with pc := .pollStart }
  | delay {d : ℕ} (hpc : s.pc = .delay) (hd : d = randDelay rand s.now) :
      TaskStep s { s with
        vars := s.vars.measure States.delay.index
        pc := .delayWait d (s.now + d) }
  | delayed {d deadline : ℕ} (hpc : s.pc = .delayWait d deadline) (hnow : deadline ≤ s.now) :
      TaskStep s { s with pc := .cheatCheck d }
  | cheat {d : ℕ} (hpc : s.pc = .cheatCheck d) (hp : pressed s.data .resp) :
      TaskStep s { s with stopSem := [], pc := .delayWait d (s.now + d) }
  | count {d : ℕ} (hpc : s.pc = .cheatCheck d) (hp : ¬ pressed s.data .resp) :
      TaskStep s { s with
        vars := s.vars.measure States.count.index
        pc := .count 0
        entered := s.events
        timeouts := 0 }
  | pass {time : ℕ} (hpc : s.pc = .count time) (hlt : time < respTimeout) :
      TaskStep s { s with vars := fillLeds s.vars time, pc := .pendStop time (s.now + 1) }
  | expire {time : ℕ} (hpc : s.pc = .count time) (hge : ¬ time < respTimeout) :
      TaskStep s { s with pc := .idle }
  | tooFast {time deadline k : ℕ} {ts : List ℕ} (hpc : s.pc = .pendStop time deadline)
      (hs : s.stopSem = k :: ts) (hfast : time < minRespTime) :
      TaskStep s { s with stopSem := ts, taken := k, pc := .idle }
  | accept {time deadline k : ℕ} {ts : List ℕ} (hpc : s.pc = .pendStop time deadline)
      (hs : s.stopSem = k :: ts) (hmin : minRespTime ≤ time) :
      TaskStep s { s with
        stopSem := ts
        taken := k
        vars := { s.vars with responseTime := time }
        pc := .stop }
  | timeout {time deadline : ℕ} (hpc : s.pc = .pendStop time deadline) (hs : s.stopSem = [])
      (hnow : deadline ≤ s.now) :
      TaskStep s { s with pc := .count (time + 1), timeouts := s.timeouts + 1 }
  | stop (hpc : s.pc = .stop) :
      TaskStep s { s with
        vars := (s.vars.measure States.stop.index).judgeScore.1
        pc := .pollStop (s.vars.measure States.stop.index).judgeScore.2 }
  | hold {newHighscore : Bool} (hpc : s.pc = .pollStop newHighscore) (hp : pressed s.data .resp) :
      TaskStep s { s with pc := .waitStop newHighscore (s.now + 100) }
  | restart {newHighscore : Bool} (hpc : s.pc = .pollStop newHighscore)
      (hp : ¬ pressed s.data .resp) : TaskStep s { s with pc := .idle }
  | wait {newHighscore : Bool} {deadline : ℕ} (hpc : s.pc = .waitStop newHighscore deadline)
      (hnow : deadline ≤ s.now) :
      TaskStep s { s with
        vars := if newHighscore = true then s.vars.rotate else s.vars
        pc := .pollStop newHighscore }

/-- What a step of the task can do, as far as COUNT and STOP are concerned. -/
inductive Move (s : Sys) : Sys → Prop
  /-- A step that ends outside COUNT, and in STOP only if it starts there. -/
  | away {t : Sys} (hc : t.pc.state ≠ .count) (hst : t.pc.state = .stop → s.pc.state = .stop) :
      Move s t
  | begin {v : Vars} (hpc : s.pc.state = .delay) :
      Move s { s with vars := v, pc := .count 0, entered := s.events, timeouts := 0 }
  | pass {time : ℕ} {v : Vars} (hpc : s.pc = .count time) (hlt : time < respTimeout) :
      Move s { s with vars := v, pc := .pendStop time (s.now + 1) }
  | timeout {time deadline : ℕ} (hpc : s.pc = .pendStop time deadline) (hs : s.stopSem = []) :
      Move s { s with pc := .count (time + 1), timeouts := s.timeouts + 1 }
  | accept {time deadline k : ℕ} {ts : List ℕ} (hpc : s.pc = .pendStop time deadline)
      (hs : s.stopSem = k :: ts) (hmin : minRespTime ≤ time) :
      Move s { s with
        stopSem := ts
        taken := k
        vars := { s.vars with responseTime := time }
        pc := .stop }

variable {rand} {s t : Sys}

theorem taskStep_cases (h : s.taskStep rand = some t) : TaskStep rand s t := by
  unfold taskStep at h
  cases hpc : s.pc with
  | idle =>
    simp only [hpc] at h
    split_ifs at h with hreg <;> obtain rfl := Option.some.inj h
    · exact .home hpc rfl hreg
    · exact .homeReady hpc rfl hreg
  | register =>
    simp only [hpc] at h
    split_ifs at h with hq
    obtain rfl := Option.some.inj h
    exact .register hpc hq
  | ready =>
    simp only [hpc] at h
    cases hs : s.startSem with
    | nil => simp [hs] at h
    | cons k ts =>
      simp only [hs] at h
      obtain rfl := Option.some.inj h
      exact .takeStart hpc hs
  | start =>
    simp only [hpc] at h
    obtain rfl := Option.some.inj h
    exact .start hpc
  | pollStart =>
    simp only [hpc] at h
    split_ifs at h with hp <;> obtain rfl := Option.some.inj h
    · exact .held hpc hp
    · exact .letGo hpc hp
  | waitStart deadline =>
    simp only [hpc] at h
    split_ifs at h with hnow
    obtain rfl := Option.some.inj h
    exact .again hpc hnow
  | delay =>
    simp only [hpc] at h
    obtain rfl := Option.some.inj h
    exact .delay hpc rfl
  | delayWait d deadline =>
    simp only [hpc] at h
    split_ifs at h with hnow
    obtain rfl := Option.some.inj h
    exact .delayed hpc hnow
  | cheatCheck d =>
    simp only [hpc] at h
    split_ifs at h with hp <;> obtain rfl := Option.some.inj h
    · exact .cheat hpc hp
    · exact .count hpc hp
  | count time =>
    simp only [hpc] at h
    split_ifs at h with hlt <;> obtain rfl := Option.some.inj h
    · exact .pass hpc hlt
    · exact .expire hpc hlt
  | pendStop time deadline =>
    simp only [hpc] at h
    cases hs : s.stopSem with
    | nil =>
      simp only [hs] at h
      split_ifs at h with hnow
      obtain rfl := Option.some.inj h
      simpa only [hs] using TaskStep.timeout hpc hs hnow
    | cons k ts =>
      simp only [hs] at h
      split_ifs at h with hfast <;> obtain rfl := Option.some.inj h
      · exact .tooFast hpc hs hfast
      · exact .accept hpc hs (Nat.le_of_not_lt hfast)
  | stop =>
    simp only [hpc] at h
    obtain rfl := Option.some.inj h
    exact .stop hpc
  | pollStop newHighscore =>
    simp only [hpc] at h
    split_ifs at h with hp <;> obtain rfl := Option.some.inj h
    · exact .hold hpc hp
    · exact .restart hpc hp
  | waitStop newHighscore deadline =>
    simp only [hpc] at h
    by_cases hnow : deadline ≤ s.now
    · rw [if_pos hnow] at h
      obtain rfl := Option.some.inj h
      exact .wait hpc hnow
    · rw [if_neg hnow] at h
      cases h

theorem move_taskStep (h : s.taskStep rand = some t) : Move s t := by
  cases taskStep_cases h with
  | count hpc => exact .begin (by rw [hpc]; rfl)
  | pass hpc hlt => exact .pass hpc hlt
  | timeout hpc hs => exact .timeout hpc hs
  | accept hpc hs hmin => exact .accept hpc hs hmin
  | stop hpc | hold hpc | wait hpc =>
    exact .away (by simp [TaskPc.state]) (by simp [hpc, TaskPc.state])
  | home | homeReady | register | takeStart | start | held | letGo | again | delay | delayed
  | cheat | expire | tooFast | restart =>
    exact .away (by simp [TaskPc.state]) (by simp [TaskPc.state])

theorem mem_buttonIsr {pin : BitVec 4} {k : ℕ} (hk : k ∈ (s.buttonIsr pin).stopSem) :
    k ∈ s.stopSem ∨ k = s.events := by
  unfold buttonIsr at hk
  split_ifs at hk
  · exact Or.inl hk
  · exact (List.mem_append.mp hk).imp id List.mem_singleton.mp
  · exact Or.inl hk

theorem buttonIsr_frame (pin : BitVec 4) :
    (s.buttonIsr pin).pc = s.pc ∧ (s.buttonIsr pin).timeouts = s.timeouts ∧
      (s.buttonIsr pin).entered = s.entered := by
  unfold buttonIsr
  split_ifs <;> exact ⟨rfl, rfl, rfl⟩

/-- An event either leaves the task where it is, with at most one new token, which has the number of
the event, or is a step of the task. -/
theorem react_cases (e : Event) :
    ((s.react rand e).pc = s.pc ∧ (s.react rand e).timeouts = s.timeouts ∧
      (s.react rand e).entered = s.entered ∧
      ∀ k ∈ (s.react rand e).stopSem, k ∈ s.stopSem ∨ k = s.events) ∨
    Move s (s.react rand e) := by
  cases e with
  | isr pin =>
    obtain ⟨hpc, htime, hent⟩ := s.buttonIsr_frame pin
    exact Or.inl ⟨hpc, htime, hent, fun k hk => mem_buttonIsr hk⟩
  | tick | pins | console => exact Or.inl ⟨rfl, rfl, rfl, fun k hk => Or.inl hk⟩
  | task =>
    unfold react
    cases ht : s.taskStep rand with
    | none => exact Or.inl ⟨rfl, rfl, rfl, fun k hk => Or.inl hk⟩
    | some t => exact Or.inr (move_taskStep ht)

/-! ## The invariant -/

/-- What every event preserves. -/
structure Genuine (s : Sys) : Prop where
  counted : ∀ time, s.pc = .count time → s.timeouts = time
  waiting : ∀ time deadline, s.pc = .pendStop time deadline →
    s.timeouts = time ∧ time < respTimeout
  fresh : s.pc.state = .count → 0 < s.timeouts → ∀ k ∈ s.stopSem, s.entered < k
  begun : s.pc.state = .count → s.entered < s.events

/-- The invariant is about COUNT only. -/
theorem genuine_of_ne_count (h : s.pc.state ≠ .count) : Genuine s where
  counted := by intro time hpc; rw [hpc] at h; exact absurd rfl h
  waiting := by intro time deadline hpc; rw [hpc] at h; exact absurd rfl h
  fresh := fun hc => absurd hc h
  begun := fun hc => absurd hc h

theorem genuine_init : Genuine {} := genuine_of_ne_count (by decide)

/-- An event that leaves the task alone may add a token, numbered with the event. -/
theorem Genuine.other (h : Genuine s) (hpc : t.pc = s.pc) (htime : t.timeouts = s.timeouts)
    (hent : t.entered = s.entered) (hstop : ∀ k ∈ t.stopSem, k ∈ s.stopSem ∨ k = s.events) :
    Genuine (record s t) where
  counted := by
    intro time hc
    exact htime.trans (h.counted time (hpc ▸ hc))
  waiting := by
    intro time deadline hc
    rw [show (record s t).timeouts = s.timeouts from htime]
    exact h.waiting time deadline (hpc ▸ hc)
  fresh := by
    intro hc hpos k hk
    have hc' : s.pc.state = .count := hpc ▸ hc
    show t.entered < k
    rw [hent]
    rcases hstop k hk with hk | rfl
    · exact h.fresh hc' (htime ▸ hpos) k hk
    · exact h.begun hc'
  begun := by
    intro hc
    show t.entered < s.events + 1
    rw [hent]
    exact Nat.lt_succ_of_lt (h.begun (hpc ▸ hc))

theorem Genuine.move (h : Genuine s) (hm : Move s t) : Genuine (record s t) := by
  cases hm with
  | away hc => exact genuine_of_ne_count hc
  | accept => exact genuine_of_ne_count (by simp [record, TaskPc.state])
  | begin =>
    -- No pend of this COUNT has timed out yet.
    exact
      { counted := fun time hc => by cases hc; rfl
        waiting := fun time deadline hc => by cases hc
        fresh := fun _ hpos => absurd hpos (Nat.lt_irrefl 0)
        begun := fun _ => Nat.lt_succ_self _ }
  | @pass time v hpc hlt =>
    have hst : s.pc.state = .count := by rw [hpc]; rfl
    exact
      { counted := fun time' hc => by cases hc
        waiting := fun time' deadline hc => by cases hc; exact ⟨h.counted time hpc, hlt⟩
        fresh := fun _ => h.fresh hst
        begun := fun _ => Nat.lt_succ_of_lt (h.begun hst) }
  | @timeout time deadline hpc hs =>
    have hst : s.pc.state = .count := by rw [hpc]; rfl
    -- The pend has timed out on an empty semaphore.
    exact
      { counted := fun time' hc => by
          cases hc
          exact congrArg (· + 1) (h.waiting time deadline hpc).1
        waiting := fun time' deadline' hc => by cases hc
        fresh := fun _ _ k hk => by
          have hk' : k ∈ s.stopSem := hk
          rw [hs] at hk'
          cases hk'
        begun := fun _ => Nat.lt_succ_of_lt (h.begun hst) }

theorem genuine_step (h : Genuine s) (e : Event) : Genuine (s.step rand e) := by
  rcases react_cases e with ⟨hpc, htime, hent, hstop⟩ | hm
  · exact h.other hpc htime hent hstop
  · exact h.move hm

theorem genuine_after (es : List Event) : Genuine (after rand es) := by
  refine List.reverseRecOn es genuine_init fun es e ih => ?_
  rw [after_concat]
  exact genuine_step ih e

/-- A state other than STOP is left for STOP by a pend that finds a token after `MIN_RESP_TIME`. -/
theorem enters_stop {e : Event} (hne : s.pc.state ≠ .stop)
    (hst : (s.step rand e).pc.state = .stop) :
    ∃ time deadline k, s.pc = .pendStop time deadline ∧ k ∈ s.stopSem ∧ minRespTime ≤ time ∧
      (s.step rand e).vars.responseTime = time ∧ (s.step rand e).taken = k ∧
      (s.step rand e).timeouts = s.timeouts ∧ (s.step rand e).entered = s.entered := by
  have hreact : (s.react rand e).pc.state = .stop := hst
  unfold step
  rcases react_cases e with ⟨hpc, -⟩ | hm
  · rw [hpc] at hreact
    exact absurd hreact hne
  · generalize s.react rand e = t at hm hreact
    cases hm with
    | away _ hst => exact absurd (hst hreact) hne
    | begin | pass | timeout => cases hreact
    | @accept time deadline k ts hpc hs hmin =>
      exact ⟨time, deadline, k, hpc, by simp [hs], hmin, rfl, rfl, rfl, rfl⟩

/-- **Genuine scores.** Whatever the keys, the ticks and the processor do: a response time the task
accepts is between 80 and 999, as many pends of this COUNT have timed out, and the token it takes
was posted after this COUNT began. -/
theorem score_genuine (es : List Event) (e : Event) (hne : (after rand es).pc.state ≠ .stop)
    (hst : ((after rand es).step rand e).pc.state = .stop) :
    80 ≤ ((after rand es).step rand e).vars.responseTime ∧
      ((after rand es).step rand e).vars.responseTime ≤ 999 ∧
      ((after rand es).step rand e).timeouts =
        ((after rand es).step rand e).vars.responseTime ∧
      ((after rand es).step rand e).entered < ((after rand es).step rand e).taken := by
  obtain ⟨time, deadline, k, hpc, hk, hmin, hresp, htaken, htime, hent⟩ := enters_stop hne hst
  have hgen : Genuine (after rand es) := genuine_after es
  obtain ⟨hcount, hlt⟩ := hgen.waiting time deadline hpc
  have hpos : 0 < (after rand es).timeouts := by
    rw [hcount]
    exact Nat.lt_of_lt_of_le (by decide) hmin
  rw [hresp, htaken, htime, hent]
  exact ⟨hmin, Nat.le_of_lt_succ hlt, hcount,
    hgen.fresh (by rw [hpc]; rfl) hpos k hk⟩

/-- The named player starts a round, and has waited through the shortest delay. -/
def startRound : List Event :=
  [.console, .task, .task, .pins 0b1110#4, .isr 1#4, .task, .task, .pins 0b1111#4, .task, .task] ++
    List.replicate 1000 .tick ++ [.task, .task, .task]

/-- One pass of the loop in COUNT without a response. -/
def silentPass : List Event := [.tick, .task, .task]

/-- A response after eighty passes; the shortest that counts. -/
def eightyPasses : List Event :=
  startRound ++ (List.replicate 80 silentPass).flatten ++ [.pins 0b1101#4, .isr 2#4]

/-- The task takes the token. -/
def eighty : Sys := (after (fun _ => 0) eightyPasses).step (fun _ => 0) .task

theorem score_genuine_eighty :
    eighty.vars.responseTime = 80 ∧ eighty.timeouts = 80 ∧ eighty.entered < eighty.taken := by
  have hresp : eighty.vars.responseTime = 80 := by decide +kernel
  obtain ⟨-, -, htime, hfresh⟩ : 80 ≤ eighty.vars.responseTime ∧
      eighty.vars.responseTime ≤ 999 ∧ eighty.timeouts = eighty.vars.responseTime ∧
      eighty.entered < eighty.taken :=
    score_genuine eightyPasses .task (by decide +kernel) (by decide +kernel)
  exact ⟨hresp, htime.trans hresp, hfresh⟩

end Sys

end Rtos

end ReactionMeter
