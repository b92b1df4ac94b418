import ReactionMeter.Rtos.OnKernel
import ReactionMeter.Rtos.Scores

/-!
# The kernel carries out the task

Every run of the program on the kernel is a run of `Rtos.Task`, event by event: a tick is a tick, a
button interrupt is one unless the kernel refuses the post because the count is at its end, and a
piece of the task is a step of the task (`onKernel_refines`). What is proved of the task holds on
the kernel for this reason. In a call of its own the task is ready exactly when its step is
possible (`ready_iff`).

A token of the abstract semaphore is either counted by the kernel or in the hands of the task, that
is, handed to it or taken by a pend that did not wait (`inHands`). The abstract queue drops a name
when it holds two, the one in the hands of the task included. That the kernel does the same is a
matter of priorities: the console does not run while the task has a name in its hands.
-/

namespace ReactionMeter

namespace Rtos

open Ucos (Act Out Err Ctx Prio Status Store Kind Spec Represents)

/-! ## The relation -/

/-- What the store of one of the program's events looks like. -/
def Shape (e : ℕ) (st : Store) : Prop :=
  if e = playerQueue then ∃ msgs, st = .queue maxMsgAmt msgs else st.kind = .sem

/-- How much the store of an event holds. -/
def level (x : Spec) (e : ℕ) : ℕ := (x.store e).contents.length

/-- The event that the task pends on. -/
def Code.event : Code → Option ℕ
  | .register => some playerQueue
  | .ready => some startSem
  | .pendStop _ => some stopSem
  | _ => none

/-- A pend has succeeded: it did not wait, or it was handed something. -/
def Got : Status → Prop
  | .running | .handed _ _ => True
  | _ => False

instance : DecidablePred Got
  | .running | .handed _ _ => isTrue trivial
  | .delayed _ | .elapsed | .waiting _ _ | .timedOut _ => isFalse id

/-- One, if the task has got a token or a name that it has not seen yet. -/
def inHands (st : Status) (code : Code) (e : ℕ) : ℕ := if code.event = some e ∧ Got st then 1 else 0

/-- The tokens and names of the abstract system. -/
def Sys.stock (s : Sys) (e : ℕ) : ℕ :=
  if e = Rtos.startSem then s.startSem.length
  else if e = Rtos.stopSem then s.stopSem.length
  else s.queue

/-- The status of the task in a pend without a time. -/
def PendsOn (e : ℕ) (st : Status) : Prop := Got st ∨ st = .waiting e 0

/-- The status of the task in a delay up to the deadline. -/
def DelayedTo (now deadline : ℕ) (st : Status) : Prop :=
  (∃ left, st = .delayed left ∧ deadline = now + left) ∨ st = .elapsed ∧ deadline ≤ now

/-- The status of the task at a place of its code. -/
def StatusAt (now : ℕ) (st : Status) : TaskPc → Prop
  | .register => PendsOn playerQueue st
  | .ready => PendsOn startSem st
  | .pendStop _ deadline =>
    Got st ∨ (st = .waiting stopSem 1 ∧ deadline = now + 1) ∨
      st = .timedOut stopSem ∧ deadline ≤ now
  | .waitStart deadline | .delayWait _ deadline | .waitStop _ deadline =>
    DelayedTo now deadline st
  | _ => ∀ e, Own e → ¬ st.WaitsFor e

/-- A delay of the program is not zero. -/
def TaskPc.DelayPos : TaskPc → Prop
  | .delayWait d _ | .cheatCheck d => 0 < d
  | _ => True

/-- The kernel under the program. -/
structure Base (os : Ucos.Sys) (x : Spec) : Prop where
  rep : Represents os x
  good : x.Good
  tasks : x.tasks = {Ucos.osTaskIdlePrio, task1Priority, task2Priority, statPriority}
  shape : ∀ e, Own e → Shape e (x.store e)
  alone : ∀ p, p ≠ task1Priority → ∀ e, Own e → ¬ (x.status p).WaitsFor e

theorem Base.mem_task {os : Ucos.Sys} {x : Spec} (h : Base os x) : task1Priority ∈ x.tasks := by
  rw [h.tasks]
  decide

structure Sim (b : Program) (x : Spec) (s : Sys) : Prop extends Base b.os x where
  data : s.data = b.data
  vars : s.vars = b.vars
  code : s.pc.code = b.code
  now : s.now = x.time
  stock : ∀ e, Own e → s.stock e = level x e + inHands (x.status task1Priority) b.code e
  status : StatusAt x.time (x.status task1Priority) s.pc
  delay : s.pc.DelayPos

/-- The task in its own code, with nothing in its hands. -/
structure Plain (os : Ucos.Sys) (x : Spec) (s : Sys) : Prop extends Base os x where
  now : s.now = x.time
  stock : ∀ e, Own e → s.stock e = level x e
  running : x.status task1Priority = .running

/-- What the calls of the task do not touch. -/
structure Keeps (x y : Spec) : Prop where
  nest : y.nest = x.nest
  time : y.time = x.time
  others : ∀ p, p ≠ task1Priority → y.status p = x.status p

theorem Keeps.refl (x : Spec) : Keeps x x := ⟨rfl, rfl, fun _ _ => rfl⟩

theorem Keeps.trans {x y z : Spec} (h : Keeps x y) (h' : Keeps y z) : Keeps x z :=
  ⟨h'.nest.trans h.nest, h'.time.trans h.time, fun p hp => (h'.others p hp).trans (h.others p hp)⟩

/-- A piece of the task ends here. -/
def Ends (x : Spec) (b : Program) (s : Sys) : Prop :=
  ∃ y, Sim b y s ∧ Keeps x y ∧ (¬ b.code.InCall → y.status task1Priority = .running)

theorem Keeps.ends {x y : Spec} {b : Program} {s : Sys} (h : Keeps x y) (he : Ends y b s) :
    Ends x b s := by
  obtain ⟨z, hz, hkeeps, hrun⟩ := he
  exact ⟨z, hz, h.trans hkeeps, hrun⟩

/-! ## Calls of the task -/

section Calls

variable {os os' : Ucos.Sys} {x y : Spec} {s : Sys} {act : Act} {o : Out} {e n : ℕ}

theorem Base.step (h : Base os x) (hs : os.step act = some (os', o)) :
    ∃ y, x.step act = some (y, o) ∧ Represents os' y ∧ y.Good ∧ y.tasks = x.tasks := by
  have hone := Transducer.run_singleton_eq_some.mpr ⟨o, hs, rfl⟩
  obtain ⟨y, hy, hrep, hgood⟩ := Ucos.kernel_bisim.exists_run ⟨h.rep, h.good⟩ hone
  obtain ⟨o', hys, ho⟩ := Transducer.run_singleton_eq_some.mp hy
  obtain rfl : o = o' := (List.cons.inj ho).1
  exact ⟨y, hys, hrep, hgood, (Spec.step_change hys).1⟩

theorem Shape.take {st st' : Store} {m : Ucos.Msg} (h : Shape e st) (ht : st.take = some (m, st')) :
    Shape e st' := by
  unfold Shape at h ⊢
  split_ifs at h ⊢
  · obtain ⟨msgs, rfl⟩ := h
    cases msgs with
    | nil => cases ht
    | cons m msgs =>
      cases ht
      exact ⟨msgs, rfl⟩
  · cases st with
    | queue => cases h
    | sem k =>
      cases k with
      | zero => cases ht
      | succ k =>
        cases ht
        rfl

/-- The call by which the task pends on an event of the program. -/
def pendAct (e n : ℕ) : Act := if e = playerQueue then .qPend e n else .semPend e n

/-- A pend takes from the store, or waits if there is nothing in it. -/
theorem pend_own (hshape : Shape e (x.store e)) (hs : x.step (pendAct e n) = some (y, o)) :
    x.InCode ∧ ((∃ m st, (x.store e).take = some (m, st) ∧ y = x.setStore e st) ∨
      (x.store e).take = none ∧ y = (x.setStatus x.cur (.waiting e n)).schedule) := by
  obtain ⟨kind, hkind, hin, hpend⟩ : ∃ kind, (x.store e).kind = kind ∧ x.InCode ∧
      (x.pend kind e n).1 = y := by
    unfold pendAct at hs
    unfold Shape at hshape
    split_ifs at hs hshape with he
    · obtain ⟨msgs, hmsgs⟩ := hshape
      simp only [Spec.step] at hs
      split_ifs at hs with hin
      refine ⟨.queue, by rw [hmsgs]; rfl, hin, ?_⟩
      rw [← Spec.pendStep_fst, Option.some.inj hs]
    · simp only [Spec.step] at hs
      split_ifs at hs with hin
      refine ⟨.sem, hshape, hin, ?_⟩
      rw [← Spec.pendStep_fst, Option.some.inj hs]
  refine ⟨hin, ?_⟩
  unfold Spec.pend at hpend
  rw [if_neg (not_not_intro hkind)] at hpend
  cases ht : (x.store e).take with
  | none =>
    rw [ht] at hpend
    exact Or.inr ⟨rfl, hpend.symm⟩
  | some r =>
    rw [ht] at hpend
    exact Or.inl ⟨r.1, r.2, rfl, hpend.symm⟩

theorem Plain.keeps (h : Plain os x s) (hcur : os.k.prioCur = task1Priority) (st : Status) :
    Keeps x (x.setStatus x.cur st).schedule := by
  refine ⟨?_, ?_, fun p hp => ?_⟩
  · unfold Spec.schedule
    split_ifs <;> rfl
  · rw [Spec.schedule_time]
    rfl
  · rw [Spec.schedule_status, ← h.rep.cur, hcur, Spec.setStatus_of_ne _ hp]

theorem Plain.cur (h : Plain os x s) (hcur : os.k.prioCur = task1Priority) :
    x.cur = task1Priority := h.rep.cur.symm.trans hcur

theorem Plain.pend (h : Plain os x s) (hcur : os.k.prioCur = task1Priority) (he : Own e)
    (hs : os.step (pendAct e n) = some (os', o)) :
    ∃ y, Base os' y ∧ Keeps x y ∧ (Got (y.status task1Priority) ∨
        y.status task1Priority = .waiting e n) ∧
      ∀ e', Own e' → s.stock e' = level y e' +
        if e' = e ∧ Got (y.status task1Priority) then 1 else 0 := by
  obtain ⟨y, hy, hrep, hgood, htasks⟩ := h.step hs
  obtain ⟨hin, hcase⟩ := pend_own (h.shape e he) hy
  refine ⟨y, ?_⟩
  rcases hcase with ⟨m, st, htake, rfl⟩ | ⟨htake, rfl⟩
  · have hst : (x.setStore e st).status = x.status := rfl
    refine ⟨⟨hrep, hgood, htasks.trans h.tasks, fun e' he' => ?_, h.alone⟩,
      ⟨rfl, rfl, fun _ _ => rfl⟩, ?_, ?_⟩
    · by_cases hee : e' = e
      · subst hee
        simpa [Spec.setStore] using (h.shape e' he').take htake
      · simpa [Spec.setStore, hee] using h.shape e' he'
    · rw [hst, h.running]
      exact Or.inl trivial
    · intro e' he'
      rw [h.stock e' he', hst, h.running]
      unfold level
      by_cases hee : e' = e
      · subst hee
        simp [Spec.setStore, Ucos.Store.contents_take htake, Got]
      · simp [Spec.setStore, hee]
  · have hst : (x.setStatus x.cur (.waiting e n)).schedule.status task1Priority = .waiting e n := by
      rw [Spec.schedule_status, h.cur hcur, Spec.setStatus_self]
    have hstore : (x.setStatus x.cur (.waiting e n)).schedule.store = x.store := by
      rw [Spec.schedule_store]
      rfl
    refine ⟨⟨hrep, hgood, htasks.trans h.tasks, ?_, fun p hp => ?_⟩, h.keeps hcur _, ?_, ?_⟩
    · rw [hstore]
      exact h.shape
    · rw [Spec.schedule_status, h.cur hcur, Spec.setStatus_of_ne _ hp]
      exact h.alone p hp
    · rw [hst]
      exact Or.inr rfl
    · intro e' he'
      rw [hst, if_neg (fun hc => hc.2), h.stock e' he', level, level, hstore]
      rfl

theorem Plain.dly (h : Plain os x s) (hcur : os.k.prioCur = task1Priority) (hn : 0 < n)
    (hs : os.step (.timeDly n) = some (os', o)) :
    ∃ y, Base os' y ∧ Keeps x y ∧ y.status task1Priority = .delayed n ∧
      ∀ e, Own e → s.stock e = level y e := by
  obtain ⟨y, hy, hrep, hgood, htasks⟩ := h.step hs
  simp only [Spec.step] at hy
  split_ifs at hy
  obtain ⟨rfl, -⟩ : (x.setStatus x.cur (.delayed n)).schedule = y ∧ Out.silent = o := by
    simpa using hy
  have hstore : (x.setStatus x.cur (.delayed n)).schedule.store = x.store := by
    rw [Spec.schedule_store]
    rfl
  refine ⟨_, ⟨hrep, hgood, htasks.trans h.tasks, ?_, fun p hp => ?_⟩, h.keeps hcur _, ?_,
    fun e he => ?_⟩
  · rw [hstore]
    exact h.shape
  · rw [Spec.schedule_status, h.cur hcur, Spec.setStatus_of_ne _ hp]
    exact h.alone p hp
  · rw [Spec.schedule_status, h.cur hcur, Spec.setStatus_self]
  · rw [h.stock e he, level, level, hstore]

/-- `OSSemSet(stop_sem, 0)`: nobody waits, so the tokens go. -/
theorem Plain.clear (h : Plain os x s) (hs : os.step (.semSet stopSem 0) = some (os', o)) :
    ∃ y, Plain os' y { s with stopSem := [] } ∧ os'.k.prioCur = os.k.prioCur ∧ Keeps x y := by
  obtain ⟨y, hy, hrep, hgood, htasks⟩ := h.step hs
  have hshape : (x.store stopSem).kind = .sem := h.shape stopSem (by decide)
  have hwait : ¬ (x.waiters stopSem).Nonempty := by
    rintro ⟨p, hp⟩
    have hw := (Spec.mem_waiters.mp hp).2
    by_cases hp1 : p = task1Priority
    · rw [hp1, h.running] at hw
      exact hw
    · exact h.alone p hp1 stopSem (by decide) hw
  obtain rfl : x.setStore stopSem (.sem 0) = y := by
    simp only [Spec.step] at hy
    split_ifs at hy
    cases hst : x.store stopSem with
    | queue =>
      rw [hst] at hshape
      cases hshape
    | sem k =>
      have hset : x.semSet stopSem 0 = (x.setStore stopSem (.sem 0), .none) := by
        unfold Spec.semSet
        rw [hst]
        exact if_pos (Or.inr hwait)
      rw [hset] at hy
      exact congrArg Prod.fst (Option.some.inj hy)
  refine ⟨_, ⟨⟨hrep, hgood, htasks.trans h.tasks, fun e he => ?_, h.alone⟩, h.now, fun e he => ?_,
    h.running⟩, hrep.cur.trans h.rep.cur.symm, ⟨rfl, rfl, fun _ _ => rfl⟩⟩
  · by_cases hes : e = stopSem
    · subst hes
      simp [Spec.setStore, Shape, stopSem, playerQueue, Ucos.Store.kind]
    · simpa [Spec.setStore, hes] using h.shape e he
  · have hstock := h.stock e he
    by_cases hes : e = stopSem
    · subst hes
      simp [Sys.stock, level, Spec.setStore, Ucos.Store.contents, stopSem, Rtos.startSem]
    · simpa [Sys.stock, level, Spec.setStore, hes] using hstock

/-- The call the task is in returns. -/
theorem Base.returned {b b' : Program} {err : Err} (h : Base b.os x)
    (hcur : b.os.k.prioCur = task1Priority) (hr : b.returned = some (b', err)) :
    ∃ y, Base b'.os y ∧ b' = { b with os := b'.os } ∧ b'.os.k.prioCur = task1Priority ∧
      Keeps x y ∧ y.store = x.store ∧ y.status task1Priority = .running ∧
      (Got (x.status task1Priority) ∧ err = .none ∨
        x.status task1Priority = .elapsed ∧ err = .none ∨
        ∃ e, x.status task1Priority = .timedOut e ∧ err = .timeout) := by
  have hxcur : x.cur = task1Priority := h.rep.cur.symm.trans hcur
  unfold Program.returned at hr
  split_ifs at hr with hctx
  · obtain ⟨rfl, rfl⟩ : b = b' ∧ Err.none = err := by simpa using hr
    have hrun := (h.rep.ctx_run_iff h.mem_task).mp hctx
    exact ⟨x, h, rfl, hcur, Keeps.refl x, rfl, hrun, Or.inl ⟨by rw [hrun]; trivial, rfl⟩⟩
  · obtain ⟨⟨os', o⟩, hs, hb⟩ := Option.map_eq_some_iff.mp hr
    obtain ⟨y, hy, hrep, hgood, htasks⟩ := h.step hs
    simp only [Prod.mk.injEq] at hb
    obtain ⟨rfl, herr⟩ := hb
    obtain ⟨rfl, hcase⟩ : x.setStatus x.cur .running = y ∧
        ((Got (x.status x.cur) ∧ err = .none) ∨ (x.status x.cur = .elapsed ∧ err = .none) ∨
          ∃ e, x.status x.cur = .timedOut e ∧ err = .timeout) := by
      simp only [Spec.step] at hy
      split_ifs at hy
      unfold Spec.resume at hy
      cases hst : x.status x.cur with
      | running | delayed | waiting =>
        rw [hst] at hy
        cases hy
      | elapsed =>
        rw [hst] at hy
        cases hy
        exact ⟨rfl, Or.inr (Or.inl ⟨rfl, herr.symm⟩)⟩
      | timedOut e =>
        rw [hst] at hy
        cases hy
        exact ⟨rfl, Or.inr (Or.inr ⟨e, rfl, herr.symm⟩)⟩
      | handed e msg =>
        rw [hst] at hy
        cases hy
        exact ⟨rfl, Or.inl ⟨trivial, herr.symm⟩⟩
    rw [hxcur] at hcase
    refine ⟨_, ⟨hrep, hgood, htasks.trans h.tasks, h.shape, fun p hp => ?_⟩, rfl,
      hrep.cur.trans hxcur, ⟨rfl, rfl, fun p hp => ?_⟩, rfl, ?_, hcase⟩
    · rw [hxcur, Spec.setStatus_of_ne _ hp]
      exact h.alone p hp
    · rw [hxcur, Spec.setStatus_of_ne _ hp]
    · rw [hxcur, Spec.setStatus_self]

/-! ## From call to call -/

theorem inHands_eq_zero {code : Code} (h : ¬ code.InCall) (st : Status) (e : ℕ) :
    inHands st code e = 0 := by
  cases code with
  | register | ready | pendStop => exact absurd trivial h
  | _ => simp [inHands, Code.event]

theorem statusAt_running {now : ℕ} {pc : TaskPc} (h : ¬ pc.code.InCall) :
    StatusAt now .running pc := by
  cases pc with
  | register | ready | waitStart | delayWait | pendStop | waitStop => exact absurd trivial h
  | _ => exact fun _ _ => id

theorem Plain.sim {b : Program} (h : Plain b.os x s) (hcall : ¬ b.code.InCall)
    (hdata : s.data = b.data) (hvars : s.vars = b.vars) (hcode : s.pc.code = b.code)
    (hpos : s.pc.DelayPos) : Sim b x s where
  toBase := h.toBase
  data := hdata
  vars := hvars
  code := hcode
  now := h.now
  stock e he := by rw [h.stock e he, inHands_eq_zero hcall, Nat.add_zero]
  status := by
    rw [h.running]
    exact statusAt_running (by rwa [hcode])
  delay := hpos

theorem Code.own_event {code : Code} (h : code.event = some e) : Own e := by
  cases code with
  | register | ready | pendStop =>
    cases h
    decide
  | _ => cases h

theorem Code.inCall_of_event {code : Code} (h : code.event = some e) : code.InCall := by
  cases code with
  | register | ready | pendStop => trivial
  | _ => cases h

/-- The task makes a call that may wait for an event. -/
theorem Plain.sim_pend {b : Program} (h : Plain os x s) (hcur : os.k.prioCur = task1Priority)
    (hevent : b.code.event = some e) (hs : os.step (pendAct e n) = some (b.os, o))
    (hdata : s.data = b.data) (hvars : s.vars = b.vars) (hcode : s.pc.code = b.code)
    (hst : ∀ st, Got st ∨ st = .waiting e n → StatusAt s.now st s.pc) (hpos : s.pc.DelayPos) :
    Ends x b s := by
  obtain ⟨y, hbase, hkeeps, hstatus, hstock⟩ := h.pend hcur (Code.own_event hevent) hs
  refine ⟨y, ⟨hbase, hdata, hvars, hcode, h.now.trans hkeeps.time.symm, fun e' he' => ?_, ?_,
    hpos⟩, hkeeps, fun hnot => absurd (Code.inCall_of_event hevent) hnot⟩
  · rw [hstock e' he', inHands, hevent]
    simp only [Option.some.injEq, eq_comm]
  · rw [hkeeps.time, ← h.now]
    exact hst _ hstatus

/-- The task makes a call that waits for some ticks. -/
theorem Plain.sim_dly {b : Program} (h : Plain os x s) (hcur : os.k.prioCur = task1Priority)
    (hn : 0 < n) (hevent : b.code.event = none) (hcall : b.code.InCall)
    (hs : os.step (.timeDly n) = some (b.os, o))
    (hdata : s.data = b.data) (hvars : s.vars = b.vars) (hcode : s.pc.code = b.code)
    (hst : ∀ st, DelayedTo s.now (s.now + n) st → StatusAt s.now st s.pc) (hpos : s.pc.DelayPos) :
    Ends x b s := by
  obtain ⟨y, hbase, hkeeps, hstatus, hstock⟩ := h.dly hcur hn hs
  refine ⟨y, ⟨hbase, hdata, hvars, hcode, h.now.trans hkeeps.time.symm, fun e' he' => ?_, ?_,
    hpos⟩, hkeeps, fun hnot => absurd hcall hnot⟩
  · rw [hstock e' he', inHands, hevent]
    simp
  · rw [hkeeps.time, ← h.now, hstatus]
    exact hst _ (Or.inl ⟨n, rfl, rfl⟩)

/-- The one delay of `OSTimeDlyHMSM(0, 0, 0, ms)`. -/
theorem osTimeDlyHMSM_ms {k : Ucos.Kernel} {ms : ℕ} (hk : k.intNesting = 0) (hpos : 0 < ms)
    (hms : ms ≤ 999) : k.osTimeDlyHMSM 0 0 0 ms = .ok [ms] := by
  have hticks : Ucos.osTicksPerSec * (ms + 500 / Ucos.osTicksPerSec) / 1000 = ms := by
    rw [Ucos.osTicksPerSec]
    omega
  have hshift : ms >>> 16 = 0 := Nat.shiftRight_eq_zero ms 16 (by omega)
  have hmask : ms &&& 0xFFFF = ms := by
    have := Nat.and_two_pow_sub_one_eq_mod ms 16
    rw [Nat.mod_eq_of_lt (by omega)] at this
    exact this
  unfold Ucos.Kernel.osTimeDlyHMSM
  rw [if_neg (by omega), if_neg (by omega), if_neg (by omega), if_neg (by omega),
    if_neg (by omega)]
  simp [hticks, hshift, hmask]

/-! ## One piece of the task -/

variable {rand : ℕ → ℕ} {b b' : Program}

theorem Sim.plain (h : Sim b x s) (hcall : ¬ b.code.InCall)
    (hin : b.code.InCall ∨ b.os.ctx task1Priority = .run) : Plain b.os x s :=
  { h.toBase with
    now := h.now
    stock := fun e he => by rw [h.stock e he, inHands_eq_zero hcall, Nat.add_zero]
    running := (h.rep.ctx_run_iff h.mem_task).mp (hin.resolve_left hcall) }

/-- A pend of the task returns without an error. What it got is taken from the stock. -/
theorem Sim.got (h : Sim b x s) {os : Ucos.Sys} (hy : Base os y) (hkeeps : Keeps x y)
    (hstore : y.store = x.store) (hrun : y.status task1Priority = .running)
    (hevent : b.code.event = some e) (hgot : Got (x.status task1Priority)) {s' : Sys}
    (hnow : s'.now = s.now)
    (hstock : ∀ e', Own e' → s.stock e' = s'.stock e' + if e' = e then 1 else 0) :
    Plain os y s' :=
  { hy with
    now := by rw [hnow, h.now, hkeeps.time]
    stock := fun e' he' => by
      have hold := h.stock e' he'
      rw [hstock e' he', inHands, hevent] at hold
      have hlevel : level y e' = level x e' := by rw [level, level, hstore]
      rw [hlevel]
      by_cases hee : e' = e
      · subst hee
        simpa [hgot] using hold
      · simpa [hee, Ne.symm hee] using hold
    running := hrun }

theorem Sim.gotNothing (h : Sim b x s) {os : Ucos.Sys} (hy : Base os y) (hkeeps : Keeps x y)
    (hstore : y.store = x.store) (hrun : y.status task1Priority = .running)
    (hgot : b.code.event = none ∨ ¬ Got (x.status task1Priority)) : Plain os y s :=
  { hy with
    now := by rw [h.now, hkeeps.time]
    stock := fun e he => by
      rw [h.stock e he, level, level, hstore, inHands]
      rcases hgot with hnone | hnot
      · simp [hnone]
      · simp [hnot]
    running := hrun }

theorem Sim.stock_pos (h : Sim b x s) (hevent : b.code.event = some e)
    (hgot : Got (x.status task1Priority)) : 0 < s.stock e := by
  rw [h.stock e (Code.own_event hevent), inHands, if_pos ⟨hevent, hgot⟩]
  exact Nat.succ_pos _

/-- The stock of an event on which the task waits in vain. -/
theorem Sim.stock_waits (h : Sim b x s) (he : Own e)
    (hw : (x.status task1Priority).WaitsFor e) : s.stock e = 0 := by
  have hwait : task1Priority ∈ x.waiters e := Spec.mem_waiters.mpr ⟨h.mem_task, hw⟩
  have hnot : ¬ Got (x.status task1Priority) := by
    intro hgot
    cases hst : x.status task1Priority with
    | running | handed =>
      rw [hst] at hw
      exact hw
    | delayed | elapsed | waiting | timedOut =>
      rw [hst] at hgot
      exact hgot
  rw [h.stock e he, level, Ucos.Store.contents_eq_nil (h.good.waiting_empty e _ hwait), inHands,
    if_neg fun hc => hnot hc.2]
  rfl

theorem Plain.sim_goOn (h : Plain b.os x s) (hdata : s.data = b.data) (pc : TaskPc) {vars : Vars}
    (hs : b.goOn pc.code vars = some b') (hcall : ¬ pc.code.InCall) (hpos : pc.DelayPos) :
    Ends x b' { s with vars := vars, pc := pc } := by
  obtain rfl := Option.some.inj hs
  have hplain : Plain b.os x { s with vars := vars, pc := pc } := { h with }
  exact ⟨x, Plain.sim hplain hcall hdata rfl rfl hpos, Keeps.refl x, fun _ => h.running⟩

theorem Plain.sim_call (h : Plain b.os x s) (hcur : b.os.k.prioCur = task1Priority)
    (hdata : s.data = b.data) (e n : ℕ) (pc : TaskPc) {vars : Vars}
    (hs : b.call (pendAct e n) pc.code vars = some b') (hevent : pc.code.event = some e)
    (hst : ∀ st, Got st ∨ st = .waiting e n → StatusAt s.now st pc) (hpos : pc.DelayPos) :
    Ends x b' { s with vars := vars, pc := pc } := by
  obtain ⟨⟨os', o⟩, hstep, rfl⟩ := Option.map_eq_some_iff.mp hs
  have hplain : Plain b.os x { s with vars := vars, pc := pc } := { h with }
  exact hplain.sim_pend (b := { b with os := os', code := pc.code, vars := vars }) hcur hevent
    hstep hdata rfl rfl hst hpos

theorem Plain.sim_wait (h : Plain b.os x s) (hcur : b.os.k.prioCur = task1Priority)
    (hdata : s.data = b.data) (pc : TaskPc) {vars : Vars}
    (hs : b.call (.timeDly n) pc.code vars = some b') (hn : 0 < n) (hevent : pc.code.event = none)
    (hcall : pc.code.InCall) (hst : ∀ st, DelayedTo s.now (s.now + n) st → StatusAt s.now st pc)
    (hpos : pc.DelayPos) : Ends x b' { s with vars := vars, pc := pc } := by
  obtain ⟨⟨os', o⟩, hstep, rfl⟩ := Option.map_eq_some_iff.mp hs
  have hplain : Plain b.os x { s with vars := vars, pc := pc } := { h with }
  exact hplain.sim_dly (b := { b with os := os', code := pc.code, vars := vars }) hcur hn hevent
    hcall hstep hdata rfl rfl hst hpos

theorem callHMSM_eq (hnest : b.os.k.intNesting = 0) {ms : ℕ} (hpos : 0 < ms) (hms : ms ≤ 999)
    (code : Code) : b.callHMSM ms code = b.call (.timeDly ms) code b.vars := by
  unfold Program.callHMSM
  rw [osTimeDlyHMSM_ms hnest hpos hms]

/-- From a place in its own code, the task does what `taskStep` says. -/
theorem sim_task_plain (h : Plain b.os x s) (hcall : ¬ b.code.InCall) (hdata : s.data = b.data)
    (hvars : s.vars = b.vars) (hcode : s.pc.code = b.code) (hpos : s.pc.DelayPos)
    (hnest : b.os.k.intNesting = 0) (hcur : b.os.k.prioCur = task1Priority)
    (hs : b.task rand = some b') :
    ∃ s', s.taskStep rand = some s' ∧ Ends x b' s' := by
  unfold Program.task at hs
  unfold Sys.taskStep
  rw [← hcode, ← hvars, ← hdata] at hs
  cases hpc : s.pc with
  | register | ready | waitStart | delayWait | pendStop | waitStop =>
    rw [← hcode, hpc] at hcall
    exact absurd trivial hcall
  | idle =>
    rw [hpc] at hs
    dsimp only [TaskPc.code] at hs ⊢
    split_ifs at hs ⊢ with hreg
    · have hends := h.sim_call hcur hdata playerQueue 0 .register hs rfl (fun st hst => hst)
        trivial
      exact ⟨_, rfl, hends⟩
    · have hends := h.sim_call hcur hdata startSem 0 .ready hs rfl (fun st hst => hst)
        trivial
      exact ⟨_, rfl, hends⟩
  | start =>
    rw [hpc] at hs
    exact ⟨_, rfl, h.sim_goOn hdata _ hs id trivial⟩
  | pollStart =>
    rw [hpc] at hs
    dsimp only [TaskPc.code] at hs ⊢
    split_ifs at hs ⊢ with hpressed
    · rw [callHMSM_eq hnest (by decide) (by decide)] at hs
      have hends := h.sim_wait hcur hdata (.waitStart (s.now + 1)) hs (by decide) rfl
        trivial (fun st hst => hst) trivial
      rw [← hvars] at hends
      exact ⟨_, rfl, hends⟩
    · exact ⟨_, rfl, h.sim_goOn hdata _ hs id trivial⟩
  | delay =>
    rw [hpc] at hs
    dsimp only [TaskPc.code] at hs ⊢
    have htime : b.os.k.osTimeGet.toNat = s.now % 2 ^ 32 := by
      rw [Ucos.Kernel.osTimeGet, h.rep.time, BitVec.toNat_ofNat, h.now]
    rw [htime] at hs
    have hends := h.sim_wait hcur hdata
      (.delayWait (Sys.randDelay rand s.now) (s.now + Sys.randDelay rand s.now)) hs
      (by unfold minRandDelay; omega) rfl trivial (fun st hst => hst)
      (Nat.lt_add_left _ (by decide))
    exact ⟨_, rfl, hends⟩
  | cheatCheck d =>
    rw [hpc] at hs
    dsimp only [TaskPc.code] at hs ⊢
    split_ifs at hs ⊢ with hpressed
    · obtain ⟨b₁, hclear, hwait⟩ := Option.bind_eq_some_iff.mp hs
      obtain ⟨⟨os', o⟩, hstep, rfl⟩ := Option.map_eq_some_iff.mp hclear
      obtain ⟨z, hplain, hcur', hkeeps⟩ := h.clear hstep
      rw [hpc] at hpos
      have hends := Plain.sim_wait (b := { b with os := os' }) hplain (hcur'.trans hcur) hdata
        (.delayWait d (s.now + d)) hwait hpos rfl trivial (fun st hst => hst) hpos
      rw [← hvars] at hends
      exact ⟨_, rfl, hkeeps.ends hends⟩
    · have hplain : Plain b.os x { s with entered := s.events, timeouts := 0 } := { h with }
      exact ⟨_, rfl, hplain.sim_goOn hdata _ hs id trivial⟩
  | count time =>
    rw [hpc] at hs
    dsimp only [TaskPc.code] at hs ⊢
    split_ifs at hs ⊢ with htime
    · have hends := h.sim_call hcur hdata stopSem 1 (.pendStop time (s.now + 1)) hs rfl
        (fun st hst => hst.imp id fun hw => Or.inl ⟨hw, rfl⟩) trivial
      exact ⟨_, rfl, hends⟩
    · exact ⟨_, rfl, h.sim_goOn hdata _ hs id trivial⟩
  | stop =>
    rw [hpc] at hs
    exact ⟨_, rfl, h.sim_goOn hdata _ hs id trivial⟩
  | pollStop new =>
    rw [hpc] at hs
    dsimp only [TaskPc.code] at hs ⊢
    split_ifs at hs ⊢ with hpressed
    · rw [callHMSM_eq hnest (by decide) (by decide)] at hs
      have hends := h.sim_wait hcur hdata (.waitStop new (s.now + 100)) hs (by decide) rfl
        trivial (fun st hst => hst) trivial
      rw [← hvars] at hends
      exact ⟨_, rfl, hends⟩
    · exact ⟨_, rfl, h.sim_goOn hdata _ hs id trivial⟩

theorem PendsOn.got {st : Status} (h : PendsOn e st) {err : Err}
    (hcase : Got st ∧ err = .none ∨ st = .elapsed ∧ err = .none ∨
      ∃ e, st = .timedOut e ∧ err = .timeout) : Got st := by
  rcases h with hgot | hwait
  · exact hgot
  · rw [hwait] at hcase
    simp [Got] at hcase

theorem DelayedTo.over {st : Status} {now deadline : ℕ} (h : DelayedTo now deadline st) {err : Err}
    (hcase : Got st ∧ err = .none ∨ st = .elapsed ∧ err = .none ∨
      ∃ e, st = .timedOut e ∧ err = .timeout) : deadline ≤ now := by
  rcases h with ⟨left, hst, -⟩ | ⟨-, hle⟩
  · rw [hst] at hcase
    simp [Got] at hcase
  · exact hle

/-- A delay of the task returns: its time is over, and the task goes on behind it. -/
theorem Sim.delay_returned {deadline : ℕ} (h : Sim b x s) (hcur : b.os.k.prioCur = task1Priority)
    (hst : DelayedTo x.time deadline (x.status task1Priority)) (hevent : b.code.event = none)
    (pc : TaskPc) (f : Vars → Vars)
    (hs : (b.returned.bind fun (b, _) => b.goOn pc.code (f b.vars)) = some b')
    (hcall : ¬ pc.code.InCall) (hpos : pc.DelayPos) :
    deadline ≤ s.now ∧ Ends x b' { s with vars := f s.vars, pc := pc } := by
  obtain ⟨⟨b₁, err⟩, hret, hs⟩ := Option.bind_eq_some_iff.mp hs
  obtain ⟨y, hy, hb₁, -, hkeeps, hstore, hrun, hcase⟩ := h.returned hcur hret
  have hplain := h.gotNothing hy hkeeps hstore hrun (Or.inl hevent)
  have hends := hplain.sim_goOn (by rw [hb₁]; exact h.data) pc hs hcall hpos
  rw [hb₁, ← h.vars] at hends
  exact ⟨by rw [h.now]; exact hst.over hcase, hkeeps.ends hends⟩

/-- The pend of COUNT returns with a token, or because a tick is over. -/
theorem sim_task_pendStop {time deadline : ℕ} (h : Sim b x s) (hpc : s.pc = .pendStop time deadline)
    (hcur : b.os.k.prioCur = task1Priority) (hs : b.task rand = some b') :
    ∃ s', s.taskStep rand = some s' ∧ Ends x b' s' := by
  have hcode := h.code
  have hdata := h.data
  have hvars := h.vars
  have hst := h.status
  unfold Program.task at hs
  unfold Sys.taskStep
  rw [← hcode, hpc] at hs
  rw [hpc] at hst hcode ⊢
  obtain ⟨⟨b₁, err⟩, hret, hs⟩ := Option.bind_eq_some_iff.mp hs
  obtain ⟨y, hy, hb₁, hcur₁, hkeeps, hstore, hrun, hcase⟩ := h.returned hcur hret
  have hevent : b.code.event = some Rtos.stopSem := by rw [← hcode]; rfl
  have hdata₁ : s.data = b₁.data := by rw [hb₁]; exact hdata
  dsimp only at hs ⊢
  rcases hst with hgot | ⟨hwait, -⟩ | ⟨htimed, hle⟩
  · -- the pend returns a token
    have herr : err ≠ .timeout := by
      rcases hcase with ⟨-, rfl⟩ | ⟨-, rfl⟩ | ⟨e, he, -⟩
      · simp
      · simp
      · rw [he] at hgot
        exact hgot.elim
    have hpos : 0 < s.stopSem.length := h.stock_pos hevent hgot
    obtain ⟨k, ts, htok⟩ := List.exists_cons_of_length_pos hpos
    have hplain : Plain b₁.os y { s with stopSem := ts, taken := k } := by
      refine h.got hy hkeeps hstore hrun hevent hgot rfl fun e he => ?_
      rcases he with rfl | rfl | rfl
      · rfl
      · show s.stopSem.length = ts.length + 1
        rw [htok]
        rfl
      · rfl
    rw [if_pos herr] at hs
    rw [htok]
    dsimp only
    split_ifs at hs ⊢ with hfast
    · have hends := hplain.sim_goOn hdata₁ .idle hs id trivial
      rw [hb₁, ← hvars] at hends
      exact ⟨_, rfl, hkeeps.ends hends⟩
    · have hends := hplain.sim_goOn hdata₁ .stop hs id trivial
      rw [hb₁, ← hvars] at hends
      exact ⟨_, rfl, hkeeps.ends hends⟩
  · rw [hwait] at hcase
    simp [Got] at hcase
  · -- the pend times out
    have herr : err = .timeout := by
      rw [htimed] at hcase
      simpa [Got] using hcase
    have hnil : s.stopSem = [] := by
      have hzero := h.stock_waits (e := Rtos.stopSem) (by decide) (by rw [htimed]; rfl)
      exact List.length_eq_zero_iff.mp hzero
    have hplain : Plain b₁.os y { s with timeouts := s.timeouts + 1 } :=
      { h.gotNothing hy hkeeps hstore hrun (Or.inr (by rw [htimed]; exact id)) with }
    rw [if_neg (not_not_intro herr)] at hs
    have hends := hplain.sim_goOn hdata₁ (.count (time + 1)) hs id trivial
    rw [hb₁, ← hvars] at hends
    rw [hnil]
    have hnow : deadline ≤ s.now := by rwa [h.now]
    exact ⟨_, if_pos hnow, by simpa only [hnil] using hkeeps.ends hends⟩

/-- From a call that returns, the task does what `taskStep` says. -/
theorem sim_task_call (h : Sim b x s) (hcall : b.code.InCall)
    (hcur : b.os.k.prioCur = task1Priority) (hs : b.task rand = some b') :
    ∃ s', s.taskStep rand = some s' ∧ Ends x b' s' := by
  have hcode := h.code
  have hdata := h.data
  have hvars := h.vars
  have hst := h.status
  have hdelay := h.delay
  by_cases hstop : ∃ time deadline, s.pc = .pendStop time deadline
  · obtain ⟨time, deadline, hpc⟩ := hstop
    exact sim_task_pendStop h hpc hcur hs
  unfold Program.task at hs
  unfold Sys.taskStep
  rw [← hcode] at hs
  cases hpc : s.pc with
  | idle | start | pollStart | delay | cheatCheck | count | stop | pollStop =>
    rw [← hcode, hpc] at hcall
    exact hcall.elim
  | register =>
    rw [hpc] at hs hst hcode
    obtain ⟨⟨b₁, err⟩, hret, hs⟩ := Option.bind_eq_some_iff.mp hs
    obtain ⟨y, hy, hb₁, hcur₁, hkeeps, hstore, hrun, hcase⟩ := h.returned hcur hret
    have hgot := PendsOn.got hst hcase
    have hevent : b.code.event = some playerQueue := by rw [← hcode]; rfl
    have hpos : 0 < s.queue := h.stock_pos hevent hgot
    have hplain : Plain b₁.os y { s with queue := s.queue - 1 } := by
      refine h.got hy hkeeps hstore hrun hevent hgot rfl fun e he => ?_
      rcases he with rfl | rfl | rfl
      · rfl
      · rfl
      · show s.queue = s.queue - 1 + 1
        omega
    have hends := hplain.sim_call hcur₁ (by rw [hb₁]; exact hdata) startSem 0 .ready hs rfl
      (fun st hst => hst) trivial
    rw [hb₁] at hends
    rw [← hvars] at hends
    exact ⟨_, if_pos hpos, hkeeps.ends hends⟩
  | ready =>
    rw [hpc] at hs hst hcode
    obtain ⟨⟨b₁, err⟩, hret, hs⟩ := Option.bind_eq_some_iff.mp hs
    obtain ⟨y, hy, hb₁, hcur₁, hkeeps, hstore, hrun, hcase⟩ := h.returned hcur hret
    have hgot := PendsOn.got hst hcase
    have hevent : b.code.event = some Rtos.startSem := by rw [← hcode]; rfl
    have hpos : 0 < s.startSem.length := h.stock_pos hevent hgot
    obtain ⟨k, ts, htok⟩ := List.exists_cons_of_length_pos hpos
    have hplain : Plain b₁.os y { s with startSem := ts } := by
      refine h.got hy hkeeps hstore hrun hevent hgot rfl fun e he => ?_
      rcases he with rfl | rfl | rfl
      · show s.startSem.length = ts.length + 1
        rw [htok]
        rfl
      · rfl
      · rfl
    have hends := hplain.sim_goOn (by rw [hb₁]; exact hdata) .start hs id trivial
    rw [hb₁, ← hvars] at hends
    dsimp only
    rw [htok]
    exact ⟨_, rfl, hkeeps.ends hends⟩
  | waitStart deadline =>
    rw [hpc] at hs hst hcode
    obtain ⟨hover, hends⟩ := h.delay_returned hcur hst (by rw [← hcode]; rfl) .pollStart id hs id
      trivial
    exact ⟨_, if_pos hover, hends⟩
  | delayWait d deadline =>
    rw [hpc] at hs hst hcode hdelay
    obtain ⟨hover, hends⟩ := h.delay_returned hcur hst (by rw [← hcode]; rfl) (.cheatCheck d) id
      hs id hdelay
    exact ⟨_, if_pos hover, hends⟩
  | waitStop new deadline =>
    rw [hpc] at hs hst hcode
    obtain ⟨hover, hends⟩ := h.delay_returned hcur hst (by rw [← hcode]; rfl) (.pollStop new)
      (fun v => if new = true then v.rotate else v) hs id trivial
    exact ⟨_, if_pos hover, hends⟩
  | pendStop time deadline => exact absurd ⟨time, deadline, hpc⟩ hstop

end Calls

end Rtos

end ReactionMeter
