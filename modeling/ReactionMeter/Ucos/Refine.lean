import ReactionMeter.Ucos.Spec

/-!
# The kernel keeps its promise

`Represents`: the tables and control blocks of the kernel, with the places the tasks stand at, stand
for a state of `Spec`. Each function of the kernel takes what represents a state to what represents
the state after (`Represents.sched`, `Represents.eventTaskRdy` and so on), and so the two systems
can take the same steps with the same outputs (`kernel_bisim`).
-/

namespace ReactionMeter

namespace Ucos

/-! ## What a control block says -/

def Kind.stat : Kind → BitVec 8
  | .sem => osStatSem
  | .queue => osStatQ

def Obj.store : Obj → Store
  | .sem cnt => .sem cnt
  | .queue q => .queue q.qSize q.contents

theorem Obj.stat_eq (o : Obj) : o.stat = o.store.kind.stat := by cases o <;> rfl

theorem Kind.stat_pendAny (kind : Kind) : kind.stat &&& osStatPendAny ≠ osStatRdy := by
  cases kind <;> decide

theorem Kind.stat_clear (kind : Kind) : kind.stat &&& ~~~osStatPendAny = osStatRdy := by
  cases kind <;> decide

theorem Kind.stat_and_not (kind : Kind) : kind.stat &&& ~~~kind.stat = osStatRdy := by
  cases kind <;> decide

/-- The message a task is handed is in its control block, and null for a semaphore. -/
def Kind.message (kind : Kind) (msg : Msg) : Msg :=
  match kind with
  | .sem => 0
  | .queue => msg

/-- The control block and the place of a task that has the status. -/
def Status.Rep (kind : ℕ → Kind) (t : Tcb) (c : Ctx) : Status → Prop
  | .running => t.stat = osStatRdy ∧ t.dly = 0 ∧ c = .run
  | .delayed n => t.stat = osStatRdy ∧ t.dly = n ∧ c = .dly
  | .elapsed => t.stat = osStatRdy ∧ t.dly = 0 ∧ c = .dly
  | .waiting e n => t.stat = (kind e).stat ∧ t.dly = n ∧ t.statPend = .ok ∧ c = .pend e
  | .timedOut e => t.stat = osStatRdy ∧ t.dly = 0 ∧ t.statPend = .timeout ∧ c = .pend e
  | .handed e msg =>
    t.stat = osStatRdy ∧ t.dly = 0 ∧ t.statPend = .ok ∧ msg = (kind e).message t.msg ∧ c = .pend e

/-! ## The tick of one control block -/

/-- What `OSTimeTick` does to a control block. -/
def Tcb.tick (t : Tcb) : Tcb :=
  if t.dly = 0 then t
  else if t.dly ≠ 1 then { t with dly := t.dly - 1 }
  else if t.stat &&& osStatPendAny ≠ osStatRdy then
    { t with dly := 0, stat := t.stat &&& ~~~osStatPendAny, statPend := .timeout }
  else { t with dly := 0, statPend := .ok }

/-- The tick makes the task ready. -/
def Tcb.Ends (t : Tcb) : Prop := t.dly = 1 ∧ t.tick.stat &&& osStatSuspend = osStatRdy

instance (t : Tcb) : Decidable t.Ends := by unfold Tcb.Ends; infer_instance

theorem Kernel.tickTask_eq (k : Kernel) (p : Prio) :
    k.tickTask p =
      { k with
        tcb := Function.update k.tcb p (k.tcb p).tick
        rdy := if (k.tcb p).Ends then k.rdy.insert p else k.rdy } := by
  unfold Kernel.tickTask Tcb.Ends
  by_cases h0 : (k.tcb p).dly = 0
  · simp [h0, Tcb.tick]
  · by_cases h1 : (k.tcb p).dly = 1
    · by_cases hpend : (k.tcb p).stat &&& osStatPendAny = osStatRdy
      · by_cases hsusp : (k.tcb p).stat &&& osStatSuspend = osStatRdy
        · simp [h1, Tcb.tick, hpend, hsusp, Kernel.setTcb]
        · simp [h1, Tcb.tick, hpend, hsusp, Kernel.setTcb]
      · by_cases hsusp : (k.tcb p).stat &&& ~~~osStatPendAny &&& osStatSuspend = osStatRdy
        · simp [h1, Tcb.tick, hpend, hsusp, Kernel.setTcb]
        · simp [h1, Tcb.tick, hpend, hsusp, Kernel.setTcb]
    · have h2 : (k.tcb p).dly - 1 ≠ 0 := by omega
      simp [h0, h1, h2, Tcb.tick, Kernel.setTcb]

/-- The loop over the control blocks, in one step. -/
theorem Kernel.foldl_tickTask (k : Kernel) {l : List Prio} (hl : l.Nodup) :
    ∃ rdy : Table, (∀ q, q ∈ rdy ↔ q ∈ k.rdy ∨ q ∈ l ∧ (k.tcb q).Ends) ∧
      l.foldl Kernel.tickTask k =
        { k with
          tcb := fun q => if q ∈ l then (k.tcb q).tick else k.tcb q
          rdy := rdy } := by
  induction l generalizing k with
  | nil => exact ⟨k.rdy, by simp, by simp⟩
  | cons p l ih =>
    obtain ⟨hp, hnodup⟩ := List.nodup_cons.mp hl
    obtain ⟨rdy, hrdy, hfold⟩ := ih (k.tickTask p) hnodup
    refine ⟨rdy, fun q => ?_, ?_⟩
    · have hmem : q ∈ (k.tickTask p).rdy ↔ q ∈ k.rdy ∨ q = p ∧ (k.tcb p).Ends := by
        rw [Kernel.tickTask_eq]
        by_cases hend : (k.tcb p).Ends
        · rw [if_pos hend, PrioTable.mem_insert, or_comm]
          simp only [hend, and_true]
        · simp only [hend, if_false, and_false, or_false]
      rw [hrdy, hmem, Kernel.tickTask_eq]
      by_cases hqp : q = p
      · subst hqp
        simp [hp]
      · simp [hqp]
    · rw [List.foldl_cons, hfold, Kernel.tickTask_eq]
      congr 1
      funext q
      by_cases hqp : q = p
      · subst hqp
        simp [hp]
      · simp [hqp]

theorem Status.Rep.tick {kind : ℕ → Kind} {t : Tcb} {c : Ctx} {st : Status}
    (h : st.Rep kind t c) : st.tick.Rep kind t.tick c := by
  cases st with
  | running | elapsed | timedOut | handed =>
    have hdly := h.2.1
    have htick : t.tick = t := by simp [Tcb.tick, hdly]
    rw [htick]
    exact h
  | delayed n =>
    obtain ⟨hstat, rfl, hc⟩ := h
    by_cases h1 : t.dly = 1
    · simp [Status.tick, Status.Rep, Tcb.tick, h1, hstat, hc, osStatRdy]
    · by_cases h0 : t.dly = 0
      · simp [Status.tick, Status.Rep, Tcb.tick, h0, hstat, hc]
      · simp [Status.tick, Status.Rep, Tcb.tick, h0, h1, hstat, hc]
  | waiting e n =>
    obtain ⟨hstat, rfl, hpend, hc⟩ := h
    by_cases h1 : t.dly = 1
    · simp [Status.tick, Status.Rep, Tcb.tick, h1, hstat, hc, Kind.stat_pendAny, Kind.stat_clear]
    · by_cases h0 : t.dly = 0
      · simp [Status.tick, Status.Rep, Tcb.tick, h0, hstat, hc, hpend]
      · simp [Status.tick, Status.Rep, Tcb.tick, h0, h1, hstat, hc, hpend]

/-- A task that is not ready becomes ready by a tick if its time ends. -/
theorem Status.Rep.ends_iff {kind : ℕ → Kind} {t : Tcb} {c : Ctx} {st : Status}
    (h : st.Rep kind t c) : st.Ready ∨ t.Ends ↔ st.tick.Ready := by
  unfold Tcb.Ends
  cases st with
  | running | elapsed | timedOut | handed => simp [Status.tick, Status.Ready]
  | delayed n =>
    obtain ⟨hstat, rfl, hc⟩ := h
    by_cases h1 : t.dly = 1
    · simp [Status.tick, Status.Ready, Tcb.tick, h1, hstat, osStatRdy]
    · simp [Status.tick, Status.Ready, h1]
  | waiting e n =>
    obtain ⟨hstat, rfl, hpend, hc⟩ := h
    by_cases h1 : t.dly = 1
    · have htick : t.tick.stat = osStatRdy := by
        simp [Tcb.tick, h1, hstat, Kind.stat_pendAny, Kind.stat_clear]
      simp [Status.tick, Status.Ready, h1, htick, osStatRdy]
    · simp [Status.tick, Status.Ready, h1]

/-- `OS_EventTaskRdy`, when no other bit than that of the event keeps the task from running. -/
theorem Kernel.osEventTaskRdy_eq {k : Kernel} {e : ℕ} {msg : Msg} {msk : BitVec 8} {p : Prio}
    (hp : highest (k.ev e).wait = p) (hstat : (k.tcb p).stat &&& ~~~msk = osStatRdy) :
    k.osEventTaskRdy e msg msk .ok =
      { k with
        rdy := k.rdy.insert p
        tcb := Function.update k.tcb p { stat := osStatRdy, statPend := .ok, dly := 0, msg := msg }
        ev := Function.update k.ev e { k.ev e with wait := (k.ev e).wait.erase p } } := by
  subst hp
  unfold Kernel.osEventTaskRdy
  simp only [hstat]
  rw [if_pos (by decide)]
  rfl

/-! ## Representation -/

structure Represents (s : Sys) (a : Spec) : Prop where
  cur : s.k.prioCur = a.cur
  nest : s.k.intNesting = a.nest
  time : s.k.time = BitVec.ofNat 32 a.time
  mem_tasks : ∀ p, p ∈ a.tasks ↔ p = osTaskIdlePrio ∨ p ∈ s.k.tcbList
  nodup : s.k.tcbList.Nodup
  idle_notMem : osTaskIdlePrio ∉ s.k.tcbList
  rdy : s.k.rdy.toFinset = a.ready
  wait : ∀ e, (s.k.ev e).wait.toFinset = a.waiters e
  store : ∀ e, (s.k.ev e).obj.store = a.store e
  task : ∀ p ∈ a.tasks, (a.status p).Rep (fun e => (a.store e).kind) (s.k.tcb p) (s.ctx p)

theorem highest_eq_inf {t : Table} {f : Finset Prio} (h : t.toFinset = f) (hne : f.Nonempty) :
    highest t = f.inf id := by
  subst h
  have hleast := PrioTable.isLeast_first (PrioTable.grp_ne_zero_iff.mpr hne)
  rw [highest_eq_first]
  exact le_antisymm (Finset.le_inf fun q hq => hleast.2 hq) (Finset.inf_le (f := id) hleast.1)

namespace Represents

variable {s : Sys} {a : Spec} {p : Prio} {e : ℕ} {st : Status}

theorem receiver (h : Represents s a) (e : ℕ) : s.receiver e = a.receiver e := by
  unfold Sys.receiver Spec.receiver
  by_cases hne : (a.waiters e).Nonempty
  · have hgrp : (s.k.ev e).wait.grp ≠ 0#8 := by rwa [PrioTable.grp_ne_zero_iff, h.wait]
    rw [if_pos hne, if_pos hgrp, highest_eq_inf (h.wait e) hne]
  · have hgrp : ¬ (s.k.ev e).wait.grp ≠ 0#8 := by rwa [PrioTable.grp_ne_zero_iff, h.wait]
    rw [if_neg hne, if_neg hgrp]

theorem setStatus (h : Represents s a) (hp : p ∈ a.tasks) (st : Status) (t : Tcb) (c : Ctx)
    (rdy : Table) (ev : ℕ → Event)
    (hrdy : rdy.toFinset = if st.Ready then insert p a.ready else a.ready.erase p)
    (hwait : ∀ e, (ev e).wait.toFinset =
      if st.WaitsFor e then insert p (a.waiters e) else (a.waiters e).erase p)
    (hobj : ∀ e, (ev e).obj = (s.k.ev e).obj)
    (hrep : st.Rep (fun e => (a.store e).kind) t c) :
    Represents
      { k := { s.k with rdy := rdy, tcb := Function.update s.k.tcb p t, ev := ev }
        ctx := Function.update s.ctx p c }
      (a.setStatus p st) where
  cur := h.cur
  nest := h.nest
  time := h.time
  mem_tasks := h.mem_tasks
  nodup := h.nodup
  idle_notMem := h.idle_notMem
  rdy := by rw [Spec.ready_setStatus hp, ← hrdy]
  wait e := by rw [Spec.waiters_setStatus hp, ← hwait]
  store e := by
    show (ev e).obj.store = a.store e
    rw [hobj, h.store]
  task q hq := by
    by_cases hqp : q = p
    · subst hqp
      simpa [Spec.setStatus] using hrep
    · simpa [Spec.setStatus, hqp] using h.task q hq

theorem setStore (h : Represents s a) {o : Obj} (ho : o.store.kind = (a.store e).kind) :
    Represents (s.setK (s.k.setObj e o)) (a.setStore e o.store) where
  cur := h.cur
  nest := h.nest
  time := h.time
  mem_tasks := h.mem_tasks
  nodup := h.nodup
  idle_notMem := h.idle_notMem
  rdy := h.rdy
  wait e' := by
    refine Eq.trans ?_ (h.wait e')
    by_cases he : e' = e
    · subst he
      simp [Sys.setK, Kernel.setObj]
    · simp [Sys.setK, Kernel.setObj, he]
  store e' := by
    by_cases he : e' = e
    · subst he
      simp [Sys.setK, Kernel.setObj, Spec.setStore]
    · simpa [Sys.setK, Kernel.setObj, Spec.setStore, he] using h.store e'
  task q hq := by
    have hkind : (fun e' => ((a.setStore e o.store).store e').kind) =
        fun e' => (a.store e').kind := by
      funext e'
      by_cases he : e' = e
      · subst he
        simp [Spec.setStore, ho]
      · simp [Spec.setStore, he]
    rw [hkind]
    exact h.task q hq

/-- `OS_Sched` gives the processor to the ready task of highest priority. -/
theorem sched (h : Represents s a) (hne : a.ready.Nonempty) :
    Represents (s.setK s.k.osSched) a.schedule := by
  have hnest := h.nest
  unfold Kernel.osSched Spec.schedule
  by_cases h0 : a.nest = 0
  · rw [if_pos h0, if_pos (hnest.trans h0)]
    exact
      { h with cur := highest_eq_inf h.rdy hne }
  · rw [if_neg h0, if_neg (by rwa [hnest])]
    exact h

/-! ## The functions of the kernel -/

/-- `OS_EventTaskRdy`: the task of highest priority gets the message. -/
theorem eventTaskRdy (h : Represents s a) (hp : a.receiver e = some p) {kind : Kind}
    (hkind : (a.store e).kind = kind) {msg : Msg} (hmsg : msg = kind.message msg) :
    Represents (s.setK (s.k.osEventTaskRdy e msg kind.stat .ok))
      (a.setStatus p (.handed e msg)) := by
  subst hkind
  obtain ⟨htask, hw⟩ := Spec.mem_waiters.mp (Spec.receiver_mem hp)
  have hrep := h.task p htask
  have hhigh : highest (s.k.ev e).wait = p := by
    rw [← h.receiver e, Sys.receiver] at hp
    split_ifs at hp
    exact Option.some.inj hp
  -- the task waits still, or its time is over
  obtain ⟨hstat, hctx⟩ :
      (s.k.tcb p).stat &&& ~~~(a.store e).kind.stat = osStatRdy ∧ s.ctx p = .pend e := by
    cases hst : a.status p with
    | waiting e' n =>
      rw [hst] at hw hrep
      obtain rfl : e' = e := hw
      obtain ⟨hstat, -, -, hctx⟩ := hrep
      exact ⟨by rw [hstat]; exact Kind.stat_and_not _, hctx⟩
    | timedOut e' =>
      rw [hst] at hw hrep
      obtain rfl : e' = e := hw
      obtain ⟨hstat, -, -, hctx⟩ := hrep
      exact ⟨by rw [hstat]; exact BitVec.zero_and, hctx⟩
    | running | delayed | elapsed | handed =>
      rw [hst] at hw
      exact hw.elim
  have hnew := h.setStatus htask (.handed e msg)
    { dly := 0, msg := msg, stat := osStatRdy, statPend := .ok } (s.ctx p) (s.k.rdy.insert p)
    (Function.update s.k.ev e { s.k.ev e with wait := (s.k.ev e).wait.erase p })
    (by rw [PrioTable.toFinset_insert, h.rdy]; rfl) ?_ ?_ ?_
  · rw [Function.update_eq_self] at hnew
    rw [Kernel.osEventTaskRdy_eq hhigh hstat]
    exact hnew
  · intro e'
    rw [if_neg (show ¬ Status.WaitsFor e' (.handed e msg) from id)]
    by_cases he : e' = e
    · subst he
      rw [Function.update_self, PrioTable.toFinset_erase, h.wait]
    · rw [Function.update_of_ne he, h.wait, Finset.erase_eq_of_notMem]
      intro hmem
      obtain ⟨-, hw'⟩ := Spec.mem_waiters.mp hmem
      cases hst : a.status p with
      | waiting | timedOut =>
        rw [hst] at hw hw'
        exact he (Eq.trans (Eq.symm hw') hw)
      | running | delayed | elapsed | handed =>
        rw [hst] at hw
        exact hw.elim
  · intro e'
    by_cases he : e' = e
    · subst he
      rw [Function.update_self]
    · rw [Function.update_of_ne he]
  · exact ⟨rfl, rfl, rfl, hmsg, hctx⟩

theorem rep_running (h : Represents s a) (hp : p ∈ a.tasks) (hst : a.status p = .running) :
    (s.k.tcb p).stat = osStatRdy ∧ (s.k.tcb p).dly = 0 ∧ s.ctx p = .run := by
  have hrep := h.task p hp
  rwa [hst] at hrep

theorem ctx_run_iff (h : Represents s a) (hp : p ∈ a.tasks) :
    s.ctx p = .run ↔ a.status p = .running := by
  have hrep := h.task p hp
  cases hst : a.status p with
  | running =>
    rw [hst] at hrep
    simp [hrep.2.2]
  | delayed | elapsed =>
    rw [hst] at hrep
    simp [hrep.2.2]
  | waiting | timedOut =>
    rw [hst] at hrep
    simp [hrep.2.2.2]
  | handed =>
    rw [hst] at hrep
    simp [hrep.2.2.2.2]

theorem inCode_iff (h : Represents s a) (hg : a.Good) : s.InCode ↔ a.InCode := by
  unfold Sys.InCode Spec.InCode
  rw [h.nest, h.cur, h.ctx_run_iff (Spec.mem_ready.mp hg.cur_ready).1]

theorem mayPost_iff (h : Represents s a) (hg : a.Good) : s.MayPost ↔ a.MayPost := by
  unfold Sys.MayPost Spec.MayPost
  rw [h.nest, h.inCode_iff hg]

/-- No task but a waiting one is in the wait lists. -/
theorem not_waiter (hst : ∀ e, ¬ (a.status p).WaitsFor e) (e : ℕ) : p ∉ a.waiters e :=
  fun hp => hst e (Spec.mem_waiters.mp hp).2

/-- The first half of a pend that finds nothing. -/
theorem pendOn (h : Represents s a) (hg : a.Good) (hin : a.InCode) (e timeout : ℕ) :
    Represents ((s.setK (s.k.pendOn e timeout)).setCtx s.k.prioCur (.pend e))
      (a.setStatus a.cur (.waiting e timeout)).schedule := by
  have htask := (Spec.mem_ready.mp hg.cur_ready).1
  obtain ⟨hstat, -, -⟩ := h.rep_running htask hin.2.1
  have hfree := not_waiter (a := a) (p := a.cur) (by rw [hin.2.1]; exact fun _ => id)
  have hnew := h.setStatus htask (.waiting e timeout)
    { s.k.tcb a.cur with
      stat := (s.k.tcb a.cur).stat ||| (s.k.ev e).obj.stat, statPend := .ok, dly := timeout }
    (.pend e) (s.k.rdy.erase a.cur)
    (Function.update s.k.ev e { s.k.ev e with wait := (s.k.ev e).wait.insert a.cur }) ?_ ?_ ?_ ?_
  · have hidle : osTaskIdlePrio ∈ (a.setStatus a.cur (.waiting e timeout)).ready := by
      rw [Spec.ready_setStatus htask, if_neg (show ¬ Status.Ready (.waiting e timeout) from id)]
      exact Finset.mem_erase.mpr ⟨hin.2.2.symm, hg.idle_ready⟩
    have hsched := hnew.sched ⟨_, hidle⟩
    rw [← h.cur] at hsched ⊢
    exact hsched
  · rw [PrioTable.toFinset_erase, h.rdy]
    rfl
  · intro e'
    by_cases he : e' = e
    · subst he
      rw [Function.update_self, PrioTable.toFinset_insert, h.wait]
      exact (if_pos rfl).symm
    · have hw : ¬ Status.WaitsFor e' (.waiting e timeout) := fun hw => he (Eq.symm hw)
      rw [Function.update_of_ne he, h.wait, if_neg hw, Finset.erase_eq_of_notMem (hfree e')]
  · intro e'
    by_cases he : e' = e
    · subst he
      rw [Function.update_self]
    · rw [Function.update_of_ne he]
  · refine ⟨?_, rfl, rfl, rfl⟩
    show _ ||| _ = (a.store e).kind.stat
    rw [hstat, Obj.stat_eq, h.store]
    exact BitVec.zero_or

theorem timeDly (h : Represents s a) (hg : a.Good) (hin : a.InCode) {ticks : ℕ}
    (hticks : 0 < ticks) :
    Represents ((s.setK (s.k.osTimeDly ticks)).setCtx s.k.prioCur .dly)
      (a.setStatus a.cur (.delayed ticks)).schedule := by
  have htask := (Spec.mem_ready.mp hg.cur_ready).1
  obtain ⟨hstat, -, -⟩ := h.rep_running htask hin.2.1
  have hfree := not_waiter (a := a) (p := a.cur) (by rw [hin.2.1]; exact fun _ => id)
  have hnew := h.setStatus htask (.delayed ticks) { s.k.tcb a.cur with dly := ticks } .dly
    (s.k.rdy.erase a.cur) s.k.ev ?_ ?_ (fun _ => rfl) ⟨hstat, rfl, rfl⟩
  · have hidle : osTaskIdlePrio ∈ (a.setStatus a.cur (.delayed ticks)).ready := by
      rw [Spec.ready_setStatus htask, if_neg (show ¬ Status.Ready (.delayed ticks) from id)]
      exact Finset.mem_erase.mpr ⟨hin.2.2.symm, hg.idle_ready⟩
    have hsched := hnew.sched ⟨_, hidle⟩
    have hnest : ¬ 0 < s.k.intNesting := by rw [h.nest, hin.1]; exact lt_irrefl 0
    unfold Kernel.osTimeDly
    rw [if_neg hnest, if_pos hticks]
    rw [← h.cur] at hsched ⊢
    exact hsched
  · rw [PrioTable.toFinset_erase, h.rdy]
    rfl
  · intro e'
    rw [h.wait, if_neg (show ¬ Status.WaitsFor e' (.delayed ticks) from id),
      Finset.erase_eq_of_notMem (hfree e')]

theorem timeTick (h : Represents s a) (hg : a.Good) :
    Represents (s.setK s.k.osTimeTick)
      { a with time := a.time + 1, status := fun p => (a.status p).tick } := by
  obtain ⟨rdy, hrdy, hfold⟩ := Kernel.foldl_tickTask { s.k with time := s.k.time + 1 } h.nodup
  have htick : s.k.osTimeTick = _ := hfold
  rw [htick]
  -- the idle task has no control block in the loop, but its status does not change either
  have hidle : (a.status osTaskIdlePrio).tick = a.status osTaskIdlePrio := by
    rw [hg.idle_running]
    rfl
  exact
    { cur := h.cur
      nest := h.nest
      time := by
        show s.k.time + 1 = BitVec.ofNat 32 (a.time + 1)
        rw [h.time, BitVec.ofNat_add]
        rfl
      mem_tasks := h.mem_tasks
      nodup := h.nodup
      idle_notMem := h.idle_notMem
      rdy := by
        ext p
        have hmem : p ∈ s.k.rdy ↔ p ∈ a.ready := by rw [← PrioTable.mem_toFinset, h.rdy]
        rw [PrioTable.mem_toFinset, Spec.mem_ready]
        show p ∈ rdy ↔ p ∈ a.tasks ∧ (a.status p).tick.Ready
        rw [hrdy]
        show p ∈ s.k.rdy ∨ p ∈ s.k.tcbList ∧ (s.k.tcb p).Ends ↔ _
        rw [hmem, Spec.mem_ready, h.mem_tasks]
        by_cases hp : p ∈ s.k.tcbList
        · have hrep := h.task p ((h.mem_tasks p).mpr (Or.inr hp))
          simp only [hp, or_true, true_and]
          exact hrep.ends_iff
        · by_cases hpi : p = osTaskIdlePrio
          · subst hpi
            simp [hp, hidle]
          · simp [hp, hpi]
      wait := fun e => by
        refine (h.wait e).trans ?_
        ext p
        rw [Spec.mem_waiters, Spec.mem_waiters]
        exact and_congr_right fun _ => Status.waitsFor_tick.symm
      store := h.store
      task := fun p hp => by
        have hrep := h.task p hp
        show (a.status p).tick.Rep _ (if p ∈ s.k.tcbList then (s.k.tcb p).tick else s.k.tcb p) _
        by_cases hmem : p ∈ s.k.tcbList
        · rw [if_pos hmem]
          exact hrep.tick
        · obtain rfl : p = osTaskIdlePrio := ((h.mem_tasks p).mp hp).resolve_right hmem
          rw [if_neg hmem, hidle]
          exact hrep }

theorem setRunning (h : Represents s a) (hg : a.Good) {t : Tcb} {ev : ℕ → Event}
    (hwait : ∀ e, (ev e).wait.toFinset = (a.waiters e).erase a.cur)
    (hobj : ∀ e, (ev e).obj = (s.k.ev e).obj) (hstat : t.stat = osStatRdy) (hdly : t.dly = 0) :
    Represents
      { k := { s.k with tcb := Function.update s.k.tcb a.cur t, ev := ev }
        ctx := Function.update s.ctx a.cur .run }
      (a.setStatus a.cur .running) := by
  refine h.setStatus (Spec.mem_ready.mp hg.cur_ready).1 .running t .run s.k.rdy ev ?_ ?_ hobj
    ⟨hstat, hdly, rfl⟩
  · rw [h.rdy, if_pos (show Status.Ready .running from trivial),
      Finset.insert_eq_of_mem hg.cur_ready]
  · intro e
    rw [hwait, if_neg (show ¬ Status.WaitsFor e .running from id)]

/-- The current task in a call that it waited in: its time was over, or it was handed something. -/
theorem pendEnd (h : Represents s a) (hg : a.Good) {e : ℕ} (hctx : s.ctx a.cur = .pend e) :
    (a.status a.cur = .timedOut e ∧ (s.k.tcb a.cur).statPend = .timeout ∧
      s.k.pendResult e = (s.k.osEventTaskRemove a.cur e, .timeout)) ∨
    (∃ msg, a.status a.cur = .handed e msg ∧
      msg = (a.store e).kind.message (s.k.tcb a.cur).msg ∧ s.k.pendResult e = (s.k, .none)) := by
  obtain ⟨htask, hready⟩ := Spec.mem_ready.mp hg.cur_ready
  have hrep := h.task a.cur htask
  unfold Kernel.pendResult
  rw [h.cur]
  cases hst : a.status a.cur with
  | running | elapsed =>
    rw [hst] at hrep
    have := hrep.2.2.symm.trans hctx
    cases this
  | delayed | waiting =>
    rw [hst] at hready
    exact hready.elim
  | timedOut e' =>
    rw [hst] at hrep
    obtain ⟨-, -, hpend, hc⟩ := hrep
    obtain rfl : e' = e := Ctx.pend.inj (hc.symm.trans hctx)
    exact Or.inl ⟨rfl, hpend, by rw [hpend]⟩
  | handed e' msg =>
    rw [hst] at hrep
    obtain ⟨-, -, hpend, hmsg, hc⟩ := hrep
    obtain rfl : e' = e := Ctx.pend.inj (hc.symm.trans hctx)
    exact Or.inr ⟨msg, rfl, hmsg, by rw [hpend]⟩

/-- The wait lists when a task whose time was over has removed itself. -/
theorem wait_remove (h : Represents s a) {e : ℕ} (hst : a.status a.cur = .timedOut e) (e' : ℕ) :
    ((s.k.osEventTaskRemove a.cur e).ev e').wait.toFinset = (a.waiters e').erase a.cur := by
  unfold Kernel.osEventTaskRemove Kernel.setWait
  by_cases he : e' = e
  · subst he
    simp only [Function.update_self]
    rw [PrioTable.toFinset_erase, h.wait]
  · simp only [Function.update_of_ne he]
    rw [h.wait, Finset.erase_eq_of_notMem]
    refine fun hmem => he ?_
    have hw := (Spec.mem_waiters.mp hmem).2
    rw [hst] at hw
    exact Eq.symm hw

/-- The wait lists of a task that is in none of them. -/
theorem wait_erase (h : Represents s a) {p : Prio} (hst : ∀ e, ¬ (a.status p).WaitsFor e) (e : ℕ) :
    (s.k.ev e).wait.toFinset = (a.waiters e).erase p := by
  rw [h.wait, Finset.erase_eq_of_notMem (not_waiter hst e)]

/-! ## One step -/

/-- The steps of the two systems agree. -/
def Agree (x : Option (Sys × Out)) (y : Option (Spec × Out)) : Prop :=
  Option.Rel (fun x y => Represents x.1 y.1 ∧ x.2 = y.2) x y

theorem agree_ite {p q : Prop} [Decidable p] [Decidable q] (hpq : p ↔ q) {x : Option (Sys × Out)}
    {y : Option (Spec × Out)} (h : q → Agree x y) :
    Agree (if p then x else none) (if q then y else none) := by
  by_cases hq : q
  · rw [if_pos hq, if_pos (hpq.mpr hq)]
    exact h hq
  · rw [if_neg hq, if_neg (hpq.not.mpr hq)]
    exact Option.Rel.none

theorem agree_resume (h : Represents s a) (hg : a.Good) : Agree s.resume a.resume := by
  obtain ⟨htask, hready⟩ := Spec.mem_ready.mp hg.cur_ready
  have hrep := h.task a.cur htask
  unfold Sys.resume
  rw [h.cur]
  dsimp only
  cases hctx : s.ctx a.cur with
  | run =>
    rw [(h.ctx_run_iff htask).mp hctx] at hrep
    unfold Spec.resume
    rw [(h.ctx_run_iff htask).mp hctx]
    exact Option.Rel.none
  | dly =>
    rw [hctx] at hrep
    cases hst : a.status a.cur with
    | running | waiting | timedOut | handed =>
      rw [hst] at hrep
      simp [Status.Rep] at hrep
    | delayed =>
      rw [hst] at hready
      exact hready.elim
    | elapsed =>
      rw [hst] at hrep
      obtain ⟨hstat, hdly, -⟩ := hrep
      have hwait := h.wait_erase (p := a.cur) (by rw [hst]; exact fun _ => id)
      have hnew := h.setRunning hg (t := s.k.tcb a.cur) hwait (fun _ => rfl) hstat hdly
      rw [Function.update_eq_self] at hnew
      unfold Spec.resume
      rw [hst]
      exact Option.Rel.some ⟨hnew, rfl⟩
  | pend e =>
    dsimp only
    have hstore := h.store e
    rcases h.pendEnd hg hctx with ⟨hst, -, hres⟩ | ⟨msg, hst, hmsg, hres⟩
    · rw [hst] at hrep
      obtain ⟨hstat, hdly, -, -⟩ := hrep
      have hnew := fun t => h.setRunning hg (t := t) (h.wait_remove hst) fun e' => by
        unfold Kernel.osEventTaskRemove Kernel.setWait
        by_cases he : e' = e
        · subst he
          simp
        · simp [he]
      unfold Spec.resume
      rw [hst]
      cases hobj : (s.k.ev e).obj with
      | sem cnt =>
        simp only [Kernel.osSemPendEnd, hres, h.cur]
        exact Option.Rel.some ⟨hnew _ rfl hdly, rfl⟩
      | queue q =>
        simp only [Kernel.osQPendEnd, hres, h.cur]
        exact Option.Rel.some ⟨hnew _ rfl hdly, rfl⟩
    · rw [hst] at hrep
      obtain ⟨hstat, hdly, -, -, -⟩ := hrep
      have hwait := h.wait_erase (p := a.cur) (by rw [hst]; exact fun _ => id)
      have hnew := fun t => h.setRunning hg (t := t) hwait fun _ => rfl
      unfold Spec.resume
      rw [hst]
      cases hobj : (s.k.ev e).obj with
      | sem cnt =>
        rw [hobj] at hstore
        rw [← hstore] at hmsg
        simp only [Kernel.osSemPendEnd, hres, h.cur]
        exact Option.Rel.some ⟨hnew _ rfl hdly, by rw [hmsg]; rfl⟩
      | queue q =>
        rw [hobj] at hstore
        rw [← hstore] at hmsg
        simp only [Kernel.osQPendEnd, hres, h.cur]
        exact Option.Rel.some ⟨hnew _ rfl hdly, by rw [hmsg]; rfl⟩

/-- A post that is handed over, up to the call of the scheduler. -/
theorem agree_handed (h : Represents s a) (hg : a.Good) {p : Prio} (kind : Kind) (msg : Msg)
    (hkind : (a.store e).kind = kind) (hmsg : msg = kind.message msg)
    (hp : a.receiver e = some p) :
    Represents (s.setK (s.k.osEventTaskRdy e msg kind.stat .ok).osSched)
      (a.setStatus p (.handed e msg)).schedule := by
  refine (h.eventTaskRdy hp hkind hmsg).sched ⟨osTaskIdlePrio, ?_⟩
  obtain ⟨htask, -⟩ := Spec.mem_waiters.mp (Spec.receiver_mem hp)
  rw [Spec.ready_setStatus htask, if_pos (show Status.Ready (.handed e msg) from trivial)]
  exact Finset.mem_insert_of_mem hg.idle_ready

theorem agree_semPost (h : Represents s a) (hg : a.Good) (e : ℕ) :
    Represents (s.setK (s.k.osSemPost e).1) (a.post .sem e 0).1 ∧
      (s.k.osSemPost e).2 = (a.post .sem e 0).2 := by
  have hstore := h.store e
  have hrecv := h.receiver e
  unfold Kernel.osSemPost Spec.post
  cases hobj : (s.k.ev e).obj with
  | queue q =>
    rw [hobj] at hstore
    rw [← hstore]
    exact ⟨h, rfl⟩
  | sem cnt =>
    rw [hobj] at hstore
    have hkind : (a.store e).kind = .sem := by rw [← hstore]; rfl
    rw [if_neg (not_not_intro hkind), ← hrecv]
    unfold Sys.receiver at hrecv ⊢
    by_cases hgrp : (s.k.ev e).wait.grp ≠ 0#8
    · rw [if_pos hgrp] at hrecv ⊢
      dsimp only
      rw [if_pos hgrp]
      have hnew := h.agree_handed hg .sem 0 hkind rfl hrecv.symm
      exact ⟨hnew, rfl⟩
    · rw [if_neg hgrp] at hrecv ⊢
      dsimp only
      rw [if_neg hgrp, ← hstore]
      by_cases hcnt : cnt < 65535
      · have hput : (Obj.store (.sem cnt)).put 0 = .ok (.sem (cnt + 1)) := if_pos hcnt
        rw [if_pos hcnt, hput]
        exact ⟨h.setStore (o := .sem (cnt + 1)) (by rw [hkind]; rfl), rfl⟩
      · have hput : (Obj.store (.sem cnt)).put 0 = .error .semOvf := if_neg hcnt
        rw [if_neg hcnt, hput]
        exact ⟨h, rfl⟩

theorem agree_qPost (h : Represents s a) (hg : a.Good) (e : ℕ) (msg : Msg) :
    Represents (s.setK (s.k.osQPost e msg).1) (a.post .queue e msg).1 ∧
      (s.k.osQPost e msg).2 = (a.post .queue e msg).2 := by
  have hstore := h.store e
  have hrecv := h.receiver e
  unfold Kernel.osQPost Spec.post
  cases hobj : (s.k.ev e).obj with
  | sem cnt =>
    rw [hobj] at hstore
    rw [← hstore]
    exact ⟨h, rfl⟩
  | queue q =>
    rw [hobj] at hstore
    have hkind : (a.store e).kind = .queue := by rw [← hstore]; rfl
    rw [if_neg (not_not_intro hkind), ← hrecv]
    unfold Sys.receiver at hrecv ⊢
    by_cases hgrp : (s.k.ev e).wait.grp ≠ 0#8
    · rw [if_pos hgrp] at hrecv ⊢
      dsimp only
      rw [if_pos hgrp]
      have hnew := h.agree_handed hg .queue msg hkind rfl hrecv.symm
      exact ⟨hnew, rfl⟩
    · rw [if_neg hgrp] at hrecv ⊢
      dsimp only
      rw [if_neg hgrp, ← hstore]
      have hlen := q.length_contents
      by_cases hfull : q.qEntries < q.qSize
      · have hput : (Obj.store (.queue q)).put msg = .ok (Obj.store (.queue (q.enter msg hfull))) := by
          simp only [Obj.store, Store.put, hlen, if_pos hfull, q.contents_enter msg hfull]
          rfl
        rw [dif_pos hfull, hput]
        exact ⟨h.setStore (o := .queue (q.enter msg hfull)) (by rw [hkind]; rfl), rfl⟩
      · have hput : (Obj.store (.queue q)).put msg = .error .qFull := by
          simp only [Obj.store, Store.put, hlen, if_neg hfull]
        rw [dif_neg hfull, hput]
        exact ⟨h, rfl⟩

theorem agree_semPend (h : Represents s a) (hg : a.Good) (hin : a.InCode) (e timeout : ℕ) :
    Agree (s.step (.semPend e timeout)) (a.step (.semPend e timeout)) := by
  have hstore := h.store e
  have hin' := (h.inCode_iff hg).mpr hin
  have hisr : ¬ 0 < s.k.intNesting := by rw [hin'.1]; exact lt_irrefl 0
  simp only [Sys.step, Spec.step, if_pos hin, if_pos hin', Kernel.osSemPend, Spec.pendStep,
    Spec.pend]
  cases hobj : (s.k.ev e).obj with
  | queue q =>
    rw [hobj] at hstore
    rw [← hstore]
    exact Option.Rel.some ⟨h, by rw [h.cur]; rfl⟩
  | sem cnt =>
    rw [hobj] at hstore
    have hkind : (a.store e).kind = .sem := by rw [← hstore]; rfl
    simp only [if_neg hisr, hkind, ne_eq, not_true_eq_false, if_false]
    rw [← hstore]
    cases cnt with
    | zero => exact Option.Rel.some ⟨h.pendOn hg hin e timeout, rfl⟩
    | succ n =>
      exact Option.Rel.some
        ⟨h.setStore (o := .sem n) (by rw [hkind]; rfl), by rw [h.cur]; rfl⟩

theorem agree_qPend (h : Represents s a) (hg : a.Good) (hin : a.InCode) (e timeout : ℕ) :
    Agree (s.step (.qPend e timeout)) (a.step (.qPend e timeout)) := by
  have hstore := h.store e
  have hin' := (h.inCode_iff hg).mpr hin
  have hisr : ¬ 0 < s.k.intNesting := by rw [hin'.1]; exact lt_irrefl 0
  simp only [Sys.step, Spec.step, if_pos hin, if_pos hin', Kernel.osQPend, Spec.pendStep,
    Spec.pend]
  cases hobj : (s.k.ev e).obj with
  | sem cnt =>
    rw [hobj] at hstore
    rw [← hstore]
    exact Option.Rel.some ⟨h, by rw [h.cur]; rfl⟩
  | queue q =>
    rw [hobj] at hstore
    have hkind : (a.store e).kind = .queue := by rw [← hstore]; rfl
    simp only [if_neg hisr, hkind, ne_eq, not_true_eq_false, if_false]
    rw [← hstore]
    by_cases hpos : 0 < q.qEntries
    · have htake : (Obj.store (.queue q)).take =
          some ((q.extract hpos).1, Obj.store (.queue (q.extract hpos).2)) := by
        simp only [Obj.store, q.contents_extract hpos, Store.take]
        rfl
      rw [dif_pos hpos, htake]
      exact Option.Rel.some
        ⟨h.setStore (o := .queue (q.extract hpos).2) (by rw [hkind]; rfl), by rw [h.cur]⟩
    · have htake : (Obj.store (.queue q)).take = none := by
        have hnil : q.contents = [] := by
          rw [← List.length_eq_zero_iff, q.length_contents]
          omega
        simp only [Obj.store, hnil, Store.take]
      rw [dif_neg hpos, htake]
      exact Option.Rel.some ⟨h.pendOn hg hin e timeout, rfl⟩

theorem agree_semSet (h : Represents s a) (e cnt : ℕ) :
    Represents (s.setK (s.k.osSemSet e cnt).1) (a.semSet e cnt).1 ∧
      (s.k.osSemSet e cnt).2 = (a.semSet e cnt).2 := by
  have hstore := h.store e
  unfold Kernel.osSemSet Spec.semSet
  cases hobj : (s.k.ev e).obj with
  | queue q =>
    rw [hobj] at hstore
    rw [← hstore]
    exact ⟨h, rfl⟩
  | sem old =>
    rw [hobj] at hstore
    have hset := h.setStore (e := e) (o := .sem cnt) (by rw [← hstore]; rfl)
    have hgrp : (s.k.ev e).wait.grp = 0#8 ↔ ¬ (a.waiters e).Nonempty := by
      rw [← h.wait, ← PrioTable.grp_ne_zero_iff, not_not]
    rw [← hstore]
    dsimp only [Obj.store]
    by_cases hold : 0 < old
    · rw [if_pos hold, if_pos (Or.inl hold)]
      exact ⟨hset, rfl⟩
    · by_cases hw : (a.waiters e).Nonempty
      · rw [if_neg hold, if_neg (fun hz => hgrp.mp hz hw), if_neg (by tauto)]
        exact ⟨h, rfl⟩
      · rw [if_neg hold, if_pos (hgrp.mpr hw), if_pos (Or.inr hw)]
        exact ⟨hset, rfl⟩

theorem agree_intExit (h : Represents s a) (hg : a.Good) :
    Agree (s.step .intExit) (a.step .intExit) := by
  refine agree_ite (by rw [h.nest]) fun hpos => Option.Rel.some ⟨?_, rfl⟩
  have hdec : Represents (s.setK { s.k with intNesting := s.k.intNesting - 1 })
      { a with nest := a.nest - 1 } :=
    ⟨h.cur, by rw [← h.nest]; rfl, h.time, h.mem_tasks, h.nodup, h.idle_notMem, h.rdy, h.wait,
      h.store, h.task⟩
  have hsched := hdec.sched ⟨_, hg.idle_ready⟩
  have hpos' : 0 < s.k.intNesting := by rwa [h.nest]
  unfold Kernel.osIntExit
  rw [if_pos hpos']
  exact hsched

/-- In related states the kernel and its specification take the same steps. -/
theorem agree (h : Represents s a) (hg : a.Good) (act : Act) :
    Agree (s.step act) (a.step act) := by
  cases act with
  | intEnter =>
    refine Option.Rel.some ⟨?_, rfl⟩
    unfold Kernel.osIntEnter
    by_cases h255 : a.nest < 255
    · rw [if_pos h255, if_pos (by rwa [h.nest])]
      exact ⟨h.cur, by rw [← h.nest]; rfl, h.time, h.mem_tasks, h.nodup, h.idle_notMem, h.rdy,
        h.wait, h.store, h.task⟩
    · rw [if_neg h255, if_neg (by rwa [h.nest])]
      exact h
  | intExit => exact h.agree_intExit hg
  | timeTick =>
    exact agree_ite (by rw [h.nest]) fun _ => Option.Rel.some ⟨h.timeTick hg, rfl⟩
  | semPost e =>
    obtain ⟨hrep, herr⟩ := h.agree_semPost hg e
    exact agree_ite (h.mayPost_iff hg) fun _ =>
      Option.Rel.some ⟨hrep, by rw [h.receiver, herr]⟩
  | qPost e msg =>
    obtain ⟨hrep, herr⟩ := h.agree_qPost hg e msg
    exact agree_ite (h.mayPost_iff hg) fun _ =>
      Option.Rel.some ⟨hrep, by rw [h.receiver, herr]⟩
  | semPend e timeout =>
    by_cases hin : a.InCode
    · exact h.agree_semPend hg hin e timeout
    · exact agree_ite (h.inCode_iff hg) fun hin' => absurd hin' hin
  | qPend e timeout =>
    by_cases hin : a.InCode
    · exact h.agree_qPend hg hin e timeout
    · exact agree_ite (h.inCode_iff hg) fun hin' => absurd hin' hin
  | semSet e cnt =>
    obtain ⟨hrep, herr⟩ := h.agree_semSet e cnt
    exact agree_ite (h.inCode_iff hg) fun _ => Option.Rel.some ⟨hrep, by rw [herr]⟩
  | timeDly ticks =>
    refine agree_ite (h.inCode_iff hg) fun hin => ?_
    by_cases hticks : 0 < ticks
    · rw [if_pos hticks, if_pos hticks]
      exact Option.Rel.some ⟨h.timeDly hg hin hticks, rfl⟩
    · have hself : s.k.osTimeDly ticks = s.k := by
        unfold Kernel.osTimeDly
        simp [hticks]
      rw [if_neg hticks, if_neg hticks, hself]
      exact Option.Rel.some ⟨h, rfl⟩
  | resume => exact agree_ite (by rw [h.nest]) fun _ => h.agree_resume hg

end Represents

/-! ## Whole runs -/

/-- The kernel and its specification are bisimilar. -/
theorem kernel_bisim :
    Transducer.Bisim (fun s a => Represents s a ∧ a.Good) Sys.step Spec.step := by
  rintro s a act ⟨h, hg⟩
  have hagree := h.agree hg act
  unfold Represents.Agree at hagree
  generalize hx : s.step act = x at hagree
  generalize hy : a.step act = y at hagree
  cases hagree with
  | none => exact Option.Rel.none
  | @some x y hxy =>
    obtain ⟨b, o⟩ := y
    exact Option.Rel.some ⟨⟨hxy.1, hg.step hy⟩, hxy.2⟩

/-- The specification after `OSStart`. -/
def Spec.start (tasks : List Prio) (obj : ℕ → Obj) : Spec where
  tasks := insert osTaskIdlePrio tasks.toFinset
  store e := (obj e).store
  cur := (insert osTaskIdlePrio tasks.toFinset).inf id

theorem toFinset_foldl_insert (l : List Prio) (t : Table) :
    (l.foldl PrioTable.insert t).toFinset = t.toFinset ∪ l.toFinset := by
  induction l generalizing t with
  | nil => simp
  | cons p l ih =>
    rw [List.foldl_cons, ih, PrioTable.toFinset_insert, List.toFinset_cons, Finset.insert_union,
      Finset.union_insert]

theorem toFinset_start (tasks : List Prio) (obj : ℕ → Obj) :
    (Sys.start tasks obj).k.rdy.toFinset = insert osTaskIdlePrio tasks.toFinset := by
  show (tasks.foldl PrioTable.insert (PrioTable.empty.insert osTaskIdlePrio)).toFinset = _
  rw [toFinset_foldl_insert, PrioTable.toFinset_insert, PrioTable.toFinset_empty,
    Finset.insert_union, Finset.empty_union]

theorem Spec.ready_start (tasks : List Prio) (obj : ℕ → Obj) :
    (Spec.start tasks obj).ready = insert osTaskIdlePrio tasks.toFinset :=
  Finset.filter_true_of_mem fun _ _ => trivial

theorem Spec.good_start (tasks : List Prio) (obj : ℕ → Obj) : (Spec.start tasks obj).Good where
  idle_mem := Finset.mem_insert_self _ _
  idle_running := rfl
  left_pos p n hp := by cases hp
  waiting_empty e p hp := (Spec.mem_waiters.mp hp).2.elim
  cur_ready := by
    rw [Spec.ready_start]
    exact Spec.inf_mem ⟨_, Finset.mem_insert_self _ _⟩
  cur_top _ := by
    show _ = (Spec.start tasks obj).ready.inf id
    rw [Spec.ready_start]
    rfl

theorem represents_start {tasks : List Prio} (obj : ℕ → Obj) (hnodup : tasks.Nodup)
    (hidle : osTaskIdlePrio ∉ tasks) :
    Represents (Sys.start tasks obj) (Spec.start tasks obj) where
  cur := highest_eq_inf (toFinset_start tasks obj) ⟨_, Finset.mem_insert_self _ _⟩
  nest := rfl
  time := rfl
  mem_tasks p := by
    show p ∈ insert osTaskIdlePrio tasks.toFinset ↔ p = osTaskIdlePrio ∨ p ∈ tasks
    rw [Finset.mem_insert, List.mem_toFinset]
  nodup := hnodup
  idle_notMem := hidle
  rdy := by rw [toFinset_start, Spec.ready_start]
  wait e := by
    refine PrioTable.toFinset_empty.trans (Eq.symm ?_)
    exact Finset.filter_false_of_mem fun _ _ => id
  store e := rfl
  task p hp := ⟨rfl, rfl, rfl⟩

section Runs

variable {tasks : List Prio} {obj : ℕ → Obj} {acts : List Act} {s : Sys} {os : List Out}

/-- Whatever tasks and interrupts do, in whatever order, the kernel does as specified: the same
calls are possible, and they return the same results. -/
theorem kernel_refines (hnodup : tasks.Nodup) (hidle : osTaskIdlePrio ∉ tasks)
    (acts : List Act) :
    Option.Rel (fun x y => Represents x.1 y.1 ∧ x.2 = y.2)
      (Transducer.run Sys.step (Sys.start tasks obj) acts)
      (Transducer.run Spec.step (Spec.start tasks obj) acts) := by
  have hrel := kernel_bisim.run
    ⟨represents_start obj hnodup hidle, Spec.good_start tasks obj⟩ acts
  generalize Transducer.run Sys.step (Sys.start tasks obj) acts = x at hrel ⊢
  generalize Transducer.run Spec.step (Spec.start tasks obj) acts = y at hrel ⊢
  cases hrel with
  | none => exact Option.Rel.none
  | some hxy => exact Option.Rel.some ⟨hxy.1.1, hxy.2⟩

theorem kernel_refines_pend :
    Option.Rel (fun x y => Represents x.1 y.1 ∧ x.2 = y.2)
      (Transducer.run Sys.step (Sys.start [1, 2] fun _ => osSemCreate 0)
        [.semPend 0 0, .intEnter, .semPost 0, .timeTick, .intExit, .resume])
      (Transducer.run Spec.step (Spec.start [1, 2] fun _ => osSemCreate 0)
        [.semPend 0 0, .intEnter, .semPost 0, .timeTick, .intExit, .resume]) :=
  kernel_refines (by decide) (by decide) _

/-- A state that a run reaches stands for a state that the specification reaches. -/
theorem exists_spec (hnodup : tasks.Nodup) (hidle : osTaskIdlePrio ∉ tasks)
    (hrun : Transducer.run Sys.step (Sys.start tasks obj) acts = some (s, os)) :
    ∃ a, Transducer.run Spec.step (Spec.start tasks obj) acts = some (a, os) ∧
      Represents s a ∧ a.Good :=
  kernel_bisim.exists_run ⟨represents_start obj hnodup hidle, Spec.good_start tasks obj⟩ hrun

end Runs

end Ucos

end ReactionMeter
