import ReactionMeter.Ucos.Refine

/-!
# What tasks are given

Two properties of the kernel with any tasks and any interrupts.

**Scheduling.** Outside of interrupts the ready task of highest priority has the processor, and no
task waits for what is there (`highest_runs`, `ready_and_waiting`).

**Conservation.** What is posted to a semaphore or a queue is handed out once, in the order it was
posted, and each task gets what was handed to it in that order (`conservation`). The handing out
is the list `D` of the theorem: a message counts as handed out from the moment it leaves the queue,
or goes past it to a waiting task, although the task sees it only when it runs again.
-/

namespace ReactionMeter

namespace Ucos

variable {tasks : List Prio} {obj : ℕ → Obj} {acts : List Act} {s : Sys} {os : List Out}

/-! ## Scheduling -/

/-- What the object holds, the oldest first; a token is a null message. -/
def Obj.contents : Obj → List Msg
  | .sem cnt => List.replicate cnt 0
  | .queue q => q.contents

def Store.contents : Store → List Msg
  | .sem cnt => List.replicate cnt 0
  | .queue _ msgs => msgs

theorem Obj.contents_eq (o : Obj) : o.contents = o.store.contents := by cases o <;> rfl

theorem Store.contents_take {st : Store} {m : Msg} {st' : Store} (h : st.take = some (m, st')) :
    st.contents = m :: st'.contents := by
  cases st with
  | sem n =>
    cases n with
    | zero => cases h
    | succ n =>
      cases h
      exact List.replicate_succ
  | queue size msgs =>
    cases msgs with
    | nil => cases h
    | cons m msgs =>
      cases h
      rfl

theorem Store.contents_eq_nil {st : Store} (h : st.take = none) : st.contents = [] := by
  cases st with
  | sem n =>
    cases n with
    | zero => rfl
    | succ n => cases h
  | queue size msgs =>
    cases msgs with
    | nil => rfl
    | cons m msgs => cases h

theorem exists_spec_tasks (hnodup : tasks.Nodup) (hidle : osTaskIdlePrio ∉ tasks)
    (hrun : Transducer.run Sys.step (Sys.start tasks obj) acts = some (s, os)) :
    ∃ a, Represents s a ∧ a.Good ∧ a.tasks = insert osTaskIdlePrio tasks.toFinset := by
  obtain ⟨a, ha, hrep, hgood⟩ := exists_spec hnodup hidle hrun
  refine ⟨a, hrep, hgood, ?_⟩
  refine Transducer.run_invariant_state
    (P := fun b => b.tasks = insert osTaskIdlePrio tasks.toFinset) rfl ?_ ha
  exact fun b act b' o hb hs => (Spec.step_change hs).1.trans hb

/-- In every state of every run a task is ready if and only if it neither waits nor is delayed, it
is in the wait list of no other event than the one its code pends on, and that event is empty. -/
theorem ready_and_waiting (hnodup : tasks.Nodup) (hidle : osTaskIdlePrio ∉ tasks)
    (hrun : Transducer.run Sys.step (Sys.start tasks obj) acts = some (s, os)) :
    ∀ p ∈ tasks,
      (p ∈ s.k.rdy ↔ (s.k.tcb p).stat = osStatRdy ∧ (s.k.tcb p).dly = 0) ∧
        ∀ e, p ∈ (s.k.ev e).wait → s.ctx p = .pend e ∧ (s.k.ev e).obj.contents = [] := by
  obtain ⟨a, hrep, hgood, htasks⟩ := exists_spec_tasks hnodup hidle hrun
  intro p hp
  have hpa : p ∈ a.tasks := by
    rw [htasks]
    exact Finset.mem_insert_of_mem (List.mem_toFinset.mpr hp)
  have hst := hrep.task p hpa
  constructor
  · have hmem : p ∈ s.k.rdy ↔ p ∈ a.ready := by rw [← PrioTable.mem_toFinset, hrep.rdy]
    rw [hmem, Spec.mem_ready]
    cases hs : a.status p with
    | running | elapsed | timedOut | handed =>
      rw [hs] at hst
      simp [hpa, hst.1, hst.2.1, Status.Ready]
    | delayed n =>
      rw [hs] at hst
      have hpos := hgood.left_pos p n hs
      simp [hst.2.1, hpos.ne', Status.Ready]
    | waiting e n =>
      rw [hs] at hst
      have hne : ∀ kind : Kind, kind.stat ≠ osStatRdy := fun kind => by cases kind <;> decide
      simp [hst.1, hne, Status.Ready]
  · intro e he
    have hw : p ∈ a.waiters e := by rwa [← PrioTable.mem_toFinset, hrep.wait] at he
    refine ⟨?_, ?_⟩
    · have hw' := (Spec.mem_waiters.mp hw).2
      cases hs : a.status p with
      | waiting e' n | timedOut e' =>
        rw [hs] at hw' hst
        obtain rfl : e' = e := hw'
        exact hst.2.2.2
      | running | delayed | elapsed | handed =>
        rw [hs] at hw'
        exact hw'.elim
    · rw [Obj.contents_eq, hrep.store]
      exact Store.contents_eq_nil (hgood.waiting_empty e p hw)

theorem ready_and_waiting_pend :
    ∃ s os, Transducer.run Sys.step (Sys.start [1, 2] fun _ => osSemCreate 0) [.semPend 0 3] =
        some (s, os) ∧
      ∀ p ∈ ([1, 2] : List Prio),
        (p ∈ s.k.rdy ↔ (s.k.tcb p).stat = osStatRdy ∧ (s.k.tcb p).dly = 0) ∧
          ∀ e, p ∈ (s.k.ev e).wait → s.ctx p = .pend e ∧ (s.k.ev e).obj.contents = [] := by
  have hsome : (Transducer.run Sys.step (Sys.start [1, 2] fun _ => osSemCreate 0)
      [.semPend 0 3]).isSome = true := by decide +kernel
  obtain ⟨⟨s, os⟩, hrun⟩ := Option.isSome_iff_exists.mp hsome
  exact ⟨s, os, hrun, ready_and_waiting (by decide) (by decide) hrun⟩

/-! ## Conservation -/

/-- What a post puts in the hands of the kernel. -/
def accepted (e : ℕ) : Out → Option Msg
  | .posted e' msg _ .none => if e' = e then some msg else none
  | _ => none

/-- What a pend of the task returns. -/
def received (p : Prio) (e : ℕ) : Out → Option Msg
  | .pended p' e' msg .none => if p' = p ∧ e' = e then some msg else none
  | _ => none

/-- What the task has been handed by the event and has not seen yet. -/
def Sys.inHand (s : Sys) (p : Prio) (e : ℕ) : List Msg :=
  if s.ctx p = .pend e ∧ p ∉ (s.k.ev e).wait then
    match (s.k.ev e).obj with
    | .sem _ => [0]
    | .queue _ => [(s.k.tcb p).msg]
  else []

def Status.inHand (e : ℕ) : Status → List Msg
  | .handed e' msg => if e' = e then [msg] else []
  | _ => []

theorem Represents.inHand {a : Spec} (h : Represents s a) {p : Prio} (hp : p ∈ a.tasks) (e : ℕ) :
    s.inHand p e = (a.status p).inHand e := by
  have hst := h.task p hp
  have hwait : p ∈ (s.k.ev e).wait ↔ p ∈ a.waiters e := by
    rw [← PrioTable.mem_toFinset, h.wait]
  unfold Sys.inHand
  simp only [hwait, Spec.mem_waiters]
  cases hs : a.status p with
  | running | delayed | elapsed =>
    rw [hs] at hst
    simp [hst.2.2, Status.inHand]
  | waiting e' n | timedOut e' =>
    rw [hs] at hst
    rw [if_neg ?_]
    · rfl
    · rintro ⟨hctx, hnot⟩
      exact hnot ⟨hp, Ctx.pend.inj (hst.2.2.2.symm.trans hctx)⟩
  | handed e' msg =>
    rw [hs] at hst
    obtain ⟨-, -, -, hmsg, hctx⟩ := hst
    by_cases he : e' = e
    · subst he
      have hstore := h.store e'
      rw [if_pos ⟨hctx, fun hw => hw.2⟩]
      cases hobj : (s.k.ev e').obj with
      | sem cnt =>
        rw [hobj] at hstore
        have hkind : (a.store e').kind = .sem := by rw [← hstore]; rfl
        simp [Status.inHand, hmsg, hkind, Kind.message]
      | queue q =>
        rw [hobj] at hstore
        have hkind : (a.store e').kind = .queue := by rw [← hstore]; rfl
        simp [Status.inHand, hmsg, hkind, Kind.message]
    · rw [if_neg fun hc => he (Ctx.pend.inj (hctx.symm.trans hc.1))]
      simp [Status.inHand, he]

/-- The messages of a list of hand-outs that went to the task. -/
def toTask (p : Prio) (D : List (Prio × Msg)) : List Msg :=
  (D.filter (·.1 = p)).map Prod.snd

theorem toTask_append (p : Prio) (D E : List (Prio × Msg)) :
    toTask p (D ++ E) = toTask p D ++ toTask p E := by
  simp [toTask]

theorem toTask_singleton (p q : Prio) (m : Msg) :
    toTask p [(q, m)] = if q = p then [m] else [] := by
  by_cases h : q = p <;> simp [toTask, h]

/-- The outputs `os` take the state `a₀` to `a` as far as the event is concerned: the hand-outs are
the list `D`. -/
structure Flows (a₀ : Spec) (e : ℕ) (D : List (Prio × Msg)) (a : Spec) (os : List Out) : Prop where
  tasks : a.tasks = a₀.tasks
  good : a.Good
  order : D.map Prod.snd ++ (a.store e).contents =
    (a₀.store e).contents ++ os.filterMap (accepted e)
  each : ∀ p ∈ a.tasks, os.filterMap (received p e) ++ (a.status p).inHand e =
    (a₀.status p).inHand e ++ toTask p D
  dest : ∀ d ∈ D, d.1 ∈ a.tasks ∧ d.1 ≠ osTaskIdlePrio

theorem Flows.refl {a : Spec} (h : a.Good) (e : ℕ) : Flows a e [] a [] where
  tasks := rfl
  good := h
  order := by simp
  each p _ := by simp [toTask]
  dest d hd := by cases hd

theorem Flows.trans {a b c : Spec} {e : ℕ} {D E : List (Prio × Msg)} {ps : List Out}
    (h : Flows a e D b os) (h' : Flows b e E c ps) : Flows a e (D ++ E) c (os ++ ps) where
  tasks := h'.tasks.trans h.tasks
  good := h'.good
  order := by
    rw [List.map_append, List.append_assoc, h'.order, ← List.append_assoc, h.order,
      List.filterMap_append, List.append_assoc]
  each p hp := by
    have hb : p ∈ b.tasks := by rwa [← h'.tasks]
    rw [toTask_append, List.filterMap_append, List.append_assoc, h'.each p hp, ← List.append_assoc,
      h.each p hb, List.append_assoc]
  dest d hd := by
    rcases List.mem_append.mp hd with hd | hd
    · rw [h'.tasks]
      exact h.dest d hd
    · exact h'.dest d hd

/-- A step that hands out nothing. -/
theorem flows_nil {a b : Spec} {e : ℕ} {o : Out} (htasks : b.tasks = a.tasks) (hgood : b.Good)
    (horder : (b.store e).contents = (a.store e).contents ++ (accepted e o).toList)
    (heach : ∀ p ∈ a.tasks,
      (received p e o).toList ++ (b.status p).inHand e = (a.status p).inHand e) :
    Flows a e [] b [o] where
  tasks := htasks
  good := hgood
  order := by
    cases ho : accepted e o <;> rw [ho] at horder <;> simpa [ho] using horder
  each p hp := by
    have h := heach p (by rwa [← htasks])
    cases ho : received p e o <;> rw [ho] at h <;> simpa [ho, toTask] using h
  dest d hd := by cases hd

/-- A step that hands a message to a task. -/
theorem flows_singleton {a b : Spec} {e : ℕ} {o : Out} {q : Prio} {m : Msg}
    (htasks : b.tasks = a.tasks) (hgood : b.Good) (hq : q ∈ a.tasks) (hidle : q ≠ osTaskIdlePrio)
    (horder : m :: (b.store e).contents = (a.store e).contents ++ (accepted e o).toList)
    (heach : ∀ p ∈ a.tasks, (received p e o).toList ++ (b.status p).inHand e =
      (a.status p).inHand e ++ if q = p then [m] else []) :
    Flows a e [(q, m)] b [o] where
  tasks := htasks
  good := hgood
  order := by
    cases ho : accepted e o <;> rw [ho] at horder <;> simpa [ho] using horder
  each p hp := by
    have h := heach p (by rwa [← htasks])
    rw [toTask_singleton]
    cases ho : received p e o <;> rw [ho] at h <;> simpa [ho] using h
  dest d hd := by
    obtain rfl := List.mem_singleton.mp hd
    exact ⟨by rwa [htasks], hidle⟩

theorem Status.inHand_tick (st : Status) (e : ℕ) : st.tick.inHand e = st.inHand e := by
  cases st with
  | delayed n => by_cases h : n = 1 <;> simp [Status.tick, Status.inHand, h]
  | waiting e' n => by_cases h : n = 1 <;> simp [Status.tick, Status.inHand, h]
  | _ => rfl

theorem accepted_of_idle {a : Spec} {e : ℕ} {o : Out} (h : a.Idle o) : accepted e o = none := by
  unfold accepted
  split
  · exact absurd rfl h
  · rfl

theorem received_of_idle {a : Spec} {p : Prio} {e : ℕ} {o : Out} (h : a.Idle o) :
    received p e o = none := by
  unfold received
  split
  · exact absurd rfl h.2
  · rfl

theorem Store.contents_put {st st' : Store} {m : Msg} (h : st.put m = .ok st')
    (hm : st.kind = .sem → m = 0) : st'.contents = st.contents ++ [m] := by
  cases st with
  | sem n =>
    simp only [Store.put] at h
    split_ifs at h
    cases h
    rw [hm rfl]
    exact List.replicate_succ'
  | queue size msgs =>
    simp only [Store.put] at h
    split_ifs at h
    cases h
    rfl

/-- The current task changes its status, with nothing in its hand before and after. -/
theorem flows_update {a b : Spec} {e : ℕ} {o : Out} {st : Status} (htasks : b.tasks = a.tasks)
    (hgood : b.Good) (hstore : b.store = a.store)
    (hst : b.status = Function.update a.status a.cur st) (ho : accepted e o = none)
    (hr : ∀ p, received p e o = none) (hold : (a.status a.cur).inHand e = [])
    (hnew : st.inHand e = []) : Flows a e [] b [o] := by
  refine flows_nil htasks hgood ?_ fun p _ => ?_
  · rw [hstore, ho, Option.toList_none, List.append_nil]
  · rw [hr, hst, Option.toList_none, List.nil_append]
    by_cases hp : p = a.cur
    · subst hp
      rw [Function.update_self, hold, hnew]
    · rw [Function.update_of_ne hp]

/-- A step hands out one message at most. -/
theorem step_flows {a b : Spec} {e : ℕ} {act : Act} {o : Out} (hgood : a.Good)
    (hs : a.step act = some (b, o)) (hset : ∀ cnt, o ≠ .set e cnt .none) :
    ∃ E, Flows a e E b [o] := by
  obtain ⟨htasks, -, hchange⟩ := Spec.step_change hs
  have hb := hgood.step hs
  generalize hst : b.status = st at hchange
  generalize hstore : b.store = store at hchange
  generalize b.time = time at hchange
  cases hchange with
  | idle ho =>
    refine ⟨[], flows_nil htasks hb ?_ fun p _ => ?_⟩
    · rw [hstore, accepted_of_idle ho]
      simp
    · rw [hst, received_of_idle ho]
      simp
  | tick =>
    refine ⟨[], flows_nil htasks hb ?_ fun p _ => ?_⟩
    · rw [hstore]
      simp [accepted]
    · rw [hst]
      simp [received, Status.inHand_tick]
  | wait _ hin | delay _ hin =>
    have hold : (a.status a.cur).inHand e = [] := by rw [hin.2.1]; rfl
    exact ⟨[], flows_update htasks hb hstore hst rfl (fun _ => rfl) hold rfl⟩
  | elapsed _ hcur | timedOut _ hcur =>
    have hold : (a.status a.cur).inHand e = [] := by rw [hcur]; rfl
    exact ⟨[], flows_update htasks hb hstore hst rfl (fun _ => rfl) hold rfl⟩
  | @returned e' msg _ hcur =>
    refine ⟨[], flows_nil htasks hb ?_ fun p _ => ?_⟩
    · rw [hstore]
      simp [accepted]
    · rw [hst]
      by_cases hp : p = a.cur
      · subst hp
        by_cases he : e' = e <;> simp [received, Status.inHand, hcur, he]
      · simp [received, hp, Ne.symm hp]
  | @handed e' msg q _ hq =>
    have hwait := Spec.receiver_mem hq
    obtain ⟨hmem, hw⟩ := Spec.mem_waiters.mp hwait
    have hold : (a.status q).inHand e = [] := by
      cases hstq : a.status q with
      | handed =>
        rw [hstq] at hw
        exact hw.elim
      | running | delayed | elapsed | waiting | timedOut => rfl
    by_cases he : e' = e
    · subst he
      refine ⟨[(q, msg)], flows_singleton htasks hb hmem (hgood.ne_idle hwait) ?_ fun p _ => ?_⟩
      · rw [hstore, Store.contents_eq_nil (hgood.waiting_empty e' q hwait)]
        simp [accepted]
      · rw [hst]
        by_cases hp : p = q
        · subst hp
          rw [hold]
          simp [received, Status.inHand]
        · simp [received, hp, Ne.symm hp]
    · refine ⟨[], flows_nil htasks hb ?_ fun p _ => ?_⟩
      · rw [hstore]
        simp [accepted, he]
      · rw [hst]
        by_cases hp : p = q
        · subst hp
          rw [hold]
          simp [received, Status.inHand, he]
        · simp [received, hp]
  | @stored e' msg st' _ hput hmsg =>
    refine ⟨[], flows_nil htasks hb ?_ fun p _ => ?_⟩
    · rw [hstore]
      by_cases he : e' = e
      · subst he
        rw [Function.update_self, Store.contents_put hput hmsg]
        simp [accepted]
      · rw [Function.update_of_ne (Ne.symm he)]
        simp [accepted, he]
    · rw [hst]
      simp [received]
  | @taken e' msg st' _ hin htake =>
    have hcur := (Spec.mem_ready.mp hgood.cur_ready).1
    by_cases he : e' = e
    · subst he
      refine ⟨[(a.cur, msg)], flows_singleton htasks hb hcur hin.2.2 ?_ fun p _ => ?_⟩
      · rw [hstore, Function.update_self, Store.contents_take htake]
        simp [accepted]
      · rw [hst]
        by_cases hp : a.cur = p
        · subst hp
          simp [received, hin.2.1, Status.inHand]
        · simp [received, hp]
    · refine ⟨[], flows_nil htasks hb ?_ fun p _ => ?_⟩
      · rw [hstore, Function.update_of_ne (Ne.symm he)]
        simp [accepted]
      · rw [hst]
        simp [received, he]
  | @set e' cnt =>
    have he : e' ≠ e := fun h => hset cnt (by rw [h])
    refine ⟨[], flows_nil htasks hb ?_ fun p _ => ?_⟩
    · rw [hstore, Function.update_of_ne he.symm]
      simp [accepted]
    · rw [hst]
      simp [received]

/-- Between any two states of a run, as long as no `OSSemSet` overwrites the count: what was posted
has been handed out in order, or is still there. Each task has got what was handed to it in order,
or has it in its hand. -/
theorem conservation {s' : Sys} {acts' : List Act} {ps : List Out} (hnodup : tasks.Nodup)
    (hidle : osTaskIdlePrio ∉ tasks)
    (hrun : Transducer.run Sys.step (Sys.start tasks obj) acts = some (s, os))
    (hrun' : Transducer.run Sys.step s acts' = some (s', ps)) (e : ℕ)
    (hset : ∀ cnt, Out.set e cnt .none ∉ ps) :
    ∃ D : List (Prio × Msg),
      (∀ d ∈ D, d.1 ∈ tasks) ∧
      D.map Prod.snd ++ (s'.k.ev e).obj.contents =
        (s.k.ev e).obj.contents ++ ps.filterMap (accepted e) ∧
      ∀ p ∈ tasks, ps.filterMap (received p e) ++ s'.inHand p e = s.inHand p e ++ toTask p D := by
  obtain ⟨a, hrep, hgood, htasks⟩ := exists_spec_tasks hnodup hidle hrun
  obtain ⟨b, hb, hrep', -⟩ := kernel_bisim.exists_run ⟨hrep, hgood⟩ hrun'
  have hinv := Transducer.run_invariant
    (P := fun b ps => (∀ cnt, Out.set e cnt .none ∉ ps) → ∃ D, Flows a e D b ps)
    (fun _ => ⟨[], Flows.refl hgood e⟩) ?_ hb hset
  · obtain ⟨D, hflows⟩ := hinv
    have hmem : ∀ p, p ∈ b.tasks ↔ p = osTaskIdlePrio ∨ p ∈ tasks := fun p => by
      rw [hflows.tasks, htasks, Finset.mem_insert, List.mem_toFinset]
    refine ⟨D, fun d hd => ?_, ?_, fun p hp => ?_⟩
    · obtain ⟨hd, hne⟩ := hflows.dest d hd
      exact ((hmem d.1).mp hd).resolve_left hne
    · rw [Obj.contents_eq, Obj.contents_eq, hrep.store, hrep'.store]
      exact hflows.order
    · have hpb : p ∈ b.tasks := (hmem p).mpr (Or.inr hp)
      rw [hrep'.inHand hpb, hrep.inHand (by rwa [← hflows.tasks])]
      exact hflows.each p hpb
  · intro c act d o qs hc hs hset'
    obtain ⟨D, hD⟩ := hc fun cnt hmem => hset' cnt (List.mem_append_left _ hmem)
    obtain ⟨E, hE⟩ := step_flows hD.good hs fun cnt ho =>
      hset' cnt (List.mem_append_right _ (List.mem_singleton.mpr ho.symm))
    exact ⟨D ++ E, hD.trans hE⟩

theorem conservation_queue :
    ∃ s os s' ps,
      Transducer.run Sys.step (Sys.start [1, 2] fun _ => osQCreate (fun _ => 0) 2 (by decide))
        [.qPend 0 0] = some (s, os) ∧
      Transducer.run Sys.step s [.qPost 0 7, .resume, .timeDly 1, .qPost 0 8] = some (s', ps) ∧
      ∃ D : List (Prio × Msg),
        (∀ d ∈ D, d.1 ∈ ([1, 2] : List Prio)) ∧
        D.map Prod.snd ++ (s'.k.ev 0).obj.contents =
          (s.k.ev 0).obj.contents ++ ps.filterMap (accepted 0) ∧
        ∀ p ∈ ([1, 2] : List Prio),
          ps.filterMap (received p 0) ++ s'.inHand p 0 = s.inHand p 0 ++ toTask p D := by
  have hrun : ((Transducer.run Sys.step
      (Sys.start [1, 2] fun _ => osQCreate (fun _ => 0) 2 (by decide)) [.qPend 0 0]).bind fun r =>
        (Transducer.run Sys.step r.1 [.qPost 0 7, .resume, .timeDly 1, .qPost 0 8]).map fun r =>
          r.2) = some [.posted 0 7 (some 1) .none, .pended 1 0 7 .none, .silent,
            .posted 0 8 none .none] := by decide +kernel
  obtain ⟨⟨s, os⟩, hfirst, hrest⟩ := Option.bind_eq_some_iff.mp hrun
  obtain ⟨⟨s', ps⟩, hsecond, rfl⟩ := Option.map_eq_some_iff.mp hrest
  exact ⟨s, os, s', _, hfirst, hsecond,
    conservation (by decide) (by decide) hfirst hsecond 0 (by simp)⟩

end Ucos

end ReactionMeter
