import ReactionMeter.Ucos.Flow

/-!
# When a waiting task goes on

A task that calls `OSTimeDly` is not ready before the tick it asked for, and ready with it
(`timeDly_exact`). A task that pends is ready with the first post it is handed or, if it gave a
time, with the tick that ends it; what the call returns depends on whether there was a post before
the task ran again (`pend_exact`).
-/

namespace ReactionMeter

namespace Ucos

variable {tasks : List Prio} {obj : ℕ → Obj} {acts acts' : List Act} {s s' t : Sys}
  {os ps : List Out} {a b : Spec} {o : Out} {p : Prio} {e n : ℕ}

/-- What a step does to a task in a call that does not return with it. -/
theorem change_of_waiting {act : Act} {st : Prio → Status} {store : ℕ → Store} {time : ℕ}
    (h : Spec.Change a act o st store time) (hrun : a.status p ≠ .running)
    (helapsed : a.status p ≠ .elapsed) (hret : ∀ e msg err, o ≠ .pended p e msg err) :
    (time = a.time + 1 ∧ st p = (a.status p).tick ∧ o = .silent) ∨
    (∃ e msg, time = a.time ∧ (a.status p).WaitsFor e ∧ st p = .handed e msg ∧
      o = .posted e msg (some p) .none) ∨
    (time = a.time ∧ st p = a.status p ∧ ∀ e msg, o ≠ .posted e msg (some p) .none) := by
  cases h with
  | idle ho =>
    refine Or.inr (Or.inr ⟨rfl, rfl, ?_⟩)
    rintro e msg rfl
    exact ho rfl
  | tick => exact Or.inl ⟨rfl, rfl, rfl⟩
  | wait _ hin | delay _ hin =>
    have hp : p ≠ a.cur := fun hp => hrun (by rw [hp, hin.2.1])
    exact Or.inr (Or.inr ⟨rfl, Function.update_of_ne hp _ _, fun _ _ => by simp⟩)
  | @handed e msg q _ hq =>
    by_cases hp : p = q
    · subst hp
      have hw := (Spec.mem_waiters.mp (Spec.receiver_mem hq)).2
      exact Or.inr (Or.inl ⟨e, msg, rfl, hw, Function.update_self _ _ _, rfl⟩)
    · exact Or.inr (Or.inr ⟨rfl, Function.update_of_ne hp _ _, fun _ _ => by simp [Ne.symm hp]⟩)
  | stored | taken | set => exact Or.inr (Or.inr ⟨rfl, rfl, fun _ _ => by simp⟩)
  | elapsed _ hst =>
    have hp : p ≠ a.cur := fun hp => helapsed (by rw [hp, hst])
    exact Or.inr (Or.inr ⟨rfl, Function.update_of_ne hp _ _, fun _ _ => by simp⟩)
  | timedOut _ hst =>
    have hp : p ≠ a.cur := fun hp => hret _ _ _ (by rw [hp])
    exact Or.inr (Or.inr ⟨rfl, Function.update_of_ne hp _ _, fun _ _ => by simp⟩)
  | returned _ hst =>
    have hp : p ≠ a.cur := fun hp => hret _ _ _ (by rw [hp])
    exact Or.inr (Or.inr ⟨rfl, Function.update_of_ne hp _ _, fun _ _ => by simp⟩)

theorem ne_pended {act : Act} {st : Prio → Status} {store : ℕ → Store} {time : ℕ}
    (h : Spec.Change a act o st store time) (hp : p ≠ a.cur) (e : ℕ) (msg : Msg) (err : Err) :
    o ≠ .pended p e msg err := by
  rintro rfl
  cases h with
  | idle ho => exact hp ho.1
  | taken | timedOut | returned => exact hp rfl

/-! ## Delays -/

theorem delayed_step {act : Act} (hgood : a.Good) (hst : a.status p = .delayed n)
    (hs : a.step act = some (b, o)) :
    b.status p = if act = .timeTick then (Status.delayed n).tick else .delayed n := by
  obtain ⟨-, htime, hchange⟩ := Spec.step_change hs
  have hcur : p ≠ a.cur := by
    rintro rfl
    have hready := (Spec.mem_ready.mp hgood.cur_ready).2
    rw [hst] at hready
    exact hready
  rcases change_of_waiting (p := p) hchange (by rw [hst]; simp) (by rw [hst]; simp)
    (ne_pended hchange hcur) with ⟨ht, heq, -⟩ | ⟨e, msg, -, hw, -⟩ | ⟨ht, heq, -⟩
  · rw [htime] at ht
    have hact : act = .timeTick := by
      by_contra hne
      simp [hne] at ht
    rw [heq, hst, if_pos hact]
  · rw [hst] at hw
    exact hw.elim
  · rw [htime] at ht
    have hact : act ≠ .timeTick := by
      rintro rfl
      simp at ht
    rw [heq, hst, if_neg hact]

theorem delayed_run (hgood : a.Good) (hst : a.status p = .delayed n)
    (h : Transducer.run Spec.step a acts = some (b, os)) (hlt : acts.count .timeTick < n) :
    b.Good ∧ b.status p = .delayed (n - acts.count .timeTick) := by
  induction acts generalizing a n os with
  | nil =>
    cases h
    exact ⟨hgood, hst⟩
  | cons act acts ih =>
    obtain ⟨c, o, ps, hc, hrest, -⟩ := Transducer.run_cons_eq_some.mp h
    have hstep := delayed_step hgood hst hc
    rw [List.count_cons] at hlt ⊢
    by_cases hact : act = .timeTick
    · subst hact
      simp only [beq_self_eq_true, if_true] at hlt ⊢
      have hn : n ≠ 1 := by omega
      rw [if_pos rfl, Status.tick, if_neg hn] at hstep
      rw [Nat.add_comm, Nat.sub_add_eq]
      exact ih (hgood.step hc) hstep hrest (by omega)
    · rw [if_neg hact] at hstep
      have hbeq : (act == .timeTick) = false := beq_false_of_ne hact
      simp only [hbeq] at hlt ⊢
      exact ih (hgood.step hc) hstep hrest hlt

/-- `OSTimeDly(n)`: the task is not ready before the `n`-th tick after the call, and it is ready
with that tick, whatever else happens. -/
theorem timeDly_exact (hnodup : tasks.Nodup) (hidle : osTaskIdlePrio ∉ tasks)
    (hrun : Transducer.run Sys.step (Sys.start tasks obj) acts = some (s, os)) (hn : 0 < n)
    (hdly : s.step (.timeDly n) = some (s', o))
    (hrun' : Transducer.run Sys.step s' acts' = some (t, ps)) :
    (acts'.count .timeTick < n → s.k.prioCur ∉ t.k.rdy) ∧
      ∀ t' o', acts'.count .timeTick + 1 = n → t.step .timeTick = some (t', o') →
        s.k.prioCur ∈ t'.k.rdy := by
  obtain ⟨a, hrep, hgood, -⟩ := exists_spec_tasks hnodup hidle hrun
  have hone := Transducer.run_singleton_eq_some.mpr ⟨o, hdly, rfl⟩
  obtain ⟨b, hb, hrep', hgood'⟩ := kernel_bisim.exists_run ⟨hrep, hgood⟩ hone
  obtain ⟨_, hbs, -⟩ := Transducer.run_singleton_eq_some.mp hb
  have hst : b.status s.k.prioCur = .delayed n ∧ s.k.prioCur ∈ b.tasks := by
    simp only [Spec.step] at hbs
    split_ifs at hbs
    cases hbs
    rw [Spec.schedule_status, Spec.schedule_tasks, hrep.cur]
    exact ⟨Function.update_self _ _ _, (Spec.mem_ready.mp hgood.cur_ready).1⟩
  obtain ⟨c, hc, hrep'', hgood''⟩ := kernel_bisim.exists_run ⟨hrep', hgood'⟩ hrun'
  refine ⟨fun hlt hmem => ?_, fun t' o' hlast htick => ?_⟩
  · obtain ⟨-, hcst⟩ := delayed_run hgood' hst.1 hc hlt
    rw [← PrioTable.mem_toFinset, hrep''.rdy, Spec.mem_ready, hcst] at hmem
    exact hmem.2
  · obtain ⟨-, hcst⟩ := delayed_run hgood' hst.1 hc (by omega)
    have hone' := Transducer.run_singleton_eq_some.mpr ⟨o', htick, rfl⟩
    obtain ⟨d, hd, hrepd, -⟩ := kernel_bisim.exists_run ⟨hrep'', hgood''⟩ hone'
    obtain ⟨_, hds, -⟩ := Transducer.run_singleton_eq_some.mp hd
    have hdst := delayed_step hgood'' hcst hds
    rw [if_pos rfl, show n - acts'.count .timeTick = 1 by omega] at hdst
    have hmem : s.k.prioCur ∈ d.tasks := by
      rw [(Spec.step_change hds).1]
      refine Transducer.run_invariant_state (P := fun c => s.k.prioCur ∈ c.tasks) hst.2 ?_ hc
      exact fun c act c' o hc hs => by rwa [(Spec.step_change hs).1]
    rw [← PrioTable.mem_toFinset, hrepd.rdy, Spec.mem_ready, hdst]
    exact ⟨hmem, trivial⟩

theorem timeDly_exact_two :
    ∃ s' o t ps, (Sys.start [1, 2] fun _ => osSemCreate 0).step (.timeDly 2) = some (s', o) ∧
      Transducer.run Sys.step s' [.intEnter, .timeTick] = some (t, ps) ∧
      (1 < 2 → 1 ∉ t.k.rdy) ∧
        ∀ t' o', 1 + 1 = 2 → t.step .timeTick = some (t', o') → 1 ∈ t'.k.rdy := by
  have hrun : (((Sys.start [1, 2] fun _ => osSemCreate 0).step (.timeDly 2)).bind fun r =>
      Transducer.run Sys.step r.1 [.intEnter, .timeTick]).isSome = true := by decide +kernel
  obtain ⟨⟨t, ps⟩, hbind⟩ := Option.isSome_iff_exists.mp hrun
  obtain ⟨⟨s', o⟩, hdly, hticks⟩ := Option.bind_eq_some_iff.mp hbind
  exact ⟨s', o, t, ps, hdly, hticks,
    timeDly_exact (by decide) (by decide) Transducer.run_nil (by decide) hdly hticks⟩

/-! ## Pends -/

/-- The task has been handed a post on the event. -/
def Handed (p : Prio) (e : ℕ) (os : List Out) : Prop :=
  ∃ msg, Out.posted e msg (some p) .none ∈ os

theorem handed_append : Handed p e (os ++ [o]) ↔
    Handed p e os ∨ ∃ msg, o = .posted e msg (some p) .none := by
  simp only [Handed, List.mem_append, List.mem_singleton, exists_or, eq_comm]

/-- The status of a task in a pend: what counts is whether it has been handed a post, and else how
many ticks there were. -/
theorem waiting_run (hst : a.status p = .waiting e n)
    (h : Transducer.run Spec.step a acts = some (b, os))
    (hret : ∀ e' msg err, Out.pended p e' msg err ∉ os) :
    (Handed p e os → ∃ msg, b.status p = .handed e msg) ∧
      (¬ Handed p e os → b.status p =
        if 0 < n ∧ n ≤ acts.count .timeTick then .timedOut e
        else .waiting e (n - acts.count .timeTick)) := by
  induction acts using List.reverseRecOn generalizing b os with
  | nil =>
    cases h
    refine ⟨fun ⟨_, hmem⟩ => absurd hmem List.not_mem_nil, fun _ => ?_⟩
    rw [if_neg (by simp; omega), hst]
    rfl
  | append_singleton acts act ih =>
    obtain ⟨c, ps, qs, hc, hlast, rfl⟩ := Transducer.run_append_eq_some.mp h
    obtain ⟨o, hs, rfl⟩ := Transducer.run_singleton_eq_some.mp hlast
    obtain ⟨hhanded, hnot⟩ := ih hc fun e' msg err hmem =>
      hret e' msg err (List.mem_append_left _ hmem)
    obtain ⟨-, htime, hchange⟩ := Spec.step_change hs
    have hret' : ∀ e' msg err, o ≠ .pended p e' msg err := fun e' msg err ho =>
      hret e' msg err (List.mem_append_right _ (List.mem_singleton.mpr ho.symm))
    rw [handed_append, List.count_append, List.count_singleton]
    by_cases hold : Handed p e ps
    · -- a post that was handed over stays until the call returns
      obtain ⟨msg, hmsg⟩ := hhanded hold
      refine ⟨fun _ => ⟨msg, ?_⟩, fun h => absurd (Or.inl hold) h⟩
      rcases change_of_waiting hchange (by rw [hmsg]; simp) (by rw [hmsg]; simp) hret' with
        ⟨-, heq, -⟩ | ⟨e', msg', -, hw, -⟩ | ⟨-, heq, -⟩
      · rw [heq, hmsg]
        rfl
      · rw [hmsg] at hw
        exact hw.elim
      · rw [heq, hmsg]
    · have hcst := hnot hold
      have hnr : c.status p ≠ .running ∧ c.status p ≠ .elapsed := by
        rw [hcst]
        split_ifs <;> simp
      rcases change_of_waiting hchange hnr.1 hnr.2 hret' with
        ⟨ht, heq, ho⟩ | ⟨e', msg, -, hw, heq, ho⟩ | ⟨ht, heq, ho⟩
      · have hact : act = .timeTick := by
          by_contra hne
          rw [htime, if_neg hne] at ht
          omega
        subst hact
        refine ⟨fun hh => ?_, fun _ => ?_⟩
        · rcases hh with hh | ⟨msg, hmsg⟩
          · exact absurd hh hold
          · rw [ho] at hmsg
            cases hmsg
        · rw [heq, hcst]
          simp only [beq_self_eq_true, if_true]
          by_cases h1 : 0 < n ∧ n ≤ acts.count .timeTick
          · rw [if_pos h1, if_pos ⟨h1.1, by omega⟩]
            rfl
          · rw [if_neg h1, Status.tick]
            by_cases h2 : n - acts.count .timeTick = 1
            · rw [if_pos h2, if_pos (by omega)]
            · rw [if_neg h2, if_neg (by omega), Nat.sub_sub]
      · obtain rfl : e' = e := by
          rw [hcst] at hw
          split_ifs at hw <;> exact Eq.symm hw
        refine ⟨fun _ => ⟨msg, heq⟩, fun h => absurd (Or.inr ⟨msg, ho⟩) h⟩
      · have hact : act ≠ .timeTick := by
          rintro rfl
          rw [htime, if_pos rfl] at ht
          omega
        refine ⟨fun hh => ?_, fun _ => ?_⟩
        · rcases hh with hh | ⟨msg, hmsg⟩
          · exact absurd hh hold
          · exact absurd hmsg (ho e msg)
        · have hbeq : (act == .timeTick) = false := beq_false_of_ne hact
          rw [heq, hcst, hbeq]
          rfl

theorem pendStep_silent {kind : Kind} (hs : a.pendStep kind e n = (b, .silent)) :
    b.status a.cur = .waiting e n ∧ b.tasks = a.tasks := by
  unfold Spec.pendStep Spec.pend at hs
  split_ifs at hs with hk
  · cases hs
  · cases ht : (a.store e).take with
    | some r =>
      rw [ht] at hs
      cases hs
    | none =>
      rw [ht] at hs
      cases hs
      rw [Spec.schedule_status, Spec.schedule_tasks]
      exact ⟨Function.update_self _ _ _, rfl⟩

/-- A pend that waits: the task is ready as soon as it has been handed a post, or with the tick
that ends its time if it gave one. When it runs again the call returns without an error if it was
handed a post, also if its time was over before, and with a timeout if not. -/
theorem pend_exact (hnodup : tasks.Nodup) (hidle : osTaskIdlePrio ∉ tasks)
    (hrun : Transducer.run Sys.step (Sys.start tasks obj) acts = some (s, os))
    (hpend : s.step (.semPend e n) = some (s', .silent) ∨
      s.step (.qPend e n) = some (s', .silent))
    (hrun' : Transducer.run Sys.step s' acts' = some (t, ps))
    (hret : ∀ e' msg err, Out.pended s.k.prioCur e' msg err ∉ ps) :
    (s.k.prioCur ∈ t.k.rdy ↔
      Handed s.k.prioCur e ps ∨ 0 < n ∧ n ≤ acts'.count .timeTick) ∧
    ∀ t' o, t.k.prioCur = s.k.prioCur → t.step .resume = some (t', o) →
      (Handed s.k.prioCur e ps → ∃ msg, o = .pended s.k.prioCur e msg .none) ∧
      (¬ Handed s.k.prioCur e ps → o = .pended s.k.prioCur e 0 .timeout) := by
  obtain ⟨a, hrep, hgood, -⟩ := exists_spec_tasks hnodup hidle hrun
  obtain ⟨b, hrep', hgood', hst, htasks⟩ : ∃ b, Represents s' b ∧ b.Good ∧
      b.status s.k.prioCur = .waiting e n ∧ b.tasks = a.tasks := by
    rcases hpend with hpend | hpend
    all_goals
      have hone := Transducer.run_singleton_eq_some.mpr ⟨_, hpend, rfl⟩
      obtain ⟨b, hb, hrep', hgood'⟩ := kernel_bisim.exists_run ⟨hrep, hgood⟩ hone
      obtain ⟨o, hbs, ho⟩ := Transducer.run_singleton_eq_some.mp hb
      obtain rfl : Out.silent = o := (List.cons.inj ho).1
      simp only [Spec.step] at hbs
      split_ifs at hbs
      rw [hrep.cur]
      exact ⟨b, hrep', hgood', pendStep_silent (Option.some.inj hbs)⟩
  obtain ⟨c, hc, hrepc, hgoodc⟩ := kernel_bisim.exists_run ⟨hrep', hgood'⟩ hrun'
  obtain ⟨hhanded, hnot⟩ := waiting_run hst hc hret
  have hmem : s.k.prioCur ∈ c.tasks := by
    refine Transducer.run_invariant_state (P := fun c => s.k.prioCur ∈ c.tasks) ?_ ?_ hc
    · rw [htasks, hrep.cur]
      exact (Spec.mem_ready.mp hgood.cur_ready).1
    · exact fun c act c' o hc hs => by rwa [(Spec.step_change hs).1]
  constructor
  · rw [← PrioTable.mem_toFinset, hrepc.rdy, Spec.mem_ready]
    by_cases hh : Handed s.k.prioCur e ps
    · obtain ⟨msg, hmsg⟩ := hhanded hh
      simp [hmem, hmsg, hh, Status.Ready]
    · rw [hnot hh]
      by_cases ht : 0 < n ∧ n ≤ acts'.count .timeTick
      · simp [hmem, ht, Status.Ready]
      · simp [hh, ht, Status.Ready]
  · intro t' o hcur hres
    have hone := Transducer.run_singleton_eq_some.mpr ⟨o, hres, rfl⟩
    obtain ⟨d, hd, -, -⟩ := kernel_bisim.exists_run ⟨hrepc, hgoodc⟩ hone
    obtain ⟨o', hds, ho⟩ := Transducer.run_singleton_eq_some.mp hd
    obtain rfl : o = o' := (List.cons.inj ho).1
    have hcur' : c.cur = s.k.prioCur := hrepc.cur.symm.trans hcur
    simp only [Spec.step] at hds
    split_ifs at hds
    unfold Spec.resume at hds
    rw [hcur'] at hds
    refine ⟨fun hh => ?_, fun hh => ?_⟩
    · obtain ⟨msg, hmsg⟩ := hhanded hh
      rw [hmsg] at hds
      cases hds
      exact ⟨msg, rfl⟩
    · rw [hnot hh] at hds
      split_ifs at hds
      cases hds
      rfl

/-- A tick and a post inside an interrupt: the task is current again when the interrupt is left, and
its call returns with the post. -/
theorem pend_exact_three :
    ∃ s' t ps t' o,
      (Sys.start [1, 2] fun _ => osSemCreate 0).step (.semPend 0 3) = some (s', .silent) ∧
      Transducer.run Sys.step s' [.intEnter, .timeTick, .semPost 0, .intExit] = some (t, ps) ∧
      (1 ∈ t.k.rdy ↔ Handed 1 0 ps ∨ 0 < 3 ∧ 3 ≤ 1) ∧
      Handed 1 0 ps ∧ t.k.prioCur = 1 ∧ t.step .resume = some (t', o) ∧
      (Handed 1 0 ps → ∃ msg, o = .pended 1 0 msg .none) ∧
      (¬ Handed 1 0 ps → o = .pended 1 0 0 .timeout) := by
  have hrun : (((Sys.start [1, 2] fun _ => osSemCreate 0).step (.semPend 0 3)).bind fun r =>
      (Transducer.run Sys.step r.1 [.intEnter, .timeTick, .semPost 0, .intExit]).bind fun q =>
        (q.1.step .resume).map fun w => (r.2, q.2, q.1.k.prioCur, w.2)) =
      some (.silent, [.silent, .silent, .posted 0 0 (some 1) .none, .silent], 1,
        .pended 1 0 0 .none) := by
    decide +kernel
  obtain ⟨⟨s', o⟩, hpend, hrest⟩ := Option.bind_eq_some_iff.mp hrun
  obtain ⟨⟨t, ps⟩, hposts, hback⟩ := Option.bind_eq_some_iff.mp hrest
  obtain ⟨⟨t', o'⟩, hresume, hout⟩ := Option.map_eq_some_iff.mp hback
  simp only [Prod.mk.injEq] at hout
  obtain ⟨rfl, rfl, hcur', -⟩ := hout
  obtain ⟨hready, hreturn⟩ := pend_exact (by decide) (by decide) Transducer.run_nil
    (Or.inl hpend) hposts (by simp)
  have hcur : (Sys.start [1, 2] fun _ => osSemCreate 0).k.prioCur = 1 := by decide +kernel
  have hcount : [Act.intEnter, .timeTick, .semPost 0, .intExit].count .timeTick = 1 := by decide
  rw [hcur, hcount] at hready
  rw [hcur] at hreturn
  exact ⟨s', t, _, t', o', hpend, hposts, hready, ⟨0, by simp⟩, hcur', hresume,
    hreturn t' o' hcur' hresume⟩

end Ucos

end ReactionMeter
