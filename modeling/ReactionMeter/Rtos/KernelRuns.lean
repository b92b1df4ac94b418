import ReactionMeter.Rtos.KernelSim

/-!
# Runs of the program on the kernel

What the others do, and what is posted for the task, keep the relation of `Rtos.KernelSim`, as the
pieces of the task do. So the abstract system follows the program through every run.
-/

namespace ReactionMeter

namespace Rtos

open Ucos (Act Out Err Ctx Prio Status Store Kind Spec Represents)

variable {os os' : Ucos.Sys} {x y : Spec} {s : Sys} {b b' : Program} {act : Act} {o : Out}
  {e : ℕ} {p : Prio} {st : Status} {now : ℕ} {pc : TaskPc}

/-! ## The status of the task -/

/-- In its own code the task may wait for anything but the events of the program. -/
theorem statusAt_iff (h : ¬ pc.code.InCall) :
    StatusAt now st pc ↔ ∀ e, Own e → ¬ st.WaitsFor e := by
  cases pc with
  | register | ready | waitStart | delayWait | pendStop | waitStop => exact absurd trivial h
  | _ => rfl

theorem Got.not_waitsFor (h : Got st) (e : ℕ) : ¬ st.WaitsFor e := by
  cases st with
  | running | handed => exact id
  | delayed | elapsed | waiting | timedOut => exact h.elim

/-- In a call of its own the task waits for nothing but what it pends on. -/
theorem StatusAt.event (h : StatusAt now st pc) (he : Own e ∨ pc.code.InCall)
    (hw : st.WaitsFor e) : pc.code.event = some e := by
  by_cases hcall : pc.code.InCall
  · cases pc with
    | idle | start | pollStart | delay | cheatCheck | count | stop | pollStop => exact hcall.elim
    | register | ready =>
      rcases h with hgot | hwait
      · exact absurd hw (hgot.not_waitsFor e)
      · rw [hwait] at hw
        exact congrArg some hw
    | pendStop =>
      rcases h with hgot | ⟨hwait, -⟩ | ⟨htimed, -⟩
      · exact absurd hw (hgot.not_waitsFor e)
      · rw [hwait] at hw
        exact congrArg some hw
      · rw [htimed] at hw
        exact congrArg some hw
    | waitStart | delayWait | waitStop =>
      rcases h with ⟨left, hdelayed, -⟩ | ⟨helapsed, -⟩
      · rw [hdelayed] at hw
        exact hw.elim
      · rw [helapsed] at hw
        exact hw.elim
  · exact absurd hw ((statusAt_iff hcall).mp h e (he.resolve_right hcall))

theorem StatusAt.got_or_waits (h : StatusAt now st pc) (hevent : pc.code.event = some e) :
    Got st ∨ st.WaitsFor e := by
  cases pc with
  | register | ready =>
    cases hevent
    exact h.imp_right fun hw => by rw [hw]; rfl
  | pendStop =>
    cases hevent
    rcases h with hgot | ⟨hw, -⟩ | ⟨hw, -⟩
    · exact Or.inl hgot
    · exact Or.inr (by rw [hw]; rfl)
    · exact Or.inr (by rw [hw]; rfl)
  | _ => cases hevent

theorem statusAt_got (hevent : pc.code.event = some e) (hst : Got st) : StatusAt now st pc := by
  cases pc with
  | register | ready | pendStop => exact Or.inl hst
  | _ => cases hevent

theorem got_tick : Got st.tick ↔ Got st := by
  cases st with
  | delayed n => by_cases h : n = 1 <;> simp [Status.tick, Got, h]
  | waiting e n => by_cases h : n = 1 <;> simp [Status.tick, Got, h]
  | _ => rfl

theorem DelayedTo.tick {deadline : ℕ} (h : DelayedTo now deadline st)
    (hpos : ∀ n, st = .delayed n → 0 < n) : DelayedTo (now + 1) deadline st.tick := by
  rcases h with ⟨left, rfl, rfl⟩ | ⟨rfl, hle⟩
  · have hleft := hpos left rfl
    by_cases h1 : left = 1
    · subst h1
      exact Or.inr ⟨rfl, le_rfl⟩
    · exact Or.inl ⟨left - 1, if_neg h1, by omega⟩
  · exact Or.inr ⟨rfl, by omega⟩

theorem PendsOn.tick (h : PendsOn e st) : PendsOn e st.tick := by
  rcases h with hgot | rfl
  · exact Or.inl (got_tick.mpr hgot)
  · exact Or.inr rfl

theorem StatusAt.tick (h : StatusAt now st pc) (hpos : ∀ n, st = .delayed n → 0 < n) :
    StatusAt (now + 1) st.tick pc := by
  cases pc with
  | register | ready => exact PendsOn.tick h
  | waitStart | delayWait | waitStop => exact DelayedTo.tick h hpos
  | pendStop time deadline =>
    rcases h with hgot | ⟨rfl, rfl⟩ | ⟨rfl, hle⟩
    · exact Or.inl (got_tick.mpr hgot)
    · exact Or.inr (Or.inr ⟨rfl, le_rfl⟩)
    · exact Or.inr (Or.inr ⟨rfl, by omega⟩)
  | idle | start | pollStart | delay | cheatCheck | count | stop | pollStop =>
    exact fun e he hw => h e he (Status.waitsFor_tick.mp hw)

/-! ## What others do -/

/-- A call of a task, as opposed to what an interrupt does. -/
def Call : Act → Prop
  | .intEnter | .intExit | .timeTick => False
  | _ => True

theorem Program.Other.elsewhere (h : b.Other act) (hact : Call act) : b.Elsewhere := by
  cases act with
  | intEnter | intExit | timeTick => exact hact.elim
  | timeDly | resume => exact h
  | semPost | qPost | semPend | qPend | semSet => exact h.2

theorem Program.Other.event (h : b.Other act) (he : act.event = some e) : ¬ Own e := by
  cases act with
  | intEnter | intExit | timeTick | timeDly | resume => cases he
  | semPost | qPost | semPend | qPend | semSet =>
    cases he
    exact h.1

/-- A step that is not about the events of the program leaves the status of a task as it is, or the
task is free to have another one that has nothing to do with these events. -/
theorem foreign_status {free : Prop} (hs : x.step act = some (y, o)) (htick : act ≠ .timeTick)
    (hevent : ∀ e, act.event = some e → ¬ Own e)
    (hcur : Call act → x.nest = 0 → x.cur = p → free)
    (hwait : ∀ e, (x.status p).WaitsFor e → ¬ Own e → free) :
    y.status p = x.status p ∨ free ∧ ∀ e, Own e → ¬ (y.status p).WaitsFor e := by
  have hnest : act = .resume → x.nest = 0 := by
    rintro rfl
    by_contra hne
    rw [Spec.step, if_neg hne] at hs
    cases hs
  have hcall : ∀ e, act.event = some e → Call act := by
    intro e he
    cases act with
    | intEnter | intExit | timeTick => cases he
    | _ => trivial
  obtain ⟨-, -, hchange⟩ := Spec.step_change hs
  generalize y.status = status at hchange ⊢
  generalize y.store = store at hchange
  generalize y.time = time at hchange
  cases hchange with
  | idle | stored | taken | set => exact Or.inl rfl
  | tick hact => exact absurd hact htick
  | @wait e n hact hin =>
    by_cases hp : p = x.cur
    · subst hp
      refine Or.inr ⟨hcur (hcall e hact) hin.1 rfl, fun e' he' hw => ?_⟩
      rw [Function.update_self] at hw
      obtain rfl : e = e' := hw
      exact hevent e hact he'
    · exact Or.inl (Function.update_of_ne hp _ _)
  | @delay n hact hin =>
    by_cases hp : p = x.cur
    · subst hp
      refine Or.inr ⟨hcur (by rw [hact]; trivial) hin.1 rfl, fun e' _ hw => ?_⟩
      rw [Function.update_self] at hw
      exact hw
    · exact Or.inl (Function.update_of_ne hp _ _)
  | @handed e msg q hact hq =>
    by_cases hp : p = q
    · subst hp
      have hw := (Spec.mem_waiters.mp (Spec.receiver_mem hq)).2
      refine Or.inr ⟨hwait e hw (hevent e hact), fun e' _ hw' => ?_⟩
      rw [Function.update_self] at hw'
      exact hw'
    · exact Or.inl (Function.update_of_ne hp _ _)
  | elapsed hact | timedOut hact | returned hact =>
    by_cases hp : p = x.cur
    · subst hp
      refine Or.inr ⟨hcur (by rw [hact]; trivial) (hnest hact) rfl, fun e' _ hw => ?_⟩
      rw [Function.update_self] at hw
      exact hw
    · exact Or.inl (Function.update_of_ne hp _ _)

theorem foreign_store (hs : x.step act = some (y, o))
    (hevent : ∀ e, act.event = some e → ¬ Own e) (he : Own e) : y.store e = x.store e := by
  obtain ⟨-, -, hchange⟩ := Spec.step_change hs
  generalize y.status = status at hchange
  generalize y.store = store at hchange ⊢
  generalize y.time = time at hchange
  cases hchange with
  | idle | tick | wait | delay | handed | elapsed | timedOut | returned => rfl
  | @stored e' _ _ hact | @taken e' _ _ hact | @set e' _ hact =>
    have hne : e ≠ e' := fun h => hevent e' hact (h ▸ he)
    exact Function.update_of_ne hne _ _

/-- What the abstract system does when others do something: it notices a tick. -/
theorem Sim.other (h : Sim b x s) (hother : b.Other act) (hs : b.kernel act = some b') :
    ∃ y, Sim b' y (if act = .timeTick then { s with now := s.now + 1 } else s) := by
  obtain ⟨⟨os', o⟩, hstep, rfl⟩ := Option.map_eq_some_iff.mp hs
  obtain ⟨y, hy, hrep, hgood, htasks⟩ := h.step hstep
  have hstore : ∀ e, Own e → y.store e = x.store e := fun e he =>
    foreign_store hy (fun _ => hother.event) he
  have htime := (Spec.step_change hy).2.1
  have hshape : ∀ e, Own e → Shape e (y.store e) := fun e he => by
    rw [hstore e he]
    exact h.shape e he
  by_cases htick : act = .timeTick
  · subst htick
    have hstatus : y.status = fun p => (x.status p).tick := by
      simp only [Spec.step] at hy
      split_ifs at hy
      cases hy
      rfl
    rw [if_pos rfl] at htime ⊢
    refine ⟨y, ⟨hrep, hgood, htasks.trans h.tasks, hshape, fun p hp e he hw => ?_⟩, h.data, h.vars,
      h.code, ?_, fun e he => ?_, ?_, h.delay⟩
    · rw [hstatus] at hw
      exact h.alone p hp e he (Status.waitsFor_tick.mp hw)
    · rw [htime, ← h.now]
    · rw [level, hstore e he, hstatus, inHands]
      simp only [got_tick]
      exact h.stock e he
    · rw [hstatus, htime]
      exact h.status.tick fun n hn => h.good.left_pos _ n hn
  · rw [if_neg htick] at htime ⊢
    have halone : ∀ p, p ≠ task1Priority → ∀ e, Own e → ¬ (y.status p).WaitsFor e := by
      intro p hp e he
      rcases foreign_status (p := p) hy htick (fun _ => hother.event) (fun _ _ _ => trivial)
        (fun _ _ _ => trivial) with hsame | ⟨-, hfree⟩
      · rw [hsame]
        exact h.alone p hp e he
      · exact hfree e he
    have hone : y.status task1Priority = x.status task1Priority ∨
        ¬ b.code.InCall ∧ ∀ e, Own e → ¬ (y.status task1Priority).WaitsFor e := by
      refine foreign_status hy htick (fun _ => hother.event) (fun hact hnest hcur => ?_)
        fun e hw he hcall => ?_
      · rcases hother.elsewhere hact with hn | hc | hc
        · rw [h.rep.nest, hnest] at hn
          exact absurd hn (lt_irrefl 0)
        · exact absurd (h.rep.cur.trans hcur) hc
        · exact hc
      · exact he (Code.own_event (h.status.event (Or.inr (by rwa [h.code])) hw))
    refine ⟨y, ⟨hrep, hgood, htasks.trans h.tasks, hshape, halone⟩, h.data, h.vars, h.code,
      h.now.trans htime.symm, fun e he => ?_, ?_, h.delay⟩
    · have hin : inHands (y.status task1Priority) b.code e =
          inHands (x.status task1Priority) b.code e := by
        rcases hone with hsame | ⟨hcall, -⟩
        · rw [hsame]
        · rw [inHands_eq_zero hcall, inHands_eq_zero hcall]
      rw [level, hstore e he, hin]
      exact h.stock e he
    · rw [htime, Nat.add_zero]
      rcases hone with hsame | ⟨hcall, hfree⟩
      · rw [hsame]
        exact h.status
      · exact (statusAt_iff (by rwa [h.code])).mpr hfree

/-! ## What is posted for the task -/

/-- The call by which something is posted to an event of the program. -/
def postAct (e : ℕ) (msg : Ucos.Msg) : Act := if e = playerQueue then .qPost e msg else .semPost e

/-- A post goes to a task that waits, or into the store, or is refused. -/
theorem post_own {msg : Ucos.Msg} (hshape : Shape e (x.store e))
    (hs : x.step (postAct e msg) = some (y, o)) :
    ∃ m err, o = .posted e m (x.receiver e) err ∧
      ((err = .none ∧ ∃ p, x.receiver e = some p ∧
          y = (x.setStatus p (.handed e m)).schedule) ∨
        (err = .none ∧ x.receiver e = none ∧
          ∃ st, (x.store e).put m = .ok st ∧ y = x.setStore e st) ∨
        (x.receiver e = none ∧ (x.store e).put m = .error err ∧ y = x)) := by
  obtain ⟨kind, m, hkind, hy, ho⟩ : ∃ kind m, (x.store e).kind = kind ∧
      (x.post kind e m).1 = y ∧ o = .posted e m (x.receiver e) (x.post kind e m).2 := by
    unfold postAct at hs
    unfold Shape at hshape
    split_ifs at hs hshape with he
    · obtain ⟨msgs, hmsgs⟩ := hshape
      simp only [Spec.step] at hs
      split_ifs at hs
      cases hs
      exact ⟨.queue, msg, by rw [hmsgs]; rfl, rfl, rfl⟩
    · simp only [Spec.step] at hs
      split_ifs at hs
      cases hs
      exact ⟨.sem, 0, hshape, rfl, rfl⟩
  refine ⟨m, _, ho, ?_⟩
  unfold Spec.post at hy ⊢
  rw [if_neg (not_not_intro hkind)] at hy ⊢
  cases hr : x.receiver e with
  | some p =>
    rw [hr] at hy
    exact Or.inl ⟨rfl, p, rfl, hy.symm⟩
  | none =>
    rw [hr] at hy
    dsimp only at hy ⊢
    cases hput : (x.store e).put m with
    | ok st =>
      rw [hput] at hy
      exact Or.inr (Or.inl ⟨rfl, rfl, st, rfl, hy.symm⟩)
    | error err =>
      rw [hput] at hy
      exact Or.inr (Or.inr ⟨rfl, rfl, hy.symm⟩)

theorem Shape.put {st st' : Store} {m : Ucos.Msg} (h : Shape e st) (hput : st.put m = .ok st') :
    Shape e st' := by
  unfold Shape at h ⊢
  split_ifs at h ⊢
  · obtain ⟨msgs, rfl⟩ := h
    simp only [Store.put] at hput
    split_ifs at hput
    cases hput
    exact ⟨_, rfl⟩
  · cases st with
    | queue => cases h
    | sem k =>
      simp only [Store.put] at hput
      split_ifs at hput
      cases hput
      rfl

theorem Store.length_put {st st' : Store} {m : Ucos.Msg} (h : st.put m = .ok st') :
    st'.contents.length = st.contents.length + 1 := by
  cases st with
  | sem n =>
    simp only [Store.put] at h
    split_ifs at h
    cases h
    simp [Ucos.Store.contents]
  | queue size msgs =>
    simp only [Store.put] at h
    split_ifs at h
    cases h
    simp [Ucos.Store.contents]

/-- A post to an event of the program: the stock grows by one, unless the post is refused. -/
theorem Sim.post {msg : Ucos.Msg} (h : Sim b x s) (he : Own e)
    (hs : b.os.step (postAct e msg) = some (os', o)) :
    ∃ m r err, o = .posted e m r err ∧
      ((err = .none ∧ ((∃ p, x.receiver e = some p) ∨ ∃ st, (x.store e).put m = .ok st) ∧
        ∀ s' : Sys, s'.data = s.data → s'.vars = s.vars → s'.pc = s.pc →
          s'.now = s.now → (∀ e', Own e' → s'.stock e' = s.stock e' + if e' = e then 1 else 0) →
          ∃ y, Sim { b with os := os' } y s') ∨
        (x.receiver e = none ∧ (x.store e).put m = .error err ∧ Sim { b with os := os' } x s)) := by
  obtain ⟨y, hy, hrep, hgood, htasks⟩ := h.step hs
  obtain ⟨m, err, rfl, hcase⟩ := post_own (h.shape e he) hy
  refine ⟨m, x.receiver e, err, rfl, ?_⟩
  rcases hcase with ⟨rfl, p, hp, rfl⟩ | ⟨rfl, hnone, st, hput, rfl⟩ | ⟨hnone, hput, rfl⟩
  · -- the task waits for it
    have hwait := Spec.receiver_mem hp
    have hw := (Spec.mem_waiters.mp hwait).2
    obtain rfl : p = task1Priority := by
      by_contra hne
      exact h.alone p hne e he hw
    have hevent := h.status.event (Or.inl he) hw
    have hcevent : b.code.event = some e := by rw [← h.code]; exact hevent
    have hnot : ¬ Got (x.status task1Priority) := fun hgot => hgot.not_waitsFor e hw
    have hst : (x.setStatus task1Priority (.handed e m)).schedule.status task1Priority =
        .handed e m := by
      rw [Spec.schedule_status, Spec.setStatus_self]
    have hstore : (x.setStatus task1Priority (.handed e m)).schedule.store = x.store := by
      rw [Spec.schedule_store]
      rfl
    refine Or.inl ⟨rfl, Or.inl ⟨_, hp⟩, fun s' hdata hvars hpc hnow hstock => ⟨_, ⟨hrep, hgood,
      htasks.trans h.tasks, ?_, fun q hq => ?_⟩, hdata.trans h.data, hvars.trans h.vars,
      (congrArg TaskPc.code hpc).trans h.code, ?_, fun e' he' => ?_, ?_,
      by rw [hpc]; exact h.delay⟩⟩
    · rw [hstore]
      exact h.shape
    · rw [Spec.schedule_status, Spec.setStatus_of_ne _ hq]
      exact h.alone q hq
    · rw [Spec.schedule_time, hnow]
      exact h.now
    · rw [hstock e' he', h.stock e' he', level, level, hstore, hst]
      unfold inHands
      rw [hcevent]
      by_cases hee : e' = e
      · subst hee
        rw [if_neg fun hc => hnot hc.2, if_pos rfl, if_pos ⟨rfl, trivial⟩]
      · simp [hee, Ne.symm hee]
    · rw [hst, hpc]
      exact statusAt_got hevent trivial
  · -- it goes into the store
    refine Or.inl ⟨rfl, Or.inr ⟨st, hput⟩, fun s' hdata hvars hpc hnow hstock => ⟨_, ⟨hrep, hgood,
      htasks.trans h.tasks, fun e' he' => ?_, h.alone⟩, hdata.trans h.data, hvars.trans h.vars,
      (congrArg TaskPc.code hpc).trans h.code, hnow.trans h.now, fun e' he' => ?_,
      by rw [hpc]; exact h.status, by rw [hpc]; exact h.delay⟩⟩
    · by_cases hee : e' = e
      · subst hee
        simpa [Spec.setStore] using (h.shape e' he').put hput
      · simpa [Spec.setStore, hee] using h.shape e' he'
    · rw [hstock e' he', h.stock e' he', Spec.setStore_status, level, level]
      by_cases hee : e' = e
      · subst hee
        simp only [Spec.setStore, Function.update_self, Store.length_put hput, if_true]
        omega
      · simp [Spec.setStore, hee]
  · exact Or.inr ⟨hnone, hput, { h with rep := hrep }⟩

/-! ## Events of the program -/

namespace Program

/-- A button interrupt whose post the kernel refuses, because the count is at its end. -/
def Refused (b : Program) (pin : BitVec 4) : Prop :=
  (pin = Key.start.pin ∧ (b.os.k.osSemPost startSem).2 ≠ .none) ∨
    (pin = Key.resp.pin ∧ (b.os.k.osSemPost stopSem).2 ≠ .none)

instance (b : Program) (pin : BitVec 4) : Decidable (b.Refused pin) := by
  unfold Refused; infer_instance

/-- What the system of `Rtos.Task` sees of an event. -/
def seen (b : Program) : ProgramEvent → List Event
  | .other act => if act = .timeTick then [.tick] else []
  | .isr pin => if b.Refused pin then [] else [.isr pin]
  | .pins data => [.pins data]
  | .console _ => [.console]
  | .task => [.task]

end Program

variable {rand : ℕ → ℕ}

/-- The history of the abstract system is of no concern to the kernel. -/
theorem Sim.record (h : Sim b x s) (s₀ : Sys) : Sim b x (Sys.record s₀ s) := { h with }

theorem posted_err {s s' : Ucos.Sys} {e m : ℕ} {r : Option Prio} {err : Err}
    (hs : s.step (.semPost e) = some (s', .posted e m r err)) : (s.k.osSemPost e).2 = err := by
  simp only [Ucos.Sys.step] at hs
  split_ifs at hs
  cases hs
  rfl

/-- A button interrupt posts a token, or the abstract system does not see it. -/
theorem Sim.isr (h : Sim b x s) (he : Own e) (hsem : e ≠ playerQueue) {pin : BitVec 4} {s' : Sys}
    (hrefused : b.Refused pin ↔ (b.os.k.osSemPost e).2 ≠ .none) (hpost : s.buttonIsr pin = s')
    (hdata : s'.data = s.data) (hvars : s'.vars = s.vars) (hpc : s'.pc = s.pc)
    (hnow : s'.now = s.now)
    (hstock : ∀ e', Own e' → s'.stock e' = s.stock e' + if e' = e then 1 else 0)
    (hs : b.kernel (.semPost e) = some b') :
    ∃ y, Sim b' y ((b.seen (.isr pin)).foldl (Sys.step rand) s) := by
  obtain ⟨⟨os', o⟩, hstep, rfl⟩ := Option.map_eq_some_iff.mp hs
  have hact : postAct e 0 = .semPost e := if_neg hsem
  obtain ⟨m, r, err, rfl, hcase⟩ := h.post he (hact ▸ hstep)
  rw [posted_err hstep] at hrefused
  have hseen : b.seen (.isr pin) = if b.Refused pin then [] else [.isr pin] := rfl
  rw [hseen]
  rcases hcase with ⟨rfl, -, hsim⟩ | ⟨-, hput, hsim⟩
  · obtain ⟨y, hy⟩ := hsim s' hdata hvars hpc hnow hstock
    refine ⟨y, ?_⟩
    rw [if_neg fun hr => hrefused.mp hr rfl]
    show Sim _ y (Sys.record s (s.buttonIsr pin))
    rw [hpost]
    exact hy.record s
  · rw [if_pos (hrefused.mpr (Spec.Store.put_ne_none hput))]
    exact ⟨x, hsim⟩

/-- While the console task runs, the task has no name in its hands. -/
theorem Sim.console_inHands (h : Sim b x s) (hnest : b.os.k.intNesting = 0)
    (hcur : b.os.k.prioCur = task2Priority) (code : Code) (e : ℕ) :
    inHands (x.status task1Priority) code e = 0 := by
  refine if_neg fun hc => ?_
  have hready : task1Priority ∈ x.ready := by
    refine Spec.mem_ready.mpr ⟨h.mem_task, ?_⟩
    cases hst : x.status task1Priority with
    | running | elapsed | timedOut | handed => trivial
    | delayed | waiting =>
      rw [hst] at hc
      exact hc.2
  have htop : x.cur ≤ task1Priority := by
    rw [h.good.cur_top (h.rep.nest.symm.trans hnest)]
    exact Finset.inf_le (f := id) hready
  rw [← h.rep.cur, hcur] at htop
  exact absurd htop (by decide)

/-- `OSQPost` of the console drops a name when the queue is full. -/
theorem Sim.console (h : Sim b x s) {name : Ucos.Msg} (hnest : b.os.k.intNesting = 0)
    (hcur : b.os.k.prioCur = task2Priority) (hs : b.kernel (.qPost playerQueue name) = some b') :
    ∃ y, Sim b' y s.postName := by
  obtain ⟨⟨os', o⟩, hstep, rfl⟩ := Option.map_eq_some_iff.mp hs
  have hown : Own playerQueue := Or.inr (Or.inr rfl)
  have hlevel : s.queue = level x playerQueue := by
    have hstock := h.stock playerQueue hown
    rwa [h.console_inHands hnest hcur, Nat.add_zero] at hstock
  obtain ⟨msgs, hmsgs⟩ := h.shape playerQueue hown
  rw [level, hmsgs, Ucos.Store.contents] at hlevel
  have hempty : ∀ p, x.receiver playerQueue = some p → msgs = [] := by
    intro p hp
    have htake := h.good.waiting_empty _ p (Spec.receiver_mem hp)
    rw [hmsgs] at htake
    cases msgs with
    | nil => rfl
    | cons => cases htake
  obtain ⟨m, r, err, rfl, hcase⟩ := h.post hown hstep
  rcases hcase with ⟨rfl, hroom, hsim⟩ | ⟨-, hput, hsim⟩
  · have hlt : s.queue < maxMsgAmt := by
      rw [hlevel]
      rcases hroom with ⟨p, hp⟩ | ⟨st, hput⟩
      · rw [hempty p hp]
        decide
      · rw [hmsgs, Store.put] at hput
        split_ifs at hput with hlen
        exact hlen
    refine hsim s.postName rfl rfl rfl rfl fun e' he' => ?_
    rcases he' with rfl | rfl | rfl
    · rfl
    · rfl
    · show (if s.queue < maxMsgAmt then s.queue + 1 else s.queue) = s.queue + 1
      rw [if_pos hlt]
  · have hge : ¬ s.queue < maxMsgAmt := by
      rw [hmsgs, Store.put] at hput
      split_ifs at hput with hlen
      rwa [hlevel]
    have hsame : s.postName = s := by
      unfold Sys.postName
      rw [if_neg hge]
    rw [hsame]
    exact ⟨x, hsim⟩

/-! ## Whole runs -/

theorem Sim.task (h : Sim b x s) (hnest : b.os.k.intNesting = 0)
    (hcur : b.os.k.prioCur = task1Priority)
    (hin : b.code.InCall ∨ b.os.ctx task1Priority = .run) (hs : b.task rand = some b') :
    ∃ s', s.taskStep rand = some s' ∧ Ends x b' s' := by
  by_cases hcall : b.code.InCall
  · exact sim_task_call h hcall hcur hs
  · exact sim_task_plain (h.plain hcall hin) hcall h.data h.vars h.code h.delay hnest hcur hs

/-- Every step of the program is what the abstract system does on the events it sees of it. -/
theorem Sim.step (h : Sim b x s) {ev : ProgramEvent} (hs : b.step rand ev = some b') :
    ∃ y, Sim b' y ((b.seen ev).foldl (Sys.step rand) s) := by
  cases ev with
  | other act =>
    rw [Program.step] at hs
    split_ifs at hs with hother
    obtain ⟨y, hy⟩ := h.other hother hs
    refine ⟨y, ?_⟩
    have hseen : b.seen (.other act) = if act = .timeTick then [.tick] else [] := rfl
    rw [hseen]
    by_cases htick : act = .timeTick
    · rw [if_pos htick] at hy ⊢
      exact hy.record s
    · rw [if_neg htick] at hy ⊢
      exact hy
  | isr pin =>
    rw [Program.step] at hs
    split_ifs at hs with hnest hstart hresp
    · refine h.isr (Or.inl rfl) (by decide) (by simp [Program.Refused, hstart, Key.pin])
        (if_pos hstart) rfl rfl rfl rfl (fun e' he' => ?_) hs
      rcases he' with rfl | rfl | rfl
      · exact List.length_append
      · rfl
      · rfl
    · refine h.isr (Or.inr (Or.inl rfl)) (by decide) (by simp [Program.Refused, hresp, Key.pin])
        ((if_neg hstart).trans (if_pos hresp)) rfl rfl rfl rfl (fun e' he' => ?_) hs
      rcases he' with rfl | rfl | rfl
      · rfl
      · exact List.length_append
      · rfl
    · obtain rfl := Option.some.inj hs
      have hnot : ¬ b.Refused pin := by
        rintro (⟨hp, -⟩ | ⟨hp, -⟩)
        · exact hstart hp
        · exact hresp hp
      have hseen : b.seen (.isr pin) = [.isr pin] := if_neg hnot
      rw [hseen]
      refine ⟨x, ?_⟩
      show Sim b x (Sys.record s (s.buttonIsr pin))
      rw [Sys.buttonIsr, if_neg hstart, if_neg hresp]
      exact h.record s
  | pins data =>
    obtain rfl := Option.some.inj hs
    have hsim : Sim { b with data := data } x { s with data := data } := { h with data := rfl }
    exact ⟨x, hsim.record s⟩
  | console name =>
    rw [Program.step] at hs
    split_ifs at hs with hc
    obtain ⟨y, hy⟩ := h.console hc.1 hc.2 hs
    exact ⟨y, hy.record s⟩
  | task =>
    rw [Program.step] at hs
    split_ifs at hs with hc
    obtain ⟨s', hstep, y, hy, -⟩ := h.task hc.1 hc.2.1 hc.2.2 hs
    refine ⟨y, ?_⟩
    show Sim b' y (Sys.record s ((s.taskStep rand).getD s))
    rw [hstep]
    exact hy.record s

theorem sim_main :
    Sim Program.main
      (Spec.start [task1Priority, task2Priority, statPriority] objects) {} where
  rep := Ucos.represents_start objects (by decide) (by decide)
  good := Spec.good_start _ _
  tasks := by
    show insert _ (List.toFinset _) = _
    simp
  shape e he := by
    rcases he with rfl | rfl | rfl
    · rfl
    · rfl
    · exact ⟨[], rfl⟩
  alone p _ e _ := id
  data := rfl
  vars := rfl
  code := rfl
  now := rfl
  stock e he := by
    rcases he with rfl | rfl | rfl
    · rfl
    · rfl
    · rfl
  status e _ := id
  delay := trivial

/-- A name or a token that the task has got from the event and has not seen yet. -/
def Program.inHands (b : Program) (e : ℕ) : ℕ :=
  if b.code.event = some e ∧ task1Priority ∉ (b.os.k.ev e).wait then 1 else 0

theorem Sim.inHands_eq (h : Sim b x s) (e : ℕ) :
    inHands (x.status task1Priority) b.code e = b.inHands e := by
  unfold inHands Program.inHands
  by_cases hevent : b.code.event = some e
  · have hwait : task1Priority ∈ (b.os.k.ev e).wait ↔ (x.status task1Priority).WaitsFor e := by
      rw [← PrioTable.mem_toFinset, h.rep.wait, Spec.mem_waiters]
      exact and_iff_right h.mem_task
    have hgot : Got (x.status task1Priority) ↔ ¬ (x.status task1Priority).WaitsFor e := by
      refine ⟨fun hg => hg.not_waitsFor e, fun hnot => ?_⟩
      exact (h.status.got_or_waits (by rwa [h.code])).resolve_right hnot
    simp only [hevent, hgot, hwait, true_and]
  · rw [if_neg fun hc => hevent hc.1, if_neg fun hc => hevent hc.1]

/-! ## When the task runs -/

theorem Got.ready (h : Got st) : st.Ready := by
  cases st with
  | running | handed => trivial
  | delayed | elapsed | waiting | timedOut => exact h.elim

/-- In a call of its own the task is ready if and only if its next step is possible. -/
theorem Sim.ready_iff (h : Sim b x s) (hcall : b.code.InCall) :
    (x.status task1Priority).Ready ↔ (s.taskStep rand).isSome := by
  have hst := h.status
  have hcode := h.code
  unfold Sys.taskStep
  cases hpc : s.pc with
  | idle | start | pollStart | delay | cheatCheck | count | stop | pollStop =>
    rw [← hcode, hpc] at hcall
    exact hcall.elim
  | register =>
    rw [hpc] at hst hcode
    dsimp only
    rcases hst with hgot | hwait
    · have hpos : 0 < s.queue := h.stock_pos (congrArg Code.event hcode.symm) hgot
      rw [if_pos hpos]
      exact iff_of_true hgot.ready rfl
    · have hzero : s.queue = 0 := h.stock_waits (e := playerQueue) (by decide) (by rw [hwait]; rfl)
      rw [hwait, hzero]
      exact iff_of_false id (by simp)
  | ready =>
    rw [hpc] at hst hcode
    dsimp only
    rcases hst with hgot | hwait
    · have hpos : 0 < s.startSem.length := h.stock_pos (congrArg Code.event hcode.symm) hgot
      obtain ⟨k, ts, htok⟩ := List.exists_cons_of_length_pos hpos
      rw [htok]
      exact iff_of_true hgot.ready rfl
    · have hzero : s.startSem.length = 0 :=
        h.stock_waits (e := Rtos.startSem) (by decide) (by rw [hwait]; rfl)
      rw [hwait, List.length_eq_zero_iff.mp hzero]
      exact iff_of_false id (by simp)
  | waitStart deadline | delayWait _ deadline | waitStop _ deadline =>
    rw [hpc] at hst
    dsimp only
    rcases hst with ⟨left, hdelayed, hd⟩ | ⟨helapsed, hle⟩
    · have hleft := h.good.left_pos task1Priority left hdelayed
      rw [hdelayed, if_neg (by rw [h.now]; omega)]
      exact iff_of_false id (by simp)
    · rw [helapsed, if_pos (by rwa [h.now])]
      exact iff_of_true trivial rfl
  | pendStop time deadline =>
    rw [hpc] at hst hcode
    dsimp only
    rcases hst with hgot | hrest
    · have hpos : 0 < s.stopSem.length := h.stock_pos (congrArg Code.event hcode.symm) hgot
      obtain ⟨k, ts, htok⟩ := List.exists_cons_of_length_pos hpos
      rw [htok]
      refine iff_of_true hgot.ready ?_
      dsimp only
      split_ifs <;> rfl
    · have hw : (x.status task1Priority).WaitsFor Rtos.stopSem := by
        rcases hrest with ⟨hwait, -⟩ | ⟨htimed, -⟩
        · rw [hwait]
          rfl
        · rw [htimed]
          rfl
      have hzero : s.stopSem.length = 0 := h.stock_waits (by decide) hw
      rw [List.length_eq_zero_iff.mp hzero]
      dsimp only
      rcases hrest with ⟨hwait, hd⟩ | ⟨htimed, hle⟩
      · rw [hwait, if_neg (by rw [h.now]; omega)]
        exact iff_of_false id (by simp)
      · rw [htimed, if_pos (by rwa [h.now])]
        exact iff_of_true trivial rfl

/-- Outside of interrupts the task has the processor as soon as it is ready. -/
theorem Base.cur_eq (h : Base os x) (hnest : os.k.intNesting = 0)
    (hready : (x.status task1Priority).Ready) : os.k.prioCur = task1Priority := by
  have htop : x.cur ≤ task1Priority := by
    rw [h.good.cur_top (h.rep.nest.symm.trans hnest)]
    exact Finset.inf_le (f := id) (Spec.mem_ready.mpr ⟨h.mem_task, hready⟩)
  have hmem := (Spec.mem_ready.mp h.good.cur_ready).1
  rw [h.tasks] at hmem
  rw [h.rep.cur]
  revert htop hmem
  generalize x.cur = p
  revert p
  decide

theorem Plain.inCode (h : Plain os x s) (hnest : os.k.intNesting = 0)
    (hcur : os.k.prioCur = task1Priority) : os.InCode := by
  refine ⟨hnest, ?_, ?_⟩
  · rw [hcur]
    exact (h.rep.ctx_run_iff h.mem_task).mpr h.running
  · rw [hcur]
    decide

/-! From its own code a task can make any of the calls of the program. -/

theorem pend_isSome (hin : b.os.InCode) (e n : ℕ) (code : Code) (vars : Vars) :
    (b.call (.semPend e n) code vars).isSome ∧ (b.call (.qPend e n) code vars).isSome := by
  unfold Program.call Ucos.Sys.step
  simp only [if_pos hin, Option.isSome_map]
  constructor
  · split <;> rfl
  · split <;> rfl

theorem dly_isSome (hin : b.os.InCode) (n : ℕ) (code : Code) (vars : Vars) :
    (b.call (.timeDly n) code vars).isSome := by
  unfold Program.call Ucos.Sys.step
  simp only [if_pos hin, Option.isSome_map]
  split_ifs <;> rfl

theorem semSet_isSome (hin : b.os.InCode) (e n : ℕ) : (b.kernel (.semSet e n)).isSome := by
  unfold Program.kernel Ucos.Sys.step
  simp only [if_pos hin, Option.isSome_map]
  rfl

theorem returned_isSome (hnest : b.os.k.intNesting = 0)
    (hcur : b.os.k.prioCur = task1Priority) : b.returned.isSome := by
  unfold Program.returned
  split_ifs with hctx
  · rfl
  · rw [Option.isSome_map, Ucos.Sys.step, if_pos hnest]
    unfold Ucos.Sys.resume
    rw [hcur]
    dsimp only
    cases hc : b.os.ctx task1Priority with
    | run => exact absurd hc hctx
    | dly => rfl
    | pend e =>
      dsimp only
      split <;> rfl

theorem Base.nest_eq (h : Base os x) (h' : Base os' y) (hkeeps : Keeps x y)
    (hnest : os.k.intNesting = 0) : os'.k.intNesting = 0 := by
  rw [h'.rep.nest, hkeeps.nest, ← h.rep.nest, hnest]

/-- When the task has the processor, nothing of the kernel keeps it from its next piece. -/
theorem Sim.task_isSome (h : Sim b x s) (hnest : b.os.k.intNesting = 0)
    (hcur : b.os.k.prioCur = task1Priority)
    (hin : b.code.InCall ∨ b.os.ctx task1Priority = .run) : (b.task rand).isSome := by
  unfold Program.task
  by_cases hcall : b.code.InCall
  · obtain ⟨⟨b₁, err⟩, hret⟩ := Option.isSome_iff_exists.mp (returned_isSome hnest hcur)
    obtain ⟨y, hy, -, hcur₁, hkeeps, -, hrun, -⟩ := h.returned hcur hret
    have hincode : b₁.os.InCode := by
      refine ⟨h.nest_eq hy hkeeps hnest, ?_, ?_⟩
      · rw [hcur₁]
        exact (hy.rep.ctx_run_iff hy.mem_task).mpr hrun
      · rw [hcur₁]
        decide
    rw [hret]
    cases hcode : b.code with
    | idle | start | pollStart | delay | cheatCheck | count | stop | pollStop =>
      rw [hcode] at hcall
      exact hcall.elim
    | register => exact (pend_isSome hincode _ _ _ _).1
    | ready | waitStart | delayWait | waitStop => rfl
    | pendStop time =>
      show (if err ≠ .timeout then _ else _ : Option Program).isSome
      split_ifs <;> rfl
  · have hplain := h.plain hcall hin
    have hincode := hplain.inCode hnest hcur
    cases hcode : b.code with
    | register | ready | waitStart | delayWait | pendStop | waitStop =>
      rw [hcode] at hcall
      exact absurd trivial hcall
    | idle =>
      dsimp only
      split_ifs
      · exact (pend_isSome hincode _ _ _ _).2
      · exact (pend_isSome hincode _ _ _ _).1
    | start | stop => rfl
    | pollStart | pollStop =>
      dsimp only
      split_ifs
      · rw [callHMSM_eq hnest (by decide) (by decide)]
        exact dly_isSome hincode _ _ _
      · rfl
    | delay => exact dly_isSome hincode _ _ _
    | count =>
      dsimp only
      split_ifs
      · exact (pend_isSome hincode _ _ _ _).1
      · rfl
    | cheatCheck d =>
      dsimp only
      split_ifs
      · obtain ⟨b₁, hclear⟩ := Option.isSome_iff_exists.mp (semSet_isSome hincode stopSem 0)
        rw [hclear, Option.bind_some]
        obtain ⟨⟨os', o⟩, hstep, rfl⟩ := Option.map_eq_some_iff.mp hclear
        obtain ⟨z, hz, hcur₁, hkeeps⟩ := hplain.clear hstep
        exact dly_isSome (hz.inCode (h.nest_eq hz.toBase hkeeps hnest) (hcur₁.trans hcur)) _ _ _
      · rfl

/-- Outside of interrupts, the task can go on exactly when the abstract task can, unless it waits
inside of `printf`. -/
theorem Sim.step_task_iff (h : Sim b x s) (hnest : b.os.k.intNesting = 0) :
    (b.step rand .task).isSome ↔
      (b.code.InCall ∨ b.os.ctx task1Priority = .run) ∧ (s.taskStep rand).isSome := by
  rw [Program.step]
  constructor
  · intro hsome
    obtain ⟨b', hb⟩ := Option.isSome_iff_exists.mp hsome
    split_ifs at hb with hc
    obtain ⟨s', hs', -⟩ := h.task hc.1 hc.2.1 hc.2.2 hb
    refine ⟨hc.2.2, ?_⟩
    rw [hs']
    rfl
  · rintro ⟨hin, hsome⟩
    have hready : (x.status task1Priority).Ready := by
      by_cases hcall : b.code.InCall
      · exact (h.ready_iff hcall).mpr hsome
      · rw [(h.plain hcall hin).running]
        trivial
    have hcur := h.cur_eq hnest hready
    rw [if_pos ⟨hnest, hcur, hin⟩]
    exact h.task_isSome hnest hcur hin

/-! ## Whole runs -/

/-- The program and the abstract system agree: the task stands at the same place, and has the same
variables, and what the kernel holds for it is what it holds there. -/
structure Program.Follows (b : Program) (s : Sys) : Prop where
  code : s.pc.code = b.code
  vars : s.vars = b.vars
  data : s.data = b.data
  time : BitVec.ofNat 32 s.now = b.os.k.osTimeGet
  stock : ∀ e, Own e → s.stock e = (b.os.k.ev e).obj.contents.length + b.inHands e

theorem Sim.follows (h : Sim b x s) : b.Follows s where
  code := h.code
  vars := h.vars
  data := h.data
  time := by
    rw [h.now]
    exact h.rep.time.symm
  stock e he := by rw [h.stock e he, h.inHands_eq, level, Ucos.Obj.contents_eq, h.rep.store]

/-- What `Rtos.Task` sees of a run of the program. -/
def Program.trace (rand : ℕ → ℕ) (evs : List ProgramEvent) : List Event :=
  Machine.trace (Program.step rand) Program.seen Program.main evs

section Runs

variable {evs : List ProgramEvent}

theorem exists_sim (hexec : Machine.exec (Program.step rand) Program.main evs = some b) :
    ∃ x, Sim b x (Sys.after rand (Program.trace rand evs)) :=
  Machine.exec_simulates (R := fun b s => ∃ x, Sim b x s)
    (fun _ _ _ _ ⟨_, h⟩ hs => h.step hs) ⟨_, sim_main⟩ hexec

/-- The program on the kernel does what `Rtos.Task` does, at every moment of every run, with
whatever other tasks and interrupts do. -/
theorem onKernel_refines (hexec : Machine.exec (Program.step rand) Program.main evs = some b) :
    b.Follows (Sys.after rand (Program.trace rand evs)) := by
  obtain ⟨x, h⟩ := exists_sim hexec
  exact h.follows

theorem onKernel_refines_press :
    ∃ b, Machine.exec (Program.step id) Program.main
        [.task, .console 7, .task, .other .intEnter, .isr 1#4, .other .timeTick, .other .intExit,
          .task] = some b ∧
      b.Follows (Sys.after id (Program.trace id
        [.task, .console 7, .task, .other .intEnter, .isr 1#4, .other .timeTick, .other .intExit,
          .task])) := by
  have hsome : (Machine.exec (Program.step id) Program.main
      [.task, .console 7, .task, .other .intEnter, .isr 1#4, .other .timeTick, .other .intExit,
        .task]).isSome = true := by decide +kernel
  obtain ⟨b, hexec⟩ := Option.isSome_iff_exists.mp hsome
  exact ⟨b, hexec, onKernel_refines hexec⟩

/-- Outside of interrupts the kernel lets the task go on exactly when `Rtos.Task` says it can, at
every moment of every run; the one exception is that `printf` may keep it waiting. -/
theorem onKernel_ready (hexec : Machine.exec (Program.step rand) Program.main evs = some b)
    (hnest : b.os.k.intNesting = 0) :
    (b.step rand .task).isSome ↔
      (b.code.InCall ∨ b.os.ctx task1Priority = .run) ∧
        ((Sys.after rand (Program.trace rand evs)).taskStep rand).isSome := by
  obtain ⟨x, h⟩ := exists_sim hexec
  exact h.step_task_iff hnest

theorem onKernel_ready_register :
    ∃ b, Machine.exec (Program.step id) Program.main [.task, .console 7] = some b ∧
      ((b.step id .task).isSome ↔
        (b.code.InCall ∨ b.os.ctx task1Priority = .run) ∧
          ((Sys.after id (Program.trace id [.task, .console 7])).taskStep id).isSome) := by
  have hnest : (Machine.exec (Program.step id) Program.main [.task, .console 7]).map
      (fun b => b.os.k.intNesting) = some 0 := by decide +kernel
  obtain ⟨b, hexec, hb⟩ := Option.map_eq_some_iff.mp hnest
  exact ⟨b, hexec, onKernel_ready hexec hb⟩

end Runs

end Rtos

end ReactionMeter
