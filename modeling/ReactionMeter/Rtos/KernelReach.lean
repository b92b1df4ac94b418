import ReactionMeter.Rtos.KernelRuns

/-!
# What the task can do happens on the kernel

The converse of `Rtos.KernelRuns`. A run of `Rtos.Task` in which the console posts only while the
task waits, and the task takes its chance only when it can, is what the abstract system sees of a
run of the program (`onKernel_reaches`): with no other tasks, and each tick and each button in an
interrupt of its own.
-/

namespace ReactionMeter

namespace Rtos

open Ucos (Act Out Err Ctx Prio Status Store Kind Spec Represents)

variable {os os' : Ucos.Sys} {x y : Spec} {s : Sys} {b b' : Program} {act : Act} {o : Out}
  {rand : ℕ → ℕ} {e : Event} {ev : ProgramEvent}

/-- What makes the event happen. -/
def Event.onKernel : Event → List ProgramEvent
  | .tick => [.other .intEnter, .other .timeTick, .other .intExit]
  | .isr pin => [.other .intEnter, .isr pin, .other .intExit]
  | .pins data => [.pins data]
  | .console => [.console 1]
  | .task => [.task]

/-- The event happens in the order in which the kernel lets it: the task runs when it can, and the
console when the task cannot. The counts of the semaphores are not at their ends. -/
def Sys.Prompt (rand : ℕ → ℕ) (s : Sys) : Event → Prop
  | .tick | .pins _ => True
  | .isr _ => s.startSem.length < 65535 ∧ s.stopSem.length < 65535
  | .console => s.taskStep rand = none
  | .task => s.taskStep rand ≠ none

instance (rand : ℕ → ℕ) (s : Sys) : DecidablePred (s.Prompt rand)
  | .tick | .pins _ => isTrue trivial
  | .isr _ => inferInstanceAs (Decidable (s.startSem.length < 65535 ∧ s.stopSem.length < 65535))
  | .console => inferInstanceAs (Decidable (s.taskStep rand = none))
  | .task => inferInstanceAs (Decidable (s.taskStep rand ≠ none))

/-- Between two events there is no interrupt, and no task waits for anything but the events of the
program. -/
structure Calm (b : Program) : Prop where
  nest : b.os.k.intNesting = 0
  console : b.os.ctx task2Priority = .run
  task : ¬ b.code.InCall → b.os.ctx task1Priority = .run

/-! ## Interrupts and posts -/

/-- The interrupt level after a step. -/
def levelAfter (n : ℕ) : Act → ℕ
  | .intEnter => if n < 255 then n + 1 else n
  | .intExit => n - 1
  | _ => n

theorem schedule_nest (x : Spec) : x.schedule.nest = x.nest := by
  unfold Spec.schedule
  split_ifs <;> rfl

theorem post_nest (kind : Kind) (e : ℕ) (msg : Ucos.Msg) : (x.post kind e msg).1.nest = x.nest := by
  unfold Spec.post
  split_ifs
  · rfl
  · cases x.receiver e with
    | some p => exact schedule_nest _
    | none =>
      dsimp only
      cases (x.store e).put msg <;> rfl

theorem pend_nest (kind : Kind) (e n : ℕ) : (x.pendStep kind e n).1.nest = x.nest := by
  rw [Spec.pendStep_fst]
  unfold Spec.pend
  split_ifs
  · rfl
  · cases (x.store e).take with
    | some r => rfl
    | none => exact schedule_nest _

theorem spec_nest (hs : x.step act = some (y, o)) : y.nest = levelAfter x.nest act := by
  cases act with
  | intEnter =>
    cases hs
    show (if x.nest < 255 then { x with nest := x.nest + 1 } else x : Spec).nest = _
    split_ifs with h
    · exact (if_pos h).symm
    · exact (if_neg h).symm
  | intExit =>
    simp only [Spec.step] at hs
    split_ifs at hs
    cases hs
    exact schedule_nest _
  | timeTick =>
    simp only [Spec.step] at hs
    split_ifs at hs
    cases hs
    rfl
  | semPost | qPost =>
    simp only [Spec.step] at hs
    split_ifs at hs
    cases hs
    exact post_nest _ _ _
  | semPend e n | qPend e n =>
    simp only [Spec.step] at hs
    split_ifs at hs
    obtain rfl : (x.pendStep _ e n).1 = y := congrArg Prod.fst (Option.some.inj hs)
    exact pend_nest _ _ _
  | semSet e cnt =>
    simp only [Spec.step] at hs
    split_ifs at hs
    cases hs
    unfold Spec.semSet
    cases x.store e with
    | queue => rfl
    | sem old =>
      dsimp only
      split_ifs <;> rfl
  | timeDly n =>
    simp only [Spec.step] at hs
    split_ifs at hs
    · cases hs
      exact schedule_nest _
    · cases hs
      rfl
  | resume =>
    simp only [Spec.step] at hs
    split_ifs at hs
    unfold Spec.resume at hs
    split at hs <;> cases hs <;> rfl

theorem Base.nest_step (h : Base os x) (hs : os.step act = some (os', o)) :
    os'.k.intNesting = levelAfter os.k.intNesting act := by
  obtain ⟨y, hy, hrep, -⟩ := h.step hs
  rw [hrep.nest, spec_nest hy, h.rep.nest]

/-- Interrupts and posts do not move the tasks in their code. -/
theorem ctx_step (hact : ¬ Call act ∨ ∃ e msg, act = .semPost e ∨ act = .qPost e msg)
    (hs : os.step act = some (os', o)) : os'.ctx = os.ctx := by
  cases act with
  | intEnter =>
    cases hs
    rfl
  | intExit | timeTick | semPost | qPost =>
    simp only [Ucos.Sys.step] at hs
    split_ifs at hs
    cases hs
    rfl
  | _ => simp [Call] at hact

/-- In an interrupt. -/
structure InInterrupt (b₀ b : Program) : Prop where
  nest : b.os.k.intNesting = 1
  ctx : b.os.ctx = b₀.os.ctx
  code : b.code = b₀.code

theorem InInterrupt.kernel {b₀ : Program} (h : InInterrupt b₀ b) (hsim : Sim b x s)
    (hact : ¬ Call act ∨ ∃ e msg, act = .semPost e ∨ act = .qPost e msg)
    (hs : b.kernel act = some b') :
    b'.os.k.intNesting = levelAfter 1 act ∧ b'.os.ctx = b₀.os.ctx ∧ b'.code = b₀.code := by
  obtain ⟨⟨os', o⟩, hstep, rfl⟩ := Option.map_eq_some_iff.mp hs
  refine ⟨?_, (ctx_step hact hstep).trans h.ctx, h.code⟩
  rw [hsim.nest_step hstep, h.nest]

/-- An event in an interrupt of its own. -/
theorem Calm.interrupt (h : Calm b) (hsim : Sim b x s)
    (hev : ∀ b₁ x₁, InInterrupt b b₁ → Sim b₁ x₁ s →
      ∃ b₂, b₁.step rand ev = some b₂ ∧ InInterrupt b b₂ ∧ b₁.seen ev = [e]) :
    ∃ b', Machine.exec (Program.step rand) b [.other .intEnter, ev, .other .intExit] = some b' ∧
      Calm b' ∧ Machine.trace (Program.step rand) Program.seen b
        [.other .intEnter, ev, .other .intExit] = [e] := by
  obtain ⟨b₁, hb₁⟩ : ∃ b₁, b.step rand (.other .intEnter) = some b₁ := ⟨_, rfl⟩
  obtain ⟨x₁, hsim₁⟩ := hsim.step hb₁
  have hin₁ : InInterrupt b b₁ := by
    have hk : b.kernel .intEnter = some b₁ := hb₁
    obtain ⟨⟨os', o⟩, hstep, rfl⟩ := Option.map_eq_some_iff.mp hk
    refine ⟨?_, ctx_step (Or.inl id) hstep, rfl⟩
    rw [hsim.nest_step hstep, h.nest]
    rfl
  obtain ⟨b₂, hb₂, hin₂, hseen⟩ := hev b₁ x₁ hin₁ hsim₁
  obtain ⟨x₂, hsim₂⟩ := hsim₁.step hb₂
  have hpos : 0 < b₂.os.k.intNesting := by
    rw [hin₂.nest]
    exact Nat.one_pos
  obtain ⟨b₃, hb₃⟩ : ∃ b₃, b₂.step rand (.other .intExit) = some b₃ := by
    refine ⟨{ b₂ with os := b₂.os.setK b₂.os.k.osIntExit }, ?_⟩
    show b₂.kernel .intExit = _
    rw [Program.kernel, Ucos.Sys.step, if_pos hpos]
    rfl
  obtain ⟨hnest, hctx, hcode⟩ := hin₂.kernel hsim₂ (Or.inl id) hb₃
  refine ⟨b₃, ?_, ⟨hnest, by rw [hctx]; exact h.console, fun hcall => ?_⟩, ?_⟩
  · rw [Machine.exec_cons hb₁, Machine.exec_cons hb₂, Machine.exec_cons hb₃]
    rfl
  · rw [hctx]
    exact h.task (by rwa [← hcode])
  · have hnil : b.seen (.other .intEnter) = [] ∧ b₂.seen (.other .intExit) = [] := ⟨rfl, rfl⟩
    simp only [Machine.trace, hb₁, hb₂, hb₃, Option.elim_some, hnil, hseen]
    rfl

theorem Calm.tick (h : Calm b) (hsim : Sim b x s) :
    ∃ b', Machine.exec (Program.step rand) b Event.tick.onKernel = some b' ∧ Calm b' ∧
      Machine.trace (Program.step rand) Program.seen b Event.tick.onKernel = [.tick] := by
  refine h.interrupt hsim fun b₁ x₁ hin hsim₁ => ?_
  have hpos : 0 < b₁.os.k.intNesting := by
    rw [hin.nest]
    exact Nat.one_pos
  have hb₂ : b₁.kernel .timeTick = some { b₁ with os := b₁.os.setK b₁.os.k.osTimeTick } := by
    rw [Program.kernel, Ucos.Sys.step, if_pos hpos]
    rfl
  obtain ⟨hnest, hctx, hcode⟩ := hin.kernel hsim₁ (Or.inl id) hb₂
  exact ⟨_, hb₂, ⟨hnest, hctx, hcode⟩, rfl⟩

/-- A post to a semaphore whose count is not at its end is not refused. -/
theorem Sim.not_refused (h : Sim b x s) {e : ℕ} (he : Own e) (hsem : e ≠ playerQueue)
    (hlt : s.stock e < 65535) (hs : b.os.step (.semPost e) = some (os', o)) :
    (b.os.k.osSemPost e).2 = .none := by
  have hact : postAct e 0 = .semPost e := if_neg hsem
  obtain ⟨m, r, err, rfl, hcase⟩ := h.post he (hact ▸ hs)
  rw [posted_err hs]
  rcases hcase with ⟨rfl, -⟩ | ⟨-, hput, -⟩
  · rfl
  · have hlevel := h.stock e he
    have hshape := h.shape e he
    unfold Shape at hshape
    rw [if_neg hsem] at hshape
    cases hst : x.store e with
    | queue =>
      rw [hst] at hshape
      cases hshape
    | sem n =>
      rw [level, hst, Ucos.Store.contents, List.length_replicate] at hlevel
      rw [hst, Store.put, if_pos (by omega)] at hput
      cases hput

theorem Calm.isr (h : Calm b) (hsim : Sim b x s) (pin : BitVec 4)
    (hp : s.Prompt rand (.isr pin)) :
    ∃ b', Machine.exec (Program.step rand) b (Event.isr pin).onKernel = some b' ∧ Calm b' ∧
      Machine.trace (Program.step rand) Program.seen b (Event.isr pin).onKernel = [.isr pin] := by
  refine h.interrupt hsim fun b₁ x₁ hin hsim₁ => ?_
  have hpos : 0 < b₁.os.k.intNesting := by
    rw [hin.nest]
    exact Nat.one_pos
  have hpost : ∀ e, ∃ os' o, b₁.os.step (.semPost e) = some (os', o) := by
    exact fun e => ⟨_, _, if_pos (Or.inl hpos)⟩
  have hnot : ¬ b₁.Refused pin := by
    obtain ⟨os₁, o₁, h₁⟩ := hpost Rtos.startSem
    obtain ⟨os₂, o₂, h₂⟩ := hpost Rtos.stopSem
    rintro (⟨-, hr⟩ | ⟨-, hr⟩)
    · exact hr (hsim₁.not_refused (Or.inl rfl) (by decide) hp.1 h₁)
    · exact hr (hsim₁.not_refused (Or.inr (Or.inl rfl)) (by decide) hp.2 h₂)
  have hseen : b₁.seen (.isr pin) = [.isr pin] := if_neg hnot
  have hkernel : ∀ e, ∃ b₂, b₁.kernel (.semPost e) = some b₂ ∧ InInterrupt b b₂ := by
    intro e
    obtain ⟨os', o, hs⟩ := hpost e
    have hk : b₁.kernel (.semPost e) = some { b₁ with os := os' } := by
      rw [Program.kernel, hs]
      rfl
    obtain ⟨hnest, hctx, hcode⟩ := hin.kernel hsim₁ (Or.inr ⟨e, 0, Or.inl rfl⟩) hk
    exact ⟨_, hk, hnest, hctx, hcode⟩
  rw [Program.step, if_pos hpos]
  split_ifs
  · obtain ⟨b₂, hb₂, hin₂⟩ := hkernel Rtos.startSem
    exact ⟨b₂, hb₂, hin₂, hseen⟩
  · obtain ⟨b₂, hb₂, hin₂⟩ := hkernel Rtos.stopSem
    exact ⟨b₂, hb₂, hin₂, hseen⟩
  · exact ⟨b₁, rfl, hin, hseen⟩

/-! ## The tasks -/

theorem exec_singleton (hs : b.step rand ev = some b') :
    Machine.exec (Program.step rand) b [ev] = some b' ∧
      Machine.trace (Program.step rand) Program.seen b [ev] = b.seen ev := by
  refine ⟨by rw [Machine.exec_cons hs]; rfl, ?_⟩
  rw [Machine.trace, hs]
  exact List.append_nil _

theorem Base.mem_console (h : Base os x) : task2Priority ∈ x.tasks := by
  rw [h.tasks]
  decide

/-- In its own code the task can always go on. -/
theorem taskStep_ne_none (h : ¬ s.pc.code.InCall) : s.taskStep rand ≠ none := by
  unfold Sys.taskStep
  cases hpc : s.pc with
  | register | ready | waitStart | delayWait | pendStop | waitStop =>
    rw [hpc] at h
    exact absurd trivial h
  | start | delay | stop => simp
  | idle | pollStart | cheatCheck | count | pollStop =>
    dsimp only
    split_ifs <;> simp

/-- While the task waits, the console has the processor. -/
theorem Calm.console_cur (h : Calm b) (hsim : Sim b x s) (hp : s.Prompt rand .console) :
    b.os.k.prioCur = task2Priority := by
  have hnone : s.taskStep rand = none := hp
  have hcall : b.code.InCall := by
    rw [← hsim.code]
    by_contra hcall
    exact taskStep_ne_none hcall hnone
  have hnot : ¬ (x.status task1Priority).Ready := by
    intro hready
    have hsome : (s.taskStep rand).isSome := (hsim.ready_iff hcall).mp hready
    rw [hnone] at hsome
    cases hsome
  have hready : (x.status task2Priority).Ready := by
    rw [(hsim.rep.ctx_run_iff hsim.mem_console).mp h.console]
    trivial
  have htop : x.cur ≤ task2Priority := by
    rw [hsim.good.cur_top (hsim.rep.nest.symm.trans h.nest)]
    exact Finset.inf_le (f := id) (Spec.mem_ready.mpr ⟨hsim.mem_console, hready⟩)
  have hcur := Spec.mem_ready.mp hsim.good.cur_ready
  have hne : x.cur ≠ task1Priority := by
    intro heq
    rw [heq] at hcur
    exact hnot hcur.2
  have hmem := hcur.1
  rw [hsim.tasks] at hmem
  rw [hsim.rep.cur]
  revert htop hmem hne
  generalize x.cur = p
  revert p
  decide

theorem Calm.console_step (h : Calm b) (hsim : Sim b x s) (hp : s.Prompt rand .console) :
    ∃ b', b.step rand (.console 1) = some b' ∧ Calm b' := by
  have hcur := h.console_cur hsim hp
  have hin : b.os.InCode := by
    refine ⟨h.nest, ?_, ?_⟩
    · rw [hcur]
      exact h.console
    · rw [hcur]
      decide
  obtain ⟨os', o, hs⟩ : ∃ os' o, b.os.step (.qPost playerQueue 1) = some (os', o) :=
    ⟨_, _, if_pos (Or.inr hin)⟩
  have hctx := ctx_step (Or.inr ⟨playerQueue, 1, Or.inr rfl⟩) hs
  refine ⟨{ b with os := os' }, ?_, ?_, ?_, fun hcall => ?_⟩
  · rw [Program.step, if_pos ⟨h.nest, hcur⟩, Program.kernel, hs]
    rfl
  · rw [hsim.nest_step hs, h.nest]
    rfl
  · rw [hctx]
    exact h.console
  · rw [hctx]
    exact h.task hcall

theorem Calm.task_step (h : Calm b) (hsim : Sim b x s) (hp : s.Prompt rand .task) :
    ∃ b', b.step rand .task = some b' ∧ Calm b' := by
  have hin : b.code.InCall ∨ b.os.ctx task1Priority = .run := by
    by_cases hcall : b.code.InCall
    · exact Or.inl hcall
    · exact Or.inr (h.task hcall)
  have hsome : (b.step rand .task).isSome :=
    (hsim.step_task_iff h.nest).mpr ⟨hin, Option.isSome_iff_ne_none.mpr hp⟩
  obtain ⟨b', hb⟩ := Option.isSome_iff_exists.mp hsome
  refine ⟨b', hb, ?_⟩
  rw [Program.step] at hb
  split_ifs at hb with hc
  obtain ⟨s', -, y, hy, hkeeps, hrun⟩ := hsim.task hc.1 hc.2.1 hc.2.2 hb
  refine ⟨hsim.nest_eq hy.toBase hkeeps h.nest, ?_, fun hcall => ?_⟩
  · refine (hy.rep.ctx_run_iff hy.mem_console).mpr ?_
    rw [hkeeps.others _ (by decide)]
    exact (hsim.rep.ctx_run_iff hsim.mem_console).mp h.console
  · exact (hy.rep.ctx_run_iff hy.mem_task).mpr (hrun hcall)

/-- An event that happens promptly happens on the kernel. -/
theorem Calm.event (h : Calm b) (hsim : Sim b x s) (hp : s.Prompt rand e) :
    ∃ b', Machine.exec (Program.step rand) b e.onKernel = some b' ∧ Calm b' ∧
      Machine.trace (Program.step rand) Program.seen b e.onKernel = [e] := by
  cases e with
  | tick => exact h.tick hsim
  | isr pin => exact h.isr hsim pin hp
  | pins data =>
    have hs : b.step rand (.pins data) = some { b with data := data } := rfl
    obtain ⟨hexec, htrace⟩ := exec_singleton hs
    exact ⟨_, hexec, ⟨h.nest, h.console, h.task⟩, htrace⟩
  | console =>
    obtain ⟨b', hb, hcalm⟩ := h.console_step hsim hp
    obtain ⟨hexec, htrace⟩ := exec_singleton hb
    exact ⟨b', hexec, hcalm, htrace⟩
  | task =>
    obtain ⟨b', hb, hcalm⟩ := h.task_step hsim hp
    obtain ⟨hexec, htrace⟩ := exec_singleton hb
    exact ⟨b', hexec, hcalm, htrace⟩

/-! ## Whole runs -/

theorem Calm.run {es : List Event} (h : Calm b) (hsim : Sim b x s)
    (hp : Machine.Along (Machine.total (Sys.step rand)) (Sys.Prompt rand) s es) :
    ∃ b', Machine.exec (Program.step rand) b (es.flatMap Event.onKernel) = some b' ∧
      Machine.trace (Program.step rand) Program.seen b (es.flatMap Event.onKernel) = es := by
  induction es generalizing b x s with
  | nil => exact ⟨b, rfl, rfl⟩
  | cons e es ih =>
    rw [Machine.along_total_cons] at hp
    obtain ⟨b₁, hexec, hcalm, htrace⟩ := h.event hsim hp.1
    obtain ⟨x₁, hsim₁⟩ := Machine.exec_simulates (R := fun b s => ∃ x, Sim b x s)
      (fun _ _ _ _ ⟨_, h⟩ hs => h.step hs) ⟨x, hsim⟩ hexec
    rw [htrace] at hsim₁
    obtain ⟨b', hrest, htrace'⟩ := ih hcalm hsim₁ hp.2
    refine ⟨b', ?_, ?_⟩
    · rw [List.flatMap_cons, Machine.exec_append hexec, hrest]
    · rw [List.flatMap_cons, Machine.trace_append hexec, htrace, htrace']
      rfl

theorem calm_main : Calm Program.main := ⟨rfl, rfl, fun _ => rfl⟩

/-- Every prompt run of `Rtos.Task` is what it sees of a run of the program on the kernel. -/
theorem onKernel_reaches {es : List Event}
    (hp : Machine.Along (Machine.total (Sys.step rand)) (Sys.Prompt rand) {} es) :
    ∃ evs b, Machine.exec (Program.step rand) Program.main evs = some b ∧
      Program.trace rand evs = es ∧ b.Follows (Sys.after rand es) := by
  obtain ⟨b, hexec, htrace⟩ := calm_main.run sim_main hp
  have htrace' : Program.trace rand (es.flatMap Event.onKernel) = es := htrace
  refine ⟨_, b, hexec, htrace', ?_⟩
  obtain ⟨x, hsim⟩ := exists_sim hexec
  rw [htrace'] at hsim
  exact hsim.follows

theorem onKernel_reaches_press :
    ∃ evs b, Machine.exec (Program.step id) Program.main evs = some b ∧
      Program.trace id evs = [.task, .console, .task, .isr 1#4, .tick, .task, .task] ∧
      b.Follows (Sys.after id [.task, .console, .task, .isr 1#4, .tick, .task, .task]) :=
  onKernel_reaches (by decide +kernel)

end Rtos

end ReactionMeter
