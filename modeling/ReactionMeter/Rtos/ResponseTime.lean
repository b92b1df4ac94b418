import ReactionMeter.Rtos.KernelReach

/-!
# The response time is right

The task never reads the clock in COUNT: it counts the pends on `stop_sem` that time out, each of
them a tick long. This count is never more than the ticks since COUNT was entered, and at most one
less if the task was waiting again before each of them. It holds on the kernel as it does for
`Rtos.Task`.
-/

namespace ReactionMeter

namespace Rtos

/-- The event does not find the task late: if it is a tick, the task waits. -/
def Sys.InTime (rand : ℕ → ℕ) (s : Sys) (e : Event) : Prop := e = .tick → s.taskStep rand = none

instance (rand : ℕ → ℕ) (s : Sys) : DecidablePred (s.InTime rand) := fun e => by
  unfold Sys.InTime; infer_instance

/-- The passes of the loop against the ticks since COUNT was entered, where `caught` says that the
task was never late. -/
def Counted (caught : Prop) (n : ℕ) (s : Sys) : Prop :=
  match s.pc with
  | .count time => time ≤ n ∧ (caught → time = n)
  | .pendStop time deadline =>
    time ≤ n ∧ deadline ≤ s.now + 1 ∧ (deadline ≤ s.now → time + 1 ≤ n) ∧
      (caught → n ≤ time + 1 ∧ (s.now < deadline → n = time))
  | _ => True

variable {caught : Prop} {n : ℕ} {s s' : Sys} {rand : ℕ → ℕ} {e : Event} {es es' : List Event}

theorem Counted.of_eq (h : Counted caught n s) (hpc : s'.pc = s.pc) (hnow : s'.now = s.now) :
    Counted caught n s' := by
  unfold Counted at h ⊢
  rw [hpc, hnow]
  exact h

theorem Counted.tick (h : Counted caught n s) (hwaits : caught → s.taskStep rand = none) :
    Counted caught (n + 1) { s with now := s.now + 1 } := by
  unfold Counted at h ⊢
  cases hpc : s.pc with
  | count time =>
    rw [hpc] at h
    refine ⟨by omega, fun hc => ?_⟩
    have hcall : ¬ s.pc.code.InCall := by
      rw [hpc]
      exact id
    exact absurd (hwaits hc) (taskStep_ne_none hcall)
  | pendStop time deadline =>
    rw [hpc] at h
    obtain ⟨hle, hd, hover, hc⟩ := h
    refine ⟨by omega, by dsimp only; omega, fun _ => by omega, fun hcaught => ?_⟩
    have hlt : s.now < deadline := by
      by_contra hnot
      have hnone := hwaits hcaught
      unfold Sys.taskStep at hnone
      rw [hpc] at hnone
      dsimp only at hnone
      split at hnone
      · split_ifs at hnone
      · rw [if_pos (not_lt.mp hnot)] at hnone
        cases hnone
    have heq := (hc hcaught).2 hlt
    refine ⟨by omega, fun hlt' => ?_⟩
    dsimp only at hlt'
    omega
  | _ => trivial

theorem Counted.task (h : Counted caught n s) (hcount : s.pc.state = .count)
    (hs : s.taskStep rand = some s') : Counted caught n s' := by
  unfold Counted at h
  cases Sys.taskStep_cases hs with
  | pass hpc hlt =>
    rw [hpc] at h
    refine ⟨h.1, le_rfl, fun hover => ?_, fun hc => ?_⟩
    · dsimp only at hover
      omega
    · have heq := h.2 hc
      exact ⟨by omega, fun _ => heq.symm⟩
  | timeout hpc hstop hnow =>
    rw [hpc] at h
    have hlt := h.2.2.1 hnow
    refine ⟨hlt, fun hc => ?_⟩
    have hle := (h.2.2.2 hc).1
    omega
  | accept | expire | tooFast => trivial
  | home hpc | homeReady hpc | register hpc | takeStart hpc | start hpc | held hpc | letGo hpc
  | again hpc | delay hpc | delayed hpc | cheat hpc | count hpc | stop hpc | hold hpc
  | restart hpc | wait hpc =>
    rw [hpc] at hcount
    cases hcount

/-- Only a pend that has got a token leads to STOP, with the number of its pass. -/
theorem Counted.stop (h : Counted caught n s) (hs : s.taskStep rand = some s')
    (hstop : s'.pc = .stop) :
    s'.vars.responseTime ≤ n ∧ (caught → n ≤ s'.vars.responseTime + 1) := by
  unfold Counted at h
  cases Sys.taskStep_cases hs with
  | accept hpc =>
    rw [hpc] at h
    exact ⟨h.1, fun hc => (h.2.2.2 hc).1⟩
  | _ => cases hstop

theorem Counted.step (h : Counted caught n s) (hcount : s.pc.state = .count)
    (htime : caught → s.InTime rand e) :
    Counted caught (n + if e = .tick then 1 else 0) (s.step rand e) := by
  cases e with
  | tick =>
    rw [if_pos rfl]
    exact (h.tick fun hc => htime hc rfl).of_eq rfl rfl
  | isr pin =>
    have hkeep : (s.buttonIsr pin).pc = s.pc ∧ (s.buttonIsr pin).now = s.now := by
      unfold Sys.buttonIsr
      split_ifs <;> exact ⟨rfl, rfl⟩
    exact h.of_eq hkeep.1 hkeep.2
  | pins | console => exact h.of_eq rfl rfl
  | task =>
    show Counted caught n (Sys.record s ((s.taskStep rand).getD s))
    cases hs : s.taskStep rand with
    | none => exact h.of_eq rfl rfl
    | some s' => exact (h.task hcount hs).of_eq rfl rfl

/-- From the first pass of the loop on. -/
theorem Counted.run (h : Counted caught n s)
    (hcount : Machine.Along (Machine.total (Sys.step rand)) (fun s _ => s.pc.state = .count) s es)
    (htime : caught → Machine.Along (Machine.total (Sys.step rand)) (Sys.InTime rand) s es) :
    Counted caught (n + es.count .tick) (es.foldl (Sys.step rand) s) := by
  induction es generalizing s n with
  | nil => exact h
  | cons e es ih =>
    simp only [Machine.along_total_cons] at hcount htime
    have hrest := ih (h.step hcount.1 fun hc => (htime hc).1) hcount.2 fun hc => (htime hc).2
    rw [List.count_cons, Nat.add_comm (es.count _), ← Nat.add_assoc]
    simp only [beq_iff_eq]
    exact hrest

/-- The response time of a score is at most the number of ticks since COUNT was entered, and at
most one less if every tick found the task waiting. -/
theorem responseTime_ticks (hentry : (Sys.after rand es).pc = .count 0)
    (hcount : Machine.Along (Machine.total (Sys.step rand)) (fun s _ => s.pc.state = .count)
      (Sys.after rand es) (es' ++ [.task]))
    (hstop : (Sys.after rand (es ++ es' ++ [.task])).pc = .stop) :
    (Sys.after rand (es ++ es' ++ [.task])).vars.responseTime ≤ es'.count .tick ∧
      (Machine.Along (Machine.total (Sys.step rand)) (Sys.InTime rand) (Sys.after rand es) es' →
        es'.count .tick ≤ (Sys.after rand (es ++ es' ++ [.task])).vars.responseTime + 1) := by
  obtain ⟨hloop, hlast⟩ := Machine.along_total_append.mp hcount
  have hbegin : Counted (Machine.Along (Machine.total (Sys.step rand)) (Sys.InTime rand)
      (Sys.after rand es) es') 0 (Sys.after rand es) := by
    unfold Counted
    rw [hentry]
    exact ⟨le_rfl, fun _ => rfl⟩
  have hrun := hbegin.run hloop id
  have hafter : es'.foldl (Sys.step rand) (Sys.after rand es) = Sys.after rand (es ++ es') :=
    List.foldl_append.symm
  rw [Nat.zero_add, hafter] at hrun
  rw [hafter] at hlast
  rw [Sys.after_concat] at hstop ⊢
  cases hs : (Sys.after rand (es ++ es')).taskStep rand with
  | none =>
    have hstay : ((Sys.after rand (es ++ es')).step rand .task).pc =
        (Sys.after rand (es ++ es')).pc := by
      show (((Sys.after rand (es ++ es')).taskStep rand).getD _).pc = _
      rw [hs]
      rfl
    rw [hstay] at hstop
    have hstate : (Sys.after rand (es ++ es')).pc.state = .count := hlast.1
    rw [hstop] at hstate
    cases hstate
  | some t =>
    have ht : (Sys.after rand (es ++ es')).step rand .task =
        Sys.record (Sys.after rand (es ++ es')) t := by
      show Sys.record _ (((Sys.after rand (es ++ es')).taskStep rand).getD _) = _
      rw [hs]
      rfl
    rw [ht] at hstop ⊢
    have hres := hrun.stop hs hstop
    exact hres

/-- The same for the program on the kernel. -/
theorem onKernel_responseTime {evs : List ProgramEvent} {b : Program}
    (hexec : Machine.exec (Program.step rand) Program.main evs = some b)
    (htrace : Program.trace rand evs = es ++ es' ++ [.task])
    (hentry : (Sys.after rand es).pc = .count 0)
    (hcount : Machine.Along (Machine.total (Sys.step rand)) (fun s _ => s.pc.state = .count)
      (Sys.after rand es) (es' ++ [.task]))
    (hstop : b.code = .stop) :
    b.vars.responseTime ≤ es'.count .tick ∧
      (Machine.Along (Machine.total (Sys.step rand)) (Sys.InTime rand) (Sys.after rand es) es' →
        es'.count .tick ≤ b.vars.responseTime + 1) := by
  obtain ⟨x, h⟩ := exists_sim hexec
  rw [htrace] at h
  rw [← h.vars]
  refine responseTime_ticks hentry hcount ?_
  have hcode := h.code.trans hstop
  cases hpc : (Sys.after rand (es ++ es' ++ [.task])).pc with
  | stop => rfl
  | _ =>
    rw [hpc] at hcode
    cases hcode

/-- A game up to COUNT, with a delay of a thousand ticks. -/
def toCount : List Event :=
  [.task, .console, .task, .isr 1#4, .task, .task, .task, .task] ++ List.replicate 1000 .tick ++
    [.task, .task]

/-- Eighty passes of the loop, and the key in the next one. -/
def eightyPasses : List Event :=
  (List.replicate 80 [Event.task, .tick, .task]).flatten ++ [.task, .isr 2#4]

theorem onKernel_responseTime_eighty :
    ∃ evs b, Machine.exec (Program.step fun _ => 0) Program.main evs = some b ∧ b.code = .stop ∧
      b.vars.responseTime ≤ 80 ∧ 80 ≤ b.vars.responseTime + 1 := by
  have hp : Machine.Along (Machine.total (Sys.step fun _ => 0)) (Sys.Prompt fun _ => 0) {}
      (toCount ++ eightyPasses ++ [.task]) := by decide +kernel
  obtain ⟨b, hexec, htrace⟩ := calm_main.run sim_main hp
  have htrace' : Program.trace (fun _ => 0)
      ((toCount ++ eightyPasses ++ [Event.task]).flatMap Event.onKernel) =
        toCount ++ eightyPasses ++ [Event.task] := htrace
  have hstop : b.code = .stop := by
    obtain ⟨x, h⟩ := exists_sim hexec
    rw [← h.code, htrace']
    decide +kernel
  have hticks := onKernel_responseTime hexec htrace' (by decide +kernel) (by decide +kernel) hstop
  have hcount : eightyPasses.count .tick = 80 := by decide +kernel
  rw [hcount] at hticks
  exact ⟨_, b, hexec, hstop, hticks.1, hticks.2 (by decide +kernel)⟩

end Rtos

end ReactionMeter
