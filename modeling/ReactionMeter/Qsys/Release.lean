import ReactionMeter.Qsys.Scores

/-!
# The release of the button

The task leaves STOP on any `restart_sem` token. A round whose response it rejects, or no longer
waits for, leaves the token of its release behind, and the next STOP ends with it while the button
is still held (`released_early`).

`stop_released` gives the condition under which it does not happen: besides a clean start of every
round, no `restart_sem` token is left when the meter enters STOP (`Drained`). The invariant follows
the one response and the one release a round can have, through the interrupt, the semaphore and the
task.
-/

namespace ReactionMeter

namespace Qsys

/-- The task has taken a `stop_sem` token, and has not left STOP since. -/
def TaskPc.busy (pc : TaskPc) : Prop := pc.reads ∨ pc.state = .stop

namespace Sys

/-- The meter enters STOP only when no `restart_sem` token is waiting. -/
def Drained (s s' : Sys) : Prop :=
  s.phase = .count → s'.phase = .stop → s'.sems.restart = []

instance (s s' : Sys) : Decidable (Drained s s') := by unfold Drained; infer_instance

/-- Interrupts are served in time, every round starts clean, and no release is left over. -/
def Orderly (s s' : Sys) : Prop := Clean s s' ∧ Drained s s'

instance (s s' : Sys) : Decidable (Orderly s s') := by unfold Orderly; infer_instance

theorem orderly_later {s : Sys} (h : Settled s) : Orderly s (s.later 1) :=
  ⟨clean_later h, fun hc hs => absurd (hc.symm.trans hs) (by decide)⟩

/-- The response on show is the latest one, and its release is still to come or is the only token
waiting. -/
def Shown (s : Sys) : Prop :=
  s.read.1 = s.measured.1 ∧
    (s.measured.1 = s.round ∨ (s.sems.restart ≠ [] ∧ ∀ k ∈ s.sems.restart, k = s.read.1))

/-- What every orderly cycle preserves. `A` says that an interrupt is outstanding. -/
structure OneRelease (s : Sys) (A : Prop) : Prop where
  att : Attributed s
  le : s.measured.1 ≤ s.round
  rested : s.measured.1 = s.round → s.phase = .stop ∨ s.phase = .idle
  serving : A → s.phase = .idle → s.measured.1 = s.round
  tokens : s.measured.1 = s.round → ∀ k ∈ s.sems.restart, k = s.round ∧ s.phase = .idle
  shown : s.pc.state = .stop → Shown s
  pending : A → s.phase = .stop → s.sems.stop = [] ∧ ¬ s.pc.busy
  once : ∀ k ∈ s.sems.stop, s.sems.stop = [k] ∧ ¬ s.pc.busy
  owed : s.measured.1 = s.round → s.phase = .idle → s.sems.stop ≠ [] ∨ s.pc.busy →
    A ∨ s.sems.restart ≠ []

theorem oneRelease_init : OneRelease {} False where
  att := attributed_init
  le := le_rfl
  rested := fun _ => Or.inr rfl
  serving := False.elim
  tokens := by intro _ k hk; cases hk
  shown := by intro h; cases h
  pending := False.elim
  once := by intro k hk; cases hk
  owed := by
    rintro - - (h | h | h)
    · exact absurd rfl h
    · cases h
    · cases h

theorem busy_of_quiet {pc pc' : TaskPc} (h : Quiet pc pc') (hb : pc'.busy) : pc.busy := by
  rcases h with ⟨rfl, -⟩ | ⟨-, hn, hq | ⟨-, rfl⟩⟩
  · exact hb
  · rcases hb with hb | hb
    · exact absurd hb hn
    · exact Or.inr (hq ▸ hb)
  · rcases hb with hb | hb <;> cases hb

section Moves

variable {s t : Sys} {op : BusOp}

theorem OneRelease.restart_post (h : OneRelease s s.io.Active) {c : BitVec 16} {q : SemId}
    (hisr : s.io.isr = .posting c) (hq : semOf c = some q) (hidle : s.phase = .idle) :
    (s.sems.post q s.round).restart ≠ [] := by
  rw [(h.att.prompt.posting c hisr).2] at hq
  have hst : q.state = .idle := (semOf_pos.mp hq).trans hidle
  cases q with
  | restart => simp [Sems.post]
  | start | startCounting | stop => cases hst

theorem OneRelease.shown_move (h : OneRelease s s.io.Active) (hm : Move s t op)
    (hst : t.pc.state = .stop) : Shown t := by
  cases hm with
  | quiet hq =>
    rcases hq with ⟨rfl, -⟩ | ⟨-, -, hq | ⟨-, rfl⟩⟩
    · exact h.shown hst
    · exact h.shown (hq ▸ hst)
    · cases hst
  | access => exact h.shown hst
  | @post v c q hpc hv hisr hq =>
    obtain ⟨hread, hcase⟩ := h.shown hst
    refine ⟨hread, ?_⟩
    rcases hcase with hmeas | ⟨hne, hall⟩
    · exact Or.inl hmeas
    · by_cases hidle : s.phase = .idle
      · exact Or.inl (h.serving (Or.inr (Or.inr (by simp [hisr]))) hidle)
      · -- The routine posts for another state, to another semaphore.
        rw [(h.att.prompt.posting c hisr).2] at hq
        have hsem := semOf_pos.mp hq
        apply Or.inr
        cases q with
        | restart => exact absurd hsem.symm hidle
        | start | startCounting | stop => exact ⟨hne, hall⟩
  | judge hpc =>
    have hr : s.pc.reads := by rw [hpc]; trivial
    have hmeas := h.att.reading hr
    exact ⟨(h.att.read hr (by simp [hpc])).trans hmeas.symm, Or.inl hmeas⟩
  | takeStart | takeCounting | takeStop | latch | fetch | takeRestart => cases hst

/-- The one response of a round is in the semaphore or with the task, never in both. -/
theorem OneRelease.once_move (h : OneRelease s s.io.Active) (hm : Move s t op) :
    ∀ k ∈ t.sems.stop, t.sems.stop = [k] ∧ ¬ t.pc.busy := by
  intro k hk
  cases hm with
  | quiet hq =>
    obtain ⟨hk, hb⟩ := h.once k hk
    exact ⟨hk, fun hb' => hb (busy_of_quiet hq hb')⟩
  | access => exact h.once k hk
  | @post v c q hpc hv hisr hq =>
    cases q with
    | stop =>
      rw [(h.att.prompt.posting c hisr).2] at hq
      have hstop : s.phase = .stop := (semOf_pos.mp hq).symm
      obtain ⟨hnil, hb⟩ := h.pending (Or.inr (Or.inr (by simp [hisr]))) hstop
      simp only [Sems.post, hnil, List.nil_append, List.mem_singleton] at hk ⊢
      exact ⟨by rw [hk], hb⟩
    | start | startCounting | restart => exact h.once k hk
  | takeStop _ hs =>
    obtain ⟨hk', -⟩ := h.once k (by rw [hs]; exact List.mem_cons_of_mem _ hk)
    rw [hs] at hk'
    rw [(List.cons.inj hk').2] at hk
    cases hk
  | latch hpc | fetch hpc | judge hpc =>
    exact absurd (Or.inl (by rw [hpc]; trivial)) (h.once k hk).2
  | takeStart | takeCounting | takeRestart =>
    refine ⟨(h.once k hk).1, ?_⟩
    intro hb
    rcases hb with hb | hb <;> cases hb

theorem OneRelease.move (h : OneRelease s s.io.Active) (hm : Move s t op) :
    OneRelease t (s.io.Outstanding op) where
  att := h.att.move hm
  le := by rw [hm.measured, hm.round]; exact h.le
  rested := by rw [hm.measured, hm.round, hm.phase]; exact h.rested
  serving := by rw [hm.measured, hm.round, hm.phase]; exact fun ha => h.serving ha.1
  tokens := by
    intro hmeas k hk
    rw [hm.measured, hm.round] at hmeas
    rw [hm.round, hm.phase]
    rcases hm.mem h.att.prompt (q := .restart) hk with hk | ⟨hq, hk, -⟩
    · exact h.tokens hmeas k hk
    · exact ⟨hk, hq.symm⟩
  shown := h.shown_move hm
  pending := by
    rw [hm.phase]
    intro hout hp
    obtain ⟨ha, hpost⟩ := hout
    obtain ⟨hnil, hb⟩ := h.pending ha hp
    cases hm with
    | quiet hq => exact ⟨hnil, fun hb' => hb (busy_of_quiet hq hb')⟩
    | access => exact ⟨hnil, hb⟩
    | post _ _ hisr => exact absurd ⟨rfl, _, hisr⟩ hpost
    | takeStop _ hs => rw [hs] at hnil; cases hnil
    | latch hpc | fetch hpc | judge hpc => exact absurd (Or.inl (by rw [hpc]; trivial)) hb
    | takeStart | takeCounting | takeRestart =>
      refine ⟨hnil, ?_⟩
      intro hb'
      rcases hb' with hb' | hb' <;> cases hb'
  once := h.once_move hm
  owed := by
    rw [hm.measured, hm.round, hm.phase]
    intro hmeas hidle hbusy
    have hkeep : ∀ {op'}, op' ≠ .isr → (s.sems.stop ≠ [] ∨ s.pc.busy) →
        s.io.Outstanding op' ∨ s.sems.restart ≠ [] := fun hne hb =>
      (h.owed hmeas hidle hb).imp (fun ha => ⟨ha, fun hpost => hne hpost.1⟩) id
    cases hm with
    | quiet hq => exact hkeep (by simp) (hbusy.imp id (busy_of_quiet hq))
    | access _ _ hn =>
      refine (h.owed hmeas hidle hbusy).imp (fun ha => ⟨ha, ?_⟩) id
      intro hpost
      obtain ⟨-, c, hisr⟩ := hpost
      have hnone := hn c hisr
      rw [(h.att.prompt.posting c hisr).2, show s.io.hw.meter.nextState = .idle from hidle] at hnone
      cases hnone
    | post _ _ hisr hq => exact Or.inr (h.restart_post hisr hq hidle)
    | takeStop _ hs => exact hkeep (by simp) (Or.inl (by simp [hs]))
    | latch hpc | fetch hpc | judge hpc =>
      exact hkeep (by simp) (Or.inr (Or.inl (by rw [hpc]; trivial)))
    | takeStart | takeCounting =>
      refine hkeep (by simp) (hbusy.imp id ?_)
      intro hb
      rcases hb with hb | hb <;> cases hb
    | takeRestart hpc =>
      -- The token ends the one STOP of the round.
      rcases hbusy with hne | hb | hb
      · obtain ⟨k, hk⟩ := List.exists_mem_of_ne_nil _ hne
        exact absurd (Or.inr (by rw [hpc]; rfl)) (h.once k hk).2
      · cases hb
      · cases hb

end Moves

section Edge

variable {t s' : Sys} {b : BitVec 2} {op : BusOp} {A B : Prop}

/-- An edge without a new measurement keeps what is shown, if it keeps the round of the response or
finds its release. -/
theorem OneRelease.shown_cycle (h : OneRelease t A) (hc : Cycle t s')
    (hm : s'.measured = t.measured)
    (hcur : t.measured.1 = t.round → t.pc.state = .stop → s'.measured.1 = s'.round ∨
      (t.sems.restart ≠ [] ∧ ∀ k ∈ t.sems.restart, k = t.read.1))
    (hst : s'.pc.state = .stop) : Shown s' := by
  rw [hc.pc] at hst
  obtain ⟨hread, hcase⟩ := h.shown hst
  unfold Shown
  rw [hc.read, hc.sems]
  refine ⟨by rw [hm]; exact hread, ?_⟩
  rcases hcase with hcase | hcase
  · exact hcur hcase hst
  · exact Or.inr hcase

theorem OneRelease.once_cycle (h : OneRelease t A) (hc : Cycle t s') :
    ∀ k ∈ s'.sems.stop, s'.sems.stop = [k] ∧ ¬ s'.pc.busy := by
  rw [hc.sems, hc.pc]
  exact h.once

theorem OneRelease.unanswered (h : OneRelease t A) (hc : Cycle t s') (hatt : Attributed s')
    (hlt : s'.measured.1 < s'.round) (hidle : B → s'.phase ≠ .idle) (hstop : s'.phase ≠ .stop)
    (hshown : s'.pc.state = .stop → Shown s') : OneRelease s' B where
  att := hatt
  le := Nat.le_of_lt hlt
  rested := fun hcur => absurd hcur (Nat.ne_of_lt hlt)
  serving := fun hb hi => absurd hi (hidle hb)
  tokens := fun hcur => absurd hcur (Nat.ne_of_lt hlt)
  shown := hshown
  pending := fun _ hs => absurd hs hstop
  once := h.once_cycle hc
  owed := fun hcur => absurd hcur (Nat.ne_of_lt hlt)

theorem OneRelease.lt_round (h : OneRelease t A) (hs : t.phase ≠ .stop) (hi : t.phase ≠ .idle) :
    t.measured.1 < t.round := by
  apply Nat.lt_of_le_of_ne h.le
  intro hcur
  rcases h.rested hcur with hp | hp
  · exact hs hp
  · exact hi hp

/-- When the next round begins with the task still in STOP, the release is waiting. -/
theorem OneRelease.release_waits (h : OneRelease t (t.io.Outstanding op)) (hquiet : ¬ t.io.Active)
    (hp : t.phase = .idle) (hcur : t.measured.1 = t.round) (hst : t.pc.state = .stop) :
    t.sems.restart ≠ [] ∧ ∀ k ∈ t.sems.restart, k = t.read.1 := by
  constructor
  · rcases h.owed hcur hp (Or.inr (Or.inr hst)) with ha | hne
    · exact absurd ha.1 hquiet
    · exact hne
  · intro k hk
    calc k = t.round := (h.tokens hcur k hk).1
      _ = t.measured.1 := hcur.symm
      _ = t.read.1 := (h.shown hst).1.symm

theorem OneRelease.cycle (h : OneRelease t (t.io.Outstanding op))
    (hcyc : t.cycle b op = some s') (hok : Orderly t s') : OneRelease s' s'.io.Active := by
  have hc := cycle_cycle hcyc
  have hatt := h.att.cycle hc hok.1
  cases hc.turn with
  | stay hp hi hr hm =>
    have hact := IrqSys.active_iff_outstanding h.att.prompt (cycle_io hcyc) hok.1.1 hp
    exact
      { att := hatt
        le := by rw [hm, hr]; exact h.le
        rested := by rw [hm, hr, hp]; exact h.rested
        serving := by rw [hm, hr, hp, hact]; exact h.serving
        tokens := by rw [hm, hr, hp, hc.sems]; exact h.tokens
        shown := h.shown_cycle hc hm fun hcur _ => Or.inl (by rw [hm, hr]; exact hcur)
        pending := by rw [hp, hact, hc.sems, hc.pc]; exact h.pending
        once := h.once_cycle hc
        owed := by rw [hm, hr, hp, hact, hc.sems, hc.pc]; exact h.owed }
  | start hp hp' hr hm =>
    have hlt : s'.measured.1 < s'.round := by rw [hm, hr]; exact Nat.lt_succ_of_le h.le
    have hmove : s'.phase ≠ t.phase := by rw [hp, hp']; decide
    refine h.unanswered hc hatt hlt (fun _ => by rw [hp']; decide) (by rw [hp']; decide) ?_
    refine h.shown_cycle hc hm fun hcur hst => Or.inr ?_
    exact h.release_waits (hok.1.1.not_active hmove) hp hcur hst
  | advance hpp hr hm =>
    have hlt : s'.measured.1 < s'.round := by
      rw [hm, hr]
      apply h.lt_round
      · rcases hpp with ⟨hp, -⟩ | ⟨hp, -⟩ <;> simp [hp]
      · rcases hpp with ⟨hp, -⟩ | ⟨hp, -⟩ <;> simp [hp]
    have hidle : s'.phase ≠ .idle := by rcases hpp with ⟨-, hp⟩ | ⟨-, hp⟩ <;> simp [hp]
    have hstop : s'.phase ≠ .stop := by rcases hpp with ⟨-, hp⟩ | ⟨-, hp⟩ <;> simp [hp]
    refine h.unanswered hc hatt hlt (fun _ => hidle) hstop ?_
    exact h.shown_cycle hc hm fun hcur _ => Or.inl (by rw [hm, hr]; exact hcur)
  | timeout hp hp' hi hr hm =>
    have hlt : s'.measured.1 < s'.round := by
      rw [hm, hr]
      exact h.lt_round (by simp [hp]) (by simp [hp])
    have hmove : s'.phase ≠ t.phase := by rw [hp, hp']; decide
    obtain ⟨hirq, hout⟩ := hc.access.quiet hok.1.1 hmove
    -- The timeout raises no interrupt, so there is none to be served in IDLE.
    have hquiet : ¬ s'.io.Active := by simp [IrqSys.Active, hi, hirq, hout]
    refine h.unanswered hc hatt hlt (fun ha => absurd ha hquiet) (by rw [hp']; decide) ?_
    exact h.shown_cycle hc hm fun hcur _ => Or.inl (by rw [hm, hr]; exact hcur)
  | stop hp hp' hr hm =>
    have hlt : t.measured.1 < t.round := h.lt_round (by simp [hp]) (by simp [hp])
    have hdrained : t.sems.restart = [] := by rw [← hc.sems]; exact hok.2 hp hp'
    have hpc : t.pc.state ≠ .stop := by
      intro hst
      rcases (h.shown hst).2 with hcur | ⟨hne, -⟩
      · exact Nat.ne_of_lt hlt hcur
      · exact hne hdrained
    have hbusy : ¬ t.pc.busy := by
      intro hb
      rcases hb with hb | hb
      · exact Nat.ne_of_lt hlt (h.att.reading hb)
      · exact hpc hb
    have hnil : t.sems.stop = [] :=
      List.eq_nil_iff_forall_not_mem.mpr fun k hk => Nat.ne_of_lt hlt (h.att.answered k hk)
    exact
      { att := hatt
        le := by rw [hm, hr]
        rested := fun _ => Or.inl hp'
        serving := fun _ hi => by rw [hp'] at hi; cases hi
        tokens := fun _ k hk => by rw [hc.sems, hdrained] at hk; cases hk
        shown := fun hst => absurd (hc.pc ▸ hst) hpc
        pending := fun _ _ => by rw [hc.sems, hc.pc]; exact ⟨hnil, hbusy⟩
        once := h.once_cycle hc
        owed := fun _ hi => by rw [hp'] at hi; cases hi }
  | idle hp hp' hi hr hm =>
    have hcur : t.measured.1 = t.round := h.att.stopped hp
    have hcur' : s'.measured.1 = s'.round := by rw [hm, hr]; exact hcur
    exact
      { att := hatt
        le := hcur'.le
        rested := fun _ => Or.inr hp'
        serving := fun _ _ => hcur'
        tokens := fun _ k hk => by
          rw [hc.sems] at hk
          exact absurd (hp.symm.trans (h.tokens hcur k hk).2) (by decide)
        shown := h.shown_cycle hc hm fun _ _ => Or.inl hcur'
        pending := fun _ hs => by rw [hp'] at hs; cases hs
        once := h.once_cycle hc
        owed := fun _ _ _ => Or.inl (Or.inl hi) }

end Edge

theorem reach_oneRelease {s : Sys} (h : Machine.Reach (Machine.restrict Orderly step) {} s) :
    OneRelease s s.io.Active := by
  refine h.invariant (P := fun s => OneRelease s s.io.Active) ?_ fun s a s' hs ha => ?_
  · have hquiet : ¬ ({} : Sys).io.Active := by simp [IrqSys.Active, Meter.powerUp]
    simpa only [hquiet] using oneRelease_init
  · obtain ⟨hstep, hok⟩ := Machine.restrict_eq_some.mp ha
    obtain ⟨t, op, hm, hcyc⟩ := move_step hstep
    have ht := hs.move hm
    rw [← hm.io] at ht
    apply ht.cycle hcyc
    simpa only [Orderly, Clean, Served, CleanStart, Drained, hm.io, hm.phase] using hok

/-- The only way out of STOP is a `restart_sem` token, and it leads to IDLE. -/
theorem leaves_stop {s t : Sys} {op : BusOp} (hm : Move s t op) (hst : s.pc.state = .stop)
    (hne : t.pc.state ≠ .stop) : t.released ∈ s.sems.restart ∧ t.pc.state = .idle := by
  cases hm with
  | takeRestart _ hs => exact ⟨by rw [hs]; exact List.mem_cons_self, rfl⟩
  | quiet hq =>
    rcases hq with ⟨rfl, -⟩ | ⟨-, -, hq | ⟨hq, -⟩⟩
    · exact absurd hst hne
    · exact absurd (hq.trans hst) hne
    · exact absurd (hq.symm.trans hst) (by decide)
  | access | post => exact absurd hst hne
  | takeStart hpc | takeCounting hpc | takeStop hpc | latch hpc | fetch hpc | judge hpc =>
    rw [hpc] at hst; cases hst

/-- **The release.** In every orderly run the `restart_sem` token on which the task leaves STOP was
posted in the round whose response time it shows, and the meter is not in STOP. -/
theorem stop_released {s s' : Sys} {a : Act}
    (hr : Machine.Reach (Machine.restrict Orderly step) {} s)
    (hs : Machine.restrict Orderly step s a = some s')
    (hst : s.pc.state = .stop) (hne : s'.pc.state ≠ .stop) :
    s'.pc.state = .idle ∧ s'.released = s.read.1 ∧ s.vars.responseTime = s.read.2 ∧
      s.phase ≠ .stop := by
  obtain ⟨hstep, -⟩ := Machine.restrict_eq_some.mp hs
  obtain ⟨t, op, hm, hcyc⟩ := move_step hstep
  have hcyc := cycle_cycle hcyc
  obtain ⟨hmem, hidle⟩ := leaves_stop hm hst (hcyc.pc ▸ hne)
  have h := reach_oneRelease hr
  obtain ⟨hread, hcase⟩ := h.shown hst
  refine ⟨hcyc.pc ▸ hidle, ?_, (reach_values hr).1.shown hst, fun hp => ?_⟩
  · rw [hcyc.released]
    rcases hcase with hcur | ⟨-, hall⟩
    · exact (h.tokens hcur _ hmem).1.trans (hcur.symm.trans hread.symm)
    · exact hall _ hmem
  · have hidle := (h.tokens (h.att.stopped hp) _ hmem).2
    exact absurd (hp.symm.trans hidle) (by decide)

/-! ## A release, and one that comes too early -/

/-- The task shows the response of the named player, who lets the button go. -/
def shownRound : List Leg := answeredRound ++ [.acts (taskSteps respKey 2 ++ serviced noKey)]

def letGo : Sys := playTo Orderly shownRound

def ended : Sys := playTo Orderly (shownRound ++ [.acts (taskSteps noKey 1)])

theorem stop_released_eighty :
    letGo.phase = .idle ∧ ended.pc.state = .idle ∧ ended.released = letGo.read.1 ∧
      letGo.vars.responseTime = letGo.read.2 ∧ letGo.phase ≠ .stop := by
  have hr : Machine.Reach (Machine.restrict Orderly step) {} letGo :=
    playTo_reach (fun _ => orderly_later) (by decide +kernel)
  have hlast : Machine.restrict Orderly step letGo ⟨noKey, .task⟩ = some ended := by
    decide +kernel
  have hne : ended.pc.state ≠ .stop := by decide +kernel
  exact ⟨by decide +kernel, stop_released hr hlast (by decide +kernel) hne⟩

/-- The response of the first round is too fast to be true. The task is back in IDLE before the
button is up, and plays the second round to its STOP. -/
def rejectedRound : List Leg :=
  .acts namedStart :: delayOver ++
    .acts (taskSteps noKey 2 ++ serviced respKey ++ taskSteps respKey 5 ++ serviced noKey ++
      serviced startKey ++ taskSteps startKey 2 ++ serviced noKey) ::
    delayOver ++
    [.acts (taskSteps noKey 2), .wait eightyMs, .acts (serviced respKey ++ taskSteps respKey 5)]

def held : Sys := playTo Served rejectedRound

def releasedEarly : Sys := playTo Served (rejectedRound ++ [.acts (taskSteps respKey 1)])

/-- Prompt service alone is not enough: with the button held and the meter in STOP, the task returns
to IDLE on the token of the rejected round. -/
theorem released_early :
    ¬ ∀ (s s' : Sys) (a : Act), Machine.Reach (Machine.restrict Served step) {} s →
      Machine.restrict Served step s a = some s' →
      s.pc.state = .stop → s'.pc.state ≠ .stop →
      s'.pc.state = .idle ∧ s'.released = s.read.1 ∧ s.vars.responseTime = s.read.2 ∧
        s.phase ≠ .stop := by
  intro hall
  have hr : Machine.Reach (Machine.restrict Served step) {} held :=
    playTo_reach (fun _ => Settled.served) (by decide +kernel)
  have hlast : Machine.restrict Served step held ⟨respKey, .task⟩ = some releasedEarly := by
    decide +kernel
  obtain ⟨-, -, -, hne⟩ := hall _ _ _ hr hlast (by decide +kernel) (by decide +kernel)
  exact hne (by decide +kernel)

end Sys

end Qsys

end ReactionMeter
