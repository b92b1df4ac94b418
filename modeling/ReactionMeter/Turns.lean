import Mathlib.Data.List.Range
import ReactionMeter.Game

/-!
# Turns and registrations

Every visit to IDLE begins with `show_tries(tries++)` and a call of `user_register`, which asks for a
name or lets the player through. Here a task is what these counters need of it: where it stands
towards `user_register` (`Desk`), and its variables.

`Turns` are the runs of a task in any environment, with a list of the calls of `user_register` so
far: whether each asked for a name. So the visit the task is in, or has been in last, is the `n`-th,
counted from 0, if the list has `n + 1` entries.

`Tally` lists what a step does to the counters. `Tallies.counts`: along a run of a task that does
nothing else, `tries` counts the calls modulo 256, and every fourth call asks for a name.
-/

namespace ReactionMeter

/-- Before the head of IDLE, in `OSQPend(player_queue, 0)`, or anywhere else. -/
inductive Desk
  | home
  | asking
  | away
  deriving DecidableEq, Repr

namespace Task

variable {σ π : Type} (T : Task σ π) (desk : π → Desk)

/-- The runs of the task, with the calls of `user_register`. -/
inductive Turns : σ → List Bool → Prop
  | boot : Turns T.boot []
  | others {s t : σ} {calls : List Bool} (h : Turns s calls) (ho : T.Others s t) : Turns t calls
  | step {s t : σ} {calls : List Bool} (h : Turns s calls) (hs : T.step s t) :
      Turns t (if desk (T.pc s) = .home then calls ++ [decide (desk (T.pc t) = .asking)] else calls)

end Task

/-! ## What a step may do -/

/-- What a step of a task may do to the counters. -/
inductive Tally (v w : Vars) : Desk → Desk → Prop
  | home {e : Desk} (he : e = if 3 ≤ v.rounds then .asking else .away)
      (hp : w.ports.tries = v.tries) (ht : w.tries = (v.tries + 1) % 256)
      (hr : w.rounds = (v.rounds + 1) % 256) : Tally v w .home e
  | registered (hp : w.ports.tries = v.ports.tries) (ht : w.tries = v.tries) (hr : w.rounds = 0) :
      Tally v w .asking .away
  | away {d : Desk} (hd : d ≠ .asking) (hp : w.ports.tries = v.ports.tries) (ht : w.tries = v.tries)
      (hr : w.rounds = v.rounds) : Tally v w .away d

/-- The counters after some calls. -/
structure Counts (d : Desk) (v : Vars) (calls : List Bool) : Prop where
  asked : calls = (List.range calls.length).map fun k => decide (k % 4 = 0)
  tries : v.tries = calls.length % 256
  shown : calls ≠ [] → v.ports.tries = (calls.length - 1) % 256
  rounds : d ≠ .asking → v.rounds = (calls.length + 3) % 4
  asking : d = .asking → calls.length % 4 = 1

variable {v w : Vars} {d e : Desk} {calls : List Bool}

theorem counts_boot : Counts .home {} [] where
  asked := rfl
  tries := rfl
  shown := fun h => absurd rfl h
  rounds := fun _ => rfl
  asking := by simp

theorem Counts.congr (h : Counts d v calls) (hp : w.ports.tries = v.ports.tries)
    (ht : w.tries = v.tries) (hr : w.rounds = v.rounds) : Counts d w calls where
  asked := h.asked
  tries := ht.trans h.tries
  shown := fun hne => hp.trans (h.shown hne)
  rounds := fun hd => hr.trans (h.rounds hd)
  asking := h.asking

/-- A step keeps the counters, the call of a home step being added. -/
theorem Counts.tally (h : Counts d v calls) (hs : Tally v w d e) :
    Counts e w (if d = .home then calls ++ [decide (e = .asking)] else calls) := by
  obtain ⟨hasked, htries, hshown, hrounds, hasking⟩ := h
  cases hs with
  | home he hp ht hr =>
    have hv : v.rounds = (calls.length + 3) % 4 := hrounds (by decide)
    have hask : 3 ≤ v.rounds ↔ calls.length % 4 = 0 := by omega
    have hdesk : e = .asking ↔ calls.length % 4 = 0 := by
      rw [← hask, he]
      split_ifs with h3 <;> simp [h3]
    rw [if_pos rfl]
    refine ⟨?_, ?_, fun _ => ?_, fun hno => ?_, fun hyes => ?_⟩
    · rw [List.length_append, List.length_singleton, List.range_succ, List.map_append, ← hasked]
      simp [hdesk]
    · rw [ht, htries, List.length_append, List.length_singleton]
      omega
    · rw [hp, htries, List.length_append, List.length_singleton, Nat.add_sub_cancel]
    · have hmod := mt hdesk.mpr hno
      rw [hr, List.length_append, List.length_singleton]
      omega
    · have hmod := hdesk.mp hyes
      rw [List.length_append, List.length_singleton]
      omega
  | registered hp ht hr =>
    have hmod := hasking rfl
    refine ⟨hasked, ht.trans htries, fun hne => hp.trans (hshown hne), fun _ => ?_, by simp⟩
    show w.rounds = (calls.length + 3) % 4
    omega
  | away hd hp ht hr =>
    exact ⟨hasked, ht.trans htries, fun hne => hp.trans (hshown hne),
      fun _ => hr.trans (hrounds (by decide)), fun hyes => absurd hyes hd⟩

namespace Task

variable {σ π : Type} {T : Task σ π} {desk : π → Desk} {s : σ}

/-- A task that starts at home and does nothing but such steps. -/
structure Tallies (T : Task σ π) (desk : π → Desk) : Prop where
  boot : desk (T.pc T.boot) = .home ∧ T.vars T.boot = {}
  tally : ∀ s t, T.step s t → Tally (T.vars s) (T.vars t) (desk (T.pc s)) (desk (T.pc t))

theorem Tallies.counts (hT : T.Tallies desk) (h : T.Turns desk s calls) :
    Counts (desk (T.pc s)) (T.vars s) calls := by
  induction h with
  | boot =>
    rw [hT.boot.1, hT.boot.2]
    exact counts_boot
  | others _ ho ih =>
    obtain ⟨hpc, hvars⟩ := ho
    rw [hpc]
    rcases hvars with hvars | ⟨state, hvars⟩
    · rw [hvars]; exact ih
    · rw [hvars]; exact ih.congr rfl rfl rfl
  | step _ hs ih => exact ih.tally (hT.tally _ _ hs)

end Task

/-! ## The calls -/

/-- The `n`-th call of `user_register`, counted from 1, asked for a name. -/
def Asked (calls : List Bool) (n : ℕ) : Prop := calls[n - 1]? = some true

theorem Counts.asked_iff (h : Counts d v calls) {n : ℕ} (h1 : 1 ≤ n) (hn : n ≤ calls.length) :
    Asked calls n ↔ n % 4 = 1 := by
  have hlt : n - 1 < calls.length := by omega
  rw [Asked, h.asked, List.getElem?_map, List.getElem?_range hlt, Option.map_some, Option.some.injEq,
    decide_eq_true_iff]
  omega

/-- One call follows the period of three. -/
theorem Counts.period_iff (h : Counts d v calls) {n : ℕ} (h1 : 1 ≤ n) (hn : n ≤ calls.length) :
    (Asked calls n ↔ n % 3 = 1) ↔ n % 12 ∉ [4, 5, 7, 9, 10] := by
  rw [h.asked_iff h1 hn]
  simp only [List.mem_cons, List.not_mem_nil, or_false]
  omega

theorem Counts.periods_iff (h : Counts d v calls) :
    (∀ n, 1 ≤ n → n ≤ calls.length → (Asked calls n ↔ n % 3 = 1)) ↔ calls.length ≤ 3 := by
  constructor
  · intro hall
    by_contra hgt
    have h4 := (h.period_iff (n := 4) (by decide) (by omega)).mp (hall 4 (by decide) (by omega))
    exact h4 (by decide)
  · intro hle n h1 hn
    apply (h.period_iff h1 hn).mpr
    have hcase : n = 1 ∨ n = 2 ∨ n = 3 := by omega
    rcases hcase with rfl | rfl | rfl <;> decide

end ReactionMeter
