import Mathlib.Data.List.Induction
import Mathlib.Data.Option.Basic
import Mathlib.Tactic.Common

/-!
# Machines with outputs

A machine is a step function `σ → α → Option (σ × ω)`: an action that is possible leads to a state
and gives an output. A run is a list of actions (`run`), and gives the list of its outputs.

* `run_invariant`: what every step preserves, between the state and the outputs so far, holds after
  every run.
* `Bisim`: two machines that, in related states, can take the same actions with the same outputs.
  They can then take the same runs with the same outputs (`Bisim.run`).
-/

namespace Transducer

variable {σ τ α ω : Type*}

/-- The state a list of actions leads to and the outputs on the way, if every action in it is
possible. -/
def run (step : σ → α → Option (σ × ω)) : σ → List α → Option (σ × List ω)
  | s, [] => some (s, [])
  | s, a :: as => (step s a).bind fun r => (run step r.1 as).map fun q => (q.1, r.2 :: q.2)

variable {step : σ → α → Option (σ × ω)} {s s' s₀ : σ} {a : α} {as bs : List α} {o : ω}
  {os ps : List ω}

theorem run_nil : run step s [] = some (s, []) := rfl

theorem run_cons_eq_some :
    run step s (a :: as) = some (s', os) ↔
      ∃ t o ps, step s a = some (t, o) ∧ run step t as = some (s', ps) ∧ os = o :: ps := by
  simp only [run, Option.bind_eq_some_iff, Option.map_eq_some_iff, Prod.exists, Prod.mk.injEq]
  constructor
  · rintro ⟨t, o, ht, u, ps, hu, rfl, rfl⟩
    exact ⟨t, o, ps, ht, hu, rfl⟩
  · rintro ⟨t, o, ps, ht, hu, rfl⟩
    exact ⟨t, o, ht, s', ps, hu, rfl, rfl⟩

theorem run_append_eq_some :
    run step s (as ++ bs) = some (s', os) ↔
      ∃ t ps qs, run step s as = some (t, ps) ∧ run step t bs = some (s', qs) ∧ os = ps ++ qs := by
  induction as generalizing s os with
  | nil => simp [run_nil]
  | cons a as ih =>
    simp only [List.cons_append, run_cons_eq_some, ih]
    constructor
    · rintro ⟨t, o, ps, ht, ⟨u, qs, rs, hu, hb, rfl⟩, rfl⟩
      exact ⟨u, o :: qs, rs, ⟨t, o, qs, ht, hu, rfl⟩, hb, rfl⟩
    · rintro ⟨u, _, rs, ⟨t, o, qs, ht, hu, rfl⟩, hb, rfl⟩
      exact ⟨t, o, qs ++ rs, ht, ⟨u, qs, rs, hu, hb, rfl⟩, rfl⟩

theorem run_singleton_eq_some :
    run step s [a] = some (s', os) ↔ ∃ o, step s a = some (s', o) ∧ os = [o] := by
  simp only [run_cons_eq_some, run_nil, Option.some.injEq, Prod.mk.injEq]
  constructor
  · rintro ⟨t, o, ps, ht, ⟨rfl, rfl⟩, rfl⟩
    exact ⟨o, ht, rfl⟩
  · rintro ⟨o, ht, rfl⟩
    exact ⟨s', o, [], ht, ⟨rfl, rfl⟩, rfl⟩

/-- What holds initially of the state and no outputs, and is preserved by every step. -/
theorem run_invariant {P : σ → List ω → Prop} (h0 : P s₀ [])
    (hstep : ∀ s a s' o os, P s os → step s a = some (s', o) → P s' (os ++ [o]))
    (h : run step s₀ as = some (s, os)) : P s os := by
  induction as using List.reverseRecOn generalizing s os with
  | nil =>
    cases h
    exact h0
  | append_singleton as a ih =>
    obtain ⟨t, ps, qs, ht, hq, rfl⟩ := run_append_eq_some.mp h
    obtain ⟨o, hs, rfl⟩ := run_singleton_eq_some.mp hq
    exact hstep t a s o ps (ih ht) hs

/-- An invariant of the states. -/
theorem run_invariant_state {P : σ → Prop} (h0 : P s₀)
    (hstep : ∀ s a s' o, P s → step s a = some (s', o) → P s')
    (h : run step s₀ as = some (s, os)) : P s :=
  run_invariant (P := fun s _ => P s) h0 (fun s a s' o _ hs ha => hstep s a s' o hs ha) h

/-! ## Bisimulation -/

/-- In related states the two machines can take the same actions, with the same outputs and to
related states. -/
def Bisim (R : σ → τ → Prop) (f : σ → α → Option (σ × ω)) (g : τ → α → Option (τ × ω)) : Prop :=
  ∀ s t a, R s t → Option.Rel (fun x y => R x.1 y.1 ∧ x.2 = y.2) (f s a) (g t a)

variable {R : σ → τ → Prop} {f : σ → α → Option (σ × ω)} {g : τ → α → Option (τ × ω)} {t : τ}

theorem Bisim.run (h : Bisim R f g) (hst : R s t) (as : List α) :
    Option.Rel (fun x y => R x.1 y.1 ∧ x.2 = y.2) (run f s as) (run g t as) := by
  induction as generalizing s t with
  | nil => exact Option.Rel.some ⟨hst, rfl⟩
  | cons a as ih =>
    have hstep := h s t a hst
    unfold Transducer.run
    generalize f s a = x at hstep
    generalize g t a = y at hstep
    cases hstep with
    | none => exact Option.Rel.none
    | @some x y hxy =>
      obtain ⟨hR, ho⟩ := hxy
      have hrest := ih hR
      rw [Option.bind_some, Option.bind_some]
      generalize Transducer.run f x.1 as = p at hrest
      generalize Transducer.run g y.1 as = q at hrest
      cases hrest with
      | none => exact Option.Rel.none
      | @some p q hpq =>
        obtain ⟨hR', ho'⟩ := hpq
        exact Option.Rel.some ⟨hR', congrArg₂ List.cons ho ho'⟩

/-- A run of the first machine is a run of the second. -/
theorem Bisim.exists_run (h : Bisim R f g) (hst : R s t)
    (hrun : Transducer.run f s as = some (s', os)) :
    ∃ t', Transducer.run g t as = some (t', os) ∧ R s' t' := by
  have hrel := h.run hst as
  rw [hrun] at hrel
  generalize hg : Transducer.run g t as = r at hrel
  cases hrel with
  | @some _ q hpq =>
    obtain ⟨t', ps⟩ := q
    obtain ⟨hR, rfl⟩ := hpq
    exact ⟨t', rfl, hR⟩

end Transducer
