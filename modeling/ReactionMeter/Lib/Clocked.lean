import Mathlib.Logic.Function.Iterate
import Mathlib.Order.Basic
import Mathlib.Tactic.Common

/-!
# Synchronous machines

A clocked machine is a step function `σ → ι → σ`: one edge of the clock takes the registers and
the input lines sampled at that edge to the registers after it. A run is driven by an input
stream `ℕ → ι`; edge `n` takes the state at time `n` to the state at time `n + 1`.

* `run_invariant` turns what one edge preserves into what every state of a run satisfies.
* `run_congr`: a run depends on the inputs before it only.
* `run_related` carries a relation along two runs on the same inputs.
-/

namespace Clocked

variable {σ ι : Type*}

/-- The state after `n` edges, from `s`, on the input stream `i`. -/
def run (f : σ → ι → σ) (s : σ) (i : ℕ → ι) : ℕ → σ
  | 0 => s
  | n + 1 => f (run f s i n) (i n)

variable {f : σ → ι → σ} {s : σ} {i : ℕ → ι}

theorem run_succ (n : ℕ) : run f s i (n + 1) = f (run f s i n) (i n) := rfl

/-- What every edge preserves under the input constraint `C` holds along every run whose inputs
satisfy `C`. -/
theorem run_invariant {P : σ → Prop} {C : ι → Prop} (hs : P s)
    (hstep : ∀ s a, C a → P s → P (f s a)) (hi : ∀ n, C (i n)) (n : ℕ) : P (run f s i n) := by
  induction n with
  | zero => exact hs
  | succ n ih => exact hstep _ _ (hi n) ih

/-- Two streams that agree below `n` give the same state at time `n`. -/
theorem run_congr {j : ℕ → ι} {n : ℕ} (h : ∀ k < n, i k = j k) : run f s i n = run f s j n := by
  induction n with
  | zero => rfl
  | succ n ih =>
    rw [run_succ, run_succ, ih fun k hk => h k (Nat.lt_succ_of_lt hk), h n (Nat.lt_succ_self n)]

/-- Two machines on the same inputs: what every edge from time `m` on preserves between them holds
between their states at every later time. -/
theorem run_related {τ : Type*} {g : τ → ι → τ} {t : τ} {R : ℕ → σ → τ → Prop} {m n : ℕ}
    (hm : R m (run f s i m) (run g t i m))
    (hstep : ∀ k a b, m ≤ k → R k a b → R (k + 1) (f a (i k)) (g b (i k))) (hmn : m ≤ n) :
    R n (run f s i n) (run g t i n) := by
  induction hmn with
  | refl => exact hm
  | step hn ih => exact hstep _ _ _ hn ih

end Clocked
