import Mathlib.Logic.Relation
import Mathlib.Data.List.Basic

/-!
# Machines with a partial step

A machine is a step function `σ → α → Option σ`: in a state some actions are possible and others
are not. A run is a list of actions (`exec`), a reachable state is what some run leads to
(`Reach`).

* `Reach.invariant`: an invariant of every step holds in every reachable state.
* `restrict` keeps the steps that satisfy a condition on their two end states. A run of the
  restricted machine is a run of the machine all of whose steps satisfy the condition.
* `exec_replicate` follows a repeated action in closed form.
* `through_iff_along` gives the exact condition under which a property holds in all states of a
  run.
* `countP_le_potential` bounds the number of some actions in a run by a potential.
* `exec_simulates` follows a run with another machine, which sees some events for every step of it.
-/

namespace Machine

variable {σ α : Type*}

/-- The state a list of actions leads to, if every action in it is possible. -/
def exec (step : σ → α → Option σ) : σ → List α → Option σ
  | s, [] => some s
  | s, a :: as => (step s a).bind fun s' => exec step s' as

/-- The states reachable from `s₀`. -/
def Reach (step : σ → α → Option σ) (s₀ : σ) : σ → Prop :=
  Relation.ReflTransGen (fun s s' => ∃ a, step s a = some s') s₀

variable {step : σ → α → Option σ} {s₀ s s' : σ}

theorem exec_cons {a : α} {as : List α} (h : step s a = some s') :
    exec step s (a :: as) = exec step s' as := by
  rw [exec, h, Option.bind_some]

theorem exec_append {as bs : List α} (h : exec step s as = some s') :
    exec step s (as ++ bs) = exec step s' bs := by
  induction as generalizing s with
  | nil => cases h; rfl
  | cons a as ih =>
    obtain ⟨t, ht, has⟩ := Option.bind_eq_some_iff.mp h
    rw [List.cons_append, exec_cons ht]
    exact ih has

/-- A repeated action in closed form. -/
theorem exec_replicate {c : ℕ → σ} {a : α} {n : ℕ} (h : ∀ k < n, step (c k) a = some (c (k + 1))) :
    exec step (c 0) (List.replicate n a) = some (c n) := by
  induction n generalizing c with
  | zero => rfl
  | succ n ih =>
    rw [List.replicate_succ, exec_cons (h 0 (Nat.succ_pos n))]
    exact ih (c := fun k => c (k + 1)) fun k hk => h (k + 1) (Nat.succ_lt_succ hk)

theorem Reach.refl (s : σ) : Reach step s s := Relation.ReflTransGen.refl

theorem Reach.tail (h : Reach step s₀ s) {a : α} (ha : step s a = some s') : Reach step s₀ s' :=
  Relation.ReflTransGen.tail h ⟨a, ha⟩

/-- A run from a reachable state ends in one. -/
theorem Reach.exec {as : List α} (h : Reach step s₀ s) (ha : exec step s as = some s') :
    Reach step s₀ s' := by
  induction as generalizing s with
  | nil => cases ha; exact h
  | cons a as ih =>
    rw [Machine.exec] at ha
    cases hs : step s a with
    | none => rw [hs] at ha; cases ha
    | some t =>
      rw [hs] at ha
      exact ih (h.tail hs) ha

theorem Reach.of_exec {as : List α} (h : Machine.exec step s₀ as = some s) : Reach step s₀ s :=
  (Reach.refl s₀).exec h

/-- What holds initially and is preserved by every step holds in every reachable state. -/
theorem Reach.invariant {P : σ → Prop} (h : Reach step s₀ s) (h0 : P s₀)
    (hstep : ∀ s a s', P s → step s a = some s' → P s') : P s := by
  induction h with
  | refl => exact h0
  | tail _ hs ih =>
    obtain ⟨a, ha⟩ := hs
    exact hstep _ a _ ih ha

/-! ## Conditions on steps -/

section Restrict

variable (ok : σ → σ → Prop) [∀ s s', Decidable (ok s s')]

/-- The machine that takes only the steps whose end states satisfy `ok`. -/
def restrict (step : σ → α → Option σ) (s : σ) (a : α) : Option σ :=
  (step s a).filter fun s' => ok s s'

variable {ok}

theorem restrict_eq_some {a : α} :
    restrict ok step s a = some s' ↔ step s a = some s' ∧ ok s s' := by
  simp [restrict, Option.filter_eq_some_iff]

end Restrict

/-! ## Whole runs -/

/-- `P` holds of every state of a run. -/
def Through (step : σ → α → Option σ) (P : σ → Prop) : σ → List α → Prop
  | s, [] => P s
  | s, a :: as => P s ∧ ∀ s', step s a = some s' → Through step P s' as

/-- `C` holds of every action of a run, in the state it is taken in. -/
def Along (step : σ → α → Option σ) (C : σ → α → Prop) : σ → List α → Prop
  | _, [] => True
  | s, a :: as => C s a ∧ ∀ s', step s a = some s' → Along step C s' as

/-- `Along`, as a loop that can be run. -/
def checkAlong (step : σ → α → Option σ) (C : σ → α → Prop) [∀ s a, Decidable (C s a)] :
    σ → List α → Bool
  | _, [] => true
  | s, a :: as =>
    if C s a then
      match step s a with
      | none => true
      | some t => checkAlong step C t as
    else false

theorem checkAlong_iff {C : σ → α → Prop} [∀ s a, Decidable (C s a)] {as : List α} :
    checkAlong step C s as = true ↔ Along step C s as := by
  induction as generalizing s with
  | nil => simp [checkAlong, Along]
  | cons a as ih =>
    by_cases hc : C s a
    · cases hs : step s a with
      | none => simp [checkAlong, Along, hc, hs]
      | some t => simp [checkAlong, Along, hc, hs, ih]
    · simp [checkAlong, Along, hc]

instance {C : σ → α → Prop} [∀ s a, Decidable (C s a)] (s : σ) (as : List α) :
    Decidable (Along step C s as) :=
  decidable_of_iff _ checkAlong_iff

theorem Through.head {P : σ → Prop} {as : List α} (h : Through step P s as) : P s := by
  cases as with
  | nil => exact h
  | cons a as => exact h.1

theorem Through.mono {P Q : σ → Prop} (h : ∀ s, P s → Q s) {as : List α}
    (hrun : Through step P s as) : Through step Q s as := by
  induction as generalizing s with
  | nil => exact h s hrun
  | cons a as ih => exact ⟨h s hrun.1, fun s' hs => ih (hrun.2 s' hs)⟩

/-- The exact condition for a property: an invariant that gives the property, that every action
under the condition keeps, and without which an action breaks the property at once. -/
theorem through_iff_along {R P : σ → Prop} {C : σ → α → Prop} (hprop : ∀ s, R s → P s)
    (hkeep : ∀ s a s', R s → C s a → step s a = some s' → R s')
    (hbreak : ∀ s a s', R s → ¬ C s a → step s a = some s' → ¬ P s')
    {as : List α} (hs : R s) (hexec : exec step s as = some s') :
    Through step P s as ↔ Along step C s as := by
  induction as generalizing s with
  | nil => exact ⟨fun _ => trivial, fun _ => hprop s hs⟩
  | cons a as ih =>
    rw [exec] at hexec
    obtain ⟨t, ht, hexec⟩ := Option.bind_eq_some_iff.mp hexec
    constructor
    · intro hrun
      obtain ⟨-, hthrough⟩ := hrun
      have htail := hthrough t ht
      have hc : C s a := by
        by_contra hc
        exact hbreak s a t hs hc ht htail.head
      refine ⟨hc, fun u hu => ?_⟩
      obtain rfl := Option.some.inj (ht.symm.trans hu)
      exact (ih (hkeep s a t hs hc ht) hexec).mp htail
    · intro hrun
      obtain ⟨hc, halong⟩ := hrun
      refine ⟨hprop s hs, fun u hu => ?_⟩
      obtain rfl := Option.some.inj (ht.symm.trans hu)
      exact (ih (hkeep s a t hs hc ht) hexec).mpr (halong t ht)

/-- What actions under the condition keep, a run of them keeps. -/
theorem Along.keeps {R : σ → Prop} {C : σ → α → Prop} {as : List α} (halong : Along step C s as)
    (hstep : ∀ s a s', R s → C s a → step s a = some s' → R s') (hs : R s)
    (hexec : exec step s as = some s') : R s' := by
  induction as generalizing s with
  | nil =>
    cases hexec
    exact hs
  | cons a as ih =>
    obtain ⟨t, ht, hrest⟩ := Option.bind_eq_some_iff.mp hexec
    obtain ⟨hc, hrun⟩ := halong
    exact ih (hrun t ht) (hstep s a t hs hc ht) hrest

/-- A potential that no action under the condition increases, and that some actions decrease, bounds
their number. -/
theorem countP_le_potential {R : σ → Prop} {C : σ → α → Prop} {f : σ → ℕ} {p : α → Bool}
    (hstep : ∀ s a s', R s → C s a → step s a = some s' → R s' ∧ f s' + (p a).toNat ≤ f s)
    {as : List α} (hs : R s) (halong : Along step C s as) (hexec : exec step s as = some s') :
    f s' + as.countP p ≤ f s := by
  induction as generalizing s with
  | nil =>
    cases hexec
    exact Nat.le_refl _
  | cons a as ih =>
    obtain ⟨t, ht, hrest⟩ := Option.bind_eq_some_iff.mp hexec
    obtain ⟨hc, hrun⟩ := halong
    obtain ⟨hrel, hle⟩ := hstep s a t hs hc ht
    have htail := ih hrel (hrun t ht) hrest
    have hcount : (a :: as).countP p = as.countP p + (p a).toNat := by
      rw [List.countP_cons]
      cases p a with
      | false => rfl
      | true => rfl
    omega

/-! ## Simulation -/

variable {β τ : Type*} {seen : σ → α → List β}

/-- What another machine sees of a run: every step as the events that `seen` makes of it. -/
def trace (step : σ → α → Option σ) (seen : σ → α → List β) : σ → List α → List β
  | _, [] => []
  | s, a :: as => seen s a ++ (step s a).elim [] fun s' => trace step seen s' as

/-- If the other machine follows every step with the events it sees of it, it follows every run. -/
theorem exec_simulates {R : σ → τ → Prop} {f : τ → β → τ}
    (hstep : ∀ s t a s', R s t → step s a = some s' → R s' ((seen s a).foldl f t))
    {as : List α} {t : τ} (hst : R s t) (hexec : exec step s as = some s') :
    R s' ((trace step seen s as).foldl f t) := by
  induction as generalizing s t with
  | nil =>
    cases hexec
    exact hst
  | cons a as ih =>
    obtain ⟨u, hu, hrest⟩ := Option.bind_eq_some_iff.mp hexec
    rw [trace, hu, List.foldl_append]
    exact ih (hstep s t a u hst hu) hrest

theorem trace_append {as bs : List α} (h : exec step s as = some s') :
    trace step seen s (as ++ bs) = trace step seen s as ++ trace step seen s' bs := by
  induction as generalizing s with
  | nil =>
    cases h
    rfl
  | cons a as ih =>
    obtain ⟨t, ht, hrest⟩ := Option.bind_eq_some_iff.mp h
    rw [List.cons_append, trace, trace, ht, Option.elim_some, Option.elim_some, ih hrest,
      List.append_assoc]

/-! ## Total machines -/

/-- A machine that can take every action. -/
def total (f : σ → α → σ) : σ → α → Option σ := fun s a => some (f s a)

theorem along_total_cons {f : σ → α → σ} {C : σ → α → Prop} {a : α} {as : List α} :
    Along (total f) C s (a :: as) ↔ C s a ∧ Along (total f) C (f s a) as := by
  refine and_congr_right fun _ => ⟨fun h => h _ rfl, fun h t ht => ?_⟩
  obtain rfl := Option.some.inj ht
  exact h

theorem along_total_append {f : σ → α → σ} {C : σ → α → Prop} {as bs : List α} :
    Along (total f) C s (as ++ bs) ↔
      Along (total f) C s as ∧ Along (total f) C (as.foldl f s) bs := by
  induction as generalizing s with
  | nil => exact ⟨fun h => ⟨trivial, h⟩, fun h => h.2⟩
  | cons a as ih =>
    rw [List.cons_append, along_total_cons, along_total_cons, ih, and_assoc]
    rfl

end Machine
