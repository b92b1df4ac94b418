import Mathlib.Logic.Function.Basic
import Mathlib.Tactic.Common

/-!
# A lock and its holder

Threads make calls of a routine that takes a lock on its way. `calls t` is where the call of `t`
stands, with the variables of the call, and `Inside` says which places are behind the lock.

**The invariant (`Guarded`).** The lock names the thread whose call is behind it, and each call knows
what its place says. So there is at most one call behind the lock (`Guarded.outside`).

**Moves.** A call moves outside the lock (`elsewhere`), or its holder takes it (`acquire`), moves
behind it (`inside`) and gives it back (`release`). Something else may move all calls at once, none
of them across the lock (`relocate`). What calls know may change with any of these: the mover has to
show it for its own call, and for the other calls only outside the lock if it holds the lock.

**What the holder carries (`hand`)** is read off its variables. The holder alone changes it.
-/

namespace Lock

variable {T P V β : Type*}

structure Guarded (Inside : P → Prop) (Knows : P → V → Prop) (owner : Option T)
    (calls : T → Option (P × V)) : Prop where
  lock : ∀ t, owner = some t ↔ ∃ pc v, calls t = some (pc, v) ∧ Inside pc
  knows : ∀ t pc v, calls t = some (pc, v) → Knows pc v

/-- What the holder of the lock carries; nothing, if the lock is free. -/
def hand (owner : Option T) (calls : T → Option (P × V)) (f : V → List β) : List β :=
  (owner.bind calls).elim [] fun r => f r.2

/-- Every call at its new place. -/
def relocate (g : P → P) (calls : T → Option (P × V)) (t : T) : Option (P × V) :=
  (calls t).map fun r => (g r.1, r.2)

variable {Inside : P → Prop} {Knows Knows' : P → V → Prop} {owner : Option T}
  {calls : T → Option (P × V)} {r : Option (P × V)} {t u : T} {pc pc' : P} {v v' : V}
  {f : V → List β}

/-! ## The holder -/

theorem guarded_none : Guarded Inside Knows none fun _ : T => none where
  lock t := by
    refine iff_of_false (by simp) ?_
    rintro ⟨pc, v, hat, -⟩
    cases hat
  knows t pc v hat := by cases hat

theorem Guarded.holder (h : Guarded Inside Knows owner calls) (hat : calls t = some (pc, v))
    (hin : Inside pc) : owner = some t :=
  (h.lock t).mpr ⟨pc, v, hat, hin⟩

/-- A call behind the lock is the only one there. -/
theorem Guarded.outside (h : Guarded Inside Knows owner calls) (hlock : owner = some u)
    (hne : t ≠ u) (hat : calls t = some (pc, v)) : ¬ Inside pc := by
  intro hin
  exact hne (Option.some.inj ((h.holder hat hin).symm.trans hlock))

theorem Guarded.outside_of_free (h : Guarded Inside Knows owner calls) (hfree : owner = none)
    (hat : calls t = some (pc, v)) : ¬ Inside pc := by
  intro hin
  rw [h.holder hat hin] at hfree
  cases hfree

theorem hand_eq (hlock : owner = some t) (hat : calls t = some (pc, v)) :
    hand owner calls f = f v := by
  rw [hand, hlock, Option.bind_some, hat]
  rfl

/-! ## One call moves -/

section Update

variable [DecidableEq T]

/-- What the calls know after one of them has moved. -/
theorem Guarded.knows_update (h : Guarded Inside Knows owner calls)
    (hmoved : ∀ pc v, r = some (pc, v) → Knows' pc v)
    (hothers : ∀ u pc v, u ≠ t → calls u = some (pc, v) → Knows pc v → Knows' pc v) (u : T) (pc : P)
    (v : V) (hat : Function.update calls t r u = some (pc, v)) : Knows' pc v := by
  by_cases hu : u = t
  · rw [hu, Function.update_self] at hat
    exact hmoved pc v hat
  · rw [Function.update_of_ne hu] at hat
    exact hothers u pc v hu hat (h.knows u pc v hat)

theorem Guarded.elsewhere (h : Guarded Inside Knows owner calls)
    (hbefore : ∀ pc v, calls t = some (pc, v) → ¬ Inside pc)
    (hafter : ∀ pc v, r = some (pc, v) → ¬ Inside pc ∧ Knows' pc v)
    (hothers : ∀ pc v, Knows pc v → Knows' pc v) :
    Guarded Inside Knows' owner (Function.update calls t r) where
  lock u := by
    refine (h.lock u).trans (exists_congr fun pc => exists_congr fun v => ?_)
    by_cases hu : u = t
    · rw [hu, Function.update_self]
      exact ⟨fun hat => absurd hat.2 (hbefore pc v hat.1),
        fun hat => absurd hat.2 (hafter pc v hat.1).1⟩
    · rw [Function.update_of_ne hu]
  knows := h.knows_update (fun pc v hat => (hafter pc v hat).2) fun _ pc v _ _ => hothers pc v

/-- The mover does not hold the lock, so what the holder carries stays. -/
theorem Guarded.hand_elsewhere (h : Guarded Inside Knows owner calls)
    (hbefore : ∀ pc v, calls t = some (pc, v) → ¬ Inside pc) :
    hand owner (Function.update calls t r) f = hand owner calls f := by
  cases howner : owner with
  | none => rfl
  | some u =>
    obtain ⟨pc, v, hat, hin⟩ := (h.lock u).mp howner
    have hu : u ≠ t := by
      rintro rfl
      exact hbefore pc v hat hin
    rw [hand_eq rfl hat, hand_eq rfl ((Function.update_of_ne hu r calls).trans hat)]

theorem hand_update : hand (some t) (Function.update calls t (some (pc, v))) f = f v :=
  hand_eq rfl (Function.update_self t (some (pc, v)) calls)

theorem Guarded.inside (h : Guarded Inside Knows owner calls) (hat : calls t = some (pc, v))
    (hin : Inside pc) (hin' : Inside pc') (hknows : Knows' pc' v')
    (hothers : ∀ pc v, Knows pc v → ¬ Inside pc → Knows' pc v) :
    Guarded Inside Knows' owner (Function.update calls t (some (pc', v'))) where
  lock u := by
    by_cases hu : u = t
    · rw [hu, Function.update_self]
      exact iff_of_true (h.holder hat hin) ⟨pc', v', rfl, hin'⟩
    · rw [Function.update_of_ne hu]
      exact h.lock u
  knows := by
    refine h.knows_update ?_ fun u pc v hu hat' hk => hothers pc v hk ?_
    · rintro pc v ⟨⟩
      exact hknows
    · exact h.outside (h.holder hat hin) hu hat'

theorem Guarded.acquire (h : Guarded Inside Knows owner calls) (hfree : owner = none)
    (hin : Inside pc) (hknows : Knows pc v) :
    Guarded Inside Knows (some t) (Function.update calls t (some (pc, v))) where
  lock u := by
    by_cases hu : u = t
    · rw [hu, Function.update_self]
      exact iff_of_true rfl ⟨pc, v, rfl, hin⟩
    · rw [Function.update_of_ne hu]
      refine iff_of_false (fun heq => hu (Option.some.inj heq).symm) ?_
      rintro ⟨pc₁, v₁, hat, hin₁⟩
      exact h.outside_of_free hfree hat hin₁
  knows := by
    refine h.knows_update ?_ fun _ _ _ _ _ hk => hk
    rintro pc v ⟨⟩
    exact hknows

theorem Guarded.release (h : Guarded Inside Knows owner calls) (hlock : owner = some t)
    (hafter : ∀ pc v, r = some (pc, v) → ¬ Inside pc ∧ Knows pc v) :
    Guarded Inside Knows none (Function.update calls t r) where
  lock u := by
    refine iff_of_false (by simp) ?_
    rintro ⟨pc, v, hat, hin⟩
    by_cases hu : u = t
    · rw [hu, Function.update_self] at hat
      exact (hafter pc v hat).1 hin
    · rw [Function.update_of_ne hu] at hat
      exact h.outside hlock hu hat hin
  knows := h.knows_update (fun pc v hat => (hafter pc v hat).2) fun _ _ _ _ _ hk => hk

/-- Some call owes something, and still does when one has moved. -/
theorem exists_update {Owes : P → V → Prop}
    (hkeep : ∀ pc v, calls t = some (pc, v) → Owes pc v →
      ∃ pc' v', r = some (pc', v') ∧ Owes pc' v')
    (h : ∃ u pc v, calls u = some (pc, v) ∧ Owes pc v) :
    ∃ u pc v, Function.update calls t r u = some (pc, v) ∧ Owes pc v := by
  obtain ⟨u, pc, v, hat, howes⟩ := h
  by_cases hu : u = t
  · rw [hu] at hat
    obtain ⟨pc', v', hr, howes'⟩ := hkeep pc v hat howes
    exact ⟨t, pc', v', by rw [Function.update_self, hr], howes'⟩
  · exact ⟨u, pc, v, by rw [Function.update_of_ne hu, hat], howes⟩

end Update

/-! ## All calls move -/

variable {g : P → P}

theorem relocate_eq_some :
    relocate g calls t = some (pc, v) ↔ ∃ pc₀, calls t = some (pc₀, v) ∧ g pc₀ = pc := by
  rw [relocate, Option.map_eq_some_iff]
  constructor
  · rintro ⟨⟨pc₀, v₀⟩, hat, heq⟩
    cases heq
    exact ⟨pc₀, hat, rfl⟩
  · rintro ⟨pc₀, hat, rfl⟩
    exact ⟨(pc₀, v), hat, rfl⟩

theorem Guarded.relocate (h : Guarded Inside Knows owner calls)
    (hin : ∀ pc, Inside (g pc) ↔ Inside pc) (hknows : ∀ pc v, Knows pc v → Knows' (g pc) v) :
    Guarded Inside Knows' owner (relocate g calls) where
  lock u := by
    refine (h.lock u).trans ⟨?_, ?_⟩
    · rintro ⟨pc, v, hat, hpc⟩
      exact ⟨g pc, v, relocate_eq_some.mpr ⟨pc, hat, rfl⟩, (hin pc).mpr hpc⟩
    · rintro ⟨pc, v, hat, hpc⟩
      obtain ⟨pc₀, hat₀, rfl⟩ := relocate_eq_some.mp hat
      exact ⟨pc₀, v, hat₀, (hin pc₀).mp hpc⟩
  knows u pc v hat := by
    obtain ⟨pc₀, hat₀, rfl⟩ := relocate_eq_some.mp hat
    exact hknows pc₀ v (h.knows u pc₀ v hat₀)

theorem hand_relocate : hand owner (relocate g calls) f = hand owner calls f := by
  cases owner with
  | none => rfl
  | some t =>
    show (relocate g calls t).elim [] _ = (calls t).elim [] _
    rw [relocate]
    cases calls t <;> rfl

end Lock
