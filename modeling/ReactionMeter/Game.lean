import Mathlib.Logic.Relation
import ReactionMeter.App

/-!
# The game and its record

The two `reaction_meter` tasks measure a response differently and keep the high score in the same
way. Here a task is what the record needs of it (`Task`): its place in the loop, reduced to a
`Stage`, and its variables.

`Plays` are the runs of a task in any environment: between two steps of the task everything may
change but its place and its variables, of which an interrupt service routine writes the
measurement port only. The list beside the state records the response times STOP was entered with.

`Deed` lists what a step of a task may do. `DoesDeeds.keepsRecord`: a task that does nothing else
keeps the record.
-/

namespace ReactionMeter

/-! ## The best of some scores -/

/-- The least score, or `UINT16_MAX` if there is none. -/
def best (scores : List ℕ) : ℕ := scores.foldr min uint16Max

theorem best_concat (scores : List ℕ) (r : ℕ) :
    best (scores ++ [r]) = min (best scores) r := by
  induction scores with
  | nil => exact Nat.min_comm r uint16Max
  | cons a scores ih =>
    show min a (best (scores ++ [r])) = min (min a (best scores)) r
    rw [ih, min_assoc]

theorem lt_best_iff {scores : List ℕ} {r : ℕ} :
    r < best scores ↔ r < uint16Max ∧ ∀ a ∈ scores, r < a := by
  induction scores with
  | nil => simp [best]
  | cons a scores ih =>
    show r < min a (best scores) ↔ _
    rw [lt_min_iff, ih, List.forall_mem_cons]
    exact and_left_comm

/-- Among scores below `UINT16_MAX`, the best is `UINT16_MAX` only if there is none. -/
theorem best_eq_max {scores : List ℕ} (h : ∀ a ∈ scores, a < uint16Max) :
    best scores = uint16Max ↔ scores = [] := by
  cases scores with
  | nil => simp [best]
  | cons a scores =>
    have hlt : best (a :: scores) < uint16Max :=
      (min_le_left a _).trans_lt (h a List.mem_cons_self)
    simp [hlt.ne]

/-! ## Tasks -/

/-- A place in the loop of a task: the head of IDLE, the rest of IDLE, the states of a round, the
head of STOP, and the loop in STOP with the flag `new_highscore`. -/
inductive Stage
  | home
  | shown
  | playing
  | judge
  | result (newHighscore : Bool)
  deriving DecidableEq, Repr

/-- In STOP. -/
def Stage.stops : Stage → Prop
  | .home | .shown | .playing => False
  | .judge | .result _ => True

/-- A `reaction_meter` task in a system with states `σ` and places `π`. -/
structure Task (σ π : Type) where
  boot : σ
  pc : σ → π
  vars : σ → Vars
  stage : π → Stage
  step : σ → σ → Prop

namespace Task

variable {σ π : Type} (T : Task σ π)

/-- The stage of a state. -/
def stageOf (s : σ) : Stage := T.stage (T.pc s)

/-- Anything that happens while the task makes no step. -/
def Others (s t : σ) : Prop :=
  T.pc t = T.pc s ∧ (T.vars t = T.vars s ∨ ∃ state, T.vars t = (T.vars s).measure state)

/-- The runs of the task, with the response times STOP was entered with. -/
inductive Plays : σ → List ℕ → Prop
  | boot : Plays T.boot []
  | others {s t : σ} {accepted : List ℕ} (h : Plays s accepted) (ho : T.Others s t) :
      Plays t accepted
  | step {s t : σ} {accepted : List ℕ} (h : Plays s accepted) (hs : T.step s t) :
      Plays t (if T.stageOf t = .judge then accepted ++ [(T.vars t).responseTime] else accepted)

/-- A step of the system that begins outside STOP. -/
def Outside (s t : σ) : Prop := (T.Others s t ∨ T.step s t) ∧ ¬ (T.stageOf s).stops

/-- The record is kept: on the home screen, by the threshold, through void rounds, and in what the
animation celebrates. -/
structure KeepsRecord : Prop where
  /-- In IDLE the high score is the best response that was accepted. -/
  home : ∀ s accepted, T.Plays s accepted → T.stageOf s = .home ∨ T.stageOf s = .shown →
    (T.vars s).highscore = best accepted
  /-- Past the head of IDLE the displays show it, or 0. -/
  shown : ∀ s accepted, T.Plays s accepted → T.stageOf s = .shown →
    (T.vars s).ports.score = if accepted = [] then 0 else best accepted
  /-- Nothing faster than the threshold is accepted. -/
  threshold : ∀ s accepted, T.Plays s accepted → ∀ a ∈ accepted, minRespTime ≤ a
  /-- As long as STOP is not entered the high score stays. -/
  void : ∀ s accepted, T.Plays s accepted → ∀ t, Relation.ReflTransGen T.Outside s t →
    (T.vars t).highscore = (T.vars s).highscore
  /-- `new_highscore` is set only for a response faster than all accepted before it. -/
  celebrates : ∀ s accepted, T.Plays s accepted → T.stageOf s = .result true →
    ∃ earlier, accepted = earlier ++ [(T.vars s).responseTime] ∧
      ∀ a ∈ earlier, (T.vars s).responseTime < a
  /-- Without it a visit to STOP leaves the LEDs alone. -/
  rotation : ∀ s accepted, T.Plays s accepted → ∀ t, T.step s t → (T.stageOf s).stops →
    T.stageOf s ≠ .result true →
    (T.vars t).leds = (T.vars s).leds ∧ (T.vars t).ports.leds = (T.vars s).ports.leds

end Task

/-! ## What a step may do -/

/-- What a step of a task may do to its stage and variables. -/
inductive Deed (v w : Vars) : Stage → Stage → Prop
  | home (hh : w.highscore = v.highscore)
      (hs : w.ports.score = if v.highscore ≠ uint16Max then v.highscore else 0) :
      Deed v w .home .shown
  | wait (hh : w.highscore = v.highscore) (hs : w.ports.score = v.ports.score) :
      Deed v w .shown .shown
  | start (hh : w.highscore = v.highscore) : Deed v w .shown .playing
  | play (hh : w.highscore = v.highscore) : Deed v w .playing .playing
  /-- A round that timed out, or whose response was too fast. -/
  | void (hh : w.highscore = v.highscore) : Deed v w .playing .home
  | accept (hh : w.highscore = v.highscore) (hmin : minRespTime ≤ w.responseTime)
      (hmax : w.responseTime < uint16Max) : Deed v w .playing .judge
  | judge (hh : w.highscore = min v.highscore v.responseTime)
      (hr : w.responseTime = v.responseTime) (hl : w.leds = v.leds)
      (hp : w.ports.leds = v.ports.leds) :
      Deed v w .judge (.result (decide (v.responseTime < v.highscore)))
  | rotate (hh : w.highscore = v.highscore) (hr : w.responseTime = v.responseTime) :
      Deed v w (.result true) (.result true)
  | hold {b : Bool} (hh : w.highscore = v.highscore) (hr : w.responseTime = v.responseTime)
      (hl : w.leds = v.leds) (hp : w.ports.leds = v.ports.leds) : Deed v w (.result b) (.result b)
  | again {b : Bool} (hh : w.highscore = v.highscore) (hl : w.leds = v.leds)
      (hp : w.ports.leds = v.ports.leds) : Deed v w (.result b) .home

variable {v w : Vars} {p q : Stage} {accepted : List ℕ}

theorem Deed.outside (h : Deed v w p q) (hp : ¬ p.stops) : w.highscore = v.highscore := by
  cases h with
  | home hh | wait hh | start hh | play hh | void hh | accept hh => exact hh
  | judge | rotate | hold | again => exact absurd trivial hp

theorem Deed.leds (h : Deed v w p q) (hp : p.stops) (hflag : p ≠ .result true) :
    w.leds = v.leds ∧ w.ports.leds = v.ports.leds := by
  cases h with
  | home | wait | start | play | void | accept => exact absurd hp id
  | judge _ _ hl hpl | hold _ _ hl hpl | again _ hl hpl => exact ⟨hl, hpl⟩
  | rotate => exact absurd rfl hflag

theorem Deed.enters (h : Deed v w p q) (hq : q.stops) : q = .judge ↔ ¬ p.stops := by
  cases h with
  | home | wait | start | play | void | again => exact absurd hq id
  | accept => simp [Stage.stops]
  | judge | rotate | hold => simp [Stage.stops]

/-! ## The record -/

/-- What a task knows of the responses accepted so far. -/
structure Record (p : Stage) (v : Vars) (accepted : List ℕ) : Prop where
  bounds : ∀ a ∈ accepted, minRespTime ≤ a ∧ a < uint16Max
  highscore : p ≠ .judge → v.highscore = best accepted
  shown : p = .shown → v.ports.score = if accepted = [] then 0 else best accepted
  /-- The last response is not in the high score yet. -/
  judge : p = .judge →
    ∃ earlier, accepted = earlier ++ [v.responseTime] ∧ v.highscore = best earlier
  result : ∀ b, p = .result b → ∃ earlier, accepted = earlier ++ [v.responseTime] ∧
    (b = true → ∀ a ∈ earlier, v.responseTime < a)

theorem record_boot : Record .home {} [] where
  bounds := by simp
  highscore := fun _ => rfl
  shown := by simp
  judge := by simp
  result := by simp

theorem Record.congr (h : Record p v accepted) (hh : w.highscore = v.highscore)
    (hr : w.responseTime = v.responseTime) (hs : w.ports.score = v.ports.score) :
    Record p w accepted where
  bounds := h.bounds
  highscore := by rw [hh]; exact h.highscore
  shown := by rw [hs]; exact h.shown
  judge := by rw [hh, hr]; exact h.judge
  result := by rw [hr]; exact h.result

/-- A stage that is neither the rest of IDLE nor in STOP needs the high score only. -/
theorem record_of_highscore (hb : ∀ a ∈ accepted, minRespTime ≤ a ∧ a < uint16Max)
    (hp : p = .home ∨ p = .playing) (hh : v.highscore = best accepted) : Record p v accepted := by
  rcases hp with rfl | rfl
  · exact ⟨hb, fun _ => hh, by simp, by simp, by simp⟩
  · exact ⟨hb, fun _ => hh, by simp, by simp, by simp⟩

/-- A deed keeps the record, an accepted response being added to it. -/
theorem Record.deed (h : Record p v accepted) (hd : Deed v w p q) :
    Record q w (if q = .judge then accepted ++ [w.responseTime] else accepted) := by
  have hb := h.bounds
  cases hd with
  | home hh hs =>
    have hbest : v.highscore = best accepted := h.highscore (by simp)
    refine ⟨hb, fun _ => hh.trans hbest, fun _ => ?_, by simp, by simp⟩
    have hmax := best_eq_max fun a ha => (hb a ha).2
    show w.ports.score = if accepted = [] then 0 else best accepted
    rw [hs, hbest]
    by_cases hnil : accepted = []
    · rw [if_pos hnil, if_neg (not_not.mpr (hmax.mpr hnil))]
    · rw [if_neg hnil, if_pos (mt hmax.mp hnil)]
  | wait hh hs =>
    refine ⟨hb, fun _ => hh.trans (h.highscore (by simp)), fun _ => ?_, by simp, by simp⟩
    exact hs.trans (h.shown rfl)
  | start hh | play hh =>
    have hbest := hh.trans (h.highscore (by simp))
    exact record_of_highscore hb (Or.inr rfl) hbest
  | void hh | again hh =>
    have hbest := hh.trans (h.highscore (by simp))
    exact record_of_highscore hb (Or.inl rfl) hbest
  | accept hh hmin hmax =>
    have hbest := hh.trans (h.highscore (by simp))
    refine ⟨?_, by simp, by simp, fun _ => ⟨accepted, rfl, hbest⟩, by simp⟩
    intro a ha
    rcases List.mem_append.mp ha with ha | ha
    · exact hb a ha
    · obtain rfl := List.mem_singleton.mp ha
      exact ⟨hmin, hmax⟩
  | judge hh hr =>
    obtain ⟨earlier, hacc, hbest⟩ := h.judge rfl
    refine ⟨hb, fun _ => ?_, by simp, by simp, fun b hflag => ⟨earlier, hr ▸ hacc, ?_⟩⟩
    · show w.highscore = best accepted
      rw [hh, hbest, hacc, best_concat]
    · rintro rfl
      have hflag : v.responseTime < v.highscore := by simpa using hflag
      rw [hr]
      exact (lt_best_iff.mp (hbest ▸ hflag)).2
  | rotate hh hr | hold hh hr =>
    refine ⟨hb, fun _ => hh.trans (h.highscore (by simp)), by simp, by simp, ?_⟩
    rw [hr]
    exact h.result

namespace Task

variable {σ π : Type} {T : Task σ π} {s t : σ}

/-- A task that starts at home and does nothing but deeds, at the places `good` allows. -/
structure DoesDeeds (T : Task σ π) (good : π → Prop) : Prop where
  boot : T.stageOf T.boot = .home ∧ T.vars T.boot = {}
  good_boot : good (T.pc T.boot)
  good_step : ∀ s t, good (T.pc s) → T.step s t → good (T.pc t)
  deed : ∀ s t, good (T.pc s) → T.step s t →
    Deed (T.vars s) (T.vars t) (T.stageOf s) (T.stageOf t)

variable {good : π → Prop}

theorem DoesDeeds.record (hT : T.DoesDeeds good) (h : T.Plays s accepted) :
    good (T.pc s) ∧ Record (T.stageOf s) (T.vars s) accepted := by
  induction h with
  | boot =>
    rw [hT.boot.1, hT.boot.2]
    exact ⟨hT.good_boot, record_boot⟩
  | @others s t accepted _ ho ih =>
    obtain ⟨hpc, hvars⟩ := ho
    have hat : T.stageOf t = T.stageOf s := congrArg T.stage hpc
    rw [hpc, hat]
    refine ⟨ih.1, ?_⟩
    rcases hvars with hvars | ⟨state, hvars⟩
    · rw [hvars]; exact ih.2
    · rw [hvars]; exact ih.2.congr rfl rfl rfl
  | @step s t accepted _ hs ih =>
    exact ⟨hT.good_step s t ih.1 hs, ih.2.deed (hT.deed s t ih.1 hs)⟩

/-- A task that does nothing but deeds keeps the record. -/
theorem DoesDeeds.keepsRecord (hT : T.DoesDeeds good) : T.KeepsRecord := by
  constructor
  case home =>
    intro s accepted h hidle
    refine (hT.record h).2.highscore fun hj => ?_
    rcases hidle with hidle | hidle
    · rw [hj] at hidle; cases hidle
    · rw [hj] at hidle; cases hidle
  case shown => exact fun s accepted h => (hT.record h).2.shown
  case threshold => exact fun s accepted h a ha => ((hT.record h).2.bounds a ha).1
  case void =>
    intro s accepted h t hst
    suffices hgo : (∃ accepted, T.Plays t accepted) ∧ (T.vars t).highscore = (T.vars s).highscore
      from hgo.2
    induction hst with
    | refl => exact ⟨⟨accepted, h⟩, rfl⟩
    | @tail t u _ hmove ih =>
      obtain ⟨⟨acc, ht⟩, hhigh⟩ := ih
      obtain ⟨ho | hs, hout⟩ := hmove
      · refine ⟨⟨acc, ht.others ho⟩, ?_⟩
        rcases ho.2 with hvars | ⟨state, hvars⟩
        · rw [hvars]; exact hhigh
        · rw [hvars]; exact hhigh
      · exact ⟨⟨_, ht.step hs⟩, ((hT.deed t u (hT.record ht).1 hs).outside hout).trans hhigh⟩
  case celebrates =>
    intro s accepted h hresult
    obtain ⟨earlier, hacc, hlt⟩ := (hT.record h).2.result true hresult
    exact ⟨earlier, hacc, hlt rfl⟩
  case rotation =>
    intro s accepted h t hs hstop hflag
    exact (hT.deed s t (hT.record h).1 hs).leds hstop hflag

end Task

end ReactionMeter
