import ReactionMeter.Ucos.System
import Mathlib.Data.Finset.Lattice.Fold
import Mathlib.Data.Fintype.Basic
import Mathlib.Order.Fin.Basic

/-!
# What the kernel is for

The kernel without its tables: each task has a status, each event a store of tokens or messages,
and the processor goes to the least ready task. What the kernel promises is stated here; that its
tables and counters keep the promise is `Ucos.Refine`.

A task whose time is over still gets what is posted to its event before it runs again.
-/

namespace ReactionMeter

namespace Ucos

/-- What a task is doing. Time left is in ticks; a wait with no time left to it has no end. -/
inductive Status
  | running
  | delayed (left : ℕ)
  | elapsed
  | waiting (e left : ℕ)
  | timedOut (e : ℕ)
  | handed (e : ℕ) (msg : Msg)
  deriving DecidableEq, Repr

namespace Status

/-- The task may have the processor. -/
def Ready : Status → Prop
  | .delayed _ | .waiting _ _ => False
  | _ => True

/-- The task gets what is posted to the event. -/
def WaitsFor (e : ℕ) : Status → Prop
  | .waiting e' _ | .timedOut e' => e' = e
  | _ => False

instance : DecidablePred Ready := fun st => by cases st <;> unfold Ready <;> infer_instance

instance (e : ℕ) : DecidablePred (WaitsFor e) := fun st => by
  cases st <;> unfold WaitsFor <;> infer_instance

def tick : Status → Status
  | .delayed n => if n = 1 then .elapsed else .delayed (n - 1)
  | .waiting e n => if n = 1 then .timedOut e else .waiting e (n - 1)
  | st => st

theorem Ready.tick_eq {st : Status} (h : st.Ready) : st.tick = st := by
  cases st with
  | delayed | waiting => exact h.elim
  | _ => rfl

theorem waitsFor_tick {e : ℕ} {st : Status} : st.tick.WaitsFor e ↔ st.WaitsFor e := by
  cases st with
  | delayed n => by_cases h : n = 1 <;> simp [tick, WaitsFor, h]
  | waiting e' n => by_cases h : n = 1 <;> simp [tick, WaitsFor, h]
  | _ => rfl

end Status

/-- What an event holds. A queue has a number of places and its messages, the oldest first. -/
inductive Store
  | sem (cnt : ℕ)
  | queue (size : ℕ) (msgs : List Msg)

inductive Kind
  | sem
  | queue
  deriving DecidableEq, Repr

namespace Store

def kind : Store → Kind
  | .sem _ => .sem
  | .queue _ _ => .queue

/-- What is taken out, and what is left. -/
def take : Store → Option (Msg × Store)
  | .sem 0 => none
  | .sem (n + 1) => some (0, .sem n)
  | .queue _ [] => none
  | .queue size (m :: ms) => some (m, .queue size ms)

/-- What is left when a message is put in, or why it is not. -/
def put (msg : Msg) : Store → Except Err Store
  | .sem n => if n < 65535 then .ok (.sem (n + 1)) else .error .semOvf
  | .queue size ms => if ms.length < size then .ok (.queue size (ms ++ [msg])) else .error .qFull

end Store

structure Spec where
  tasks : Finset Prio
  status : Prio → Status := fun _ => .running
  store : ℕ → Store
  cur : Prio
  nest : ℕ := 0
  time : ℕ := 0

namespace Spec

variable (a : Spec)

def ready : Finset Prio := a.tasks.filter fun p => (a.status p).Ready

def waiters (e : ℕ) : Finset Prio := a.tasks.filter fun p => (a.status p).WaitsFor e

/-- The ready task of highest priority. -/
def top : Prio := a.ready.inf id

/-- Outside of interrupts the ready task of highest priority has the processor. -/
def schedule : Spec := if a.nest = 0 then { a with cur := a.top } else a

def setStatus (p : Prio) (st : Status) : Spec := { a with status := Function.update a.status p st }

def setStore (e : ℕ) (st : Store) : Spec := { a with store := Function.update a.store e st }

/-- The waiting task of highest priority. -/
def receiver (e : ℕ) : Option Prio :=
  if (a.waiters e).Nonempty then some ((a.waiters e).inf id) else none

def InCode : Prop :=
  a.nest = 0 ∧ a.status a.cur = .running ∧ a.cur ≠ osTaskIdlePrio

instance : Decidable a.InCode := by unfold InCode; infer_instance

def MayPost : Prop := 0 < a.nest ∨ a.InCode

instance : Decidable a.MayPost := by unfold MayPost; infer_instance

/-- A post goes to a waiting task if there is one, and else into the store. -/
def post (kind : Kind) (e : ℕ) (msg : Msg) : Spec × Err :=
  if (a.store e).kind ≠ kind then (a, .eventType)
  else
    match a.receiver e with
    | some p => ((a.setStatus p (.handed e msg)).schedule, .none)
    | none =>
      match (a.store e).put msg with
      | .ok st => (a.setStore e st, .none)
      | .error err => (a, err)

/-- A pend takes from the store, and waits if there is nothing in it. -/
def pend (kind : Kind) (e timeout : ℕ) : Spec × Option (Msg × Err) :=
  if (a.store e).kind ≠ kind then (a, some (0, .eventType))
  else
    match (a.store e).take with
    | some (m, st) => (a.setStore e st, some (m, .none))
    | none => ((a.setStatus a.cur (.waiting e timeout)).schedule, none)

def semSet (e cnt : ℕ) : Spec × Err :=
  match a.store e with
  | .queue _ _ => (a, .eventType)
  | .sem old =>
    if 0 < old ∨ ¬ (a.waiters e).Nonempty then (a.setStore e (.sem cnt), .none)
    else (a, .taskWaiting)

def pendStep (kind : Kind) (e timeout : ℕ) : Spec × Out :=
  match a.pend kind e timeout with
  | (a', some (msg, err)) => (a', .pended a.cur e msg err)
  | (a', none) => (a', .silent)

def resume : Option (Spec × Out) :=
  match a.status a.cur with
  | .elapsed => some (a.setStatus a.cur .running, .silent)
  | .timedOut e => some (a.setStatus a.cur .running, .pended a.cur e 0 .timeout)
  | .handed e msg => some (a.setStatus a.cur .running, .pended a.cur e msg .none)
  | _ => none

def step (a : Spec) : Act → Option (Spec × Out)
  | .intEnter => some (if a.nest < 255 then { a with nest := a.nest + 1 } else a, .silent)
  | .intExit =>
    if 0 < a.nest then some ({ a with nest := a.nest - 1 }.schedule, .silent) else none
  | .timeTick =>
    if 0 < a.nest then
      some ({ a with time := a.time + 1, status := fun p => (a.status p).tick }, .silent)
    else none
  | .semPost e =>
    if a.MayPost then
      some ((a.post .sem e 0).1, .posted e 0 (a.receiver e) (a.post .sem e 0).2)
    else none
  | .qPost e msg =>
    if a.MayPost then
      some ((a.post .queue e msg).1, .posted e msg (a.receiver e) (a.post .queue e msg).2)
    else none
  | .semPend e timeout => if a.InCode then some (a.pendStep .sem e timeout) else none
  | .qPend e timeout => if a.InCode then some (a.pendStep .queue e timeout) else none
  | .semSet e cnt =>
    if a.InCode then some ((a.semSet e cnt).1, .set e cnt (a.semSet e cnt).2) else none
  | .timeDly ticks =>
    if a.InCode then
      if 0 < ticks then some ((a.setStatus a.cur (.delayed ticks)).schedule, .silent)
      else some (a, .silent)
    else none
  | .resume => if a.nest = 0 then a.resume else none

/-! ## The invariant -/

/-- The idle task is always there, and what a task waits for is not in the store. -/
structure Sound : Prop where
  idle_mem : osTaskIdlePrio ∈ a.tasks
  idle_running : a.status osTaskIdlePrio = .running
  left_pos : ∀ p n, a.status p = .delayed n → 0 < n
  waiting_empty : ∀ e p, p ∈ a.waiters e → (a.store e).take = none

/-- A ready task has the processor, the one of highest priority outside of interrupts. -/
structure Good : Prop extends Sound a where
  cur_ready : a.cur ∈ a.ready
  cur_top : a.nest = 0 → a.cur = a.top

variable {a} {p q : Prio} {e : ℕ} {st : Status}

theorem mem_ready : p ∈ a.ready ↔ p ∈ a.tasks ∧ (a.status p).Ready := Finset.mem_filter

theorem mem_waiters : p ∈ a.waiters e ↔ p ∈ a.tasks ∧ (a.status p).WaitsFor e :=
  Finset.mem_filter

/-- A filter by status, when the status of one task changes. -/
theorem filter_update {s : Finset Prio} (hp : p ∈ s) (P : Status → Prop) [DecidablePred P]
    (f : Prio → Status) :
    (s.filter fun q => P (Function.update f p st q)) =
      if P st then insert p (s.filter fun q => P (f q))
      else (s.filter fun q => P (f q)).erase p := by
  ext q
  by_cases hqp : q = p
  · subst hqp
    split_ifs with h <;> simp [hp, h]
  · split_ifs <;> simp [hqp]

theorem ready_setStatus (hp : p ∈ a.tasks) :
    (a.setStatus p st).ready = if st.Ready then insert p a.ready else a.ready.erase p :=
  filter_update hp Status.Ready a.status

theorem waiters_setStatus (hp : p ∈ a.tasks) :
    (a.setStatus p st).waiters e =
      if st.WaitsFor e then insert p (a.waiters e) else (a.waiters e).erase p :=
  filter_update hp (Status.WaitsFor e) a.status

theorem inf_mem {s : Finset Prio} (h : s.Nonempty) : s.inf id ∈ s := by
  obtain ⟨p, hp, heq⟩ := Finset.exists_mem_eq_inf s h id
  rwa [heq]

theorem pendStep_fst (kind : Kind) (e timeout : ℕ) :
    (a.pendStep kind e timeout).1 = (a.pend kind e timeout).1 := by
  unfold pendStep
  split <;> rename_i heq <;> rw [heq]

theorem receiver_mem (h : a.receiver e = some p) : p ∈ a.waiters e := by
  unfold receiver at h
  split_ifs at h with hne
  obtain rfl := Option.some.inj h
  exact inf_mem hne

theorem waiters_eq_empty (h : a.receiver e = none) : a.waiters e = ∅ := by
  unfold receiver at h
  split_ifs at h with hne
  exact Finset.not_nonempty_iff_eq_empty.mp hne

theorem Sound.ne_idle (h : a.Sound) (hp : p ∈ a.waiters e) : p ≠ osTaskIdlePrio := by
  rintro rfl
  have hw := (mem_waiters.mp hp).2
  rw [h.idle_running] at hw
  exact hw

theorem Sound.idle_ready (h : a.Sound) : osTaskIdlePrio ∈ a.ready :=
  mem_ready.mpr ⟨h.idle_mem, by rw [h.idle_running]; trivial⟩

theorem Sound.waiters_eq_empty (h : a.Sound) (htake : (a.store e).take ≠ none) :
    a.waiters e = ∅ := by
  refine Finset.eq_empty_of_forall_notMem fun p hp => ?_
  exact htake (h.waiting_empty e p hp)

theorem Sound.setStatus (h : a.Sound) (hp : p ≠ osTaskIdlePrio)
    (hpos : ∀ n, st = .delayed n → 0 < n)
    (hempty : ∀ e, st.WaitsFor e → (a.store e).take = none) : (a.setStatus p st).Sound where
  idle_mem := h.idle_mem
  idle_running := by
    show Function.update _ _ _ _ = _
    rw [Function.update_of_ne hp.symm, h.idle_running]
  left_pos q n hq := by
    by_cases hqp : q = p
    · subst hqp
      exact hpos n (by simpa [Spec.setStatus] using hq)
    · exact h.left_pos q n (by simpa [Spec.setStatus, hqp] using hq)
  waiting_empty e q hq := by
    obtain ⟨htask, hw⟩ := mem_waiters.mp hq
    by_cases hqp : q = p
    · subst hqp
      exact hempty e (by simpa [Spec.setStatus] using hw)
    · exact h.waiting_empty e q (mem_waiters.mpr
        ⟨htask, by simpa [Spec.setStatus, hqp] using hw⟩)

theorem Sound.setStore (h : a.Sound) (he : a.waiters e = ∅) (store : Store) :
    (a.setStore e store).Sound where
  idle_mem := h.idle_mem
  idle_running := h.idle_running
  left_pos := h.left_pos
  waiting_empty e' p hp := by
    have hp' : p ∈ a.waiters e' := hp
    by_cases hee : e' = e
    · subst hee
      rw [he] at hp'
      cases hp'
    · show (Function.update a.store e store e').take = none
      rw [Function.update_of_ne hee]
      exact h.waiting_empty e' p hp'

theorem Sound.good_schedule (h : a.Sound) (hcur : a.nest ≠ 0 → a.cur ∈ a.ready) :
    a.schedule.Good := by
  unfold schedule
  split_ifs with hnest
  · exact
      { idle_mem := h.idle_mem
        idle_running := h.idle_running
        left_pos := h.left_pos
        waiting_empty := h.waiting_empty
        cur_ready := inf_mem ⟨_, h.idle_ready⟩
        cur_top := fun _ => rfl }
  · exact ⟨h, hcur hnest, fun h0 => absurd h0 hnest⟩

theorem Good.setStore (h : a.Good) (he : a.waiters e = ∅) (store : Store) :
    (a.setStore e store).Good :=
  ⟨h.toSound.setStore he store, h.cur_ready, h.cur_top⟩

theorem Good.post (h : a.Good) (kind : Kind) (e : ℕ) (msg : Msg) :
    (a.post kind e msg).1.Good := by
  unfold Spec.post
  split_ifs with hk
  · exact h
  · cases hr : a.receiver e with
    | none =>
      cases (a.store e).put msg with
      | ok st => exact h.setStore (Spec.waiters_eq_empty hr) st
      | error err => exact h
    | some p =>
      have hp := receiver_mem hr
      refine (h.toSound.setStatus (h.ne_idle hp) (fun n hn => by cases hn) ?_).good_schedule
        fun _ => ?_
      · exact fun e he => False.elim he
      -- the task that is interrupted stays ready, also when it is the receiver
      obtain ⟨htask, hready⟩ := mem_ready.mp h.cur_ready
      refine mem_ready.mpr ⟨htask, ?_⟩
      by_cases hcp : a.cur = p
      · simp [Spec.setStatus, hcp, Status.Ready]
      · simpa [Spec.setStatus, hcp] using hready

theorem Good.pend (h : a.Good) (hin : a.InCode) (kind : Kind) (e timeout : ℕ) :
    (a.pend kind e timeout).1.Good := by
  unfold Spec.pend
  split_ifs with hk
  · exact h
  · cases ht : (a.store e).take with
    | some r => exact h.setStore (h.waiters_eq_empty (by rw [ht]; simp)) r.2
    | none =>
      refine (h.toSound.setStatus hin.2.2 (fun n hn => by cases hn) ?_).good_schedule
        fun hn => absurd hin.1 hn
      intro e' he'
      rw [show e' = e from Eq.symm he']
      exact ht

theorem Good.semSet (h : a.Good) (e cnt : ℕ) : (a.semSet e cnt).1.Good := by
  unfold Spec.semSet
  cases hs : a.store e with
  | queue => exact h
  | sem old =>
    dsimp only
    split_ifs with hc
    · refine h.setStore ?_ _
      rcases hc with hpos | hw
      · refine h.waiters_eq_empty ?_
        obtain ⟨n, rfl⟩ : ∃ n, old = n + 1 := ⟨old - 1, by omega⟩
        rw [hs]
        simp [Store.take]
      · exact Finset.not_nonempty_iff_eq_empty.mp hw
    · exact h

theorem Good.setRunning (h : a.Good) : (a.setStatus a.cur .running).Good := by
  have hready : (a.setStatus a.cur .running).ready = a.ready := by
    ext q
    rw [mem_ready, mem_ready]
    by_cases hq : q = a.cur
    · subst hq
      have hcur := (mem_ready.mp h.cur_ready).2
      simp [Spec.setStatus, Status.Ready] at hcur ⊢
      exact fun _ => hcur
    · simp [Spec.setStatus, hq]
  refine ⟨?_, by rw [hready]; exact h.cur_ready, fun hn => ?_⟩
  · by_cases hidle : a.cur = osTaskIdlePrio
    · have hself : Function.update a.status a.cur .running = a.status := by
        rw [hidle, ← h.idle_running, Function.update_eq_self]
      rw [Spec.setStatus, hself]
      exact h.toSound
    · exact h.toSound.setStatus hidle (fun n hn => by cases hn) fun e he => False.elim he
  · show a.cur = (a.setStatus a.cur .running).ready.inf id
    rw [hready]
    exact h.cur_top hn

theorem Good.timeTick (h : a.Good) (hnest : 0 < a.nest) (time : ℕ) :
    Good { a with time := time, status := fun p => (a.status p).tick } where
  idle_mem := h.idle_mem
  idle_running := by simp [h.idle_running, Status.tick]
  left_pos p n hp := by
    have hp' : (a.status p).tick = .delayed n := hp
    cases hst : a.status p with
    | delayed m =>
      have hm := h.left_pos p m hst
      rw [hst] at hp'
      by_cases h1 : m = 1
      · simp [Status.tick, h1] at hp'
      · simp [Status.tick, h1] at hp'
        omega
    | waiting e m =>
      rw [hst] at hp'
      by_cases h1 : m = 1 <;> simp [Status.tick, h1] at hp'
    | running | elapsed | timedOut | handed =>
      rw [hst] at hp'
      cases hp'
  waiting_empty e p hp := by
    obtain ⟨htask, hw⟩ := mem_waiters.mp hp
    exact h.waiting_empty e p (mem_waiters.mpr ⟨htask, Status.waitsFor_tick.mp hw⟩)
  cur_ready := by
    obtain ⟨htask, hready⟩ := mem_ready.mp h.cur_ready
    refine mem_ready.mpr ⟨htask, ?_⟩
    show (a.status a.cur).tick.Ready
    rwa [hready.tick_eq]
  cur_top h0 := absurd h0 hnest.ne'

/-- Every step keeps the invariant. -/
theorem Good.step {b : Spec} {act : Act} {o : Out} (h : a.Good) (hs : a.step act = some (b, o)) :
    b.Good := by
  cases act with
  | intEnter =>
    cases hs
    split_ifs
    · exact ⟨⟨h.idle_mem, h.idle_running, h.left_pos, h.waiting_empty⟩, h.cur_ready,
        fun h0 => absurd h0 (Nat.succ_ne_zero _)⟩
    · exact h
  | intExit =>
    simp only [Spec.step] at hs
    split_ifs at hs
    cases hs
    exact Sound.good_schedule ⟨h.idle_mem, h.idle_running, h.left_pos, h.waiting_empty⟩
      fun _ => h.cur_ready
  | timeTick =>
    simp only [Spec.step] at hs
    split_ifs at hs with hn
    cases hs
    exact h.timeTick hn _
  | semPost e =>
    simp only [Spec.step] at hs
    split_ifs at hs
    cases hs
    exact h.post _ _ _
  | qPost e msg =>
    simp only [Spec.step] at hs
    split_ifs at hs
    cases hs
    exact h.post _ _ _
  | semPend e timeout | qPend e timeout =>
    simp only [Spec.step] at hs
    split_ifs at hs with hin
    obtain rfl : (a.pendStep _ e timeout).1 = b := congrArg Prod.fst (Option.some.inj hs)
    rw [pendStep_fst]
    exact h.pend hin _ e timeout
  | semSet e cnt =>
    simp only [Spec.step] at hs
    split_ifs at hs
    cases hs
    exact h.semSet e cnt
  | timeDly ticks =>
    simp only [Spec.step] at hs
    split_ifs at hs with hin ht
    · cases hs
      refine (h.toSound.setStatus hin.2.2 ?_ ?_).good_schedule fun hn => absurd hin.1 hn
      · rintro n ⟨⟩
        exact ht
      · exact fun e he => False.elim he
    · cases hs
      exact h
  | resume =>
    simp only [Spec.step] at hs
    split_ifs at hs
    unfold Spec.resume at hs
    split at hs <;> cases hs <;> exact h.setRunning

/-! ## The tasks there are -/

@[simp] theorem schedule_tasks (a : Spec) : a.schedule.tasks = a.tasks := by
  unfold schedule
  split_ifs <;> rfl

@[simp] theorem schedule_status (a : Spec) : a.schedule.status = a.status := by
  unfold schedule
  split_ifs <;> rfl

@[simp] theorem schedule_time (a : Spec) : a.schedule.time = a.time := by
  unfold schedule
  split_ifs <;> rfl

@[simp] theorem schedule_store (a : Spec) : a.schedule.store = a.store := by
  unfold schedule
  split_ifs <;> rfl

theorem setStatus_self (a : Spec) (p : Prio) (st : Status) : (a.setStatus p st).status p = st :=
  Function.update_self _ _ _

theorem setStatus_of_ne (a : Spec) {p q : Prio} (h : q ≠ p) (st : Status) :
    (a.setStatus p st).status q = a.status q :=
  Function.update_of_ne h _ _

@[simp] theorem setStore_status (a : Spec) (e : ℕ) (st : Store) :
    (a.setStore e st).status = a.status := rfl

/-! ## What a step can do -/

/-- The output of a step that moves nothing. -/
def Idle (a : Spec) : Out → Prop
  | .silent => True
  | .posted _ _ _ err | .set _ _ err => err ≠ .none
  | .pended p _ _ err => p = a.cur ∧ err ≠ .none

/-- What a step of `a` does to the tasks, the stores and the time. -/
inductive Change (a : Spec) (act : Act) : Out → (Prio → Status) → (ℕ → Store) → ℕ → Prop
  | idle {o : Out} (ho : a.Idle o) (hact : act ≠ .timeTick) :
    Change a act o a.status a.store a.time
  | tick (hact : act = .timeTick) :
    Change a act .silent (fun p => (a.status p).tick) a.store (a.time + 1)
  | wait {e n : ℕ} (hact : act.event = some e) (hin : a.InCode)
    (hempty : (a.store e).take = none) :
    Change a act .silent (Function.update a.status a.cur (.waiting e n)) a.store a.time
  | delay {n : ℕ} (hact : act = .timeDly n) (hin : a.InCode) (hpos : 0 < n) :
    Change a act .silent (Function.update a.status a.cur (.delayed n)) a.store a.time
  | handed {e : ℕ} {msg : Msg} {p : Prio} (hact : act.event = some e)
    (hp : a.receiver e = some p) :
    Change a act (.posted e msg (some p) .none) (Function.update a.status p (.handed e msg))
      a.store a.time
  | stored {e : ℕ} {msg : Msg} {st : Store} (hact : act.event = some e)
    (hput : (a.store e).put msg = .ok st) (hmsg : (a.store e).kind = .sem → msg = 0) :
    Change a act (.posted e msg none .none) a.status (Function.update a.store e st) a.time
  | taken {e : ℕ} {msg : Msg} {st : Store} (hact : act.event = some e) (hin : a.InCode)
    (htake : (a.store e).take = some (msg, st)) :
    Change a act (.pended a.cur e msg .none) a.status (Function.update a.store e st) a.time
  | elapsed (hact : act = .resume) (hst : a.status a.cur = .elapsed) :
    Change a act .silent (Function.update a.status a.cur .running) a.store a.time
  | timedOut {e : ℕ} (hact : act = .resume) (hst : a.status a.cur = .timedOut e) :
    Change a act (.pended a.cur e 0 .timeout) (Function.update a.status a.cur .running) a.store
      a.time
  | returned {e : ℕ} {msg : Msg} (hact : act = .resume) (hst : a.status a.cur = .handed e msg) :
    Change a act (.pended a.cur e msg .none) (Function.update a.status a.cur .running) a.store
      a.time
  | set {e cnt : ℕ} (hact : act.event = some e) :
    Change a act (.set e cnt .none) a.status (Function.update a.store e (.sem cnt)) a.time

theorem ne_timeTick {act : Act} {e : ℕ} (h : act.event = some e) : act ≠ .timeTick := by
  rintro rfl
  cases h

theorem Store.put_ne_none {store : Store} {msg : Msg} {err : Err}
    (h : store.put msg = .error err) : err ≠ .none := by
  cases store with
  | sem n =>
    simp only [Ucos.Store.put] at h
    split_ifs at h
    cases h
    simp
  | queue size msgs =>
    simp only [Ucos.Store.put] at h
    split_ifs at h
    cases h
    simp

theorem post_change {act : Act} {kind : Kind} {e : ℕ} {msg : Msg} (hact : act.event = some e)
    (hmsg : kind = .sem → msg = 0) :
    (a.post kind e msg).1.tasks = a.tasks ∧ (a.post kind e msg).1.time = a.time ∧
      Change a act (.posted e msg (a.receiver e) (a.post kind e msg).2)
        (a.post kind e msg).1.status (a.post kind e msg).1.store (a.post kind e msg).1.time := by
  unfold Spec.post
  split_ifs with hk
  · exact ⟨rfl, rfl, .idle (by simp [Idle]) (ne_timeTick hact)⟩
  · cases hr : a.receiver e with
    | some p =>
      dsimp only
      rw [schedule_tasks, schedule_time, schedule_status, schedule_store]
      exact ⟨rfl, rfl, .handed hact hr⟩
    | none =>
      dsimp only
      cases hput : (a.store e).put msg with
      | ok st =>
        rw [ne_eq, not_not] at hk
        exact ⟨rfl, rfl, .stored hact hput (by rwa [hk])⟩
      | error err => exact ⟨rfl, rfl, .idle (Store.put_ne_none hput) (ne_timeTick hact)⟩

theorem pendStep_change {act : Act} {kind : Kind} {e timeout : ℕ} {b : Spec} {o : Out}
    (hact : act.event = some e) (hin : a.InCode) (hs : a.pendStep kind e timeout = (b, o)) :
    b.tasks = a.tasks ∧ b.time = a.time ∧ Change a act o b.status b.store b.time := by
  obtain ⟨rfl, rfl⟩ : (a.pendStep kind e timeout).1 = b ∧ (a.pendStep kind e timeout).2 = o := by
    rw [hs]
    exact ⟨rfl, rfl⟩
  unfold Spec.pendStep Spec.pend
  split_ifs with hk
  · exact ⟨rfl, rfl, .idle (by simp [Idle]) (ne_timeTick hact)⟩
  · cases ht : (a.store e).take with
    | some r => exact ⟨rfl, rfl, .taken hact hin ht⟩
    | none =>
      dsimp only
      rw [schedule_tasks, schedule_time, schedule_status, schedule_store]
      exact ⟨rfl, rfl, .wait hact hin ht⟩

theorem semSet_change {act : Act} {e : ℕ} (cnt : ℕ) (hact : act.event = some e) :
    (a.semSet e cnt).1.tasks = a.tasks ∧ (a.semSet e cnt).1.time = a.time ∧
      Change a act (.set e cnt (a.semSet e cnt).2) (a.semSet e cnt).1.status
        (a.semSet e cnt).1.store (a.semSet e cnt).1.time := by
  unfold Spec.semSet
  cases a.store e with
  | queue => exact ⟨rfl, rfl, .idle (by simp [Idle]) (ne_timeTick hact)⟩
  | sem old =>
    dsimp only
    split_ifs
    · exact ⟨rfl, rfl, .set hact⟩
    · exact ⟨rfl, rfl, .idle (by simp [Idle]) (ne_timeTick hact)⟩

/-- Everything a step can do. -/
theorem step_change {b : Spec} {act : Act} {o : Out} (hs : a.step act = some (b, o)) :
    b.tasks = a.tasks ∧ b.time = a.time + (if act = .timeTick then 1 else 0) ∧
      Change a act o b.status b.store b.time := by
  cases act with
  | intEnter =>
    cases hs
    by_cases h255 : a.nest < 255
    · rw [if_pos h255]
      exact ⟨rfl, rfl, .idle trivial (by simp)⟩
    · rw [if_neg h255]
      exact ⟨rfl, rfl, .idle trivial (by simp)⟩
  | intExit =>
    simp only [Spec.step] at hs
    split_ifs at hs
    cases hs
    rw [schedule_tasks, schedule_time, schedule_status, schedule_store]
    exact ⟨rfl, rfl, .idle trivial (by simp)⟩
  | timeTick =>
    simp only [Spec.step] at hs
    split_ifs at hs
    cases hs
    exact ⟨rfl, rfl, .tick rfl⟩
  | semPost e =>
    simp only [Spec.step] at hs
    split_ifs at hs
    cases hs
    exact post_change rfl fun _ => rfl
  | qPost e msg =>
    simp only [Spec.step] at hs
    split_ifs at hs
    cases hs
    exact post_change rfl fun h => by cases h
  | semPend e timeout | qPend e timeout =>
    simp only [Spec.step] at hs
    split_ifs at hs with hin
    exact pendStep_change rfl hin (Option.some.inj hs)
  | semSet e cnt =>
    simp only [Spec.step] at hs
    split_ifs at hs
    cases hs
    exact semSet_change cnt rfl
  | timeDly ticks =>
    simp only [Spec.step] at hs
    split_ifs at hs with hin ht
    · cases hs
      rw [schedule_tasks, schedule_time, schedule_status, schedule_store]
      exact ⟨rfl, rfl, .delay rfl hin ht⟩
    · cases hs
      exact ⟨rfl, rfl, .idle trivial (by simp)⟩
  | resume =>
    simp only [Spec.step] at hs
    split_ifs at hs
    unfold Spec.resume at hs
    cases hst : a.status a.cur with
    | elapsed =>
      rw [hst] at hs
      cases hs
      exact ⟨rfl, rfl, .elapsed rfl hst⟩
    | timedOut e =>
      rw [hst] at hs
      cases hs
      exact ⟨rfl, rfl, .timedOut rfl hst⟩
    | handed e msg =>
      rw [hst] at hs
      cases hs
      exact ⟨rfl, rfl, .returned rfl hst⟩
    | running | delayed | waiting =>
      rw [hst] at hs
      cases hs

end Spec

end Ucos

end ReactionMeter
