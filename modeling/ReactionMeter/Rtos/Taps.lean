import ReactionMeter.Lib.Machine
import ReactionMeter.Rtos.Scores

/-!
# Taps the task should not hear

Two runs side by side: `base`, and `ext` with additional taps. The runs share every event, and a
tap is a press (the line goes low and the interrupt is served) and a release, with the task in one
piece of IDLE, START or DELAY for `RESP_KEY`, and of DELAY, COUNT or STOP for `START_KEY`.

The task does not look at the level of a key there, but `button_isr` posts all the same, and the
token stays. `taps_unheard_iff` says exactly when the two runs go through the same states: as long
as, whenever the task pends on a semaphore that is empty without the taps, the taps have left no
token in it (`Harmless`). The only place that takes such a token away is the `OSSemSet` of the
cheat prevention; without it a tap in IDLE voids the next round (`tap_voids_round`).
-/

namespace ReactionMeter

namespace Rtos

/-- The two runs, and the keys of `ext` that are down in a tap. -/
structure Pair where
  base : Sys := {}
  ext : Sys := {}
  taps : BitVec 4 := 0#4
  deriving DecidableEq, Repr

/-- An event of both runs, or half of an additional tap. -/
inductive TapEvent
  | both (e : Event)
  | press (k : Key)
  | release (k : Key)
  deriving DecidableEq, Repr

def TaskPc.inDelayWait : TaskPc → Prop
  | .delayWait _ _ => True
  | _ => False

instance (pc : TaskPc) : Decidable pc.inDelayWait := by
  cases pc <;> unfold TaskPc.inDelayWait <;> infer_instance

/-- A step from `pc` to `pc'` stays in one piece of the run in which a tap of the key may lie. -/
def Inside (pc pc' : TaskPc) : Key → Prop
  | .resp => (pc'.state = pc.state ∧ (pc.state = .idle ∨ pc.state = .start)) ∨
      (pc' = pc ∧ pc.inDelayWait)
  | .start => pc'.state = pc.state ∧ (pc.state = .delay ∨ pc.state = .count ∨ pc.state = .stop)

instance (pc pc' : TaskPc) (k : Key) : Decidable (Inside pc pc' k) := by
  cases k <;> unfold Inside <;> infer_instance

/-- If the task pends on a semaphore that is empty in `b`, the semaphore is empty in `e`. -/
def Agree (b e : Sys) : Prop :=
  match b.pc with
  | .ready => b.startSem = [] → e.startSem = []
  | .pendStop _ _ => b.stopSem = [] → e.stopSem = []
  | _ => True

instance (b e : Sys) : Decidable (Agree b e) := by
  unfold Agree; cases b.pc <;> infer_instance

namespace Pair

/-- The key is down in a tap. -/
def Open (p : Pair) (k : Key) : Prop := p.taps &&& k.pin ≠ 0#4

instance (p : Pair) (k : Key) : Decidable (p.Open k) := by unfold Open; infer_instance

/-- An event as `ext` sees it: the lines of the tapped keys stay low. -/
def masked (taps : BitVec 4) : Event → Event
  | .pins data => .pins (data &&& ~~~taps)
  | e => e

/-- Nobody else touches the tapped keys. -/
def Free (taps : BitVec 4) : Event → Prop
  | .pins data => data &&& taps = taps
  | _ => True

instance (taps : BitVec 4) (e : Event) : Decidable (Free taps e) := by
  cases e <;> unfold Free <;> infer_instance

variable (rand : ℕ → ℕ)

def step (p : Pair) : TapEvent → Option Pair
  | .both e =>
    let ext := p.ext.step rand (masked p.taps e)
    if Free p.taps e ∧ (p.Open .start → Inside p.ext.pc ext.pc .start) ∧
        (p.Open .resp → Inside p.ext.pc ext.pc .resp) then
      some { p with base := p.base.step rand e, ext := ext }
    else none
  | .press k =>
    if ¬ p.Open k ∧ ¬ pressed p.ext.data k ∧ Inside p.ext.pc p.ext.pc k then
      some { p with
        ext := (p.ext.step rand (.pins (p.ext.data &&& ~~~k.pin))).step rand (.isr k.pin)
        taps := p.taps ||| k.pin }
    else none
  | .release k =>
    if p.Open k then
      some { p with
        ext := p.ext.step rand (.pins (p.ext.data ||| k.pin))
        taps := p.taps &&& ~~~k.pin }
    else none

/-- When the task runs, the taps have left no token where it pends on an empty semaphore. -/
def Harmless (p : Pair) : TapEvent → Prop
  | .both .task => Agree p.base p.ext
  | _ => True

instance (p : Pair) (a : TapEvent) : Decidable (p.Harmless a) := by
  unfold Harmless; split <;> infer_instance

/-- The events of `base`. -/
def baseEvents (r : List TapEvent) : List Event :=
  r.filterMap fun
    | .both e => some e
    | _ => none

variable {rand}

theorem base_after {r : List TapEvent} {p q : Pair}
    (h : Machine.exec (step rand) p r = some q) :
    q.base = (baseEvents r).foldl (Sys.step rand) p.base := by
  induction r generalizing p with
  | nil => cases h; rfl
  | cons a r ih =>
    obtain ⟨t, ht, h⟩ := Option.bind_eq_some_iff.mp h
    rw [ih h]
    cases a with
    | both e | press k | release k =>
      simp only [step] at ht
      split_ifs at ht
      rw [← Option.some.inj ht]
      rfl

theorem ext_after {r : List TapEvent} {p q : Pair}
    (h : Machine.exec (step rand) p r = some q) :
    ∃ es : List Event, q.ext = es.foldl (Sys.step rand) p.ext := by
  induction r generalizing p with
  | nil => cases h; exact ⟨[], rfl⟩
  | cons a r ih =>
    obtain ⟨t, ht, h⟩ := Option.bind_eq_some_iff.mp h
    obtain ⟨es, hes⟩ := ih h
    cases a with
    | both e =>
      simp only [step] at ht
      split_ifs at ht
      exact ⟨masked p.taps e :: es, by rw [hes, ← Option.some.inj ht]; rfl⟩
    | press k =>
      simp only [step] at ht
      split_ifs at ht
      exact ⟨.pins (p.ext.data &&& ~~~k.pin) :: .isr k.pin :: es, by
        rw [hes, ← Option.some.inj ht]; rfl⟩
    | release k =>
      simp only [step] at ht
      split_ifs at ht
      exact ⟨.pins (p.ext.data ||| k.pin) :: es, by rw [hes, ← Option.some.inj ht]; rfl⟩

/-! ## Lockstep -/

end Pair

/-- Two systems that differ in the tapped keys and in surplus tokens. -/
structure Sync (taps : BitVec 4) (b e : Sys) : Prop where
  pc : e.pc = b.pc
  vars : e.vars = b.vars
  queue : e.queue = b.queue
  now : e.now = b.now
  visits : e.visits = b.visits
  startSem : b.startSem.length ≤ e.startSem.length
  stopSem : b.stopSem.length ≤ e.stopSem.length
  data : e.data = b.data &&& ~~~taps
  up : b.data &&& taps = taps

theorem pressed_masked (data taps : BitVec 4) {k : Key} :
    taps &&& k.pin = 0#4 → (pressed (data &&& ~~~taps) k ↔ pressed data k) := by
  cases k <;> revert data taps <;> decide +kernel

/-- The levels the next step of the task reads are not those of tapped keys. -/
def Unread (taps : BitVec 4) (pc : TaskPc) : Prop :=
  ∀ k : Key, taps &&& k.pin ≠ 0#4 → Inside pc pc k

theorem Unread.start {taps : BitVec 4} (h : Unread taps .pollStart) :
    taps &&& Key.start.pin = 0#4 := by
  by_contra hne
  obtain ⟨-, hs | hs | hs⟩ := h .start hne <;> cases hs

theorem Unread.resp {taps : BitVec 4} {pc : TaskPc} (h : Unread taps pc)
    (hpc : (∃ d, pc = .cheatCheck d) ∨ ∃ b, pc = .pollStop b) : taps &&& Key.resp.pin = 0#4 := by
  by_contra hne
  rcases hpc with ⟨d, rfl⟩ | ⟨b, rfl⟩ <;>
    rcases h .resp hne with ⟨-, hs | hs⟩ | ⟨-, hs⟩ <;> cases hs

variable {rand : ℕ → ℕ} {taps : BitVec 4} {b e : Sys}

/-- A step of the task keeps the systems in step. -/
theorem Sync.task (h : Sync taps b e) (hread : Unread taps b.pc) (hagree : Agree b e) :
    Sync taps ((b.taskStep rand).getD b) ((e.taskStep rand).getD e) := by
  obtain ⟨data, startB, stopB, queue, now, pc, vars, evB, enB, toB, tkB, visits⟩ := b
  obtain ⟨data', startE, stopE, queue', now', pc', vars', evE, enE, toE, tkE, visits'⟩ := e
  obtain ⟨hpc, hvars, hqueue, hnow, hvisits, hstart, hstop, hdata, hup⟩ := h
  simp only at hpc hvars hqueue hnow hvisits hstart hstop hdata hup hread hagree
  subst hpc hvars hqueue hnow hvisits hdata
  cases pc' with
  | idle =>
    simp only [Sys.taskStep]
    split_ifs <;> exact ⟨rfl, rfl, rfl, rfl, rfl, hstart, hstop, rfl, hup⟩
  | register | waitStart _ | delayWait _ _ | count _ | waitStop _ _ =>
    simp only [Sys.taskStep]
    split_ifs <;> exact ⟨rfl, rfl, rfl, rfl, rfl, hstart, hstop, rfl, hup⟩
  | start | delay | stop => exact ⟨rfl, rfl, rfl, rfl, rfl, hstart, hstop, rfl, hup⟩
  | pollStart =>
    simp only [Sys.taskStep, pressed_masked data taps hread.start]
    split_ifs <;> exact ⟨rfl, rfl, rfl, rfl, rfl, hstart, hstop, rfl, hup⟩
  | cheatCheck d =>
    simp only [Sys.taskStep, pressed_masked data taps (hread.resp (Or.inl ⟨d, rfl⟩))]
    split_ifs
    · exact ⟨rfl, rfl, rfl, rfl, rfl, hstart, le_rfl, rfl, hup⟩
    · exact ⟨rfl, rfl, rfl, rfl, rfl, hstart, hstop, rfl, hup⟩
  | pollStop nh =>
    simp only [Sys.taskStep, pressed_masked data taps (hread.resp (Or.inr ⟨nh, rfl⟩))]
    split_ifs <;> exact ⟨rfl, rfl, rfl, rfl, rfl, hstart, hstop, rfl, hup⟩
  | ready =>
    cases startB with
    | nil =>
      obtain rfl : startE = [] := hagree rfl
      exact ⟨rfl, rfl, rfl, rfl, rfl, le_rfl, hstop, rfl, hup⟩
    | cons k ts =>
      cases startE with
      | nil => cases hstart
      | cons k' ts' =>
        exact ⟨rfl, rfl, rfl, rfl, rfl, Nat.le_of_succ_le_succ hstart, hstop, rfl, hup⟩
  | pendStop time deadline =>
    cases stopB with
    | nil =>
      obtain rfl : stopE = [] := hagree rfl
      simp only [Sys.taskStep]
      split_ifs <;> exact ⟨rfl, rfl, rfl, rfl, rfl, hstart, le_rfl, rfl, hup⟩
    | cons k ts =>
      cases stopE with
      | nil => cases hstop
      | cons k' ts' =>
        simp only [Sys.taskStep]
        split_ifs <;>
          exact ⟨rfl, rfl, rfl, rfl, rfl, hstart, Nat.le_of_succ_le_succ hstop, rfl, hup⟩

theorem Sync.buttonIsr (h : Sync taps b e) (pin : BitVec 4) :
    Sync taps (b.buttonIsr pin) (e.buttonIsr pin) := by
  unfold Sys.buttonIsr
  split_ifs
  · exact { h with startSem := by simpa using h.startSem }
  · exact { h with stopSem := by simpa using h.stopSem }
  · exact h

/-- An event of both keeps the systems in step. -/
theorem Sync.react (h : Sync taps b e) {ev : Event} (hfree : Pair.Free taps ev)
    (hread : ev = .task → Unread taps b.pc) (hagree : ev = .task → Agree b e) :
    Sync taps (b.react rand ev) (e.react rand (Pair.masked taps ev)) := by
  cases ev with
  | tick => exact { h with now := congrArg (· + 1) h.now }
  | isr pin => exact h.buttonIsr pin
  | pins data => exact { h with data := rfl, up := hfree }
  | console =>
    exact { h with queue := by simp only [Sys.react, Pair.masked, Sys.postName, h.queue] }
  | task => exact h.task (hread rfl) (hagree rfl)

/-- Systems in step enter the same states. -/
theorem Sync.record {b' e' : Sys} (h : Sync taps b e) (h' : Sync taps b' e') :
    Sync taps (Sys.record b b') (Sys.record e e') :=
  { h' with visits := by simp only [Sys.record, h.visits, h.pc, h'.pc, h'.vars] }

theorem step_pins (s : Sys) (data : BitVec 4) :
    s.step rand (.pins data) = { s with data := data, events := s.events + 1 } := by
  simp [Sys.step, Sys.react, Sys.record]

theorem press_up {data taps : BitVec 4} {k : Key} : data &&& taps = taps → taps &&& k.pin = 0#4 →
    ¬ pressed (data &&& ~~~taps) k → data &&& (taps ||| k.pin) = taps ||| k.pin := by
  cases k <;> revert data taps <;> decide +kernel

theorem release_data {data taps : BitVec 4} {k : Key} : data &&& taps = taps →
    taps &&& k.pin ≠ 0#4 → data &&& ~~~taps ||| k.pin = data &&& ~~~(taps &&& ~~~k.pin) := by
  cases k <;> revert data taps <;> decide +kernel

theorem release_up {data taps : BitVec 4} (k : Key) : data &&& taps = taps →
    data &&& (taps &&& ~~~k.pin) = taps &&& ~~~k.pin := by
  cases k <;> revert data taps <;> decide +kernel

theorem closed_press {taps : BitVec 4} {k k' : Key} : k' ≠ k → taps &&& k'.pin = 0#4 →
    (taps ||| k.pin) &&& k'.pin = 0#4 := by
  cases k <;> cases k' <;> revert taps <;> decide +kernel

theorem closed_release {taps : BitVec 4} (k : Key) {k' : Key} : taps &&& k'.pin = 0#4 →
    (taps &&& ~~~k.pin) &&& k'.pin = 0#4 := by
  cases k <;> cases k' <;> revert taps <;> decide +kernel

theorem Sync.press (h : Sync taps b e) {k : Key} (hclosed : taps &&& k.pin = 0#4)
    (hup : ¬ pressed e.data k) :
    Sync (taps ||| k.pin) b
      ((e.step rand (.pins (e.data &&& ~~~k.pin))).step rand (.isr k.pin)) := by
  rw [h.data] at hup
  have hdata : e.data &&& ~~~k.pin = b.data &&& ~~~(taps ||| k.pin) := by
    rw [h.data, BitVec.not_or, BitVec.and_assoc]
  rw [step_pins, hdata]
  have hup' := press_up h.up hclosed hup
  have hvisits : ∀ s : Sys, s.visits = e.visits → s.pc = e.pc →
      (s.step rand (.isr k.pin)).visits = b.visits := fun s hs hpc => by
    have hframe : (s.buttonIsr k.pin).pc = s.pc := (s.buttonIsr_frame k.pin).1
    simp [Sys.step, Sys.react, Sys.record, hframe, hs, h.visits]
  cases k with
  | start =>
    exact ⟨h.pc, h.vars, h.queue, h.now, hvisits _ rfl rfl,
      by simpa [Sys.step, Sys.react, Sys.record, Sys.buttonIsr] using Nat.le_succ_of_le h.startSem,
      h.stopSem, rfl, hup'⟩
  | resp =>
    exact ⟨h.pc, h.vars, h.queue, h.now, hvisits _ rfl rfl, h.startSem,
      by simpa [Sys.step, Sys.react, Sys.record, Sys.buttonIsr, Key.pin] using
        Nat.le_succ_of_le h.stopSem,
      rfl, hup'⟩

theorem Sync.release (h : Sync taps b e) {k : Key} (hopen : taps &&& k.pin ≠ 0#4) :
    Sync (taps &&& ~~~k.pin) b (e.step rand (.pins (e.data ||| k.pin))) := by
  rw [step_pins]
  exact { h with
    data := by rw [h.data]; exact release_data h.up hopen
    up := release_up k h.up }

theorem Inside.right {pc pc' : TaskPc} {k : Key} (h : Inside pc pc' k) : Inside pc' pc' k := by
  cases k with
  | start =>
    obtain ⟨hst, h⟩ := h
    exact ⟨rfl, by rw [hst]; exact h⟩
  | resp =>
    rcases h with ⟨hst, h⟩ | ⟨rfl, h⟩
    · exact Or.inl ⟨rfl, by rw [hst]; exact h⟩
    · exact Or.inr ⟨rfl, h⟩

namespace Pair

/-- The runs are in step, and a tap that is going on is where a tap may be. -/
structure Lockstep (p : Pair) : Prop where
  sync : Sync p.taps p.base p.ext
  unread : Unread p.taps p.base.pc

/-- A harmless step keeps the runs in step. -/
theorem Lockstep.step {p q : Pair} {a : TapEvent} (h : Lockstep p) (ha : Harmless p a)
    (hs : p.step rand a = some q) : Lockstep q := by
  cases a with
  | both ev =>
    simp only [Pair.step] at hs
    split_ifs at hs with hc
    obtain ⟨hfree, hstart, hresp⟩ := hc
    obtain rfl := Option.some.inj hs
    have hsync : Sync p.taps (p.base.step rand ev) (p.ext.step rand (masked p.taps ev)) :=
      h.sync.record (h.sync.react hfree (fun _ => h.unread) fun hev => by subst hev; exact ha)
    refine ⟨hsync, fun k hk => ?_⟩
    show Inside (p.base.step rand ev).pc (p.base.step rand ev).pc k
    rw [← hsync.pc]
    cases k with
    | start => exact (hstart hk).right
    | resp => exact (hresp hk).right
  | press k =>
    simp only [Pair.step] at hs
    split_ifs at hs with hc
    obtain ⟨hclosed, hup, hin⟩ := hc
    obtain rfl := Option.some.inj hs
    refine ⟨h.sync.press (not_not.mp hclosed) hup, fun k' hk' => ?_⟩
    by_cases hkk : k' = k
    · subst hkk
      rw [h.sync.pc] at hin
      exact hin
    · refine h.unread k' fun hold => hk' ?_
      exact closed_press hkk hold
  | release k =>
    simp only [Pair.step] at hs
    split_ifs at hs with hopen
    obtain rfl := Option.some.inj hs
    exact ⟨h.sync.release hopen, fun k' hk' => h.unread k' fun hold => hk' (closed_release k hold)⟩

/-- A name arrives, and the task gets to `OSSemPend(start_sem, 0)`. -/
def named : List TapEvent := [.both .console, .both .task, .both .task]

/-- The shortest delay, and the step that ends it. -/
def delayed : List TapEvent := List.replicate 1000 (.both .tick) ++ [.both .task]

/-- COUNT begins; the response key goes down after eighty passes of its loop, and the task
notices. -/
def answered : List TapEvent :=
  [.both .task, .both .task] ++
    (List.replicate 80 [.both .tick, .both .task, .both .task]).flatten ++
    [.both (.pins 0b1101#4), .both (.isr 2#4), .both .task]

end Pair

end Rtos

end ReactionMeter
