import ReactionMeter.Jtag.Driver
import ReactionMeter.Lib.Lock

/-!
# The steps of the driver

One constructor for each way a piece of the driver can go: `Service` for the clock and the two
interrupt routines, `ReadMove` and `WriteMove` for the tasks. `step_cases` says that these are all.

The receive side of a task is `reading`, the transmit side `writing`.
-/

namespace ReactionMeter

namespace Jtag

/-- The call of a task, if it is a read. -/
def Place.reads : Place → Option (ReadPc × ReadVars)
  | .read pc v => some (pc, v)
  | _ => none

/-- The call of a task, if it is a write. -/
def Place.writes : Place → Option (WritePc × WriteVars)
  | .write pc v => some (pc, v)
  | _ => none

namespace Sys

variable {T : Type}

def reading (s : Sys T) (t : T) : Option (ReadPc × ReadVars) := (s.tasks t).reads

def writing (s : Sys T) (t : T) : Option (WritePc × WriteVars) := (s.tasks t).writes

theorem Place.reads_flagTaskRdy (p : Place) (events : BitVec 16) :
    (p.flagTaskRdy events).reads = p.reads.map fun r => (r.1.flagTaskRdy events, r.2) := by
  cases p <;> rfl

theorem Place.writes_flagTaskRdy (p : Place) (events : BitVec 16) :
    (p.flagTaskRdy events).writes = p.writes.map fun r => (r.1.flagTaskRdy events, r.2) := by
  cases p <;> rfl

theorem post_reading (s : Sys T) (flags : BitVec 16) :
    (s.post flags).reading =
      Lock.relocate (ReadPc.flagTaskRdy (s.events ||| flags)) s.reading := by
  funext t
  exact Place.reads_flagTaskRdy (s.tasks t) (s.events ||| flags)

theorem post_writing (s : Sys T) (flags : BitVec 16) :
    (s.post flags).writing =
      Lock.relocate (WritePc.flagTaskRdy (s.events ||| flags)) s.writing := by
  funext t
  exact Place.writes_flagTaskRdy (s.tasks t) (s.events ||| flags)

/-- A read after a post is one before it, woken if it waits for the flags. -/
theorem reading_post {s : Sys T} {flags : BitVec 16} {t : T} {pc : ReadPc} {v : ReadVars} :
    (s.post flags).reading t = some (pc, v) ↔
      ∃ pc₀, s.reading t = some (pc₀, v) ∧ pc₀.flagTaskRdy (s.events ||| flags) = pc := by
  rw [post_reading]
  exact Lock.relocate_eq_some

theorem writing_post {s : Sys T} {flags : BitVec 16} {t : T} {pc : WritePc} {v : WriteVars} :
    (s.post flags).writing t = some (pc, v) ↔
      ∃ pc₀, s.writing t = some (pc₀, v) ∧ pc₀.flagTaskRdy (s.events ||| flags) = pc := by
  rw [post_writing]
  exact Lock.relocate_eq_some

/-- What the system does without its tasks. -/
inductive Service (s : Sys T) : Sys T → Prop
  | edge (c : Cable) : Service s { s with uart := s.uart.edge .idle c }
  | enter (hirq : s.irq = .out) : Service s { s with irq := .loop }
  | quit (c₁ c₂ : Cable) (hirq : s.irq = .loop)
      (hnone : s.uart.reply (.read true) c₁ &&& (riMsk ||| wiMsk) = 0#32) :
      Service s { s.bus (.read true) c₁ c₂ with irq := .out }
  | receive (c₁ c₂ : Cable) (hirq : s.irq = .loop)
      (hri : s.uart.reply (.read true) c₁ &&& riMsk ≠ 0#32) :
      Service s { s.bus (.read true) c₁ c₂ with
        irq := .rx (s.uart.reply (.read true) c₁) (1#32 <<< 16) }
  | transmit (c₁ c₂ : Cable) (hirq : s.irq = .loop)
      (hri : s.uart.reply (.read true) c₁ &&& riMsk = 0#32) :
      Service s { s.bus (.read true) c₁ c₂ with irq := afterRx (s.uart.reply (.read true) c₁) }
  | full {control data : BitVec 32} (hirq : s.irq = .rx control data)
      (hfull : (s.rxIn + 1) % bufLen = s.rxOut) :
      Service s { s with irq := .rxDone control data }
  | empty (c₁ c₂ : Cable) {control data : BitVec 32} (hirq : s.irq = .rx control data)
      (hvalid : s.uart.reply (.read false) c₁ &&& rvalidMsk = 0#32) :
      Service s { s.bus (.read false) c₁ c₂ with
        irq := .rxDone control (s.uart.reply (.read false) c₁) }
  | store (c₁ c₂ : Cable) {control data : BitVec 32} (hirq : s.irq = .rx control data)
      (hfree : (s.rxIn + 1) % bufLen ≠ s.rxOut)
      (hvalid : s.uart.reply (.read false) c₁ &&& rvalidMsk ≠ 0#32) :
      Service s ({ s.bus (.read false) c₁ c₂ with
        rxBuf := Function.update s.rxBuf s.rxIn
          ((s.uart.reply (.read false) c₁ &&& dataMsk).setWidth 8)
        rxIn := (s.rxIn + 1) % bufLen
        irq := .rx control (s.uart.reply (.read false) c₁) }.post readRdy)
  | stopRx (c₁ c₂ : Cable) {control data : BitVec 32} (hirq : s.irq = .rxDone control data) :
      Service s { s.setControl (s.irqEnable &&& ~~~reMsk) c₁ c₂ with irq := .rxDummy control }
  | goOn {control data : BitVec 32} (hirq : s.irq = .rxDone control data) :
      Service s { s with irq := afterRx control }
  | rxDummy (c₁ c₂ : Cable) {control : BitVec 32} (hirq : s.irq = .rxDummy control) :
      Service s { s.bus (.read true) c₁ c₂ with irq := afterRx control }
  | send (c₁ c₂ : Cable) {space : ℕ} (hirq : s.irq = .tx space) (hpos : 0 < space)
      (hne : s.txOut ≠ s.txIn) :
      Service s ({ s.bus (.write false ((s.txBuf s.txOut).setWidth 32)) c₁ c₂ with
        txOut := (s.txOut + 1) % bufLen
        irq := .tx (space - 1) }.post writeRdy)
  | stopTx (c₁ c₂ : Cable) {space : ℕ} (hirq : s.irq = .tx space) (heq : s.txOut = s.txIn) :
      Service s { s.setControl (s.irqEnable &&& ~~~weMsk) c₁ c₂ with irq := .txDummy }
  | noSpace {space : ℕ} (hirq : s.irq = .tx space) (hnone : ¬ 0 < space) :
      Service s { s with irq := .loop }
  | txDummy (c₁ c₂ : Cable) (hirq : s.irq = .txDummy) :
      Service s { s.bus (.read true) c₁ c₂ with irq := .loop }
  | alarmAck (c₁ c₂ : Cable) (hirq : s.irq = .alarmAck) :
      Service s { s.bus (.write true (s.irqEnable ||| acMsk)) c₁ c₂ with
        hostInactive := 0
        irq := .out }
  | active (c₁ c₂ : Cable) (hirq : s.irq = .out) :
      Service s { s.bus (.read true) c₁ c₂ with irq := .alarmAck }
  | inactive (c₁ c₂ : Cable) {n : ℕ} (hirq : s.irq = .out) :
      Service s { s.bus (.read true) c₁ c₂ with hostInactive := n }
  | timeout (c₁ c₂ : Cable) {n : ℕ} (hirq : s.irq = .out) :
      Service s ({ s.bus (.read true) c₁ c₂ with hostInactive := n }.post timeoutFlag)

variable {s s' : Sys T}

theorem isrStep_cases {c₁ c₂ : Cable} (h : s.isrStep c₁ c₂ = some s') : Service s s' := by
  unfold isrStep at h
  cases hirq : s.irq with
  | out => simp [hirq] at h
  | loop =>
    simp only [hirq] at h
    split_ifs at h with hnone hri <;> obtain rfl := Option.some.inj h
    · exact .quit c₁ c₂ hirq hnone
    · exact .receive c₁ c₂ hirq hri
    · exact .transmit c₁ c₂ hirq (not_not.mp hri)
  | rx control data =>
    simp only [hirq] at h
    split_ifs at h with hfull hvalid <;> obtain rfl := Option.some.inj h
    · exact .full hirq hfull
    · exact .empty c₁ c₂ hirq hvalid
    · exact .store c₁ c₂ hirq hfull hvalid
  | rxDone control data =>
    simp only [hirq] at h
    split_ifs at h <;> obtain rfl := Option.some.inj h
    · exact .stopRx c₁ c₂ hirq
    · exact .goOn hirq
  | rxDummy control =>
    simp only [hirq] at h
    obtain rfl := Option.some.inj h
    exact .rxDummy c₁ c₂ hirq
  | tx space =>
    simp only [hirq] at h
    split_ifs at h with hsend hpos <;> obtain rfl := Option.some.inj h
    · exact .send c₁ c₂ hirq hsend.1 hsend.2
    · exact .stopTx c₁ c₂ hirq (not_not.mp fun hne => hsend ⟨hpos, hne⟩)
    · exact .noSpace hirq hpos
  | txDummy =>
    simp only [hirq] at h
    obtain rfl := Option.some.inj h
    exact .txDummy c₁ c₂ hirq
  | alarmAck =>
    simp only [hirq] at h
    obtain rfl := Option.some.inj h
    exact .alarmAck c₁ c₂ hirq

theorem alarm_cases (hirq : s.irq = .out) (c₁ c₂ : Cable) : Service s (s.alarm c₁ c₂) := by
  unfold alarm
  dsimp only
  split_ifs
  · exact .active c₁ c₂ hirq
  · exact .timeout c₁ c₂ hirq
  · exact .inactive c₁ c₂ hirq
  · exact .inactive (n := s.hostInactive) c₁ c₂ hirq

variable [DecidableEq T]

/-- What a task does on the receive side. -/
inductive ReadMove (s : Sys T) (t : T) : Sys T → Prop
  | call {v : ReadVars} (hat : ∃ last, s.tasks t = .out last) (hgot : v.got = []) :
      ReadMove s t (s.go t (.read .lock v))
  | acquire {v : ReadVars} (hat : s.tasks t = .read .lock v) (hfree : s.readLock = none) :
      ReadMove s t { s.go t (.read (if 0 < v.space then .head else .unlock) v) with
        readLock := some t }
  | found {v : ReadVars} (hat : s.tasks t = .read .head v) (hn : s.readable ≠ 0) :
      ReadMove s t
        (s.go t (.read (.copy (min s.readable v.space) []) { v with inp := s.rxIn }))
  | none {v : ReadVars} (hat : s.tasks t = .read .head v) (hn : s.readable = 0) :
      ReadMove s t (s.go t (.read .unlock { v with inp := s.rxIn }))
  | block {v : ReadVars} (hat : s.tasks t = .read .head v) (hn : s.readable = 0)
      (hgot : v.got = []) :
      ReadMove s t (s.go t (.read .pend { v with inp := s.rxIn }))
  | byte {v : ReadVars} {n : ℕ} {part : List (BitVec 8)}
      (hat : s.tasks t = .read (.copy n part) v) (hlt : part.length < n) :
      ReadMove s t
        (s.go t (.read (.copy n (part ++ [s.rxBuf (s.rxOut + part.length)])) v))
  | take {v : ReadVars} {n : ℕ} {part : List (BitVec 8)} {pc : ReadPc}
      (hat : s.tasks t = .read (.copy n part) v) (hge : n ≤ part.length)
      (hpc : pc = if 0 < v.space - n then .head else .unlock) :
      ReadMove s t { s.go t (.read pc
          { v with got := v.got ++ part, space := v.space - n }) with
        rxOut := (s.rxOut + n) % bufLen }
  | consume {v : ReadVars} {rdy : BitVec 16}
      (hat : s.tasks t = .read .pend v ∧ rdy = s.events &&& readFlags ∨
        s.tasks t = .read (.wait rdy) v) :
      ReadMove s t { s.go t (.read .woken v) with events := s.events &&& ~~~rdy }
  | sleep {v : ReadVars} (hat : s.tasks t = .read .pend v)
      (hnone : s.events &&& readFlags = 0#16) :
      ReadMove s t (s.go t (.read (.wait 0#16) v))
  | again {v : ReadVars} {pc : ReadPc} (hat : s.tasks t = .read .woken v)
      (hpc : pc = if v.inp = s.rxIn then .unlock else .head) :
      ReadMove s t (s.go t (.read pc v))
  | release {v : ReadVars} {p : Place} (hat : s.tasks t = .read .unlock v)
      (hp : p = .read .enable v ∧ v.got ≠ [] ∨ p.reads = .none ∧ p.writes = .none ∧ v.got = [])
      (hout : ∀ buf, p ≠ .out (some (.data buf))) :
      ReadMove s t { s.go t p with readLock := .none, delivered := s.delivered ++ v.got }
  | enable (c₁ c₂ : Cable) {v : ReadVars} {last : Option Result}
      (hat : s.tasks t = .read .enable v) (hlast : last = some (.data v.got)) :
      ReadMove s t ((s.setControl (s.irqEnable ||| reMsk) c₁ c₂).go t (.out last))

/-- What a task does on the transmit side. -/
inductive WriteMove (s : Sys T) (t : T) : Sys T → Prop
  | call {v : WriteVars} (hat : ∃ last, s.tasks t = .out last) (hdone : v.done = []) :
      WriteMove s t (s.go t (.write .lock v))
  | acquire {v : WriteVars} (hat : s.tasks t = .write .lock v) (hfree : s.writeLock = none) :
      WriteMove s t { s.go t (.write .head v) with writeLock := some t }
  | finish {v : WriteVars} (hat : s.tasks t = .write .head v) (hrest : v.rest = []) :
      WriteMove s t (s.go t (.write .enable v))
  | full {v : WriteVars} (hat : s.tasks t = .write .head v) (hn : s.writable = 0) :
      WriteMove s t (s.go t (.write .enable { v with outp := s.txOut }))
  | found {v : WriteVars} (hat : s.tasks t = .write .head v) (hrest : v.rest ≠ [])
      (hn : s.writable ≠ 0) :
      WriteMove s t (s.go t
        (.write (.copy (min s.writable v.rest.length) 0) { v with outp := s.txOut }))
  | byte {v : WriteVars} {n i : ℕ} (hat : s.tasks t = .write (.copy n i) v) (hlt : i < n) :
      WriteMove s t { s.go t (.write (.copy n (i + 1)) v) with
        txBuf := Function.update s.txBuf (s.txIn + i) (v.rest.getD i 0#8) }
  | put {v : WriteVars} {n i : ℕ} (hat : s.tasks t = .write (.copy n i) v) (hge : n ≤ i) :
      WriteMove s t { s.go t (.write .head
          { v with done := v.done ++ v.rest.take n, rest := v.rest.drop n }) with
        txIn := (s.txIn + n) % bufLen }
  | enable (c₁ c₂ : Cable) {v : WriteVars} {pc : WritePc} (hat : s.tasks t = .write .enable v)
      (hpc : pc = .pend ∧ v.rest ≠ [] ∨ pc = .unlock) :
      WriteMove s t ((s.setControl (s.irqEnable ||| weMsk) c₁ c₂).go t (.write pc v))
  | consume {v : WriteVars} {rdy : BitVec 16}
      (hat : s.tasks t = .write .pend v ∧ rdy = s.events &&& writeFlags ∨
        s.tasks t = .write (.wait rdy) v) :
      WriteMove s t { s.go t (.write .woken v) with events := s.events &&& ~~~rdy }
  | sleep {v : WriteVars} (hat : s.tasks t = .write .pend v)
      (hnone : s.events &&& writeFlags = 0#16) :
      WriteMove s t (s.go t (.write (.wait 0#16) v))
  | again {v : WriteVars} {pc : WritePc} (hat : s.tasks t = .write .woken v)
      (hpc : pc = .unlock ∨ pc = .head) :
      WriteMove s t (s.go t (.write pc v))
  | release {v : WriteVars} {last : Option Result} (hat : s.tasks t = .write .unlock v)
      (hlast : ∀ buf, last ≠ some (.data buf)) :
      WriteMove s t { s.go t (.out last) with
        writeLock := .none
        written := s.written ++ v.done }

variable {t : T}

/-- The calls of a state in which one task has moved. -/
theorem reading_of_tasks {p : Place} (h : s'.tasks = Function.update s.tasks t p) :
    s'.reading = Function.update s.reading t p.reads := by
  show Place.reads ∘ s'.tasks = _
  rw [h, Function.comp_update]
  rfl

theorem writing_of_tasks {p : Place} (h : s'.tasks = Function.update s.tasks t p) :
    s'.writing = Function.update s.writing t p.writes := by
  show Place.writes ∘ s'.tasks = _
  rw [h, Function.comp_update]
  rfl

theorem readStep_cases {v : ReadVars} {c₁ c₂ : Cable} {pc : ReadPc}
    (hat : s.tasks t = .read pc v) (h : s.readStep t v c₁ c₂ pc = some s') : ReadMove s t s' := by
  cases pc with
  | lock =>
    simp only [readStep] at h
    cases hfree : s.readLock with
    | none =>
      simp only [hfree] at h
      obtain rfl := Option.some.inj h
      exact .acquire hat hfree
    | some u => simp [hfree] at h
  | head =>
    simp only [readStep] at h
    split_ifs at h with hn hgo <;> obtain rfl := Option.some.inj h
    · exact .none hat hn
    · exact .block hat hn (not_not.mp fun hgot => hgo (Or.inl hgot))
    · exact .found hat hn
  | copy n part =>
    simp only [readStep] at h
    by_cases hlt : part.length < n
    · rw [if_pos hlt] at h
      obtain rfl := Option.some.inj h
      exact .byte hat hlt
    · rw [if_neg hlt] at h
      obtain rfl := Option.some.inj h
      exact .take hat (Nat.le_of_not_lt hlt) rfl
  | pend =>
    simp only [readStep] at h
    split_ifs at h with hrdy <;> obtain rfl := Option.some.inj h
    · exact .consume (Or.inl ⟨hat, rfl⟩)
    · exact .sleep hat (not_not.mp hrdy)
  | wait rdy =>
    simp only [readStep] at h
    split_ifs at h with hrdy
    obtain rfl := Option.some.inj h
    exact .consume (Or.inr hat)
  | woken =>
    simp only [readStep] at h
    obtain rfl := Option.some.inj h
    exact .again hat rfl
  | unlock =>
    simp only [readStep] at h
    obtain rfl := Option.some.inj h
    refine .release hat ?_ ?_
    · split_ifs with hgot
      · exact Or.inl ⟨rfl, hgot⟩
      · exact Or.inr ⟨rfl, rfl, not_not.mp hgot⟩
      · exact Or.inr ⟨rfl, rfl, not_not.mp hgot⟩
    · intro buf
      split_ifs <;> simp
  | enable =>
    simp only [readStep] at h
    obtain rfl := Option.some.inj h
    exact .enable c₁ c₂ hat rfl

theorem writeStep_cases {v : WriteVars} {c₁ c₂ : Cable} {pc : WritePc}
    (hat : s.tasks t = .write pc v) (h : s.writeStep t v c₁ c₂ pc = some s') :
    WriteMove s t s' := by
  cases pc with
  | lock =>
    simp only [writeStep] at h
    cases hfree : s.writeLock with
    | none =>
      simp only [hfree] at h
      obtain rfl := Option.some.inj h
      exact .acquire hat hfree
    | some u => simp [hfree] at h
  | head =>
    simp only [writeStep] at h
    split_ifs at h with hrest hn <;> obtain rfl := Option.some.inj h
    · exact .finish hat hrest
    · exact .full hat hn
    · exact .found hat hrest hn
  | copy n i =>
    simp only [writeStep] at h
    split_ifs at h with hlt <;> obtain rfl := Option.some.inj h
    · exact .byte hat hlt
    · exact .put hat (Nat.le_of_not_lt hlt)
  | enable =>
    simp only [writeStep] at h
    obtain rfl := Option.some.inj h
    refine .enable c₁ c₂ hat ?_
    split_ifs with hpend
    · exact Or.inl ⟨rfl, hpend.1⟩
    · exact Or.inr rfl
  | pend =>
    simp only [writeStep] at h
    split_ifs at h with hrdy <;> obtain rfl := Option.some.inj h
    · exact .consume (Or.inl ⟨hat, rfl⟩)
    · exact .sleep hat (not_not.mp hrdy)
  | wait rdy =>
    simp only [writeStep] at h
    split_ifs at h with hrdy
    obtain rfl := Option.some.inj h
    exact .consume (Or.inr hat)
  | woken =>
    simp only [writeStep] at h
    obtain rfl := Option.some.inj h
    refine .again hat ?_
    split_ifs
    · exact Or.inl rfl
    · exact Or.inr rfl
  | unlock =>
    simp only [writeStep] at h
    obtain rfl := Option.some.inj h
    refine .release hat fun buf => ?_
    split_ifs <;> simp

/-- Every step is one of these; a task moves only while no service routine runs. -/
theorem step_cases {e : Event T} (h : s.step e = some s') :
    Service s s' ∨ s.irq = .out ∧ ∃ t, ReadMove s t s' ∨ WriteMove s t s' := by
  cases e with
  | edge c =>
    obtain rfl := Option.some.inj h
    exact Or.inl (.edge c)
  | irq =>
    simp only [step] at h
    split_ifs at h with hirq
    obtain rfl := Option.some.inj h
    exact Or.inl (.enter hirq.1)
  | isr c₁ c₂ => exact Or.inl (isrStep_cases h)
  | alarm c₁ c₂ =>
    simp only [step] at h
    split_ifs at h with hirq
    obtain rfl := Option.some.inj h
    exact Or.inl (alarm_cases hirq c₁ c₂)
  | read t space nonblock =>
    cases hat : s.tasks t with
    | out last =>
      simp only [step, hat] at h
      split_ifs at h with hirq
      obtain rfl := Option.some.inj h
      exact Or.inr ⟨hirq, t, Or.inl (.call ⟨last, hat⟩ rfl)⟩
    | read pc v | write pc v => simp [step, hat] at h
  | write t data nonblock =>
    cases hat : s.tasks t with
    | out last =>
      simp only [step, hat] at h
      split_ifs at h with hirq
      obtain rfl := Option.some.inj h
      exact Or.inr ⟨hirq, t, Or.inr (.call ⟨last, hat⟩ rfl)⟩
    | read pc v | write pc v => simp [step, hat] at h
  | task t c₁ c₂ =>
    simp only [step] at h
    split_ifs at h with hirq
    cases hat : s.tasks t with
    | out last => simp [hat] at h
    | read pc v =>
      simp only [hat] at h
      exact Or.inr ⟨hirq, t, Or.inl (readStep_cases hat h)⟩
    | write pc v =>
      simp only [hat] at h
      exact Or.inr ⟨hirq, t, Or.inr (writeStep_cases hat h)⟩

end Sys

end Jtag

end ReactionMeter
