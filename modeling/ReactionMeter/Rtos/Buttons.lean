import ReactionMeter.Lib.Machine
import ReactionMeter.Rtos.Scores

/-!
# Presses on their way to the semaphores

Between a key and its semaphore stand `embedded_system_buttons.v`, which catches falling edges, and
`button.cpp`, whose service routine reads the edge-capture register, clears all of it, and calls
`button_isr` with the mask it has read. A step of `Board` is one cycle of the clock: the port samples
its pins, and the processor does nothing to it, makes the next step of the routine, or goes on with
the RTOS system. Keys may move in every cycle.

The driver has been initialised: all keys may interrupt, and the edge-capture register is empty. The
last three fields are history.

* `since`: the keys that have fallen since the latest clearing write.
* `before`: those that fell between the clearing write before it and that write, its cycle included.
* `early`: those that had fallen since a clearing write when the register was read last.

`sys_after` says that the system of the board is the RTOS system, with calls of `button_isr` only
where the routine makes them. `presses_kept_iff` says which presses a call of the routine keeps.
-/

namespace ReactionMeter

namespace Rtos

/-! ## The port -/

/-- The registers of `embedded_system_buttons` that edges go through. -/
structure Pio where
  d1DataIn : BitVec 4 := 0b1111#4
  d2DataIn : BitVec 4 := 0b1111#4
  edgeCapture : BitVec 4 := 0#4
  irqMask : BitVec 4 := 0xF#4
  deriving DecidableEq, Repr

namespace Pio

/-- The keys whose falling edge the port sees in this cycle. -/
def edgeDetect (p : Pio) : BitVec 4 := ~~~p.d1DataIn &&& p.d2DataIn

def irq (p : Pio) : Prop := p.edgeCapture &&& p.irqMask ≠ 0#4

instance (p : Pio) : Decidable p.irq := by unfold irq; infer_instance

/-- One rising edge of `clk`. A write to the edge-capture register goes before an edge. -/
def step (p : Pio) (inPort : BitVec 4) (edgeCaptureWrStrobe : Bool) : Pio :=
  { p with
    d1DataIn := inPort
    d2DataIn := p.d1DataIn
    edgeCapture :=
      if edgeCaptureWrStrobe = true then 0#4 else p.edgeCapture ||| p.edgeDetect }

end Pio

/-! ## The semaphores -/

/-- The tokens in the semaphore of a key. -/
def Sys.tokens (s : Sys) : Key → List ℕ
  | .start => s.startSem
  | .resp => s.stopSem

/-- `button_isr` posts for a key if it is called with the mask of that key and no other. -/
theorem Sys.tokens_buttonIsr (s : Sys) (pin : BitVec 4) (k : Key) :
    (s.buttonIsr pin).tokens k = if pin = k.pin then s.tokens k ++ [s.events] else s.tokens k := by
  unfold buttonIsr
  cases k with
  | start =>
    by_cases hstart : pin = Key.start.pin
    · rw [if_pos hstart, if_pos hstart]; rfl
    · rw [if_neg hstart, if_neg hstart]; split_ifs <;> rfl
  | resp =>
    by_cases hresp : pin = Key.resp.pin
    · have hstart : pin ≠ Key.start.pin := by rw [hresp]; decide
      rw [if_neg hstart, if_pos hresp, if_pos hresp]; rfl
    · rw [if_neg hresp, if_neg hresp]; split_ifs <;> rfl

/-! ## The driver -/

/-- Where `buttons_c::isr` stands: not called, before the read, before the write, before the call of
`m_callback`. -/
inductive IsrPc
  | out | entered | captured | cleared
  deriving DecidableEq, Repr

/-- The port, the object `buttons` with its `edge_capture`, and the system above them. -/
structure Board where
  pio : Pio := {}
  isr : IsrPc := .out
  edgeCapture : BitVec 4 := 0#4
  sys : Sys := {}
  since : BitVec 4 := 0#4
  before : BitVec 4 := 0#4
  early : BitVec 4 := 0#4
  deriving DecidableEq, Repr

/-- What the processor does in a cycle. -/
inductive Cpu
  | stall
  | isr
  | tick
  | task
  | console
  deriving DecidableEq, Repr

structure Cycle where
  inPort : BitVec 4 := 0b1111#4
  cpu : Cpu
  deriving DecidableEq, Repr

namespace Board

variable (rand : ℕ → ℕ)

/-- The port in a cycle without a write to the edge-capture register, and the level of the pins in
the system. -/
def clock (b : Board) (inPort : BitVec 4) : Board :=
  { b with
    pio := b.pio.step inPort false
    sys := b.sys.step rand (.pins inPort)
    since := b.since ||| b.pio.edgeDetect }

/-- The same in the cycle of the clearing write. -/
def clear (b : Board) (inPort : BitVec 4) : Board :=
  { b with
    pio := b.pio.step inPort true
    sys := b.sys.step rand (.pins inPort)
    since := 0#4
    before := b.since ||| b.pio.edgeDetect }

/-- An event of the system. -/
def event (b : Board) (e : Event) : Board := { b with sys := b.sys.step rand e }

/-- One cycle. The routine runs to its end before the tasks go on. -/
def step (b : Board) (c : Cycle) : Option Board :=
  match c.cpu with
  | .stall => some (b.clock rand c.inPort)
  | .tick => some ((b.clock rand c.inPort).event rand .tick)
  | .task => if b.isr = .out then some ((b.clock rand c.inPort).event rand .task) else none
  | .console => if b.isr = .out then some ((b.clock rand c.inPort).event rand .console) else none
  | .isr =>
    match b.isr with
    | .out => if b.pio.irq then some { b.clock rand c.inPort with isr := .entered } else none
    | .entered =>
      some { b.clock rand c.inPort with
        edgeCapture := b.pio.edgeCapture
        early := b.since
        isr := .captured }
    | .captured => some { b.clear rand c.inPort with isr := .cleared }
    | .cleared =>
      some { (b.clock rand c.inPort).event rand (.isr b.edgeCapture) with isr := .out }

variable {rand} {b b' : Board} {c : Cycle}

/-- The cycles of the board. -/
inductive CycleStep (rand : ℕ → ℕ) (b : Board) (c : Cycle) : Board → Prop
  | stall (hcpu : c.cpu = .stall) : CycleStep rand b c (b.clock rand c.inPort)
  | tick (hcpu : c.cpu = .tick) : CycleStep rand b c ((b.clock rand c.inPort).event rand .tick)
  | task (hcpu : c.cpu = .task) (hisr : b.isr = .out) :
      CycleStep rand b c ((b.clock rand c.inPort).event rand .task)
  | console (hcpu : c.cpu = .console) (hisr : b.isr = .out) :
      CycleStep rand b c ((b.clock rand c.inPort).event rand .console)
  | enter (hisr : b.isr = .out) (hirq : b.pio.irq) :
      CycleStep rand b c { b.clock rand c.inPort with isr := .entered }
  | read (hisr : b.isr = .entered) :
      CycleStep rand b c { b.clock rand c.inPort with
        edgeCapture := b.pio.edgeCapture
        early := b.since
        isr := .captured }
  | clear (hisr : b.isr = .captured) :
      CycleStep rand b c { b.clear rand c.inPort with isr := .cleared }
  | call (hisr : b.isr = .cleared) :
      CycleStep rand b c { (b.clock rand c.inPort).event rand (.isr b.edgeCapture) with isr := .out }

theorem step_cases (hs : b.step rand c = some b') : CycleStep rand b c b' := by
  unfold step at hs
  cases hcpu : c.cpu with
  | stall =>
    rw [hcpu] at hs
    obtain rfl := Option.some.inj hs
    exact .stall hcpu
  | tick =>
    rw [hcpu] at hs
    obtain rfl := Option.some.inj hs
    exact .tick hcpu
  | task =>
    simp only [hcpu] at hs
    split_ifs at hs with hisr
    obtain rfl := Option.some.inj hs
    exact .task hcpu hisr
  | console =>
    simp only [hcpu] at hs
    split_ifs at hs with hisr
    obtain rfl := Option.some.inj hs
    exact .console hcpu hisr
  | isr =>
    simp only [hcpu] at hs
    cases hisr : b.isr with
    | out =>
      simp only [hisr] at hs
      split_ifs at hs with hirq
      obtain rfl := Option.some.inj hs
      exact .enter hisr hirq
    | entered =>
      simp only [hisr] at hs
      obtain rfl := Option.some.inj hs
      exact .read hisr
    | captured =>
      simp only [hisr] at hs
      obtain rfl := Option.some.inj hs
      exact .clear hisr
    | cleared =>
      simp only [hisr] at hs
      obtain rfl := Option.some.inj hs
      exact .call hisr

/-- The system of the board is the RTOS system, on some events. -/
theorem sys_after (h : Machine.Reach (step rand) {} b) : ∃ es, b.sys = Sys.after rand es := by
  refine h.invariant (P := fun b => ∃ es, b.sys = Sys.after rand es) ⟨[], rfl⟩ ?_
  intro b c b' hb hs
  obtain ⟨es, hes⟩ := hb
  have hpins : b.sys.step rand (.pins c.inPort) = Sys.after rand (es ++ [.pins c.inPort]) := by
    rw [hes, Sys.after_concat]
  have hevent : ∀ e, (b.sys.step rand (.pins c.inPort)).step rand e =
      Sys.after rand (es ++ [.pins c.inPort] ++ [e]) := fun e => by
    rw [hpins, ← Sys.after_concat]
  cases step_cases hs with
  | stall | enter | read | clear => exact ⟨_, hpins⟩
  | tick => exact ⟨_, hevent .tick⟩
  | task => exact ⟨_, hevent .task⟩
  | console => exact ⟨_, hevent .console⟩
  | call => exact ⟨_, hevent (.isr b.edgeCapture)⟩

/-! ## What a call keeps -/

/-- The key has fallen since the clearing write before the latest one. -/
def Fell (b : Board) (k : Key) : Prop := (b.before ||| b.since) &&& k.pin ≠ 0#4

/-- The semaphore of the key has got a token. -/
def Posted (b b' : Board) (k : Key) : Prop :=
  (b'.sys.tokens k).length = (b.sys.tokens k).length + 1

/-- The capture bit of the key is set. -/
def Captured (b : Board) (k : Key) : Prop := b.pio.edgeCapture &&& k.pin ≠ 0#4

/-- The cycle in which `buttons_c::isr` returns. -/
def Returns (b : Board) (c : Cycle) : Prop := b.isr = .cleared ∧ c.cpu = .isr

/-- The register holds what has fallen since it was cleared, and the driver what had fallen when it
read it. -/
structure Sticky (b : Board) : Prop where
  capture : b.pio.edgeCapture = b.since
  mask : b.isr = .captured ∨ b.isr = .cleared → b.edgeCapture = b.early

theorem Sticky.clock (h : Sticky b) (inPort : BitVec 4) : Sticky (b.clock rand inPort) := by
  refine ⟨?_, h.mask⟩
  show b.pio.edgeCapture ||| b.pio.edgeDetect = b.since ||| b.pio.edgeDetect
  rw [h.capture]

theorem Sticky.step (h : Sticky b) (hs : b.step rand c = some b') : Sticky b' := by
  have hclock : Sticky (b.clock rand c.inPort) := h.clock c.inPort
  cases step_cases hs with
  | stall => exact hclock
  | tick | task | console => exact ⟨hclock.capture, hclock.mask⟩
  | enter | call => exact ⟨hclock.capture, by simp⟩
  | read => exact ⟨hclock.capture, fun _ => h.capture⟩
  | clear hisr => exact ⟨rfl, fun _ => h.mask (Or.inl hisr)⟩

theorem sticky_reach (h : Machine.Reach (Board.step rand) {} b) : Sticky b :=
  h.invariant ⟨rfl, by simp⟩ fun _ _ _ hb hs => hb.step hs

theorem step_returns (hret : Returns b c) (hs : b.step rand c = some b') :
    b' = { (b.clock rand c.inPort).event rand (.isr b.edgeCapture) with isr := .out } := by
  obtain ⟨hisr, hcpu⟩ := hret
  cases step_cases hs with
  | call => rfl
  | stall h | tick h | task h | console h =>
    rw [hcpu] at h
    cases h
  | enter h | read h | clear h =>
    rw [hisr] at h
    cases h

theorem posted_iff (hb : Sticky b) (hret : Returns b c) (hs : b.step rand c = some b') (k : Key) :
    Posted b b' k ↔ b'.early = k.pin := by
  have hmask : b.edgeCapture = b.early := hb.mask (Or.inr hret.1)
  have hpins : (b.sys.step rand (.pins c.inPort)).tokens k = b.sys.tokens k := by
    cases k <;> rfl
  have hcall : ((b.sys.step rand (.pins c.inPort)).step rand (.isr b.edgeCapture)).tokens k =
      ((b.sys.step rand (.pins c.inPort)).buttonIsr b.edgeCapture).tokens k := by
    cases k <;> rfl
  rw [step_returns hret hs]
  show (((b.sys.step rand (.pins c.inPort)).step rand (.isr b.edgeCapture)).tokens k).length =
    (b.sys.tokens k).length + 1 ↔ b.early = k.pin
  rw [hcall, Sys.tokens_buttonIsr, hpins, hmask]
  split_ifs with hpin <;> simp [hpin]

/-- **Which presses are kept.** For every run, with edges of any keys in any cycle: when the routine
returns, each key that has fallen since the previous clearing write has had its semaphore posted or
has its capture bit still set, if and only if each key that fell up to the clearing write of this
call was the only one that had fallen when the register was read, or has fallen again after the
write. -/
theorem presses_kept_iff (h : Machine.Reach (step rand) {} b) (hret : Returns b c)
    (hs : b.step rand c = some b') :
    (∀ k, Fell b' k → Posted b b' k ∨ Captured b' k) ↔
      ∀ k : Key, b'.before &&& k.pin ≠ 0#4 → b'.early = k.pin ∨ b'.since &&& k.pin ≠ 0#4 := by
  have hb := sticky_reach h
  have hcapture := (hb.step hs).capture
  refine forall_congr' fun k => ?_
  have hfell : Fell b' k ↔ b'.before &&& k.pin ≠ 0#4 ∨ b'.since &&& k.pin ≠ 0#4 := by
    rw [Fell, BitVec.and_or_distrib_right, ne_eq, BitVec.or_eq_zero_iff, not_and_or]
  rw [posted_iff hb hret hs, Captured, hfell, hcapture]
  exact ⟨fun hall hbefore => hall (Or.inl hbefore), fun hall hany => hany.elim hall Or.inr⟩

/-- Keys fall, and the routine runs up to its call of `button_isr`. -/
def served (inPort : BitVec 4) : List Cycle :=
  [⟨inPort, .stall⟩, ⟨inPort, .stall⟩, ⟨inPort, .isr⟩, ⟨inPort, .isr⟩, ⟨inPort, .isr⟩]

theorem served_returns {inPort before early since : BitVec 4}
    (hrun : (Machine.exec (step fun _ => 0) {} (served inPort)).map (fun b =>
      (b.isr, (b.step (fun _ => 0) ⟨inPort, .isr⟩).map fun b' => (b'.before, b'.early, b'.since))) =
        some (.cleared, some (before, early, since))) :
    ∃ b b' : Board, Machine.exec (step fun _ => 0) {} (served inPort) = some b ∧
      Returns b ⟨inPort, .isr⟩ ∧ b.step (fun _ => 0) ⟨inPort, .isr⟩ = some b' ∧
      b'.before = before ∧ b'.early = early ∧ b'.since = since := by
  obtain ⟨b, hb, hnext⟩ := Option.map_eq_some_iff.mp hrun
  obtain ⟨hisr, hmap⟩ := Prod.mk.inj hnext
  obtain ⟨b', hb', hhistory⟩ := Option.map_eq_some_iff.mp hmap
  simp only [Prod.mk.injEq] at hhistory
  exact ⟨b, b', hb, ⟨hisr, rfl⟩, hb', hhistory⟩

theorem presses_kept_one : ∃ b b' : Board,
    Machine.exec (step fun _ => 0) {} (served 0b1110#4) = some b ∧
      b.step (fun _ => 0) ⟨0b1110#4, .isr⟩ = some b' ∧
      ∀ k, Fell b' k → Posted b b' k ∨ Captured b' k := by
  obtain ⟨b, b', hb, hret, hb', hbefore, hearly, -⟩ :=
    @served_returns 0b1110#4 1#4 1#4 0#4 (by decide)
  refine ⟨b, b', hb, hb', (presses_kept_iff (.of_exec hb) hret hb').mpr fun k hk => Or.inl ?_⟩
  rw [hbefore] at hk
  rw [hearly]
  cases k with
  | start => rfl
  | resp => exact absurd (by decide) hk

/-- KEY0 and KEY1 fall in one cycle: neither is posted, and both bits are gone. -/
theorem presses_lost :
    ¬ ∀ (rand : ℕ → ℕ) (b b' : Board) (c : Cycle), Machine.Reach (step rand) {} b → Returns b c →
      b.step rand c = some b' → ∀ k, Fell b' k → Posted b b' k ∨ Captured b' k := by
  intro hall
  obtain ⟨b, b', hb, hret, hb', hbefore, hearly, hsince⟩ :=
    @served_returns 0b1100#4 3#4 3#4 0#4 (by decide)
  have hsticky := sticky_reach (.of_exec hb)
  have hfell : Fell b' .start := by
    rw [Fell, hbefore, hsince]
    decide
  rcases hall _ b b' _ (.of_exec hb) hret hb' .start hfell with hposted | hcaptured
  · rw [posted_iff hsticky hret hb', hearly] at hposted
    exact absurd hposted (by decide)
  · rw [Captured, (hsticky.step hb').capture, hsince] at hcaptured
    exact absurd hcaptured (by decide)

end Board

end Rtos

end ReactionMeter
