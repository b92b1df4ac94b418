import ReactionMeter.App
import ReactionMeter.Isr

/-!
# The Qsys system

`qsys_main.c` on top of the register file: the `reaction_meter` task, the console task as far as
it feeds the player queue, the semaphores, and the interrupt service routine of `Isr`. One step of
`Sys` is one cycle of the 50 MHz clock. In it the processor does nothing visible, or makes the next
step of the routine, of the task, or of the console; how long code takes between two steps is left
open. The buttons are an input of every cycle.

A semaphore is the queue of its tokens. `OSSemPend` takes the oldest token if there is one, and
otherwise waits; a wait of `n` ticks may end once `n` ticks of 50000 cycles have begun. The code
sees only whether a queue is empty: the number a token carries is the round in which it was
posted, and is history like `played`, `measured`, `read` and `released`.

* `played`: the number of the `start_counting_sem` token taken last.
* `measured`: the round and the value of the latest response the meter has measured.
* `read`: `measured` as it was when the task last read the response time.
* `released`: the number of the `restart_sem` token taken last.
-/

namespace ReactionMeter

namespace Qsys

def fixedDelay : ℕ := 2000

/-- Cycles of the clock in one tick of the operating system. -/
def tickCycles : ℕ := 50000

/-- Where the task stands. A pend is a place of its own, and so is each edge of a bus read. -/
inductive TaskPc
  | idle
  /-- `OSQPend(player_queue, 0)` in `user_register`. -/
  | register
  /-- `OSSemPend(start_sem, 0)`. -/
  | ready
  | start
  /-- `OSSemPend(start_counting_sem, 0)`. -/
  | armed
  /-- The head of the loop in `COUNT`. -/
  | count (time : ℕ)
  /-- `OSSemPend(stop_sem, 100)`, until the tick `deadline`. -/
  | pendStop (time deadline : ℕ)
  /-- `IORD_16DIRECT(RESPONSE_TIME_METER_0_BASE, 2)`, first and second edge. -/
  | readTime
  | readTime2
  | judge (value : BitVec 16)
  | stop
  /-- `OSSemPend(restart_sem, 100)`, until the tick `deadline`. -/
  | pendRestart (deadline : ℕ) (newHighscore : Bool)
  deriving DecidableEq, Repr

/-- The variable `state`. -/
def TaskPc.state : TaskPc → States
  | .idle | .register | .ready => .idle
  | .start | .armed => .start
  | .count _ | .pendStop _ _ | .readTime | .readTime2 | .judge _ => .count
  | .stop | .pendRestart _ _ => .stop

/-- The tokens in the four semaphores, oldest first. -/
structure Sems where
  start : List ℕ := []
  startCounting : List ℕ := []
  stop : List ℕ := []
  restart : List ℕ := []
  deriving DecidableEq, Repr

/-- `OSSemPost`. -/
def Sems.post (σ : Sems) (q : SemId) (token : ℕ) : Sems :=
  match q with
  | .start => { σ with start := σ.start ++ [token] }
  | .startCounting => { σ with startCounting := σ.startCounting ++ [token] }
  | .stop => { σ with stop := σ.stop ++ [token] }
  | .restart => { σ with restart := σ.restart ++ [token] }

/-- The system. `queue` is the number of pointers in `player_queue`: they are all equal. -/
structure Sys where
  io : IrqSys := { hw := { delay := fixedDelay } }
  sems : Sems := {}
  queue : ℕ := 0
  pc : TaskPc := .idle
  vars : Vars := {}
  clock : ℕ := 0
  played : ℕ := 0
  measured : ℕ × ℕ := (0, 0)
  read : ℕ × ℕ := (0, 0)
  released : ℕ := 0
  deriving DecidableEq, Repr

/-- What the processor does in a cycle. -/
inductive Cpu
  | stall
  | isr
  | task
  | console
  deriving DecidableEq, Repr

structure Act where
  buttons : BitVec 2 := 0b11#2
  cpu : Cpu
  deriving DecidableEq, Repr

namespace Sys

/-- The meter's `next_state`. -/
def phase (s : Sys) : StateT := s.io.hw.meter.nextState

/-- The number of rounds the meter has begun. -/
def round (s : Sys) : ℕ := s.io.transitions.count .start

/-- The tick count of the operating system. -/
def now (s : Sys) : ℕ := s.clock / tickCycles

/-- The post and the output at the end of `isr`. -/
def serve (s : Sys) : Sys :=
  match s.io.isr with
  | .posting c =>
    { s with
      sems := match semOf c with
        | some q => s.sems.post q s.round
        | none => s.sems
      vars := s.vars.measure c.toNat }
  | _ => s

/-- `OSQPost`; the result is not looked at. -/
def postName (s : Sys) : Sys :=
  { s with queue := if s.queue < maxMsgAmt then s.queue + 1 else s.queue }

/-- One step of the task, with its bus access. A wait that cannot end yet is no step. -/
def taskStep (s : Sys) : Option (Sys × BusOp) :=
  match s.pc with
  | .idle =>
    let v := (s.vars.measure States.idle.index).showHome.writeLeds
    some ({ s with
      vars := v.countRound
      pc := if v.mustRegister then .register else .ready }, .idle)
  | .register =>
    if 0 < s.queue then
      some ({ s with queue := s.queue - 1, vars := s.vars.registered, pc := .ready }, .idle)
    else none
  | .ready =>
    match s.sems.start with
    | [] => none
    | _ :: ts => some ({ s with sems := { s.sems with start := ts }, pc := .start }, .idle)
  | .start =>
    some ({ s with
      vars := (s.vars.measure States.start.index).showScore 0
      pc := .armed }, .idle)
  | .armed =>
    match s.sems.startCounting with
    | [] => none
    | t :: ts =>
      some ({ s with
        sems := { s.sems with startCounting := ts }
        vars := s.vars.measure States.count.index
        played := t
        pc := .count 0 }, .idle)
  | .count time =>
    if time < 20 then
      some ({ s with
        vars := { s.vars with leds := s.vars.leds <<< 1 ||| 1#16 }.writeLeds
        pc := .pendStop time (s.now + 100) }, .idle)
    else some ({ s with pc := .idle }, .idle)
  | .pendStop time deadline =>
    match s.sems.stop with
    | _ :: ts => some ({ s with sems := { s.sems with stop := ts }, pc := .readTime }, .idle)
    | [] => if deadline ≤ s.now then some ({ s with pc := .count (time + 1) }, .idle) else none
  | .readTime => some ({ s with read := s.measured, pc := .readTime2 }, .readTime)
  | .readTime2 => some ({ s with pc := .judge s.io.hw.readdata }, .readTime)
  | .judge value =>
    some ({ s with
      vars := { s.vars with responseTime := value.toNat }
      pc := if minRespTime ≤ value.toNat then .stop else .idle }, .idle)
  | .stop =>
    let (v, newHighscore) := (s.vars.measure States.stop.index).judgeScore
    some ({ s with vars := v, pc := .pendRestart (s.now + 100) newHighscore }, .idle)
  | .pendRestart deadline newHighscore =>
    match s.sems.restart with
    | t :: ts =>
      some ({ s with sems := { s.sems with restart := ts }, released := t, pc := .idle }, .idle)
    | [] =>
      if deadline ≤ s.now then
        some ({ s with
          vars := if newHighscore = true then s.vars.rotate else s.vars
          pc := .pendRestart (s.now + 100) newHighscore }, .idle)
      else none

/-- One rising edge of the hardware, after the step the software makes in the cycle. -/
def cycle (s : Sys) (b : BitVec 2) (op : BusOp) : Option Sys :=
  (s.io.step (b, op)).map fun io =>
    { s with
      io := io
      clock := s.clock + 1
      measured :=
        if s.phase = .count ∧ io.hw.meter.nextState = .stop then (s.round, io.hw.meter.respTime)
        else s.measured }

/-- One cycle of the system. The routine preempts the tasks, and nothing happens between the two
edges of a bus read. -/
def step (s : Sys) (a : Act) : Option Sys :=
  match a.cpu with
  | .stall => if s.pc = .readTime2 then none else s.cycle a.buttons .idle
  | .isr => if s.pc = .readTime2 then none else s.serve.cycle a.buttons .isr
  | .task =>
    if s.io.isr = .out then s.taskStep.bind fun r => r.1.cycle a.buttons r.2 else none
  | .console =>
    if s.pc = .readTime2 ∨ s.io.isr ≠ .out then none else s.postName.cycle a.buttons .idle

end Sys

end Qsys

end ReactionMeter
