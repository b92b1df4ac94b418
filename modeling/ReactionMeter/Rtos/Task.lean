import ReactionMeter.App
import ReactionMeter.Lib.Clocked

/-!
# The RTOS system

`rtos_main.cpp`: the whole state machine is the `reaction_meter` task, and the buttons are a
parallel port. The four lines of the port are low while a key is down, and every falling edge has
`button_isr` post a semaphore, whatever the task is doing.

A run is driven by events: a tick of the operating system, a call of `button_isr`, a new level of
the port, a name from the console, and a chance for the task to run. A task that waits lets its
chance pass. Nothing is assumed about the order of events, so every timing of keys and processor is
a run.

`rand` is the value of `rand()` after `srand` with the given seed; the library is not part of the
sources.

The fields after `vars` are history. A token carries the number of the event that posted it.

* `entered`: the event in which the task has last entered COUNT.
* `timeouts`: the pends on `stop_sem` that have timed out since then.
* `taken`: the number of the `stop_sem` token taken last.
* `visits`: the states the task has been in, with `response_time` on entry.
-/

namespace ReactionMeter

namespace Rtos

def maxRandDelay : ℕ := 2000
def minRandDelay : ℕ := 1000
def respTimeout : ℕ := 1000

/-- `START_KEY` and `RESP_KEY`. -/
inductive Key
  | start
  | resp
  deriving DecidableEq, Repr

/-- The mask of a key, which is also the `pin` its interrupt passes to `button_isr`. -/
def Key.pin : Key → BitVec 4
  | .start => 1#4
  | .resp => 2#4

/-- `buttons_c::pressed`, on the data register of the port. -/
def pressed (data : BitVec 4) (k : Key) : Prop := data &&& k.pin = 0#4

instance (data : BitVec 4) (k : Key) : Decidable (pressed data k) := by
  unfold pressed; infer_instance

/-- Where the task stands. A wait is a place of its own, with the tick it lasts until. -/
inductive TaskPc
  | idle
  /-- `OSQPend(player_queue, 0)` in `user_register`. -/
  | register
  /-- `OSSemPend(start_sem, 0)`. -/
  | ready
  | start
  /-- `while(buttons.pressed(START_KEY))`. -/
  | pollStart
  /-- `OSTimeDlyHMSM(0, 0, 0, 1)`. -/
  | waitStart (deadline : ℕ)
  | delay
  /-- `OSTimeDly(delay)`. -/
  | delayWait (delay deadline : ℕ)
  /-- `while(buttons.pressed(RESP_KEY))`, in `DELAY`. -/
  | cheatCheck (delay : ℕ)
  /-- The head of the loop in `COUNT`. -/
  | count (time : ℕ)
  /-- `OSSemPend(stop_sem, 1)`. -/
  | pendStop (time deadline : ℕ)
  | stop
  /-- `while(buttons.pressed(RESP_KEY))`, in `STOP`. -/
  | pollStop (newHighscore : Bool)
  /-- `OSTimeDlyHMSM(0, 0, 0, 100)`. -/
  | waitStop (newHighscore : Bool) (deadline : ℕ)
  deriving DecidableEq, Repr

/-- The variable `state`. -/
def TaskPc.state : TaskPc → States
  | .idle | .register | .ready => .idle
  | .start | .pollStart | .waitStart _ => .start
  | .delay | .delayWait _ _ | .cheatCheck _ => .delay
  | .count _ | .pendStop _ _ => .count
  | .stop | .pollStop _ | .waitStop _ _ => .stop

/-- The system. `queue` is the number of pointers in `player_queue`. -/
structure Sys where
  data : BitVec 4 := 0b1111#4
  startSem : List ℕ := []
  stopSem : List ℕ := []
  queue : ℕ := 0
  now : ℕ := 0
  pc : TaskPc := .idle
  vars : Vars := {}
  events : ℕ := 0
  entered : ℕ := 0
  timeouts : ℕ := 0
  taken : ℕ := 0
  visits : List (States × ℕ) := [(.idle, 0)]
  deriving DecidableEq, Repr

inductive Event
  | tick
  | isr (pin : BitVec 4)
  | pins (data : BitVec 4)
  | console
  | task
  deriving DecidableEq, Repr

namespace Sys

/-- `button_isr`. An interrupt for two keys at once posts nothing. -/
def buttonIsr (s : Sys) (pin : BitVec 4) : Sys :=
  if pin = Key.start.pin then { s with startSem := s.startSem ++ [s.events] }
  else if pin = Key.resp.pin then { s with stopSem := s.stopSem ++ [s.events] }
  else s

/-- `OSQPost`; the result is not looked at. -/
def postName (s : Sys) : Sys :=
  { s with queue := if s.queue < maxMsgAmt then s.queue + 1 else s.queue }

/-- `leds |= 1UL << time / (RESP_TIMEOUT / LED_AMT)`, on every hundredth pass of the loop. -/
def fillLeds (v : Vars) (time : ℕ) : Vars :=
  if time % (respTimeout / ledAmt) = 0 then
    { v with leds := v.leds ||| 1#16 <<< (time / (respTimeout / ledAmt)) }.writeLeds
  else v

variable (rand : ℕ → ℕ)

/-- `(rand() % MAX_RAND_DELAY) + MIN_RAND_DELAY`, seeded with `OSTimeGet()`. -/
def randDelay (now : ℕ) : ℕ := rand (now % 2 ^ 32) % maxRandDelay + minRandDelay

/-- One step of the task. A wait that cannot end yet is no step. -/
def taskStep (s : Sys) : Option Sys :=
  match s.pc with
  | .idle =>
    let v := (s.vars.measure States.idle.index).showHome
    if v.mustRegister then some { s with vars := v.countRound, pc := .register }
    else some { s with vars := v.countRound.writeLeds, pc := .ready }
  | .register =>
    if 0 < s.queue then
      some { s with queue := s.queue - 1, vars := s.vars.registered.writeLeds, pc := .ready }
    else none
  | .ready =>
    match s.startSem with
    | [] => none
    | _ :: ts => some { s with startSem := ts, pc := .start }
  | .start =>
    some { s with vars := (s.vars.measure States.start.index).showScore 0, pc := .pollStart }
  | .pollStart =>
    if pressed s.data .start then some { s with pc := .waitStart (s.now + 1) }
    else some { s with pc := .delay }
  | .waitStart deadline => if deadline ≤ s.now then some { s with pc := .pollStart } else none
  | .delay =>
    let d := randDelay rand s.now
    some { s with
      vars := s.vars.measure States.delay.index
      pc := .delayWait d (s.now + d) }
  | .delayWait d deadline => if deadline ≤ s.now then some { s with pc := .cheatCheck d } else none
  | .cheatCheck d =>
    if pressed s.data .resp then some { s with stopSem := [], pc := .delayWait d (s.now + d) }
    else
      some { s with
        vars := s.vars.measure States.count.index
        pc := .count 0
        entered := s.events
        timeouts := 0 }
  | .count time =>
    if time < respTimeout then
      some { s with vars := fillLeds s.vars time, pc := .pendStop time (s.now + 1) }
    else some { s with pc := .idle }
  | .pendStop time deadline =>
    match s.stopSem with
    | k :: ts =>
      if time < minRespTime then some { s with stopSem := ts, taken := k, pc := .idle }
      else
        some { s with
          stopSem := ts
          taken := k
          vars := { s.vars with responseTime := time }
          pc := .stop }
    | [] =>
      if deadline ≤ s.now then some { s with pc := .count (time + 1), timeouts := s.timeouts + 1 }
      else none
  | .stop =>
    let (v, newHighscore) := (s.vars.measure States.stop.index).judgeScore
    some { s with vars := v, pc := .pollStop newHighscore }
  | .pollStop newHighscore =>
    if pressed s.data .resp then some { s with pc := .waitStop newHighscore (s.now + 100) }
    else some { s with pc := .idle }
  | .waitStop newHighscore deadline =>
    if deadline ≤ s.now then
      some { s with
        vars := if newHighscore = true then s.vars.rotate else s.vars
        pc := .pollStop newHighscore }
    else none

/-- What an event does to the system itself. -/
def react (s : Sys) : Event → Sys
  | .tick => { s with now := s.now + 1 }
  | .isr pin => s.buttonIsr pin
  | .pins data => { s with data := data }
  | .console => s.postName
  | .task => (s.taskStep rand).getD s

/-- The history after an event: it is counted, and a state it enters is a visit. -/
def record (s t : Sys) : Sys :=
  { t with
    events := s.events + 1
    visits :=
      if t.pc.state = s.pc.state then s.visits
      else s.visits ++ [(t.pc.state, t.vars.responseTime)] }

def step (s : Sys) (e : Event) : Sys := record s (s.react rand e)

end Sys

end Rtos

end ReactionMeter
