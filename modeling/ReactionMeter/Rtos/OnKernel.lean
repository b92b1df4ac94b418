import ReactionMeter.Rtos.Task
import ReactionMeter.Ucos.Delays
import ReactionMeter.Lib.Machine

/-!
# The program on the kernel

`Rtos.Task` takes a semaphore to be a list of tokens and a wait to end when its time has come. Here
the same `reaction_meter` makes its calls to the kernel as it is in the sources, beside a console
task of lower priority and a statistics task. These and the interrupt routines may make any other
calls, too, in any order. Only the three event control blocks are used by nobody else than in the
sources.

The task runs in pieces, each from the return of a call that may wait to the next such call. A call
that does not wait is over at once, and the next piece begins with its result. `printf` of
`reaction_meter` itself may wait for the console, before a piece that begins in the code of the
task.
-/

namespace ReactionMeter

namespace Rtos

open Ucos (Act Out Err Ctx Prio)

/-- `TASK1_PRIORITY`, of `reaction_meter`. -/
def task1Priority : Prio := 1

/-- `TASK2_PRIORITY`, of `console`. -/
def task2Priority : Prio := 2

/-- `OS_TASK_STAT_PRIO`, of the statistics task of the kernel. -/
def statPriority : Prio := 19

/-! The event control blocks, in the order in which `main` creates them behind `running_sem`. -/

def startSem : ℕ := 1
def stopSem : ℕ := 2
def playerQueue : ℕ := 3

/-- What `main` creates. -/
def objects (e : ℕ) : Ucos.Obj :=
  if e = playerQueue then Ucos.osQCreate (fun _ => 0) maxMsgAmt (by decide) else Ucos.osSemCreate 0

/-- An event that only the program uses. -/
def Own (e : ℕ) : Prop := e = startSem ∨ e = stopSem ∨ e = playerQueue

instance : DecidablePred Own := fun e => by unfold Own; infer_instance

/-- Where the task stands in its code: `TaskPc` without the ends of the waits, which are the
kernel's business. -/
inductive Code
  | idle
  | register
  | ready
  | start
  | pollStart
  | waitStart
  | delay
  | delayWait (delay : ℕ)
  | cheatCheck (delay : ℕ)
  | count (time : ℕ)
  | pendStop (time : ℕ)
  | stop
  | pollStop (newHighscore : Bool)
  | waitStop (newHighscore : Bool)
  deriving DecidableEq, Repr

def TaskPc.code : TaskPc → Code
  | .idle => .idle
  | .register => .register
  | .ready => .ready
  | .start => .start
  | .pollStart => .pollStart
  | .waitStart _ => .waitStart
  | .delay => .delay
  | .delayWait d _ => .delayWait d
  | .cheatCheck d => .cheatCheck d
  | .count time => .count time
  | .pendStop time _ => .pendStop time
  | .stop => .stop
  | .pollStop new => .pollStop new
  | .waitStop new _ => .waitStop new

/-- The task is in a call of its own that may wait. -/
def Code.InCall : Code → Prop
  | .register | .ready | .waitStart | .delayWait _ | .pendStop _ | .waitStop _ => True
  | _ => False

instance : DecidablePred Code.InCall := fun c => by
  cases c <;> unfold Code.InCall <;> infer_instance

structure Program where
  os : Ucos.Sys
  data : BitVec 4 := 0b1111#4
  code : Code := .idle
  vars : Vars := {}

inductive ProgramEvent
  /-- Anything else: another task, another interrupt, or `printf`. -/
  | other (act : Act)
  /-- `button_isr`, in an interrupt. -/
  | isr (pin : BitVec 4)
  | pins (data : BitVec 4)
  /-- `OSQPost` of the console task. -/
  | console (name : Ucos.Msg)
  /-- The next piece of `reaction_meter`. -/
  | task
  deriving DecidableEq

namespace Program

variable (rand : ℕ → ℕ) (b : Program)

/-- What happens is not a call of `reaction_meter` from inside another. -/
def Elsewhere : Prop :=
  0 < b.os.k.intNesting ∨ b.os.k.prioCur ≠ task1Priority ∨ ¬ b.code.InCall

instance : Decidable b.Elsewhere := by unfold Elsewhere; infer_instance

/-- What others do: interrupts and ticks at any time, and calls that leave the program's events
alone. -/
def Other : Act → Prop
  | .intEnter | .intExit | .timeTick => True
  | .timeDly _ | .resume => b.Elsewhere
  | .semPost e | .qPost e _ | .semPend e _ | .qPend e _ | .semSet e _ => ¬ Own e ∧ b.Elsewhere

instance : DecidablePred b.Other := fun act => by cases act <;> unfold Other <;> infer_instance

/-- A step of the kernel. -/
def kernel (act : Act) : Option Program := (b.os.step act).map fun r => { b with os := r.1 }

/-- The task makes a call and is then at `code`. -/
def call (act : Act) (code : Code) (vars : Vars) : Option Program :=
  (b.os.step act).map fun r => { b with os := r.1, code := code, vars := vars }

/-- `OSTimeDlyHMSM(0, 0, 0, ms)`, which is one delay. -/
def callHMSM (ms : ℕ) (code : Code) : Option Program :=
  match b.os.k.osTimeDlyHMSM 0 0 0 ms with
  | .ok [ticks] => b.call (.timeDly ticks) code b.vars
  | _ => none

/-- The task goes on without a call. -/
def goOn (code : Code) (vars : Vars) : Option Program := some { b with code := code, vars := vars }

/-- The call the task is in returns, with `ret`. -/
def returned : Option (Program × Err) :=
  if b.os.ctx task1Priority = .run then some (b, .none)
  else
    (b.os.step .resume).map fun r =>
      ({ b with os := r.1 }, match r.2 with
        | .pended _ _ _ err => err
        | _ => .none)

/-- The next piece of `reaction_meter`. -/
def task : Option Program :=
  match b.code with
  | .idle =>
    let v := (b.vars.measure States.idle.index).showHome
    if v.mustRegister then b.call (.qPend playerQueue 0) .register v.countRound
    else b.call (.semPend startSem 0) .ready v.countRound.writeLeds
  | .register =>
    b.returned.bind fun (b, _) => b.call (.semPend startSem 0) .ready b.vars.registered.writeLeds
  | .ready => b.returned.bind fun (b, _) => b.goOn .start b.vars
  | .start => b.goOn .pollStart ((b.vars.measure States.start.index).showScore 0)
  | .pollStart =>
    if pressed b.data .start then b.callHMSM 1 .waitStart else b.goOn .delay b.vars
  | .waitStart => b.returned.bind fun (b, _) => b.goOn .pollStart b.vars
  | .delay =>
    let d := rand b.os.k.osTimeGet.toNat % maxRandDelay + minRandDelay
    b.call (.timeDly d) (.delayWait d) (b.vars.measure States.delay.index)
  | .delayWait d => b.returned.bind fun (b, _) => b.goOn (.cheatCheck d) b.vars
  | .cheatCheck d =>
    if pressed b.data .resp then
      (b.kernel (.semSet stopSem 0)).bind fun b => b.call (.timeDly d) (.delayWait d) b.vars
    else b.goOn (.count 0) (b.vars.measure States.count.index)
  | .count time =>
    if time < respTimeout then
      b.call (.semPend stopSem 1) (.pendStop time) (Sys.fillLeds b.vars time)
    else b.goOn .idle b.vars
  | .pendStop time =>
    b.returned.bind fun (b, ret) =>
      if ret ≠ .timeout then
        if time < minRespTime then b.goOn .idle b.vars
        else b.goOn .stop { b.vars with responseTime := time }
      else b.goOn (.count (time + 1)) b.vars
  | .stop =>
    let (v, newHighscore) := (b.vars.measure States.stop.index).judgeScore
    b.goOn (.pollStop newHighscore) v
  | .pollStop newHighscore =>
    if pressed b.data .resp then b.callHMSM 100 (.waitStop newHighscore) else b.goOn .idle b.vars
  | .waitStop newHighscore =>
    b.returned.bind fun (b, _) =>
      b.goOn (.pollStop newHighscore) (if newHighscore = true then b.vars.rotate else b.vars)

def step (b : Program) : ProgramEvent → Option Program
  | .other act => if b.Other act then b.kernel act else none
  | .isr pin =>
    if 0 < b.os.k.intNesting then
      if pin = Key.start.pin then b.kernel (.semPost startSem)
      else if pin = Key.resp.pin then b.kernel (.semPost stopSem)
      else some b
    else none
  | .pins data => some { b with data := data }
  | .console name =>
    if b.os.k.intNesting = 0 ∧ b.os.k.prioCur = task2Priority then
      b.kernel (.qPost playerQueue name)
    else none
  | .task =>
    if b.os.k.intNesting = 0 ∧ b.os.k.prioCur = task1Priority ∧
        (b.code.InCall ∨ b.os.ctx task1Priority = .run) then
      b.task rand
    else none

/-- After `OSStart`. -/
def main : Program where
  os := Ucos.Sys.start [task1Priority, task2Priority, statPriority] objects

end Program

end Rtos

end ReactionMeter
