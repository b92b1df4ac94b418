import ReactionMeter.Ucos.Services
import ReactionMeter.Lib.Transducer

/-!
# Tasks and interrupts on the kernel

The kernel with the tasks that call it. Nothing is assumed about what the tasks and the interrupt
routines do: any task but the idle task may make any call while it has the processor, interrupts
come at any time and nest, and an interrupt routine may post. A run is the list of what happens,
so every interleaving is a run.

A task is either in code of its own or in a call that it waits in. What can be seen of a step is
its output: the result of a post, and the result of a call to the task that made it.
-/

namespace ReactionMeter

namespace Ucos

/-- Where a task stands. -/
inductive Ctx
  | run
  /-- In `OSTimeDly`. -/
  | dly
  /-- In `OSSemPend` or `OSQPend`. -/
  | pend (e : ℕ)
  deriving DecidableEq, Repr

structure Sys where
  k : Kernel
  ctx : Prio → Ctx := fun _ => .run

inductive Act
  | intEnter
  | intExit
  | timeTick
  | semPost (e : ℕ)
  | qPost (e : ℕ) (msg : Msg)
  | semPend (e timeout : ℕ)
  | qPend (e timeout : ℕ)
  | semSet (e cnt : ℕ)
  | timeDly (ticks : ℕ)
  /-- The current task goes on behind `OS_Sched`. -/
  | resume
  deriving DecidableEq, Repr

/-- The event a call is about. -/
def Act.event : Act → Option ℕ
  | .semPost e | .qPost e _ | .semPend e _ | .qPend e _ | .semSet e _ => some e
  | _ => none

inductive Out
  | silent
  /-- A post, with the task it was handed to. -/
  | posted (e : ℕ) (msg : Msg) (receiver : Option Prio) (err : Err)
  /-- A pend of task `p` returns. -/
  | pended (p : Prio) (e : ℕ) (msg : Msg) (err : Err)
  | set (e cnt : ℕ) (err : Err)
  deriving DecidableEq, Repr

namespace Sys

variable (s : Sys)

/-- The current task is in its own code and has the processor. The idle task makes no calls. -/
def InCode : Prop :=
  s.k.intNesting = 0 ∧ s.ctx s.k.prioCur = .run ∧ s.k.prioCur ≠ osTaskIdlePrio

instance : Decidable s.InCode := by unfold InCode; infer_instance

/-- Interrupt routines and tasks may post. -/
def MayPost : Prop := 0 < s.k.intNesting ∨ s.InCode

instance : Decidable s.MayPost := by unfold MayPost; infer_instance

/-- The task a post on the event is handed to. -/
def receiver (e : ℕ) : Option Prio :=
  if (s.k.ev e).wait.grp ≠ 0#8 then some (highest (s.k.ev e).wait) else none

def setK (k : Kernel) : Sys := { s with k := k }

def setCtx (p : Prio) (c : Ctx) : Sys := { s with ctx := Function.update s.ctx p c }

/-- The current task behind `OS_Sched`. -/
def resume : Option (Sys × Out) :=
  let p := s.k.prioCur
  match s.ctx p with
  | .run => none
  | .dly => some (s.setCtx p .run, .silent)
  | .pend e =>
    match (s.k.ev e).obj with
    | .sem _ =>
      let r := s.k.osSemPendEnd e
      some ((s.setK r.1).setCtx p .run, .pended p e 0 r.2)
    | .queue _ =>
      let r := s.k.osQPendEnd e
      some ((s.setK r.1).setCtx p .run, .pended p e r.2.1 r.2.2)

def step (s : Sys) : Act → Option (Sys × Out)
  | .intEnter => some (s.setK s.k.osIntEnter, .silent)
  | .intExit =>
    if 0 < s.k.intNesting then some (s.setK s.k.osIntExit, .silent) else none
  | .timeTick =>
    if 0 < s.k.intNesting then some (s.setK s.k.osTimeTick, .silent) else none
  | .semPost e =>
    if s.MayPost then
      let r := s.k.osSemPost e
      some (s.setK r.1, .posted e 0 (s.receiver e) r.2)
    else none
  | .qPost e msg =>
    if s.MayPost then
      let r := s.k.osQPost e msg
      some (s.setK r.1, .posted e msg (s.receiver e) r.2)
    else none
  | .semPend e timeout =>
    if s.InCode then
      match s.k.osSemPend e timeout with
      | (k, some err) => some (s.setK k, .pended s.k.prioCur e 0 err)
      | (k, none) => some ((s.setK k).setCtx s.k.prioCur (.pend e), .silent)
    else none
  | .qPend e timeout =>
    if s.InCode then
      match s.k.osQPend e timeout with
      | (k, some (msg, err)) => some (s.setK k, .pended s.k.prioCur e msg err)
      | (k, none) => some ((s.setK k).setCtx s.k.prioCur (.pend e), .silent)
    else none
  | .semSet e cnt =>
    if s.InCode then
      let r := s.k.osSemSet e cnt
      some (s.setK r.1, .set e cnt r.2)
    else none
  | .timeDly ticks =>
    if s.InCode then
      if 0 < ticks then
        some ((s.setK (s.k.osTimeDly ticks)).setCtx s.k.prioCur .dly, .silent)
      else some (s.setK (s.k.osTimeDly ticks), .silent)
    else none
  | .resume => if s.k.intNesting = 0 then s.resume else none

/-- The system after `OSStart`: the tasks of the list have been created, and the events. -/
def start (tasks : List Prio) (obj : ℕ → Obj) : Sys where
  k :=
    let rdy := tasks.foldl PrioTable.insert (PrioTable.empty.insert osTaskIdlePrio)
    { rdy := rdy
      prioCur := highest rdy
      tcbList := tasks
      ev := fun e => { obj := obj e } }

end Sys

end Ucos

end ReactionMeter
