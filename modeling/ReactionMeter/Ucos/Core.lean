import ReactionMeter.Lib.PrioTable
import ReactionMeter.Lib.Ring
import Mathlib.Data.BitVec

/-!
# The kernel

The core of µC/OS-II (`os_core.c`) as the two programs are configured with it: 64 priorities at
most, event control blocks for semaphores and queues, no scheduler lock and no task suspended. The
state is what the kernel keeps in global variables after `OSStart`. A priority is also the name of
its task.

A task that waits is taken out of the ready list and put in the wait list of the event. A tick that
ends its time only makes it ready: it stays in the wait list until it runs again and removes itself,
and a post that comes before still finds it there.
-/

namespace ReactionMeter

namespace Ucos

/-- A priority, which is also the task that has it. -/
abbrev Prio := Fin (8 * 8)

instance neZero_prios : NeZero (8 * 8) := ⟨by decide⟩

/-- `OSRdyGrp` and `OSRdyTbl`, or `OSEventGrp` and `OSEventTbl`. -/
abbrev Table := PrioTable 8 8

/-- `OS_TASK_IDLE_PRIO`, that is `OS_LOWEST_PRIO`. -/
def osTaskIdlePrio : Prio := 20

/-- A message, a pointer that the kernel does not look behind. -/
abbrev Msg := ℕ

def osUnMapTbl : List (Fin 8) := [
  0, 0, 1, 0, 2, 0, 1, 0, 3, 0, 1, 0, 2, 0, 1, 0,
  4, 0, 1, 0, 2, 0, 1, 0, 3, 0, 1, 0, 2, 0, 1, 0,
  5, 0, 1, 0, 2, 0, 1, 0, 3, 0, 1, 0, 2, 0, 1, 0,
  4, 0, 1, 0, 2, 0, 1, 0, 3, 0, 1, 0, 2, 0, 1, 0,
  6, 0, 1, 0, 2, 0, 1, 0, 3, 0, 1, 0, 2, 0, 1, 0,
  4, 0, 1, 0, 2, 0, 1, 0, 3, 0, 1, 0, 2, 0, 1, 0,
  5, 0, 1, 0, 2, 0, 1, 0, 3, 0, 1, 0, 2, 0, 1, 0,
  4, 0, 1, 0, 2, 0, 1, 0, 3, 0, 1, 0, 2, 0, 1, 0,
  7, 0, 1, 0, 2, 0, 1, 0, 3, 0, 1, 0, 2, 0, 1, 0,
  4, 0, 1, 0, 2, 0, 1, 0, 3, 0, 1, 0, 2, 0, 1, 0,
  5, 0, 1, 0, 2, 0, 1, 0, 3, 0, 1, 0, 2, 0, 1, 0,
  4, 0, 1, 0, 2, 0, 1, 0, 3, 0, 1, 0, 2, 0, 1, 0,
  6, 0, 1, 0, 2, 0, 1, 0, 3, 0, 1, 0, 2, 0, 1, 0,
  4, 0, 1, 0, 2, 0, 1, 0, 3, 0, 1, 0, 2, 0, 1, 0,
  5, 0, 1, 0, 2, 0, 1, 0, 3, 0, 1, 0, 2, 0, 1, 0,
  4, 0, 1, 0, 2, 0, 1, 0, 3, 0, 1, 0, 2, 0, 1, 0]

/-- `OSUnMapTbl[b]`. -/
def unMap (b : BitVec 8) : Fin 8 := osUnMapTbl.getD b.toNat 0

/-- The table gives the least set bit. -/
theorem unMap_eq_lowest (b : BitVec 8) : unMap b = b.lowest := by
  revert b
  decide +kernel

/-- The priority of a row and a bit, `(y << 3) + x`. -/
def prioOf (y x : Fin 8) : Prio := ⟨(y.val <<< 3) + x.val, by rw [Nat.shiftLeft_eq]; omega⟩

/-- The search of `OS_SchedNew` and `OS_EventTaskRdy`: two look-ups in the table. -/
def highest (t : Table) : Prio :=
  let y := unMap t.grp
  prioOf y (unMap (t.row y))

theorem highest_eq_first (t : Table) : highest t = t.first := by
  apply Fin.ext
  simp only [highest, unMap_eq_lowest, prioOf, PrioTable.first, finProdFinEquiv_apply_val,
    Nat.shiftLeft_eq]
  omega

/-! ## Control blocks -/

/-- `OSTCBStatPend`. -/
inductive PendStat
  | ok
  | timeout
  | abort
  deriving DecidableEq, Repr

def osStatRdy : BitVec 8 := 0x00#8
def osStatSem : BitVec 8 := 0x01#8
def osStatMbox : BitVec 8 := 0x02#8
def osStatQ : BitVec 8 := 0x04#8
def osStatSuspend : BitVec 8 := 0x08#8
def osStatMutex : BitVec 8 := 0x10#8
def osStatFlag : BitVec 8 := 0x20#8

def osStatPendAny : BitVec 8 := osStatSem ||| osStatMbox ||| osStatQ ||| osStatMutex ||| osStatFlag

/-- `OS_TCB`. -/
structure Tcb where
  stat : BitVec 8 := osStatRdy
  statPend : PendStat := .ok
  dly : ℕ := 0
  msg : Msg := 0
  deriving DecidableEq, Repr

/-- `OS_Q`, with the pointers as indices into the buffer. -/
structure OsQ where
  buf : ℕ → Msg
  qSize : ℕ
  qIn : ℕ
  qOut : ℕ
  qEntries : ℕ
  out_lt : qOut < qSize
  entries_le : qEntries ≤ qSize
  in_eq : qIn = (qOut + qEntries) % qSize

/-- What an event control block is for, `OSEventType` with the count or the queue. -/
inductive Obj
  | sem (cnt : ℕ)
  | queue (q : OsQ)

/-- The bit of `OSTCBStat` a task has while it waits for the object. -/
def Obj.stat : Obj → BitVec 8
  | .sem _ => osStatSem
  | .queue _ => osStatQ

/-- `OS_EVENT`. -/
structure Event where
  obj : Obj
  wait : Table := PrioTable.empty

/-- The global variables. `tcbList` is `OSTCBList` up to the idle task. -/
structure Kernel where
  rdy : Table
  prioCur : Prio
  intNesting : ℕ := 0
  time : BitVec 32 := 0#32
  tcbList : List Prio
  tcb : Prio → Tcb := fun _ => {}
  ev : ℕ → Event

/-- The error codes `OS_ERR_*`. -/
inductive Err
  | none
  | timeout
  | pendAbort
  | eventType
  | pendIsr
  | semOvf
  | qFull
  | taskWaiting
  | timeDlyIsr
  | timeZeroDly
  | timeInvalidMinutes
  | timeInvalidSeconds
  | timeInvalidMs
  deriving DecidableEq, Repr

namespace Kernel

variable (k : Kernel)

def setTcb (p : Prio) (t : Tcb) : Kernel := { k with tcb := Function.update k.tcb p t }

def setWait (e : ℕ) (w : Table) : Kernel :=
  { k with ev := Function.update k.ev e { k.ev e with wait := w } }

def setObj (e : ℕ) (o : Obj) : Kernel :=
  { k with ev := Function.update k.ev e { k.ev e with obj := o } }

/-! ## The functions of `os_core.c` -/

/-- `OS_SchedNew`, the value of `OSPrioHighRdy`. -/
def osSchedNew : Prio := highest k.rdy

/-- `OS_Sched`. The context switch is the change of `OSPrioCur`. -/
def osSched : Kernel :=
  if k.intNesting = 0 then { k with prioCur := k.osSchedNew } else k

/-- `OSIntEnter`. -/
def osIntEnter : Kernel :=
  if k.intNesting < 255 then { k with intNesting := k.intNesting + 1 } else k

/-- `OSIntExit`. -/
def osIntExit : Kernel :=
  let k := if 0 < k.intNesting then { k with intNesting := k.intNesting - 1 } else k
  if k.intNesting = 0 then { k with prioCur := k.osSchedNew } else k

/-- `OS_EventTaskRemove`. -/
def osEventTaskRemove (p : Prio) (e : ℕ) : Kernel := k.setWait e ((k.ev e).wait.erase p)

/-- `OS_EventTaskWait`. -/
def osEventTaskWait (e : ℕ) : Kernel :=
  let k := k.setWait e ((k.ev e).wait.insert k.prioCur)
  { k with rdy := k.rdy.erase k.prioCur }

/-- `OS_EventTaskRdy`: the task of highest priority in the wait list gets the message. -/
def osEventTaskRdy (e : ℕ) (msg : Msg) (msk : BitVec 8) (pendStat : PendStat) : Kernel :=
  let p := highest (k.ev e).wait
  let t : Tcb :=
    { dly := 0, msg := msg, stat := (k.tcb p).stat &&& ~~~msk, statPend := pendStat }
  let k := k.setTcb p t
  let k := if t.stat &&& osStatSuspend = osStatRdy then { k with rdy := k.rdy.insert p } else k
  k.osEventTaskRemove p e

/-- The body of the loop of `OSTimeTick`. -/
def tickTask (p : Prio) : Kernel :=
  let t := k.tcb p
  if t.dly ≠ 0 then
    let t := { t with dly := t.dly - 1 }
    if t.dly = 0 then
      let t :=
        if t.stat &&& osStatPendAny ≠ osStatRdy then
          { t with stat := t.stat &&& ~~~osStatPendAny, statPend := .timeout }
        else { t with statPend := .ok }
      let k := k.setTcb p t
      if t.stat &&& osStatSuspend = osStatRdy then { k with rdy := k.rdy.insert p } else k
    else k.setTcb p t
  else k

/-- `OSTimeTick`. -/
def osTimeTick : Kernel :=
  let k := { k with time := k.time + 1 }
  k.tcbList.foldl tickTask k

end Kernel

end Ucos

end ReactionMeter
