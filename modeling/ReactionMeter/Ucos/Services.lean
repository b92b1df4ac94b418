import ReactionMeter.Ucos.Core

/-!
# Semaphores, queues and delays

The services of the kernel that the programs use: `os_sem.c`, `os_q.c` and `os_time.c`.

A call that may suspend its task is two functions. The first is the call up to `OS_Sched`; it
returns no error code if the task waits now. The second is what the task does when it gets the
processor back, up to the return.
-/

namespace ReactionMeter

namespace Ucos

namespace OsQ

variable (q : OsQ)

/-- `*pq->OSQOut++`, with the pointer back at the start behind the last cell. -/
def extract (h : 0 < q.qEntries) : Msg × OsQ :=
  (q.buf q.qOut,
    { q with
      qOut := if q.qOut + 1 = q.qSize then 0 else q.qOut + 1
      qEntries := q.qEntries - 1
      out_lt := by
        have := q.out_lt
        split_ifs <;> omega
      entries_le := (Nat.sub_le _ _).trans q.entries_le
      in_eq := by
        rw [← Ring.next_eq_ite q.out_lt, Ring.mod_next_add, q.in_eq]
        congr 1
        omega })

/-- `*pq->OSQIn++ = pmsg`. -/
def enter (msg : Msg) (h : q.qEntries < q.qSize) : OsQ where
  buf := Function.update q.buf q.qIn msg
  qSize := q.qSize
  qIn := if q.qIn + 1 = q.qSize then 0 else q.qIn + 1
  qOut := q.qOut
  qEntries := q.qEntries + 1
  out_lt := q.out_lt
  entries_le := h
  in_eq := by
    have hin : q.qIn < q.qSize := by
      rw [q.in_eq]
      exact Nat.mod_lt _ (Nat.zero_lt_of_lt h)
    rw [← Ring.next_eq_ite hin, q.in_eq, Ring.next_add_mod]

/-- The messages in the queue, the oldest first. -/
def contents : List Msg := Ring.window q.qSize q.buf q.qOut q.qEntries

theorem length_contents : q.contents.length = q.qEntries := Ring.length_window

theorem contents_extract (h : 0 < q.qEntries) :
    q.contents = (q.extract h).1 :: (q.extract h).2.contents := by
  obtain ⟨n, hn⟩ : ∃ n, q.qEntries = n + 1 := ⟨q.qEntries - 1, by omega⟩
  simp only [contents, extract, hn, Nat.add_sub_cancel, ← Ring.next_eq_ite q.out_lt]
  exact Ring.window_pop q.out_lt

theorem contents_enter (msg : Msg) (h : q.qEntries < q.qSize) :
    (q.enter msg h).contents = q.contents ++ [msg] := by
  simp only [contents, enter, q.in_eq]
  exact Ring.window_push h msg

end OsQ

/-- The queue that `OSQCreate` sets up. -/
def osQCreate (start : ℕ → Msg) (size : ℕ) (h : 0 < size) : Obj :=
  .queue
    { buf := start
      qSize := size
      qIn := 0
      qOut := 0
      qEntries := 0
      out_lt := h
      entries_le := Nat.zero_le _
      in_eq := by simp }

/-- `OSSemCreate`. -/
def osSemCreate (cnt : ℕ) : Obj := .sem cnt

/-- `OS_TICKS_PER_SEC`. -/
def osTicksPerSec : ℕ := 1000

namespace Kernel

variable (k : Kernel)

/-- The current task waits for the event, for `timeout` ticks at most if `timeout` is not zero. -/
def pendOn (e timeout : ℕ) : Kernel :=
  let p := k.prioCur
  let t := k.tcb p
  let k := k.setTcb p
    { t with stat := t.stat ||| (k.ev e).obj.stat, statPend := .ok, dly := timeout }
  (k.osEventTaskWait e).osSched

/-- What the current task finds when it runs again. -/
def pendResult (e : ℕ) : Kernel × Err :=
  match (k.tcb k.prioCur).statPend with
  | .ok => (k, .none)
  | .abort => (k, .pendAbort)
  | .timeout => (k.osEventTaskRemove k.prioCur e, .timeout)

/-! ## `os_sem.c` -/

/-- `OSSemPend`, up to `OS_Sched`. -/
def osSemPend (e timeout : ℕ) : Kernel × Option Err :=
  match (k.ev e).obj with
  | .queue _ => (k, some .eventType)
  | .sem cnt =>
    if 0 < k.intNesting then (k, some .pendIsr)
    else if 0 < cnt then (k.setObj e (.sem (cnt - 1)), some .none)
    else (k.pendOn e timeout, none)

/-- `OSSemPend`, from `OS_Sched` on. -/
def osSemPendEnd (e : ℕ) : Kernel × Err :=
  let r := k.pendResult e
  (r.1.setTcb k.prioCur { r.1.tcb k.prioCur with stat := osStatRdy, statPend := .ok }, r.2)

/-- `OSSemPost`. -/
def osSemPost (e : ℕ) : Kernel × Err :=
  match (k.ev e).obj with
  | .queue _ => (k, .eventType)
  | .sem cnt =>
    if (k.ev e).wait.grp ≠ 0#8 then ((k.osEventTaskRdy e 0 osStatSem .ok).osSched, .none)
    else if cnt < 65535 then (k.setObj e (.sem (cnt + 1)), .none)
    else (k, .semOvf)

/-- `OSSemSet`. -/
def osSemSet (e cnt : ℕ) : Kernel × Err :=
  match (k.ev e).obj with
  | .queue _ => (k, .eventType)
  | .sem old =>
    if 0 < old then (k.setObj e (.sem cnt), .none)
    else if (k.ev e).wait.grp = 0#8 then (k.setObj e (.sem cnt), .none)
    else (k, .taskWaiting)

/-! ## `os_q.c` -/

/-- `OSQPend`, up to `OS_Sched`. -/
def osQPend (e timeout : ℕ) : Kernel × Option (Msg × Err) :=
  match (k.ev e).obj with
  | .sem _ => (k, some (0, .eventType))
  | .queue q =>
    if 0 < k.intNesting then (k, some (0, .pendIsr))
    else if h : 0 < q.qEntries then
      (k.setObj e (.queue (q.extract h).2), some ((q.extract h).1, .none))
    else (k.pendOn e timeout, none)

/-- `OSQPend`, from `OS_Sched` on. -/
def osQPendEnd (e : ℕ) : Kernel × Msg × Err :=
  let r := k.pendResult e
  let msg := match r.2 with
    | .none => (k.tcb k.prioCur).msg
    | _ => 0
  (r.1.setTcb k.prioCur { r.1.tcb k.prioCur with stat := osStatRdy, statPend := .ok, msg := 0 },
    msg, r.2)

/-- `OSQPost`. -/
def osQPost (e : ℕ) (msg : Msg) : Kernel × Err :=
  match (k.ev e).obj with
  | .sem _ => (k, .eventType)
  | .queue q =>
    if (k.ev e).wait.grp ≠ 0#8 then ((k.osEventTaskRdy e msg osStatQ .ok).osSched, .none)
    else if h : q.qEntries < q.qSize then (k.setObj e (.queue (q.enter msg h)), .none)
    else (k, .qFull)

/-! ## `os_time.c` -/

/-- `OSTimeDly`, up to `OS_Sched`. Nothing is left to do behind it. -/
def osTimeDly (ticks : ℕ) : Kernel :=
  if 0 < k.intNesting then k
  else if 0 < ticks then
    let k := { k with rdy := k.rdy.erase k.prioCur }
    let k := k.setTcb k.prioCur { k.tcb k.prioCur with dly := ticks }
    k.osSched
  else k

/-- `OSTimeDlyHMSM`: the arguments of its calls of `OSTimeDly`, in order. -/
def osTimeDlyHMSM (hours minutes seconds ms : ℕ) : Except Err (List ℕ) :=
  if 0 < k.intNesting then .error .timeDlyIsr
  else if hours = 0 ∧ minutes = 0 ∧ seconds = 0 ∧ ms = 0 then .error .timeZeroDly
  else if 59 < minutes then .error .timeInvalidMinutes
  else if 59 < seconds then .error .timeInvalidSeconds
  else if 999 < ms then .error .timeInvalidMs
  else
    let ticks := (hours * 3600 + minutes * 60 + seconds) * osTicksPerSec +
      osTicksPerSec * (ms + 500 / osTicksPerSec) / 1000
    let loops := ticks >>> 16
    .ok ((ticks &&& 0xFFFF) :: List.replicate (2 * loops) 32768)

/-- `OSTimeGet`. -/
def osTimeGet : BitVec 32 := k.time

end Kernel

end Ucos

end ReactionMeter
