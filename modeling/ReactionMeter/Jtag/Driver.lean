import Mathlib.Logic.Function.Basic
import ReactionMeter.Jtag.Uart
import ReactionMeter.Lib.Machine

/-!
# The driver of the JTAG UART

`altera_avalon_jtag_uart_init.c`, `_read.c` and `_write.c`, which are behind `getchar` and `printf` of
both applications: two circular buffers between the tasks and an interrupt service routine, a
semaphore for each direction, and a group of event flags (`OSFlagPend` and `OSFlagPost` of
`os_flag.c`) that a task waits on.

`T` are the tasks: any number of them, each in any call. A step of `Sys` is a clock edge, a call, or
one piece of a task or of the service routine with at most one access to a shared variable or to the
bus. The tasks preempt each other anywhere, and the routine preempts them anywhere; they do not run
while it does. `memcpy` goes byte by byte.

A semaphore has one token, and the model keeps who has taken it. `delivered` and `written` are
history: what reads have put into their callers' buffers, and what writes have taken from theirs, in
the order in which the semaphores were released.

The options of `public.mk` leave the fast driver and report a full buffer. The operating system is
running when the driver is called.
-/

namespace ReactionMeter

namespace Jtag

/-- `ALTERA_AVALON_JTAG_UART_BUF_LEN`. -/
def bufLen : ℕ := 2048

theorem bufLen_pos : 0 < bufLen := by decide

/-- `ALTERA_AVALON_JTAG_UART_DEFAULT_TIMEOUT`, the value of `sp->timeout`. -/
def timeout : ℕ := 10

def intMax : ℕ := 2147483647

/-! ## Event flags -/

def readRdy : BitVec 16 := 0x1#16
def writeRdy : BitVec 16 := 0x2#16
def timeoutFlag : BitVec 16 := 0x4#16

/-- The flags a read waits for. -/
def readFlags : BitVec 16 := readRdy ||| timeoutFlag

/-- The flags a write waits for. -/
def writeFlags : BitVec 16 := writeRdy ||| timeoutFlag

/-! ## Tasks -/

/-- The variables of `altera_avalon_jtag_uart_read`. `got` is the caller's buffer up to `ptr`. -/
structure ReadVars where
  got : List (BitVec 8) := []
  space : ℕ
  nonblock : Bool
  inp : ℕ := 0
  deriving DecidableEq, Repr

/-- The variables of `altera_avalon_jtag_uart_write`: the caller's buffer up to `ptr`, and the `count`
bytes from there on. -/
structure WriteVars where
  done : List (BitVec 8) := []
  rest : List (BitVec 8)
  nonblock : Bool
  outp : ℕ := 0
  deriving DecidableEq, Repr

/-- Where a read stands. -/
inductive ReadPc
  /-- `ALT_SEM_PEND (sp->read_lock, 0)`. -/
  | lock
  /-- The head of the inner loop. -/
  | head
  /-- In `memcpy`, with the bytes copied so far. -/
  | copy (n : ℕ) (part : List (BitVec 8))
  | pend
  /-- In `OSFlagPend`, with `OSTCBFlagsRdy` once a post has made the task ready. -/
  | wait (flagsRdy : BitVec 16)
  /-- The test `in == sp->rx_in`. -/
  | woken
  /-- `ALT_SEM_POST (sp->read_lock)`. -/
  | unlock
  | enable
  deriving DecidableEq, Repr

/-- Where a write stands. -/
inductive WritePc
  | lock
  | head
  | copy (n i : ℕ)
  | enable
  | pend
  | wait (flagsRdy : BitVec 16)
  /-- The test `sp->host_inactive`. -/
  | woken
  | unlock
  deriving DecidableEq, Repr

inductive Result
  | data (buffer : List (BitVec 8))
  | count (n : ℕ)
  | wouldBlock
  | eio
  deriving DecidableEq, Repr

/-- Where a task stands: not in the driver, with the result of its last call, or in a call. -/
inductive Place
  | out (last : Option Result)
  | read (pc : ReadPc) (v : ReadVars)
  | write (pc : WritePc) (v : WriteVars)
  deriving DecidableEq, Repr

/-- `OS_FlagTaskRdy`, for a task whose wait the flags end. -/
def ReadPc.flagTaskRdy (events : BitVec 16) : ReadPc → ReadPc
  | .wait rdy => .wait (if rdy = 0#16 then events &&& readFlags else rdy)
  | pc => pc

def WritePc.flagTaskRdy (events : BitVec 16) : WritePc → WritePc
  | .wait rdy => .wait (if rdy = 0#16 then events &&& writeFlags else rdy)
  | pc => pc

def Place.flagTaskRdy (events : BitVec 16) : Place → Place
  | .out last => .out last
  | .read pc v => .read (pc.flagTaskRdy events) v
  | .write pc v => .write (pc.flagTaskRdy events) v

/-! ## The service routine -/

/-- Where the processor stands in `altera_avalon_jtag_uart_irq`, or in
`altera_avalon_jtag_uart_timeout`, which the timer's interrupt calls. -/
inductive IrqPc
  | out
  /-- The head of the outer loop. -/
  | loop
  /-- The head of the receive loop. -/
  | rx (control data : BitVec 32)
  /-- The test of `RAVAIL` behind it. -/
  | rxDone (control data : BitVec 32)
  | rxDummy (control : BitVec 32)
  /-- The head of the transmit loop. -/
  | tx (space : ℕ)
  | txDummy
  /-- In the timeout routine, before the write that clears `AC`. -/
  | alarmAck
  deriving DecidableEq, Repr

structure Sys (T : Type) where
  uart : Uart := { ienAF := true }
  irqEnable : BitVec 32 := reMsk
  hostInactive : ℕ := 0
  events : BitVec 16 := 0#16
  rxIn : ℕ := 0
  rxOut : ℕ := 0
  txIn : ℕ := 0
  txOut : ℕ := 0
  rxBuf : ℕ → BitVec 8 := fun _ => 0#8
  txBuf : ℕ → BitVec 8 := fun _ => 0#8
  readLock : Option T := none
  writeLock : Option T := none
  irq : IrqPc := .out
  tasks : T → Place := fun _ => .out none
  delivered : List (BitVec 8) := []
  written : List (BitVec 8) := []

inductive Event (T : Type)
  | edge (c : Cable)
  | irq
  | isr (c₁ c₂ : Cable)
  | alarm (c₁ c₂ : Cable)
  | read (t : T) (space : ℕ) (nonblock : Bool)
  | write (t : T) (data : List (BitVec 8)) (nonblock : Bool)
  | task (t : T) (c₁ c₂ : Cable)

namespace Sys

variable {T : Type} [DecidableEq T]

/-- A bus access. -/
def bus (s : Sys T) (b : Bus) (c₁ c₂ : Cable) : Sys T :=
  { s with uart := s.uart.access b c₁ c₂ }

/-- `ALT_FLAG_POST (sp->events, flags, OS_FLAG_SET)`. -/
def post (s : Sys T) (flags : BitVec 16) : Sys T :=
  { s with
    events := s.events ||| flags
    tasks := fun t => (s.tasks t).flagTaskRdy (s.events ||| flags) }

/-- `sp->irq_enable` is set, and the control register with it. -/
def setControl (s : Sys T) (irqEnable : BitVec 32) (c₁ c₂ : Cable) : Sys T :=
  { s.bus (.write true irqEnable) c₁ c₂ with irqEnable := irqEnable }

/-- The task is at another place. -/
def go (s : Sys T) (t : T) (p : Place) : Sys T :=
  { s with tasks := Function.update s.tasks t p }

/-- Behind the receive part of the outer loop. -/
def afterRx (control : BitVec 32) : IrqPc :=
  if control &&& wiMsk ≠ 0#32 then .tx ((control &&& wspaceMsk) >>> 16).toNat else .loop

/-- A piece of a service routine. -/
def isrStep (s : Sys T) (c₁ c₂ : Cable) : Option (Sys T) :=
  match s.irq with
  | .out => none
  | .loop =>
    let control := s.uart.reply (.read true) c₁
    let s := s.bus (.read true) c₁ c₂
    if control &&& (riMsk ||| wiMsk) = 0#32 then some { s with irq := .out }
    else if control &&& riMsk ≠ 0#32 then some { s with irq := .rx control (1#32 <<< 16) }
    else some { s with irq := afterRx control }
  | .rx control data =>
    if (s.rxIn + 1) % bufLen = s.rxOut then some { s with irq := .rxDone control data }
    else
      let data := s.uart.reply (.read false) c₁
      let s := s.bus (.read false) c₁ c₂
      if data &&& rvalidMsk = 0#32 then some { s with irq := .rxDone control data }
      else
        some ({ s with
          rxBuf := Function.update s.rxBuf s.rxIn ((data &&& dataMsk).setWidth 8)
          rxIn := (s.rxIn + 1) % bufLen
          irq := .rx control data }.post readRdy)
  | .rxDone control data =>
    if data &&& ravailMsk ≠ 0#32 then
      some { s.setControl (s.irqEnable &&& ~~~reMsk) c₁ c₂ with irq := .rxDummy control }
    else some { s with irq := afterRx control }
  | .rxDummy control => some { s.bus (.read true) c₁ c₂ with irq := afterRx control }
  | .tx space =>
    if 0 < space ∧ s.txOut ≠ s.txIn then
      let s' := s.bus (.write false ((s.txBuf s.txOut).setWidth 32)) c₁ c₂
      some ({ s' with
        txOut := (s.txOut + 1) % bufLen
        irq := .tx (space - 1) }.post writeRdy)
    else if 0 < space then
      some { s.setControl (s.irqEnable &&& ~~~weMsk) c₁ c₂ with irq := .txDummy }
    else some { s with irq := .loop }
  | .txDummy => some { s.bus (.read true) c₁ c₂ with irq := .loop }
  | .alarmAck =>
    some { s.bus (.write true (s.irqEnable ||| acMsk)) c₁ c₂ with hostInactive := 0, irq := .out }

/-- `altera_avalon_jtag_uart_timeout` up to the write of the control register. -/
def alarm (s : Sys T) (c₁ c₂ : Cable) : Sys T :=
  let control := s.uart.reply (.read true) c₁
  let s := s.bus (.read true) c₁ c₂
  if control &&& acMsk ≠ 0#32 then { s with irq := .alarmAck }
  else if s.hostInactive < intMax - 2 then
    let s := { s with hostInactive := s.hostInactive + 1 }
    if timeout ≤ s.hostInactive then s.post timeoutFlag else s
  else s

/-- The bytes a read can copy at once. -/
def readable (s : Sys T) : ℕ := if s.rxOut ≤ s.rxIn then s.rxIn - s.rxOut else bufLen - s.rxOut

/-- The bytes a write can copy at once. -/
def writable (s : Sys T) : ℕ :=
  if s.txIn < s.txOut then s.txOut - 1 - s.txIn
  else if 0 < s.txOut then bufLen - s.txIn
  else bufLen - 1 - s.txIn

/-- A piece of `altera_avalon_jtag_uart_read`. -/
def readStep (s : Sys T) (t : T) (v : ReadVars) (c₁ c₂ : Cable) : ReadPc → Option (Sys T)
  | .lock =>
    match s.readLock with
    | none => some { s.go t (.read (if 0 < v.space then .head else .unlock) v) with
        readLock := some t }
    | some _ => none
  | .head =>
    let v := { v with inp := s.rxIn }
    if s.readable = 0 then
      if v.got ≠ [] ∨ v.nonblock = true then some (s.go t (.read .unlock v))
      else some (s.go t (.read .pend v))
    else some (s.go t (.read (.copy (min s.readable v.space) []) v))
  | .copy n part =>
    if part.length < n then
      some (s.go t (.read (.copy n (part ++ [s.rxBuf (s.rxOut + part.length)])) v))
    else
      let v := { v with got := v.got ++ part, space := v.space - n }
      some { s.go t (.read (if 0 < v.space then .head else .unlock) v) with
        rxOut := (s.rxOut + n) % bufLen }
  | .pend =>
    let rdy := s.events &&& readFlags
    if rdy ≠ 0#16 then some { s.go t (.read .woken v) with events := s.events &&& ~~~rdy }
    else some (s.go t (.read (.wait 0#16) v))
  | .wait rdy =>
    if rdy ≠ 0#16 then some { s.go t (.read .woken v) with events := s.events &&& ~~~rdy }
    else none
  | .woken => some (s.go t (.read (if v.inp = s.rxIn then .unlock else .head) v))
  | .unlock =>
    let p :=
      if v.got ≠ [] then Place.read .enable v
      else .out (some (if v.nonblock = true then .wouldBlock else .eio))
    some { s.go t p with readLock := none, delivered := s.delivered ++ v.got }
  | .enable => some ((s.setControl (s.irqEnable ||| reMsk) c₁ c₂).go t (.out (some (.data v.got))))

/-- A piece of `altera_avalon_jtag_uart_write`. -/
def writeStep (s : Sys T) (t : T) (v : WriteVars) (c₁ c₂ : Cable) : WritePc → Option (Sys T)
  | .lock =>
    match s.writeLock with
    | none => some { s.go t (.write .head v) with writeLock := some t }
    | some _ => none
  | .head =>
    if v.rest = [] then some (s.go t (.write .enable v))
    else
      let v := { v with outp := s.txOut }
      if s.writable = 0 then some (s.go t (.write .enable v))
      else some (s.go t (.write (.copy (min s.writable v.rest.length) 0) v))
  | .copy n i =>
    if i < n then
      some { s.go t (.write (.copy n (i + 1)) v) with
        txBuf := Function.update s.txBuf (s.txIn + i) (v.rest.getD i 0#8) }
    else
      let v := { v with done := v.done ++ v.rest.take n, rest := v.rest.drop n }
      some { s.go t (.write .head v) with txIn := (s.txIn + n) % bufLen }
  | .enable =>
    let pc :=
      if v.rest ≠ [] ∧ v.nonblock = false then WritePc.pend else .unlock
    some ((s.setControl (s.irqEnable ||| weMsk) c₁ c₂).go t (.write pc v))
  | .pend =>
    let rdy := s.events &&& writeFlags
    if rdy ≠ 0#16 then some { s.go t (.write .woken v) with events := s.events &&& ~~~rdy }
    else some (s.go t (.write (.wait 0#16) v))
  | .wait rdy =>
    if rdy ≠ 0#16 then some { s.go t (.write .woken v) with events := s.events &&& ~~~rdy }
    else none
  | .woken => some (s.go t (.write (if s.hostInactive ≠ 0 then .unlock else .head) v))
  | .unlock =>
    let result :=
      if v.done ≠ [] then Result.count v.done.length
      else if v.nonblock = true then .wouldBlock
      else .eio
    some { s.go t (.out (some result)) with
      writeLock := none
      written := s.written ++ v.done }

/-- One step. The processor is in a service routine, or free for the tasks. -/
def step (s : Sys T) : Event T → Option (Sys T)
  | .edge c => some { s with uart := s.uart.edge .idle c }
  | .irq => if s.irq = .out ∧ s.uart.irq = true then some { s with irq := .loop } else none
  | .isr c₁ c₂ => s.isrStep c₁ c₂
  | .alarm c₁ c₂ => if s.irq = .out then some (s.alarm c₁ c₂) else none
  | .read t space nonblock =>
    match s.tasks t with
    | .out _ =>
      if s.irq = .out then some (s.go t (.read .lock { space := space, nonblock := nonblock }))
      else none
    | _ => none
  | .write t data nonblock =>
    match s.tasks t with
    | .out _ =>
      if s.irq = .out then some (s.go t (.write .lock { rest := data, nonblock := nonblock }))
      else none
    | _ => none
  | .task t c₁ c₂ =>
    if s.irq = .out then
      match s.tasks t with
      | .out _ => none
      | .read pc v => s.readStep t v c₁ c₂ pc
      | .write pc v => s.writeStep t v c₁ c₂ pc
    else none

end Sys

end Jtag

end ReactionMeter
