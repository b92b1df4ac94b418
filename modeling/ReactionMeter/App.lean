import Mathlib.Data.BitVec

/-!
# What the two applications share

`qsys_main.c` and `rtos_main.cpp` differ in how a response is measured. The variables of their
`reaction_meter` tasks, what they show, the registration counter and the high score are the same
code in both. `Vars` is that part: each function below is a block of statements that occurs in
both sources.

The displays are kept as the numbers passed to `show_score` and `show_tries`, and a port as the
value last written to it.
-/

namespace ReactionMeter

/-- `enum states {IDLE, START, DELAY, COUNT, STOP}` of both tasks. -/
inductive States
  | idle | start | delay | count | stop
  deriving DecidableEq, Repr

/-- The value of an enumerator. -/
def States.index : States → ℕ
  | .idle => 0
  | .start => 1
  | .delay => 2
  | .count => 3
  | .stop => 4

def minRespTime : ℕ := 80
def maxMsgAmt : ℕ := 2
def ledAmt : ℕ := 10
def uint16Max : ℕ := 65535

/-- `(num << shift) | (num >> (9 - shift))`, on 32-bit integers. -/
def rotateLeft (num : BitVec 32) (shift : ℕ) : BitVec 32 :=
  num <<< shift ||| num.sshiftRight (9 - shift)

/-- What the task has last written to the peripherals. -/
structure Ports where
  measurement : BitVec 32 := 0#32
  leds : BitVec 16 := 0#16
  score : ℕ := 0
  tries : ℕ := 0
  deriving DecidableEq, Repr

/-- The variables of the task, and the static counter of `user_register`. The source leaves
`response_time` without a value until the first response. -/
structure Vars where
  highscore : ℕ := uint16Max
  responseTime : ℕ := 0
  leds : BitVec 16 := 0#16
  tries : ℕ := 0
  rounds : ℕ := 3
  ports : Ports := {}
  deriving DecidableEq, Repr

namespace Vars

/-- `IOWR_ALTERA_AVALON_PIO_DATA(MEASUREMENT_BASE, 1UL << state)`. -/
def measure (v : Vars) (state : ℕ) : Vars :=
  { v with ports := { v.ports with measurement := 1#32 <<< state } }

/-- `IOWR_ALTERA_AVALON_PIO_DATA(LEDS_BASE, leds)`. -/
def writeLeds (v : Vars) : Vars := { v with ports := { v.ports with leds := v.leds } }

def showScore (v : Vars) (score : ℕ) : Vars := { v with ports := { v.ports with score := score } }

/-- The home screen: the high score, if there is one, `show_tries(tries++)` and dark LEDs. -/
def showHome (v : Vars) : Vars :=
  let v := v.showScore (if v.highscore ≠ uint16Max then v.highscore else 0)
  { v with
    ports := { v.ports with tries := v.tries }
    tries := (v.tries + 1) % 256
    leds := 0#16 }

/-- The test `rounds++ >= 3`. -/
def mustRegister (v : Vars) : Prop := 3 ≤ v.rounds

instance (v : Vars) : Decidable v.mustRegister := by unfold mustRegister; infer_instance

def countRound (v : Vars) : Vars := { v with rounds := (v.rounds + 1) % 256 }

/-- `rounds = 0`, after a name has arrived. -/
def registered (v : Vars) : Vars := { v with rounds := 0 }

/-- The response is shown, and kept if it beats the high score. The flag is `new_highscore`. -/
def judgeScore (v : Vars) : Vars × Bool :=
  let v := v.showScore v.responseTime
  if v.responseTime < v.highscore then ({ v with highscore := v.responseTime }, true)
  else (v, false)

/-- One step of the animation: `leds = rotate_left(leds, 1)`. -/
def rotate (v : Vars) : Vars :=
  { v with leds := (rotateLeft (v.leds.setWidth 32) 1).setWidth 16 }.writeLeds

end Vars

end ReactionMeter
