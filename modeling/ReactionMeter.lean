import ReactionMeter.Animation
import ReactionMeter.App
import ReactionMeter.Avalon
import ReactionMeter.Console
import ReactionMeter.Displays
import ReactionMeter.Game
import ReactionMeter.Highscore
import ReactionMeter.Interrupts
import ReactionMeter.Isr
import ReactionMeter.Jtag.Driver
import ReactionMeter.Jtag.Latency
import ReactionMeter.Jtag.Receive
import ReactionMeter.Jtag.Returned
import ReactionMeter.Jtag.StaleFlag
import ReactionMeter.Jtag.Steps
import ReactionMeter.Jtag.Transmit
import ReactionMeter.Jtag.Uart
import ReactionMeter.Jtag.Wakeups
import ReactionMeter.Jtag.Woken
import ReactionMeter.Lib.CString
import ReactionMeter.Lib.Clocked
import ReactionMeter.Lib.Lock
import ReactionMeter.Lib.Machine
import ReactionMeter.Lib.PrioTable
import ReactionMeter.Lib.Ring
import ReactionMeter.Lib.Slices
import ReactionMeter.Lib.Transducer
import ReactionMeter.Meter
import ReactionMeter.MeterRange
import ReactionMeter.MeterTiming
import ReactionMeter.Names
import ReactionMeter.Prng
import ReactionMeter.Publication
import ReactionMeter.Qsys.Moves
import ReactionMeter.Qsys.Phases
import ReactionMeter.Qsys.Release
import ReactionMeter.Qsys.Scores
import ReactionMeter.Qsys.Task
import ReactionMeter.Qsys.Waits
import ReactionMeter.RandomDelay
import ReactionMeter.Registration
import ReactionMeter.Residue
import ReactionMeter.RespReg
import ReactionMeter.Restart
import ReactionMeter.Rtos.Buttons
import ReactionMeter.Rtos.KernelReach
import ReactionMeter.Rtos.KernelRuns
import ReactionMeter.Rtos.KernelSim
import ReactionMeter.Rtos.OnKernel
import ReactionMeter.Rtos.ResponseTime
import ReactionMeter.Rtos.Scores
import ReactionMeter.Rtos.Taps
import ReactionMeter.Rtos.Task
import ReactionMeter.Service
import ReactionMeter.SevenSegment
import ReactionMeter.Turns
import ReactionMeter.Ucos.Core
import ReactionMeter.Ucos.Delays
import ReactionMeter.Ucos.Flow
import ReactionMeter.Ucos.Refine
import ReactionMeter.Ucos.Services
import ReactionMeter.Ucos.Spec
import ReactionMeter.Ucos.System
