import Mathlib.Data.Fintype.Defs
import ReactionMeter.Jtag.Receive

/-!
# A flag that outlives its byte

The service routine sets `ALT_JTAG_UART_READ_RDY` for every byte. A read that finds bytes in the
buffer takes them without a look at the flags, and the flag stays. The next blocking read that finds
the buffer empty is told by it that data has come, sees that none has, and returns `-EIO`, which
stands for a host that is not there.
-/

namespace ReactionMeter

namespace Jtag

/-- A read in `OSFlagPend`, or at the call. -/
def Place.pends : Place → Bool
  | .read .pend _ | .read (.wait _) _ => true
  | _ => false

namespace Sys

variable {T : Type}

/-- No read is at its wait. -/
def Unwaited (s : Sys T) : Prop := ∀ t, (s.tasks t).pends = false

instance [Fintype T] (s : Sys T) : Decidable s.Unwaited :=
  inferInstanceAs (Decidable (∀ t, (s.tasks t).pends = false))

/-- `ALT_JTAG_UART_READ_RDY` is set. -/
def ReadRdy (s : Sys T) : Prop := s.events.getLsbD 0 = true

end Sys

open Sys

variable {T : Type} {s s' : Sys T}

theorem readRdy_post (h : s.ReadRdy) (flags : BitVec 16) : (s.post flags).ReadRdy := by
  show (s.events ||| flags).getLsbD 0 = true
  rw [BitVec.getLsbD_or, show s.events.getLsbD 0 = true from h, Bool.true_or]

theorem readRdy_service (h : s.ReadRdy) (hs : Service s s') : s'.ReadRdy := by
  cases hs with
  | store => exact readRdy_post (s := { s.bus _ _ _ with rxBuf := _, rxIn := _, irq := _ }) h _
  | send => exact readRdy_post (s := { s.bus _ _ _ with txOut := _, irq := _ }) h _
  | timeout => exact readRdy_post (s := { s.bus _ _ _ with hostInactive := _ }) h _
  | edge | enter | quit | receive | transmit | full | empty | stopRx | goOn | rxDummy | stopTx
  | noSpace | txDummy | alarmAck | active | inactive => exact h

/-- The routine moves `rx_in` for a byte that it stores. -/
theorem readRdy_of_store (hs : Service s s') (hin : s'.rxIn ≠ s.rxIn) : s'.ReadRdy := by
  cases hs with
  | store =>
    show (s.events ||| readRdy).getLsbD 0 = true
    rw [BitVec.getLsbD_or]
    exact Bool.or_true _
  | edge | enter | quit | receive | transmit | full | empty | stopRx | goOn | rxDummy | send | stopTx
  | noSpace | txDummy | alarmAck | active | inactive | timeout => exact absurd rfl hin

variable [DecidableEq T] {t : T}

theorem readRdy_read (h : s.ReadRdy) (hno : s.Unwaited) (hm : ReadMove s t s') : s'.ReadRdy := by
  cases hm with
  | consume hat =>
    have hpends := hno t
    rcases hat with ⟨hat, -⟩ | hat
    · rw [hat] at hpends
      cases hpends
    · rw [hat] at hpends
      cases hpends
  | call | acquire | found | none | block | byte | take | sleep | again | release | enable => exact h

theorem readRdy_write (h : s.ReadRdy) (hrx : Rx s) (hm : WriteMove s t s') : s'.ReadRdy := by
  cases hm with
  | @consume v rdy hat =>
    show (s.events &&& ~~~rdy).getLsbD 0 = true
    rw [BitVec.getLsbD_and, BitVec.getLsbD_not, hrx.write_rdy hat,
      show s.events.getLsbD 0 = true from h]
    rfl
  | call | acquire | finish | full | found | byte | put | enable | sleep | again | release => exact h

/-- The flag stays as long as no read waits. -/
theorem readRdy_run {es : List (Event T)} (h : s.ReadRdy) (hrx : Rx s)
    (hno : Machine.Along Sys.step (fun s _ => s.Unwaited) s es)
    (hexec : Machine.exec Sys.step s es = some s') : s'.ReadRdy := by
  induction es generalizing s with
  | nil =>
    cases hexec
    exact h
  | cons e es ih =>
    obtain ⟨u, hu, hrest⟩ := Option.bind_eq_some_iff.mp hexec
    obtain ⟨hhere, halong⟩ := hno
    have hset : u.ReadRdy := by
      rcases step_cases hu with hservice | ⟨-, t, hread | hwrite⟩
      · exact readRdy_service h hservice
      · exact readRdy_read h hhere hread
      · exact readRdy_write h hrx hwrite
    exact ih hset (hrx.step hu) (halong u hu) hrest

/-- A blocking read of an empty buffer, on its own, with a flag set. -/
theorem exec_read_eio {last : Option Result} {n : ℕ} (hirq : s.irq = .out)
    (hfree : s.readLock = none) (hempty : s.rxIn = s.rxOut) (hat : s.tasks t = .out last)
    (hn : 0 < n) (hset : s.events &&& readFlags ≠ 0#16) :
    ∃ s', Machine.exec Sys.step s (.read t n false :: List.replicate 5 (.task t {} {})) = some s' ∧
      s'.tasks t = .out (some .eio) ∧ s'.delivered = s.delivered := by
  simp [List.replicate, Machine.exec, step, readStep, go, readable, hirq, hfree, hempty, hat, hn,
    hset]

/-- Once the routine has stored a byte, and for as long as reads take what they find without waiting,
a blocking read that finds nothing returns `-EIO` at once. -/
theorem read_stale {es₁ es₂ : List (Event T)} {s₁ s₂ : Sys T} {c₁ c₂ : Cable} {n : ℕ}
    {last : Option Result} (h₁ : Machine.exec Sys.step {} es₁ = some s₁)
    (hstore : s₁.step (.isr c₁ c₂) = some s₂) (hin : s₂.rxIn ≠ s₁.rxIn)
    (h₂ : Machine.exec Sys.step s₂ es₂ = some s)
    (hno : Machine.Along Sys.step (fun s _ => s.Unwaited) s₂ es₂)
    (hirq : s.irq = .out) (hfree : s.readLock = none) (hempty : s.rxRing = [])
    (hat : s.tasks t = .out last) (hn : 0 < n) :
    ∃ s', Machine.exec Sys.step s (.read t n false :: List.replicate 5 (.task t {} {})) = some s' ∧
      s'.tasks t = .out (some .eio) ∧ s'.delivered = s.delivered := by
  have hreach := (Machine.Reach.of_exec h₁).tail hstore
  have hset : s.ReadRdy :=
    readRdy_run (readRdy_of_store (isrStep_cases hstore) hin) (rx_reach hreach) hno h₂
  have hrx := rx_reach (hreach.exec h₂)
  have hnone : s.rxIn = s.rxOut := (Ring.contents_eq_nil_iff hrx.rxIn hrx.rxOut).mp hempty
  refine exec_read_eio hirq hfree hnone hat hn ?_
  intro hzero
  have hbit := congrArg (fun w => w.getLsbD 0) hzero
  rw [BitVec.getLsbD_and, show s.events.getLsbD 0 = true from hset] at hbit
  exact absurd hbit (by decide)

theorem read_stale_echo :
    ∃ (es : List (Event Unit)) (s s' : Sys Unit), Machine.exec Sys.step {} es = some s ∧
      s.tasks () = .out (some (.data [0x41#8])) ∧
      Machine.exec Sys.step s (.read () 1 false :: List.replicate 5 (.task () {} {})) = some s' ∧
        s'.tasks () = .out (some .eio) := by
  let s₁ := (Machine.exec Sys.step {} (echo.take 4)).get (by decide +kernel)
  let s₂ := (s₁.step (.isr {} {})).get (by decide +kernel)
  let s := (Machine.exec Sys.step s₂ (echo.drop 5)).get (by decide +kernel)
  have h₁ : Machine.exec Sys.step {} (echo.take 4) = some s₁ := (Option.some_get _).symm
  have hstore : s₁.step (.isr {} {}) = some s₂ := (Option.some_get _).symm
  have h₂ : Machine.exec Sys.step s₂ (echo.drop 5) = some s := (Option.some_get _).symm
  have hat : s.tasks () = .out (some (.data [0x41#8])) := by decide +kernel
  obtain ⟨s', hexec, hout, -⟩ := read_stale h₁ hstore (by decide +kernel) h₂ (by decide +kernel)
    (by decide +kernel) (by decide +kernel) (by decide +kernel) hat Nat.one_pos
  have hes := (Machine.exec_append h₁).trans ((Machine.exec_cons hstore).trans h₂)
  exact ⟨_, s, s', hes, hat, hexec, hout⟩

end Jtag

end ReactionMeter
