import ReactionMeter.Jtag.Receive

/-!
# What reads return

`received_intact` speaks of what reads have taken behind the lock. Here it gets to the callers: what
a call returns is a stretch of what came from the cable, without a gap, and not empty.
-/

namespace ReactionMeter

namespace Jtag

/-- The bytes that the last call of a task has returned, or that this one is about to return. -/
def Place.result : Place → Option (List (BitVec 8))
  | .read .enable v => some v.got
  | .out (some (.data buf)) => some buf
  | _ => none

theorem Place.result_flagTaskRdy (p : Place) (events : BitVec 16) :
    (p.flagTaskRdy events).result = p.result := by
  cases p with
  | out => rfl
  | write => rfl
  | read pc v => cases pc <;> rfl

namespace Sys

variable {T : Type}

def Returned (s : Sys T) : Prop :=
  ∀ t buf, (s.tasks t).result = some buf → buf ≠ [] ∧ buf <:+: s.delivered

end Sys

open Sys

variable {T : Type} {s s' : Sys T}

theorem returned_service (h : s.Returned) (hs : Service s s') : s'.Returned := by
  have hpost : ∀ flags, (s.post flags).Returned := by
    intro flags t buf hbuf
    refine h t buf ?_
    rw [← hbuf]
    exact (Place.result_flagTaskRdy ..).symm
  cases hs with
  | store => exact hpost readRdy
  | send => exact hpost writeRdy
  | timeout => exact hpost timeoutFlag
  | edge | enter | quit | receive | transmit | full | empty | stopRx | goOn | rxDummy | stopTx
  | noSpace | txDummy | alarmAck | active | inactive => exact h

section Tasks

variable [DecidableEq T] {t : T}

/-- A task moves on, and what has been delivered stays. -/
theorem returned_move {p : Place} (h : s.Returned)
    (htasks : s'.tasks = Function.update s.tasks t p) (hmore : s.delivered <+: s'.delivered)
    (hp : ∀ buf, p.result = some buf → buf ≠ [] ∧ buf <:+: s'.delivered) : s'.Returned := by
  intro u buf hbuf
  rw [htasks] at hbuf
  by_cases hu : u = t
  · rw [hu, Function.update_self] at hbuf
    exact hp buf hbuf
  · rw [Function.update_of_ne hu] at hbuf
    obtain ⟨hne, hin⟩ := h u buf hbuf
    exact ⟨hne, hin.trans hmore.isInfix⟩

theorem returned_nothing {p : Place} (h : s.Returned)
    (htasks : s'.tasks = Function.update s.tasks t p) (hsame : s'.delivered = s.delivered)
    (hp : p.result = none) : s'.Returned := by
  refine returned_move h htasks (hsame ▸ List.prefix_rfl) fun buf hbuf => ?_
  rw [hp] at hbuf
  cases hbuf

theorem returned_read (h : s.Returned) (hm : ReadMove s t s') : s'.Returned := by
  cases hm with
  | call | found | none | block | byte | consume | sleep => exact returned_nothing h rfl rfl rfl
  | acquire => exact returned_nothing h rfl rfl (by split_ifs <;> rfl)
  | take hat hge hpc => exact returned_nothing h rfl rfl (by rw [hpc]; split_ifs <;> rfl)
  | again hat hpc => exact returned_nothing h rfl rfl (by rw [hpc]; split_ifs <;> rfl)
  | @release v p hat hp hout =>
    refine returned_move h rfl (List.prefix_append ..) fun buf hbuf => ?_
    rcases hp with ⟨rfl, hgot⟩ | ⟨hreads, hwrites, -⟩
    · cases hbuf
      exact ⟨hgot, (List.suffix_append ..).isInfix⟩
    · cases p with
      | out last =>
        rcases last with - | (_ | _ | _ | _)
        all_goals first | exact absurd rfl (hout _) | cases hbuf
      | read | write => cases hreads <;> cases hwrites
  | @enable c₁ c₂ v last hat hlast =>
    refine returned_move h rfl List.prefix_rfl fun buf hbuf => ?_
    rw [hlast] at hbuf
    cases hbuf
    exact h t v.got (by rw [hat]; rfl)

theorem returned_write (h : s.Returned) (hm : WriteMove s t s') : s'.Returned := by
  cases hm with
  | call | acquire | finish | full | found | byte | put | enable | consume | sleep | again =>
    exact returned_nothing h rfl rfl rfl
  | @release v last hat hlast =>
    refine returned_nothing h rfl rfl ?_
    rcases last with - | (_ | _ | _ | _)
    all_goals first | exact absurd rfl (hlast _) | rfl

theorem returned_reach (h : Machine.Reach Sys.step {} s) : s.Returned := by
  refine h.invariant (P := Sys.Returned) (fun t buf hbuf => ?_) fun s e s' hs hstep => ?_
  · cases hbuf
  · rcases step_cases hstep with hservice | ⟨-, t, hread | hwrite⟩
    · exact returned_service hs hservice
    · exact returned_read hs hread
    · exact returned_write hs hwrite

/-- What a call returns has come from the cable just so. -/
theorem read_returns {es : List (Event T)} {buf : List (BitVec 8)}
    (h : Machine.exec Sys.step {} es = some s) (hat : s.tasks t = .out (some (.data buf))) :
    buf ≠ [] ∧ buf <:+: s.uart.received := by
  have hreach := Machine.Reach.of_exec h
  obtain ⟨hne, hin⟩ := returned_reach hreach t buf (by rw [hat]; rfl)
  refine ⟨hne, hin.trans (List.IsPrefix.isInfix ?_)⟩
  rw [← (rx_reach hreach).content, List.append_assoc, List.append_assoc]
  exact List.prefix_append ..

theorem read_returns_echo :
    ∃ s : Sys Unit, Machine.exec Sys.step {} echo = some s ∧ [0x41#8] <:+: s.uart.received := by
  let s := (Machine.exec Sys.step {} echo).get (by decide +kernel)
  have hs : Machine.exec Sys.step {} echo = some s := (Option.some_get _).symm
  have hat : s.tasks () = .out (some (.data [0x41#8])) := by decide +kernel
  exact ⟨s, hs, (read_returns hs hat).2⟩

end Tasks

end Jtag

end ReactionMeter
