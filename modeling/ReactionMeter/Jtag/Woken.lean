import ReactionMeter.Jtag.Latency

/-!
# The service routine wakes who waits

With `reader_asleep` and `writer_asleep`, which say that the interrupt is on, and `service_bounded`,
which says that the routine returns, this is the way from an event at the device to the task that
waits for it: the routine has been entered for a byte, or for room in the queue of the device, and
when it has returned, the waiting task is ready to run.
-/

namespace ReactionMeter

namespace Jtag

namespace Uart

variable {u : Uart} {b : Bus} {c : Cable}

/-- A pending receive interrupt stays until the data register is read or the interrupt is disabled. -/
theorem edge_ipenAF (h : u.Ok) (hcontrol : b.control = none) (hp : u.ipenAF = true) :
    (u.edge b c).ipenAF = true := by
  obtain ⟨henabled, hcause⟩ := (Bool.and_eq_true _ _).mp hp
  refine (Bool.and_eq_true _ _).mpr ⟨by simpa [edge, hcontrol] using henabled, ?_⟩
  refine (Bool.or_eq_true _ _).mpr ?_
  rcases (Bool.or_eq_true _ _).mp hcause with hpause | hfull
  · exact Or.inl (by simp [edge, h.read0, hpause])
  · exact Or.inr (decide_eq_true (h.fifoAF hfull))

theorem reply_wi_of_few (c₁ : Cable) (henabled : u.ienAE = true) (hfew : u.wfifo.length ≤ 8) :
    u.reply (.read true) c₁ &&& wiMsk ≠ 0#32 := by
  refine reply_wi_iff.mpr ((Bool.and_eq_true _ _).mpr ⟨?_, decide_eq_true hfew⟩)
  simpa [edge, Bus.control] using henabled

end Uart

open Sys

variable {T : Type} {s s' : Sys T}

/-! ## A read -/

namespace Sys

/-- A byte for the readers is there, or on its way. -/
def RxComing (s : Sys T) : Prop :=
  s.rxIn ≠ s.rxOut ∨ (s.irq = .loop ∧ s.uart.ipenAF = true) ∨
    ∃ control data, s.irq = .rx control data

end Sys

theorem rxComing_service (hrx : Rx s) (hen : Enables s') (h : s.RxComing)
    (hs : Service s s') : s'.RxComing := by
  rcases h with hne | ⟨hloop, hline⟩ | ⟨control, data, hat⟩
  · refine Or.inl ?_
    cases hs with
    | store c₁ c₂ hirq hfree => exact hfree
    | edge | enter | quit | receive | transmit | full | empty | stopRx | goOn | rxDummy | send | stopTx
    | noSpace | txDummy | alarmAck | active | inactive | timeout => exact hne
  · have hri : ∀ c₁, s.uart.reply (.read true) c₁ &&& riMsk ≠ 0#32 := fun c₁ =>
      Uart.reply_ri_iff.mpr (Uart.edge_ipenAF hrx.uart rfl hline)
    cases hs with
    | edge c => exact Or.inr (Or.inl ⟨hloop, Uart.edge_ipenAF hrx.uart rfl hline⟩)
    | receive => exact Or.inr (Or.inr ⟨_, _, rfl⟩)
    | quit c₁ c₂ hirq hnone =>
      rw [BitVec.and_or_distrib_left] at hnone
      exact absurd (BitVec.or_eq_zero_iff.mp hnone).1 (hri c₁)
    | transmit c₁ c₂ hirq hnone => exact absurd hnone (hri c₁)
    | enter hirq | full hirq | goOn hirq | noSpace hirq => cases hloop.symm.trans hirq
    | empty c₁ c₂ hirq | store c₁ c₂ hirq | stopRx c₁ c₂ hirq | rxDummy c₁ c₂ hirq | send c₁ c₂ hirq
    | stopTx c₁ c₂ hirq | txDummy c₁ c₂ hirq | alarmAck c₁ c₂ hirq | active c₁ c₂ hirq
    | inactive c₁ c₂ hirq | timeout c₁ c₂ hirq => cases hloop.symm.trans hirq
  · cases hs with
    | edge => exact Or.inr (Or.inr ⟨control, data, hat⟩)
    | full => exact Or.inl (hen.rxDone _ _ rfl)
    | empty => exact Or.inl (hen.rxDone _ _ rfl)
    | store c₁ c₂ hirq hfree => exact Or.inl hfree
    | enter hirq | goOn hirq | noSpace hirq => cases hat.symm.trans hirq
    | quit c₁ c₂ hirq | receive c₁ c₂ hirq | transmit c₁ c₂ hirq | stopRx c₁ c₂ hirq
    | rxDummy c₁ c₂ hirq | send c₁ c₂ hirq | stopTx c₁ c₂ hirq | txDummy c₁ c₂ hirq
    | alarmAck c₁ c₂ hirq | active c₁ c₂ hirq | inactive c₁ c₂ hirq | timeout c₁ c₂ hirq =>
      cases hat.symm.trans hirq

theorem reading_service {t : T} {v : ReadVars} (hs : Service s s')
    (h : ∃ rdy, s.reading t = some (.wait rdy, v)) : ∃ rdy, s'.reading t = some (.wait rdy, v) := by
  obtain ⟨rdy, hat⟩ := h
  cases hs with
  | store | send | timeout => exact ⟨_, reading_post.mpr ⟨.wait rdy, hat, rfl⟩⟩
  | edge | enter | quit | receive | transmit | full | empty | stopRx | goOn | rxDummy | stopTx
  | noSpace | txDummy | alarmAck | active | inactive => exact ⟨rdy, hat⟩

/-! ## A write -/

/-- The routine is on its way to a byte of the buffer, and there is room for it in the device. -/
def IrqPc.Sends : IrqPc → Prop
  | .rx control _ | .rxDone control _ | .rxDummy control =>
    control &&& wiMsk ≠ 0#32 ∧ 0 < ((control &&& wspaceMsk) >>> 16).toNat
  | .tx space => 0 < space
  | .out | .loop | .txDummy | .alarmAck => False

theorem sends_afterRx {control : BitVec 32}
    (h : control &&& wiMsk ≠ 0#32 ∧ 0 < ((control &&& wspaceMsk) >>> 16).toNat) :
    (afterRx control).Sends := by
  rw [afterRx, if_pos h.1]
  exact h.2

namespace Sys

/-- There is room for the writers in `tx_buf`, or there will be. -/
def TxComing (s : Sys T) : Prop :=
  s.txRing.length + 1 < bufLen ∨
    (s.irq = .loop ∧ s.uart.ienAE = true ∧ s.uart.wfifo.length ≤ 8) ∨ s.irq.Sends

end Sys

/-- A byte that leaves the buffer makes room in it. -/
theorem room_of_send (htx : Tx s) (hne : s.txOut ≠ s.txIn) :
    (Ring.contents bufLen s.txBuf s.txIn (Ring.next bufLen s.txOut)).length + 1 < bufLen := by
  have hlt := Ring.size_lt bufLen_pos s.txIn s.txOut
  have hlen : (Ring.contents bufLen s.txBuf s.txIn s.txOut).length =
      Ring.size bufLen s.txIn s.txOut := Ring.length_contents
  rw [Ring.contents_pop htx.txIn htx.txOut hne, List.length_cons] at hlen
  omega

theorem txComing_service (htx : Tx s) (h : s.TxComing) (hs : Service s s') :
    s'.TxComing := by
  rcases h with hroom | ⟨hloop, henabled, hfew⟩ | hsends
  · refine Or.inl ?_
    cases hs with
    | send c₁ c₂ hirq hpos hne => exact room_of_send htx hne
    | edge | enter | quit | receive | transmit | full | empty | store | stopRx | goOn | rxDummy
    | stopTx | noSpace | txDummy | alarmAck | active | inactive | timeout => exact hroom
  · have hcontrol : ∀ c₁, s.uart.reply (.read true) c₁ &&& wiMsk ≠ 0#32 ∧
        0 < ((s.uart.reply (.read true) c₁ &&& wspaceMsk) >>> 16).toNat := by
      intro c₁
      have hwi := Uart.reply_wi_of_few c₁ henabled hfew
      exact ⟨hwi, (Uart.reply_wi htx.uart hwi).2⟩
    cases hs with
    | edge c =>
      refine Or.inr (Or.inl ⟨hloop, by simpa [Uart.edge, Bus.control] using henabled, ?_⟩)
      have hlen := s.uart.edge_wfifo_length .idle c
      rw [htx.uart.fifoWr] at hlen
      exact hlen.trans hfew
    | receive c₁ c₂ => exact Or.inr (Or.inr (hcontrol c₁))
    | transmit c₁ c₂ => exact Or.inr (Or.inr (sends_afterRx (hcontrol c₁)))
    | quit c₁ c₂ hirq hnone =>
      rw [BitVec.and_or_distrib_left] at hnone
      exact absurd (BitVec.or_eq_zero_iff.mp hnone).2 (hcontrol c₁).1
    | enter hirq | full hirq | goOn hirq => cases hloop.symm.trans hirq
    | empty c₁ c₂ hirq | store c₁ c₂ hirq | stopRx c₁ c₂ hirq | rxDummy c₁ c₂ hirq | send c₁ c₂ hirq
    | stopTx c₁ c₂ hirq | txDummy c₁ c₂ hirq | alarmAck c₁ c₂ hirq | active c₁ c₂ hirq
    | inactive c₁ c₂ hirq | timeout c₁ c₂ hirq | noSpace hirq => cases hloop.symm.trans hirq
  · cases hs with
    | edge => exact Or.inr (Or.inr hsends)
    | full hirq =>
      rw [hirq] at hsends
      exact Or.inr (Or.inr hsends)
    | empty c₁ c₂ hirq | store c₁ c₂ hirq | stopRx c₁ c₂ hirq =>
      rw [hirq] at hsends
      exact Or.inr (Or.inr hsends)
    | goOn hirq =>
      rw [hirq] at hsends
      exact Or.inr (Or.inr (sends_afterRx hsends))
    | rxDummy c₁ c₂ hirq =>
      rw [hirq] at hsends
      exact Or.inr (Or.inr (sends_afterRx hsends))
    | send c₁ c₂ hirq hpos hne => exact Or.inl (room_of_send htx hne)
    | stopTx c₁ c₂ hirq heq =>
      have hempty : s.txRing = [] := (Ring.contents_eq_nil_iff htx.txIn htx.txOut).mpr heq.symm
      refine Or.inl ?_
      show s.txRing.length + 1 < bufLen
      rw [hempty]
      decide
    | noSpace hirq hnone =>
      rw [hirq] at hsends
      exact absurd hsends hnone
    | enter hirq =>
      rw [hirq] at hsends
      exact absurd hsends id
    | quit c₁ c₂ hirq | receive c₁ c₂ hirq | transmit c₁ c₂ hirq | txDummy c₁ c₂ hirq
    | alarmAck c₁ c₂ hirq | active c₁ c₂ hirq | inactive c₁ c₂ hirq | timeout c₁ c₂ hirq =>
      rw [hirq] at hsends
      exact absurd hsends id

theorem writing_service {t : T} {v : WriteVars} (hs : Service s s')
    (h : ∃ rdy, s.writing t = some (.wait rdy, v)) : ∃ rdy, s'.writing t = some (.wait rdy, v) := by
  obtain ⟨rdy, hat⟩ := h
  cases hs with
  | store | send | timeout => exact ⟨_, writing_post.mpr ⟨.wait rdy, hat, rfl⟩⟩
  | edge | enter | quit | receive | transmit | full | empty | stopRx | goOn | rxDummy | stopTx
  | noSpace | txDummy | alarmAck | active | inactive => exact ⟨rdy, hat⟩

/-! ## Calls of the routine -/

section Runs

variable [DecidableEq T] {t : T}

theorem service_of_step {e : Event T} (hin : s.irq ≠ .out) (hs : s.step e = some s') :
    Service s s' :=
  (step_cases hs).resolve_right fun h => hin h.1

/-- The routine has come for a byte. When it has returned, a read that waited is ready to run. -/
theorem reader_woken {es es' : List (Event T)} {v : ReadVars}
    (h : Machine.exec Sys.step {} es = some s) (hloop : s.irq = .loop) (hline : s.uart.ipenAF = true)
    (hwait : s.reading t = some (.wait 0#16, v)) (hrun : Machine.exec Sys.step s es' = some s')
    (hin : Machine.Along Sys.step (fun s _ => s.irq ≠ .out) s es') (hout : s'.irq = .out) :
    ∃ rdy, rdy ≠ 0#16 ∧ s'.reading t = some (.wait rdy, v) := by
  obtain ⟨hrx, hen⟩ := enables_reach (Machine.Reach.of_exec h)
  let R (s : Sys T) : Prop :=
    Rx s ∧ Enables s ∧ s.RxComing ∧ ∃ rdy, s.reading t = some (.wait rdy, v)
  have hstep : ∀ s e s', R s → s.irq ≠ .out → Sys.step s e = some s' → R s' := by
    rintro s e s' ⟨hrx, hen, hcoming, hwait⟩ hirq hs
    have hservice := service_of_step hirq hs
    have hen' := hen.step hrx hs
    exact ⟨hrx.step hs, hen', rxComing_service hrx hen' hcoming hservice,
      reading_service hservice hwait⟩
  obtain ⟨hrx', -, hcoming, rdy, hat⟩ :=
    hin.keeps hstep ⟨hrx, hen, Or.inr (Or.inl ⟨hloop, hline⟩), 0#16, hwait⟩ hrun
  refine ⟨rdy, fun hzero => ?_, hat⟩
  obtain ⟨-, -, hinp, hsame⟩ := hrx'.knows t _ v hat
  rcases hcoming with hne | ⟨hirq, -⟩ | ⟨control, data, hirq⟩
  · exact hne ((hsame hzero).trans hinp)
  · cases hout.symm.trans hirq
  · cases hout.symm.trans hirq

theorem reader_woken_byte :
    ∃ (es : List (Event Unit)) (s' : Sys Unit) (rdy : BitVec 16),
      Machine.exec Sys.step {} es = some s' ∧ rdy ≠ 0#16 ∧
        s'.reading () = some (.wait rdy, { space := 1, nonblock := false }) := by
  let es : List (Event Unit) := .read () 1 false :: List.replicate 3 (.task () {} {}) ++
    [.edge { t := some 0x41#8 }, .edge { tPause := true }, .irq]
  let s := (Machine.exec Sys.step {} es).get (by decide +kernel)
  let s' := (Machine.exec Sys.step s (List.replicate 5 (.isr {} {}))).get (by decide +kernel)
  have h : Machine.exec Sys.step {} es = some s := (Option.some_get _).symm
  have hrun : Machine.exec Sys.step s (List.replicate 5 (.isr {} {})) = some s' :=
    (Option.some_get _).symm
  have hwait : s.reading () = some (.wait 0#16, { space := 1, nonblock := false }) := by
    decide +kernel
  obtain ⟨rdy, hrdy, hat⟩ := reader_woken h (by decide +kernel) (by decide +kernel) hwait hrun
    (by decide +kernel) (by decide +kernel)
  exact ⟨_, s', rdy, (Machine.exec_append h).trans hrun, hrdy, hat⟩

/-- The routine has been entered with at most eight bytes in the queue of the device. When it has
returned, a write that waited is ready to run. -/
theorem writer_woken {es es' : List (Event T)} {v : WriteVars}
    (h : Machine.exec Sys.step {} es = some s) (hloop : s.irq = .loop)
    (hfew : s.uart.wfifo.length ≤ 8) (hwait : s.writing t = some (.wait 0#16, v))
    (hrun : Machine.exec Sys.step s es' = some s')
    (hin : Machine.Along Sys.step (fun s _ => s.irq ≠ .out) s es') (hout : s'.irq = .out) :
    ∃ rdy, rdy ≠ 0#16 ∧ s'.writing t = some (.wait rdy, v) := by
  have hreach := Machine.Reach.of_exec h
  have htx := tx_reach hreach
  have henabled := ienAE_of_wait htx (enables_reach hreach).2 hwait
  let R (s : Sys T) : Prop := Tx s ∧ s.TxComing ∧ ∃ rdy, s.writing t = some (.wait rdy, v)
  have hstep : ∀ s e s', R s → s.irq ≠ .out → Sys.step s e = some s' → R s' := by
    rintro s e s' ⟨htx, hcoming, hwait⟩ hirq hs
    have hservice := service_of_step hirq hs
    exact ⟨htx.step hs, txComing_service htx hcoming hservice, writing_service hservice hwait⟩
  obtain ⟨htx', hcoming, rdy, hat⟩ :=
    hin.keeps hstep ⟨htx, Or.inr (Or.inl ⟨hloop, henabled, hfew⟩), 0#16, hwait⟩ hrun
  refine ⟨rdy, fun hzero => ?_, hat⟩
  obtain ⟨hnext, hsame⟩ := htx'.knows t _ v hat
  rcases hcoming with hroom | ⟨hirq, -⟩ | hsends
  · have hsize := (Ring.next_eq_iff htx'.txIn htx'.txOut).mp (hnext.trans (hsame hzero).symm)
    rw [txRing, Ring.length_contents] at hroom
    omega
  · cases hout.symm.trans hirq
  · rw [hout] at hsends
    exact hsends

/-- The device takes 64 bytes in one call of the routine. -/
theorem writer_woken_flood :
    ∃ (es : List (Event Unit)) (s' : Sys Unit) (v : WriteVars) (rdy : BitVec 16),
      Machine.exec Sys.step {} es = some s' ∧ rdy ≠ 0#16 ∧
        s'.writing () = some (.wait rdy, v) := by
  have hfilled := exec_filled (show zeros.length = bufLen from List.length_replicate)
  let es : List (Event Unit) := List.replicate 4 (.task () {} {}) ++ [.irq]
  let s := (Machine.exec Sys.step (filled zeros) es).get (by decide +kernel)
  let s' := (Machine.exec Sys.step s (List.replicate 67 (.isr {} {}))).get (by decide +kernel)
  have hs : Machine.exec Sys.step (filled zeros) es = some s := (Option.some_get _).symm
  have hrun : Machine.exec Sys.step s (List.replicate 67 (.isr {} {})) = some s' :=
    (Option.some_get _).symm
  have hwait : s.writing () = some (.wait 0#16,
      { done := zeros.take 2047, rest := [0#8], nonblock := false }) := by decide +kernel
  have h := (Machine.exec_append hfilled).trans hs
  obtain ⟨rdy, hrdy, hat⟩ := writer_woken h (by decide +kernel) (by decide +kernel) hwait hrun
    (by decide +kernel) (by decide +kernel)
  exact ⟨_, s', _, rdy, (Machine.exec_append h).trans hrun, hrdy, hat⟩

end Runs

end Jtag

end ReactionMeter
