import ReactionMeter.Jtag.Wakeups

/-!
# The service routine comes to an end

Whatever comes from the cable while it runs, one call of `altera_avalon_jtag_uart_irq` takes a bounded
number of pieces (`service_bounded`). Every turn of the outer loop stores a byte, writes one to the
device, or turns an interrupt off that nothing in the routine turns on again. So the room in `rx_buf`,
the bytes in `tx_buf` and the two interrupts that are on are what it has left to do (`work`).

The device has its part in it: it interrupts for a byte that is there, and asks for bytes while there
is room in its queue.
-/

namespace ReactionMeter

namespace Jtag

/-! ## What the routine knows -/

/-- What the routine knows of the interrupts it serves and of the receive queue. -/
def IrqPc.Serves (re we : Bool) (rfifo : List (BitVec 8)) : IrqPc → Prop
  | .rx control data =>
    re = true ∧ (control &&& wiMsk ≠ 0#32 → we = true) ∧
      (data &&& rvalidMsk = 0#32 → data = 1#32 <<< 16 ∧ rfifo ≠ [])
  | .rxDone control _ => re = true ∧ (control &&& wiMsk ≠ 0#32 → we = true)
  | .rxDummy control => control &&& wiMsk ≠ 0#32 → we = true
  | .tx _ => we = true
  | .out | .loop | .txDummy | .alarmAck => True

theorem serves_afterRx {re we : Bool} {rfifo : List (BitVec 8)} {control : BitVec 32}
    (h : control &&& wiMsk ≠ 0#32 → we = true) : (Sys.afterRx control).Serves re we rfifo := by
  unfold Sys.afterRx
  split_ifs with hwi
  · exact h hwi
  · exact trivial

open Sys

variable {T : Type} {s s' : Sys T}

namespace Sys

def Serving (s : Sys T) : Prop :=
  s.irq.Serves (s.irqEnable.getLsbD 0) (s.irqEnable.getLsbD 1) s.uart.rfifo

/-- What is left to do for the routine. -/
def work (s : Sys T) : ℕ :=
  (bufLen - 1 - s.rxRing.length) + s.txRing.length + (s.irqEnable.getLsbD 0).toNat +
    (s.irqEnable.getLsbD 1).toNat

end Sys

/-- The pieces that `work` accounts for, at each place of the routine. -/
def IrqPc.cost (work : ℕ) : IrqPc → ℕ
  | .out => 0
  | .loop => 5 * work + 1
  | .rx _ data => if data &&& rvalidMsk = 0#32 then 5 * work else 5 * work + 4
  | .rxDone _ data => if data &&& ravailMsk = 0#32 then 5 * work + 3 else 5 * work - 1
  | .rxDummy _ => 5 * work + 3
  | .tx space => if 0 < space then 5 * work else 5 * work + 2
  | .txDummy => 5 * work + 2
  | .alarmAck => 1

def Sys.cost (s : Sys T) : ℕ := s.irq.cost s.work

theorem cost_afterRx (work : ℕ) (control : BitVec 32) :
    (afterRx control).cost work ≤ 5 * work + 2 := by
  unfold afterRx IrqPc.cost
  split_ifs <;> dsimp only <;> (try split_ifs) <;> omega

theorem serving_service (h : s.Serving) (hrx : Rx s) (hen : Enables s) (hs : Service s s') :
    s'.Serving := by
  cases hs with
  | edge c =>
    unfold Serving at h ⊢
    cases hirq : s.irq with
    | rx control data =>
      simp only [hirq, IrqPc.Serves] at h ⊢
      obtain ⟨hre, hwe, hfresh⟩ := h
      refine ⟨hre, hwe, fun hvalid => ⟨(hfresh hvalid).1, ?_⟩⟩
      exact Uart.edge_rfifo_ne_nil (Bool.and_false _) (hfresh hvalid).2
    | out | loop | rxDone | rxDummy | tx | txDummy | alarmAck =>
      simp only [hirq] at h ⊢
      exact h
  | enter | quit | noSpace | txDummy | alarmAck | active | stopTx => exact trivial
  | receive c₁ c₂ hirq hri =>
    refine ⟨?_, fun hwi => ?_, fun _ => ⟨rfl, (Uart.reply_ri hrx.uart hri c₂).2⟩⟩
    · exact hen.ienAF.symm.trans (Uart.reply_ri hrx.uart hri c₂).1
    · exact hen.ienAE.symm.trans (Uart.reply_wi hrx.uart hwi).1
  | transmit c₁ c₂ hirq =>
    exact serves_afterRx fun hwi => hen.ienAE.symm.trans (Uart.reply_wi hrx.uart hwi).1
  | full hirq hfull =>
    unfold Serving at h
    rw [hirq] at h
    exact ⟨h.1, h.2.1⟩
  | empty c₁ c₂ hirq hvalid =>
    unfold Serving at h
    rw [hirq] at h
    exact ⟨h.1, h.2.1⟩
  | store c₁ c₂ hirq hfree hvalid =>
    unfold Serving at h
    rw [hirq] at h
    exact ⟨h.1, h.2.1, fun hinvalid => absurd hinvalid hvalid⟩
  | stopRx c₁ c₂ hirq =>
    unfold Serving at h
    rw [hirq] at h
    exact fun hwi => (clear_reMsk s.irqEnable).2.trans (h.2 hwi)
  | goOn hirq =>
    unfold Serving at h
    rw [hirq] at h
    exact serves_afterRx h.2
  | rxDummy c₁ c₂ hirq =>
    unfold Serving at h
    rw [hirq] at h
    exact serves_afterRx h
  | send c₁ c₂ hirq =>
    unfold Serving at h
    rw [hirq] at h
    exact h
  | inactive c₁ c₂ hirq | timeout c₁ c₂ hirq =>
    show s.irq.Serves _ _ _
    rw [hirq]
    exact trivial

/-! ## What a piece costs -/

theorem work_store (hrx : Rx s) (s' : Sys T) {x : BitVec 8}
    (hfree : Ring.next bufLen s.rxIn ≠ s.rxOut)
    (hs : s'.rxBuf = Function.update s.rxBuf s.rxIn x ∧ s'.rxIn = Ring.next bufLen s.rxIn ∧
      s'.rxOut = s.rxOut ∧ s'.txBuf = s.txBuf ∧ s'.txIn = s.txIn ∧ s'.txOut = s.txOut ∧
      s'.irqEnable = s.irqEnable) : s'.work + 1 = s.work := by
  obtain ⟨hbuf, hin, hout, htbuf, htin, htout, henable⟩ := hs
  have hring : s'.rxRing = s.rxRing ++ [x] := by
    rw [rxRing, hbuf, hin, hout, Ring.contents_push hrx.rxIn hrx.rxOut hfree]
    rfl
  have htx : s'.txRing = s.txRing := by rw [txRing, htbuf, htin, htout, txRing]
  have hroom : s.rxRing.length + 1 < bufLen := by
    have hlt := Ring.size_lt bufLen_pos s.rxIn s.rxOut
    have hne := mt (Ring.next_eq_iff hrx.rxIn hrx.rxOut).mpr hfree
    rw [rxRing, Ring.length_contents]
    omega
  rw [work, work, hring, htx, henable, List.length_append, List.length_singleton]
  omega

theorem work_send (htx : Tx s) (s' : Sys T) (hne : s.txOut ≠ s.txIn)
    (hs : s'.txOut = Ring.next bufLen s.txOut ∧ s'.txBuf = s.txBuf ∧ s'.txIn = s.txIn ∧
      s'.rxBuf = s.rxBuf ∧ s'.rxIn = s.rxIn ∧ s'.rxOut = s.rxOut ∧ s'.irqEnable = s.irqEnable) :
    s'.work + 1 = s.work := by
  obtain ⟨hout, hbuf, hin, hrbuf, hrin, hrout, henable⟩ := hs
  have hring : s.txRing = s.txBuf s.txOut :: s'.txRing := by
    rw [txRing, txRing, hbuf, hin, hout]
    exact Ring.contents_pop htx.txIn htx.txOut hne
  have hrx : s'.rxRing = s.rxRing := by rw [rxRing, hrbuf, hrin, hrout, rxRing]
  rw [work, work, hring, hrx, henable, List.length_cons]
  omega

/-- The work without what `irq_enable` adds to it. -/
theorem work_enable (s s' : Sys T) (hs : s'.rxRing = s.rxRing ∧ s'.txRing = s.txRing) :
    s'.work + (s.irqEnable.getLsbD 0).toNat + (s.irqEnable.getLsbD 1).toNat =
      s.work + (s'.irqEnable.getLsbD 0).toNat + (s'.irqEnable.getLsbD 1).toNat := by
  rw [work, work, hs.1, hs.2]
  omega

theorem work_stopRx (c₁ c₂ : Cable) (hre : s.irqEnable.getLsbD 0 = true) :
    (s.setControl (s.irqEnable &&& ~~~reMsk) c₁ c₂).work + 1 = s.work := by
  have heq := work_enable s (s.setControl (s.irqEnable &&& ~~~reMsk) c₁ c₂) ⟨rfl, rfl⟩
  have hbits := clear_reMsk s.irqEnable
  simp only [setControl, hbits.1, hbits.2, hre, Bool.toNat_true, Bool.toNat_false] at heq ⊢
  omega

theorem work_stopTx (c₁ c₂ : Cable) (hwe : s.irqEnable.getLsbD 1 = true) :
    (s.setControl (s.irqEnable &&& ~~~weMsk) c₁ c₂).work + 1 = s.work := by
  have heq := work_enable s (s.setControl (s.irqEnable &&& ~~~weMsk) c₁ c₂) ⟨rfl, rfl⟩
  have hbits := clear_weMsk s.irqEnable
  simp only [setControl, hbits.1, hbits.2, hwe, Bool.toNat_true, Bool.toNat_false] at heq ⊢
  omega

section Pieces

variable {c₁ c₂ : Cable}

/-- The routine goes round again only if there is something to do. -/
theorem cost_loop (hrx : Rx s) (hirq : s.irq = .loop) (hs : s.isrStep c₁ c₂ = some s') :
    s'.cost + 1 ≤ s.cost := by
  have hcost : s.cost = 5 * s.work + 1 := by rw [Sys.cost, hirq, IrqPc.cost]
  simp only [isrStep, hirq] at hs
  split_ifs at hs with hnone hri
  · obtain rfl := Option.some.inj hs
    rw [hcost]
    exact Nat.succ_le_succ (Nat.zero_le _)
  · obtain rfl := Option.some.inj hs
    rw [hcost]
    exact le_refl (5 * s.work + 1)
  · obtain rfl := Option.some.inj hs
    have hwi : s.uart.reply (.read true) c₁ &&& wiMsk ≠ 0#32 := by
      intro hwi
      rw [BitVec.and_or_distrib_left, hwi, not_not.mp hri] at hnone
      exact hnone (BitVec.or_zero)
    have hspace := (Uart.reply_wi hrx.uart hwi).2
    rw [hcost]
    show (afterRx _).cost s.work + 1 ≤ _
    rw [afterRx, if_pos hwi, IrqPc.cost, if_pos hspace]

theorem cost_rx {control data : BitVec 32} (hrx : Rx s) (h : s.Serving)
    (hirq : s.irq = .rx control data) (hs : s.isrStep c₁ c₂ = some s') : s'.cost + 1 ≤ s.cost := by
  unfold Serving at h
  rw [hirq] at h
  obtain ⟨hre, -, hfresh⟩ := h
  have hcost : s.cost = if data &&& rvalidMsk = 0#32 then 5 * s.work else 5 * s.work + 4 := by
    rw [Sys.cost, hirq, IrqPc.cost]
  have hpos : 0 < s.work := by
    rw [work, hre, Bool.toNat_true]
    omega
  simp only [isrStep, hirq] at hs
  split_ifs at hs with hfull hvalid
  · obtain rfl := Option.some.inj hs
    rw [hcost]
    show (if data &&& ravailMsk = 0#32 then 5 * s.work + 3 else 5 * s.work - 1) + 1 ≤ _
    by_cases hread : data &&& rvalidMsk = 0#32
    · -- Nothing has been read yet, so the driver takes it that there is more.
      rw [if_pos hread, (hfresh hread).1, if_neg (by decide)]
      omega
    · rw [if_neg hread]
      split_ifs <;> omega
  · obtain rfl := Option.some.inj hs
    have hread : data &&& rvalidMsk ≠ 0#32 := by
      intro hread
      exact (Uart.reply_rvalid hrx.uart).mpr (hfresh hread).2 hvalid
    rw [hcost, if_neg hread]
    show (if s.uart.reply (.read false) c₁ &&& ravailMsk = 0#32 then 5 * s.work + 3
      else 5 * s.work - 1) + 1 ≤ _
    split_ifs <;> omega
  · obtain rfl := Option.some.inj hs
    rw [hcost]
    have hwork := work_store hrx ({ s.bus (.read false) c₁ c₂ with
      rxBuf := Function.update s.rxBuf s.rxIn
        ((s.uart.reply (.read false) c₁ &&& dataMsk).setWidth 8)
      rxIn := (s.rxIn + 1) % bufLen }) hfull ⟨rfl, rfl, rfl, rfl, rfl, rfl, rfl⟩
    show (if s.uart.reply (.read false) c₁ &&& rvalidMsk = 0#32 then _
      else 5 * work _ + 4) + 1 ≤ _
    rw [if_neg hvalid]
    refine le_trans (b := 5 * (s.work - 1) + 4 + 1) ?_ (by split_ifs <;> omega)
    rw [← hwork]
    exact le_refl _

theorem cost_rxDone {control data : BitVec 32} (h : s.Serving) (hirq : s.irq = .rxDone control data)
    (hs : s.isrStep c₁ c₂ = some s') : s'.cost + 1 ≤ s.cost := by
  unfold Serving at h
  rw [hirq] at h
  simp only [isrStep, hirq] at hs
  split_ifs at hs with havail
  · obtain rfl := Option.some.inj hs
    have hcost : s.cost = 5 * s.work - 1 := by rw [Sys.cost, hirq, IrqPc.cost, if_neg havail]
    have hwork := work_stopRx c₁ c₂ h.1
    show 5 * (s.setControl (s.irqEnable &&& ~~~reMsk) c₁ c₂).work + 3 + 1 ≤ _
    omega
  · obtain rfl := Option.some.inj hs
    have hcost : s.cost = 5 * s.work + 3 := by
      rw [Sys.cost, hirq, IrqPc.cost, if_pos (not_not.mp havail)]
    rw [hcost]
    exact Nat.succ_le_succ (cost_afterRx s.work control)

theorem cost_tx {space : ℕ} (htx : Tx s) (h : s.Serving) (hirq : s.irq = .tx space)
    (hs : s.isrStep c₁ c₂ = some s') : s'.cost + 1 ≤ s.cost := by
  unfold Serving at h
  rw [hirq] at h
  have hcost : s.cost = if 0 < space then 5 * s.work else 5 * s.work + 2 := by
    rw [Sys.cost, hirq, IrqPc.cost]
  simp only [isrStep, hirq] at hs
  split_ifs at hs with hmore hpos
  · obtain rfl := Option.some.inj hs
    rw [hcost, if_pos hmore.1]
    have hwork := work_send htx ({ s.bus (.write false ((s.txBuf s.txOut).setWidth 32)) c₁ c₂
      with txOut := (s.txOut + 1) % bufLen }) hmore.2 ⟨rfl, rfl, rfl, rfl, rfl, rfl, rfl⟩
    show (if 0 < space - 1 then 5 * work _ else 5 * work _ + 2) + 1 ≤ _
    refine le_trans (b := 5 * (s.work - 1) + 2 + 1) ?_ (by omega)
    rw [← hwork]
    split_ifs
    · exact Nat.succ_le_succ (Nat.le_add_right _ 2)
    · exact le_refl _
  · obtain rfl := Option.some.inj hs
    rw [hcost, if_pos hpos]
    have hwork := work_stopTx c₁ c₂ h
    show 5 * (s.setControl (s.irqEnable &&& ~~~weMsk) c₁ c₂).work + 2 + 1 ≤ _
    omega
  · obtain rfl := Option.some.inj hs
    rw [hcost, if_neg hpos]
    exact le_refl (5 * s.work + 2)

/-- Every piece of the routine is paid for. -/
theorem cost_isr (hrx : Rx s) (htx : Tx s) (h : s.Serving) (hs : s.isrStep c₁ c₂ = some s') :
    s'.cost + 1 ≤ s.cost := by
  cases hirq : s.irq with
  | out => simp [isrStep, hirq] at hs
  | loop => exact cost_loop hrx hirq hs
  | rx control data => exact cost_rx hrx h hirq hs
  | rxDone control data => exact cost_rxDone h hirq hs
  | rxDummy control =>
    have hcost : s.cost = 5 * s.work + 3 := by rw [Sys.cost, hirq, IrqPc.cost]
    simp only [isrStep, hirq] at hs
    obtain rfl := Option.some.inj hs
    rw [hcost]
    exact Nat.succ_le_succ (cost_afterRx s.work control)
  | tx space => exact cost_tx htx h hirq hs
  | txDummy =>
    have hcost : s.cost = 5 * s.work + 2 := by rw [Sys.cost, hirq, IrqPc.cost]
    simp only [isrStep, hirq] at hs
    obtain rfl := Option.some.inj hs
    rw [hcost]
    exact le_refl (5 * s.work + 2)
  | alarmAck =>
    have hcost : s.cost = 1 := by rw [Sys.cost, hirq, IrqPc.cost]
    simp only [isrStep, hirq] at hs
    obtain rfl := Option.some.inj hs
    rw [hcost]
    exact le_refl 1

end Pieces

theorem isrStep_isSome (hin : s.irq ≠ .out) (c₁ c₂ : Cable) : (s.isrStep c₁ c₂).isSome = true := by
  cases hirq : s.irq with
  | out => exact absurd hirq hin
  | rxDummy | txDummy | alarmAck => simp [isrStep, hirq]
  | loop | rx | rxDone | tx =>
    simp only [isrStep, hirq]
    split_ifs <;> rfl

/-! ## Runs -/

/-- A piece of the routine. -/
def Event.isIsr : Event T → Bool
  | .isr _ _ => true
  | _ => false

section Runs

variable [DecidableEq T] {t : T}

theorem serving_step (h : s.Serving) (hrx : Rx s) (hen : Enables s) {e : Event T}
    (hs : s.step e = some s') : s'.Serving := by
  have hout : s'.irq = .out → s'.Serving := by
    intro hirq
    unfold Serving
    rw [hirq]
    exact trivial
  rcases step_cases hs with hservice | ⟨hirq, t, hread | hwrite⟩
  · exact serving_service h hrx hen hservice
  · refine hout (Eq.trans ?_ hirq)
    cases hread <;> rfl
  · refine hout (Eq.trans ?_ hirq)
    cases hwrite <;> rfl

theorem serving_reach (h : Machine.Reach Sys.step {} s) : Rx s ∧ Tx s ∧ Enables s ∧ s.Serving := by
  refine h.invariant (P := fun s => Rx s ∧ Tx s ∧ Enables s ∧ s.Serving)
    ⟨rx_init, tx_init, enables_init, trivial⟩ ?_
  rintro s e s' ⟨hrx, htx, hen, hserving⟩ hs
  exact ⟨hrx.step hs, htx.step hs, hen.step hrx hs, serving_step hserving hrx hen hs⟩

/-- While the routine runs, its pieces are all that happens besides the edges of the clock. -/
theorem cost_step (hrx : Rx s) (htx : Tx s) (h : s.Serving) (hin : s.irq ≠ .out) {e : Event T}
    (hs : s.step e = some s') : s'.cost + e.isIsr.toNat ≤ s.cost := by
  cases e with
  | edge c =>
    obtain rfl := Option.some.inj hs
    exact le_refl _
  | isr c₁ c₂ => exact cost_isr hrx htx h hs
  | irq | alarm => simp [step, hin] at hs
  | read t space nonblock => cases hat : s.tasks t <;> simp [step, hat, hin] at hs
  | write t data nonblock => cases hat : s.tasks t <;> simp [step, hat, hin] at hs
  | task t c₁ c₂ => simp [step, hin] at hs

/-- A call of the service routine takes at most this many pieces, whatever the cable does and however
many clock edges lie between them, and up to its return there is always a next one. -/
theorem service_bounded {es es' : List (Event T)} (h : Machine.exec Sys.step {} es = some s)
    (hloop : s.irq = .loop) (hrun : Machine.exec Sys.step s es' = some s')
    (hin : Machine.Along Sys.step (fun s _ => s.irq ≠ .out) s es') :
    es'.countP Event.isIsr ≤ 5 * ((bufLen - 1 - s.rxRing.length) + s.txRing.length + 2) + 1 ∧
      (s'.irq ≠ .out → ∀ c₁ c₂, (s'.step (.isr c₁ c₂)).isSome = true) := by
  have hpot := Machine.countP_le_potential (f := Sys.cost) (p := Event.isIsr)
    (R := fun s : Sys T => Rx s ∧ Tx s ∧ Enables s ∧ s.Serving) ?_
    (serving_reach (Machine.Reach.of_exec h)) hin hrun
  · refine ⟨?_, fun hin c₁ c₂ => isrStep_isSome hin c₁ c₂⟩
    have hcost : s.cost = 5 * s.work + 1 := by rw [Sys.cost, hloop, IrqPc.cost]
    have hre := Bool.toNat_le (s.irqEnable.getLsbD 0)
    have hwe := Bool.toNat_le (s.irqEnable.getLsbD 1)
    rw [hcost, work] at hpot
    omega
  · rintro s e s' ⟨hrx, htx, hen, hserving⟩ hirq hs
    exact ⟨⟨hrx.step hs, htx.step hs, hen.step hrx hs, serving_step hserving hrx hen hs⟩,
      cost_step hrx htx hserving hirq hs⟩

theorem service_bounded_echo :
    ∃ s s' : Sys Unit, Machine.exec Sys.step {} (echo.take 3) = some s ∧
      Machine.exec Sys.step s (List.replicate 5 (.isr {} {})) = some s' ∧ s'.irq = .out ∧
      5 ≤ 5 * ((bufLen - 1 - s.rxRing.length) + s.txRing.length + 2) + 1 := by
  let s := (Machine.exec Sys.step {} (echo.take 3)).get (by decide +kernel)
  let s' := (Machine.exec Sys.step s (List.replicate 5 (.isr {} {}))).get (by decide +kernel)
  have h : Machine.exec Sys.step {} (echo.take 3) = some s := (Option.some_get _).symm
  have hrun : Machine.exec Sys.step s (List.replicate 5 (.isr {} {})) = some s' :=
    (Option.some_get _).symm
  obtain ⟨hbound, -⟩ := service_bounded h (by decide +kernel) hrun (by decide +kernel)
  exact ⟨s, s', h, hrun, by decide +kernel, hbound⟩

end Runs

end Jtag

end ReactionMeter
