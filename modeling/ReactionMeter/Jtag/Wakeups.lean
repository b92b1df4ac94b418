import ReactionMeter.Jtag.Transmit

/-!
# Nobody sleeps on work

A task that waits for a flag is woken by the service routine only, and the routine runs only while
the interrupt of its direction is on. `Enables` is the other half of the argument: the receive
interrupt is off only while there is something for a read to take, or a read has taken something and
has yet to turn it on; the transmit interrupt is off only while the buffer is empty, or a write has
yet to turn it on.

With what a waiting task knows of its buffer, this gives `reader_asleep` and `writer_asleep`.
-/

namespace ReactionMeter

namespace Jtag

/-- On the way to the write of the control register. -/
def WritePc.Kicks : WritePc → Prop
  | .head | .copy _ _ | .enable => True
  | .lock | .pend | .wait _ | .woken | .unlock => False

namespace Sys

variable {T : Type}

/-- A read has taken bytes, and turns the receive interrupt on before it returns. -/
def RxOwed (s : Sys T) : Prop := ∃ t pc v, s.reading t = some (pc, v) ∧ v.got ≠ []

/-- A write turns the transmit interrupt on before it waits or returns. -/
def TxOwed (s : Sys T) : Prop := ∃ t pc v, s.writing t = some (pc, v) ∧ pc.Kicks

end Sys

open Sys

variable {T : Type}

/-! ## The two bits of `irq_enable` -/

theorem clear_reMsk (e : BitVec 32) :
    (e &&& ~~~reMsk).getLsbD 0 = false ∧ (e &&& ~~~reMsk).getLsbD 1 = e.getLsbD 1 := by
  rw [BitVec.getLsbD_and, BitVec.getLsbD_and]
  exact ⟨Bool.and_false _, Bool.and_true _⟩

theorem clear_weMsk (e : BitVec 32) :
    (e &&& ~~~weMsk).getLsbD 0 = e.getLsbD 0 ∧ (e &&& ~~~weMsk).getLsbD 1 = false := by
  rw [BitVec.getLsbD_and, BitVec.getLsbD_and]
  exact ⟨Bool.and_true _, Bool.and_false _⟩

theorem set_reMsk (e : BitVec 32) :
    (e ||| reMsk).getLsbD 0 = true ∧ (e ||| reMsk).getLsbD 1 = e.getLsbD 1 := by
  rw [BitVec.getLsbD_or, BitVec.getLsbD_or]
  exact ⟨Bool.or_true _, Bool.or_false _⟩

theorem set_weMsk (e : BitVec 32) :
    (e ||| weMsk).getLsbD 0 = e.getLsbD 0 ∧ (e ||| weMsk).getLsbD 1 = true := by
  rw [BitVec.getLsbD_or, BitVec.getLsbD_or]
  exact ⟨Bool.or_false _, Bool.or_true _⟩

theorem set_acMsk (e : BitVec 32) :
    (e ||| acMsk).getLsbD 0 = e.getLsbD 0 ∧ (e ||| acMsk).getLsbD 1 = e.getLsbD 1 := by
  rw [BitVec.getLsbD_or, BitVec.getLsbD_or]
  exact ⟨Bool.or_false _, Bool.or_false _⟩

structure Enables (s : Sys T) : Prop where
  ienAF : s.uart.ienAF = s.irqEnable.getLsbD 0
  ienAE : s.uart.ienAE = s.irqEnable.getLsbD 1
  rx : s.irqEnable.getLsbD 0 = false → s.rxIn ≠ s.rxOut ∨ s.RxOwed
  tx : s.irqEnable.getLsbD 1 = false → s.txIn = s.txOut ∨ s.TxOwed
  /-- The routine has come for a byte. -/
  rxLoop : ∀ control data, s.irq = .rx control data → s.rxIn ≠ s.rxOut ∨ s.uart.rfifo ≠ []
  rxDone : ∀ control data, s.irq = .rxDone control data → s.rxIn ≠ s.rxOut

theorem enables_init : Enables ({} : Sys T) where
  ienAF := show true = reMsk.getLsbD 0 by decide
  ienAE := show false = reMsk.getLsbD 1 by decide
  rx := fun hoff => absurd (show reMsk.getLsbD 0 = false from hoff) (by decide)
  tx := fun _ => Or.inl rfl
  rxLoop := by intro control data h; cases h
  rxDone := by intro control data h; cases h

/-! ## Service -/

section Frames

variable {s s' : Sys T}

theorem rxOwed_post {flags : BitVec 16} (h : s.RxOwed) : (s.post flags).RxOwed := by
  obtain ⟨t, pc, v, hat, hgot⟩ := h
  exact ⟨t, _, v, reading_post.mpr ⟨pc, hat, rfl⟩, hgot⟩

theorem txOwed_post {flags : BitVec 16} (h : s.TxOwed) : (s.post flags).TxOwed := by
  obtain ⟨t, pc, v, hat, hkicks⟩ := h
  refine ⟨t, _, v, writing_post.mpr ⟨pc, hat, rfl⟩, ?_⟩
  cases pc with
  | head | copy | enable => exact trivial
  | lock | pend | wait | woken | unlock => exact absurd hkicks id

/-- An access that leaves the two enable bits of the device where they are. -/
theorem Enables.access (h : Enables s) (hok : s.uart.Ok) {b : Bus} (hb : b.active = true)
    (hdata : b.readsData = false)
    (hcontrol : ∀ d, b.control = some d →
      d.getLsbD 0 = s.irqEnable.getLsbD 0 ∧ d.getLsbD 1 = s.irqEnable.getLsbD 1)
    (c₁ c₂ : Cable) : Enables (s.bus b c₁ c₂) where
  ienAF := by
    refine (Uart.access_ienAF hok hb).trans ?_
    cases hc : b.control with
    | none => exact h.ienAF
    | some d => exact (hcontrol d hc).1
  ienAE := by
    refine (Uart.access_ienAE hok hb).trans ?_
    cases hc : b.control with
    | none => exact h.ienAE
    | some d => exact (hcontrol d hc).2
  rx := h.rx
  tx := h.tx
  rxLoop := by
    intro control data hirq
    refine (h.rxLoop control data hirq).imp id fun hne => ?_
    show (s.uart.access b c₁ c₂).rfifo ≠ []
    rw [Uart.access_rfifo_keep hok hb hdata]
    exact List.append_ne_nil_of_left_ne_nil hne _
  rxDone := h.rxDone

/-- The routine goes to a place outside its receive loop. -/
theorem Enables.goto (h : Enables s) {irq : IrqPc} (hrx : ∀ control data, irq ≠ .rx control data)
    (hdone : ∀ control data, irq ≠ .rxDone control data) : Enables { s with irq := irq } :=
  { h with
    rxLoop := fun control data hirq => absurd hirq (hrx control data)
    rxDone := fun control data hirq => absurd hirq (hdone control data) }

theorem afterRx_ne (control : BitVec 32) :
    (∀ c d, afterRx control ≠ .rx c d) ∧ ∀ c d, afterRx control ≠ .rxDone c d := by
  unfold afterRx
  split_ifs <;> simp

theorem ne_rx_of_out {irq : IrqPc} (h : irq = .out) :
    (∀ c d, irq ≠ .rx c d) ∧ ∀ c d, irq ≠ .rxDone c d := by
  rw [h]
  simp

theorem Enables.post (h : Enables s) (flags : BitVec 16) : Enables (s.post flags) :=
  { h with
    rx := fun hoff => (h.rx hoff).imp id rxOwed_post
    tx := fun hoff => (h.tx hoff).imp id txOwed_post }

/-- The driver turns the receive interrupt off. -/
theorem Enables.stopRx (h : Enables s) (hok : s.uart.Ok) (c₁ c₂ : Cable)
    (hne : s.rxIn ≠ s.rxOut) : Enables (s.setControl (s.irqEnable &&& ~~~reMsk) c₁ c₂) where
  ienAF := Uart.access_ienAF hok rfl
  ienAE := Uart.access_ienAE hok rfl
  rx := fun _ => Or.inl hne
  tx := fun hoff => h.tx ((clear_reMsk s.irqEnable).2.symm.trans hoff)
  rxLoop := fun _ _ _ => Or.inl hne
  rxDone := fun _ _ _ => hne

/-- The driver turns the transmit interrupt off. -/
theorem Enables.stopTx (h : Enables s) (hok : s.uart.Ok) (c₁ c₂ : Cable)
    (heq : s.txIn = s.txOut) : Enables (s.setControl (s.irqEnable &&& ~~~weMsk) c₁ c₂) where
  ienAF := Uart.access_ienAF hok rfl
  ienAE := Uart.access_ienAE hok rfl
  rx := fun hoff => h.rx ((clear_weMsk s.irqEnable).1.symm.trans hoff)
  tx := fun _ => Or.inl heq
  rxLoop := by
    intro control data hirq
    refine (h.rxLoop control data hirq).imp id fun hne => ?_
    show (s.uart.access _ c₁ c₂).rfifo ≠ []
    rw [Uart.access_rfifo_keep hok rfl rfl]
    exact List.append_ne_nil_of_left_ne_nil hne _
  rxDone := h.rxDone

theorem Enables.service (h : Enables s) (hrx : Rx s) (hs : Service s s') : Enables s' := by
  have hread := h.access hrx.uart (b := .read true) rfl rfl (by simp [Bus.control])
  cases hs with
  | edge c =>
    refine { h with ienAF := ?_, ienAE := ?_, rxLoop := ?_ }
    · refine Eq.trans ?_ h.ienAF
      simp [Uart.edge, Bus.control]
    · refine Eq.trans ?_ h.ienAE
      simp [Uart.edge, Bus.control]
    · intro control data hirq
      refine (h.rxLoop control data hirq).imp id fun hne => ?_
      exact Uart.edge_rfifo_ne_nil (Bool.and_false _) hne
  | enter | noSpace => exact h.goto (by simp) (by simp)
  | goOn => exact h.goto (afterRx_ne _).1 (afterRx_ne _).2
  | quit c₁ c₂ | txDummy c₁ c₂ | active c₁ c₂ => exact (hread c₁ c₂).goto (by simp) (by simp)
  | transmit c₁ c₂ | rxDummy c₁ c₂ => exact (hread c₁ c₂).goto (afterRx_ne _).1 (afterRx_ne _).2
  | inactive c₁ c₂ => exact { hread c₁ c₂ with }
  | @timeout c₁ c₂ n =>
    have hbus : Enables { s.bus (.read true) c₁ c₂ with hostInactive := n } := { hread c₁ c₂ with }
    exact hbus.post timeoutFlag
  | receive c₁ c₂ hirq hri =>
    refine { hread c₁ c₂ with rxLoop := ?_, rxDone := ?_ }
    · exact fun _ _ _ => Or.inr (Uart.reply_ri hrx.uart hri c₂).2
    · intro control data hirq'
      cases hirq'
  | full hirq hfull =>
    have hne : s.rxIn ≠ s.rxOut := by
      intro heq
      have hsize := (Ring.next_eq_iff hrx.rxIn hrx.rxOut).mp hfull
      rw [(Ring.size_eq_zero_iff hrx.rxIn hrx.rxOut).mpr heq] at hsize
      exact absurd hsize (by decide)
    refine { h with rxLoop := ?_, rxDone := fun _ _ _ => hne }
    intro control data hirq'
    cases hirq'
  | @empty c₁ c₂ control data hirq hvalid =>
    have hnil : s.uart.rfifo = [] := by
      by_contra hne
      exact (Uart.reply_rvalid hrx.uart).mpr hne hvalid
    have hne : s.rxIn ≠ s.rxOut := (h.rxLoop _ _ hirq).resolve_right (not_not.mpr hnil)
    refine { h with ienAF := ?_, ienAE := ?_, rxLoop := ?_, rxDone := fun _ _ _ => hne }
    · exact (Uart.access_ienAF hrx.uart rfl).trans h.ienAF
    · exact (Uart.access_ienAE hrx.uart rfl).trans h.ienAE
    · intro control data hirq'
      cases hirq'
  | @store c₁ c₂ control data hirq hfree hvalid =>
    have hne : (s.rxIn + 1) % bufLen ≠ s.rxOut := hfree
    refine Enables.post (s := { s.bus (.read false) c₁ c₂ with
      rxBuf := _, rxIn := _, irq := _ }) ?_ readRdy
    refine { ienAF := ?_, ienAE := ?_, rx := fun _ => ?_, tx := h.tx, rxLoop := ?_, rxDone := ?_ }
    · exact (Uart.access_ienAF hrx.uart rfl).trans h.ienAF
    · exact (Uart.access_ienAE hrx.uart rfl).trans h.ienAE
    · exact Or.inl hne
    · exact fun _ _ _ => Or.inl hne
    · intro control data hirq'
      cases hirq'
  | stopRx c₁ c₂ hirq =>
    exact (h.stopRx hrx.uart c₁ c₂ (h.rxDone _ _ hirq)).goto (by simp) (by simp)
  | stopTx c₁ c₂ hirq heq =>
    exact (h.stopTx hrx.uart c₁ c₂ heq.symm).goto (by simp) (by simp)
  | alarmAck c₁ c₂ =>
    have hbits : ∀ d, (Bus.write true (s.irqEnable ||| acMsk)).control = some d →
        d.getLsbD 0 = s.irqEnable.getLsbD 0 ∧ d.getLsbD 1 = s.irqEnable.getLsbD 1 := by
      intro d hd
      cases hd
      exact set_acMsk s.irqEnable
    have hout : Enables { s.bus (.write true (s.irqEnable ||| acMsk)) c₁ c₂ with irq := .out } :=
      (h.access hrx.uart rfl rfl hbits c₁ c₂).goto (by simp) (by simp)
    exact { hout with }
  | send c₁ c₂ hirq hpos hne =>
    have hbus := h.access hrx.uart (b := .write false ((s.txBuf s.txOut).setWidth 32)) rfl rfl
      (by simp [Bus.control]) c₁ c₂
    refine Enables.post (s := { s.bus _ c₁ c₂ with txOut := _, irq := _ }) ?_ writeRdy
    refine { hbus with tx := fun hoff => ?_, rxLoop := ?_, rxDone := ?_ }
    · exact Or.inr ((h.tx hoff).resolve_left (Ne.symm hne))
    · intro control data hirq'
      cases hirq'
    · intro control data hirq'
      cases hirq'

/-- A write that waits and has not been woken knows that the buffer is full. -/
theorem full_of_wait (htx : Tx s) {t : T} {v : WriteVars}
    (hwait : s.writing t = some (.wait 0#16, v)) : s.txRing.length + 1 = bufLen := by
  obtain ⟨hnext, hsame⟩ := htx.knows t _ v hwait
  rw [txRing, Ring.length_contents, ← Ring.next_eq_iff htx.txIn htx.txOut, hsame rfl]
  exact hnext

end Frames

/-! ## Tasks -/

section Tasks

variable [DecidableEq T] {s s' : Sys T} {t : T}

theorem rxOwed_move {p : Place} (htasks : s'.tasks = Function.update s.tasks t p)
    (hkeep : ∀ pc v, s.reading t = some (pc, v) → v.got ≠ [] →
      ∃ pc' v', p.reads = some (pc', v') ∧ v'.got ≠ []) (h : s.RxOwed) : s'.RxOwed := by
  rw [RxOwed, reading_of_tasks htasks]
  exact Lock.exists_update hkeep h

theorem txOwed_move {p : Place} (htasks : s'.tasks = Function.update s.tasks t p)
    (hkeep : ∀ pc v, s.writing t = some (pc, v) → pc.Kicks →
      ∃ pc' v', p.writes = some (pc', v') ∧ pc'.Kicks) (h : s.TxOwed) : s'.TxOwed := by
  rw [TxOwed, writing_of_tasks htasks]
  exact Lock.exists_update hkeep h

/-- A task moves, and what it owes it still owes. -/
theorem Enables.move (h : Enables s) (hirq : s.irq = .out) {p : Place}
    (htasks : s'.tasks = Function.update s.tasks t p)
    (hrx : ∀ pc v, s.reading t = some (pc, v) → v.got ≠ [] →
      ∃ pc' v', p.reads = some (pc', v') ∧ v'.got ≠ [])
    (htx : ∀ pc v, s.writing t = some (pc, v) → pc.Kicks →
      ∃ pc' v', p.writes = some (pc', v') ∧ pc'.Kicks)
    (hsame : s'.uart = s.uart ∧ s'.irqEnable = s.irqEnable ∧ s'.irq = s.irq ∧ s'.rxIn = s.rxIn ∧
      s'.rxOut = s.rxOut ∧ s'.txIn = s.txIn ∧ s'.txOut = s.txOut) : Enables s' := by
  obtain ⟨huart, henable, hirq', hin, hout, htin, htout⟩ := hsame
  refine
    { ienAF := by rw [huart, henable]; exact h.ienAF
      ienAE := by rw [huart, henable]; exact h.ienAE
      rx := ?_
      tx := ?_
      rxLoop := ?_
      rxDone := ?_ }
  · rw [henable, hin, hout]
    exact fun hoff => (h.rx hoff).imp id (rxOwed_move htasks hrx)
  · rw [henable, htin, htout]
    exact fun hoff => (h.tx hoff).imp id (txOwed_move htasks htx)
  · intro control data hat
    rw [hirq', hirq] at hat
    cases hat
  · intro control data hat
    rw [hirq', hirq] at hat
    cases hat

theorem Enables.readMove (h : Enables s) (hrx : Rx s) (hirq : s.irq = .out)
    (hm : ReadMove s t s') : Enables s' := by
  have hno := ne_rx_of_out hirq
  have hreading : ∀ {pc v}, s.tasks t = .read pc v → s.reading t = some (pc, v) := by
    intro pc v hat
    rw [reading, hat]
    rfl
  have hwriting : ∀ {pc v}, s.tasks t = .read pc v → s.writing t = none := by
    intro pc v hat
    rw [writing, hat]
    rfl
  -- A read that goes on with the same bytes.
  have hmove : ∀ {u : Sys T} {pc pc' : ReadPc} {v v' : ReadVars}, s.tasks t = .read pc v →
      u.tasks = Function.update s.tasks t (.read pc' v') → v'.got = v.got →
      (u.uart = s.uart ∧ u.irqEnable = s.irqEnable ∧ u.irq = s.irq ∧ u.rxIn = s.rxIn ∧
        u.rxOut = s.rxOut ∧ u.txIn = s.txIn ∧ u.txOut = s.txOut) → Enables u := by
    intro u pc pc' v v' hat htasks hgot hsame
    refine h.move hirq htasks ?_ (by rw [hwriting hat]; simp) hsame
    intro pc₁ v₁ hat₁ hgot₁
    cases (hreading hat).symm.trans hat₁
    exact ⟨pc', v', rfl, hgot ▸ hgot₁⟩
  cases hm with
  | @call v hat =>
    obtain ⟨last, hat⟩ := hat
    have hr : s.reading t = none := by rw [reading, hat]; rfl
    have hw : s.writing t = none := by rw [writing, hat]; rfl
    exact h.move hirq rfl (by rw [hr]; simp) (by rw [hw]; simp) ⟨rfl, rfl, rfl, rfl, rfl, rfl, rfl⟩
  | acquire hat | found hat | none hat | block hat | byte hat | sleep hat | again hat =>
    exact hmove hat rfl rfl ⟨rfl, rfl, rfl, rfl, rfl, rfl, rfl⟩
  | consume hat =>
    rcases hat with ⟨hat, -⟩ | hat
    · exact hmove hat rfl rfl ⟨rfl, rfl, rfl, rfl, rfl, rfl, rfl⟩
    · exact hmove hat rfl rfl ⟨rfl, rfl, rfl, rfl, rfl, rfl, rfl⟩
  | @take v n part pc hat hge hpc =>
    obtain ⟨-, -, hpos, -⟩ := hrx.knows t _ v (hreading hat)
    have hne : part ≠ [] := List.ne_nil_of_length_pos (hpos.trans_le hge)
    refine
      { ienAF := h.ienAF
        ienAE := h.ienAE
        rx := fun _ => Or.inr ?_
        tx := fun hoff => (h.tx hoff).imp id ?_
        rxLoop := fun _ _ hat' => absurd hat' (hno.1 _ _)
        rxDone := fun _ _ hat' => absurd hat' (hno.2 _ _) }
    · refine ⟨t, pc, { v with got := v.got ++ part, space := v.space - n }, ?_,
        List.append_ne_nil_of_right_ne_nil v.got hne⟩
      rw [reading_of_tasks (s := s) rfl, Function.update_self]
      rfl
    · exact txOwed_move rfl (by rw [hwriting hat]; simp)
  | @release v p hat hp =>
    refine h.move hirq rfl ?_ (by rw [hwriting hat]; simp) ⟨rfl, rfl, rfl, rfl, rfl, rfl, rfl⟩
    intro pc₁ v₁ hat₁ hgot₁
    cases (hreading hat).symm.trans hat₁
    rcases hp with ⟨rfl, hgot⟩ | ⟨-, -, hgot⟩
    · exact ⟨.enable, v, rfl, hgot⟩
    · exact absurd hgot hgot₁
  | @enable c₁ c₂ v last hat =>
    obtain ⟨hon, hother⟩ := set_reMsk s.irqEnable
    refine
      { ienAF := Uart.access_ienAF hrx.uart rfl
        ienAE := Uart.access_ienAE hrx.uart rfl
        rx := fun hoff => ?_
        tx := fun hoff => ?_
        rxLoop := fun _ _ hat' => absurd hat' (hno.1 _ _)
        rxDone := fun _ _ hat' => absurd hat' (hno.2 _ _) }
    · exact absurd (hon.symm.trans hoff) (by decide)
    · refine (h.tx (hother.symm.trans hoff)).imp id ?_
      exact txOwed_move rfl (by rw [hwriting hat]; simp)

theorem Enables.writeMove (h : Enables s) (hrx : Rx s) (hirq : s.irq = .out)
    (hm : WriteMove s t s') : Enables s' := by
  have hno := ne_rx_of_out hirq
  have hwriting : ∀ {pc v}, s.tasks t = .write pc v → s.writing t = some (pc, v) := by
    intro pc v hat
    rw [writing, hat]
    rfl
  have hreading : ∀ {pc v}, s.tasks t = .write pc v → s.reading t = none := by
    intro pc v hat
    rw [reading, hat]
    rfl
  -- A write that still has to turn the interrupt on if it had to.
  have hmove : ∀ {u : Sys T} {pc : WritePc} {v : WriteVars} {p : Place}, s.tasks t = .write pc v →
      u.tasks = Function.update s.tasks t p →
      (pc.Kicks → ∃ pc' v', p.writes = some (pc', v') ∧ pc'.Kicks) →
      (u.uart = s.uart ∧ u.irqEnable = s.irqEnable ∧ u.irq = s.irq ∧ u.rxIn = s.rxIn ∧
        u.rxOut = s.rxOut ∧ u.txIn = s.txIn ∧ u.txOut = s.txOut) → Enables u := by
    intro u pc v p hat htasks hkicks hsame
    refine h.move hirq htasks (by rw [hreading hat]; simp) ?_ hsame
    intro pc₁ v₁ hat₁ hkicks₁
    cases (hwriting hat).symm.trans hat₁
    exact hkicks hkicks₁
  cases hm with
  | @call v hat =>
    obtain ⟨last, hat⟩ := hat
    have hr : s.reading t = none := by rw [reading, hat]; rfl
    have hw : s.writing t = none := by rw [writing, hat]; rfl
    exact h.move hirq rfl (by rw [hr]; simp) (by rw [hw]; simp) ⟨rfl, rfl, rfl, rfl, rfl, rfl, rfl⟩
  | acquire hat | finish hat | full hat | found hat | byte hat =>
    exact hmove hat rfl (fun _ => ⟨_, _, rfl, trivial⟩) ⟨rfl, rfl, rfl, rfl, rfl, rfl, rfl⟩
  | sleep hat | again hat | release hat =>
    exact hmove hat rfl (fun hkicks => absurd hkicks id) ⟨rfl, rfl, rfl, rfl, rfl, rfl, rfl⟩
  | consume hat =>
    rcases hat with ⟨hat, -⟩ | hat
    · exact hmove hat rfl (fun hkicks => absurd hkicks id) ⟨rfl, rfl, rfl, rfl, rfl, rfl, rfl⟩
    · exact hmove hat rfl (fun hkicks => absurd hkicks id) ⟨rfl, rfl, rfl, rfl, rfl, rfl, rfl⟩
  | @put v n i hat hge =>
    refine { h with rx := fun hoff => (h.rx hoff).imp id ?_, tx := fun _ => Or.inr ?_ }
    · exact rxOwed_move rfl (by rw [hreading hat]; simp)
    · refine ⟨t, .head, { v with done := v.done ++ v.rest.take n, rest := v.rest.drop n }, ?_, trivial⟩
      rw [writing_of_tasks (s := s) rfl, Function.update_self]
      rfl
  | @enable c₁ c₂ v pc hat hpc =>
    obtain ⟨hother, hon⟩ := set_weMsk s.irqEnable
    refine
      { ienAF := Uart.access_ienAF hrx.uart rfl
        ienAE := Uart.access_ienAE hrx.uart rfl
        rx := fun hoff => ?_
        tx := fun hoff => ?_
        rxLoop := fun _ _ hat' => absurd hat' (hno.1 _ _)
        rxDone := fun _ _ hat' => absurd hat' (hno.2 _ _) }
    · refine (h.rx (hother.symm.trans hoff)).imp id ?_
      exact rxOwed_move rfl (by rw [hreading hat]; simp)
    · exact absurd (hon.symm.trans hoff) (by decide)

theorem Enables.step (h : Enables s) (hrx : Rx s) {e : Event T} (hs : s.step e = some s') :
    Enables s' := by
  rcases step_cases hs with hservice | ⟨hirq, t, hread | hwrite⟩
  · exact h.service hrx hservice
  · exact h.readMove hrx hirq hread
  · exact h.writeMove hrx hirq hwrite

theorem enables_reach (h : Machine.Reach Sys.step {} s) : Rx s ∧ Enables s := by
  refine h.invariant (P := fun s => Rx s ∧ Enables s) ⟨rx_init, enables_init⟩ ?_
  rintro s e s' ⟨hrx, hen⟩ hs
  exact ⟨hrx.step hs, hen.step hrx hs⟩

theorem WritePc.Kicks.inside {pc : WritePc} (h : pc.Kicks) : pc.Inside := by
  cases pc with
  | head | copy | enable => exact trivial
  | lock | pend | wait | woken | unlock => exact absurd h id

/-- A read that waits and has not been woken has missed nothing: nothing is there for it, and what
comes will interrupt. Only a read on its way out may still have to see to that. -/
theorem reader_asleep {es : List (Event T)} (h : Machine.exec Sys.step {} es = some s) {v : ReadVars}
    (hwait : s.reading t = some (.wait 0#16, v)) :
    s.rxRing = [] ∧ (s.uart.ienAF = true ∨ ∃ u w, s.reading u = some (.enable, w)) := by
  obtain ⟨hrx, hen⟩ := enables_reach (Machine.Reach.of_exec h)
  obtain ⟨hnil, -, hinp, hsame⟩ := hrx.knows t _ v hwait
  have hempty : s.rxIn = s.rxOut := (hsame rfl).trans hinp
  refine ⟨(Ring.contents_eq_nil_iff hrx.rxIn hrx.rxOut).mpr hempty, ?_⟩
  rw [hen.ienAF]
  cases hon : s.irqEnable.getLsbD 0 with
  | true => exact Or.inl rfl
  | false =>
    obtain ⟨u, pc, w, hat, hgot⟩ := (hen.rx hon).resolve_left (not_not.mpr hempty)
    refine Or.inr ⟨u, w, ?_⟩
    by_cases hu : u = t
    · -- The waiting read itself has taken nothing.
      rw [hu, hwait] at hat
      cases hat
      exact absurd hnil hgot
    · have hout := hrx.outside (hrx.holder hwait trivial) hu hat
      cases pc with
      | enable => exact hat
      | lock => exact absurd (hrx.knows u _ w hat) hgot
      | head | copy | pend | wait | woken | unlock => exact absurd trivial hout

theorem reader_asleep_first :
    ∃ (s : Sys Unit) (v : ReadVars),
      Machine.exec Sys.step {} (.read () 1 false :: List.replicate 3 (.task () {} {})) = some s ∧
        s.reading () = some (.wait 0#16, v) ∧ s.rxRing = [] ∧
          (s.uart.ienAF = true ∨ ∃ u w, s.reading u = some (.enable, w)) := by
  have hview : (Machine.exec Sys.step {}
      (.read () 1 false :: List.replicate 3 (.task () {} {}))).map (fun s => s.reading ()) =
        some (some (.wait 0#16, { space := 1, nonblock := false })) := by
    decide +kernel
  obtain ⟨s, hs, hwait⟩ := Option.map_eq_some_iff.mp hview
  exact ⟨s, _, hs, hwait, reader_asleep hs hwait⟩

theorem ienAE_of_wait (htx : Tx s) (hen : Enables s) {v : WriteVars}
    (hwait : s.writing t = some (.wait 0#16, v)) : s.uart.ienAE = true := by
  have hfull := full_of_wait htx hwait
  rw [hen.ienAE]
  by_contra hoff
  rcases hen.tx (Bool.eq_false_iff.mpr hoff) with hempty | ⟨u, pc, w, hat, hkicks⟩
  · have hnil : s.txRing = [] := (Ring.contents_eq_nil_iff htx.txIn htx.txOut).mpr hempty
    rw [hnil] at hfull
    exact absurd hfull (by decide)
  · have hu : u = t := by
      by_contra hne
      exact htx.outside (htx.holder hwait trivial) hne hat hkicks.inside
    rw [hu, hwait] at hat
    cases hat
    exact hkicks

/-- A write that waits and has not been woken has missed nothing: there is no room for it, and the
device will ask for more. -/
theorem writer_asleep {es : List (Event T)} (h : Machine.exec Sys.step {} es = some s)
    {v : WriteVars} (hwait : s.writing t = some (.wait 0#16, v)) :
    s.txRing.length + 1 = bufLen ∧ s.uart.ienAE = true := by
  have hreach := Machine.Reach.of_exec h
  have htx := tx_reach hreach
  exact ⟨full_of_wait htx hwait, ienAE_of_wait htx (enables_reach hreach).2 hwait⟩

/-- `buf` with `k` bytes of `rest`, from the `i`-th on, copied to where they belong. -/
def copied (rest : List (BitVec 8)) (inp : ℕ) (buf : ℕ → BitVec 8) (i : ℕ) : ℕ → ℕ → BitVec 8
  | 0 => buf
  | k + 1 => copied rest inp (Function.update buf (inp + i) (rest.getD i 0#8)) (i + 1) k

/-- A write that has found room copies on, if nothing gets in between. -/
theorem exec_copy {n i : ℕ} {v : WriteVars} (hirq : s.irq = .out)
    (hat : s.tasks t = .write (.copy n i) v) (k : ℕ) (hk : i + k ≤ n) :
    Machine.exec Sys.step s (List.replicate k (.task t {} {})) =
      some { s.go t (.write (.copy n (i + k)) v) with
        txBuf := copied v.rest s.txIn s.txBuf i k } := by
  induction k generalizing s i with
  | zero =>
    rw [List.replicate_zero, Machine.exec, Nat.add_zero, go, ← hat, Function.update_eq_self]
    rfl
  | succ k ih =>
    let u : Sys T := { s.go t (.write (.copy n (i + 1)) v) with
      txBuf := Function.update s.txBuf (s.txIn + i) (v.rest.getD i 0#8) }
    have hstep : s.step (.task t {} {}) = some u := by
      simp only [step, if_pos hirq, hat, writeStep, if_pos (show i < n by omega), u]
    have hrest := ih (s := u) (i := i + 1) hirq (Function.update_self ..) (by omega)
    rw [List.replicate_succ, Machine.exec_cons hstep, hrest]
    simp only [u, go, Function.update_idem, Nat.add_assoc, Nat.add_comm 1 k, copied]

/-- The first write, of one byte more than the buffer holds, has filled it. -/
def filled (data : List (BitVec 8)) : Sys Unit :=
  { go {} () (.write (.copy 2047 2047) { rest := data, nonblock := false }) with
    writeLock := some ()
    txBuf := copied data 0 (fun _ => 0#8) 0 2047 }

theorem exec_filled {data : List (BitVec 8)} (hdata : data.length = bufLen) :
    Machine.exec Sys.step {} (.write () data false :: List.replicate 2049 (.task () {} {})) =
      some (filled data) := by
  have hlen : data.length = 2048 := hdata
  have hne : data ≠ [] := List.ne_nil_of_length_pos (hlen ▸ by decide)
  let v : WriteVars := { rest := data, nonblock := false }
  let start : Sys Unit := { go {} () (.write (.copy 2047 0) v) with writeLock := some () }
  have hstart : Machine.exec Sys.step {} [.write () data false, .task () {} {},
      .task () {} {}] = some start := by
    simp [Machine.exec, step, writeStep, go, start, v, writable, bufLen, hne, hlen]
  have hcopy := exec_copy (s := start) (t := ()) (n := 2047) (i := 0) (v := v) rfl rfl 2047 le_rfl
  have hall := (Machine.exec_append hstart).trans hcopy
  refine hall.trans ?_
  simp [filled, start, go, v]

def zeros : List (BitVec 8) := List.replicate bufLen 0#8

theorem writer_asleep_flood :
    ∃ (es : List (Event Unit)) (s : Sys Unit) (v : WriteVars),
      Machine.exec Sys.step {} es = some s ∧ s.writing () = some (.wait 0#16, v) ∧
        s.txRing.length + 1 = bufLen ∧ s.uart.ienAE = true := by
  have hfilled := exec_filled (show zeros.length = bufLen from List.length_replicate)
  let s := (Machine.exec Sys.step (filled zeros) (List.replicate 4 (.task () {} {}))).get
    (by decide +kernel)
  have hs : Machine.exec Sys.step (filled zeros) (List.replicate 4 (.task () {} {})) = some s :=
    (Option.some_get _).symm
  have hwait : s.writing () = some (.wait 0#16,
      { done := zeros.take 2047, rest := [0#8], nonblock := false }) := by decide +kernel
  have hexec := (Machine.exec_append hfilled).trans hs
  exact ⟨_, s, _, hexec, hwait, writer_asleep hexec hwait⟩

end Tasks

end Jtag

end ReactionMeter
