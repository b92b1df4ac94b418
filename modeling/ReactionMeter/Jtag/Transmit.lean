import ReactionMeter.Jtag.Receive

/-!
# The transmit side

What a write takes from its caller goes through `tx_buf` and the queue of the device to the cable.
`Tx` says that it arrives whole and in order, and that the service routine never writes to a full
queue: the room it has read in the control register can only grow.

A write that is about to wait has found the buffer full, and a byte that has left it since then has
set `ALT_JTAG_UART_WRITE_RDY`.
-/

namespace ReactionMeter

namespace Jtag

/-- Between `ALT_SEM_PEND` and `ALT_SEM_POST`. -/
def WritePc.Inside : WritePc → Prop
  | .lock => False
  | .head | .copy _ _ | .enable | .pend | .wait _ | .woken | .unlock => True

/-- What a write knows of the buffer, the flags and its own variables. -/
def WritePc.Knows (txIn txOut : ℕ) (txBuf : ℕ → BitVec 8) (events : BitVec 16) (v : WriteVars) :
    WritePc → Prop
  | .lock => v.done = []
  | .head | .woken | .unlock => True
  | .copy n i =>
    Ring.window bufLen txBuf txIn i = v.rest.take i ∧ i ≤ n ∧ n ≤ v.rest.length ∧
      Ring.size bufLen txIn txOut + n < bufLen ∧ txIn + n ≤ bufLen
  | .enable =>
    v.rest ≠ [] → Ring.next bufLen txIn = v.outp ∧ (txOut ≠ v.outp → events.getLsbD 1 = true)
  | .pend =>
    Ring.next bufLen txIn = v.outp ∧ (txOut ≠ v.outp → events.getLsbD 1 = true)
  | .wait rdy => Ring.next bufLen txIn = v.outp ∧ (rdy = 0#16 → txOut = v.outp)

theorem WritePc.Knows.outside {txIn txOut txIn' txOut' : ℕ} {txBuf txBuf' : ℕ → BitVec 8}
    {events events' : BitVec 16} {v : WriteVars} {pc : WritePc}
    (h : pc.Knows txIn txOut txBuf events v) (hout : ¬ pc.Inside) :
    pc.Knows txIn' txOut' txBuf' events' v := by
  cases pc with
  | lock => exact h
  | head | copy | enable | pend | wait | woken | unlock => exact absurd trivial hout

/-- The room in the queue of the device that the service routine counts on, with `len` bytes in it. -/
def IrqPc.Room (len : ℕ) : IrqPc → Prop
  | .rx control _ | .rxDone control _ | .rxDummy control =>
    ((control &&& wspaceMsk) >>> 16).toNat + len ≤ fifoWords
  | .tx space => space + len ≤ fifoWords
  | .out | .loop | .txDummy | .alarmAck => True

theorem IrqPc.Room.mono {len len' : ℕ} {irq : IrqPc} (h : irq.Room len) (hle : len' ≤ len) :
    irq.Room len' := by
  cases irq with
  | rx | rxDone | rxDummy | tx => exact (Nat.add_le_add_left hle _).trans h
  | out | loop | txDummy | alarmAck => exact trivial

theorem room_afterRx {len : ℕ} {control : BitVec 32}
    (h : ((control &&& wspaceMsk) >>> 16).toNat + len ≤ fifoWords) :
    (Sys.afterRx control).Room len := by
  unfold Sys.afterRx
  split_ifs
  · exact h
  · exact trivial

namespace Sys

variable {T : Type}

/-- What is in `tx_buf`. -/
def txRing (s : Sys T) : List (BitVec 8) := Ring.contents bufLen s.txBuf s.txIn s.txOut

/-- What the holder of `write_lock` has put into the buffer in this call. -/
def txHand (s : Sys T) : List (BitVec 8) := (s.writeLock.bind s.writing).elim [] fun w => w.2.done

end Sys

open Sys

variable {T : Type}

structure Tx (s : Sys T) : Prop extends
    Lock.Guarded WritePc.Inside (fun pc v => pc.Knows s.txIn s.txOut s.txBuf s.events v) s.writeLock
      s.writing where
  uart : s.uart.Ok
  txIn : s.txIn < bufLen
  txOut : s.txOut < bufLen
  /-- A waiting read has been woken by flags of its own. -/
  readers : ∀ t rdy v, s.reading t = some (.wait rdy, v) → rdy.getLsbD 1 = false
  room : s.irq.Room s.uart.wfifo.length
  woverflow : s.uart.woverflow = false
  content : s.uart.sent ++ s.uart.wfifo ++ s.txRing = s.written ++ s.txHand

theorem tx_init : Tx ({} : Sys T) where
  toGuarded := Lock.guarded_none
  uart := rx_init.uart
  txIn := bufLen_pos
  txOut := bufLen_pos
  readers := by intro t rdy v h; cases h
  room := trivial
  woverflow := rfl
  content := by
    have hnil : txRing ({} : Sys T) = [] :=
      (Ring.contents_eq_nil_iff bufLen_pos bufLen_pos).mpr rfl
    rw [hnil]
    rfl

section Hand

variable {s : Sys T} {t : T} {pc : WritePc} {v : WriteVars}

theorem txHand_eq (hlock : s.writeLock = some t) (hat : s.writing t = some (pc, v)) :
    s.txHand = v.done :=
  Lock.hand_eq hlock hat

theorem txHand_post (s : Sys T) (flags : BitVec 16) : (s.post flags).txHand = s.txHand := by
  show Lock.hand s.writeLock (s.post flags).writing WriteVars.done = _
  rw [post_writing]
  exact Lock.hand_relocate

end Hand

/-! ## Service -/

section Frames

variable {s s' : Sys T}

/-- A step that only lets bytes out of the device. -/
theorem Tx.frame (h : Tx s) (hok : s'.uart.Ok)
    (hwfifo : s'.uart.sent ++ s'.uart.wfifo = s.uart.sent ++ s.uart.wfifo)
    (hover : s'.uart.woverflow = s.uart.woverflow) (hroom : s'.irq.Room s'.uart.wfifo.length)
    (hsame : s'.txIn = s.txIn ∧ s'.txOut = s.txOut ∧ s'.txBuf = s.txBuf ∧ s'.events = s.events ∧
      s'.writeLock = s.writeLock ∧ s'.tasks = s.tasks ∧ s'.written = s.written) : Tx s' := by
  obtain ⟨hin, hout, hbuf, hev, hlock, htasks, hwritten⟩ := hsame
  have hreading : s'.reading = s.reading := by funext t; rw [reading, htasks]; rfl
  have hwriting : s'.writing = s.writing := by funext t; rw [writing, htasks]; rfl
  refine
    { uart := hok
      txIn := hin ▸ h.txIn
      txOut := hout ▸ h.txOut
      toGuarded := by rw [hin, hout, hbuf, hev, hlock, hwriting]; exact h.toGuarded
      readers := by rw [hreading]; exact h.readers
      room := hroom
      woverflow := hover.trans h.woverflow
      content := ?_ }
  rw [txHand, txRing, hin, hout, hbuf, hlock, hwriting, hwritten, hwfifo]
  exact h.content

theorem Tx.access (h : Tx s) {b : Bus} (hb : b.active = true) (hdata : b.writesData = false)
    (c₁ c₂ : Cable) (huart : s'.uart = s.uart.access b c₁ c₂)
    (hroom : s'.irq.Room (s.uart.access b c₁ c₂).wfifo.length)
    (hsame : s'.txIn = s.txIn ∧ s'.txOut = s.txOut ∧ s'.txBuf = s.txBuf ∧ s'.events = s.events ∧
      s'.writeLock = s.writeLock ∧ s'.tasks = s.tasks ∧ s'.written = s.written) : Tx s' := by
  refine h.frame ?_ ?_ ?_ ?_ hsame
  · rw [huart]; exact Uart.access_ok h.uart hb c₁ c₂
  · rw [huart]; exact Uart.access_wfifo_keep h.uart hdata
  · rw [huart, Uart.access_woverflow h.uart hb, if_neg (by rw [hdata]; exact Bool.false_ne_true)]
  · rw [huart]; exact hroom

/-- The room at the place of the routine does not shrink in an access that is no write of data. -/
theorem Tx.room_access (h : Tx s) {b : Bus} (hdata : b.writesData = false) (c₁ c₂ : Cable) :
    s.irq.Room (s.uart.access b c₁ c₂).wfifo.length :=
  h.room.mono (Uart.access_wfifo_length_keep h.uart hdata)

theorem WritePc.inside_flagTaskRdy {events : BitVec 16} {pc : WritePc} :
    (pc.flagTaskRdy events).Inside ↔ pc.Inside := by
  cases pc <;> exact Iff.rfl

theorem WritePc.Knows.post {txIn txOut : ℕ} {txBuf : ℕ → BitVec 8} {events : BitVec 16}
    {v : WriteVars} {pc : WritePc} (h : pc.Knows txIn txOut txBuf events v) (flags : BitVec 16) :
    (pc.flagTaskRdy (events ||| flags)).Knows txIn txOut txBuf (events ||| flags) v := by
  have hbit : events.getLsbD 1 = true → (events ||| flags).getLsbD 1 = true := by
    intro hev
    rw [BitVec.getLsbD_or, hev, Bool.true_or]
  cases pc with
  | enable => exact fun hrest => ⟨(h hrest).1, fun hne => hbit ((h hrest).2 hne)⟩
  | pend => exact ⟨h.1, fun hne => hbit (h.2 hne)⟩
  | wait rdy => exact ⟨h.1, fun hz => h.2 (flagsRdy_eq_zero hz).1⟩
  | lock | head | copy | woken | unlock => exact h

theorem ReadPc.flagsRdy_post {events : BitVec 16} {pc : ReadPc} {rdy : BitVec 16}
    (h : pc.flagTaskRdy events = .wait rdy) : rdy = events &&& readFlags ∨ pc = .wait rdy := by
  cases pc with
  | wait rdy₀ =>
    simp only [flagTaskRdy, wait.injEq] at h
    split_ifs at h
    · exact Or.inl h.symm
    · exact Or.inr (by rw [h])
  | lock | head | copy | enable | pend | woken | unlock => cases h

theorem Tx.post (h : Tx s) (flags : BitVec 16) : Tx (s.post flags) where
  toGuarded := by
    rw [post_writing]
    exact h.toGuarded.relocate (fun _ => WritePc.inside_flagTaskRdy) fun _ _ hk => hk.post flags
  uart := h.uart
  txIn := h.txIn
  txOut := h.txOut
  readers := by
    intro t rdy v hat
    obtain ⟨pc₀, hat₀, hpc⟩ := reading_post.mp hat
    rcases ReadPc.flagsRdy_post hpc with rfl | rfl
    · rw [BitVec.getLsbD_and]
      exact Bool.and_false _
    · exact h.readers t rdy v hat₀
  room := h.room
  woverflow := h.woverflow
  content := by
    rw [txHand_post]
    exact h.content

/-- The routine takes a byte. A write that copies has more room, and one that is about to wait is
told. -/
theorem WritePc.Knows.send {txIn txOut : ℕ} {txBuf : ℕ → BitVec 8} {events : BitVec 16}
    {v : WriteVars} {pc : WritePc} (h : pc.Knows txIn txOut txBuf events v) (hin : txIn < bufLen)
    (hout : txOut < bufLen) (hne : txOut ≠ txIn) :
    (pc.flagTaskRdy (events ||| writeRdy)).Knows txIn (Ring.next bufLen txOut) txBuf
      (events ||| writeRdy) v := by
  have hsize : Ring.size bufLen txIn (Ring.next bufLen txOut) = Ring.size bufLen txIn txOut - 1 := by
    refine Ring.size_pop hin hout (Nat.pos_of_ne_zero ?_)
    exact mt (Ring.size_eq_zero_iff hin hout).mp (Ne.symm hne)
  have hbit : (events ||| writeRdy).getLsbD 1 = true := by
    rw [BitVec.getLsbD_or]
    exact Bool.or_true _
  cases pc with
  | copy n i =>
    obtain ⟨hpart, hle, hn, hroom, hend⟩ := h
    exact ⟨hpart, hle, hn, by rw [hsize]; omega, hend⟩
  | enable => exact fun hrest => ⟨(h hrest).1, fun _ => hbit⟩
  | pend => exact ⟨h.1, fun _ => hbit⟩
  | wait rdy =>
    refine ⟨h.1, fun hz => ?_⟩
    have hflag := congrArg (·.getLsbD 1) (flagsRdy_eq_zero hz).2
    rw [BitVec.getLsbD_and, hbit] at hflag
    cases hflag
  | lock | head | woken | unlock => exact h

/-- The byte at the read index goes to the device, which has room for it. -/
theorem Tx.send (h : Tx s) (c₁ c₂ : Cable) {space : ℕ} (hirq : s.irq = .tx space)
    (hpos : 0 < space) (hne : s.txOut ≠ s.txIn) :
    Tx ({ s.bus (.write false ((s.txBuf s.txOut).setWidth 32)) c₁ c₂ with
      txOut := (s.txOut + 1) % bufLen
      irq := .tx (space - 1) }.post writeRdy) := by
  have hroom : space + s.uart.wfifo.length ≤ fifoWords := by
    have hroom := h.room
    rw [hirq] at hroom
    exact hroom
  have hlt : s.uart.wfifo.length < fifoWords := by omega
  have hlen := Uart.access_wfifo_length h.uart (.write false ((s.txBuf s.txOut).setWidth 32)) c₁ c₂
  have hwfifo := Uart.access_wfifo_write h.uart hlt (s.txBuf s.txOut) c₁ c₂
  have hover := Uart.access_woverflow (b := .write false ((s.txBuf s.txOut).setWidth 32)) h.uart rfl
    c₁ c₂
  refine
    { toGuarded := ?_
      uart := Uart.access_ok h.uart rfl c₁ c₂
      txIn := h.txIn
      txOut := Nat.mod_lt _ bufLen_pos
      readers := (h.post writeRdy).readers
      room := ?_
      woverflow := ?_
      content := ?_ }
  · rw [post_writing]
    exact h.toGuarded.relocate (fun _ => WritePc.inside_flagTaskRdy)
      fun _ _ hk => hk.send h.txIn h.txOut hne
  · show space - 1 + _ ≤ fifoWords
    have hone : (Bus.write false ((s.txBuf s.txOut).setWidth 32)).writesData.toNat = 1 := rfl
    rw [hone] at hlen
    exact (Nat.add_le_add_left hlen _).trans (by omega)
  · refine hover.trans ?_
    rw [if_pos (show (Bus.write false _).writesData = true from rfl)]
    exact decide_eq_false hlt.ne
  · have hpop : Ring.contents bufLen s.txBuf s.txIn s.txOut =
        s.txBuf s.txOut :: Ring.contents bufLen s.txBuf s.txIn (Ring.next bufLen s.txOut) :=
      Ring.contents_pop h.txIn h.txOut hne
    have hcontent := h.content
    rw [txRing, hpop] at hcontent
    show (s.uart.access _ c₁ c₂).sent ++ (s.uart.access _ c₁ c₂).wfifo ++
      Ring.contents bufLen s.txBuf s.txIn (Ring.next bufLen s.txOut) =
        s.written ++ (s.post writeRdy).txHand
    rw [hwfifo, txHand_post, ← hcontent, List.append_assoc _ [_]]
    rfl

theorem Tx.service (h : Tx s) (hs : Service s s') : Tx s' := by
  have hkept := fun (c₁ c₂ : Cable) => h.room_access (b := .read true) rfl c₁ c₂
  cases hs with
  | edge c =>
    have hlen := s.uart.edge_wfifo_length .idle c
    have hwfifo := s.uart.edge_wfifo .idle c
    rw [h.uart.fifoWr] at hlen
    rw [h.uart.fifoWr, if_neg Bool.false_ne_true, List.append_nil] at hwfifo
    refine h.frame (Uart.edge_idle h.uart c) hwfifo ?_ (h.room.mono hlen)
      ⟨rfl, rfl, rfl, rfl, rfl, rfl, rfl⟩
    exact if_neg fun hw => Bool.false_ne_true hw.2
  | send c₁ c₂ hirq hpos hne => exact h.send c₁ c₂ hirq hpos hne
  | enter => exact { h with room := trivial }
  | noSpace => exact { h with room := trivial }
  | full hirq =>
    have hroom := h.room
    rw [hirq] at hroom
    exact { h with room := hroom }
  | goOn hirq =>
    have hroom := h.room
    rw [hirq] at hroom
    exact { h with room := room_afterRx hroom }
  | quit c₁ c₂ | txDummy c₁ c₂ | active c₁ c₂ | alarmAck c₁ c₂ | stopTx c₁ c₂ =>
    exact h.access rfl rfl c₁ c₂ rfl trivial ⟨rfl, rfl, rfl, rfl, rfl, rfl, rfl⟩
  | receive c₁ c₂ =>
    exact h.access rfl rfl c₁ c₂ rfl (Uart.reply_wspace h.uart)
      ⟨rfl, rfl, rfl, rfl, rfl, rfl, rfl⟩
  | transmit c₁ c₂ =>
    exact h.access rfl rfl c₁ c₂ rfl (room_afterRx (Uart.reply_wspace h.uart))
      ⟨rfl, rfl, rfl, rfl, rfl, rfl, rfl⟩
  | empty c₁ c₂ hirq =>
    have hroom := h.room_access (b := .read false) rfl c₁ c₂
    rw [hirq] at hroom
    exact h.access rfl rfl c₁ c₂ rfl hroom ⟨rfl, rfl, rfl, rfl, rfl, rfl, rfl⟩
  | store c₁ c₂ hirq =>
    have hroom := h.room_access (b := .read false) rfl c₁ c₂
    rw [hirq] at hroom
    refine Tx.post (h.access rfl rfl c₁ c₂ rfl hroom ?_) readRdy
    exact ⟨rfl, rfl, rfl, rfl, rfl, rfl, rfl⟩
  | @stopRx c₁ c₂ control data hirq =>
    have hroom := h.room_access (b := .write true (s.irqEnable &&& ~~~reMsk)) rfl c₁ c₂
    rw [hirq] at hroom
    exact h.access rfl rfl c₁ c₂ rfl hroom ⟨rfl, rfl, rfl, rfl, rfl, rfl, rfl⟩
  | rxDummy c₁ c₂ hirq =>
    have hroom := hkept c₁ c₂
    rw [hirq] at hroom
    exact h.access rfl rfl c₁ c₂ rfl (room_afterRx hroom) ⟨rfl, rfl, rfl, rfl, rfl, rfl, rfl⟩
  | inactive c₁ c₂ hirq =>
    exact h.access rfl rfl c₁ c₂ rfl (hkept c₁ c₂) ⟨rfl, rfl, rfl, rfl, rfl, rfl, rfl⟩
  | @timeout c₁ c₂ n hirq =>
    have hbus : Tx { s.bus (.read true) c₁ c₂ with hostInactive := n } :=
      h.access rfl rfl c₁ c₂ rfl (hkept c₁ c₂) ⟨rfl, rfl, rfl, rfl, rfl, rfl, rfl⟩
    exact hbus.post timeoutFlag

/-- The bytes a write can copy fit in one block, and leave one cell free. -/
theorem writable_le (h : Tx s) :
    Ring.size bufLen s.txIn s.txOut + s.writable < bufLen ∧ s.txIn + s.writable ≤ bufLen := by
  have hin := h.txIn
  have hout := h.txOut
  rw [writable, Ring.size_eq hin hout]
  split_ifs <;> omega

theorem next_of_writable_eq_zero (h : Tx s) (hn : s.writable = 0) :
    Ring.next bufLen s.txIn = s.txOut := by
  have hin := h.txIn
  have hout := h.txOut
  rw [Ring.next_eq_ite hin]
  unfold writable at hn
  split_ifs at hn ⊢ <;> omega

end Frames

/-! ## Tasks -/

section Tasks

variable [DecidableEq T] {s s' : Sys T} {t : T} {pc pc' : WritePc} {v v' : WriteVars}

theorem WritePc.Knows.events {txIn txOut : ℕ} {txBuf : ℕ → BitVec 8} {events events' : BitVec 16}
    (h : pc.Knows txIn txOut txBuf events v)
    (hbit : events.getLsbD 1 = true → events'.getLsbD 1 = true) :
    pc.Knows txIn txOut txBuf events' v := by
  cases pc with
  | enable => exact fun hrest => ⟨(h hrest).1, fun hne => hbit ((h hrest).2 hne)⟩
  | pend => exact ⟨h.1, fun hne => hbit (h.2 hne)⟩
  | lock | head | copy | wait | woken | unlock => exact h

theorem Tx.readers_move (h : Tx s) {p : Place} (htasks : s'.tasks = Function.update s.tasks t p)
    (hwait : ∀ rdy v, p.reads = some (.wait rdy, v) → rdy.getLsbD 1 = false) :
    ∀ u rdy v, s'.reading u = some (.wait rdy, v) → rdy.getLsbD 1 = false := by
  rw [reading_of_tasks htasks]
  exact (Function.forall_update_iff s.reading fun _ r =>
    ∀ rdy v, r = some (.wait rdy, v) → rdy.getLsbD 1 = false).mpr ⟨hwait, fun u _ => h.readers u⟩

theorem Tx.elsewhere (h : Tx s) {p : Place} (htasks : s'.tasks = Function.update s.tasks t p)
    (hbefore : ∀ pc v, s.writing t = some (pc, v) → ¬ pc.Inside)
    (hafter : ∀ pc v, p.writes = some (pc, v) →
      ¬ pc.Inside ∧ pc.Knows s.txIn s.txOut s.txBuf s.events v)
    (hwait : ∀ rdy v, p.reads = some (.wait rdy, v) → rdy.getLsbD 1 = false)
    (hbit : s.events.getLsbD 1 = true → s'.events.getLsbD 1 = true)
    (hsame : s'.uart = s.uart ∧ s'.irq = s.irq ∧ s'.txIn = s.txIn ∧ s'.txOut = s.txOut ∧
      s'.txBuf = s.txBuf ∧ s'.writeLock = s.writeLock ∧ s'.written = s.written) : Tx s' := by
  obtain ⟨huart, hirq, hin, hout, hbuf, hlock, hwritten⟩ := hsame
  refine
    { toGuarded := ?_
      uart := huart ▸ h.uart
      txIn := hin ▸ h.txIn
      txOut := hout ▸ h.txOut
      readers := h.readers_move htasks hwait
      room := by rw [hirq, huart]; exact h.room
      woverflow := huart ▸ h.woverflow
      content := ?_ }
  · rw [hin, hout, hbuf, hlock, writing_of_tasks htasks]
    exact h.toGuarded.elsewhere hbefore (fun pc v hp => (hafter pc v hp).imp id (·.events hbit))
      fun _ _ hk => hk.events hbit
  · have hhand : s'.txHand = s.txHand := by
      show Lock.hand s'.writeLock s'.writing WriteVars.done = _
      rw [hlock, writing_of_tasks htasks]
      exact h.hand_elsewhere hbefore
    rw [hhand, hwritten, txRing, hin, hout, hbuf, huart]
    exact h.content

theorem Tx.inside (h : Tx s) (hat : s.writing t = some (pc, v)) (hin : pc.Inside)
    (htasks : s'.tasks = Function.update s.tasks t (.write pc' v')) (hin' : pc'.Inside)
    (hinp : s'.txIn < bufLen)
    (hknows : pc'.Knows s'.txIn s'.txOut s'.txBuf s'.events v')
    {new : List (BitVec 8)} (hring : s'.txRing = s.txRing ++ new) (hdone : v'.done = v.done ++ new)
    (hsame : s'.uart = s.uart ∧ s'.irq = s.irq ∧ s'.txOut = s.txOut ∧
      s'.writeLock = s.writeLock ∧ s'.written = s.written) : Tx s' := by
  obtain ⟨huart, hirq, hout, hlock, hwritten⟩ := hsame
  have hholds := h.holder hat hin
  have hwriting : s'.writing = Function.update s.writing t (some (pc', v')) :=
    writing_of_tasks htasks
  refine
    { toGuarded := ?_
      uart := huart ▸ h.uart
      txIn := hinp
      txOut := hout ▸ h.txOut
      readers := h.readers_move htasks (by simp [Place.reads])
      room := by rw [hirq, huart]; exact h.room
      woverflow := huart ▸ h.woverflow
      content := ?_ }
  · rw [hlock, hwriting]
    exact h.toGuarded.inside hat hin hin' hknows fun _ _ hk hout => hk.outside hout
  · have hhand : s'.txHand = v'.done := by
      show Lock.hand s'.writeLock s'.writing WriteVars.done = _
      rw [hlock, hholds, hwriting]
      exact Lock.hand_update
    have hold := h.content
    rw [txHand_eq hholds hat] at hold
    rw [hhand, hdone, hring, hwritten, huart, ← List.append_assoc, hold, List.append_assoc]

theorem Tx.byte (h : Tx s) {n i : ℕ} (hat : s.writing t = some (.copy n i, v)) (hlt : i < n) :
    Tx { s.go t (.write (.copy n (i + 1)) v) with
      txBuf := Function.update s.txBuf (s.txIn + i) (v.rest.getD i 0#8) } := by
  obtain ⟨hpart, hle, hn, hroom, hend⟩ := h.knows t _ v hat
  have hcell : s.txIn + i = (s.txIn + i) % bufLen := (Nat.mod_eq_of_lt (by omega)).symm
  have hlen : i < v.rest.length := hlt.trans_le hn
  have hvalue : v.rest.getD i 0#8 = v.rest[i] := by
    rw [List.getD_eq_getElem?_getD, List.getElem?_eq_getElem hlen, Option.getD_some]
  have hring : Ring.contents bufLen (Function.update s.txBuf (s.txIn + i) (v.rest.getD i 0#8))
      s.txIn s.txOut = s.txRing ++ [] := by
    rw [hcell, Ring.contents_update h.txIn h.txOut (by omega), List.append_nil]
    rfl
  refine h.inside hat trivial rfl trivial h.txIn ?_ hring (List.append_nil _).symm
    ⟨rfl, rfl, rfl, rfl, rfl⟩
  refine ⟨?_, hlt, hn, hroom, hend⟩
  show Ring.window bufLen (Function.update s.txBuf (s.txIn + i) _) s.txIn (i + 1) = _
  rw [hcell, Ring.window_push (by omega), hpart, hvalue, List.take_concat_get']

/-- The write index moves over a block that has been copied. -/
theorem Tx.put (h : Tx s) {n i : ℕ} (hat : s.writing t = some (.copy n i, v)) (hge : n ≤ i) :
    Tx { s.go t (.write .head
        { v with done := v.done ++ v.rest.take n, rest := v.rest.drop n }) with
      txIn := (s.txIn + n) % bufLen } := by
  obtain ⟨hpart, hle, hn, hroom, hend⟩ := h.knows t _ v hat
  obtain rfl : i = n := le_antisymm hle hge
  refine h.inside hat trivial rfl trivial (Nat.mod_lt _ bufLen_pos) trivial ?_ rfl
    ⟨rfl, rfl, rfl, rfl, rfl⟩
  show Ring.contents bufLen s.txBuf ((s.txIn + i) % bufLen) s.txOut = _
  rw [Ring.contents_append h.txIn h.txOut hroom, hpart]
  rfl

theorem Tx.acquire (h : Tx s) (hat : s.writing t = some (.lock, v)) (hfree : s.writeLock = none) :
    Tx { s.go t (.write .head v) with writeLock := some t } := by
  have hwriting : (s.go t (.write .head v)).writing =
      Function.update s.writing t (some (.head, v)) :=
    writing_of_tasks (s := s) (p := .write .head v) rfl
  refine
    { toGuarded := ?_
      uart := h.uart
      txIn := h.txIn
      txOut := h.txOut
      readers := h.readers_move rfl (by simp [Place.reads])
      room := h.room
      woverflow := h.woverflow
      content := ?_ }
  · show Lock.Guarded _ _ (some t) (s.go t (.write .head v)).writing
    rw [hwriting]
    exact h.toGuarded.acquire hfree trivial trivial
  · have hdone : v.done = [] := h.knows t _ v hat
    have hhand : ({ s.go t (.write .head v) with writeLock := some t } : Sys T).txHand =
        s.txHand := by
      show Lock.hand (some t) (s.go t (.write .head v)).writing WriteVars.done = _
      rw [hwriting, Lock.hand_update, hdone, txHand, hfree]
      rfl
    rw [hhand]
    exact h.content

/-- A write gives the token back, and what it has taken from its caller counts as written. -/
theorem Tx.release (h : Tx s) {last : Option Result} (hat : s.writing t = some (.unlock, v)) :
    Tx { s.go t (.out last) with writeLock := none, written := s.written ++ v.done } := by
  have hholds := h.holder hat trivial
  refine
    { toGuarded := ?_
      uart := h.uart
      txIn := h.txIn
      txOut := h.txOut
      readers := h.readers_move rfl (by simp [Place.reads])
      room := h.room
      woverflow := h.woverflow
      content := ?_ }
  · show Lock.Guarded _ _ none (s.go t (.out last)).writing
    rw [writing_of_tasks (s := s) (p := .out last) rfl]
    exact h.toGuarded.release hholds (by simp [Place.writes])
  · have hold := h.content
    rw [txHand_eq hholds hat] at hold
    show _ = s.written ++ v.done ++ []
    rw [List.append_nil]
    exact hold

theorem Tx.writeMove (h : Tx s) (hm : WriteMove s t s') : Tx s' := by
  have hwriting : ∀ {pc v}, s.tasks t = .write pc v → s.writing t = some (pc, v) := by
    intro pc v hat
    rw [writing, hat]
    rfl
  have hring : s.txRing = s.txRing ++ [] := (List.append_nil s.txRing).symm
  cases hm with
  | @call v hat hdone =>
    obtain ⟨last, hat⟩ := hat
    have hnone : s.writing t = none := by rw [writing, hat]; rfl
    refine h.elsewhere rfl (by rw [hnone]; simp) ?_ (by simp [Place.reads]) id
      ⟨rfl, rfl, rfl, rfl, rfl, rfl, rfl⟩
    intro pc v hp
    cases hp
    exact ⟨id, hdone⟩
  | acquire hat hfree => exact h.acquire (hwriting hat) hfree
  | finish hat hrest =>
    exact h.inside (hwriting hat) trivial rfl trivial h.txIn (fun hne => absurd hrest hne) hring
      (List.append_nil _).symm ⟨rfl, rfl, rfl, rfl, rfl⟩
  | full hat hn =>
    have hfull := next_of_writable_eq_zero h hn
    refine h.inside (hwriting hat) trivial rfl trivial h.txIn ?_ hring (List.append_nil _).symm
      ⟨rfl, rfl, rfl, rfl, rfl⟩
    exact fun _ => ⟨hfull, fun hne => absurd rfl hne⟩
  | @found v hat hrest hn =>
    obtain ⟨hroom, hend⟩ := writable_le h
    have hmin : min s.writable v.rest.length ≤ s.writable := min_le_left _ _
    refine h.inside (hwriting hat) trivial rfl trivial h.txIn ?_ hring (List.append_nil _).symm
      ⟨rfl, rfl, rfl, rfl, rfl⟩
    exact ⟨rfl, Nat.zero_le _, min_le_right _ _, (Nat.add_le_add_left hmin _).trans_lt hroom,
      (Nat.add_le_add_left hmin _).trans hend⟩
  | byte hat hlt => exact h.byte (hwriting hat) hlt
  | put hat hge => exact h.put (hwriting hat) hge
  | @enable c₁ c₂ v pc hat hpc =>
    have hbus : Tx (s.setControl (s.irqEnable ||| weMsk) c₁ c₂) :=
      h.access rfl rfl c₁ c₂ rfl (h.room_access rfl c₁ c₂) ⟨rfl, rfl, rfl, rfl, rfl, rfl, rfl⟩
    have hknows := h.knows t _ v (hwriting hat)
    have hat' : (s.setControl (s.irqEnable ||| weMsk) c₁ c₂).writing t = some (.enable, v) :=
      hwriting hat
    refine hbus.inside hat' trivial rfl ?_ h.txIn ?_
      (List.append_nil _).symm (List.append_nil _).symm ⟨rfl, rfl, rfl, rfl, rfl⟩
    · rcases hpc with ⟨rfl, -⟩ | rfl <;> exact trivial
    · rcases hpc with ⟨rfl, hrest⟩ | rfl
      · exact hknows hrest
      · exact trivial
  | @consume v rdy hat =>
    have hat' : ∃ pc : WritePc, s.tasks t = .write pc v ∧ pc.Inside :=
      hat.elim (fun hat => ⟨_, hat.1, trivial⟩) fun hat => ⟨_, hat, trivial⟩
    obtain ⟨pc, hat', hin⟩ := hat'
    exact h.inside (hwriting hat') hin rfl trivial h.txIn trivial hring (List.append_nil _).symm
      ⟨rfl, rfl, rfl, rfl, rfl⟩
  | @sleep v hat hnone =>
    obtain ⟨hfull, hev⟩ := h.knows t _ v (hwriting hat)
    refine h.inside (hwriting hat) trivial rfl trivial h.txIn ⟨hfull, fun _ => ?_⟩ hring
      (List.append_nil _).symm ⟨rfl, rfl, rfl, rfl, rfl⟩
    by_contra hne
    have hflag := congrArg (·.getLsbD 1) hnone
    rw [BitVec.getLsbD_and, hev hne] at hflag
    cases hflag
  | @again v pc hat hpc =>
    refine h.inside (hwriting hat) trivial rfl ?_ h.txIn ?_ hring (List.append_nil _).symm
      ⟨rfl, rfl, rfl, rfl, rfl⟩
    · rcases hpc with rfl | rfl <;> exact trivial
    · rcases hpc with rfl | rfl <;> exact trivial
  | release hat => exact h.release (hwriting hat)

/-- What a task does on the receive side leaves the transmit side alone. -/
theorem Tx.readMove (h : Tx s) (hm : ReadMove s t s') : Tx s' := by
  have hwriting : ∀ {pc v}, s.tasks t = .read pc v → s.writing t = none := by
    intro pc v hat
    rw [writing, hat]
    rfl
  -- The flags of a read are not those of a write.
  have hconsume : ∀ {rdy : BitVec 16}, rdy.getLsbD 1 = false → s.events.getLsbD 1 = true →
      (s.events &&& ~~~rdy).getLsbD 1 = true := by
    intro rdy hrdy hev
    rw [BitVec.getLsbD_and, BitVec.getLsbD_not, hrdy, hev]
    rfl
  have hmove : ∀ {u : Sys T} {p : Place}, s.writing t = none →
      u.tasks = Function.update s.tasks t p → p.writes = none →
      (∀ rdy v, p.reads = some (.wait rdy, v) → rdy.getLsbD 1 = false) →
      (s.events.getLsbD 1 = true → u.events.getLsbD 1 = true) →
      (u.uart = s.uart ∧ u.irq = s.irq ∧ u.txIn = s.txIn ∧ u.txOut = s.txOut ∧
        u.txBuf = s.txBuf ∧ u.writeLock = s.writeLock ∧ u.written = s.written) → Tx u := by
    intro u p hnone htasks hwrites hwait hbit hsame
    refine h.elsewhere htasks ?_ ?_ hwait hbit hsame
    · rw [hnone]; simp
    · rw [hwrites]; simp
  have hite : ∀ {v : ReadVars} {pc : ReadPc} {P : Prop} [Decidable P] {a b : ReadPc},
      pc = (if P then a else b) → (∀ rdy, a ≠ .wait rdy) → (∀ rdy, b ≠ .wait rdy) →
      ∀ rdy w, (Place.read pc v).reads = some (.wait rdy, w) → rdy.getLsbD 1 = false := by
    intro v pc P _ a b hpc ha hb rdy w hp
    cases hp
    split_ifs at hpc
    · exact absurd hpc.symm (ha rdy)
    · exact absurd hpc.symm (hb rdy)
  cases hm with
  | @call v hat =>
    obtain ⟨last, hat⟩ := hat
    have hnone : s.writing t = none := by rw [writing, hat]; rfl
    exact hmove hnone rfl rfl (by simp [Place.reads]) id ⟨rfl, rfl, rfl, rfl, rfl, rfl, rfl⟩
  | found hat | none hat | block hat | byte hat =>
    exact hmove (hwriting hat) rfl rfl (by simp [Place.reads]) id
      ⟨rfl, rfl, rfl, rfl, rfl, rfl, rfl⟩
  | acquire hat =>
    exact hmove (hwriting hat) rfl rfl (hite rfl (by simp) (by simp)) id
      ⟨rfl, rfl, rfl, rfl, rfl, rfl, rfl⟩
  | take hat hge hpc | again hat hpc =>
    exact hmove (hwriting hat) rfl rfl (hite hpc (by simp) (by simp)) id
      ⟨rfl, rfl, rfl, rfl, rfl, rfl, rfl⟩
  | sleep hat =>
    refine hmove (hwriting hat) rfl rfl ?_ id ⟨rfl, rfl, rfl, rfl, rfl, rfl, rfl⟩
    intro rdy v hp
    cases hp
    rfl
  | @consume v rdy hat =>
    have hrdy : rdy.getLsbD 1 = false := by
      rcases hat with ⟨hat, rfl⟩ | hat
      · rw [BitVec.getLsbD_and]
        exact Bool.and_false _
      · exact h.readers t rdy v (by rw [reading, hat]; rfl)
    have hnone : s.writing t = none := hat.elim (fun hat => hwriting hat.1) hwriting
    exact hmove hnone rfl rfl (by simp [Place.reads]) (hconsume hrdy)
      ⟨rfl, rfl, rfl, rfl, rfl, rfl, rfl⟩
  | @release v p hat hp =>
    rcases hp with ⟨rfl, -⟩ | ⟨hreads, hwrites, -⟩
    · exact hmove (hwriting hat) rfl rfl (by simp [Place.reads]) id
        ⟨rfl, rfl, rfl, rfl, rfl, rfl, rfl⟩
    · exact hmove (hwriting hat) rfl hwrites (by rw [hreads]; simp) id
        ⟨rfl, rfl, rfl, rfl, rfl, rfl, rfl⟩
  | @enable c₁ c₂ v last hat =>
    have hbus : Tx (s.setControl (s.irqEnable ||| reMsk) c₁ c₂) :=
      h.access rfl rfl c₁ c₂ rfl (h.room_access rfl c₁ c₂) ⟨rfl, rfl, rfl, rfl, rfl, rfl, rfl⟩
    refine hbus.elsewhere rfl ?_ (by simp [Place.writes]) (by simp [Place.reads]) id
      ⟨rfl, rfl, rfl, rfl, rfl, rfl, rfl⟩
    intro pc v' hat'
    have heq := (hwriting hat).symm.trans hat'
    cases heq

theorem Tx.step (h : Tx s) {e : Event T} (hs : s.step e = some s') : Tx s' := by
  rcases step_cases hs with hservice | ⟨-, t, hread | hwrite⟩
  · exact h.service hservice
  · exact h.readMove hread
  · exact h.writeMove hwrite

theorem tx_reach (h : Machine.Reach Sys.step {} s) : Tx s :=
  h.invariant tx_init fun _ _ _ hs hstep => hs.step hstep

/-- In every state of every run the bytes that the cable has taken, those in the device and those in
`tx_buf` are, in this order, what writes have taken from their callers; and no byte was ever written
to a full queue. -/
theorem transmitted_intact {es : List (Event T)} (h : Machine.exec Sys.step {} es = some s) :
    s.uart.sent ++ s.uart.wfifo ++ s.txRing = s.written ++ s.txHand ∧
      s.uart.woverflow = false := by
  have htx := tx_reach (Machine.Reach.of_exec h)
  exact ⟨htx.content, htx.woverflow⟩

/-- A write puts two bytes into the buffer, the service routine writes one of them to the device, and
the cable takes it. -/
def greet : List (Event Unit) :=
  [.write () [0x48#8, 0x69#8] false] ++ List.replicate 7 (.task () {} {}) ++
    [.irq, .isr {} {}, .isr {} {}, .edge { rEna := true }]

theorem transmitted_intact_greet :
    ∃ s : Sys Unit, Machine.exec Sys.step {} greet = some s ∧
      [0x48#8] ++ s.txRing = s.txHand ∧ s.uart.woverflow = false := by
  have hview : (Machine.exec Sys.step {} greet).map
      (fun s => (s.uart.sent, s.uart.wfifo, s.written)) = some ([0x48#8], [], []) := by
    decide +kernel
  obtain ⟨s, hs, hsame⟩ := Option.map_eq_some_iff.mp hview
  obtain ⟨hsent, hrest⟩ := Prod.mk.inj hsame
  obtain ⟨hqueue, hwritten⟩ := Prod.mk.inj hrest
  obtain ⟨hall, hnone⟩ := transmitted_intact hs
  rw [hsent, hqueue, hwritten] at hall
  exact ⟨s, hs, hall, hnone⟩

end Tasks

end Jtag

end ReactionMeter
