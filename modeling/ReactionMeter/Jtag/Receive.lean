import ReactionMeter.Jtag.Steps
import ReactionMeter.Lib.Ring

/-!
# The receive side

A byte from the cable goes through the queue of the device, the circular buffer `rx_buf` and the
buffer of the task that holds `read_lock`, into what reads have returned. `Rx` says that it gets lost,
doubled or overtaken nowhere on this way, wherever the service routine interrupts a read.

The lock and what reads know are `Lock.Guarded`, where `Knows` is what a read knows of the buffer at
each of its places. A read that is about to wait has found the buffer empty, and a byte that came in
since then has set `ALT_JTAG_UART_READ_RDY`: the flag is consumed by the holder of the lock only.
-/

namespace ReactionMeter

namespace Jtag

/-- Between `ALT_SEM_PEND` and `ALT_SEM_POST`. -/
def ReadPc.Inside : ReadPc → Prop
  | .lock | .enable => False
  | .head | .copy _ _ | .pend | .wait _ | .woken | .unlock => True

/-- What a read knows of the buffer, the flags and its own variables. -/
def ReadPc.Knows (rxIn rxOut : ℕ) (rxBuf : ℕ → BitVec 8) (events : BitVec 16) (v : ReadVars) :
    ReadPc → Prop
  | .lock => v.got = []
  | .head => 0 < v.space
  | .unlock => True
  | .copy n part =>
    part = Ring.window bufLen rxBuf rxOut part.length ∧ part.length ≤ n ∧ 0 < n ∧
      n ≤ Ring.size bufLen rxIn rxOut ∧ rxOut + n ≤ bufLen
  | .pend =>
    v.got = [] ∧ 0 < v.space ∧ v.inp = rxOut ∧ (rxIn ≠ v.inp → events.getLsbD 0 = true)
  | .wait rdy => v.got = [] ∧ 0 < v.space ∧ v.inp = rxOut ∧ (rdy = 0#16 → rxIn = v.inp)
  | .woken => v.got = [] ∧ 0 < v.space ∧ v.inp = rxOut
  | .enable => v.got ≠ []

theorem ReadPc.Knows.outside {rxIn rxOut rxIn' rxOut' : ℕ} {rxBuf rxBuf' : ℕ → BitVec 8}
    {events events' : BitVec 16} {v : ReadVars} {pc : ReadPc}
    (h : pc.Knows rxIn rxOut rxBuf events v) (hout : ¬ pc.Inside) :
    pc.Knows rxIn' rxOut' rxBuf' events' v := by
  cases pc with
  | lock | enable => exact h
  | head | copy | pend | wait | woken | unlock => exact absurd trivial hout

namespace Sys

variable {T : Type}

/-- What is in `rx_buf`. -/
def rxRing (s : Sys T) : List (BitVec 8) := Ring.contents bufLen s.rxBuf s.rxIn s.rxOut

/-- What the holder of `read_lock` has in its caller's buffer. -/
def rxHand (s : Sys T) : List (BitVec 8) := (s.readLock.bind s.reading).elim [] fun r => r.2.got

end Sys

open Sys

variable {T : Type}

structure Rx (s : Sys T) : Prop extends
    Lock.Guarded ReadPc.Inside (fun pc v => pc.Knows s.rxIn s.rxOut s.rxBuf s.events v) s.readLock
      s.reading where
  uart : s.uart.Ok
  rxIn : s.rxIn < bufLen
  rxOut : s.rxOut < bufLen
  /-- A waiting write has been woken by flags of its own. -/
  writers : ∀ t rdy v, s.writing t = some (.wait rdy, v) → rdy.getLsbD 0 = false
  content : s.delivered ++ s.rxHand ++ s.rxRing ++ s.uart.rfifo = s.uart.received

theorem rx_init : Rx ({} : Sys T) where
  toGuarded := Lock.guarded_none
  uart := by
    constructor
    case rfifo | wfifo => exact Nat.zero_le _
    case pauseIrq | fifoAF => intro h; cases h
    all_goals rfl
  rxIn := bufLen_pos
  rxOut := bufLen_pos
  writers := by intro t rdy v h; cases h
  content := by
    have hnil : rxRing ({} : Sys T) = [] :=
      (Ring.contents_eq_nil_iff bufLen_pos bufLen_pos).mpr rfl
    rw [hnil]
    rfl

section Hand

variable {s : Sys T} {t : T} {pc : ReadPc} {v : ReadVars}

theorem rxHand_eq (hlock : s.readLock = some t) (hat : s.reading t = some (pc, v)) :
    s.rxHand = v.got :=
  Lock.hand_eq hlock hat

theorem rxHand_post (s : Sys T) (flags : BitVec 16) : (s.post flags).rxHand = s.rxHand := by
  show Lock.hand s.readLock (s.post flags).reading ReadVars.got = _
  rw [post_reading]
  exact Lock.hand_relocate

end Hand

/-! ## Service -/

section Frames

variable {s s' : Sys T}

/-- A step that only lets bytes into the device. -/
theorem Rx.frame (h : Rx s) (new : List (BitVec 8)) (hok : s'.uart.Ok)
    (hrfifo : s'.uart.rfifo = s.uart.rfifo ++ new)
    (hreceived : s'.uart.received = s.uart.received ++ new)
    (hsame : s'.rxIn = s.rxIn ∧ s'.rxOut = s.rxOut ∧ s'.rxBuf = s.rxBuf ∧ s'.events = s.events ∧
      s'.readLock = s.readLock ∧ s'.tasks = s.tasks ∧ s'.delivered = s.delivered) : Rx s' := by
  obtain ⟨hin, hout, hbuf, hev, hlock, htasks, hdel⟩ := hsame
  have hreading : s'.reading = s.reading := by funext t; rw [reading, htasks]; rfl
  have hwriting : s'.writing = s.writing := by funext t; rw [writing, htasks]; rfl
  refine
    { uart := hok
      rxIn := hin ▸ h.rxIn
      rxOut := hout ▸ h.rxOut
      toGuarded := by rw [hin, hout, hbuf, hev, hlock, hreading]; exact h.toGuarded
      writers := by rw [hwriting]; exact h.writers
      content := ?_ }
  rw [rxHand, rxRing, hin, hout, hbuf, hlock, hreading, hdel, hrfifo, hreceived, ← h.content,
    List.append_assoc (s.delivered ++ _ ++ _)]
  rfl

theorem Rx.access (h : Rx s) {b : Bus} (hb : b.active = true) (hdata : b.readsData = false)
    (c₁ c₂ : Cable) (huart : s'.uart = s.uart.access b c₁ c₂)
    (hsame : s'.rxIn = s.rxIn ∧ s'.rxOut = s.rxOut ∧ s'.rxBuf = s.rxBuf ∧ s'.events = s.events ∧
      s'.readLock = s.readLock ∧ s'.tasks = s.tasks ∧ s'.delivered = s.delivered) : Rx s' := by
  refine h.frame (s.uart.arrivals b c₁ c₂) ?_ ?_ ?_ hsame
  · rw [huart]; exact Uart.access_ok h.uart hb c₁ c₂
  · rw [huart]; exact Uart.access_rfifo_keep h.uart hb hdata
  · rw [huart]; exact Uart.access_received ..

theorem ReadPc.inside_flagTaskRdy {events : BitVec 16} {pc : ReadPc} :
    (pc.flagTaskRdy events).Inside ↔ pc.Inside := by
  cases pc <;> exact Iff.rfl

theorem flagsRdy_eq_zero {rdy flags : BitVec 16}
    (h : (if rdy = 0#16 then flags else rdy) = 0#16) : rdy = 0#16 ∧ flags = 0#16 := by
  by_cases hz : rdy = 0#16
  · rw [if_pos hz] at h
    exact ⟨hz, h⟩
  · rw [if_neg hz] at h
    exact absurd h hz

theorem ReadPc.Knows.post {rxIn rxOut : ℕ} {rxBuf : ℕ → BitVec 8} {events : BitVec 16}
    {v : ReadVars} {pc : ReadPc} (h : pc.Knows rxIn rxOut rxBuf events v) (flags : BitVec 16) :
    (pc.flagTaskRdy (events ||| flags)).Knows rxIn rxOut rxBuf (events ||| flags) v := by
  cases pc with
  | pend =>
    obtain ⟨hgot, hspace, hinp, hev⟩ := h
    refine ⟨hgot, hspace, hinp, fun hne => ?_⟩
    rw [BitVec.getLsbD_or, hev hne, Bool.true_or]
  | wait rdy =>
    obtain ⟨hgot, hspace, hinp, hrdy⟩ := h
    exact ⟨hgot, hspace, hinp, fun hz => hrdy (flagsRdy_eq_zero hz).1⟩
  | lock | head | copy | woken | unlock | enable => exact h

/-- A wait of a write that a post ends, ends with flags of its own. -/
theorem WritePc.flagsRdy_post {events : BitVec 16} {pc : WritePc} {rdy : BitVec 16}
    (h : pc.flagTaskRdy events = .wait rdy) :
    rdy = events &&& writeFlags ∨ pc = .wait rdy := by
  cases pc with
  | wait rdy₀ =>
    simp only [flagTaskRdy, wait.injEq] at h
    split_ifs at h
    · exact Or.inl h.symm
    · exact Or.inr (by rw [h])
  | lock | head | copy | enable | pend | woken | unlock => cases h

/-- A post wakes tasks, and changes nothing that a read knows. -/
theorem Rx.post (h : Rx s) (flags : BitVec 16) : Rx (s.post flags) where
  toGuarded := by
    rw [post_reading]
    exact h.toGuarded.relocate (fun _ => ReadPc.inside_flagTaskRdy) fun _ _ hk => hk.post flags
  uart := h.uart
  rxIn := h.rxIn
  rxOut := h.rxOut
  writers := by
    intro t rdy v hat
    obtain ⟨pc₀, hat₀, hpc⟩ := writing_post.mp hat
    rcases WritePc.flagsRdy_post hpc with rfl | rfl
    · rw [BitVec.getLsbD_and]
      exact Bool.and_false _
    · exact h.writers t rdy v hat₀
  content := by
    rw [rxHand_post]
    exact h.content

/-- The routine stores a byte. A read that copies does not see it, and one that is about to wait is
told. -/
theorem ReadPc.Knows.store {rxIn rxOut : ℕ} {rxBuf : ℕ → BitVec 8} {events : BitVec 16}
    {v : ReadVars} {pc : ReadPc} (h : pc.Knows rxIn rxOut rxBuf events v) (hin : rxIn < bufLen)
    (hout : rxOut < bufLen) (hfree : Ring.next bufLen rxIn ≠ rxOut) (x : BitVec 8) :
    (pc.flagTaskRdy (events ||| readRdy)).Knows (Ring.next bufLen rxIn) rxOut
      (Function.update rxBuf rxIn x) (events ||| readRdy) v := by
  have hroom : Ring.size bufLen rxIn rxOut + 1 < bufLen := by
    have hlt := Ring.size_lt bufLen_pos rxIn rxOut
    have hne := mt (Ring.next_eq_iff hin hout).mpr hfree
    omega
  have hbit : (events ||| readRdy).getLsbD 0 = true := by
    rw [BitVec.getLsbD_or]
    exact Bool.or_true _
  cases pc with
  | copy n part =>
    obtain ⟨hpart, hle, hpos, hn, hend⟩ := h
    have hsize : Ring.size bufLen (Ring.next bufLen rxIn) rxOut =
        Ring.size bufLen rxIn rxOut + 1 := Ring.size_push hin hout hroom
    refine ⟨?_, hle, hpos, by rw [hsize]; omega, hend⟩
    have hcell : rxIn = (rxOut + Ring.size bufLen rxIn rxOut) % bufLen :=
      (Ring.add_size hin hout).symm
    conv_rhs => rw [hcell]
    rw [Ring.window_update (hle.trans hn) (Nat.lt_of_succ_lt hroom)]
    exact hpart
  | pend =>
    obtain ⟨hgot, hspace, hinp, -⟩ := h
    exact ⟨hgot, hspace, hinp, fun _ => hbit⟩
  | wait rdy =>
    obtain ⟨hgot, hspace, hinp, -⟩ := h
    refine ⟨hgot, hspace, hinp, fun hz => ?_⟩
    -- The post has ended the wait.
    have hflag := congrArg (·.getLsbD 0) (flagsRdy_eq_zero hz).2
    rw [BitVec.getLsbD_and, hbit] at hflag
    cases hflag
  | lock | head | woken | unlock | enable => exact h

theorem Rx.store (h : Rx s) (c₁ c₂ : Cable) {irq : IrqPc}
    (hfree : (s.rxIn + 1) % bufLen ≠ s.rxOut)
    (hvalid : s.uart.reply (.read false) c₁ &&& rvalidMsk ≠ 0#32) :
    Rx ({ s.bus (.read false) c₁ c₂ with
      rxBuf := Function.update s.rxBuf s.rxIn
        ((s.uart.reply (.read false) c₁ &&& dataMsk).setWidth 8)
      rxIn := (s.rxIn + 1) % bufLen
      irq := irq }.post readRdy) := by
  obtain ⟨x, xs, hq⟩ := List.exists_cons_of_ne_nil ((Uart.reply_rvalid h.uart).mp hvalid)
  have hdata := Uart.reply_data h.uart hq c₁
  have hrfifo := Uart.access_rfifo_read h.uart c₁ c₂
  rw [hq, List.tail_cons] at hrfifo
  rw [hdata]
  refine
    { toGuarded := ?_
      uart := Uart.access_ok h.uart rfl c₁ c₂
      rxIn := Nat.mod_lt _ bufLen_pos
      rxOut := h.rxOut
      writers := (h.post readRdy).writers
      content := ?_ }
  · rw [post_reading]
    exact h.toGuarded.relocate (fun _ => ReadPc.inside_flagTaskRdy)
      fun _ _ hk => hk.store h.rxIn h.rxOut hfree x
  · show s.delivered ++ (s.post readRdy).rxHand ++
      Ring.contents bufLen (Function.update s.rxBuf s.rxIn x) (Ring.next bufLen s.rxIn) s.rxOut ++
        (s.uart.access (.read false) c₁ c₂).rfifo = (s.uart.access (.read false) c₁ c₂).received
    have hcontent := h.content
    rw [hq] at hcontent
    rw [rxHand_post, Ring.contents_push h.rxIn h.rxOut hfree, hrfifo, Uart.access_received,
      ← hcontent]
    simp [rxRing]

theorem Rx.empty (h : Rx s) (c₁ c₂ : Cable) {irq : IrqPc}
    (hvalid : s.uart.reply (.read false) c₁ &&& rvalidMsk = 0#32) :
    Rx { s.bus (.read false) c₁ c₂ with irq := irq } := by
  have hnil : s.uart.rfifo = [] := by
    by_contra hne
    exact (Uart.reply_rvalid h.uart).mpr hne hvalid
  have hrfifo := Uart.access_rfifo_read h.uart c₁ c₂
  rw [hnil, List.tail_nil, ← hnil] at hrfifo
  exact h.frame _ (Uart.access_ok h.uart rfl c₁ c₂) hrfifo (Uart.access_received ..)
    ⟨rfl, rfl, rfl, rfl, rfl, rfl, rfl⟩

theorem Rx.service (h : Rx s) (hs : Service s s') : Rx s' := by
  cases hs with
  | edge c =>
    refine h.frame (s.uart.wrRfifo c) (Uart.edge_idle h.uart c) ?_ rfl
      ⟨rfl, rfl, rfl, rfl, rfl, rfl, rfl⟩
    exact Uart.edge_rfifo (Bool.and_false _)
  | store c₁ c₂ hirq hfree hvalid => exact h.store c₁ c₂ hfree hvalid
  | empty c₁ c₂ hirq hvalid => exact h.empty c₁ c₂ hvalid
  | enter | full | goOn | noSpace => exact { h with }
  | quit c₁ c₂ | receive c₁ c₂ | transmit c₁ c₂ | rxDummy c₁ c₂ | txDummy c₁ c₂ | active c₁ c₂
  | inactive c₁ c₂ | stopRx c₁ c₂ | stopTx c₁ c₂ | alarmAck c₁ c₂ =>
    exact h.access rfl rfl c₁ c₂ rfl ⟨rfl, rfl, rfl, rfl, rfl, rfl, rfl⟩
  | send c₁ c₂ =>
    refine Rx.post (h.access rfl rfl c₁ c₂ rfl ?_) writeRdy
    exact ⟨rfl, rfl, rfl, rfl, rfl, rfl, rfl⟩
  | timeout c₁ c₂ =>
    refine Rx.post (h.access rfl rfl c₁ c₂ rfl ?_) timeoutFlag
    exact ⟨rfl, rfl, rfl, rfl, rfl, rfl, rfl⟩

/-- The bytes a read can copy are there, and lie in one block. -/
theorem readable_le (h : Rx s) :
    s.readable ≤ Ring.size bufLen s.rxIn s.rxOut ∧ s.rxOut + s.readable ≤ bufLen := by
  have hin := h.rxIn
  have hout := h.rxOut
  rw [readable, Ring.size_eq hin hout]
  split_ifs <;> omega

theorem readable_eq_zero_iff (h : Rx s) : s.readable = 0 ↔ s.rxIn = s.rxOut := by
  have hout := h.rxOut
  unfold readable
  split_ifs <;> omega

/-- A write consumes the other two flags only. -/
theorem Rx.write_rdy (h : Rx s) {t : T} {v : WriteVars} {rdy : BitVec 16}
    (hat : s.tasks t = .write .pend v ∧ rdy = s.events &&& writeFlags ∨
      s.tasks t = .write (.wait rdy) v) : rdy.getLsbD 0 = false := by
  rcases hat with ⟨hat, rfl⟩ | hat
  · rw [BitVec.getLsbD_and]
    exact Bool.and_false _
  · exact h.writers t rdy v (by rw [writing, hat]; rfl)

end Frames

/-! ## Tasks -/

section Tasks

variable [DecidableEq T] {s s' : Sys T} {t : T} {pc pc' : ReadPc} {v v' : ReadVars}

theorem ReadPc.Knows.events {rxIn rxOut : ℕ} {rxBuf : ℕ → BitVec 8} {events events' : BitVec 16}
    (h : pc.Knows rxIn rxOut rxBuf events v)
    (hbit : events.getLsbD 0 = true → events'.getLsbD 0 = true) :
    pc.Knows rxIn rxOut rxBuf events' v := by
  cases pc with
  | pend =>
    obtain ⟨hgot, hspace, hinp, hev⟩ := h
    exact ⟨hgot, hspace, hinp, fun hne => hbit (hev hne)⟩
  | lock | head | copy | wait | woken | unlock | enable => exact h

theorem Rx.writers_move (h : Rx s) {p : Place} (htasks : s'.tasks = Function.update s.tasks t p)
    (hwait : ∀ rdy v, p.writes = some (.wait rdy, v) → rdy.getLsbD 0 = false) :
    ∀ u rdy v, s'.writing u = some (.wait rdy, v) → rdy.getLsbD 0 = false := by
  rw [writing_of_tasks htasks]
  exact (Function.forall_update_iff s.writing fun _ w =>
    ∀ rdy v, w = some (.wait rdy, v) → rdy.getLsbD 0 = false).mpr ⟨hwait, fun u _ => h.writers u⟩

theorem Rx.elsewhere (h : Rx s) {p : Place} (htasks : s'.tasks = Function.update s.tasks t p)
    (hbefore : ∀ pc v, s.reading t = some (pc, v) → ¬ pc.Inside)
    (hafter : ∀ pc v, p.reads = some (pc, v) →
      ¬ pc.Inside ∧ pc.Knows s.rxIn s.rxOut s.rxBuf s.events v)
    (hwait : ∀ rdy v, p.writes = some (.wait rdy, v) → rdy.getLsbD 0 = false)
    (hbit : s.events.getLsbD 0 = true → s'.events.getLsbD 0 = true)
    (hsame : s'.uart = s.uart ∧ s'.rxIn = s.rxIn ∧ s'.rxOut = s.rxOut ∧ s'.rxBuf = s.rxBuf ∧
      s'.readLock = s.readLock ∧ s'.delivered = s.delivered) : Rx s' := by
  obtain ⟨huart, hin, hout, hbuf, hlock, hdel⟩ := hsame
  refine
    { toGuarded := ?_
      uart := huart ▸ h.uart
      rxIn := hin ▸ h.rxIn
      rxOut := hout ▸ h.rxOut
      writers := h.writers_move htasks hwait
      content := ?_ }
  · rw [hin, hout, hbuf, hlock, reading_of_tasks htasks]
    exact h.toGuarded.elsewhere hbefore (fun pc v hp => (hafter pc v hp).imp id (·.events hbit))
      fun _ _ hk => hk.events hbit
  · have hhand : s'.rxHand = s.rxHand := by
      show Lock.hand s'.readLock s'.reading ReadVars.got = _
      rw [hlock, reading_of_tasks htasks]
      exact h.hand_elsewhere hbefore
    rw [hhand, hdel, rxRing, hin, hout, hbuf, huart]
    exact h.content

theorem Rx.inside (h : Rx s) (hat : s.reading t = some (pc, v)) (hin : pc.Inside)
    (htasks : s'.tasks = Function.update s.tasks t (.read pc' v')) (hin' : pc'.Inside)
    (hout : s'.rxOut < bufLen)
    (hknows : pc'.Knows s'.rxIn s'.rxOut s'.rxBuf s'.events v')
    (hcontent : s'.delivered ++ v'.got ++ s'.rxRing = s.delivered ++ v.got ++ s.rxRing)
    (hsame : s'.uart = s.uart ∧ s'.rxIn = s.rxIn ∧ s'.readLock = s.readLock) : Rx s' := by
  obtain ⟨huart, hinp, hlock⟩ := hsame
  have hholds := h.holder hat hin
  have hreading : s'.reading = Function.update s.reading t (some (pc', v')) :=
    reading_of_tasks htasks
  refine
    { toGuarded := ?_
      uart := huart ▸ h.uart
      rxIn := hinp ▸ h.rxIn
      rxOut := hout
      writers := h.writers_move htasks (by simp [Place.writes])
      content := ?_ }
  · rw [hlock, hreading]
    exact h.toGuarded.inside hat hin hin' hknows fun _ _ hk hout => hk.outside hout
  · have hhand : s'.rxHand = v'.got := by
      show Lock.hand s'.readLock s'.reading ReadVars.got = _
      rw [hlock, hholds, hreading]
      exact Lock.hand_update
    have hold := h.content
    rw [rxHand_eq hholds hat] at hold
    rw [hhand, hcontent, huart]
    exact hold

theorem knows_ite (rxIn rxOut : ℕ) (rxBuf : ℕ → BitVec 8) (events : BitVec 16)
    (hpc : pc = if 0 < v.space then .head else .unlock) :
    pc.Inside ∧ pc.Knows rxIn rxOut rxBuf events v := by
  rw [hpc]
  split_ifs with hpos
  · exact ⟨trivial, hpos⟩
  · exact ⟨trivial, trivial⟩

theorem Rx.take (h : Rx s) {n : ℕ} {part : List (BitVec 8)}
    (hat : s.reading t = some (.copy n part, v)) (hge : n ≤ part.length)
    (hpc : pc = if 0 < v.space - n then .head else .unlock) :
    Rx { s.go t (.read pc { v with got := v.got ++ part, space := v.space - n }) with
      rxOut := (s.rxOut + n) % bufLen } := by
  obtain ⟨hpart, hle, hpos, hsize, hend⟩ := h.knows t _ v hat
  obtain rfl : part.length = n := le_antisymm hle hge
  obtain ⟨hin', hknows⟩ :=
    knows_ite (v := { v with got := v.got ++ part, space := v.space - part.length })
      s.rxIn ((s.rxOut + part.length) % bufLen) s.rxBuf s.events hpc
  refine h.inside hat trivial rfl hin' (Nat.mod_lt _ bufLen_pos) hknows ?_ ⟨rfl, rfl, rfl⟩
  · have htake : Ring.contents bufLen s.rxBuf s.rxIn s.rxOut =
        Ring.window bufLen s.rxBuf s.rxOut part.length ++
          Ring.contents bufLen s.rxBuf s.rxIn ((s.rxOut + part.length) % bufLen) :=
      Ring.contents_take h.rxIn h.rxOut hsize
    rw [← hpart] at htake
    show s.delivered ++ (v.got ++ part) ++ Ring.contents bufLen s.rxBuf s.rxIn _ = _
    rw [rxRing, htake]
    simp only [List.append_assoc]

theorem Rx.acquire (h : Rx s) (hat : s.reading t = some (.lock, v)) (hfree : s.readLock = none)
    (hpc : pc = if 0 < v.space then .head else .unlock) :
    Rx { s.go t (.read pc v) with readLock := some t } := by
  obtain ⟨hin', hknows⟩ := knows_ite s.rxIn s.rxOut s.rxBuf s.events hpc
  have hreading : (s.go t (.read pc v)).reading = Function.update s.reading t (some (pc, v)) :=
    reading_of_tasks (s := s) (p := .read pc v) rfl
  refine
    { toGuarded := ?_
      uart := h.uart
      rxIn := h.rxIn
      rxOut := h.rxOut
      writers := h.writers_move rfl (by simp [Place.writes])
      content := ?_ }
  · show Lock.Guarded _ _ (some t) (s.go t (.read pc v)).reading
    rw [hreading]
    exact h.toGuarded.acquire hfree hin' hknows
  · have hgot : v.got = [] := h.knows t _ v hat
    have hhand : ({ s.go t (.read pc v) with readLock := some t } : Sys T).rxHand = s.rxHand := by
      show Lock.hand (some t) (s.go t (.read pc v)).reading ReadVars.got = _
      rw [hreading, Lock.hand_update, hgot, rxHand, hfree]
      rfl
    rw [hhand]
    exact h.content

/-- A read gives the token back, and what it has got counts as delivered. -/
theorem Rx.release (h : Rx s) {p : Place} (hat : s.reading t = some (.unlock, v))
    (hp : p = .read .enable v ∧ v.got ≠ [] ∨ p.reads = none ∧ p.writes = none ∧ v.got = []) :
    Rx { s.go t p with readLock := none, delivered := s.delivered ++ v.got } := by
  have hholds := h.holder hat trivial
  refine
    { toGuarded := ?_
      uart := h.uart
      rxIn := h.rxIn
      rxOut := h.rxOut
      writers := h.writers_move rfl ?_
      content := ?_ }
  · show Lock.Guarded _ _ none (s.go t p).reading
    rw [reading_of_tasks (s := s) (p := p) rfl]
    refine h.toGuarded.release hholds fun pc₁ v₁ hp₁ => ?_
    rcases hp with ⟨rfl, hgot⟩ | ⟨hreads, -⟩
    · cases hp₁
      exact ⟨id, hgot⟩
    · rw [hreads] at hp₁
      cases hp₁
  · rcases hp with ⟨rfl, -⟩ | ⟨-, hwrites, -⟩
    · simp [Place.writes]
    · simp [hwrites]
  · have hold := h.content
    rw [rxHand_eq hholds hat] at hold
    show s.delivered ++ v.got ++ [] ++ s.rxRing ++ s.uart.rfifo = _
    rw [List.append_nil]
    exact hold

theorem Rx.readMove (h : Rx s) (hm : ReadMove s t s') : Rx s' := by
  have hreading : ∀ {pc v}, s.tasks t = .read pc v → s.reading t = some (pc, v) := by
    intro pc v hat
    rw [reading, hat]
    rfl
  cases hm with
  | @call v hat hgot =>
    obtain ⟨last, hat⟩ := hat
    have hnone : s.reading t = none := by rw [reading, hat]; rfl
    refine h.elsewhere rfl (by rw [hnone]; simp) ?_ (by simp [Place.writes]) id
      ⟨rfl, rfl, rfl, rfl, rfl, rfl⟩
    intro pc v hp
    cases hp
    exact ⟨id, hgot⟩
  | acquire hat hfree => exact h.acquire (hreading hat) hfree rfl
  | @found v hat hn =>
    obtain ⟨hsize, hend⟩ := readable_le h
    have hspace : 0 < v.space := h.knows t .head v (hreading hat)
    refine h.inside (hreading hat) trivial rfl trivial h.rxOut ?_ rfl ⟨rfl, rfl, rfl⟩
    refine ⟨rfl, Nat.zero_le _, ?_, (min_le_left _ _).trans hsize, ?_⟩
    · exact lt_min (Nat.pos_of_ne_zero hn) hspace
    · exact (Nat.add_le_add_left (min_le_left _ _) _).trans hend
  | none hat hn =>
    exact h.inside (hreading hat) trivial rfl trivial h.rxOut trivial rfl ⟨rfl, rfl, rfl⟩
  | @block v hat hn hgot =>
    have hempty := (readable_eq_zero_iff h).mp hn
    have hspace : 0 < v.space := h.knows t .head v (hreading hat)
    refine h.inside (hreading hat) trivial rfl trivial h.rxOut ?_ rfl ⟨rfl, rfl, rfl⟩
    exact ⟨hgot, hspace, hempty, fun hne => absurd rfl hne⟩
  | @byte v n part hat hlt =>
    obtain ⟨hpart, hle, hpos, hsize, hend⟩ := h.knows t _ v (hreading hat)
    refine h.inside (hreading hat) trivial rfl trivial h.rxOut ?_ rfl ⟨rfl, rfl, rfl⟩
    have hcell : s.rxOut + part.length < bufLen := by omega
    have hlen : (part ++ [s.rxBuf (s.rxOut + part.length)]).length = part.length + 1 := by simp
    refine ⟨?_, by rw [hlen]; exact hlt, hpos, hsize, hend⟩
    show _ = Ring.window bufLen s.rxBuf s.rxOut _
    rw [hlen, Ring.window_succ, ← hpart, Nat.mod_eq_of_lt hcell]
  | take hat hge hpc => exact h.take (hreading hat) hge hpc
  | @consume v rdy hat =>
    rcases hat with ⟨hat, -⟩ | hat
    · obtain ⟨hgot, hspace, hinp, -⟩ := h.knows t _ v (hreading hat)
      exact h.inside (hreading hat) trivial rfl trivial h.rxOut ⟨hgot, hspace, hinp⟩ rfl
        ⟨rfl, rfl, rfl⟩
    · obtain ⟨hgot, hspace, hinp, -⟩ := h.knows t _ v (hreading hat)
      exact h.inside (hreading hat) trivial rfl trivial h.rxOut ⟨hgot, hspace, hinp⟩ rfl
        ⟨rfl, rfl, rfl⟩
  | @sleep v hat hnone =>
    obtain ⟨hgot, hspace, hinp, hev⟩ := h.knows t _ v (hreading hat)
    refine h.inside (hreading hat) trivial rfl trivial h.rxOut ⟨hgot, hspace, hinp, fun _ => ?_⟩
      rfl ⟨rfl, rfl, rfl⟩
    by_contra hne
    have hflag := congrArg (·.getLsbD 0) hnone
    rw [BitVec.getLsbD_and, hev hne] at hflag
    cases hflag
  | @again v pc hat hpc =>
    obtain ⟨hgot, hspace, hinp⟩ := h.knows t _ v (hreading hat)
    refine h.inside (hreading hat) trivial rfl ?_ h.rxOut ?_ rfl ⟨rfl, rfl, rfl⟩
    · rw [hpc]
      split_ifs <;> exact trivial
    · rw [hpc]
      split_ifs
      · exact trivial
      · exact hspace
  | release hat hp => exact h.release (hreading hat) hp
  | @enable c₁ c₂ v last hat =>
    have hbus : Rx (s.setControl (s.irqEnable ||| reMsk) c₁ c₂) :=
      h.access rfl rfl c₁ c₂ rfl ⟨rfl, rfl, rfl, rfl, rfl, rfl, rfl⟩
    refine hbus.elsewhere rfl ?_ (by simp [Place.reads]) (by simp [Place.writes]) id
      ⟨rfl, rfl, rfl, rfl, rfl, rfl⟩
    intro pc v' hat'
    have heq := (hreading hat).symm.trans hat'
    cases heq
    exact id

/-- What a task does on the transmit side leaves the receive side alone. -/
theorem Rx.writeMove (h : Rx s) (hm : WriteMove s t s') : Rx s' := by
  have hreading : ∀ {pc v}, s.tasks t = .write pc v → s.reading t = none := by
    intro pc v hat
    rw [reading, hat]
    rfl
  -- The flags of a write are not those of a read.
  have hconsume : ∀ {rdy : BitVec 16}, rdy.getLsbD 0 = false → s.events.getLsbD 0 = true →
      (s.events &&& ~~~rdy).getLsbD 0 = true := by
    intro rdy hrdy hev
    rw [BitVec.getLsbD_and, BitVec.getLsbD_not, hrdy, hev]
    rfl
  have hmove : ∀ {u : Sys T} {p : Place}, s.reading t = none →
      u.tasks = Function.update s.tasks t p → p.reads = none →
      (∀ rdy v, p.writes = some (.wait rdy, v) → rdy.getLsbD 0 = false) →
      (s.events.getLsbD 0 = true → u.events.getLsbD 0 = true) →
      (u.uart = s.uart ∧ u.rxIn = s.rxIn ∧ u.rxOut = s.rxOut ∧ u.rxBuf = s.rxBuf ∧
        u.readLock = s.readLock ∧ u.delivered = s.delivered) → Rx u := by
    intro u p hnone htasks hreads hwait hbit hsame
    refine h.elsewhere htasks ?_ ?_ hwait hbit hsame
    · rw [hnone]; simp
    · rw [hreads]; simp
  cases hm with
  | @call v hat =>
    obtain ⟨last, hat⟩ := hat
    have hnone : s.reading t = none := by rw [reading, hat]; rfl
    exact hmove hnone rfl rfl (by simp [Place.writes]) id ⟨rfl, rfl, rfl, rfl, rfl, rfl⟩
  | acquire hat | finish hat | full hat | found hat | byte hat | put hat | release hat =>
    exact hmove (hreading hat) rfl rfl (by simp [Place.writes]) id ⟨rfl, rfl, rfl, rfl, rfl, rfl⟩
  | @again v pc hat hpc =>
    refine hmove (hreading hat) rfl rfl ?_ id ⟨rfl, rfl, rfl, rfl, rfl, rfl⟩
    rcases hpc with rfl | rfl <;> simp [Place.writes]
  | sleep hat =>
    refine hmove (hreading hat) rfl rfl ?_ id ⟨rfl, rfl, rfl, rfl, rfl, rfl⟩
    intro rdy v hp
    cases hp
    rfl
  | @consume v rdy hat =>
    have hrdy := h.write_rdy hat
    have hnone : s.reading t = none := hat.elim (fun hat => hreading hat.1) hreading
    exact hmove hnone rfl rfl (by simp [Place.writes]) (hconsume hrdy)
      ⟨rfl, rfl, rfl, rfl, rfl, rfl⟩
  | @enable c₁ c₂ v pc hat hpc =>
    have hbus : Rx (s.setControl (s.irqEnable ||| weMsk) c₁ c₂) :=
      h.access rfl rfl c₁ c₂ rfl ⟨rfl, rfl, rfl, rfl, rfl, rfl, rfl⟩
    refine hbus.elsewhere rfl ?_ (by simp [Place.reads]) ?_ id ⟨rfl, rfl, rfl, rfl, rfl, rfl⟩
    · intro pc v' hat'
      have heq := (hreading hat).symm.trans hat'
      cases heq
    · rcases hpc with ⟨rfl, -⟩ | rfl <;> simp [Place.writes]

theorem Rx.step (h : Rx s) {e : Event T} (hs : s.step e = some s') : Rx s' := by
  rcases step_cases hs with hservice | ⟨-, t, hread | hwrite⟩
  · exact h.service hservice
  · exact h.readMove hread
  · exact h.writeMove hwrite

theorem rx_reach (h : Machine.Reach Sys.step {} s) : Rx s :=
  h.invariant rx_init fun _ _ _ hs hstep => hs.step hstep

/-- In every state of every run the bytes that have come from the cable are, in this order, those that
reads have taken behind the lock, those the holder of the lock has taken so far, those in `rx_buf` and
those in the device. -/
theorem received_intact {es : List (Event T)} (h : Machine.exec Sys.step {} es = some s) :
    s.delivered ++ s.rxHand ++ s.rxRing ++ s.uart.rfifo = s.uart.received :=
  (rx_reach (Machine.Reach.of_exec h)).content

/-- A byte comes in, the service routine stores it, and a read returns it. -/
def echo : List (Event Unit) :=
  [.edge { t := some 0x41#8 }, .edge { tPause := true }, .irq] ++
    List.replicate 5 (.isr {} {}) ++ [.read () 8 false] ++ List.replicate 7 (.task () {} {})

theorem received_intact_byte :
    ∃ s : Sys Unit, Machine.exec Sys.step {} echo = some s ∧
      [0x41#8] ++ s.rxHand ++ s.rxRing ++ s.uart.rfifo = [0x41#8] ∧
      s.tasks () = .out (some (.data [0x41#8])) := by
  have hview : (Machine.exec Sys.step {} echo).map
      (fun s => (s.uart.received, s.delivered, s.tasks ())) =
        some ([0x41#8], [0x41#8], .out (some (.data [0x41#8]))) := by
    decide +kernel
  obtain ⟨s, hs, hsame⟩ := Option.map_eq_some_iff.mp hview
  obtain ⟨hreceived, hrest⟩ := Prod.mk.inj hsame
  obtain ⟨hdelivered, hout⟩ := Prod.mk.inj hrest
  have hall := received_intact hs
  rw [hdelivered, hreceived] at hall
  exact ⟨s, hs, hall, hout⟩

end Tasks

end Jtag

end ReactionMeter
