import Mathlib.Data.BitVec
import Mathlib.Tactic.Common
import Mathlib.Tactic.IntervalCases

/-!
# The JTAG UART

`embedded_system_jtag_uart.v`: a receive and a transmit queue of 64 bytes between the debug cable
and the bus, and the two interrupts that go with them. A step of `Uart` is one rising edge of `clk`,
with the lines of the bus and of the cable in that cycle.

The queues are vendor primitives (`scfifo`, 64 words, show-ahead off): a list each, with the word
read last at the output. The other end of the cable (`alt_jtag_atlantic`) is not part of the sources:
its lines are inputs and may do anything.

A bus access takes two edges. The slave acts at the first and answers in the cycle after it, with
`av_waitrequest` low; `access` is both of them. `received` and `sent` are history: the bytes that
have gone into the receive queue, and those that have come out of the transmit queue.

`readdata` is built bit by bit as in the source, and the masks of `altera_avalon_jtag_uart_regs.h`
are read off it.
-/

namespace ReactionMeter

namespace Jtag

/-- The words of a queue. -/
def fifoWords : ℕ := 64

/-- `av_chipselect` with the lines of an access, if there is one. Address 0 (`false`) is the data
register, 1 is control. -/
inductive Bus
  | idle
  | read (address : Bool)
  | write (address : Bool) (writedata : BitVec 32)
  deriving DecidableEq, Repr

namespace Bus

def active : Bus → Bool
  | .idle => false
  | _ => true

/-- The condition of `fifo_rd`, without `av_waitrequest`. -/
def readsData : Bus → Bool
  | .read false => true
  | _ => false

def writesData : Bus → Bool
  | .write false _ => true
  | _ => false

/-- The bits of a write to the control register. -/
def control : Bus → Option (BitVec 32)
  | .write true d => some d
  | _ => none

/-- `fifo_wdata`. -/
def wdata : Bus → BitVec 8
  | .write _ d => d.setWidth 8
  | _ => 0#8

end Bus

/-- The lines of the cable: `t_ena` with `t_dat`, `t_pause` and `r_ena`. -/
structure Cable where
  t : Option (BitVec 8) := none
  tPause : Bool := false
  rEna : Bool := false
  deriving DecidableEq, Repr

structure Uart where
  rfifo : List (BitVec 8) := []
  fifoRdata : BitVec 8 := 0#8
  wfifo : List (BitVec 8) := []
  fifoAE : Bool := false
  fifoAF : Bool := false
  fifoWr : Bool := false
  rvalid : Bool := false
  read0 : Bool := false
  ienAE : Bool := false
  ienAF : Bool := false
  ac : Bool := false
  woverflow : Bool := false
  avWaitrequest : Bool := true
  pauseIrq : Bool := false
  received : List (BitVec 8) := []
  sent : List (BitVec 8) := []
  deriving DecidableEq, Repr

/-! ## The masks of `altera_avalon_jtag_uart_regs.h` -/

def dataMsk : BitVec 32 := 0x000000FF#32
def rvalidMsk : BitVec 32 := 0x00008000#32
def ravailMsk : BitVec 32 := 0xFFFF0000#32
def reMsk : BitVec 32 := 0x00000001#32
def weMsk : BitVec 32 := 0x00000002#32
def riMsk : BitVec 32 := 0x00000100#32
def wiMsk : BitVec 32 := 0x00000200#32
def acMsk : BitVec 32 := 0x00000400#32
def wspaceMsk : BitVec 32 := 0xFFFF0000#32

namespace Uart

def ipenAE (u : Uart) : Bool := u.ienAE && u.fifoAE

def ipenAF (u : Uart) : Bool := u.ienAF && (u.pauseIrq || u.fifoAF)

/-- `av_irq`. -/
def irq (u : Uart) : Bool := u.ipenAE || u.ipenAF

/-- The byte that goes into the receive queue (`wr_rfifo`). -/
def wrRfifo (u : Uart) (c : Cable) : List (BitVec 8) :=
  if u.rfifo.length = fifoWords then [] else c.t.toList

/-- One rising edge of `clk`. -/
def edge (u : Uart) (b : Bus) (c : Cable) : Uart :=
  let activity := c.tPause || c.t.isSome
  let strobe := u.avWaitrequest && b.readsData
  { rfifo := (if strobe = true then u.rfifo.tail else u.rfifo) ++ u.wrRfifo c
    fifoRdata := if strobe = true then u.rfifo.headD u.fifoRdata else u.fifoRdata
    wfifo :=
      (if c.rEna = true then u.wfifo.tail else u.wfifo) ++
        if u.fifoWr = true then [b.wdata] else []
    fifoAE := u.wfifo.length ≤ 8
    fifoAF := fifoWords - u.rfifo.length ≤ 8
    fifoWr := u.avWaitrequest && b.writesData && u.wfifo.length ≠ fifoWords
    rvalid := if strobe = true then u.rfifo ≠ [] else u.rvalid
    read0 := strobe
    ienAE := if u.avWaitrequest = true then b.control.elim u.ienAE (·.getLsbD 1) else u.ienAE
    ienAF := if u.avWaitrequest = true then b.control.elim u.ienAF (·.getLsbD 0) else u.ienAF
    ac :=
      if u.avWaitrequest = true ∧ b.control.any (·.getLsbD 10) = true ∧ activity = false then false
      else activity || u.ac
    woverflow :=
      if u.avWaitrequest = true ∧ b.writesData = true then u.wfifo.length = fifoWords
      else u.woverflow
    avWaitrequest := !(b.active && u.avWaitrequest)
    pauseIrq :=
      if c.tPause = true ∧ u.rfifo ≠ [] then true
      else if u.read0 = true then false
      else u.pauseIrq
    received := u.received ++ u.wrRfifo c
    sent := u.sent ++ if c.rEna = true then u.wfifo.take 1 else [] }

/-- Bits 15 to 8 of what either register reads as. -/
def status (u : Uart) : BitVec 8 :=
  BitVec.ofBool u.rvalid ++ BitVec.ofBool u.woverflow ++
    BitVec.ofBool (u.wfifo.length ≠ fifoWords) ++ BitVec.ofBool (u.rfifo ≠ []) ++ 0#1 ++
    BitVec.ofBool u.ac ++ BitVec.ofBool u.ipenAE ++ BitVec.ofBool u.ipenAF

/-- `av_readdata`. -/
def readdata (u : Uart) : BitVec 32 :=
  if u.read0 = true then BitVec.ofNat 16 u.rfifo.length ++ u.status ++ u.fifoRdata
  else
    BitVec.ofNat 16 (fifoWords - u.wfifo.length) ++ u.status ++
      (0#6 ++ BitVec.ofBool u.ienAE ++ BitVec.ofBool u.ienAF)

/-- Both edges of a bus access. -/
def access (u : Uart) (b : Bus) (c₁ c₂ : Cable) : Uart := (u.edge b c₁).edge b c₂

/-- What a read returns. -/
def reply (u : Uart) (b : Bus) (c : Cable) : BitVec 32 := (u.edge b c).readdata

/-- The bytes that come in during an access. -/
def arrivals (u : Uart) (b : Bus) (c₁ c₂ : Cable) : List (BitVec 8) :=
  u.wrRfifo c₁ ++ (u.edge b c₁).wrRfifo c₂

/-- Between two accesses: the slave is ready, its queues hold what they can hold, and the receive
interrupt has a cause. -/
structure Ok (u : Uart) : Prop where
  ready : u.avWaitrequest = true
  read0 : u.read0 = false
  fifoWr : u.fifoWr = false
  rfifo : u.rfifo.length ≤ fifoWords
  wfifo : u.wfifo.length ≤ fifoWords
  pauseIrq : u.pauseIrq = true → u.rfifo ≠ []
  fifoAF : u.fifoAF = true → fifoWords - u.rfifo.length ≤ 8

variable {u : Uart} {b : Bus} {c c₁ c₂ : Cable}

/-! ## One edge -/

theorem length_wrRfifo (u : Uart) (c : Cable) : (u.wrRfifo c).length ≤ 1 := by
  unfold wrRfifo
  split_ifs
  · exact Nat.zero_le 1
  · exact Option.length_toList_le

theorem wrRfifo_full (h : u.rfifo.length = fifoWords) : u.wrRfifo c = [] := if_pos h

theorem edge_rfifo_length (h : u.rfifo.length ≤ fifoWords) :
    (u.edge b c).rfifo.length ≤ fifoWords := by
  have hone := u.length_wrRfifo c
  have htail : (if (u.avWaitrequest && b.readsData) = true then u.rfifo.tail else u.rfifo).length ≤
      u.rfifo.length := by
    split_ifs
    · rw [List.length_tail]; exact Nat.sub_le _ 1
    · exact le_refl _
  show (_ ++ u.wrRfifo c).length ≤ fifoWords
  rw [List.length_append]
  by_cases hfull : u.rfifo.length = fifoWords
  · rw [wrRfifo_full hfull, List.length_nil]
    omega
  · omega

/-- The transmit queue gets longer by a byte on its way into it only. -/
theorem edge_wfifo_length (u : Uart) (b : Bus) (c : Cable) :
    (u.edge b c).wfifo.length ≤ u.wfifo.length + u.fifoWr.toNat := by
  show ((if c.rEna = true then u.wfifo.tail else u.wfifo) ++
    if u.fifoWr = true then [b.wdata] else []).length ≤ _
  have htail : (if c.rEna = true then u.wfifo.tail else u.wfifo).length ≤ u.wfifo.length := by
    split_ifs
    · rw [List.length_tail]; exact Nat.sub_le _ 1
    · exact le_refl _
  rw [List.length_append]
  cases u.fifoWr with
  | false => simpa using htail
  | true => simpa using htail

/-- What the cable takes comes off the transmit queue. -/
theorem edge_wfifo (u : Uart) (b : Bus) (c : Cable) :
    (u.edge b c).sent ++ (u.edge b c).wfifo =
      u.sent ++ u.wfifo ++ if u.fifoWr = true then [b.wdata] else [] := by
  show (u.sent ++ if c.rEna = true then u.wfifo.take 1 else []) ++
    ((if c.rEna = true then u.wfifo.tail else u.wfifo) ++ _) = _
  rw [List.append_assoc, List.append_assoc, ← List.append_assoc _ _ (if u.fifoWr = true then _ else _)]
  congr 2
  split_ifs
  · rw [← List.drop_one, List.take_append_drop]
  · rfl

/-- A cause of the receive interrupt comes with a byte in the queue, or was there before. -/
theorem edge_pauseIrq (h : (u.edge b c).pauseIrq = true) :
    u.rfifo ≠ [] ∨ u.read0 = false ∧ u.pauseIrq = true := by
  simp only [edge] at h
  split_ifs at h with hpause hread
  · exact Or.inl hpause.2
  · exact Or.inr ⟨Bool.eq_false_iff.mpr hread, h⟩

/-- Only a read of the data register takes a byte out of the receive queue. -/
theorem edge_rfifo (h : (u.avWaitrequest && b.readsData) = false) :
    (u.edge b c).rfifo = u.rfifo ++ u.wrRfifo c := by
  show (if _ then _ else _) ++ _ = _
  rw [if_neg (by rw [h]; exact Bool.false_ne_true)]

/-- The receive queue is almost full, and has not become shorter. -/
theorem edge_fifoAF (h : (u.avWaitrequest && b.readsData) = false)
    (hp : (u.edge b c).fifoAF = true) : fifoWords - (u.edge b c).rfifo.length ≤ 8 := by
  have hfull : fifoWords - u.rfifo.length ≤ 8 := of_decide_eq_true hp
  rw [edge_rfifo h, List.length_append]
  omega

theorem edge_rfifo_ne_nil (h : (u.avWaitrequest && b.readsData) = false) (hne : u.rfifo ≠ []) :
    (u.edge b c).rfifo ≠ [] := by
  rw [edge_rfifo h]
  exact List.append_ne_nil_of_left_ne_nil hne _

theorem edge_idle (h : u.Ok) (c : Cable) : (u.edge .idle c).Ok where
  ready := rfl
  read0 := by simp [edge, Bus.readsData]
  fifoWr := by simp [edge, Bus.writesData]
  rfifo := edge_rfifo_length h.rfifo
  wfifo := by
    have hlen := u.edge_wfifo_length .idle c
    rw [h.fifoWr] at hlen
    exact hlen.trans h.wfifo
  pauseIrq := by
    intro hp
    refine edge_rfifo_ne_nil (Bool.and_false _) ?_
    exact (edge_pauseIrq hp).elim id fun hold => h.pauseIrq hold.2
  fifoAF := fun hp => edge_fifoAF (Bool.and_false _) hp

/-! ## An access -/

/-- The slave does nothing at the second edge of an access. -/
theorem edge_wait (h : u.avWaitrequest = true) (hb : b.active = true) :
    (u.edge b c).avWaitrequest = false := by
  simp [edge, h, hb]

theorem access_ok (h : u.Ok) (hb : b.active = true) (c₁ c₂ : Cable) : (u.access b c₁ c₂).Ok := by
  have hwait : (u.edge b c₁).avWaitrequest = false := edge_wait h.ready hb
  have hstrobe : ((u.edge b c₁).avWaitrequest && b.readsData) = false := by rw [hwait, Bool.false_and]
  refine
    { ready := by simp [access, edge, h.ready, hb]
      read0 := by simp [access, edge, h.ready, hb]
      fifoWr := by simp [access, edge, h.ready, hb]
      rfifo := edge_rfifo_length (edge_rfifo_length h.rfifo)
      wfifo := ?_
      pauseIrq := fun hp => edge_rfifo_ne_nil hstrobe ?_
      fifoAF := fun hp => edge_fifoAF hstrobe hp }
  · -- A byte written to a full queue is dropped at the first edge.
    have hfirst := u.edge_wfifo_length b c₁
    have hsecond := (u.edge b c₁).edge_wfifo_length b c₂
    have hle := h.wfifo
    rw [h.fifoWr] at hfirst
    show ((u.edge b c₁).edge b c₂).wfifo.length ≤ fifoWords
    cases hwr : (u.edge b c₁).fifoWr with
    | false =>
      rw [hwr] at hsecond
      exact hsecond.trans (hfirst.trans hle)
    | true =>
      have hfull : u.wfifo.length ≠ fifoWords := by
        simp only [edge, Bool.and_eq_true, decide_eq_true_eq] at hwr
        exact hwr.2
      rw [hwr] at hsecond
      simp only [Bool.toNat_true, Bool.toNat_false] at hfirst hsecond
      omega
  · rcases edge_pauseIrq hp with hne | ⟨hread, hp⟩
    · exact hne
    · have hdata : (u.avWaitrequest && b.readsData) = false := hread
      refine edge_rfifo_ne_nil hdata ?_
      exact (edge_pauseIrq hp).elim id fun hold => h.pauseIrq hold.2

/-- The receive queue after an access: a read of the data register has taken its head, and new
bytes are behind. -/
theorem access_rfifo (h : u.Ok) (hb : b.active = true) :
    (u.access b c₁ c₂).rfifo =
      (if b.readsData = true then u.rfifo.tail else u.rfifo) ++ u.arrivals b c₁ c₂ := by
  have hstrobe : ((u.edge b c₁).avWaitrequest && b.readsData) = false := by
    rw [edge_wait h.ready hb, Bool.false_and]
  rw [access, edge_rfifo hstrobe, arrivals, ← List.append_assoc]
  congr 1
  show (if (u.avWaitrequest && b.readsData) = true then _ else _) ++ _ = _
  rw [h.ready, Bool.true_and]

theorem access_rfifo_read (h : u.Ok) (c₁ c₂ : Cable) :
    (u.access (.read false) c₁ c₂).rfifo = u.rfifo.tail ++ u.arrivals (.read false) c₁ c₂ :=
  (access_rfifo h rfl).trans (by rw [if_pos (show (Bus.read false).readsData = true from rfl)])

theorem access_rfifo_keep (h : u.Ok) (hb : b.active = true) (hdata : b.readsData = false) :
    (u.access b c₁ c₂).rfifo = u.rfifo ++ u.arrivals b c₁ c₂ := by
  rw [access_rfifo h hb, if_neg (by rw [hdata]; exact Bool.false_ne_true)]

theorem access_received (u : Uart) (b : Bus) (c₁ c₂ : Cable) :
    (u.access b c₁ c₂).received = u.received ++ u.arrivals b c₁ c₂ := by
  show u.received ++ _ ++ _ = u.received ++ (_ ++ _)
  rw [List.append_assoc]

/-- A byte written to the data register goes into the transmit queue, unless that is full. -/
theorem access_wfifo (h : u.Ok) :
    (u.access b c₁ c₂).sent ++ (u.access b c₁ c₂).wfifo =
      u.sent ++ u.wfifo ++
        if b.writesData = true ∧ u.wfifo.length ≠ fifoWords then [b.wdata] else [] := by
  rw [access, edge_wfifo, edge_wfifo, h.fifoWr, if_neg Bool.false_ne_true, List.append_nil]
  congr 1
  refine if_congr ?_ rfl rfl
  simp [edge, h.ready]

theorem access_wfifo_length (h : u.Ok) (b : Bus) (c₁ c₂ : Cable) :
    (u.access b c₁ c₂).wfifo.length ≤ u.wfifo.length + b.writesData.toNat := by
  have hfirst := u.edge_wfifo_length b c₁
  have hsecond := (u.edge b c₁).edge_wfifo_length b c₂
  have hwr : (u.edge b c₁).fifoWr.toNat ≤ b.writesData.toNat := by
    simp only [edge]
    cases b.writesData with
    | false => simp
    | true => exact Bool.toNat_le _
  rw [h.fifoWr] at hfirst
  exact hsecond.trans (Nat.add_le_add hfirst hwr)

theorem access_wfifo_length_keep (h : u.Ok) (hb : b.writesData = false) :
    (u.access b c₁ c₂).wfifo.length ≤ u.wfifo.length := by
  have hlen := access_wfifo_length h b c₁ c₂
  rw [hb] at hlen
  exact hlen

theorem access_wfifo_keep (h : u.Ok) (hb : b.writesData = false) :
    (u.access b c₁ c₂).sent ++ (u.access b c₁ c₂).wfifo = u.sent ++ u.wfifo := by
  rw [access_wfifo h, if_neg (by rw [hb]; exact fun hw => Bool.false_ne_true hw.1),
    List.append_nil]

theorem access_wfifo_write (h : u.Ok) (hroom : u.wfifo.length < fifoWords) (x : BitVec 8)
    (c₁ c₂ : Cable) :
    (u.access (.write false (x.setWidth 32)) c₁ c₂).sent ++
        (u.access (.write false (x.setWidth 32)) c₁ c₂).wfifo =
      u.sent ++ u.wfifo ++ [x] := by
  have hdata : (Bus.write false (x.setWidth 32)).wdata = x :=
    BitVec.setWidth_setWidth_of_le x (by decide)
  rw [access_wfifo h, if_pos ⟨rfl, hroom.ne⟩, hdata]

/-- The interrupt enables after an access. -/
theorem access_ienAE (h : u.Ok) (hb : b.active = true) :
    (u.access b c₁ c₂).ienAE = b.control.elim u.ienAE (·.getLsbD 1) := by
  simp [access, edge, h.ready, hb]

theorem access_ienAF (h : u.Ok) (hb : b.active = true) :
    (u.access b c₁ c₂).ienAF = b.control.elim u.ienAF (·.getLsbD 0) := by
  simp [access, edge, h.ready, hb]

theorem access_woverflow (h : u.Ok) (hb : b.active = true) (c₁ c₂ : Cable) :
    (u.access b c₁ c₂).woverflow =
      if b.writesData = true then decide (u.wfifo.length = fifoWords) else u.woverflow := by
  simp [access, edge, h.ready, hb]

/-! ## What a read returns -/

section Masks

open BitVec

variable {hi : BitVec 16} {st lo : BitVec 8}

/-- A mask of one bit. -/
theorem masked_ne_zero (x : BitVec 32) {i : ℕ} (hi : i < 32) :
    x &&& twoPow 32 i ≠ 0#32 ↔ x.getLsbD i = true := by
  rw [and_twoPow]
  cases hbit : x.getLsbD i with
  | false => simp
  | true =>
    simp only [if_true, ne_eq, iff_true]
    intro hzero
    have hbit := congrArg (·.getLsbD i) hzero
    simp [hi] at hbit

theorem low_byte : (hi ++ st ++ lo : BitVec 32) &&& 0xFF#32 = lo.setWidth 32 := by
  ext i hlt
  simp only [getElem_and, getElem_append, getElem_setWidth]
  interval_cases i <;> simp

theorem high_half : ((hi ++ st ++ lo : BitVec 32) &&& 0xFFFF0000#32) >>> 16 = hi.setWidth 32 := by
  ext i hlt
  rw [getElem_ushiftRight, getLsbD_and, getLsbD_append, getLsbD_append, getElem_setWidth]
  by_cases h : i < 16
  · interval_cases i <;> simp
  · rw [getLsbD_of_ge hi i (by omega), getLsbD_of_ge (0xFFFF0000#32) (16 + i) (by omega),
      Bool.and_false]

theorem status_bit {i : ℕ} (h : i < 8) :
    (hi ++ st ++ lo : BitVec 32).getLsbD (8 + i) = st.getLsbD i := by
  rw [getLsbD_append, if_neg (by omega), Nat.add_sub_cancel_left, getLsbD_append, if_pos h]

theorem ofBool_bits : ∀ a b c d e f g : Bool,
    (ofBool a ++ ofBool b ++ ofBool c ++ ofBool d ++ 0#1 ++ ofBool e ++ ofBool f ++ ofBool g :
      BitVec 8).getLsbD 7 = a ∧
    (ofBool a ++ ofBool b ++ ofBool c ++ ofBool d ++ 0#1 ++ ofBool e ++ ofBool f ++ ofBool g :
      BitVec 8).getLsbD 1 = f ∧
    (ofBool a ++ ofBool b ++ ofBool c ++ ofBool d ++ 0#1 ++ ofBool e ++ ofBool f ++ ofBool g :
      BitVec 8).getLsbD 0 = g := by decide

theorem status_rvalid (u : Uart) : u.status.getLsbD 7 = u.rvalid := (ofBool_bits ..).1

theorem status_ipenAE (u : Uart) : u.status.getLsbD 1 = u.ipenAE := (ofBool_bits ..).2.1

theorem status_ipenAF (u : Uart) : u.status.getLsbD 0 = u.ipenAF := (ofBool_bits ..).2.2

end Masks

/-- What the control register reads as. -/
theorem reply_control (u : Uart) (c₁ : Cable) :
    u.reply (.read true) c₁ =
      BitVec.ofNat 16 (fifoWords - (u.edge (.read true) c₁).wfifo.length) ++
        (u.edge (.read true) c₁).status ++
          (0#6 ++ BitVec.ofBool (u.edge (.read true) c₁).ienAE ++
            BitVec.ofBool (u.edge (.read true) c₁).ienAF) := by
  have hread : (u.edge (.read true) c₁).read0 = false := by simp [edge, Bus.readsData]
  rw [reply, readdata, hread, if_neg Bool.false_ne_true]

theorem reply_ri_iff :
    u.reply (.read true) c₁ &&& riMsk ≠ 0#32 ↔ (u.edge (.read true) c₁).ipenAF = true := by
  rw [show riMsk = BitVec.twoPow 32 8 from rfl, masked_ne_zero _ (by decide), reply_control,
    status_bit (i := 0) (by decide), status_ipenAF]

theorem reply_wi_iff :
    u.reply (.read true) c₁ &&& wiMsk ≠ 0#32 ↔ (u.edge (.read true) c₁).ipenAE = true := by
  rw [show wiMsk = BitVec.twoPow 32 9 from rfl, masked_ne_zero _ (by decide), reply_control,
    status_bit (i := 1) (by decide), status_ipenAE]

/-- A pending receive interrupt is enabled, and means a byte in the receive queue. -/
theorem reply_ri (h : u.Ok) (hri : u.reply (.read true) c₁ &&& riMsk ≠ 0#32) (c₂ : Cable) :
    u.ienAF = true ∧ (u.access (.read true) c₁ c₂).rfifo ≠ [] := by
  obtain ⟨henabled, hcause⟩ := (Bool.and_eq_true _ _).mp (reply_ri_iff.mp hri)
  have hne : u.rfifo ≠ [] := by
    rcases (Bool.or_eq_true _ _).mp hcause with hp | hp
    · exact (edge_pauseIrq hp).elim id fun hold => h.pauseIrq hold.2
    · have hfull : fifoWords - u.rfifo.length ≤ 8 := of_decide_eq_true hp
      intro hnil
      rw [hnil] at hfull
      exact absurd hfull (by decide)
  refine ⟨by simpa [edge, Bus.control] using henabled, ?_⟩
  rw [access_rfifo_keep h rfl rfl]
  exact List.append_ne_nil_of_left_ne_nil hne _

/-- A pending transmit interrupt is enabled, and there is room in the transmit queue. -/
theorem reply_wi (h : u.Ok) (hwi : u.reply (.read true) c₁ &&& wiMsk ≠ 0#32) :
    u.ienAE = true ∧ 0 < ((u.reply (.read true) c₁ &&& wspaceMsk) >>> 16).toNat := by
  obtain ⟨henabled, hcause⟩ := (Bool.and_eq_true _ _).mp (reply_wi_iff.mp hwi)
  refine ⟨by simpa [edge, Bus.control] using henabled, ?_⟩
  have hfew : u.wfifo.length ≤ 8 := by simpa [edge] using hcause
  have hlen := u.edge_wfifo_length (.read true) c₁
  rw [h.fifoWr, Bool.toNat_false, Nat.add_zero] at hlen
  rw [reply_control, wspaceMsk, high_half, BitVec.toNat_setWidth, BitVec.toNat_ofNat]
  simp only [fifoWords]
  omega

/-- The room the control register reports is there after the read. -/
theorem reply_wspace (h : u.Ok) :
    ((u.reply (.read true) c₁ &&& wspaceMsk) >>> 16).toNat +
      (u.access (.read true) c₁ c₂).wfifo.length ≤ fifoWords := by
  have hfirst := u.edge_wfifo_length (.read true) c₁
  have hsecond := (u.edge (.read true) c₁).edge_wfifo_length (.read true) c₂
  have hwr : (u.edge (.read true) c₁).fifoWr = false := by simp [edge, Bus.writesData]
  have hle := h.wfifo
  rw [h.fifoWr] at hfirst
  rw [hwr] at hsecond
  rw [reply_control, wspaceMsk, high_half, access]
  simp only [Bool.toNat_false, Nat.add_zero] at hfirst hsecond
  rw [BitVec.toNat_setWidth, BitVec.toNat_ofNat]
  simp only [fifoWords] at *
  omega

/-- `RVALID`: there was a byte to read. -/
theorem reply_rvalid (h : u.Ok) :
    u.reply (.read false) c₁ &&& rvalidMsk ≠ 0#32 ↔ u.rfifo ≠ [] := by
  have hread : (u.edge (.read false) c₁).read0 = true := by simp [edge, Bus.readsData, h.ready]
  rw [show rvalidMsk = BitVec.twoPow 32 15 from rfl, masked_ne_zero _ (by decide), reply, readdata,
    hread, if_pos rfl, status_bit (i := 7) (by decide), status_rvalid]
  simp [edge, Bus.readsData, h.ready]

/-- The byte that is read. -/
theorem reply_data (h : u.Ok) {x : BitVec 8} {xs : List (BitVec 8)} (hq : u.rfifo = x :: xs)
    (c₁ : Cable) :
    (u.reply (.read false) c₁ &&& dataMsk).setWidth 8 = x := by
  have hread : (u.edge (.read false) c₁).read0 = true := by simp [edge, Bus.readsData, h.ready]
  rw [reply, readdata, hread, if_pos rfl, dataMsk, low_byte]
  simp [edge, Bus.readsData, h.ready, hq]

end Uart

end Jtag

end ReactionMeter
