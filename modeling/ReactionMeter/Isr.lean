import Mathlib.Data.List.Count
import Mathlib.Data.List.GetD
import ReactionMeter.Lib.Machine
import ReactionMeter.RespReg

/-!
# The interrupt service routine

`isr` of `qsys_main.c`, on the bus of the register file. The routine starts only while `irq` is
high, reads address 0 in one bus read of two edges, takes the value the first edge latched, and
posts one semaphore at most. Between its bus accesses any number of cycles may pass, and other
masters of the same bus may read address 1 or write the delay in them.

The fields after `isr` are history: no step reads them. `transitions` lists the states the meter
has entered, `shown` counts the transitions made when the published state was current, `latched`
is `shown` as it was at the latest read of the routine, and `reports` lists what the reads
returned, each with the transition that entered the state it names.

**At most once (`at_most_once`).** The routine never reports a transition twice, and no semaphore
is posted more often than the meter has entered its state. The invariant is an order of counters:
`latched ≤ shown ≤ transitions.length`, the first strict while `irq` is high, and the outer one
strict while the pulse is.
-/

namespace ReactionMeter

/-- The semaphores the routine posts. -/
inductive SemId
  | start | startCounting | stop | restart
  deriving DecidableEq, Repr

/-- The comparisons of `isr`, in their order. -/
def semOf (state : BitVec 16) : Option SemId :=
  if state = 3#16 then some .startCounting
  else if state = 1#16 then some .start
  else if state = 4#16 then some .stop
  else if state = 0#16 then some .restart
  else none

/-- The meter state a semaphore announces. -/
def SemId.state : SemId → StateT
  | .start => .start
  | .startCounting => .count
  | .stop => .stop
  | .restart => .idle

theorem semOf_pos {p : StateT} {q : SemId} :
    semOf (BitVec.ofNat 16 p.pos) = some q ↔ q.state = p := by
  cases p <;> cases q <;> decide

/-- Where the routine stands: outside, in the second edge of its bus read, or about to compare the
value it read. -/
inductive IsrPc
  | out
  | reading
  | posting (state : BitVec 16)
  deriving DecidableEq, Repr

/-- The register file with the routine, and its history. -/
structure IrqSys where
  hw : RespReg := {}
  isr : IsrPc := .out
  posted : List SemId := []
  transitions : List StateT := []
  shown : ℕ := 0
  latched : ℕ := 0
  reports : List (ℕ × BitVec 16) := []
  deriving DecidableEq, Repr

/-- What happens on the bus in one cycle: nothing, the next access of the routine, a read of
address 1, or a write of the delay. -/
inductive BusOp
  | idle
  | isr
  | readTime
  | write (data : BitVec 16)
  deriving DecidableEq, Repr

namespace IrqSys

/-- One rising edge with the lines `i`. -/
def edge (s : IrqSys) (i : RespRegIn) : IrqSys :=
  let hw := s.hw.step i
  { s with
    hw := hw
    transitions :=
      if hw.meter.nextState = s.hw.meter.nextState then s.transitions
      else s.transitions ++ [hw.meter.nextState]
    shown := s.transitions.length }

/-- One cycle. While the routine holds the bus nothing else can use it. -/
def step (s : IrqSys) (a : BitVec 2 × BusOp) : Option IrqSys :=
  let b := a.1
  match s.isr, a.2 with
  | .out, .isr =>
    if s.hw.irq = true then
      some { s.edge { buttons := b, read := true } with isr := .reading, latched := s.shown }
    else none
  | .reading, .isr =>
    some { s.edge { buttons := b, read := true } with
      isr := .posting s.hw.readdata
      reports := s.reports ++ [(s.latched, s.hw.readdata)] }
  | .posting c, .isr =>
    some { s.edge { buttons := b } with isr := .out, posted := s.posted ++ (semOf c).toList }
  | .reading, _ => none
  | _, .idle => some (s.edge { buttons := b })
  | _, .readTime => some (s.edge { buttons := b, read := true, address := true })
  | _, .write d => some (s.edge { buttons := b, write := true, writedata := d })

/-- The state after `k` transitions. -/
def after (s : IrqSys) (k : ℕ) : StateT := (StateT.idle :: s.transitions).getD k .idle

/-! ## One edge -/

theorem after_edge {s : IrqSys} {i : RespRegIn} {k : ℕ} (hk : k ≤ s.transitions.length) :
    (s.edge i).after k = s.after k := by
  simp only [after, edge]
  split_ifs
  · rfl
  · rw [← List.cons_append, List.getD_append _ _ _ _ (by simpa using Nat.lt_succ_of_le hk)]

theorem length_edge (s : IrqSys) (i : RespRegIn) :
    s.transitions.length ≤ (s.edge i).transitions.length := by
  simp only [edge]
  split_ifs
  · exact le_rfl
  · simp

theorem take_edge {s : IrqSys} {i : RespRegIn} {k : ℕ} (hk : k ≤ s.transitions.length) :
    (s.edge i).transitions.take k = s.transitions.take k := by
  simp only [edge]
  split_ifs
  · rfl
  · exact List.take_append_of_le_length hk

theorem take_succ {s : IrqSys} {k : ℕ} (hk : k < s.transitions.length) :
    s.transitions.take (k + 1) = s.transitions.take k ++ [s.after (k + 1)] := by
  rw [List.take_succ_eq_append_getElem hk]
  simp [after, hk]

/-- What the history says about the hardware. -/
structure Tracks (s : IrqSys) : Prop where
  current : s.after s.transitions.length = s.hw.meter.nextState
  shown_le : s.shown ≤ s.transitions.length
  state : s.hw.meter.state = (s.after s.shown).pos

theorem tracks_init : Tracks {} where
  current := rfl
  shown_le := le_rfl
  state := rfl

theorem Tracks.edge {s : IrqSys} (h : Tracks s) {i : RespRegIn} (hi : i.resetn = true) :
    Tracks (s.edge i) where
  current := by
    simp only [after, IrqSys.edge]
    split_ifs with hn
    · rw [hn]; exact h.current
    · simp
  shown_le := length_edge s i
  state := by
    show (s.hw.step i).meter.state = ((s.edge i).after s.transitions.length).pos
    rw [after_edge le_rfl, h.current, RespReg.meter_state hi]

theorem length_of_pulse {s : IrqSys} {i : RespRegIn} (hi : i.resetn = true)
    (h : (s.edge i).hw.meter.irq = true) :
    (s.edge i).transitions.length = s.transitions.length + 1 := by
  have hne := Meter.moved_of_irq (RespReg.meter_edge (s := s.hw) hi) h
  show (if (s.hw.step i).meter.nextState = s.hw.meter.nextState then _ else _ : List _).length = _
  rw [if_neg hne, List.length_append]
  rfl

/-! ## What a cycle can be -/

/-- The four kinds of cycles: without an access of the routine, the two edges of its read, and its
post. -/
inductive Access (s : IrqSys) : IrqSys → Prop
  | other {i : RespRegIn} (hi : i.resetn = true) (hpc : s.isr ≠ .reading) : Access s (s.edge i)
  | startRead {i : RespRegIn} (hi : i.resetn = true) (hr : i.read = true) (ha : i.address = false)
      (hpc : s.isr = .out) (hirq : s.hw.irq = true) :
      Access s { s.edge i with isr := .reading, latched := s.shown }
  | finishRead {i : RespRegIn} (hi : i.resetn = true) (hr : i.read = true)
      (hpc : s.isr = .reading) :
      Access s { s.edge i with
        isr := .posting s.hw.readdata, reports := s.reports ++ [(s.latched, s.hw.readdata)] }
  | post {i : RespRegIn} {c : BitVec 16} (hi : i.resetn = true) (hpc : s.isr = .posting c) :
      Access s { s.edge i with isr := .out, posted := s.posted ++ (semOf c).toList }

theorem access_step {s s' : IrqSys} {a : BitVec 2 × BusOp} (hs : step s a = some s') :
    Access s s' := by
  obtain ⟨b, op⟩ := a
  cases hpc : s.isr with
  | reading =>
    cases op <;> simp only [step, hpc, Option.some.injEq, reduceCtorEq] at hs
    case isr => rw [← hs]; exact .finishRead rfl rfl hpc
  | out =>
    have hne : s.isr ≠ .reading := by simp [hpc]
    cases op <;> simp only [step, hpc, Option.some.injEq] at hs
    case isr =>
      split_ifs at hs with hirq
      rw [← Option.some.inj hs]
      exact .startRead rfl rfl rfl hpc hirq
    all_goals rw [← hs]; exact .other rfl hne
  | posting c =>
    have hne : s.isr ≠ .reading := by simp [hpc]
    cases op <;> simp only [step, hpc, Option.some.injEq] at hs
    case isr => rw [← hs]; exact .post rfl hpc
    all_goals rw [← hs]; exact .other rfl hne

/-! ## The invariant -/

/-- The semaphore the routine is committed to posting: the one its read will name, or has named. -/
def Owes (s : IrqSys) (q : SemId) : Prop :=
  (s.isr = .reading ∧ q.state = s.after s.latched) ∨ ∃ c, s.isr = .posting c ∧ semOf c = some q

/-- What every cycle preserves. -/
structure Inv (s : IrqSys) : Prop extends Tracks s where
  latched_le : s.latched ≤ s.shown
  pulse : s.hw.meter.irq = true → s.latched < s.transitions.length
  irq : s.hw.irq = true → s.latched < s.shown
  reading : s.isr = .reading → 0 < s.latched ∧
    s.hw.readdata = BitVec.ofNat 16 (s.after s.latched).pos ∧ ∀ r ∈ s.reports, r.1 < s.latched
  sorted : s.reports.Pairwise fun r t => r.1 < t.1
  named : ∀ r ∈ s.reports,
    0 < r.1 ∧ r.1 ≤ s.latched ∧ r.2 = BitVec.ofNat 16 (s.after r.1).pos
  owed : ∀ q, s.posted.count q ≤ (s.transitions.take s.latched).count q.state ∧
    (Owes s q → s.posted.count q < (s.transitions.take s.latched).count q.state)

theorem inv_init : Inv {} where
  toTracks := tracks_init
  latched_le := le_rfl
  pulse := by intro h; cases h
  irq := by intro h; cases h
  reading := by intro h; cases h
  sorted := List.Pairwise.nil
  named := by intro r hr; cases hr
  owed := by
    intro q
    refine ⟨le_rfl, ?_⟩
    intro ho
    rcases ho with ⟨h, -⟩ | ⟨c, h, -⟩ <;> cases h

/-- The lines of every cycle are out of reset. -/
theorem pulse_edge {s : IrqSys} (h : Inv s) {i : RespRegIn} (hi : i.resetn = true)
    (hp : (s.edge i).hw.meter.irq = true) : s.shown < (s.edge i).transitions.length := by
  rw [length_of_pulse hi hp]
  exact Nat.lt_succ_of_le h.shown_le

/-- `irq` is high after an edge only if the edge was no read, and then a transition since the
latest read of the routine is published. -/
theorem irq_edge {s : IrqSys} (h : Inv s) {i : RespRegIn} (hi : i.resetn = true)
    (hq : (s.edge i).hw.irq = true) : i.read = false ∧ s.latched < s.transitions.length := by
  cases hr : i.read with
  | true => exact absurd ((RespReg.irq_read hr).symm.trans hq) (by decide)
  | false =>
    refine ⟨rfl, ?_⟩
    have hor : (s.hw.meter.irq || s.hw.irq) = true := (RespReg.irq_quiet hi hr).symm.trans hq
    rcases Bool.or_eq_true_iff.mp hor with hm | hq'
    · exact h.pulse hm
    · exact lt_of_lt_of_le (h.irq hq') h.shown_le

theorem Inv.other {s : IrqSys} (h : Inv s) {i : RespRegIn} (hi : i.resetn = true)
    (hpc : s.isr ≠ .reading) : Inv (s.edge i) where
  toTracks := h.toTracks.edge hi
  latched_le := h.latched_le.trans h.shown_le
  pulse := fun hp => lt_of_le_of_lt h.latched_le (pulse_edge h hi hp)
  irq := fun hq => (irq_edge h hi hq).2
  reading := fun hr => absurd hr hpc
  sorted := h.sorted
  named := by
    intro r hr
    obtain ⟨h0, hle, hv⟩ := h.named r hr
    refine ⟨h0, hle, ?_⟩
    rw [after_edge (hle.trans (h.latched_le.trans h.shown_le))]
    exact hv
  owed := by
    intro q
    show _ ≤ ((s.edge i).transitions.take s.latched).count q.state ∧
      (_ → _ < ((s.edge i).transitions.take s.latched).count q.state)
    rw [take_edge (h.latched_le.trans h.shown_le)]
    refine ⟨(h.owed q).1, fun ho => (h.owed q).2 ?_⟩
    rcases ho with ⟨hr, -⟩ | hp
    · exact absurd hr hpc
    · exact Or.inr hp

/-- The first edge of the routine's read latches a transition newer than all it has reported. -/
theorem Inv.startRead {s : IrqSys} (h : Inv s) {i : RespRegIn} (hi : i.resetn = true)
    (hr : i.read = true) (ha : i.address = false) (hirq : s.hw.irq = true) :
    Inv { s.edge i with isr := .reading, latched := s.shown } where
  toTracks := ⟨(h.edge hi).current, (h.edge hi).shown_le, (h.edge hi).state⟩
  latched_le := h.shown_le
  pulse := fun hp => pulse_edge h hi hp
  irq := fun hq => absurd ((irq_edge h hi hq).1.symm.trans hr) (by decide)
  reading := by
    intro _
    have hlt := h.irq hirq
    refine ⟨Nat.zero_lt_of_lt hlt, ?_, fun r hr' => lt_of_le_of_lt (h.named r hr').2.1 hlt⟩
    show (s.hw.step i).readdata = BitVec.ofNat 16 ((s.edge i).after s.shown).pos
    rw [RespReg.readdata_state hi hr ha, after_edge h.shown_le, h.state]
  sorted := h.sorted
  named := by
    intro r hr'
    obtain ⟨h0, hle, hv⟩ := h.named r hr'
    refine ⟨h0, hle.trans h.latched_le, ?_⟩
    show r.2 = BitVec.ofNat 16 ((s.edge i).after r.1).pos
    rw [after_edge (hle.trans (h.latched_le.trans h.shown_le))]
    exact hv
  owed := by
    intro q
    have hlt := h.irq hirq
    obtain ⟨k, hk⟩ := Nat.exists_eq_succ_of_ne_zero (Nat.ne_of_gt (Nat.zero_lt_of_lt hlt))
    have hkl : k < s.transitions.length := by have := h.shown_le; omega
    -- The transitions up to the published one are those up to `latched`, and at least one more.
    have hmono : (s.transitions.take s.latched).count q.state ≤
        (s.transitions.take k).count q.state :=
      (List.take_sublist_take_left (by omega)).count_le _
    have htake : (s.transitions.take s.shown).count q.state =
        (s.transitions.take k).count q.state + [s.after s.shown].count q.state := by
      rw [hk, take_succ hkl, List.count_append]
    have hold := (h.owed q).1
    show s.posted.count q ≤ ((s.edge i).transitions.take s.shown).count q.state ∧
      (_ → s.posted.count q < ((s.edge i).transitions.take s.shown).count q.state)
    rw [take_edge h.shown_le, htake]
    refine ⟨by omega, fun ho => ?_⟩
    rcases ho with ⟨-, hq⟩ | ⟨c, hc, -⟩
    · have hq' : q.state = s.after s.shown := hq.trans (after_edge h.shown_le)
      have hone : [s.after s.shown].count q.state = 1 := by rw [hq']; simp
      omega
    · cases hc

/-- The second edge: the routine takes the value the first edge latched. -/
theorem Inv.finishRead {s : IrqSys} (h : Inv s) {i : RespRegIn} (hi : i.resetn = true)
    (hr : i.read = true) (hpc : s.isr = .reading) :
    Inv { s.edge i with
      isr := .posting s.hw.readdata, reports := s.reports ++ [(s.latched, s.hw.readdata)] } where
  toTracks := ⟨(h.edge hi).current, (h.edge hi).shown_le, (h.edge hi).state⟩
  latched_le := h.latched_le.trans h.shown_le
  pulse := fun hp => lt_of_le_of_lt h.latched_le (pulse_edge h hi hp)
  irq := fun hq => absurd ((irq_edge h hi hq).1.symm.trans hr) (by decide)
  reading := by intro hr'; cases hr'
  sorted := by
    refine List.pairwise_append.mpr ⟨h.sorted, List.pairwise_singleton _ _, ?_⟩
    intro r hr' t ht
    rw [List.mem_singleton.mp ht]
    exact (h.reading hpc).2.2 r hr'
  named := by
    intro r hr'
    have hle : r.1 ≤ s.latched := by
      rcases List.mem_append.mp hr' with hr' | hr'
      · exact (h.named r hr').2.1
      · rw [List.mem_singleton.mp hr']
    show 0 < r.1 ∧ r.1 ≤ s.latched ∧ r.2 = BitVec.ofNat 16 ((s.edge i).after r.1).pos
    rw [after_edge (hle.trans (h.latched_le.trans h.shown_le))]
    rcases List.mem_append.mp hr' with hr' | hr'
    · exact h.named r hr'
    · obtain ⟨h0, hv, -⟩ := h.reading hpc
      rw [List.mem_singleton.mp hr']
      exact ⟨h0, le_rfl, hv⟩
  owed := by
    intro q
    show s.posted.count q ≤ ((s.edge i).transitions.take s.latched).count q.state ∧
      (_ → s.posted.count q < ((s.edge i).transitions.take s.latched).count q.state)
    rw [take_edge (h.latched_le.trans h.shown_le)]
    refine ⟨(h.owed q).1, fun ho => (h.owed q).2 (Or.inl ⟨hpc, ?_⟩)⟩
    rcases ho with ⟨hc, -⟩ | ⟨c, hc, hq⟩
    · cases hc
    · cases hc
      rw [(h.reading hpc).2.1] at hq
      exact semOf_pos.mp hq

/-- The post pays what the routine owes. -/
theorem Inv.post {s : IrqSys} (h : Inv s) {i : RespRegIn} (hi : i.resetn = true)
    {c : BitVec 16} (hpc : s.isr = .posting c) :
    Inv { s.edge i with isr := .out, posted := s.posted ++ (semOf c).toList } where
  toTracks := ⟨(h.edge hi).current, (h.edge hi).shown_le, (h.edge hi).state⟩
  latched_le := h.latched_le.trans h.shown_le
  pulse := fun hp => lt_of_le_of_lt h.latched_le (pulse_edge h hi hp)
  irq := fun hq => (irq_edge h hi hq).2
  reading := by intro hr'; cases hr'
  sorted := h.sorted
  named := (h.other hi (by rw [hpc]; exact fun hc => by cases hc)).named
  owed := by
    intro q
    show (s.posted ++ (semOf c).toList).count q ≤
        ((s.edge i).transitions.take s.latched).count q.state ∧ _
    rw [take_edge (h.latched_le.trans h.shown_le), List.count_append]
    refine ⟨?_, ?_⟩
    · cases hq : semOf c with
      | none => exact (h.owed q).1
      | some p =>
        by_cases hp : p = q
        · subst hp
          have hlt := (h.owed p).2 (Or.inr ⟨c, hpc, hq⟩)
          simpa using Nat.succ_le_of_lt hlt
        · simpa [hp] using (h.owed q).1
    · intro ho
      rcases ho with ⟨hc, -⟩ | ⟨c', hc, -⟩ <;> cases hc

theorem inv_step {s s' : IrqSys} {a : BitVec 2 × BusOp} (h : Inv s) (hs : step s a = some s') :
    Inv s' := by
  cases access_step hs with
  | other hi hpc => exact h.other hi hpc
  | startRead hi hr ha _ hirq => exact h.startRead hi hr ha hirq
  | finishRead hi hr hpc => exact h.finishRead hi hr hpc
  | post hi hpc => exact h.post hi hpc

theorem reach_inv {s : IrqSys} (h : Machine.Reach step {} s) : Inv s :=
  h.invariant inv_init fun _ _ _ hi hs => inv_step hi hs

/-- **At most once.** In every run without reset, with any buttons and any other traffic on the
bus, the reads of the routine return states entered by strictly later transitions, and no
semaphore is posted more often than the meter has entered its state. -/
theorem at_most_once {s : IrqSys} (h : Machine.Reach step {} s) :
    (s.reports.Pairwise fun r t => r.1 < t.1) ∧
      (∀ r ∈ s.reports, 0 < r.1 ∧ r.1 ≤ s.transitions.length ∧
        r.2 = BitVec.ofNat 16 (s.after r.1).pos) ∧
      ∀ q, s.posted.count q ≤ s.transitions.count q.state := by
  have hinv := reach_inv h
  refine ⟨hinv.sorted, fun r hr => ?_, fun q => ?_⟩
  · obtain ⟨h0, hle, hv⟩ := hinv.named r hr
    exact ⟨h0, hle.trans (hinv.latched_le.trans hinv.shown_le), hv⟩
  · exact (hinv.owed q).1.trans ((List.take_sublist _ _).count_le _)

/-- The start button is pressed, and the routine serves the interrupt. -/
def pressActs : List (BitVec 2 × BusOp) :=
  [(0b10#2, .idle), (0b10#2, .idle), (0b10#2, .isr), (0b10#2, .isr), (0b10#2, .isr)]

def servedPress : IrqSys := (Machine.exec step {} pressActs).getD {}

theorem at_most_once_press :
    servedPress.posted = [.start] ∧
      servedPress.posted.count .start ≤ servedPress.transitions.count .start := by
  have hexec : Machine.exec step {} pressActs = some servedPress := by decide
  exact ⟨by decide, (at_most_once (Machine.Reach.of_exec hexec)).2.2 .start⟩

end IrqSys

end ReactionMeter
