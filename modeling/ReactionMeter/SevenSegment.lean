import ReactionMeter.Lib.Clocked
import ReactionMeter.Lib.Slices

/-!
# The seven segment controller

`hex7seg.vhd`, `reg32.vhd` and `reg32_avalon_interface.vhd`: a 48-bit register behind the Avalon bus
that holds the segments of six displays. The vector has a lane of seven bits for each display, in
two groups with a gap of three bits behind each. `address` and `byteenable` select the lanes a write
goes to, and the two lower digits of the data feed two pairs of lanes.

A segment vector is declared `0 TO 6` in `hex7seg` and connected to `6 DOWNTO 0`, so its leftmost
bit is the highest one here.

* `view_step` says what one cycle does to one lane.
* `last_write_wins` says what a lane shows after a run, by the history of the bus.
-/

namespace ReactionMeter

/-- The glyphs of `hex7seg`. -/
def hex7seg (hex : BitVec 4) : BitVec 7 :=
  match hex with
  | 0b0000#4 => 0b0000001#7
  | 0b0001#4 => 0b1001111#7
  | 0b0010#4 => 0b0010010#7
  | 0b0011#4 => 0b0000110#7
  | 0b0100#4 => 0b1001100#7
  | 0b0101#4 => 0b0100100#7
  | 0b0110#4 => 0b0100000#7
  | 0b0111#4 => 0b0001111#7
  | 0b1000#4 => 0b0000000#7
  | 0b1001#4 => 0b0001100#7
  | 0b1010#4 => 0b0001000#7
  | 0b1011#4 => 0b1100000#7
  | 0b1100#4 => 0b0110001#7
  | 0b1101#4 => 0b1000010#7
  | 0b1110#4 => 0b0110000#7
  | _ => 0b0111000#7

/-- The input ports of `reg32_avalon_interface`. -/
structure Reg32In where
  resetn : Bool := true
  address : Bool := false
  write : Bool := false
  chipselect : Bool := false
  writedata : BitVec 32 := 0#32
  byteenable : BitVec 4 := 0#4
  deriving DecidableEq, Repr

namespace Reg32

/-- `to_HEX`, by the port maps of the six decoders. Nothing drives the bits of the gaps, and nothing
reads them. -/
def toHex (d : BitVec 32) : BitVec 48 :=
  let v := 0#48
  let v := Slices.connect v (hex7seg (d.extractLsb' 0 4)) 0
  let v := Slices.connect v (hex7seg (d.extractLsb' 4 4)) 7
  let v := Slices.connect v (hex7seg (d.extractLsb' 8 4)) 14
  let v := Slices.connect v (hex7seg (d.extractLsb' 12 4)) 21
  let v := Slices.connect v (hex7seg (d.extractLsb' 0 4)) 31
  Slices.connect v (hex7seg (d.extractLsb' 4 4)) 38

/-- `reg32` on one rising edge of `clock`. -/
def reg32 (q : BitVec 48) (resetn address : Bool) (d : BitVec 32) (byteenable : BitVec 4) :
    BitVec 48 :=
  if resetn = false then 0#48
  else if address = true then
    let q := if byteenable.getLsbD 0 = true then Slices.assign q (toHex d) 0 14 else q
    if byteenable.getLsbD 1 = true then Slices.assign q (toHex d) 14 14 else q
  else if byteenable.getLsbD 0 = true then Slices.assign q (toHex d) 31 14 else q

/-- `local_byteenable`. -/
def localByteenable (i : Reg32In) : BitVec 4 :=
  if i.chipselect = true ∧ i.write = true then i.byteenable else 0#4

/-- One rising edge of `reg32_avalon_interface`; the state is `Q_export`. -/
def step (q : BitVec 48) (i : Reg32In) : BitVec 48 :=
  reg32 q i.resetn i.address i.writedata (localByteenable i)

end Reg32

/-- The displays. -/
inductive Lane
  | hex0 | hex1 | hex2 | hex3 | hex4 | hex5
  deriving DecidableEq, Repr

namespace Lane

/-- The lowest bit of the lane in `Q`. -/
def lo : Lane → ℕ
  | hex0 => 0
  | hex1 => 7
  | hex2 => 14
  | hex3 => 21
  | hex4 => 31
  | hex5 => 38

/-- The lowest bit of the group the lane is written with. -/
def group : Lane → ℕ
  | hex0 | hex1 => 0
  | hex2 | hex3 => 14
  | hex4 | hex5 => 31

/-- The lane of a register. -/
def view (lane : Lane) (q : BitVec 48) : BitVec 7 := q.extractLsb' lane.lo 7

/-- The nibble of the data that feeds the lane. -/
def nibble (lane : Lane) (d : BitVec 32) : BitVec 4 :=
  match lane with
  | hex0 | hex4 => d.extractLsb' 0 4
  | hex1 | hex5 => d.extractLsb' 4 4
  | hex2 => d.extractLsb' 8 4
  | hex3 => d.extractLsb' 12 4

/-- Address and byte enables that select the lane. -/
def Addressed (lane : Lane) (i : Reg32In) : Prop :=
  match lane with
  | hex0 | hex1 => i.address = true ∧ i.byteenable.getLsbD 0 = true
  | hex2 | hex3 => i.address = true ∧ i.byteenable.getLsbD 1 = true
  | hex4 | hex5 => i.address = false ∧ i.byteenable.getLsbD 0 = true

instance (lane : Lane) (i : Reg32In) : Decidable (lane.Addressed i) := by
  cases lane <;> unfold Addressed <;> infer_instance

/-- A cycle that writes the lane. -/
def Selected (lane : Lane) (i : Reg32In) : Prop :=
  i.resetn = true ∧ i.chipselect = true ∧ i.write = true ∧ lane.Addressed i

instance (lane : Lane) (i : Reg32In) : Decidable (lane.Selected i) := by
  unfold Selected; infer_instance

end Lane

namespace Reg32

variable {q : BitVec 48} {i : Reg32In}

/-! ## One cycle -/

theorem view_toHex (lane : Lane) (d : BitVec 32) :
    lane.view (toHex d) = hex7seg (lane.nibble d) := by
  unfold Lane.view toHex
  cases lane with
  | hex5 => exact Slices.extract_connect_self (by decide)
  | hex4 =>
    rw [Slices.extract_connect_outside (by decide) (by decide)]
    exact Slices.extract_connect_self (by decide)
  | hex3 =>
    iterate 2 rw [Slices.extract_connect_outside (by decide) (by decide)]
    exact Slices.extract_connect_self (by decide)
  | hex2 =>
    iterate 3 rw [Slices.extract_connect_outside (by decide) (by decide)]
    exact Slices.extract_connect_self (by decide)
  | hex1 =>
    iterate 4 rw [Slices.extract_connect_outside (by decide) (by decide)]
    exact Slices.extract_connect_self (by decide)
  | hex0 =>
    iterate 5 rw [Slices.extract_connect_outside (by decide) (by decide)]
    exact Slices.extract_connect_self (by decide)

/-- An assignment to a group of lanes, seen in one lane. -/
theorem view_assign (lane other : Lane) (d : BitVec 32) :
    lane.view (Slices.assign q (toHex d) other.group 14) =
      if lane.group = other.group then hex7seg (lane.nibble d) else lane.view q := by
  by_cases h : lane.group = other.group
  · rw [if_pos h, ← view_toHex, ← h]
    exact Slices.extract_assign_inside (by cases lane <;> decide) (by cases lane <;> decide)
      (by cases lane <;> decide)
  · rw [if_neg h]
    apply Slices.extract_assign_outside
    · cases lane <;> decide
    · revert h
      cases lane <;> cases other <;> decide

theorem view_write {c : Prop} [Decidable c] (lane other : Lane) (d : BitVec 32) :
    lane.view (if c then Slices.assign q (toHex d) other.group 14 else q) =
      if c ∧ lane.group = other.group then hex7seg (lane.nibble d) else lane.view q := by
  by_cases hc : c
  · simp [hc, view_assign]
  · simp [hc]

theorem step_reset (h : i.resetn = false) : step q i = 0#48 := if_pos h

theorem step_quiet (h : i.resetn = true) (hq : ¬ (i.chipselect = true ∧ i.write = true)) :
    step q i = q := by
  simp [step, reg32, localByteenable, h, hq]

/-- The assignments of a write cycle, in the order of the source. -/
theorem step_write (h : i.resetn = true) (hacc : i.chipselect = true ∧ i.write = true) :
    step q i =
      if i.address = true then
        let q := if i.byteenable.getLsbD 0 = true
          then Slices.assign q (toHex i.writedata) Lane.hex0.group 14 else q
        if i.byteenable.getLsbD 1 = true
          then Slices.assign q (toHex i.writedata) Lane.hex2.group 14 else q
      else if i.byteenable.getLsbD 0 = true
        then Slices.assign q (toHex i.writedata) Lane.hex4.group 14 else q := by
  simp [step, reg32, localByteenable, h, hacc, Lane.group]

/-- What a cycle does to a lane: reset clears it, a write that selects it shows a digit, and nothing
else changes it. -/
theorem view_step (lane : Lane) :
    lane.view (step q i) =
      if i.resetn = false then 0#7
      else if lane.Selected i then hex7seg (lane.nibble i.writedata)
      else lane.view q := by
  cases hr : i.resetn with
  | false =>
    rw [step_reset hr, if_pos rfl]
    cases lane <;> rfl
  | true =>
    rw [if_neg (by decide)]
    by_cases hacc : i.chipselect = true ∧ i.write = true
    · have hsel : lane.Selected i ↔ lane.Addressed i := by
        simp [Lane.Selected, hr, hacc]
      rw [step_write hr hacc]
      simp only [hsel]
      by_cases haddr : i.address = true
      · rw [if_pos haddr, view_write, view_write]
        cases lane <;> simp [Lane.Addressed, Lane.group, haddr]
      · rw [if_neg haddr, view_write]
        cases lane <;> simp [Lane.Addressed, Lane.group, haddr]
    · have hnot : ¬ lane.Selected i := fun hs => hacc ⟨hs.2.1, hs.2.2.1⟩
      rw [step_quiet hr hacc, if_neg hnot]

theorem outside_step (h : i.resetn = true) {a b : ℕ} (hw : a + b ≤ 48)
    (hout : ∀ lane : Lane, a + b ≤ lane.group ∨ lane.group + 14 ≤ a) :
    (step q i).extractLsb' a b = q.extractLsb' a b := by
  by_cases hacc : i.chipselect = true ∧ i.write = true
  · rw [step_write h hacc]
    simp only
    split_ifs <;> simp only [Slices.extract_assign_outside hw (hout _)]
  · rw [step_quiet h hacc]

/-! ## Runs -/

/-- The register after `n` cycles, from `q`. -/
def trace (q : BitVec 48) (i : ℕ → Reg32In) : ℕ → BitVec 48 := Clocked.run step q i

theorem trace_succ (q : BitVec 48) (i : ℕ → Reg32In) (n : ℕ) :
    trace q i (n + 1) = step (trace q i n) (i n) := rfl

theorem view_kept (q : BitVec 48) {i : ℕ → Reg32In} {lane : Lane} {k n : ℕ} (hkn : k ≤ n)
    (h : ∀ j, k ≤ j → j < n → (i j).resetn = true ∧ ¬ lane.Selected (i j)) :
    lane.view (trace q i n) = lane.view (trace q i k) := by
  induction n, hkn using Nat.le_induction with
  | base => rfl
  | succ n hn ih =>
    obtain ⟨hr, hs⟩ := h n hn (Nat.lt_succ_self n)
    rw [trace_succ, view_step, hr, if_neg (by decide), if_neg hs]
    exact ih fun j hkj hj => h j hkj (Nat.lt_succ_of_lt hj)

theorem view_cleared (q : BitVec 48) {i : ℕ → Reg32In} {lane : Lane} {r n : ℕ} (hrn : r + 1 ≤ n)
    (hr : (i r).resetn = false) (h : ∀ j, r < j → j < n → ¬ lane.Selected (i j)) :
    lane.view (trace q i n) = 0#7 := by
  induction n, hrn using Nat.le_induction with
  | base => rw [trace_succ, view_step, if_pos hr]
  | succ n hn ih =>
    rw [trace_succ, view_step, if_neg (h n hn (Nat.lt_succ_self n)),
      ih fun j hrj hj => h j hrj (Nat.lt_succ_of_lt hj)]
    exact ite_self _

/-- **The last write wins**, for any register at the start and any lines. A lane shows the nibble of
the latest cycle that selected it, if no reset has followed; without one since a reset it is clear,
and without either it is as it was. A cycle out of reset leaves the lanes it does not select and
the bits between the groups alone. -/
theorem last_write_wins (q : BitVec 48) (i : ℕ → Reg32In) (lane : Lane) :
    (∀ k n, k < n → lane.Selected (i k) →
      (∀ j, k < j → j < n → (i j).resetn = true ∧ ¬ lane.Selected (i j)) →
      lane.view (trace q i n) = hex7seg (lane.nibble (i k).writedata)) ∧
    (∀ r n, r < n → (i r).resetn = false → (∀ j, r < j → j < n → ¬ lane.Selected (i j)) →
      lane.view (trace q i n) = 0#7) ∧
    (∀ n, (∀ j < n, (i j).resetn = true ∧ ¬ lane.Selected (i j)) →
      lane.view (trace q i n) = lane.view q) ∧
    ∀ n, (i n).resetn = true →
      (¬ lane.Selected (i n) → lane.view (trace q i (n + 1)) = lane.view (trace q i n)) ∧
      (trace q i (n + 1)).extractLsb' 28 3 = (trace q i n).extractLsb' 28 3 ∧
      (trace q i (n + 1)).extractLsb' 45 3 = (trace q i n).extractLsb' 45 3 := by
  refine ⟨fun k n hkn hsel hno => ?_, fun r n hrn hr hno => view_cleared q hrn hr hno,
    fun n hno => view_kept q (Nat.zero_le n) fun j _ hj => hno j hj, fun n hr => ?_⟩
  · rw [view_kept q hkn hno, trace_succ, view_step, hsel.1, if_neg (by decide), if_pos hsel]
  · have hgap : ∀ a, a = 28 ∨ a = 45 → ∀ lane : Lane, a + 3 ≤ lane.group ∨ lane.group + 14 ≤ a := by
      rintro a (rfl | rfl) lane <;> cases lane <;> decide
    refine ⟨fun hs => ?_, outside_step hr (by decide) (hgap 28 (Or.inl rfl)),
      outside_step hr (by decide) (hgap 45 (Or.inr rfl))⟩
    rw [trace_succ, view_step, hr, if_neg (by decide), if_neg hs]

/-- A write of 0x12 to address 1, and then nothing. -/
def wroteTwelve (n : ℕ) : Reg32In :=
  { address := true, write := decide (n = 0), chipselect := decide (n = 0), writedata := 0x12#32,
    byteenable := 1#4 }

theorem last_write_wins_twelve :
    Lane.hex0.view (trace 0#48 wroteTwelve 9) = hex7seg 2#4 ∧
      Lane.hex1.view (trace 0#48 wroteTwelve 9) = hex7seg 1#4 ∧
      Lane.hex4.view (trace 0#48 wroteTwelve 9) = 0#7 := by
  have hidle : ∀ lane : Lane, ∀ j, 0 < j → j < 9 →
      (wroteTwelve j).resetn = true ∧ ¬ lane.Selected (wroteTwelve j) := fun lane j h0 _ =>
    ⟨rfl, fun hs => by simp [Lane.Selected, wroteTwelve, h0.ne'] at hs⟩
  refine ⟨(last_write_wins 0#48 wroteTwelve .hex0).1 0 9 (by decide) (by decide) (hidle _),
    (last_write_wins 0#48 wroteTwelve .hex1).1 0 9 (by decide) (by decide) (hidle _), ?_⟩
  refine (last_write_wins 0#48 wroteTwelve .hex4).2.2.1 9 fun j hj => ?_
  rcases Nat.eq_zero_or_pos j with rfl | h0
  · decide
  · exact hidle .hex4 j h0 hj

end Reg32

end ReactionMeter
