import ReactionMeter.SevenSegment

/-!
# What the displays show

`show_score` and `show_tries` are the same code in both applications. Each splits a number into
decimal digits, packs them into nibbles and makes one 32-bit write to the controller: the score to
word 1, the tries to word 0, with all bytes enabled.

`displays_show` follows the digits to the glass: the lanes decode to the digits of the last numbers
written, whatever calls and other traffic came before and in between.
-/

namespace ReactionMeter

namespace Displays

/-! ## The digits -/

/-- `data` in `show_score`. -/
def showScore (score : BitVec 32) : BitVec 32 :=
  let data := score % 10#32
  let data := data ||| (score / 10#32 % 10#32) <<< 4
  let data := data ||| (score / 100#32 % 10#32) <<< 8
  data ||| (score / 1000#32 % 10#32) <<< 12

/-- `data` in `show_tries`. -/
def showTries (tries : BitVec 32) : BitVec 32 :=
  let data := tries % 10#32
  data ||| (tries / 10#32 % 10#32) <<< 4

/-- The `k`-th decimal digit of a number. -/
def digit (x : BitVec 32) (k : ℕ) : BitVec 4 := BitVec.ofNat 4 (x.toNat / 10 ^ k % 10)

theorem digit_toNat (x : BitVec 32) (k : ℕ) : (digit x k).toNat = x.toNat / 10 ^ k % 10 := by
  have hlt : x.toNat / 10 ^ k % 10 < 10 := Nat.mod_lt _ (by decide)
  rw [digit, BitVec.toNat_ofNat, Nat.mod_eq_of_lt (by omega)]

/-- The quotients and remainders of the code are the digits. -/
theorem digit_setWidth (x d : BitVec 32) {k : ℕ} (hd : d.toNat = 10 ^ k) :
    x / d % 10#32 = (digit x k).setWidth 32 := by
  apply BitVec.eq_of_toNat_eq
  have hlt : x.toNat / 10 ^ k % 10 < 10 := Nat.mod_lt _ (by decide)
  rw [BitVec.toNat_setWidth, digit_toNat, BitVec.toNat_umod, BitVec.toNat_udiv, hd,
    Nat.mod_eq_of_lt (b := 2 ^ 32) (by omega)]
  rfl

/-- Four digits side by side. -/
def pack (a b c d : BitVec 4) : BitVec 32 :=
  a.setWidth 32 ||| b.setWidth 32 <<< 4 ||| c.setWidth 32 <<< 8 ||| d.setWidth 32 <<< 12

theorem showScore_eq (x : BitVec 32) :
    showScore x = pack (digit x 0) (digit x 1) (digit x 2) (digit x 3) := by
  have h0 : x % 10#32 = (digit x 0).setWidth 32 := by
    rw [← digit_setWidth x 1#32 rfl, BitVec.udiv_one]
  simp only [showScore, pack, h0, digit_setWidth x 10#32 (k := 1) rfl,
    digit_setWidth x 100#32 (k := 2) rfl, digit_setWidth x 1000#32 (k := 3) rfl]

theorem showTries_eq (x : BitVec 32) : showTries x = pack (digit x 0) (digit x 1) 0#4 0#4 := by
  have h0 : x % 10#32 = (digit x 0).setWidth 32 := by
    rw [← digit_setWidth x 1#32 rfl, BitVec.udiv_one]
  simp only [showTries, pack, h0, digit_setWidth x 10#32 (k := 1) rfl]
  simp

theorem extract_pack (a b c d : BitVec 4) :
    (pack a b c d).extractLsb' 0 4 = a ∧ (pack a b c d).extractLsb' 4 4 = b ∧
      (pack a b c d).extractLsb' 8 4 = c ∧ (pack a b c d).extractLsb' 12 4 = d := by
  unfold pack
  refine ⟨?_, ?_, ?_, ?_⟩
  all_goals
    ext k hk
    simp only [BitVec.getElem_extractLsb', BitVec.getLsbD_or, BitVec.getLsbD_shiftLeft,
      BitVec.getLsbD_setWidth]
    have hcase : k = 0 ∨ k = 1 ∨ k = 2 ∨ k = 3 := by omega
    rcases hcase with rfl | rfl | rfl | rfl <;> simp [BitVec.getLsbD_eq_getElem]

/-! ## The displays -/

/-- The inverse of `hex7seg`: the number a display shows. -/
def decode (display : BitVec 7) : Option ℕ :=
  (List.range 16).find? fun k => hex7seg (BitVec.ofNat 4 k) = display

theorem decode_hex7seg : ∀ hex : BitVec 4, decode (hex7seg hex) = some hex.toNat := by
  decide +kernel

/-- What a display of the register shows. -/
def shown (q : BitVec 48) (lane : Lane) : Option ℕ := decode (lane.view q)

inductive Call
  | showScore (score : BitVec 32)
  | showTries (tries : BitVec 32)
  deriving DecidableEq, Repr

/-- `IOWR_32DIRECT` of a call. -/
def Call.lines : Call → Reg32In
  | .showScore score =>
    { address := true, write := true, chipselect := true, writedata := Displays.showScore score,
      byteenable := 0xF#4 }
  | .showTries tries =>
    { address := false, write := true, chipselect := true, writedata := Displays.showTries tries,
      byteenable := 0xF#4 }

/-- Lines that do not write to the controller. -/
structure Elsewhere where
  lines : Reg32In
  resetn : lines.resetn = true
  quiet : ¬ (lines.chipselect = true ∧ lines.write = true)

/-- A cycle of the bus: a call, or anything that is not for the controller. -/
inductive Cycle
  | call (c : Call)
  | other (e : Elsewhere)

/-- The register after a sequence of cycles. -/
def after (q : BitVec 48) (cs : List Cycle) : BitVec 48 :=
  cs.foldl (fun q c => Reg32.step q (match c with | .call c => c.lines | .other e => e.lines)) q

theorem view_showScore (q : BitVec 48) (score : BitVec 32) (lane : Lane) :
    lane.view (Reg32.step q (Call.showScore score).lines) =
      match lane with
      | .hex0 => hex7seg (digit score 0)
      | .hex1 => hex7seg (digit score 1)
      | .hex2 => hex7seg (digit score 2)
      | .hex3 => hex7seg (digit score 3)
      | .hex4 => Lane.hex4.view q
      | .hex5 => Lane.hex5.view q := by
  obtain ⟨h0, h1, h2, h3⟩ := extract_pack (digit score 0) (digit score 1) (digit score 2)
    (digit score 3)
  rw [Reg32.view_step]
  cases lane <;>
    simp [Call.lines, Lane.Selected, Lane.Addressed, Lane.nibble, showScore_eq, h0, h1, h2, h3]

theorem view_showTries (q : BitVec 48) (tries : BitVec 32) (lane : Lane) :
    lane.view (Reg32.step q (Call.showTries tries).lines) =
      match lane with
      | .hex4 => hex7seg (digit tries 0)
      | .hex5 => hex7seg (digit tries 1)
      | lane => lane.view q := by
  obtain ⟨h0, h1, -, -⟩ := extract_pack (digit tries 0) (digit tries 1) 0#4 0#4
  rw [Reg32.view_step]
  cases lane <;>
    simp [Call.lines, Lane.Selected, Lane.Addressed, Lane.nibble, showTries_eq, h0, h1]

theorem view_after {lane : Lane} {cs : List Cycle} (q : BitVec 48)
    (h : ∀ c, Cycle.call c ∈ cs → ∀ q, lane.view (Reg32.step q c.lines) = lane.view q) :
    lane.view (after q cs) = lane.view q := by
  induction cs generalizing q with
  | nil => rfl
  | cons c cs ih =>
    refine (ih _ fun c hc => h c (List.mem_cons_of_mem _ hc)).trans ?_
    cases c with
    | call c => exact h c List.mem_cons_self q
    | other e => exact congrArg lane.view (Reg32.step_quiet e.resetn e.quiet)

theorem after_append (q : BitVec 48) (c : Call) (before rest : List Cycle) :
    after q (before ++ .call c :: rest) = after (Reg32.step (after q before) c.lines) rest := by
  simp [after]

/-- After the last call that writes a lane, the lane decodes to the digit it was given. -/
theorem shown_last (q : BitVec 48) (before : List Cycle) {rest : List Cycle} {c : Call}
    {lane : Lane} {x : BitVec 32} {k : ℕ}
    (hview : ∀ q, lane.view (Reg32.step q c.lines) = hex7seg (digit x k))
    (hrest : ∀ c, Cycle.call c ∈ rest → ∀ q, lane.view (Reg32.step q c.lines) = lane.view q) :
    shown (after q (before ++ .call c :: rest)) lane = some (x.toNat / 10 ^ k % 10) := by
  rw [after_append, shown, view_after _ hrest, hview, decode_hex7seg, digit_toNat]

theorem shown_tries (q : BitVec 48) (before rest : List Cycle) (tries : BitVec 32)
    (hlast : ∀ t, Cycle.call (.showTries t) ∉ rest) :
    let q' := after q (before ++ .call (.showTries tries) :: rest)
    shown q' .hex4 = some (tries.toNat % 100 % 10) ∧
      shown q' .hex5 = some (tries.toNat % 100 / 10) := by
  have hrest : ∀ lane ∈ [Lane.hex4, .hex5], ∀ c, Cycle.call c ∈ rest →
      ∀ q, lane.view (Reg32.step q c.lines) = lane.view q := by
    intro lane hlane c hc q
    cases c with
    | showScore s => cases lane <;> simp [view_showScore] at hlane ⊢
    | showTries t => exact absurd hc (hlast t)
  have h4 := shown_last q before (fun q => view_showTries q tries .hex4)
    (hrest _ (by decide))
  have h5 := shown_last q before (fun q => view_showTries q tries .hex5)
    (hrest _ (by decide))
  refine ⟨h4.trans (congrArg some ?_), h5.trans (congrArg some ?_)⟩
  all_goals omega

/-- **The displays show what was written**, whatever the register held at the start. After any
cycles, the lower four displays show the four last decimal digits of the score of the last
`show_score`, and the upper two those of the tries of the last `show_tries`. A call of the one
leaves the displays of the other alone. -/
theorem displays_show (q : BitVec 48) (before rest : List Cycle) :
    (∀ score, (∀ s, Cycle.call (.showScore s) ∉ rest) →
      let q' := after q (before ++ .call (.showScore score) :: rest)
      shown q' .hex0 = some (score.toNat % 10000 % 10) ∧
      shown q' .hex1 = some (score.toNat % 10000 / 10 % 10) ∧
      shown q' .hex2 = some (score.toNat % 10000 / 100 % 10) ∧
      shown q' .hex3 = some (score.toNat % 10000 / 1000)) ∧
    (∀ tries, (∀ t, Cycle.call (.showTries t) ∉ rest) →
      let q' := after q (before ++ .call (.showTries tries) :: rest)
      shown q' .hex4 = some (tries.toNat % 100 % 10) ∧
      shown q' .hex5 = some (tries.toNat % 100 / 10)) ∧
    (∀ score, ∀ lane ∈ [Lane.hex4, .hex5],
      shown (after q (before ++ [.call (.showScore score)])) lane = shown (after q before) lane) ∧
    ∀ tries, ∀ lane ∈ [Lane.hex0, .hex1, .hex2, .hex3],
      shown (after q (before ++ [.call (.showTries tries)])) lane =
        shown (after q before) lane := by
  refine ⟨fun score hlast => ?_, fun tries hlast => ?_, ?_, ?_⟩
  · have hrest : ∀ lane ∈ [Lane.hex0, .hex1, .hex2, .hex3], ∀ c, Cycle.call c ∈ rest →
        ∀ q, lane.view (Reg32.step q c.lines) = lane.view q := by
      intro lane hlane c hc q
      cases c with
      | showScore s => exact absurd hc (hlast s)
      | showTries t => cases lane <;> simp [view_showTries] at hlane ⊢
    have h0 := shown_last q before (fun q => view_showScore q score .hex0)
      (hrest _ (by decide))
    have h1 := shown_last q before (fun q => view_showScore q score .hex1)
      (hrest _ (by decide))
    have h2 := shown_last q before (fun q => view_showScore q score .hex2)
      (hrest _ (by decide))
    have h3 := shown_last q before (fun q => view_showScore q score .hex3)
      (hrest _ (by decide))
    refine ⟨h0.trans (congrArg some ?_), h1.trans (congrArg some ?_), h2.trans (congrArg some ?_),
      h3.trans (congrArg some ?_)⟩
    all_goals omega
  · exact shown_tries q before rest tries hlast
  · intro score lane hlane
    rw [after_append]
    cases lane <;> simp [shown, after, view_showScore] at hlane ⊢
  · intro tries lane hlane
    rw [after_append]
    cases lane <;> simp [shown, after, view_showTries] at hlane ⊢

/-- Reset, `show_score(1234)`, `show_tries(56)`. -/
theorem displays_show_both :
    let q' := after (Reg32.step 0#48 { resetn := false })
      [.call (.showScore 1234#32), .call (.showTries 56#32)]
    shown q' .hex0 = some 4 ∧ shown q' .hex3 = some 1 ∧
      shown q' .hex4 = some 6 ∧ shown q' .hex5 = some 5 := by
  have h := displays_show (Reg32.step 0#48 { resetn := false })
  obtain ⟨h0, -, -, h3⟩ := (h [] [.call (.showTries 56#32)]).1 1234#32 (by simp)
  obtain ⟨h4, h5⟩ := (h [.call (.showScore 1234#32)] []).2.1 56#32 (by simp)
  exact ⟨h0, h3, h4, h5⟩

end Displays

end ReactionMeter
