import ReactionMeter.Console

/-!
# What earlier lines leave in the array

`receive` writes no terminator, so `strstr` and `strtok` go on behind the newline of a line into what
earlier lines have left there. The last byte of the array stays zero as long as every line is
shorter than the array by a byte, so they stop at the latest there.

`console_short` says what a line does on top of such an array: whether it is posted depends on the
string left behind it (`residue`), and what is posted on the first token left there (`argument`).
`judged_alone_iff` compares the array of two histories.
-/

namespace ReactionMeter

namespace Payload

/-- The string behind the first `n` bytes. -/
def residue (p : Payload) (n : ℕ) : List UInt8 := (p.bytes.drop n).takeWhile fun c => c ≠ 0

/-- The string that `strtok` leaves behind the first `n` bytes. -/
def argument (p : Payload) (n : ℕ) : List UInt8 := CString.firstToken 0 [newline] (p.bytes.drop n)

end Payload

/-- The same action: both lines are unknown, or equal strings are posted. -/
def Alike : Payload × Action → Payload × Action → Prop
  | (_, .unknown _), (_, .unknown _) => True
  | (p, .post i), (q, .post j) => p.string i = q.string j
  | (_, .unknown _), (_, .post _) => False
  | (_, .post _), (_, .unknown _) => False

/-- `console` takes the same action on a line, whichever of two arrays it reads it into. -/
def SameAction (p q : Payload) (line : Line) : Prop :=
  ∃ r r', console p line = some r ∧ console q line = some r' ∧ Alike r r'

/-- Two arrays with nothing behind a line that makes a difference: no token that becomes the argument
of a command too short to have one, and no command behind a line without one. -/
structure Residual (p q : Payload) (line : Line) : Prop where
  short : key <:+: line.text → line.bytes.length ≤ 6 →
    p.argument (max 5 line.bytes.length) = q.argument (max 5 line.bytes.length)
  command : ¬ key <:+: line.text →
    (key <:+: p.residue line.bytes.length ↔ key <:+: q.residue line.bytes.length)
  argument : ¬ key <:+: line.text → key <:+: p.residue line.bytes.length →
    p.argument 5 = q.argument 5

variable {p q : Payload} {line : Line}

/-! ## One line -/

theorem drop_line (p : Payload) {n : ℕ} (hn : line.bytes.length ≤ n) :
    (line.bytes ++ p.bytes.drop line.bytes.length).drop n = p.bytes.drop n := by
  rw [List.drop_append, List.drop_eq_nil_of_le hn, List.nil_append, List.drop_drop,
    Nat.add_sub_cancel' hn]

/-- With a zero in the last byte every residue is a string, and ends before it. -/
theorem residue_spec (h9 : 0 ∈ p.bytes.drop 9) {n : ℕ} (hn : n ≤ 9) :
    CString.cstr 0 (p.bytes.drop n) = some (p.residue n) ∧ (p.residue n).length + n ≤ 9 := by
  have hmem : 0 ∈ p.bytes.drop n := by
    rw [← Nat.add_sub_cancel' hn, ← List.drop_drop] at h9
    exact List.mem_of_mem_drop h9
  have hstring := CString.cstr_takeWhile hmem
  refine ⟨hstring, ?_⟩
  obtain ⟨-, rest, hrest⟩ := CString.cstr_eq_some.mp hstring
  have hlen := congrArg List.length hrest
  rw [List.length_drop, p.size, List.length_append, List.length_cons] at hlen
  have hdef : (p.residue n).length = ((p.bytes.drop n).takeWhile fun c => c ≠ 0).length := rfl
  omega

theorem console_short (h9 : 0 ∈ p.bytes.drop 9) (hlen : line.bytes.length ≤ 9)
    (hnul : 0 ∉ line.text) :
    (key <:+: line.text ∨ key <:+: p.residue line.bytes.length →
      ∃ p', console p line = some (p', .post 5) ∧
        p'.string 5 = some (CString.firstToken 0 [newline]
          ((line.bytes ++ p.bytes.drop line.bytes.length).drop 5))) ∧
    (¬ (key <:+: line.text ∨ key <:+: p.residue line.bytes.length) →
      ∃ p' command, console p line = some (p', .unknown command)) := by
  obtain ⟨r, hr, hbytes⟩ := receive_fits p (hlen.trans (by decide))
  have hbnul : 0 ∉ line.bytes := by simp [Line.bytes, newline, hnul]
  have hstring : CString.cstr 0 r.bytes = some (line.bytes ++ p.residue line.bytes.length) := by
    rw [hbytes, CString.cstr_append _ hbnul, (residue_spec h9 hlen).1]
    rfl
  have hkey : key <:+: line.bytes ++ p.residue line.bytes.length ↔
      key <:+: line.text ∨ key <:+: p.residue line.bytes.length := by
    rw [Line.bytes, List.append_assoc, List.singleton_append,
      CString.infix_append_cons_iff (by decide)]
  have hr9 : 0 ∈ r.bytes.drop 9 := by
    rw [hbytes, drop_line p hlen]
    exact h9
  have hfind : CString.strstr 0 key r.bytes = some none ↔
      ¬ (key <:+: line.text ∨ key <:+: p.residue line.bytes.length) := by
    rw [CString.strstr_eq_absent zero_notMem_key key_ne_nil, hstring, ← hkey]
    simp
  refine ⟨fun hin => ?_, fun hout => ?_⟩
  · obtain ⟨k, hk⟩ : ∃ k, CString.strstr 0 key r.bytes = some (some k) := by
      cases h : CString.strstr 0 key r.bytes with
      | none => exact absurd h (CString.strstr_ne_none zero_notMem_key (List.mem_of_mem_drop hr9))
      | some found =>
        cases found with
        | none => exact absurd hin (hfind.mp h)
        | some k => exact ⟨k, rfl⟩
    have hr5 : 0 ∈ r.bytes.drop 5 := by
      have hdrop : r.bytes.drop 9 = (r.bytes.drop 5).drop 4 := by rw [List.drop_drop]
      exact List.mem_of_mem_drop (hdrop ▸ hr9)
    obtain ⟨p', hp'⟩ := Option.ne_none_iff_exists'.mp (Payload.tokenize_ne_none hr5)
    refine ⟨p', by simp [console, hr, hk, hp'], ?_⟩
    obtain ⟨name, hname, hp⟩ := Payload.tokenize_eq_some.mp hp'
    have htake : (r.bytes.take 5).length = 5 := by simp [r.size]
    rw [Payload.string, hp, List.drop_left' htake, ← hbytes]
    exact CString.strtok_string (by decide) hname
  · refine ⟨r, line.bytes ++ p.residue line.bytes.length, ?_⟩
    simp [console, hr, hfind.mpr hout, Payload.string, hstring]

/-! ## The argument -/

theorem length_of_key {x : List UInt8} (h : key <:+: x) : 4 ≤ x.length := h.length_le

/-- A command with an argument hides what stands behind it. -/
theorem firstToken_long (p : Payload) (hlen : 7 ≤ line.bytes.length) (hnul : 0 ∉ line.text) :
    CString.firstToken 0 [newline] ((line.bytes ++ p.bytes.drop line.bytes.length).drop 5) =
      line.text.drop 5 := by
  rw [Line.length_bytes] at hlen
  have hdrop : (line.bytes ++ p.bytes.drop line.bytes.length).drop 5 =
      line.text.drop 5 ++ newline :: p.bytes.drop line.bytes.length := by
    rw [Line.bytes, List.append_assoc, List.drop_append_of_le_length (by omega)]
    rfl
  rw [hdrop]
  refine CString.firstToken_token _ ?_ (fun h => hnul (List.mem_of_mem_drop h)) (fun c hc => ?_)
    List.mem_cons_self
  · intro hnil
    have hzero := congrArg List.length hnil
    rw [List.length_drop, List.length_nil] at hzero
    omega
  · rw [List.mem_singleton]
    rintro rfl
    exact line.isLine (List.mem_of_mem_drop hc)

theorem firstToken_six (p : Payload) (hlen : line.bytes.length = 6) :
    CString.firstToken 0 [newline] ((line.bytes ++ p.bytes.drop line.bytes.length).drop 5) =
      newline :: p.argument 6 := by
  have htext : line.text.length = 5 := by
    rw [Line.length_bytes] at hlen
    omega
  have hdrop : (line.bytes ++ p.bytes.drop line.bytes.length).drop 5 =
      newline :: p.bytes.drop 6 := by
    rw [hlen, Line.bytes, List.append_assoc, List.drop_left' htext]
    rfl
  rw [hdrop, CString.firstToken_cons List.mem_cons_self, Payload.argument]

theorem firstToken_five (p : Payload) (hlen : line.bytes.length ≤ 5) :
    CString.firstToken 0 [newline] ((line.bytes ++ p.bytes.drop line.bytes.length).drop 5) =
      p.argument 5 := by
  rw [drop_line p hlen, Payload.argument]

theorem firstToken_eq_iff (hnul : 0 ∉ line.text) :
    CString.firstToken 0 [newline] ((line.bytes ++ p.bytes.drop line.bytes.length).drop 5) =
        CString.firstToken 0 [newline] ((line.bytes ++ q.bytes.drop line.bytes.length).drop 5) ↔
      (line.bytes.length ≤ 6 →
        p.argument (max 5 line.bytes.length) = q.argument (max 5 line.bytes.length)) := by
  rcases Nat.lt_trichotomy line.bytes.length 6 with hlt | heq | hgt
  · have h5 : line.bytes.length ≤ 5 := Nat.le_of_lt_succ hlt
    rw [firstToken_five p h5, firstToken_five q h5, max_eq_left h5]
    exact ⟨fun h _ => h, fun h => h hlt.le⟩
  · rw [firstToken_six p heq, firstToken_six q heq, heq]
    simp
  · rw [firstToken_long p hgt hnul, firstToken_long q hgt hnul]
    exact iff_of_true rfl fun h => absurd h (Nat.not_le.mpr hgt)

/-! ## Two arrays -/

theorem sameAction_iff (hp9 : 0 ∈ p.bytes.drop 9) (hq9 : 0 ∈ q.bytes.drop 9)
    (hlen : line.bytes.length ≤ 9) (hnul : 0 ∉ line.text) :
    SameAction p q line ↔ Residual p q line := by
  obtain ⟨hpost, hunknown⟩ := console_short hp9 hlen hnul
  obtain ⟨hpost', hunknown'⟩ := console_short hq9 hlen hnul
  have hargument := firstToken_eq_iff (p := p) (q := q) hnul
  -- Both are posted: the strings decide.
  have hboth : key <:+: line.text ∨ key <:+: p.residue line.bytes.length →
      key <:+: line.text ∨ key <:+: q.residue line.bytes.length →
      (SameAction p q line ↔ (line.bytes.length ≤ 6 →
        p.argument (max 5 line.bytes.length) = q.argument (max 5 line.bytes.length))) := by
    intro hin hin'
    obtain ⟨p', hp', hs⟩ := hpost hin
    obtain ⟨q', hq', hs'⟩ := hpost' hin'
    have hsame : SameAction p q line ↔ p'.string 5 = q'.string 5 := by
      simp [SameAction, hp', hq', Alike]
    rw [hsame, hs, hs', Option.some.injEq, hargument]
  by_cases htext : key <:+: line.text
  · rw [hboth (Or.inl htext) (Or.inl htext)]
    exact ⟨fun h => ⟨fun _ => h, fun hno => absurd htext hno, fun hno => absurd htext hno⟩,
      fun h => h.short htext⟩
  · have hlast : key <:+: p.residue line.bytes.length → line.bytes.length ≤ 5 := fun h => by
      have h4 := length_of_key h
      have hsize := (residue_spec hp9 hlen).2
      omega
    by_cases hin : key <:+: p.residue line.bytes.length <;>
      by_cases hin' : key <:+: q.residue line.bytes.length
    · have h5 := hlast hin
      rw [hboth (Or.inr hin) (Or.inr hin'), max_eq_left h5]
      constructor
      · intro h
        exact ⟨fun hyes => absurd hyes htext, fun _ => iff_of_true hin hin',
          fun _ _ => h (h5.trans (by decide))⟩
      · intro h _
        exact h.argument htext hin
    · obtain ⟨p', hp', -⟩ := hpost (Or.inr hin)
      obtain ⟨q', command, hq'⟩ := hunknown' (not_or.mpr ⟨htext, hin'⟩)
      apply iff_of_false
      · simp [SameAction, hp', hq', Alike]
      · exact fun h => hin' ((h.command htext).mp hin)
    · obtain ⟨p', command, hp'⟩ := hunknown (not_or.mpr ⟨htext, hin⟩)
      obtain ⟨q', hq', -⟩ := hpost' (Or.inr hin')
      apply iff_of_false
      · simp [SameAction, hp', hq', Alike]
      · exact fun h => hin ((h.command htext).mpr hin')
    · obtain ⟨p', command, hp'⟩ := hunknown (not_or.mpr ⟨htext, hin⟩)
      obtain ⟨q', command', hq'⟩ := hunknown' (not_or.mpr ⟨htext, hin'⟩)
      apply iff_of_true
      · simp [SameAction, hp', hq', Alike]
      · exact ⟨fun hyes => absurd hyes htext, fun _ => iff_of_false hin hin',
          fun _ h => absurd h hin⟩

/-! ## Two histories -/

theorem exec_short {lines : List Line} (hp9 : 0 ∈ p.bytes.drop 9)
    (hlen : ∀ line ∈ lines, line.bytes.length ≤ 9) :
    ∃ q, Machine.exec consoleStep p lines = some q ∧ 0 ∈ q.bytes.drop 9 := by
  induction lines generalizing p with
  | nil => exact ⟨p, rfl, hp9⟩
  | cons line lines ih =>
    obtain ⟨hline, hlines⟩ := List.forall_mem_cons.mp hlen
    obtain ⟨r, hr, hr9⟩ := consoleStep_short hline hp9
    obtain ⟨q, hq, hq9⟩ := ih hr9 hlines
    exact ⟨q, (Machine.exec_cons hr).trans hq, hq9⟩

/-- **When a line is judged on its own.** After any two histories of lines that are shorter than the
array by a byte, from boot: `console` takes the same action on the next such line if and only if it
contains the key and has an argument, or the two arrays hold the same argument behind it; or it does
not contain the key, and both arrays hold a command behind it, with the same argument, or none
does. -/
theorem judged_alone_iff {lines lines' : List Line} {line : Line}
    (hlines : ∀ l ∈ lines, l.bytes.length ≤ 9) (hlines' : ∀ l ∈ lines', l.bytes.length ≤ 9)
    (hlen : line.bytes.length ≤ 9) (hnul : 0 ∉ line.text) :
    ∃ p q, Machine.exec consoleStep .zero lines = some p ∧
      Machine.exec consoleStep .zero lines' = some q ∧
      (SameAction p q line ↔ Residual p q line) := by
  obtain ⟨p, hp, hp9⟩ := exec_short (p := .zero) (by decide) hlines
  obtain ⟨q, hq, hq9⟩ := exec_short (p := .zero) (by decide) hlines'
  exact ⟨p, q, hp, hq, sameAction_iff hp9 hq9 hlen hnul⟩

/-- `abcdname` leaves nothing behind `name AB`. -/
theorem judged_alone_name :
    ∃ p q, Machine.exec consoleStep .zero [⟨[97, 98, 99, 100] ++ key, by decide⟩] = some p ∧
      Machine.exec consoleStep .zero [] = some q ∧
      SameAction p q ⟨key ++ [32, 65, 66], by decide⟩ := by
  obtain ⟨p, q, hp, hq, hsame⟩ := @judged_alone_iff [⟨[97, 98, 99, 100] ++ key, by decide⟩] []
    ⟨key ++ [32, 65, 66], by decide⟩ (by decide) (by decide) (by decide) (by decide)
  have hkey : key <:+: key ++ [32, 65, 66] := (List.prefix_append key [32, 65, 66]).isInfix
  exact ⟨p, q, hp, hq, hsame.mpr ⟨fun _ h => absurd h (by decide), fun h => absurd hkey h,
    fun h => absurd hkey h⟩⟩

/-- Behind `x` it leaves a command: the line is posted, and at boot it is unknown. -/
theorem line_not_alone :
    ¬ ∀ (lines lines' : List Line) (line : Line),
      (∀ l ∈ lines, l.bytes.length ≤ 9 ∧ 0 ∉ l.text) →
      (∀ l ∈ lines', l.bytes.length ≤ 9 ∧ 0 ∉ l.text) →
      line.bytes.length ≤ 9 → 0 ∉ line.text →
      ∃ p q, Machine.exec consoleStep .zero lines = some p ∧
        Machine.exec consoleStep .zero lines' = some q ∧ SameAction p q line := by
  intro hall
  obtain ⟨p, q, hp, hq, hsame⟩ := hall [⟨[97, 98, 99, 100] ++ key, by decide⟩] []
    ⟨[120], by decide⟩ (by decide) (by decide) (by decide) (by decide)
  obtain rfl : q = .zero := (Option.some.inj hq).symm
  obtain rfl : p = ⟨[97, 98, 99, 100] ++ key ++ [0, 0], by decide⟩ :=
    Option.some.inj (hp.symm.trans (by decide))
  have hcommand := ((sameAction_iff (by decide) (by decide) (by decide) (by decide)).mp hsame).command
    (by decide)
  exact absurd hcommand (by decide)

end ReactionMeter
