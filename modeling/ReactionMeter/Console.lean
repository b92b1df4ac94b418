import ReactionMeter.Lib.CString
import ReactionMeter.Lib.Machine

/-!
# The console

`receive` and `console`, the same code in both applications. `receive` copies a line of the terminal
into a static array of ten bytes: it never checks the index and writes no terminator, so what the
array holds behind the line is left from earlier calls. `console` looks for a command in it, cuts
the argument out in place and posts a pointer into the array.

A result `none` says that the code has left the array.

* `receive_eq_some`: `receive` on a line.
* `receive_safe_iff` says which input keeps `receive` and its readers inside the array.
* `console_accepts_iff` says on which lines the console accepts its command language.
-/

namespace ReactionMeter

/-- `static char payload[10]`. -/
structure Payload where
  bytes : List UInt8
  size : bytes.length = 10
  deriving DecidableEq

/-- `'\n'`. -/
def newline : UInt8 := 10

/-- The key `console` looks for. -/
def key : List UInt8 := [110, 97, 109, 101]

/-- A line of the terminal, as it is typed before the newline. -/
structure Line where
  text : List UInt8
  isLine : newline ∉ text

/-- What `getchar` returns for a line, call by call. -/
def Line.bytes (line : Line) : List UInt8 := line.text ++ [newline]

namespace Payload

/-- The array at boot. -/
def zero : Payload := ⟨List.replicate 10 0, List.length_replicate⟩

/-- `payload[i] = data`. -/
def store (p : Payload) (i : ℕ) (data : UInt8) : Option Payload :=
  if i < 10 then some ⟨p.bytes.set i data, by rw [List.length_set, p.size]⟩ else none

/-- The string at `payload + i`. -/
def string (p : Payload) (i : ℕ) : Option (List UInt8) := CString.cstr 0 (p.bytes.drop i)

/-- `strtok(payload + 5, "\n")`. -/
def tokenize (p : Payload) : Option Payload :=
  match h : CString.strtok 0 [newline] (p.bytes.drop 5) with
  | none => none
  | some name => some ⟨p.bytes.take 5 ++ name, by
      rw [List.length_append, CString.strtok_length h, ← List.length_append, List.take_append_drop,
        p.size]⟩

end Payload

/-- The loop of `receive` on pending input, from `payload[i]` on. -/
def receive (p : Payload) (i : ℕ) : List UInt8 → Option Payload
  | [] => some p
  | data :: input =>
    (p.store i data).bind fun p => if data = newline then some p else receive p (i + 1) input

/-- What the body of `console` does with a line. -/
inductive Action
  /-- `OSQPost` of the pointer `payload + i`. -/
  | post (i : ℕ)
  /-- `printf` of an unknown command. -/
  | unknown (command : List UInt8)
  deriving DecidableEq, Repr

/-- The body of `console` on the next line. -/
def console (p : Payload) (line : Line) : Option (Payload × Action) :=
  (receive p 0 line.bytes).bind fun p =>
    match CString.strstr 0 key p.bytes with
    | none => none
    | some (some _) => p.tokenize.map fun p => (p, .post 5)
    | some none => (p.string 0).map fun command => (p, .unknown command)

/-! ## The array -/

namespace Payload

theorem ext {p q : Payload} (h : p.bytes = q.bytes) : p = q := by
  cases p; cases q; congr

theorem store_ne_none {p : Payload} {i : ℕ} (data : UInt8) (hi : i < 10) :
    ∃ p', p.store i data = some p' := by
  simp [store, hi]

/-- A byte that is stored follows the bytes before it, and nothing behind it changes. -/
theorem store_spec {p p' : Payload} {i : ℕ} {data : UInt8} (h : p.store i data = some p') :
    i < 10 ∧ p'.bytes.take (i + 1) = p.bytes.take i ++ [data] ∧
      ∀ k, i < k → p'.bytes.drop k = p.bytes.drop k := by
  unfold store at h
  split_ifs at h with hi
  cases h
  refine ⟨hi, ?_, fun k hk => List.drop_set_of_lt hk⟩
  have hlen : i < (p.bytes.set i data).length := by simpa [p.size] using hi
  rw [List.take_succ_eq_append_getElem hlen, List.take_set_of_le le_rfl, List.getElem_set_self]

theorem tokenize_eq_some {p p' : Payload} :
    p.tokenize = some p' ↔
      ∃ name, CString.strtok 0 [newline] (p.bytes.drop 5) = some name ∧
        p'.bytes = p.bytes.take 5 ++ name := by
  unfold tokenize
  split
  · next h => simp [h]
  · next name h =>
    rw [Option.some.injEq]
    constructor
    · rintro rfl
      exact ⟨name, h, rfl⟩
    · rintro ⟨name', hname, hp⟩
      obtain rfl := Option.some.inj (h.symm.trans hname)
      exact ext hp.symm

theorem tokenize_keeps_nul {p p' : Payload} (h : p.tokenize = some p') {k : ℕ} (hk : 5 ≤ k)
    (h0 : 0 ∈ p.bytes.drop k) : 0 ∈ p'.bytes.drop k := by
  obtain ⟨name, hname, hp⟩ := tokenize_eq_some.mp h
  obtain ⟨j, rfl⟩ := Nat.exists_eq_add_of_le hk
  have hlen : (p.bytes.take 5).length = 5 := by simp [p.size]
  rw [hp, ← List.drop_drop, List.drop_left' hlen]
  exact CString.strtok_keeps_nul hname (by rwa [List.drop_drop])

theorem tokenize_ne_none {p : Payload} (h : 0 ∈ p.bytes.drop 5) : p.tokenize ≠ none := by
  unfold tokenize
  split
  · next h0 => exact absurd h0 (CString.strtok_ne_none h)
  · simp

end Payload

/-! ## `receive` -/

/-- The loop on the rest of a line: the bytes go to the array one behind the other. -/
theorem receive_rest (p : Payload) {i : ℕ} {text : List UInt8} (htext : newline ∉ text)
    {p' : Payload} :
    receive p i (text ++ [newline]) = some p' ↔
      i + text.length < 10 ∧
        p'.bytes = p.bytes.take i ++ (text ++ newline :: p.bytes.drop (i + text.length + 1)) := by
  induction text generalizing p i with
  | nil =>
    by_cases hi : i < 10
    · obtain ⟨q, hq⟩ := Payload.store_ne_none (p := p) newline hi
      obtain ⟨-, htake, hdrop⟩ := Payload.store_spec hq
      have hbytes : q.bytes = p.bytes.take i ++ newline :: p.bytes.drop (i + 1) := by
        rw [← List.take_append_drop (i + 1) q.bytes, htake, hdrop _ (Nat.lt_succ_self i)]
        simp
      have hlast : receive p i ([] ++ [newline]) = some q := by simp [receive, hq]
      rw [hlast, Option.some.injEq]
      simp only [hi, List.nil_append, List.length_nil, Nat.add_zero, true_and, ← hbytes]
      exact ⟨fun h => h ▸ rfl, fun h => (Payload.ext h).symm⟩
    · simp [receive, Payload.store, hi]
  | cons data text ih =>
    have hdata : data ≠ newline := fun h => htext (h ▸ List.mem_cons_self)
    have htext : newline ∉ text := fun h => htext (List.mem_cons_of_mem data h)
    by_cases hi : i < 10
    · obtain ⟨q, hq⟩ := Payload.store_ne_none (p := p) data hi
      obtain ⟨-, htake, hdrop⟩ := Payload.store_spec hq
      rw [List.cons_append, receive, hq, Option.bind_some, if_neg hdata, ih q htext, htake,
        hdrop _ (by omega)]
      simp [Nat.add_assoc, Nat.add_comm 1]
    · simp [receive, Payload.store, hi]
      omega

theorem receive_eq_some {p p' : Payload} {line : Line} :
    receive p 0 line.bytes = some p' ↔
      line.bytes.length ≤ 10 ∧ p'.bytes = line.bytes ++ p.bytes.drop line.bytes.length := by
  unfold Line.bytes
  rw [receive_rest p line.isLine]
  simp only [Nat.zero_add, List.take_zero, List.nil_append, List.length_append,
    List.length_singleton, List.append_assoc, List.singleton_append, Nat.succ_le_iff]

theorem receive_fits (p : Payload) {line : Line} (hlen : line.bytes.length ≤ 10) :
    ∃ p', receive p 0 line.bytes = some p' ∧
      p'.bytes = line.bytes ++ p.bytes.drop line.bytes.length := by
  let p' : Payload := ⟨line.bytes ++ p.bytes.drop line.bytes.length, by
    rw [List.length_append, List.length_drop, p.size]; omega⟩
  exact ⟨p', receive_eq_some.mpr ⟨hlen, rfl⟩, rfl⟩

@[simp] theorem Line.length_bytes (line : Line) : line.bytes.length = line.text.length + 1 := by
  simp [Line.bytes]

theorem zero_notMem_key : (0 : UInt8) ∉ key := by decide

theorem key_ne_nil : key ≠ [] := by decide

/-! ## The array is left -/

/-- `receive` stays inside the array, and so do the readers of what it returns: the array holds a
terminator. -/
def Safe (p : Payload) (line : Line) : Prop :=
  ∃ p', receive p 0 line.bytes = some p' ∧ 0 ∈ p'.bytes ∧
    CString.strstr 0 key p'.bytes ≠ none ∧ p'.string 0 ≠ none

/-- The line and its newline fit, and there is a terminator in the line or left behind it. -/
def Fits (p : Payload) (line : Line) : Prop :=
  line.bytes.length ≤ 10 ∧ (0 ∈ line.text ∨ 0 ∈ p.bytes.drop line.bytes.length)

/-- The array `console` goes into its next `receive` with. -/
def consoleStep (p : Payload) (line : Line) : Option Payload := (console p line).map Prod.fst

theorem safe_iff (p : Payload) (line : Line) : Safe p line ↔ Fits p line := by
  have hmem : ∀ p' : Payload, p'.bytes = line.bytes ++ p.bytes.drop line.bytes.length →
      (0 ∈ p'.bytes ↔ 0 ∈ line.text ∨ 0 ∈ p.bytes.drop line.bytes.length) := by
    intro p' hp
    have hline : 0 ∈ line.bytes ↔ 0 ∈ line.text := by
      simp [Line.bytes, newline]
    rw [hp, List.mem_append, hline]
  constructor
  · intro hsafe
    obtain ⟨p', hp', hnul, -⟩ := hsafe
    obtain ⟨hlen, hbytes⟩ := receive_eq_some.mp hp'
    exact ⟨hlen, (hmem p' hbytes).mp hnul⟩
  · intro hfits
    obtain ⟨hlen, hnul⟩ := hfits
    obtain ⟨p', hp', hbytes⟩ := receive_fits p hlen
    have hnul : 0 ∈ p'.bytes := (hmem p' hbytes).mpr hnul
    refine ⟨p', hp', hnul, ?_, ?_⟩
    · exact CString.strstr_ne_none zero_notMem_key hnul
    · rw [Payload.string, List.drop_zero]
      exact fun h => CString.cstr_eq_none.mp h hnul

/-- A short line leaves the last byte of the array alone, and `console` comes back for the next. -/
theorem consoleStep_short {p : Payload} {line : Line} (hlen : line.bytes.length ≤ 9)
    (h9 : 0 ∈ p.bytes.drop 9) : ∃ p', consoleStep p line = some p' ∧ 0 ∈ p'.bytes.drop 9 := by
  obtain ⟨q, hq, hbytes⟩ := receive_fits p (hlen.trans (by decide))
  have hq9 : 0 ∈ q.bytes.drop 9 := by
    rw [hbytes, List.drop_append, List.drop_drop, Nat.add_sub_cancel' hlen]
    exact List.mem_append_right _ h9
  have hq5 : 0 ∈ q.bytes.drop 5 := by
    have hdrop : q.bytes.drop 9 = (q.bytes.drop 5).drop 4 := by rw [List.drop_drop]
    exact List.mem_of_mem_drop (hdrop ▸ hq9)
  unfold consoleStep console
  rw [hq, Option.bind_some]
  cases hfind : CString.strstr 0 key q.bytes with
  | none => exact absurd hfind (CString.strstr_ne_none zero_notMem_key (List.mem_of_mem_drop hq9))
  | some found =>
    cases found with
    | some k =>
      obtain ⟨p', hp'⟩ := Option.ne_none_iff_exists'.mp (Payload.tokenize_ne_none hq5)
      refine ⟨p', ?_, Payload.tokenize_keeps_nul hp' (by decide) hq9⟩
      simp [hp']
    | none =>
      obtain ⟨x, hx, -⟩ := (CString.strstr_eq_absent zero_notMem_key key_ne_nil).mp hfind
      exact ⟨q, by simp [Payload.string, hx], hq9⟩

theorem along_safe_iff {p : Payload} (h9 : 0 ∈ p.bytes.drop 9) {lines : List Line}
    (hnul : ∀ line ∈ lines, 0 ∉ line.text) :
    Machine.Along consoleStep Safe p lines ↔ ∀ line ∈ lines, line.bytes.length ≤ 9 := by
  induction lines generalizing p with
  | nil => simp [Machine.Along]
  | cons line lines ih =>
    obtain ⟨hline, hlines⟩ := List.forall_mem_cons.mp hnul
    rw [Machine.Along, List.forall_mem_cons, safe_iff]
    constructor
    · intro hrun
      obtain ⟨⟨hlen, hterm⟩, halong⟩ := hrun
      have hlen9 : line.bytes.length ≤ 9 := by
        by_contra hgt
        have hfull : line.bytes.length = 10 := by omega
        have hterm := hterm.resolve_left hline
        rw [hfull, List.drop_eq_nil_of_le p.size.le] at hterm
        exact absurd hterm List.not_mem_nil
      obtain ⟨p', hp', hp9⟩ := consoleStep_short hlen9 h9
      exact ⟨hlen9, (ih hp9 hlines).mp (halong p' hp')⟩
    · intro hshort
      obtain ⟨hlen9, hrest⟩ := hshort
      refine ⟨⟨hlen9.trans (by decide), Or.inr ?_⟩, fun q hq => ?_⟩
      · have hdrop : p.bytes.drop 9 =
            (p.bytes.drop line.bytes.length).drop (9 - line.bytes.length) := by
          rw [List.drop_drop, Nat.add_sub_cancel' hlen9]
        exact List.mem_of_mem_drop (hdrop ▸ h9)
      · obtain ⟨p', hp', hp9⟩ := consoleStep_short hlen9 h9
        obtain rfl := Option.some.inj (hp'.symm.trans hq)
        exact (ih hp9 hlines).mpr hrest

/-- **When `receive` stays inside its buffer.** For any lines, from boot: every call of `receive`
stays inside the array and returns one with a terminator if and only if at every call the line fits
and there is a terminator in it or left behind it. Lines without terminators of their own have to be
shorter than the array by a byte. -/
theorem receive_safe_iff (lines : List Line) :
    (Machine.Along consoleStep Safe .zero lines ↔ Machine.Along consoleStep Fits .zero lines) ∧
    ((∀ line ∈ lines, 0 ∉ line.text) →
      (Machine.Along consoleStep Safe .zero lines ↔ ∀ line ∈ lines, line.bytes.length ≤ 9)) := by
  have hsafe : Safe = Fits := by
    funext p line
    exact propext (safe_iff p line)
  exact ⟨by rw [hsafe], along_safe_iff (by decide)⟩

/-- A line as long as the array runs over its end. -/
theorem receive_overruns : ¬ ∀ lines : List Line, Machine.Along consoleStep Safe .zero lines := by
  intro hall
  have hsafe := (hall [⟨List.replicate 10 65, by decide⟩]).1
  exact absurd ((safe_iff _ _).mp hsafe).1 (by decide)

/-! ## The command language -/

/-- `name ` and a text. -/
def IsName (line : Line) (x : List UInt8) : Prop := line.text = key ++ 32 :: x ∧ x ≠ []

/-- On a line `name X` a pointer to the string `X` is posted, and any other line is reported as
unknown. -/
def AcceptsLanguage (line : Line) : Prop :=
  (∀ x, IsName line x →
    ∃ p, console .zero line = some (p, .post 5) ∧ p.string 5 = some x) ∧
  ((∀ x, ¬ IsName line x) → ∃ p command, console .zero line = some (p, .unknown command))

theorem strstr_key (rest : List UInt8) :
    ∃ k, CString.strstr 0 key (key ++ rest) = some (some k) :=
  CString.strstr_found key_ne_nil (List.not_mem_nil (a := (0 : UInt8))) rest

theorem tokenize_name {p : Payload} {x rest : List UInt8} (hx : x ≠ []) (hnul : 0 ∉ x)
    (hnl : newline ∉ x) (hp : p.bytes = key ++ 32 :: (x ++ newline :: rest)) :
    ∃ p', p.tokenize = some p' ∧ p'.string 5 = some x := by
  have hdrop : p.bytes.drop 5 = x ++ newline :: rest := by rw [hp]; rfl
  have htok : CString.strtok 0 [newline] (p.bytes.drop 5) = some (x ++ 0 :: rest) := by
    rw [hdrop]
    refine CString.strtok_token rest hx hnul (fun c hc => ?_) List.mem_cons_self (by decide)
    exact fun h => hnl (List.mem_singleton.mp h ▸ hc)
  have hlen : (p.bytes.take 5).length = 5 := by simp [p.size]
  have hsize : (p.bytes.take 5 ++ (x ++ 0 :: rest)).length = 10 := by
    rw [List.length_append, CString.strtok_length htok, ← List.length_append,
      List.take_append_drop, p.size]
  refine ⟨⟨_, hsize⟩, Payload.tokenize_eq_some.mpr ⟨_, htok, rfl⟩, ?_⟩
  rw [Payload.string, List.drop_left' hlen]
  exact CString.cstr_nul rest hnul

theorem console_unknown {p p' : Payload} {line : Line} {command : List UInt8}
    (h : console p line = some (p', .unknown command)) :
    receive p 0 line.bytes = some p' ∧ CString.strstr 0 key p'.bytes = some none := by
  obtain ⟨q, hq, h⟩ := Option.bind_eq_some_iff.mp h
  cases hfind : CString.strstr 0 key q.bytes with
  | none => simp [hfind] at h
  | some found =>
    cases found with
    | some k => simp [hfind] at h
    | none =>
      simp only [hfind, Option.map_eq_some_iff, Prod.mk.injEq] at h
      obtain ⟨-, -, rfl, -⟩ := h
      exact ⟨hq, hfind⟩

/-- A line `name X` is accepted, also where it fills the array. -/
theorem console_name {line : Line} {x : List UInt8} (hlen : line.bytes.length ≤ 10)
    (hnul : 0 ∉ line.text) (h : IsName line x) :
    ∃ p, console .zero line = some (p, .post 5) ∧ p.string 5 = some x := by
  obtain ⟨htext, hx⟩ := h
  obtain ⟨q, hq, hbytes⟩ := receive_fits .zero hlen
  obtain ⟨rest, hrest⟩ : ∃ rest, q.bytes = key ++ 32 :: (x ++ newline :: rest) := by
    refine ⟨Payload.zero.bytes.drop line.bytes.length, ?_⟩
    rw [hbytes, Line.bytes, htext]
    simp
  have hmem : ∀ c ∈ x, c ∈ line.text := fun c hc => by
    rw [htext]
    exact List.mem_append_right _ (List.mem_cons_of_mem _ hc)
  obtain ⟨p, hp, hstring⟩ := tokenize_name hx (fun h => hnul (hmem 0 h))
    (fun h => line.isLine (hmem newline h)) hrest
  obtain ⟨k, hk⟩ := strstr_key (32 :: (x ++ newline :: rest))
  refine ⟨p, ?_, hstring⟩
  rw [← hrest] at hk
  simp [console, hq, hk, hp]

theorem key_infix_bytes (line : Line) : key <:+: line.bytes ↔ key <:+: line.text := by
  have hlast : ¬ key <:+ line.text ++ [newline] := by
    intro h
    rcases List.suffix_concat_iff.mp h with h | ⟨t, h, -⟩
    · exact absurd h key_ne_nil
    · have hmem : newline ∈ key := h ▸ List.mem_append_right t List.mem_cons_self
      exact absurd hmem (by decide)
  rw [Line.bytes, List.infix_concat_iff, or_iff_right hlast]

/-- **Where the console accepts its command language.** On a line of at most ten bytes with its
newline, read into the fresh array: if and only if it is `name X`, or the key is nowhere in it and
it is shorter than the array. -/
theorem console_accepts_iff {line : Line} (hlen : line.bytes.length ≤ 10) (hnul : 0 ∉ line.text) :
    AcceptsLanguage line ↔
      (∃ x, IsName line x) ∨ ¬ key <:+: line.text ∧ line.bytes.length ≤ 9 := by
  by_cases hname : ∃ x, IsName line x
  · refine iff_of_true ⟨fun x hx => console_name hlen hnul hx, fun hno => ?_⟩ (Or.inl hname)
    obtain ⟨x, hx⟩ := hname
    exact absurd hx (hno x)
  · have hlang : AcceptsLanguage line ↔
        ∃ p command, console .zero line = some (p, .unknown command) :=
      ⟨fun h => h.2 fun x hx => hname ⟨x, hx⟩,
        fun h => ⟨fun x hx => absurd ⟨x, hx⟩ hname, fun _ => h⟩⟩
    rw [hlang, or_iff_right hname]
    have hbnul : 0 ∉ line.bytes := by simp [Line.bytes, newline, hnul]
    constructor
    · intro hreport
      obtain ⟨p, command, hp⟩ := hreport
      obtain ⟨hq, habsent⟩ := console_unknown hp
      obtain ⟨-, hbytes⟩ := receive_eq_some.mp hq
      obtain ⟨y, hy, hkey⟩ := (CString.strstr_eq_absent zero_notMem_key key_ne_nil).mp habsent
      rw [hbytes, CString.cstr_append _ hbnul] at hy
      obtain ⟨y, hy, rfl⟩ := Option.map_eq_some_iff.mp hy
      refine ⟨fun h => hkey ?_, ?_⟩
      · exact ((key_infix_bytes line).mpr h).trans (List.prefix_append _ y).isInfix
      · by_contra hgt
        rw [List.drop_eq_nil_of_le (by rw [Payload.size]; omega)] at hy
        cases hy
    · intro hplain
      obtain ⟨hkey, hlen9⟩ := hplain
      obtain ⟨q, hq, hbytes⟩ := receive_fits .zero hlen
      have hzero : Payload.zero.bytes.drop line.bytes.length =
          0 :: List.replicate (9 - line.bytes.length) 0 := by
        rw [Payload.zero, List.drop_replicate, ← List.replicate_succ]
        congr 1
        omega
      have hstring : CString.cstr 0 q.bytes = some line.bytes := by
        rw [hbytes, hzero]
        exact CString.cstr_nul _ hbnul
      have habsent := (CString.strstr_eq_absent zero_notMem_key key_ne_nil).mpr
        ⟨_, hstring, fun h => hkey ((key_infix_bytes line).mp h)⟩
      exact ⟨q, line.bytes, by simp [console, hq, habsent, Payload.string, hstring]⟩

theorem console_accepts_name : AcceptsLanguage ⟨key ++ [32, 65, 66], by decide⟩ :=
  (console_accepts_iff (by decide) (by decide)).mpr (Or.inl ⟨[65, 66], rfl, by decide⟩)

/-- `xname` is accepted too, with an argument that is not there. -/
theorem console_accepts_more :
    ¬ ∀ line : Line, line.bytes.length ≤ 10 → 0 ∉ line.text → AcceptsLanguage line := by
  intro hall
  have hlang := hall ⟨120 :: key, by decide⟩ (by decide) (by decide)
  have hname : ∀ x, ¬ IsName ⟨120 :: key, by decide⟩ x := fun x hx => by
    have hhead := congrArg List.head? hx.1
    simp [key] at hhead
  obtain ⟨p, command, hp⟩ := hlang.2 hname
  have hpost : (console .zero ⟨120 :: key, by decide⟩).map Prod.snd = some (.post 5) := by decide
  rw [hp] at hpost
  simp at hpost

end ReactionMeter
