import ReactionMeter.App
import ReactionMeter.Console

/-!
# Names on their way to the game

The console task and the game task, which calls `user_register`, the same code in both
applications. `console` posts a pointer to the name it has read to `player_queue`, a queue of two
pointers, and ignores the result of `OSQPost`; `user_register` pends on the queue and copies the
string. The pointer leads into the one array `receive` reads the next line into.

The game task has the higher priority: it runs between any two steps of the console, and if it
waits for a name `OSQPost` runs it at once.

`delivered_iff` says in which runs the names typed reach the game one by one and intact. The
invariant `Owed` follows one name: on its way through the console, or waiting in the array.
-/

namespace ReactionMeter

/-- Where `console` stands: in `receive`, before `strstr`, before `strtok`, before `OSQPost`. -/
inductive ConsolePc
  | reading | parse | tokenize | post
  deriving DecidableEq, Repr

/-- The static array, the registers of the two tasks, and `player_queue`, whose pointers are offsets
into the array. The last three fields record the line being read, the names of the lines read, and
what `player_name` was set to. -/
structure Names where
  payload : Payload := .zero
  i : ℕ := 0
  pc : ConsolePc := .reading
  queue : List ℕ := []
  waiting : Bool := false
  rounds : ℕ := 3
  /-- A read or write outside the array has happened. -/
  fault : Bool := false
  line : List UInt8 := []
  names : List (List UInt8) := []
  copied : List (List UInt8) := []
  deriving DecidableEq

/-- `X`, if the line is `name X`. -/
def nameOf (text : List UInt8) : Option (List UInt8) :=
  if key ++ [32] <+: text ∧ 5 < text.length ∧ 0 ∉ text then some (text.drop 5) else none

namespace Names

/-! ## The two tasks -/

/-- `strcpy(player_name, name)`, and what `user_register` does after it. -/
def copy (s : Names) (name : ℕ) : Names :=
  match s.payload.string name with
  | none => { s with fault := true }
  | some text => { s with copied := s.copied ++ [text], waiting := false, rounds := 0 }

/-- `user_register` from `OSQPend` on. -/
def pend (s : Names) : Names :=
  match s.queue with
  | [] => { s with waiting := true }
  | name :: rest => copy { s with queue := rest } name

/-- `user_register`, with its static counter of rounds. -/
def userRegister (s : Names) : Names :=
  let t := { s with rounds := s.rounds + 1 }
  if s.rounds ≥ 3 then pend t else t

/-- `OSQPost(player_queue, name)`; a full queue drops the pointer. -/
def queuePost (s : Names) (name : ℕ) : Names :=
  if s.waiting = true then copy s name
  else if s.queue.length < maxMsgAmt then { s with queue := s.queue ++ [name] }
  else s

/-- `getchar` returns in `receive`. -/
def getByte (s : Names) (data : UInt8) : Names :=
  match s.payload.store s.i data with
  | none => { s with fault := true }
  | some payload =>
    if data = newline then
      { s with payload, i := s.i + 1, pc := .parse, names := s.names ++ (nameOf s.line).toList }
    else { s with payload, i := s.i + 1, line := s.line ++ [data] }

/-- Back to the head of the loop of `console`. -/
def again (s : Names) : Names := { s with i := 0, pc := .reading, line := [] }

/-- The test of `console`; a command it does not know it prints. -/
def parse (s : Names) : Names :=
  match CString.strstr 0 key s.payload.bytes with
  | none => { s with fault := true }
  | some (some _) => { s with pc := .tokenize }
  | some none => again s

/-- The `strtok` of `console`. -/
def cut (s : Names) : Names :=
  match s.payload.tokenize with
  | none => { s with fault := true }
  | some payload => { s with payload, pc := .post }

inductive Event
  /-- A byte is typed, in a line of at most ten bytes with its newline. -/
  | byte (data : UInt8)
  /-- The console takes its next step on a line. -/
  | console
  /-- The game calls `user_register`. -/
  | userRegister
  deriving DecidableEq, Repr

/-- One event. Nothing is said of what happens after a fault. -/
def step (s : Names) (e : Event) : Option Names :=
  if s.fault = true then none
  else match e with
    | .byte data =>
      if s.pc = .reading ∧ (data = newline ∨ s.i < 9) then some (getByte s data) else none
    | .console =>
      match s.pc with
      | .reading => none
      | .parse => some (parse s)
      | .tokenize => some (cut s)
      | .post => some (queuePost (again s) 5)
    | .userRegister => if s.waiting = true then none else some (userRegister s)

/-- The bytes of a line, typed one after the other, are what `receive` reads. -/
theorem exec_bytes {s : Names} {text : List UInt8} (hs : s.fault = false ∧ s.pc = .reading)
    (htext : newline ∉ text) (hlen : s.i + text.length ≤ 9) {p : Payload}
    (hp : receive s.payload s.i (text ++ [newline]) = some p) :
    Machine.exec step s ((text ++ [newline]).map .byte) =
      some { s with payload := p, i := s.i + text.length + 1, pc := .parse, line := s.line ++ text,
                    names := s.names ++ (nameOf (s.line ++ text)).toList } := by
  obtain ⟨hfault, hpc⟩ := hs
  induction text generalizing s with
  | nil =>
    obtain ⟨q, hq, hrest⟩ := Option.bind_eq_some_iff.mp hp
    obtain rfl : q = p := by simpa using hrest
    simp [Machine.exec, step, getByte, hfault, hpc, hq]
  | cons data text ih =>
    have hdata : data ≠ newline := fun h => htext (h ▸ List.mem_cons_self)
    obtain ⟨q, hq, hrest⟩ := Option.bind_eq_some_iff.mp hp
    rw [if_neg hdata] at hrest
    have hi : s.i < 9 := by simp at hlen; omega
    have hstep : step s (.byte data) =
        some { s with payload := q, i := s.i + 1, line := s.line ++ [data] } := by
      simp [step, getByte, hfault, hpc, hq, hdata, hi]
    have hlen' : s.i + 1 + text.length ≤ 9 := by simp at hlen; omega
    rw [List.cons_append, List.map_cons, Machine.exec_cons hstep,
      ih (s := { s with payload := q, i := s.i + 1, line := s.line ++ [data] })
        (fun h => htext (List.mem_cons_of_mem _ h)) hlen' hrest hfault hpc]
    simp [Nat.add_assoc, Nat.add_comm 1]

/-- The steps that lead to an action. -/
def stepsTo : Action → List Event
  | .post _ => [.console, .console]
  | .unknown _ => [.console]

/-- Where they lead: before the post, or back to the head of the loop. -/
def pcAt : Action → ConsolePc
  | .post _ => .post
  | .unknown _ => .reading

/-- Left alone, the console does with a line what `console` does. -/
theorem exec_console {s : Names} {line : Line} {p : Payload} {a : Action}
    (hs : s.fault = false ∧ s.pc = .reading) (hi : s.i = 0) (hline : s.line = [])
    (hlen : line.bytes.length ≤ 10) (h : console s.payload line = some (p, a)) :
    ∃ t, Machine.exec step s (line.bytes.map .byte ++ stepsTo a) = some t ∧
      t.payload = p ∧ t.pc = pcAt a ∧ t.queue = s.queue ∧ t.copied = s.copied ∧
      t.names = s.names ++ (nameOf line.text).toList := by
  obtain ⟨q, hq, h⟩ := Option.bind_eq_some_iff.mp h
  have hlen9 : s.i + line.text.length ≤ 9 := by simp [hi] at hlen ⊢; omega
  have hbytes := exec_bytes hs line.isLine hlen9 (hi ▸ hq)
  rw [hline, List.nil_append] at hbytes
  unfold Line.bytes
  rw [Machine.exec_append hbytes]
  cases hfind : CString.strstr 0 key q.bytes with
  | none => simp [hfind] at h
  | some found =>
    cases found with
    | some k =>
      simp only [hfind, Option.map_eq_some_iff, Prod.mk.injEq] at h
      obtain ⟨p', hp', rfl, rfl⟩ := h
      simp [stepsTo, pcAt, Machine.exec, step, parse, cut, hs.1, hfind, hp']
    | none =>
      simp only [hfind, Option.map_eq_some_iff, Prod.mk.injEq] at h
      obtain ⟨command, -, rfl, rfl⟩ := h
      simp [stepsTo, pcAt, Machine.exec, step, parse, again, hs.1, hfind]

/-! ## Delivery -/

/-- How many names are on their way through the console: a `name X` that has been read, and whatever
the console is about to post. -/
def inFlight (s : Names) : ℕ :=
  match s.pc with
  | .reading => 0
  | .parse => (nameOf s.line).toList.length
  | .tokenize | .post => 1

/-- The `k`-th text copied is the `k`-th name typed, and each name typed is copied, waits in the
queue, or is on its way, and nothing else is. -/
def Intact (s : Names) : Prop :=
  s.fault = false ∧ s.copied <+: s.names ∧
    s.names.length = s.copied.length + s.queue.length + s.inFlight

/-- Intact, and a registration at this moment would leave it so. -/
def Sound (s : Names) : Prop :=
  Intact s ∧ (s.waiting = false → Intact (pend s))

/-- What an event must not do: a byte typed while a name waits in the queue changes the string the
name is read from; a line that is not `name X` has the key in it, or no terminator behind it. -/
def Keeps (s : Names) (e : Event) : Prop :=
  match e with
  | .byte data =>
    s.queue ≠ [] → ∀ payload, s.payload.store s.i data = some payload →
      payload.string 5 = s.payload.string 5
  | .console =>
    s.pc = .parse →
      nameOf s.line ≠ none ∨ CString.strstr 0 key s.payload.bytes = some none
  | .userRegister => True

instance (s : Names) (e : Event) : Decidable (Keeps s e) :=
  match e with
  | .byte data =>
    match h : s.payload.store s.i data with
    | none => isTrue fun _ p hp => by rw [h] at hp; cases hp
    | some p =>
      decidable_of_iff (s.queue ≠ [] → p.string 5 = s.payload.string 5)
        ⟨fun hkeep hq q hq' => by rw [h] at hq'; cases hq'; exact hkeep hq,
          fun hkeep hq => hkeep hq p h⟩
  | .console => inferInstanceAs (Decidable (_ → _ ∨ _))
  | .userRegister => isTrue trivial

/-! ## Names -/

theorem nameOf_eq_some {text x : List UInt8} :
    nameOf text = some x ↔ text = key ++ 32 :: x ∧ x ≠ [] ∧ 0 ∉ x := by
  unfold nameOf
  constructor
  · intro h
    split_ifs at h with hname
    obtain ⟨⟨y, rfl⟩, hlen, hnul⟩ := hname
    have hy : y = x := Option.some.inj h
    subst hy
    refine ⟨by simp, ?_, fun h0 => hnul (List.mem_append_right _ h0)⟩
    rintro rfl
    exact absurd hlen (by decide)
  · intro hname
    obtain ⟨rfl, hx, hnul⟩ := hname
    have hlen := List.length_pos_of_ne_nil hx
    rw [if_pos]
    · rfl
    · refine ⟨⟨x, by simp⟩, by simp [key]; omega, ?_⟩
      simp [key, hnul]

theorem newline_notMem_name {text x : List UInt8} (hname : nameOf text = some x)
    (htext : newline ∉ text) : newline ∉ x := by
  obtain ⟨rfl, -, -⟩ := nameOf_eq_some.mp hname
  exact fun hmem => htext (List.mem_append_right _ (List.mem_cons_of_mem _ hmem))

/-- The array begins with the line and its newline. -/
def Holds (payload : Payload) (line : List UInt8) : Prop :=
  ∃ rest, payload.bytes = line ++ newline :: rest

theorem strstr_name {payload : Payload} {line x : List UInt8} (hname : nameOf line = some x)
    (h : Holds payload line) : ∃ k, CString.strstr 0 key payload.bytes = some (some k) := by
  obtain ⟨rest, hrest⟩ := h
  obtain ⟨rfl, -, -⟩ := nameOf_eq_some.mp hname
  obtain ⟨k, hk⟩ := strstr_key (32 :: (x ++ newline :: rest))
  refine ⟨k, ?_⟩
  rw [hrest, ← hk]
  simp

theorem newline_mem_string {payload : Payload} {line x y : List UInt8}
    (hname : nameOf line = some x) (h : Holds payload line) (hy : payload.string 5 = some y) :
    newline ∈ y := by
  obtain ⟨rest, hrest⟩ := h
  obtain ⟨rfl, -, hnul⟩ := nameOf_eq_some.mp hname
  have hdrop : payload.bytes.drop 5 = (x ++ [newline]) ++ rest := by
    rw [hrest]
    simp [key]
  have hnul' : (0 : UInt8) ∉ x ++ [newline] := by simp [hnul, newline]
  rw [Payload.string, hdrop, CString.cstr_append rest hnul'] at hy
  obtain ⟨z, -, rfl⟩ := Option.map_eq_some_iff.mp hy
  simp

/-! ## Following a name -/

/-- The name on its way through the console. -/
def flight (s : Names) : List (List UInt8) :=
  match s.pc with
  | .reading => []
  | .parse | .tokenize | .post => (nameOf s.line).toList

/-- What the array holds for the console. -/
def Reads (s : Names) : Prop :=
  match s.pc with
  | .reading => s.i = s.line.length ∧ s.i ≤ 9 ∧ s.payload.bytes.take s.i = s.line
  | .parse => Holds s.payload s.line
  | .tokenize => (∃ x, nameOf s.line = some x) ∧ Holds s.payload s.line
  | .post => ∃ x, nameOf s.line = some x ∧ s.payload.string 5 = some x

section Pc

variable {s : Names}

theorem flight_reading (h : s.pc = .reading) : s.flight = [] := by
  simp [flight, h]

theorem flight_read (h : s.pc ≠ .reading) : s.flight = (nameOf s.line).toList := by
  cases hpc : s.pc with
  | reading => exact absurd hpc h
  | parse | tokenize | post => simp [flight, hpc]

theorem reads_reading (h : s.pc = .reading) :
    Reads s ↔ s.i = s.line.length ∧ s.i ≤ 9 ∧ s.payload.bytes.take s.i = s.line := by
  simp [Reads, h]

theorem reads_parse (h : s.pc = .parse) : Reads s ↔ Holds s.payload s.line := by
  simp [Reads, h]

theorem reads_tokenize (h : s.pc = .tokenize) :
    Reads s ↔ (∃ x, nameOf s.line = some x) ∧ Holds s.payload s.line := by
  simp [Reads, h]

theorem reads_post (h : s.pc = .post) :
    Reads s ↔ ∃ x, nameOf s.line = some x ∧ s.payload.string 5 = some x := by
  simp [Reads, h]

end Pc

/-- The names not copied yet: the one on its way, or the one that waits in the array. -/
inductive Owed (s : Names) : Prop
  | flight (hq : s.queue = []) (hnames : s.names = s.copied ++ s.flight)
  | waits (x : List UInt8) (hq : s.queue = [5]) (hw : s.waiting = false) (hf : s.flight = [])
      (hx : s.payload.string 5 = some x) (hnl : newline ∉ x) (hnames : s.names = s.copied ++ [x])

structure Inv (s : Names) : Prop where
  fault : s.fault = false
  line : newline ∉ s.line
  reads : Reads s
  owed : Owed s

theorem inv_init : Inv {} :=
  ⟨rfl, List.not_mem_nil, ⟨rfl, by decide, rfl⟩, .flight rfl rfl⟩

theorem Inv.inFlight {s : Names} (h : Inv s) : s.inFlight = s.flight.length := by
  unfold Names.inFlight
  cases hpc : s.pc with
  | reading => rw [flight_reading hpc]; rfl
  | parse => rw [flight_read (by simp [hpc])]
  | tokenize =>
    obtain ⟨⟨x, hx⟩, -⟩ := (reads_tokenize hpc).mp h.reads
    rw [flight_read (by simp [hpc]), hx]
    rfl
  | post =>
    obtain ⟨x, hx, -⟩ := (reads_post hpc).mp h.reads
    rw [flight_read (by simp [hpc]), hx]
    rfl

theorem copy_eq {s : Names} {name : ℕ} {text : List UInt8}
    (h : s.payload.string name = some text) :
    copy s name = { s with copied := s.copied ++ [text], waiting := false, rounds := 0 } := by
  rw [copy, h]

theorem pend_empty {s : Names} (h : s.queue = []) : pend s = { s with waiting := true } := by
  unfold pend
  split
  · rfl
  · next hq => rw [h] at hq; cases hq

theorem pend_five {s : Names} (h : s.queue = [5]) : pend s = copy { s with queue := [] } 5 := by
  unfold pend
  split
  · next hq => rw [h] at hq; cases hq
  · next hq =>
    obtain ⟨rfl, rfl⟩ := List.cons.inj (h.symm.trans hq)
    rfl

theorem pend_waits {s : Names} {text : List UInt8} (h : s.queue = [5])
    (ht : s.payload.string 5 = some text) :
    pend s =
      { s with queue := [], copied := s.copied ++ [text], waiting := false, rounds := 0 } :=
  (pend_five h).trans (@copy_eq { s with queue := [] } 5 text ht)

theorem Inv.sound {s : Names} (h : Inv s) : Sound s := by
  have hflight := h.inFlight
  cases h.owed with
  | flight hq hnames =>
    have hintact : Intact s := by
      refine ⟨h.fault, hnames ▸ List.prefix_append _ _, ?_⟩
      rw [hnames, hq, hflight]
      simp
    refine ⟨hintact, fun _ => ?_⟩
    rw [pend_empty hq]
    exact hintact
  | waits x hq hw hf hx hnl hnames =>
    rw [hf] at hflight
    constructor
    · refine ⟨h.fault, hnames ▸ List.prefix_append _ _, ?_⟩
      rw [hnames, hq, hflight]
      simp
    · intro _
      rw [pend_waits hq hx]
      refine ⟨h.fault, by rw [hnames], ?_⟩
      show s.names.length = (s.copied ++ [x]).length + 0 + s.inFlight
      rw [hnames, hflight]
      rfl

/-! ## One event -/

section Keeps

variable {s : Names}

theorem Inv.innerByte (h : Inv s) {data : UInt8} {p : Payload} (hpc : s.pc = .reading)
    (hlt : s.i < 9) (hnl : data ≠ newline) (hp : s.payload.store s.i data = some p)
    (hkeep : s.queue ≠ [] → p.string 5 = s.payload.string 5) :
    Inv { s with payload := p, i := s.i + 1, line := s.line ++ [data] } := by
  obtain ⟨hi, -, htake⟩ := (reads_reading hpc).mp h.reads
  obtain ⟨-, hptake, -⟩ := Payload.store_spec hp
  have hreads : p.bytes.take (s.i + 1) = s.line ++ [data] := by rw [hptake, htake]
  let t : Names := { s with payload := p, i := s.i + 1, line := s.line ++ [data] }
  have htpc : t.pc = .reading := hpc
  refine ⟨h.fault, by simp [h.line, Ne.symm hnl], ?_, ?_⟩
  · exact (reads_reading htpc).mpr ⟨by simp [t, hi], hlt, hreads⟩
  · cases h.owed with
    | flight hq hnames =>
      refine .flight hq (hnames.trans ?_)
      rw [flight_reading hpc, flight_reading htpc]
    | waits x hq hw hf hx hxnl hnames =>
      exact .waits x hq hw (flight_reading htpc) ((hkeep (by simp [hq])).trans hx) hxnl hnames

/-- The newline. A name cannot be completed over a waiting one: the newline would stand in the
string the waiting one is read from. -/
theorem Inv.lastByte (h : Inv s) {p : Payload} (hpc : s.pc = .reading)
    (hp : s.payload.store s.i newline = some p)
    (hkeep : s.queue ≠ [] → p.string 5 = s.payload.string 5) :
    Inv { s with payload := p, i := s.i + 1, pc := .parse,
                 names := s.names ++ (nameOf s.line).toList } := by
  obtain ⟨-, -, htake⟩ := (reads_reading hpc).mp h.reads
  obtain ⟨-, hptake, -⟩ := Payload.store_spec hp
  have hholds : Holds p s.line := by
    refine ⟨p.bytes.drop (s.i + 1), ?_⟩
    calc p.bytes = p.bytes.take (s.i + 1) ++ p.bytes.drop (s.i + 1) :=
          (List.take_append_drop _ _).symm
      _ = s.line ++ newline :: p.bytes.drop (s.i + 1) := by simp [hptake, htake]
  refine ⟨h.fault, h.line, hholds, ?_⟩
  cases h.owed with
  | flight hq hnames =>
    refine .flight hq ?_
    show s.names ++ _ = s.copied ++ _
    rw [hnames, flight_reading hpc, List.append_nil]
    rfl
  | waits x hq hw hf hx hxnl hnames =>
    have hpx : p.string 5 = some x := (hkeep (by simp [hq])).trans hx
    have hnone : nameOf s.line = none := by
      by_contra hsome
      obtain ⟨y, hy⟩ := Option.ne_none_iff_exists'.mp hsome
      exact hxnl (newline_mem_string hy hholds hpx)
    refine .waits x hq hw ?_ hpx hxnl ?_
    · show (nameOf s.line).toList = []
      rw [hnone]
      rfl
    · show s.names ++ (nameOf s.line).toList = s.copied ++ [x]
      rw [hnames, hnone]
      simp

theorem Inv.byte (h : Inv s) {data : UInt8} (hpc : s.pc = .reading)
    (hdata : data = newline ∨ s.i < 9) (hkeep : Keeps s (.byte data)) : Inv (getByte s data) := by
  obtain ⟨-, hle, -⟩ := (reads_reading hpc).mp h.reads
  obtain ⟨p, hp⟩ := Payload.store_ne_none (p := s.payload) data (Nat.lt_succ_of_le hle)
  unfold getByte
  rw [hp]
  by_cases hnl : data = newline
  · subst hnl
    exact h.lastByte hpc hp fun hq => hkeep hq p hp
  · simp only [hnl, if_false]
    exact h.innerByte hpc (hdata.resolve_left hnl) hnl hp fun hq => hkeep hq p hp

theorem Inv.parse (h : Inv s) (hpc : s.pc = .parse) (hkeep : Keeps s .console) :
    Inv (parse s) := by
  have hholds := (reads_parse hpc).mp h.reads
  have hflight : s.flight = (nameOf s.line).toList := flight_read (by simp [hpc])
  unfold Names.parse
  cases hfind : CString.strstr 0 key s.payload.bytes with
  | none =>
    rcases hkeep hpc with hname | habsent
    · obtain ⟨x, hx⟩ := Option.ne_none_iff_exists'.mp hname
      obtain ⟨k, hk⟩ := strstr_name hx hholds
      rw [hfind] at hk
      cases hk
    · rw [hfind] at habsent
      cases habsent
  | some found =>
    cases found with
    | none =>
      have hnone : nameOf s.line = none := by
        by_contra hname
        obtain ⟨x, hx⟩ := Option.ne_none_iff_exists'.mp hname
        obtain ⟨k, hk⟩ := strstr_name hx hholds
        rw [hfind] at hk
        cases hk
      rw [hnone] at hflight
      refine ⟨h.fault, List.not_mem_nil, ⟨rfl, Nat.zero_le 9, rfl⟩, ?_⟩
      cases h.owed with
      | flight hq hnames => exact .flight hq (by rw [hflight] at hnames; exact hnames)
      | waits x hq hw hf hx hxnl hnames => exact .waits x hq hw rfl hx hxnl hnames
    | some k =>
      have hname : ∃ x, nameOf s.line = some x := by
        rcases hkeep hpc with hname | habsent
        · exact Option.ne_none_iff_exists'.mp hname
        · rw [hfind] at habsent
          cases habsent
      refine ⟨h.fault, h.line, ⟨hname, hholds⟩, ?_⟩
      cases h.owed with
      | flight hq hnames => exact .flight hq (by rw [hflight] at hnames; exact hnames)
      | waits x hq hw hf hx hxnl hnames =>
        exact .waits x hq hw (hflight.symm.trans hf) hx hxnl hnames

/-- A name on its way through the console is the only one that is owed. -/
theorem Inv.flying (h : Inv s) {x : List UInt8} (hpc : s.pc ≠ .reading)
    (hx : nameOf s.line = some x) : s.queue = [] ∧ s.names = s.copied ++ [x] := by
  have hflight : s.flight = [x] := by rw [flight_read hpc, hx]; rfl
  cases h.owed with
  | flight hq hnames => exact ⟨hq, hflight ▸ hnames⟩
  | waits y hq hw hf => rw [hf] at hflight; cases hflight

theorem Inv.cut (h : Inv s) (hpc : s.pc = .tokenize) : Inv (cut s) := by
  obtain ⟨⟨x, hx⟩, rest, hrest⟩ := (reads_tokenize hpc).mp h.reads
  obtain ⟨hq, hnames⟩ := h.flying (by simp [hpc]) hx
  obtain ⟨hline, hne, hnul⟩ := nameOf_eq_some.mp hx
  have hname : s.payload.bytes = key ++ 32 :: (x ++ newline :: rest) := by
    rw [hrest, hline]
    simp
  obtain ⟨p, hp, hstring⟩ := tokenize_name hne hnul (newline_notMem_name hx h.line) hname
  have hcut : Names.cut s = { s with payload := p, pc := .post } := by rw [Names.cut, hp]
  rw [hcut]
  refine ⟨h.fault, h.line, ⟨x, hx, hstring⟩, .flight hq ?_⟩
  show s.names = s.copied ++ (nameOf s.line).toList
  rw [hnames, hx]
  rfl

theorem Inv.queuePost (h : Inv s) (hpc : s.pc = .post) : Inv (queuePost (again s) 5) := by
  obtain ⟨x, hx, hstring⟩ := (reads_post hpc).mp h.reads
  obtain ⟨hq, hnames⟩ := h.flying (by simp [hpc]) hx
  have hreads : Reads (again s) := ⟨rfl, Nat.zero_le 9, rfl⟩
  unfold Names.queuePost
  by_cases hw : s.waiting = true
  · rw [if_pos (show (again s).waiting = true from hw), @copy_eq (again s) 5 x hstring]
    refine ⟨h.fault, List.not_mem_nil, hreads, .flight hq ?_⟩
    show s.names = (s.copied ++ [x]) ++ []
    rw [hnames, List.append_nil]
  · have hlen : (again s).queue.length < maxMsgAmt := by
      show s.queue.length < maxMsgAmt
      rw [hq]
      decide
    rw [if_neg (show ¬ (again s).waiting = true from hw), if_pos hlen]
    refine ⟨h.fault, List.not_mem_nil, hreads, ?_⟩
    have hw : s.waiting = false := by simpa using hw
    refine .waits x ?_ hw rfl hstring (newline_notMem_name hx h.line) hnames
    show s.queue ++ [5] = [5]
    rw [hq]
    rfl

theorem Inv.pend (h : Inv s) : Inv (pend s) := by
  cases h.owed with
  | flight hq hnames =>
    rw [pend_empty hq]
    exact ⟨h.fault, h.line, h.reads, .flight hq hnames⟩
  | waits x hq hw hf hx hxnl hnames =>
    rw [pend_waits hq hx]
    refine ⟨h.fault, h.line, h.reads, .flight rfl ?_⟩
    show s.names = (s.copied ++ [x]) ++ s.flight
    rw [hnames, hf, List.append_nil]

/-- The counter of rounds says when to register, and nothing else reads it. -/
theorem Inv.setRounds (h : Inv s) (rounds : ℕ) : Inv { s with rounds } := by
  refine ⟨h.fault, h.line, h.reads, ?_⟩
  cases h.owed with
  | flight hq hnames => exact .flight hq hnames
  | waits x hq hw hf hx hxnl hnames => exact .waits x hq hw hf hx hxnl hnames

theorem Inv.userRegister (h : Inv s) : Inv (userRegister s) := by
  unfold Names.userRegister
  split_ifs
  · exact (h.setRounds (s.rounds + 1)).pend
  · exact h.setRounds (s.rounds + 1)

theorem Inv.step (h : Inv s) {e : Event} (hkeep : Keeps s e) {s' : Names}
    (hs : step s e = some s') : Inv s' := by
  unfold Names.step at hs
  rw [h.fault] at hs
  cases e with
  | byte data =>
    simp only [Bool.false_eq_true, if_false, Option.ite_none_right_eq_some, Option.some.injEq] at hs
    obtain ⟨⟨hpc, hdata⟩, rfl⟩ := hs
    exact h.byte hpc hdata hkeep
  | console =>
    cases hpc : s.pc with
    | reading => simp [hpc] at hs
    | parse =>
      simp only [Bool.false_eq_true, if_false, hpc, Option.some.injEq] at hs
      exact hs ▸ h.parse hpc hkeep
    | tokenize =>
      simp only [Bool.false_eq_true, if_false, hpc, Option.some.injEq] at hs
      exact hs ▸ h.cut hpc
    | post =>
      simp only [Bool.false_eq_true, if_false, hpc, Option.some.injEq] at hs
      exact hs ▸ h.queuePost hpc
  | userRegister =>
    cases hw : s.waiting with
    | true => simp [hw] at hs
    | false =>
      simp only [Bool.false_eq_true, if_false, hw, Option.some.injEq] at hs
      exact hs ▸ h.userRegister

/-- With another string under a waiting name, a registration copies the wrong text. -/
theorem not_sound_of_string {t : Names} {x : List UInt8} {more : List (List UInt8)}
    (hq : t.queue = [5]) (hw : t.waiting = false) (hx : t.payload.string 5 ≠ some x)
    (hnames : t.names = t.copied ++ [x] ++ more) : ¬ Sound t := by
  intro hsound
  obtain ⟨-, hpend⟩ := hsound
  obtain ⟨hfault, hcopied, -⟩ := hpend hw
  cases hy : t.payload.string 5 with
  | none =>
    rw [pend_five hq, copy, hy] at hfault
    cases hfault
  | some y =>
    rw [pend_waits hq hy] at hcopied
    have hcopied : t.copied ++ [y] <+: t.copied ++ [x] ++ more := hnames ▸ hcopied
    rw [List.append_assoc, List.prefix_append_right_inj] at hcopied
    simp at hcopied
    exact hx (hy.trans (congrArg some hcopied))

theorem Inv.broken_byte (h : Inv s) {data : UInt8} (hkeep : ¬ Keeps s (.byte data)) :
    ¬ Sound (getByte s data) := by
  simp only [Keeps, not_forall] at hkeep
  obtain ⟨hq, p, hp, hstring⟩ := hkeep
  cases h.owed with
  | flight hq' _ => exact absurd hq' hq
  | waits x hq hw hf hx hxnl hnames =>
    have hpx : p.string 5 ≠ some x := hx ▸ hstring
    unfold getByte
    rw [hp]
    by_cases hnl : data = newline
    · simp only [hnl, if_true]
      exact not_sound_of_string hq hw hpx (congrArg (· ++ _) hnames)
    · simp only [hnl, if_false]
      exact not_sound_of_string hq hw hpx (hnames.trans (List.append_nil _).symm)

/-- A line that is accepted and is not `name X`, or whose search runs off the array. -/
theorem Inv.broken_parse (h : Inv s) (hpc : s.pc = .parse) (hkeep : ¬ Keeps s .console) :
    ¬ Sound (Names.parse s) := by
  simp only [Keeps, hpc, forall_const, not_or, not_not] at hkeep
  obtain ⟨hname, habsent⟩ := hkeep
  intro hsound
  obtain ⟨⟨hfault, -, hlen⟩, -⟩ := hsound
  unfold Names.parse at hfault hlen
  cases hfind : CString.strstr 0 key s.payload.bytes with
  | none =>
    rw [hfind] at hfault
    cases hfault
  | some found =>
    cases found with
    | none => exact habsent hfind
    | some k =>
      rw [hfind] at hlen
      have hlen : s.names.length = s.copied.length + s.queue.length + 1 := hlen
      have hbefore := h.sound.1.2.2
      have hflight : s.inFlight = 0 := by simp [Names.inFlight, hpc, hname]
      omega

/-- An event that breaks the condition breaks soundness at once. -/
theorem Inv.broken (h : Inv s) {e : Event} (hkeep : ¬ Keeps s e) {s' : Names}
    (hs : Names.step s e = some s') : ¬ Sound s' := by
  unfold Names.step at hs
  rw [h.fault] at hs
  cases e with
  | byte data =>
    simp only [Bool.false_eq_true, if_false, Option.ite_none_right_eq_some, Option.some.injEq] at hs
    obtain ⟨-, rfl⟩ := hs
    exact h.broken_byte hkeep
  | console =>
    by_cases hpc : s.pc = .parse
    · simp only [Bool.false_eq_true, if_false, hpc, Option.some.injEq] at hs
      exact hs ▸ h.broken_parse hpc hkeep
    · exact absurd (fun hparse => absurd hparse hpc) hkeep
  | userRegister => exact absurd trivial hkeep

end Keeps

/-- **When the names are delivered.** In every run in which no byte typed changes the string of a
name that waits, and every line with the key in it is `name X`, the texts copied are the names
typed, in order and none of them lost. The condition is exact: the runs that satisfy it are those
in which a registration at any moment, too, would copy the right name. -/
theorem delivered_iff {events : List Event} {s : Names}
    (hrun : Machine.exec step {} events = some s) :
    (Machine.Along step Keeps {} events → Machine.Through step Intact {} events) ∧
    (Machine.Through step Sound {} events ↔ Machine.Along step Keeps {} events) := by
  have hiff := Machine.through_iff_along (fun s (h : Inv s) => h.sound)
    (fun s e s' h hkeep hs => h.step hkeep hs) (fun s e s' h hkeep hs => h.broken hkeep hs)
    inv_init hrun
  exact ⟨fun halong => (hiff.mpr halong).mono fun s h => h.1, hiff⟩

/-- The events of a line `name X` of one letter, up to `OSQPost`. -/
def typeName (letter : UInt8) : List Event :=
  (key ++ [32, letter, newline]).map .byte ++ [.console, .console, .console]

/-- Two names, each registered before the next is typed. -/
theorem delivered_two :
    Machine.Through step Intact {}
      (typeName 65 ++ .userRegister :: typeName 66 ++ List.replicate 4 .userRegister) :=
  (delivered_iff (s := _) rfl).1 (by decide +kernel)

/-- Two names typed before the first is registered: the second text is registered twice. -/
theorem second_name_replaces :
    ¬ ∀ (events : List Event) (s : Names), Machine.exec step {} events = some s →
      s.copied <+: s.names := by
  intro hall
  have hcopied := hall (typeName 65 ++ typeName 66 ++ [.userRegister]) _ rfl
  exact absurd hcopied (by decide +kernel)

end Names

end ReactionMeter
