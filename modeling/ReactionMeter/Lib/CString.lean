import Mathlib.Data.List.Forall2
import Mathlib.Data.List.Infix
import Mathlib.Tactic.Common

/-!
# Strings in memory

A region of memory is a list of characters. A string starts at the first character of the region
and ends before the first `nul`. Functions of `string.h` read from the left and know nothing of the
region's end: a result `none` says that they read outside.

* `cstr_eq_some`: the string of a region.
* `strstr_eq_absent`, `strstr_found`: when `strstr` answers, and what.
* `strtok_token`: `strtok` on a token and its delimiter.
* `strtok_string`: the string that is left after `strtok`, whatever the region holds.
* `infix_append_cons_iff`: a needle does not reach over a character it has not.
* `strstr_ne_none`, `strtok_ne_none`: in a region that holds a string they stay inside.
-/

namespace CString

variable {α : Type*} [DecidableEq α] (nul : α)

/-! ## The string at the start of a region -/

/-- The characters before the first `nul`. -/
def cstr : List α → Option (List α)
  | [] => none
  | c :: m => if c = nul then some [] else (cstr m).map (c :: ·)

variable {nul}

@[simp] theorem cstr_append {x : List α} (m : List α) (hx : nul ∉ x) :
    cstr nul (x ++ m) = (cstr nul m).map (x ++ ·) := by
  induction x with
  | nil => simp
  | cons c x ih =>
    have hc : c ≠ nul := fun h => hx (h ▸ List.mem_cons_self)
    rw [List.cons_append, cstr, if_neg hc, ih fun h => hx (List.mem_cons_of_mem c h),
      Option.map_map]
    rfl

theorem cstr_nul {x : List α} (m : List α) (hx : nul ∉ x) :
    cstr nul (x ++ nul :: m) = some x := by
  simp [hx, cstr]

theorem cstr_eq_some {m x : List α} :
    cstr nul m = some x ↔ nul ∉ x ∧ ∃ rest, m = x ++ nul :: rest := by
  constructor
  · intro h
    induction m generalizing x with
    | nil => cases h
    | cons c m ih =>
      rw [cstr] at h
      split_ifs at h with hc
      · cases h
        exact ⟨List.not_mem_nil, m, by rw [hc, List.nil_append]⟩
      · obtain ⟨y, hy, rfl⟩ := Option.map_eq_some_iff.mp h
        obtain ⟨hnul, rest, rfl⟩ := ih hy
        exact ⟨by simp [hnul, Ne.symm hc], rest, rfl⟩
  · intro hparts
    obtain ⟨hx, rest, rfl⟩ := hparts
    exact cstr_nul rest hx

theorem cstr_takeWhile {m : List α} (hm : nul ∈ m) :
    cstr nul m = some (m.takeWhile fun c => c ≠ nul) := by
  induction m with
  | nil => cases hm
  | cons c m ih =>
    by_cases hc : c = nul
    · simp [cstr, hc]
    · have hm := (List.mem_cons.mp hm).resolve_left (Ne.symm hc)
      simp [cstr, hc, ih hm]

/-- A region without `nul` holds no string. -/
theorem cstr_eq_none {m : List α} : cstr nul m = none ↔ nul ∉ m := by
  induction m with
  | nil => simp [cstr]
  | cons c m ih =>
    by_cases hc : c = nul
    · simp [cstr, hc]
    · simp [cstr, hc, ih, Ne.symm hc]

/-! ## Needles -/

omit [DecidableEq α] in
/-- A needle lies on one side of a character it has not. -/
theorem infix_append_cons_iff {needle x y : List α} {c : α} (hc : c ∉ needle) :
    needle <:+: x ++ c :: y ↔ needle <:+: x ∨ needle <:+: y := by
  constructor
  · intro h
    induction x with
    | nil =>
      rcases List.infix_cons_iff.mp h with hbegin | hrest
      · cases needle with
        | nil => exact Or.inl List.nil_infix
        | cons a needle =>
          obtain ⟨rfl, -⟩ := List.cons_prefix_cons.mp hbegin
          exact absurd List.mem_cons_self hc
      · exact Or.inr hrest
    | cons d x ih =>
      rcases List.infix_cons_iff.mp h with hbegin | hrest
      · left
        -- Of two beginnings of one list the needle is the shorter: the other reaches up to `c`.
        rcases List.prefix_or_prefix_of_prefix hbegin (List.prefix_append (d :: x) (c :: y)) with
          hshort | hlong
        · exact hshort.isInfix
        · obtain ⟨z, rfl⟩ := hlong
          cases z with
          | nil => rw [List.append_nil]
          | cons e z =>
            have hz : e :: z <+: c :: y := (List.prefix_append_right_inj (d :: x)).mp hbegin
            obtain ⟨rfl, -⟩ := List.cons_prefix_cons.mp hz
            exact absurd (List.mem_append_right _ List.mem_cons_self) hc
      · exact (ih hrest).imp List.infix_cons id
  · rintro (h | h)
    · exact h.trans (List.prefix_append x (c :: y)).isInfix
    · exact h.trans ((List.suffix_cons c y).trans (List.suffix_append x (c :: y))).isInfix

/-! ## `strstr` -/

/-- Comparison of a needle with the region, up to the first difference. -/
def startsWith : List α → List α → Option Bool
  | [], _ => some true
  | _ :: _, [] => none
  | a :: needle, c :: m => if a = c then startsWith needle m else some false

variable (nul)

/-- The place of the first occurrence of the needle in the string, if there is one. -/
def strstr (needle : List α) : List α → Option (Option ℕ)
  | [] => none
  | c :: m =>
    match startsWith needle (c :: m) with
    | none => none
    | some true => some (some 0)
    | some false =>
      if c = nul then some none else (strstr needle m).map (Option.map (· + 1))

variable {nul} {needle : List α}

theorem startsWith_eq_true {m : List α} : startsWith needle m = some true ↔ needle <+: m := by
  induction needle generalizing m with
  | nil => simp [startsWith]
  | cons a needle ih =>
    cases m with
    | nil => simp [startsWith]
    | cons c m =>
      by_cases hac : a = c
      · simp [startsWith, hac, ih, List.cons_prefix_cons]
      · simp [startsWith, hac, List.cons_prefix_cons]

/-- The comparison runs off the region only where the region is a beginning of the needle. -/
theorem startsWith_eq_none {m : List α} :
    startsWith needle m = none ↔ m <+: needle ∧ m.length < needle.length := by
  induction needle generalizing m with
  | nil => simp [startsWith]
  | cons a needle ih =>
    cases m with
    | nil => simp [startsWith]
    | cons c m =>
      by_cases hac : a = c
      · simp [startsWith, hac, ih, List.cons_prefix_cons]
      · simp [startsWith, hac, List.cons_prefix_cons, Ne.symm hac]

/-- `strstr` answers that the needle is absent if the region holds a string without it. -/
theorem strstr_eq_absent (hnul : nul ∉ needle) (hne : needle ≠ []) {m : List α} :
    strstr nul needle m = some none ↔ ∃ x, cstr nul m = some x ∧ ¬ needle <:+: x := by
  induction m with
  | nil => simp [strstr, cstr]
  | cons c m ih =>
    rw [strstr]
    cases hstart : startsWith needle (c :: m) with
    | none =>
      -- The rest of the region is part of the needle, so it holds no `nul`.
      obtain ⟨hbegin, -⟩ := startsWith_eq_none.mp hstart
      have hm : cstr nul (c :: m) = none := cstr_eq_none.mpr fun h => hnul (hbegin.subset h)
      simp [hm]
    | some b =>
      cases b with
      | true =>
        have hbegin := startsWith_eq_true.mp hstart
        apply iff_of_false (by simp)
        intro hstring
        obtain ⟨x, hx, habsent⟩ := hstring
        obtain ⟨rest, hrest⟩ := hbegin
        rw [← hrest, cstr_append rest hnul] at hx
        obtain ⟨y, -, rfl⟩ := Option.map_eq_some_iff.mp hx
        exact habsent (List.prefix_append needle y).isInfix
      | false =>
        have hnot : ¬ needle <+: c :: m := fun h => by
          rw [startsWith_eq_true.mpr h] at hstart
          cases hstart
        by_cases hc : c = nul
        · simp [cstr, hc, hne]
        · have hcons : ∀ x, cstr nul m = some x → (needle <:+: c :: x ↔ needle <:+: x) := by
            intro x hx
            obtain ⟨-, rest, rfl⟩ := cstr_eq_some.mp hx
            rw [List.infix_cons_iff, or_iff_right]
            exact fun h => hnot (h.trans (List.prefix_append (c :: x) _))
          simp only [hc, if_false, cstr, Option.map_eq_some_iff, Option.map_eq_none_iff,
            exists_eq_right, ih]
          constructor
          · intro hrest
            obtain ⟨x, hx, habsent⟩ := hrest
            exact ⟨c :: x, ⟨x, hx, rfl⟩, fun h => habsent ((hcons x hx).mp h)⟩
          · rintro ⟨-, ⟨x, hx, rfl⟩, habsent⟩
            exact ⟨x, hx, fun h => habsent ((hcons x hx).mpr h)⟩

/-- `strstr` finds a needle with no `nul` before it, whatever stands behind. -/
theorem strstr_found (hne : needle ≠ []) {p : List α} (hp : nul ∉ p) (q : List α) :
    ∃ k, strstr nul needle (p ++ (needle ++ q)) = some (some k) := by
  induction p with
  | nil =>
    obtain ⟨a, needle, rfl⟩ := List.exists_cons_of_ne_nil hne
    have hstart := startsWith_eq_true.mpr (List.prefix_append (a :: needle) q)
    refine ⟨0, ?_⟩
    rw [List.nil_append, List.cons_append, strstr, ← List.cons_append, hstart]
  | cons c p ih =>
    obtain ⟨k, hk⟩ := ih fun h => hp (List.mem_cons_of_mem c h)
    have hc : c ≠ nul := fun h => hp (h ▸ List.mem_cons_self)
    rw [List.cons_append, strstr]
    cases hstart : startsWith needle (c :: (p ++ (needle ++ q))) with
    | none =>
      obtain ⟨-, hlt⟩ := startsWith_eq_none.mp hstart
      simp at hlt
      omega
    | some b =>
      cases b with
      | true => exact ⟨0, rfl⟩
      | false => exact ⟨k + 1, by simp [hc, hk]⟩

/-- In a region that holds a string `strstr` stays inside. -/
theorem strstr_ne_none (hnul : nul ∉ needle) {m : List α} (hm : nul ∈ m) :
    strstr nul needle m ≠ none := by
  induction m with
  | nil => cases hm
  | cons c m ih =>
    rw [strstr]
    cases hstart : startsWith needle (c :: m) with
    | none => exact absurd ((startsWith_eq_none.mp hstart).1.subset hm) hnul
    | some b =>
      cases b with
      | true => simp
      | false =>
        by_cases hc : c = nul
        · simp [hc]
        · have hm := (List.mem_cons.mp hm).resolve_left (Ne.symm hc)
          simp [hc, ih hm]

/-! ## `strtok` -/

variable (nul) (delims : List α)

/-- The second half of `strtok`: the delimiter that ends the token becomes `nul`. -/
def endToken : List α → Option (List α)
  | [] => none
  | c :: m =>
    if c = nul then some (c :: m)
    else if c ∈ delims then some (nul :: m)
    else (endToken m).map (c :: ·)

/-- The region after a first call of `strtok`, which skips leading delimiters. -/
def strtok : List α → Option (List α)
  | [] => none
  | c :: m =>
    if c = nul then some (c :: m)
    else if c ∈ delims then (strtok m).map (c :: ·)
    else endToken nul delims (c :: m)

variable {nul delims}

/-- `strtok` writes nothing but `nul`. -/
theorem endToken_writes {m m' : List α} (h : endToken nul delims m = some m') :
    List.Forall₂ (fun c c' => c' = c ∨ c' = nul) m m' := by
  induction m generalizing m' with
  | nil => cases h
  | cons c m ih =>
    have hrefl : List.Forall₂ (fun c c' => c' = c ∨ c' = nul) m m :=
      List.forall₂_same.mpr fun _ _ => Or.inl rfl
    rw [endToken] at h
    split_ifs at h with hc hd
    · cases h
      exact .cons (Or.inl rfl) hrefl
    · cases h
      exact .cons (Or.inr rfl) hrefl
    · obtain ⟨t, ht, rfl⟩ := Option.map_eq_some_iff.mp h
      exact .cons (Or.inl rfl) (ih ht)

theorem strtok_writes {m m' : List α} (h : strtok nul delims m = some m') :
    List.Forall₂ (fun c c' => c' = c ∨ c' = nul) m m' := by
  induction m generalizing m' with
  | nil => cases h
  | cons c m ih =>
    rw [strtok] at h
    split_ifs at h with hc hd
    · cases h
      exact List.forall₂_same.mpr fun _ _ => Or.inl rfl
    · obtain ⟨t, ht, rfl⟩ := Option.map_eq_some_iff.mp h
      exact .cons (Or.inl rfl) (ih ht)
    · exact endToken_writes h

theorem strtok_length {m m' : List α} (h : strtok nul delims m = some m') :
    m'.length = m.length :=
  (strtok_writes h).length_eq.symm

omit [DecidableEq α] in
theorem nul_mem_of_writes {m m' : List α} (h : List.Forall₂ (fun c c' => c' = c ∨ c' = nul) m m')
    (hm : nul ∈ m) : nul ∈ m' := by
  induction h with
  | nil => exact hm
  | cons hc _ ih =>
    rcases List.mem_cons.mp hm with rfl | hm
    · rcases hc with rfl | rfl <;> exact List.mem_cons_self
    · exact List.mem_cons_of_mem _ (ih hm)

/-- A `nul` stays where it is. -/
theorem strtok_keeps_nul {m m' : List α} (h : strtok nul delims m = some m') {k : ℕ}
    (hk : nul ∈ m.drop k) : nul ∈ m'.drop k :=
  nul_mem_of_writes (List.forall₂_drop k (strtok_writes h)) hk

/-- In a region that holds a string `strtok` stays inside. -/
theorem endToken_ne_none {m : List α} (hm : nul ∈ m) : endToken nul delims m ≠ none := by
  induction m with
  | nil => cases hm
  | cons c m ih =>
    rw [endToken]
    split_ifs with hc hd
    · simp
    · simp
    · have hm := (List.mem_cons.mp hm).resolve_left (Ne.symm hc)
      simp [ih hm]

theorem strtok_ne_none {m : List α} (hm : nul ∈ m) : strtok nul delims m ≠ none := by
  induction m with
  | nil => cases hm
  | cons c m ih =>
    rw [strtok]
    split_ifs with hc hd
    · simp
    · have hm := (List.mem_cons.mp hm).resolve_left (Ne.symm hc)
      simp [ih hm]
    · exact endToken_ne_none hm

theorem endToken_token {x : List α} {d : α} (m : List α) (hnul : nul ∉ x)
    (hx : ∀ c ∈ x, c ∉ delims) (hd : d ∈ delims) (hdn : d ≠ nul) :
    endToken nul delims (x ++ d :: m) = some (x ++ nul :: m) := by
  induction x with
  | nil => simp [endToken, hd, hdn]
  | cons c x ih =>
    have hc : c ≠ nul := fun h => hnul (h ▸ List.mem_cons_self)
    rw [List.cons_append, endToken, if_neg hc, if_neg (hx c List.mem_cons_self),
      ih (fun h => hnul (List.mem_cons_of_mem c h)) fun c' h => hx c' (List.mem_cons_of_mem c h)]
    rfl

/-- `strtok` on a token and its delimiter. -/
theorem strtok_token {x : List α} {d : α} (m : List α) (hne : x ≠ []) (hnul : nul ∉ x)
    (hx : ∀ c ∈ x, c ∉ delims) (hd : d ∈ delims) (hdn : d ≠ nul) :
    strtok nul delims (x ++ d :: m) = some (x ++ nul :: m) := by
  obtain ⟨c, x, rfl⟩ := List.exists_cons_of_ne_nil hne
  have hc : c ≠ nul := fun h => hnul (h ▸ List.mem_cons_self)
  rw [List.cons_append, strtok, if_neg hc, if_neg (hx c List.mem_cons_self)]
  exact endToken_token m hnul hx hd hdn

/-- The string of a region after `strtok`: the leading delimiters and the first token. -/
def firstToken (nul : α) (delims m : List α) : List α :=
  m.takeWhile (· ∈ delims) ++
    (m.dropWhile (· ∈ delims)).takeWhile fun c => c ≠ nul ∧ c ∉ delims

theorem endToken_string {m m' : List α} (h : endToken nul delims m = some m') :
    cstr nul m' = some (m.takeWhile fun c => c ≠ nul ∧ c ∉ delims) := by
  induction m generalizing m' with
  | nil => cases h
  | cons c m ih =>
    rw [endToken] at h
    split_ifs at h with hc hd
    · cases h
      simp [cstr, hc]
    · cases h
      simp [cstr, hd]
    · obtain ⟨t, ht, rfl⟩ := Option.map_eq_some_iff.mp h
      simp [cstr, hc, hd, ih ht]

theorem strtok_string (hnul : nul ∉ delims) {m m' : List α} (h : strtok nul delims m = some m') :
    cstr nul m' = some (firstToken nul delims m) := by
  induction m generalizing m' with
  | nil => cases h
  | cons c m ih =>
    rw [strtok] at h
    split_ifs at h with hc hd
    · cases h
      simp [cstr, firstToken, hc, hnul]
    · obtain ⟨t, ht, rfl⟩ := Option.map_eq_some_iff.mp h
      simp [cstr, hc, ih ht, firstToken, hd]
    · rw [endToken_string h, firstToken]
      simp [hd]

theorem firstToken_cons {d : α} (hd : d ∈ delims) (m : List α) :
    firstToken nul delims (d :: m) = d :: firstToken nul delims m := by
  simp [firstToken, hd]

/-- A token that a delimiter ends hides what stands behind it. -/
theorem firstToken_token {x : List α} {d : α} (m : List α) (hne : x ≠ []) (hnul : nul ∉ x)
    (hx : ∀ c ∈ x, c ∉ delims) (hd : d ∈ delims) : firstToken nul delims (x ++ d :: m) = x := by
  obtain ⟨c, x, rfl⟩ := List.exists_cons_of_ne_nil hne
  have hstop : ∀ y : List α, nul ∉ y → (∀ c ∈ y, c ∉ delims) →
      (y ++ d :: m).takeWhile (fun c => c ≠ nul ∧ c ∉ delims) = y := by
    intro y hy hyd
    have hall : ∀ c ∈ y, decide (c ≠ nul ∧ c ∉ delims) = true := fun c hc =>
      decide_eq_true ⟨fun h => hy (h ▸ hc), hyd c hc⟩
    rw [List.takeWhile_append_of_pos hall]
    simp [hd]
  have hc : c ∉ delims := hx c List.mem_cons_self
  have hfirst : firstToken nul delims (c :: x ++ d :: m) =
      (c :: x ++ d :: m).takeWhile fun c => c ≠ nul ∧ c ∉ delims := by
    simp [firstToken, hc]
  rw [hfirst, hstop (c :: x) hnul hx]

end CString
