/-
**UTF-8 byte strings, as Rust's `str` checks, searches and slices them.**

* `utf8Valid` — the check of `String::from_utf8`: the well-formed byte sequences of the Unicode
  standard, read one byte at a time by the decoder `utf8Step` (`Utf8State` is what it still owes
  of a character), which refuses overlong forms, surrogates and anything past U+10FFFF;
* `isCharBoundary` — `str::is_char_boundary`: the start, the end, or a byte that does not continue
  a character; `&s[..i]` and `&s[i..]` panic anywhere else (`sliceTo`, `sliceFrom`);
* `findSub` — `str::find` with a string pattern: the first position at which the pattern occurs
  (`findSub_eq_some_iff`, `findSub_eq_none_iff`).

The decoder runs over a concatenation as over its parts (`utf8Run_append`), which gives the two
facts slicing needs:

* **`utf8Valid_append_right`** — a valid string whose head is valid has a valid rest, so the end
  of a valid head is a char boundary (`isCharBoundary_append`);
* **`utf8Valid_split_ascii`** — an ASCII byte of a valid string is a whole character: what comes
  before and after it is valid.
-/

import Mathlib

namespace Ipc.Lib

/-! ### Well-formed byte sequences -/

/-- `10xxxxxx`: a byte that continues a character. -/
def isContinuation (b : UInt8) : Bool := 0x80 ≤ b && b ≤ 0xBF

/-- What the decoder still owes of a character: nothing, one to three continuation bytes, or the
second byte of the lead bytes whose second byte has a narrower range. -/
inductive Utf8State
  | start
  | tail1
  | tail2
  | tail3
  | afterE0
  | afterED
  | afterF0
  | afterF4
  deriving DecidableEq, Repr

/-- One byte through the decoder, following the table of well-formed byte sequences. -/
def utf8Step : Utf8State → UInt8 → Option Utf8State
  | .start, b =>
    if b < 0x80 then some .start
    else if 0xC2 ≤ b ∧ b ≤ 0xDF then some .tail1
    else if b = 0xE0 then some .afterE0
    else if 0xE1 ≤ b ∧ b ≤ 0xEC then some .tail2
    else if b = 0xED then some .afterED
    else if 0xEE ≤ b ∧ b ≤ 0xEF then some .tail2
    else if b = 0xF0 then some .afterF0
    else if 0xF1 ≤ b ∧ b ≤ 0xF3 then some .tail3
    else if b = 0xF4 then some .afterF4
    else none
  | .tail1, b => if isContinuation b then some .start else none
  | .tail2, b => if isContinuation b then some .tail1 else none
  | .tail3, b => if isContinuation b then some .tail2 else none
  | .afterE0, b => if 0xA0 ≤ b ∧ b ≤ 0xBF then some .tail1 else none
  | .afterED, b => if 0x80 ≤ b ∧ b ≤ 0x9F then some .tail1 else none
  | .afterF0, b => if 0x90 ≤ b ∧ b ≤ 0xBF then some .tail2 else none
  | .afterF4, b => if 0x80 ≤ b ∧ b ≤ 0x8F then some .tail2 else none

/-- The decoder over a run of bytes; `none` once it refuses one. -/
def utf8Run : Utf8State → List UInt8 → Option Utf8State
  | q, [] => some q
  | q, b :: rest => (utf8Step q b).bind fun q' => utf8Run q' rest

/-- `String::from_utf8`'s check: the decoder reads the whole string and ends between characters. -/
def utf8Valid (bs : List UInt8) : Bool := utf8Run .start bs == some .start

/-- `str::is_char_boundary`. -/
def isCharBoundary (bs : List UInt8) (i : Nat) : Bool :=
  i == 0 ||
    match bs[i]? with
    | none => i == bs.length
    | some b => !isContinuation b

/-- `&s[i..]`: `none` where Rust panics. -/
def sliceFrom (bs : List UInt8) (i : Nat) : Option (List UInt8) :=
  if isCharBoundary bs i then some (bs.drop i) else none

/-- `&s[..i]`: `none` where Rust panics. -/
def sliceTo (bs : List UInt8) (i : Nat) : Option (List UInt8) :=
  if isCharBoundary bs i then some (bs.take i) else none

/-- `str::find` with a string pattern: the first position at which `needle` occurs. -/
def findSub (needle : List UInt8) : List UInt8 → Option Nat
  | [] => if needle.isPrefixOf [] then some 0 else none
  | b :: rest => if needle.isPrefixOf (b :: rest) then some 0 else (findSub needle rest).map (· + 1)

example : utf8Valid [0x61, 0xC3, 0xA9] = true ∧ utf8Valid [0xC0, 0x80] = false ∧
    utf8Valid [0xED, 0xA0, 0x80] = false ∧ utf8Valid [0xF4, 0x90, 0x80, 0x80] = false := by
  decide

/-! ### The decoder -/

section Decoder

theorem utf8Run_append (q : Utf8State) (xs ys : List UInt8) :
    utf8Run q (xs ++ ys) = (utf8Run q xs).bind fun q' => utf8Run q' ys := by
  induction xs generalizing q with
  | nil => rfl
  | cons b rest ih =>
    simp only [List.cons_append, utf8Run]
    cases utf8Step q b with
    | none => rfl
    | some q' => exact ih q'

theorem utf8Valid_iff (bs : List UInt8) : utf8Valid bs = true ↔ utf8Run .start bs = some .start := by
  rw [utf8Valid, beq_iff_eq]

/-- An ASCII byte is refused everywhere but between characters. -/
theorem utf8Step_ascii {b : UInt8} (ascii : b < 0x80) (q : Utf8State) :
    utf8Step q b = if q = .start then some .start else none := by
  have small : b.toNat < 128 := UInt8.lt_iff_toNat_lt.mp ascii
  cases q <;>
    simp only [utf8Step, isContinuation, if_pos ascii, reduceCtorEq, if_true, if_false,
      UInt8.le_iff_toNat_le, Bool.and_eq_true, decide_eq_true_eq, UInt8.toNat_ofNat] <;>
    split_ifs <;> first | rfl | omega

/-- A continuation byte cannot start a character. -/
theorem utf8Step_start_continuation {b : UInt8} (continues : isContinuation b = true) :
    utf8Step .start b = none := by
  simp only [isContinuation, Bool.and_eq_true, decide_eq_true_eq, UInt8.le_iff_toNat_le,
    UInt8.toNat_ofNat] at continues
  simp only [utf8Step, UInt8.lt_iff_toNat_lt, UInt8.le_iff_toNat_le, UInt8.toNat_ofNat]
  split_ifs <;> first | rfl | omega | (subst_vars; simp_all)

/-- Inside a character only continuation bytes are taken. -/
theorem isContinuation_of_utf8Step {q q' : Utf8State} {b : UInt8} (inside : q ≠ .start)
    (step : utf8Step q b = some q') : isContinuation b = true := by
  cases q <;>
    simp only [utf8Step, isContinuation, UInt8.le_iff_toNat_le, UInt8.toNat_ofNat,
      Bool.and_eq_true, decide_eq_true_eq] at step ⊢ <;>
    split_ifs at step <;> first | exact absurd rfl inside | omega

/-- A byte past ASCII that starts a character leaves the decoder inside it. -/
theorem utf8Step_start_lead {q : Utf8State} {b : UInt8} (lead : 0x80 ≤ b)
    (step : utf8Step .start b = some q) : q ≠ .start := by
  have wide : 128 ≤ b.toNat := UInt8.le_iff_toNat_le.mp lead
  simp only [utf8Step, UInt8.lt_iff_toNat_lt, UInt8.toNat_ofNat] at step
  split_ifs at step <;> first | omega | (cases step; exact nofun)

/-- **A character of a valid string that does not start with an ASCII byte goes on with a
continuation byte.** -/
theorem utf8Valid_lead {a : UInt8} {rest : List UInt8} (valid : utf8Valid (a :: rest) = true)
    (lead : 0x80 ≤ a) : ∃ c more, rest = c :: more ∧ isContinuation c = true := by
  rw [utf8Valid_iff, utf8Run] at valid
  cases first : utf8Step .start a with
  | none =>
    rw [first] at valid
    cases valid
  | some q =>
    rw [first, Option.bind_some] at valid
    have inside := utf8Step_start_lead lead first
    cases rest with
    | nil => exact absurd (Option.some.inj valid) inside
    | cons c more =>
      rw [utf8Run] at valid
      cases second : utf8Step q c with
      | none =>
        rw [second] at valid
        cases valid
      | some q' => exact ⟨c, more, rfl, isContinuation_of_utf8Step inside second⟩

/-- A valid string does not start with a continuation byte. -/
theorem not_isContinuation_of_utf8Valid {b : UInt8} {rest : List UInt8}
    (valid : utf8Valid (b :: rest) = true) : isContinuation b = false := by
  by_contra continues
  rw [utf8Valid_iff, utf8Run, utf8Step_start_continuation (by simpa using continues)] at valid
  cases valid

/-- **A valid string whose head is valid has a valid rest.** -/
theorem utf8Valid_append_right {xs ys : List UInt8} (whole : utf8Valid (xs ++ ys) = true)
    (head : utf8Valid xs = true) : utf8Valid ys = true := by
  rw [utf8Valid_iff] at whole head ⊢
  rw [utf8Run_append, head] at whole
  exact whole

theorem utf8Valid_append {xs ys : List UInt8} (head : utf8Valid xs = true)
    (rest : utf8Valid ys = true) : utf8Valid (xs ++ ys) = true := by
  rw [utf8Valid_iff] at head rest ⊢
  rw [utf8Run_append, head]
  exact rest

/-- **An ASCII byte of a valid string is a whole character**: the bytes before it and after it
are valid. -/
theorem utf8Valid_split_ascii {xs ys : List UInt8} {a : UInt8} (ascii : a < 0x80)
    (whole : utf8Valid (xs ++ a :: ys) = true) : utf8Valid xs = true ∧ utf8Valid ys = true := by
  rw [utf8Valid_iff, utf8Run_append] at whole
  cases before : utf8Run .start xs with
  | none =>
    rw [before] at whole
    cases whole
  | some q =>
    rw [before, Option.bind_some, utf8Run, utf8Step_ascii ascii] at whole
    by_cases between : q = .start
    · subst between
      exact ⟨(utf8Valid_iff xs).mpr before, (utf8Valid_iff ys).mpr whole⟩
    · rw [if_neg between] at whole
      cases whole

end Decoder

/-! ### Char boundaries -/

section Boundaries

/-- **The end of a valid head of a valid string is a char boundary.** -/
theorem isCharBoundary_append {xs ys : List UInt8} (whole : utf8Valid (xs ++ ys) = true)
    (head : utf8Valid xs = true) : isCharBoundary (xs ++ ys) xs.length = true := by
  have rest := utf8Valid_append_right whole head
  rw [isCharBoundary, List.getElem?_append_right le_rfl, Nat.sub_self]
  cases ys with
  | nil => simp
  | cons c more =>
    simp only [List.getElem?_cons_zero, not_isContinuation_of_utf8Valid rest, Bool.not_false,
      Bool.or_true]

/-- The position after an ASCII byte of a valid string is a char boundary. -/
theorem isCharBoundary_after_ascii {xs ys : List UInt8} {a : UInt8} (ascii : a < 0x80)
    (whole : utf8Valid (xs ++ a :: ys) = true) :
    isCharBoundary (xs ++ a :: ys) (xs.length + 1) = true := by
  obtain ⟨before, after⟩ := utf8Valid_split_ascii ascii whole
  have single : utf8Valid [a] = true := by
    rw [utf8Valid_iff, utf8Run, utf8Step_ascii ascii, if_pos rfl]
    rfl
  have split : xs ++ a :: ys = (xs ++ [a]) ++ ys := by simp
  rw [split]
  have length : xs.length + 1 = (xs ++ [a]).length := by simp
  rw [length]
  exact isCharBoundary_append (split ▸ whole) (utf8Valid_append before single)

/-- The position after an ASCII byte found inside a valid string is a char boundary. -/
theorem isCharBoundary_after_ascii_at {bs rest : List UInt8} {a : UInt8} {i : Nat}
    (ascii : a < 0x80) (valid : utf8Valid bs = true) (found : bs.drop i = a :: rest) :
    isCharBoundary bs (i + 1) = true := by
  have inside : i < bs.length := by
    by_contra past
    rw [List.drop_eq_nil_of_le (by omega)] at found
    cases found
  have split : bs = bs.take i ++ a :: rest := by rw [← found, List.take_append_drop]
  have length : (bs.take i).length = i := List.length_take_of_le (by omega)
  have boundary := isCharBoundary_after_ascii ascii (split ▸ valid)
  rwa [length, ← split] at boundary

/-- The position of a continuation byte is not a char boundary. -/
theorem isCharBoundary_continuation {bs rest : List UInt8} {a c : UInt8} {i : Nat}
    (found : bs.drop i = a :: c :: rest) (continues : isContinuation c = true) :
    isCharBoundary bs (i + 1) = false := by
  have byte : bs[i + 1]? = some c := by
    have second := congrArg (·[1]?) found
    simpa only [List.getElem?_drop, List.getElem?_cons_succ, List.getElem?_cons_zero] using second
  simp only [isCharBoundary, byte, continues, Bool.not_true, Bool.or_false]
  exact beq_false_of_ne (Nat.succ_ne_zero i)

end Boundaries

/-! ### Searching -/

section Search

theorem findSub_eq_some_iff {needle : List UInt8} :
    ∀ {hay : List UInt8} {i : Nat},
      findSub needle hay = some i ↔ needle <+: hay.drop i ∧ ∀ j < i, ¬ needle <+: hay.drop j
  | [], i => by
    rw [findSub]
    by_cases empty : needle.isPrefixOf []
    · have nil : needle = [] := by simpa using empty
      subst nil
      rw [if_pos empty]
      constructor
      · rintro ⟨⟩
        exact ⟨List.nil_prefix, fun j below => absurd below (Nat.not_lt_zero j)⟩
      · rintro ⟨-, first⟩
        cases i with
        | zero => rfl
        | succ i => exact absurd List.nil_prefix (first 0 (by omega))
    · rw [if_neg empty]
      have never : ¬ needle <+: [] := fun found => empty (List.isPrefixOf_iff_prefix.mpr found)
      simp only [List.drop_nil, reduceCtorEq, false_iff, not_and]
      exact fun found => absurd found never
  | b :: rest, i => by
    rw [findSub]
    by_cases here : needle.isPrefixOf (b :: rest)
    · rw [if_pos here]
      have found := List.isPrefixOf_iff_prefix.mp here
      constructor
      · rintro ⟨⟩
        exact ⟨found, fun j below => absurd below (Nat.not_lt_zero j)⟩
      · rintro ⟨-, first⟩
        cases i with
        | zero => rfl
        | succ i => exact absurd found (first 0 (by omega))
    · rw [if_neg here]
      have notHere : ¬ needle <+: b :: rest := fun found =>
        here (List.isPrefixOf_iff_prefix.mpr found)
      cases i with
      | zero =>
        simp only [Option.map_eq_some_iff, Nat.add_eq_zero_iff, one_ne_zero, and_false,
          exists_const, List.drop_zero, false_iff, not_and]
        exact fun found => absurd found notHere
      | succ i =>
        rw [Option.map_eq_some_iff]
        constructor
        · rintro ⟨k, later, same⟩
          obtain rfl : k = i := by omega
          obtain ⟨found, first⟩ := findSub_eq_some_iff.mp later
          refine ⟨found, fun j below => ?_⟩
          cases j with
          | zero => exact notHere
          | succ j => exact first j (by omega)
        · rintro ⟨found, first⟩
          exact ⟨i, findSub_eq_some_iff.mpr ⟨found, fun j below => first (j + 1) (by omega)⟩, rfl⟩

theorem findSub_eq_none_iff {needle : List UInt8} :
    ∀ {hay : List UInt8}, findSub needle hay = none ↔ ∀ j, ¬ needle <+: hay.drop j
  | [] => by
    rw [findSub]
    by_cases empty : needle.isPrefixOf []
    · rw [if_pos empty]
      simp only [reduceCtorEq, List.drop_nil, false_iff, not_forall, not_not]
      exact ⟨0, List.isPrefixOf_iff_prefix.mp empty⟩
    · rw [if_neg empty]
      simp only [List.drop_nil, true_iff]
      exact fun _ found => empty (List.isPrefixOf_iff_prefix.mpr found)
  | b :: rest => by
    rw [findSub]
    by_cases here : needle.isPrefixOf (b :: rest)
    · rw [if_pos here]
      simp only [reduceCtorEq, false_iff, not_forall, not_not]
      exact ⟨0, List.isPrefixOf_iff_prefix.mp here⟩
    · rw [if_neg here, Option.map_eq_none_iff, findSub_eq_none_iff]
      constructor
      · intro never j
        cases j with
        | zero => exact fun found => here (List.isPrefixOf_iff_prefix.mpr found)
        | succ j => exact never j
      · exact fun never j => never (j + 1)

end Search

end Ipc.Lib
