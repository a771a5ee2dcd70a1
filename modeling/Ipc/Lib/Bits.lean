/-
**Machine words as natural numbers: the bit counts of a `w`-bit word.**

A `w`-bit unsigned word is a natural number below `2 ^ w`. Its bitwise operations are those of
`Nat` (`&&&`, `^^^`, `<<<`, `>>>`); the counts Rust's integer types offer are defined here from
`Nat.testBit`.

* `setBits w x` — the positions of the set bits below `w`, highest first: the binary decomposition
  of a word (`sum_setBits`), which splits at any position (`setBits_split`);
* `countOnes`, `trailingZeros`, `leadingZeros`, `complement` — `count_ones`, `trailing_zeros`,
  `leading_zeros` and `!` of a `w`-bit word;
* `setBits_of_trailing`, `setBits_succ` — the rule of a binary counter: a word ends in `t` ones
  (`t` the trailing zeros of its complement, `trailingOnes_complement`), and adding one clears them
  and sets the bit above;
* `highestDifference` — below a greater word, a word agrees with it above their highest differing
  bit, where the greater word has a one and the smaller a zero; `highestDifference_block` — so it
  falls in the block of that bit in the greater word's binary decomposition;
* `checkedSub`, `checkedAdd`, `checkedShl` — the operations of a debug build, `none` where it
  panics.
-/

import Mathlib

namespace Ipc.Lib

/-- The positions below `w` of the set bits of `x`, highest first. -/
def setBits : Nat → Nat → List Nat
  | 0, _ => []
  | w + 1, x => if x.testBit w then w :: setBits w x else setBits w x

/-- `count_ones` of a `w`-bit word. -/
def countOnes (w x : Nat) : Nat := (setBits w x).length

/-- `trailing_zeros` of a `w`-bit word: the position of its lowest set bit, `w` for zero. -/
def trailingZeros : Nat → Nat → Nat
  | 0, _ => 0
  | w + 1, x => if x.testBit 0 then 0 else trailingZeros w (x / 2) + 1

/-- `leading_zeros` of a `w`-bit word. -/
def leadingZeros (w x : Nat) : Nat := if x = 0 then w else w - (x.log2 + 1)

/-- `!x`, the bitwise complement of a `w`-bit word. -/
def complement (w x : Nat) : Nat := 2 ^ w - 1 - x

/-! ### The set bits -/

theorem mem_setBits {w x i : Nat} : i ∈ setBits w x ↔ i < w ∧ x.testBit i = true := by
  induction w with
  | zero => simp [setBits]
  | succ w ih =>
    unfold setBits
    by_cases top : x.testBit w
    · simp only [top, if_true, List.mem_cons, ih]
      constructor
      · rintro (rfl | ⟨below, set⟩)
        · exact ⟨Nat.lt_succ_self _, top⟩
        · exact ⟨by omega, set⟩
      · rintro ⟨below, set⟩
        by_cases same : i = w
        · exact Or.inl same
        · exact Or.inr ⟨by omega, set⟩
    · simp only [top, Bool.false_eq_true, if_false, ih]
      constructor
      · rintro ⟨below, set⟩
        exact ⟨by omega, set⟩
      · rintro ⟨below, set⟩
        have : i ≠ w := fun same => top (same ▸ set)
        exact ⟨by omega, set⟩

/-- The set bits are listed highest first. -/
theorem setBits_pairwise (w x : Nat) : (setBits w x).Pairwise (· > ·) := by
  induction w with
  | zero => simp [setBits]
  | succ w ih =>
    unfold setBits
    split
    · exact List.Pairwise.cons (fun i member => (mem_setBits.mp member).1) ih
    · exact ih

/-- The set bits below `w` read only the bits below `w`. -/
theorem setBits_congr {w x y : Nat} (same : ∀ i < w, x.testBit i = y.testBit i) :
    setBits w x = setBits w y := by
  induction w with
  | zero => rfl
  | succ w ih =>
    have rest := ih fun i below => same i (by omega)
    simp only [setBits, same w (Nat.lt_succ_self w), rest]

/-- The set bits at or above `j` read only the bits at or above `j`. -/
theorem filter_setBits_congr {w x y j : Nat}
    (same : ∀ i, j ≤ i → i < w → x.testBit i = y.testBit i) :
    (setBits w x).filter (fun i => decide (j ≤ i)) = (setBits w y).filter (fun i => decide (j ≤ i)) := by
  induction w with
  | zero => rfl
  | succ w ih =>
    have rest := ih fun i above below => same i above (by omega)
    unfold setBits
    by_cases above : j ≤ w
    · rw [same w above (Nat.lt_succ_self w)]
      split <;> simp [above, rest]
    · -- no set bit below `w + 1` is at or above `j`
      have none : ∀ z, (setBits w z).filter (fun i => decide (j ≤ i)) = [] := fun z =>
        List.filter_eq_nil_iff.mpr fun i member => by
          have := (mem_setBits.mp member).1
          simp only [decide_eq_true_eq]
          omega
      split <;> split <;> simp [above, none]

/-- The set bits split at any position `j ≤ w`: those at or above `j`, then those below. -/
theorem setBits_split {w j : Nat} (x : Nat) (le : j ≤ w) :
    setBits w x = (setBits w x).filter (fun i => decide (j ≤ i)) ++ setBits j x := by
  induction w with
  | zero =>
    obtain rfl : j = 0 := by omega
    rfl
  | succ w ih =>
    by_cases top : j = w + 1
    · subst top
      have none : (setBits (w + 1) x).filter (fun i => decide (w + 1 ≤ i)) = [] :=
        List.filter_eq_nil_iff.mpr fun i member => by
          have := (mem_setBits.mp member).1
          simp only [decide_eq_true_eq]
          omega
      rw [none, List.nil_append]
    · have rest := ih (by omega)
      have above : j ≤ w := by omega
      have unfolded : setBits (w + 1) x = if x.testBit w then w :: setBits w x else setBits w x := rfl
      rw [unfolded]
      split
      · rw [List.filter_cons_of_pos (by simpa using above), List.cons_append, ← rest]
      · exact rest

/-- A word below `2 ^ w` is the sum of the powers of two at its set bits. -/
theorem sum_setBits {w x : Nat} (lt : x < 2 ^ w) : ((setBits w x).map (2 ^ ·)).sum = x := by
  induction w generalizing x with
  | zero =>
    have : x = 0 := by simpa using lt
    simp [setBits, this]
  | succ w ih =>
    unfold setBits
    by_cases top : x.testBit w
    · -- the top bit is set: `x` is `2 ^ w` plus its bits below `w`
      have atLeast : 2 ^ w ≤ x := Nat.ge_two_pow_of_testBit top
      have lower : setBits w x = setBits w (x % 2 ^ w) := setBits_congr fun i below => by
        simp [Nat.testBit_mod_two_pow, below]
      have split : x % 2 ^ w + 2 ^ w = x := by
        have quotient : x / 2 ^ w = 1 :=
          Nat.div_eq_of_lt_le (by omega) (by rw [Nat.pow_succ] at lt; omega)
        have := Nat.div_add_mod x (2 ^ w)
        rw [quotient] at this
        omega
      simp only [top, if_true, List.map_cons, List.sum_cons, lower,
        ih (Nat.mod_lt x (Nat.two_pow_pos w))]
      omega
    · have below : x < 2 ^ w := by
        by_contra atLeast
        exact top (Nat.testBit_of_two_pow_le_and_two_pow_add_one_gt (by omega) lt)
      simpa [top] using ih below

/-- Below a position where every bit is set, the set bits are every position. -/
theorem setBits_of_ones {t x : Nat} (ones : ∀ i < t, x.testBit i = true) :
    setBits t x = (List.range t).reverse := by
  induction t with
  | zero => rfl
  | succ t ih =>
    simp only [setBits, ones t (Nat.lt_succ_self t), if_true, List.range_succ, List.reverse_append,
      List.reverse_singleton, List.singleton_append, ih fun i below => ones i (by omega)]

/-- Below a position where no bit is set, there is no set bit. -/
theorem setBits_of_zeros {t x : Nat} (zeros : ∀ i < t, x.testBit i = false) : setBits t x = [] := by
  induction t with
  | zero => rfl
  | succ t ih =>
    simp [setBits, zeros t (Nat.lt_succ_self t), ih fun i below => zeros i (by omega)]

/-- The set bits of `x % 2 ^ j` in a wider word are the set bits of `x` below `j`. -/
theorem setBits_mod_two_pow {w j : Nat} (x : Nat) (le : j ≤ w) :
    setBits w (x % 2 ^ j) = setBits j x := by
  rw [setBits_split (x % 2 ^ j) le]
  have none : (setBits w (x % 2 ^ j)).filter (fun i => decide (j ≤ i)) = [] :=
    List.filter_eq_nil_iff.mpr fun i member => by
      have := (mem_setBits.mp member).2
      simp only [Nat.testBit_mod_two_pow, Bool.and_eq_true, decide_eq_true_eq] at this
      simp only [decide_eq_true_eq]
      omega
  rw [none, List.nil_append]
  exact setBits_congr fun i below => by simp [Nat.testBit_mod_two_pow, below]

/-! ### Trailing ones and the counter step -/

theorem trailingZeros_le (w y : Nat) : trailingZeros w y ≤ w := by
  induction w generalizing y with
  | zero => exact Nat.le_refl 0
  | succ w ih =>
    unfold trailingZeros
    split
    · omega
    · have := ih (y / 2)
      omega

/-- Below its trailing zeros a word has no set bit, and at them a set bit (unless they are all
of its `w` bits). -/
theorem trailingZeros_spec (w y : Nat) :
    (∀ i < trailingZeros w y, y.testBit i = false) ∧
      (trailingZeros w y < w → y.testBit (trailingZeros w y) = true) := by
  induction w generalizing y with
  | zero => exact ⟨fun i below => absurd below (Nat.not_lt_zero i), fun below => absurd below (by simp [trailingZeros])⟩
  | succ w ih =>
    unfold trailingZeros
    by_cases low : y.testBit 0
    · rw [if_pos low]
      exact ⟨fun i below => absurd below (Nat.not_lt_zero i), fun _ => low⟩
    · rw [if_neg low]
      obtain ⟨zeros, set⟩ := ih (y / 2)
      refine ⟨fun i below => ?_, fun below => ?_⟩
      · cases i with
        | zero => simpa using low
        | succ i => rw [Nat.testBit_add_one]; exact zeros i (by omega)
      · rw [Nat.testBit_add_one]
        exact set (by omega)

theorem testBit_complement {w x : Nat} (lt : x < 2 ^ w) (i : Nat) :
    (complement w x).testBit i = (decide (i < w) && !x.testBit i) := by
  have : complement w x = 2 ^ w - (x + 1) := by unfold complement; omega
  rw [this, Nat.testBit_two_pow_sub_succ lt]

/-- A word ends in as many ones as its complement ends in zeros: every bit below them is set, and
the bit at them (if inside the word) is clear. -/
theorem trailingOnes_complement {w x : Nat} (lt : x < 2 ^ w) :
    (∀ i < trailingZeros w (complement w x), x.testBit i = true) ∧
      (trailingZeros w (complement w x) < w → x.testBit (trailingZeros w (complement w x)) = false) := by
  obtain ⟨zeros, set⟩ := trailingZeros_spec w (complement w x)
  have bound := trailingZeros_le w (complement w x)
  refine ⟨fun i below => ?_, fun inside => ?_⟩
  · have := zeros i below
    rw [testBit_complement lt] at this
    simpa [show i < w by omega] using this
  · have := set inside
    rw [testBit_complement lt, decide_eq_true inside, Bool.true_and] at this
    simpa using this

/-- A word is its set bits above its trailing ones, then the trailing ones themselves. -/
theorem setBits_of_trailing {w x : Nat} (lt : x < 2 ^ w) :
    setBits w x = (setBits w x).filter (fun i => decide (trailingZeros w (complement w x) < i)) ++
      (List.range (trailingZeros w (complement w x))).reverse := by
  obtain ⟨ones, clear⟩ := trailingOnes_complement lt
  set t := trailingZeros w (complement w x) with ht
  conv_lhs => rw [setBits_split x (trailingZeros_le w (complement w x)), setBits_of_ones ones]
  congr 1
  -- the bit at `t` itself is clear, so "at or above `t`" is "above `t`"
  refine List.filter_congr fun i member => ?_
  have inside := mem_setBits.mp member
  have notT : i ≠ t := fun same => by
    have := clear (same ▸ inside.1)
    rw [same] at inside
    simp_all
  simp only [decide_eq_decide]
  omega

/-- **The counter step**: adding one to a word that ends in `t` ones (with a clear bit above them)
clears those ones and sets the bit above. -/
theorem setBits_succ {w x : Nat} (lt : x < 2 ^ w) (room : trailingZeros w (complement w x) < w) :
    setBits w (x + 1) = (setBits w x).filter (fun i => decide (trailingZeros w (complement w x) < i)) ++
      [trailingZeros w (complement w x)] := by
  obtain ⟨ones, clear⟩ := trailingOnes_complement lt
  have clearT := clear room
  set t := trailingZeros w (complement w x) with ht
  -- `x` is its high part, a clear bit at `t`, then `t` ones
  have low : x % 2 ^ (t + 1) = 2 ^ t - 1 := by
    apply Nat.eq_of_testBit_eq
    intro i
    rw [Nat.testBit_mod_two_pow, Nat.testBit_two_pow_sub_one]
    by_cases below : i < t
    · simp [below, ones i below, show i < t + 1 by omega]
    · by_cases same : i = t
      · subst same
        simp [clearT]
      · simp [below, show ¬ i < t + 1 by omega]
  have split : x = 2 ^ (t + 1) * (x / 2 ^ (t + 1)) + (2 ^ t - 1) := by
    have := Nat.div_add_mod x (2 ^ (t + 1))
    omega
  have succSplit : x + 1 = 2 ^ (t + 1) * (x / 2 ^ (t + 1)) + 2 ^ t := by
    have := Nat.one_le_two_pow (n := t)
    omega
  have bitsAbove : ∀ i, t + 1 ≤ i → (x + 1).testBit i = x.testBit i := by
    intro i above
    have lowBound : 2 ^ t < 2 ^ (t + 1) := Nat.pow_lt_pow_right (by omega) (by omega)
    have lowBound' : 2 ^ t - 1 < 2 ^ (t + 1) := by omega
    conv_lhs => rw [succSplit]
    conv_rhs => rw [split]
    rw [Nat.testBit_two_pow_mul_add _ lowBound, Nat.testBit_two_pow_mul_add _ lowBound']
    simp [show ¬ i < t + 1 by omega]
  have bitsBelow : ∀ i < t + 1, (x + 1).testBit i = decide (i = t) := by
    intro i below
    have lowBound : 2 ^ t < 2 ^ (t + 1) := Nat.pow_lt_pow_right (by omega) (by omega)
    rw [succSplit, Nat.testBit_two_pow_mul_add _ lowBound, if_pos below, Nat.testBit_two_pow]
    exact decide_eq_decide.mpr eq_comm
  rw [setBits_split (x + 1) (show t + 1 ≤ w by omega)]
  congr 1
  · rw [filter_setBits_congr (fun i above _ => bitsAbove i above)]
    exact List.filter_congr fun i _ => by simp only [decide_eq_decide]; omega
  · rw [show t + 1 = t.succ from rfl]
    simp only [setBits, bitsBelow t (Nat.lt_succ_self t), decide_true, if_true]
    rw [setBits_of_zeros fun i below => by rw [bitsBelow i (by omega)]; simp; omega]

/-- A word whose bit `e` is clear keeps below `e + 1` only its bits below `e`. -/
theorem mod_two_pow_succ_of_testBit {x e : Nat} (clear : x.testBit e = false) :
    x % 2 ^ (e + 1) = x % 2 ^ e := by
  have parity : x / 2 ^ e % 2 = 0 := by
    rw [Nat.testBit_eq_decide_div_mod_eq, decide_eq_false_iff_not] at clear
    omega
  rw [Nat.mod_pow_succ, parity, Nat.mul_zero, Nat.add_zero]

/-- The lowest bit of a word, as `x &&& 1` reads it. -/
theorem and_one_eq_zero_iff (x : Nat) : x &&& 1 = 0 ↔ x.testBit 0 = false := by
  rw [Nat.and_one_is_mod, Nat.testBit_eq_decide_div_mod_eq, Nat.pow_zero, Nat.div_one,
    decide_eq_false_iff_not]
  omega

/-- A nonzero word has a set bit among its `w` bits. -/
theorem trailingZeros_lt {w y : Nat} (pos : 0 < y) (lt : y < 2 ^ w) : trailingZeros w y < w := by
  have bound := trailingZeros_le w y
  by_contra all
  have zeros := (trailingZeros_spec w y).1
  have zero : y = 0 := Nat.eq_of_testBit_eq fun i => by
    by_cases below : i < w
    · rw [zeros i (by omega), Nat.zero_testBit]
    · rw [Nat.testBit_lt_two_pow (lt_of_lt_of_le lt (Nat.pow_le_pow_right (by omega) (by omega))),
        Nat.zero_testBit]
  omega

/-- The trailing zeros of a word are the only count with no set bit below it and, inside the
word, a set bit at it. -/
theorem trailingZeros_eq {w y t : Nat} (le : t ≤ w) (zeros : ∀ i < t, y.testBit i = false)
    (set : t < w → y.testBit t = true) : trailingZeros w y = t := by
  obtain ⟨zeros', set'⟩ := trailingZeros_spec w y
  have bound := trailingZeros_le w y
  rcases Nat.lt_trichotomy (trailingZeros w y) t with below | same | above
  · have clear := zeros _ below
    rw [set' (by omega)] at clear
    cases clear
  · exact same
  · have clear := zeros' t above
    rw [set (by omega)] at clear
    cases clear

/-- **The carry of a wrapped count.** Short of `2 ^ (w + 1) - 1`, a count kept modulo `2 ^ w` ends
in as many ones as the count itself in `w + 1` bits: when its low `w` bits are all ones, bit `w`
is clear. -/
theorem trailingZeros_complement_mod {w n : Nat} (room : n + 1 < 2 ^ (w + 1)) :
    trailingZeros w (complement w (n % 2 ^ w)) = trailingZeros (w + 1) (complement (w + 1) n) := by
  have low : n % 2 ^ w < 2 ^ w := Nat.mod_lt _ (Nat.two_pow_pos w)
  have short : n < 2 ^ (w + 1) := by omega
  obtain ⟨ones, clear⟩ := trailingOnes_complement low
  have le := trailingZeros_le w (complement w (n % 2 ^ w))
  set t := trailingZeros w (complement w (n % 2 ^ w))
  -- below `w` the count and the wrapped count have the same bits
  have agree : ∀ i < w, n.testBit i = (n % 2 ^ w).testBit i := fun i below => by
    rw [Nat.testBit_mod_two_pow, decide_eq_true below, Bool.true_and]
  symm
  refine trailingZeros_eq (by omega) (fun i below => ?_) (fun inside => ?_)
  · rw [testBit_complement short, agree i (by omega), ones i below]
    simp
  · rw [testBit_complement short, decide_eq_true inside, Bool.true_and, Bool.not_eq_eq_eq_not,
      Bool.not_true]
    by_cases top : t < w
    · rw [agree t top, clear top]
    · -- all `w` low bits are ones, so the count is `2 ^ w - 1`: `2 ^ (w + 1) - 1` is out of reach
      have tw : t = w := by omega
      have wrapped : n % 2 ^ w = 2 ^ w - 1 := Nat.eq_of_testBit_eq fun i => by
        rw [Nat.testBit_two_pow_sub_one]
        by_cases below : i < w
        · rw [ones i (by omega), decide_eq_true below]
        · rw [Nat.testBit_mod_two_pow, decide_eq_false below, Bool.false_and]
      have small : n < 2 ^ w := by
        by_contra big
        have twice : 2 ^ (w + 1) = 2 ^ w + 2 ^ w := by rw [Nat.pow_succ]; omega
        rw [Nat.mod_eq_sub_mod (by omega), Nat.mod_eq_of_lt (by omega)] at wrapped
        omega
      rw [tw]
      exact Nat.testBit_lt_two_pow small

/-- Below `2 ^ w`, the set bits are Mathlib's `bitIndices`, highest first. -/
theorem setBits_eq_reverse_bitIndices {w x : Nat} (lt : x < 2 ^ w) :
    setBits w x = x.bitIndices.reverse := by
  refine List.SortedGT.eq_reverse_of_mem_iff_of_sortedLT (fun i => ?_)
    (setBits_pairwise w x).sortedGT Nat.bitIndices_sorted
  rw [mem_setBits, Nat.mem_bitIndices]
  -- a set bit of a word below `2 ^ w` lies below `w`
  refine ⟨fun inside => inside.2, fun set => ⟨?_, set⟩⟩
  exact (Nat.pow_lt_pow_iff_right (by norm_num)).mp ((Nat.ge_two_pow_of_testBit set).trans_lt lt)

/-- The set bits split around a set bit `e`: those above it, `e` itself, then those below. -/
theorem setBits_split_at {w x e : Nat} (set : x.testBit e = true) (inside : e < w) :
    setBits w x = (setBits w x).filter (fun i => decide (e < i)) ++ e :: setBits e x := by
  have unfolded : setBits (e + 1) x = e :: setBits e x := by simp [setBits, set]
  rw [← unfolded]
  exact setBits_split x inside

/-- Counting the set bits around a set bit `e`: those above it, `e` itself, and those of the word
kept below `e`. -/
theorem countOnes_split_at {w x e : Nat} (set : x.testBit e = true) (inside : e < w) :
    countOnes w x = ((setBits w x).filter (fun i => decide (e < i))).length + 1 +
      countOnes w (x % 2 ^ e) := by
  rw [countOnes, countOnes, setBits_mod_two_pow x (Nat.le_of_lt inside)]
  conv_lhs => rw [setBits_split_at set inside]
  rw [List.length_append, List.length_cons]
  omega

/-- The set bits at or above `j` add up to the word rounded down to a multiple of `2 ^ j`. -/
theorem sum_filter_setBits {w x j : Nat} (lt : x < 2 ^ w) (le : j ≤ w) :
    (((setBits w x).filter (fun i => decide (j ≤ i))).map (2 ^ ·)).sum = 2 ^ j * (x / 2 ^ j) := by
  have whole := sum_setBits lt
  have low : ((setBits j x).map (2 ^ ·)).sum = x % 2 ^ j := by
    rw [← setBits_mod_two_pow x (Nat.le_refl j)]
    exact sum_setBits (Nat.mod_lt x (Nat.two_pow_pos j))
  rw [setBits_split x le, List.map_append, List.sum_append, low] at whole
  have := Nat.div_add_mod x (2 ^ j)
  omega

/-! ### The highest difference -/

/-- Two different words differ in some bit. -/
theorem xor_ne_zero {x y : Nat} (ne : x ≠ y) : x ^^^ y ≠ 0 := by
  intro zero
  apply ne
  apply Nat.eq_of_testBit_eq
  intro b
  have := congrArg (Nat.testBit · b) zero
  simp only [Nat.testBit_xor, Nat.zero_testBit] at this
  cases hx : x.testBit b <;> cases hy : y.testBit b <;> simp_all

/-- Two words with the same bits above `e` have the same quotient by `2 ^ (e + 1)`. -/
theorem div_two_pow_eq {x y e : Nat} (agree : ∀ b, e < b → x.testBit b = y.testBit b) :
    x / 2 ^ (e + 1) = y / 2 ^ (e + 1) :=
  Nat.eq_of_testBit_eq fun b => by
    rw [Nat.testBit_div_two_pow, Nat.testBit_div_two_pow]
    exact agree (b + (e + 1)) (by omega)

/-- Below a greater word, a word agrees with it above their highest differing bit `e`, where the
greater word has a one and the smaller a zero. -/
theorem highestDifference {i n : Nat} (lt : i < n) :
    let e := (i ^^^ n).log2
    n.testBit e = true ∧ i.testBit e = false ∧ ∀ b, e < b → i.testBit b = n.testBit b := by
  intro e
  have differ : i ^^^ n ≠ 0 := xor_ne_zero (Nat.ne_of_lt lt)
  have atE : (i ^^^ n).testBit e = true := Nat.testBit_log2 differ
  have above : ∀ b, e < b → (i ^^^ n).testBit b = false := fun b gt =>
    Nat.testBit_lt_two_pow (lt_of_lt_of_le Nat.lt_log2_self (Nat.pow_le_pow_right (by omega) gt))
  have agree : ∀ b, e < b → i.testBit b = n.testBit b := by
    intro b gt
    have := above b gt
    rw [Nat.testBit_xor] at this
    cases hi : i.testBit b <;> cases hn : n.testBit b <;> simp_all
  rw [Nat.testBit_xor] at atE
  -- the two words share their bits above `e`, so the one with the `1` at `e` is the greater
  have sameHigh : i / 2 ^ (e + 1) = n / 2 ^ (e + 1) := div_two_pow_eq agree
  cases hi : i.testBit e
  · rw [hi] at atE
    exact ⟨by simpa using atE, rfl, agree⟩
  · exfalso
    rw [hi] at atE
    have nClear : n.testBit e = false := by simpa using atE
    have iLow : 2 ^ e ≤ i % 2 ^ (e + 1) :=
      Nat.ge_two_pow_of_testBit (by rw [Nat.testBit_mod_two_pow]; simp [hi])
    have nLow : n % 2 ^ (e + 1) < 2 ^ e := by
      apply Nat.lt_pow_two_of_testBit
      intro b ge
      rw [Nat.testBit_mod_two_pow]
      by_cases same : b = e
      · subst same
        simp [nClear]
      · simp [show ¬ b < e + 1 by omega]
    have iSplit := Nat.div_add_mod i (2 ^ (e + 1))
    have nSplit := Nat.div_add_mod n (2 ^ (e + 1))
    rw [sameHigh] at iSplit
    omega

/-- **The block of the highest difference.** In the binary decomposition of a word `n` into blocks
of `2 ^ b` for its set bits `b`, highest first, a smaller word `i` falls in the block of their
highest differing bit `e`: past the blocks of the set bits above `e`, and short of the end of the
block of `e`. -/
theorem highestDifference_block {i n w : Nat} (lt : i < n) (short : n < 2 ^ w) :
    let e := (i ^^^ n).log2
    let before := (((setBits w n).filter (fun b => decide (e < b))).map (2 ^ ·)).sum
    before ≤ i ∧ i < before + 2 ^ e := by
  obtain ⟨nSet, iClear, agree⟩ := highestDifference lt
  dsimp only
  generalize (i ^^^ n).log2 = e at nSet iClear agree ⊢
  have inside : e < w :=
    (Nat.pow_lt_pow_iff_right (by norm_num)).mp ((Nat.ge_two_pow_of_testBit nSet).trans_lt short)
  -- the blocks above `e` add up to `n`, hence `i`, with its bits below `e + 1` cleared
  have blocks : (((setBits w n).filter (fun b => decide (e < b))).map (2 ^ ·)).sum =
      2 ^ (e + 1) * (i / 2 ^ (e + 1)) := by
    change (((setBits w n).filter (fun b => decide (e + 1 ≤ b))).map (2 ^ ·)).sum = _
    rw [sum_filter_setBits short inside, div_two_pow_eq agree]
  have roundDown := Nat.div_add_mod i (2 ^ (e + 1))
  have low : i % 2 ^ e < 2 ^ e := Nat.mod_lt i (Nat.two_pow_pos e)
  rw [mod_two_pow_succ_of_testBit iClear] at roundDown
  omega

/-! ### Checked arithmetic

A debug build of Rust panics where an operation on unsigned words leaves the word's range: a
subtraction below zero, an addition past the largest word, a shift by the width or more (the bits
a shift moves out are dropped without a panic). The checked operations return `none` there. -/

/-- `a - b` of unsigned words, `none` where it would go below zero. -/
def checkedSub (a b : Nat) : Option Nat := if b ≤ a then some (a - b) else none

/-- `a + b` of `w`-bit words, `none` where it would pass `2 ^ w - 1`. -/
def checkedAdd (w a b : Nat) : Option Nat := if a + b < 2 ^ w then some (a + b) else none

/-- `a << s` of a `w`-bit word, `none` for a shift by `w` or more. -/
def checkedShl (w a s : Nat) : Option Nat := if s < w then some (a <<< s % 2 ^ w) else none

theorem checkedSub_of_le {a b : Nat} (le : b ≤ a) : checkedSub a b = some (a - b) := if_pos le

theorem checkedAdd_of_lt {w a b : Nat} (lt : a + b < 2 ^ w) : checkedAdd w a b = some (a + b) :=
  if_pos lt

theorem checkedShl_one {w s : Nat} (lt : s < w) : checkedShl w 1 s = some (1 <<< s) := by
  rw [checkedShl, if_pos lt, Nat.one_shiftLeft,
    Nat.mod_eq_of_lt (Nat.pow_lt_pow_right (by norm_num) lt)]

end Ipc.Lib
