/-
**Selections of the heaviest elements.**

Elements carry a weight `w : α → Nat`. A `Selection limit w chosen spare` splits the elements of
positive weight into at most `limit` chosen ones and the spare rest, with every chosen element at
least as heavy as every spare one, and spares only once `limit` elements are chosen: the chosen
elements are the heaviest ones, up to the limit, ties broken either way.

Each lemma below is one way the split can follow a change of weight of one element `x`, the
weights of the others kept:

* `reweigh` — the sets stay, where a chosen `x` stays as heavy as the spares and a spare `x` as
  light as the chosen;
* `addChosen` — a newly weighted `x` is chosen while there is room;
* `addSpare` — an unchosen `x` no heavier than the chosen becomes a spare;
* `exchange` — one element comes in and one goes out: the lightest chosen makes way for an `x`
  heavier than it, or a lightened chosen `x` makes way for the heaviest spare;
* `dropSpare`, `dropChosen`, `promote` — an `x` of weight zero leaves, and where it was chosen the
  heaviest spare, if there is one, takes its place.

`FirstHeaviest w xs x` selects from a sequence instead: `x` is its first element of greatest
weight, which is what a loop keeps that takes only strictly heavier candidates.
-/

import Mathlib

namespace Ipc.Lib

variable {α : Type}

/-- The chosen elements are the heaviest of positive weight, at most `limit` of them, and the
spare ones the others of positive weight, only once the chosen fill the limit. -/
structure Selection (limit : Nat) (w : α → Nat) (chosen spare : Finset α) : Prop where
  disjoint : Disjoint chosen spare
  card_le : chosen.card ≤ limit
  full : spare.Nonempty → chosen.card = limit
  support : ∀ a, a ∈ chosen ∨ a ∈ spare ↔ 0 < w a
  ranked : ∀ a ∈ chosen, ∀ b ∈ spare, w b ≤ w a

namespace Selection

variable {limit : Nat} {w w' : α → Nat} {chosen spare : Finset α} {x : α}

theorem empty (limit : Nat) : Selection limit (fun _ : α => 0) ∅ ∅ where
  disjoint := Finset.disjoint_empty_left ∅
  card_le := Nat.zero_le limit
  full nonempty := absurd nonempty Finset.not_nonempty_empty
  support a := by simp
  ranked a member := absurd member (Finset.notMem_empty a)

theorem notMem_spare (sel : Selection limit w chosen spare) {a : α} (member : a ∈ chosen) :
    a ∉ spare :=
  Finset.disjoint_left.mp sel.disjoint member

theorem pos_of_chosen (sel : Selection limit w chosen spare) {a : α} (member : a ∈ chosen) :
    0 < w a :=
  (sel.support a).mp (Or.inl member)

theorem pos_of_spare (sel : Selection limit w chosen spare) {a : α} (member : a ∈ spare) :
    0 < w a :=
  (sel.support a).mp (Or.inr member)

/-- **Reweigh.** A member keeps its side when its new weight keeps it on that side. -/
theorem reweigh (sel : Selection limit w chosen spare) (agree : ∀ a, a ≠ x → w' a = w a)
    (member : x ∈ chosen ∨ x ∈ spare) (positive : 0 < w' x)
    (chosenStays : x ∈ chosen → ∀ b ∈ spare, w' b ≤ w' x)
    (spareStays : x ∈ spare → ∀ a ∈ chosen, w' x ≤ w' a) : Selection limit w' chosen spare where
  disjoint := sel.disjoint
  card_le := sel.card_le
  full := sel.full
  support a := by
    by_cases same : a = x
    · subst same
      exact iff_of_true member positive
    · rw [agree a same]
      exact sel.support a
  ranked a chosenA b spareB := by
    by_cases ax : a = x
    · subst ax
      exact chosenStays chosenA b spareB
    by_cases bx : b = x
    · subst bx
      exact spareStays spareB a chosenA
    rw [agree a ax, agree b bx]
    exact sel.ranked a chosenA b spareB

variable [DecidableEq α]

/-- **Add a chosen one.** While there is room, nothing is spare, and a newly weighted element is chosen. -/
theorem addChosen (sel : Selection limit w chosen spare) (agree : ∀ a, a ≠ x → w' a = w a)
    (absent : x ∉ chosen) (room : chosen.card < limit) (positive : 0 < w' x) :
    Selection limit w' (insert x chosen) spare := by
  have empty : spare = ∅ := Finset.not_nonempty_iff_eq_empty.mp fun nonempty => by
    have := sel.full nonempty
    omega
  subst empty
  refine ⟨Finset.disjoint_empty_right _, ?_, fun nonempty => absurd nonempty
    Finset.not_nonempty_empty, fun a => ?_, fun a _ b spareB => absurd spareB
    (Finset.notMem_empty b)⟩
  · rw [Finset.card_insert_of_notMem absent]
    omega
  · by_cases same : a = x
    · subst same
      exact iff_of_true (Or.inl (Finset.mem_insert_self a chosen)) positive
    · rw [Finset.mem_insert, agree a same, ← sel.support a]
      simp [same]

/-- **Add a spare.** Once the chosen fill the limit, an unchosen element no heavier than any of them is
spare. -/
theorem addSpare (sel : Selection limit w chosen spare) (agree : ∀ a, a ≠ x → w' a = w a)
    (absent : x ∉ chosen) (filled : limit ≤ chosen.card) (positive : 0 < w' x)
    (stays : ∀ a ∈ chosen, w' x ≤ w' a) : Selection limit w' chosen (insert x spare) where
  disjoint := by
    rw [Finset.disjoint_insert_right]
    exact ⟨absent, sel.disjoint⟩
  card_le := sel.card_le
  full _ := by
    have := sel.card_le
    omega
  support a := by
    by_cases same : a = x
    · subst same
      exact iff_of_true (Or.inr (Finset.mem_insert_self a spare)) positive
    · rw [Finset.mem_insert, agree a same, ← sel.support a]
      simp [same]
  ranked a chosenA b spareB := by
    have ax : a ≠ x := fun same => absent (same ▸ chosenA)
    by_cases bx : b = x
    · subst bx
      exact stays a chosenA
    · rw [agree a ax, agree b bx]
      exact sel.ranked a chosenA b ((Finset.mem_insert.mp spareB).resolve_left bx)

/-- **Exchange.** `x` comes in and `y` goes out, where `y` is the lightest chosen, `x` outweighs it
and is the heaviest of the spares left: the lightest chosen making way for a heavier newcomer, or
a lightened chosen `y` making way for the heaviest spare. -/
theorem exchange {y : α} (sel : Selection limit w chosen spare)
    (agree : ∀ a, a ≠ x → a ≠ y → w' a = w a) (incoming : x ∉ chosen) (outgoing : y ∈ chosen)
    (filled : limit ≤ chosen.card) (lightest : ∀ a ∈ chosen, w' y ≤ w' a)
    (heaviest : ∀ b ∈ spare, b ≠ x → w' b ≤ w' x) (beats : w' y ≤ w' x)
    (positiveIn : 0 < w' x) (positiveOut : 0 < w' y) :
    Selection limit w' (insert x (chosen.erase y)) (insert y (spare.erase x)) := by
  have xy : x ≠ y := fun same => incoming (same ▸ outgoing)
  have card : (insert x (chosen.erase y)).card = chosen.card := by
    rw [Finset.card_insert_of_notMem fun member => incoming (Finset.mem_of_mem_erase member),
      Finset.card_erase_add_one outgoing]
  refine ⟨?_, by rw [card]; exact sel.card_le, fun _ => by have := sel.card_le; omega,
    fun a => ?_, fun a chosenA b spareB => ?_⟩
  · rw [Finset.disjoint_left]
    intro a chosenA spareA
    simp only [Finset.mem_insert, Finset.mem_erase] at chosenA spareA
    rcases chosenA with rfl | ⟨ay, chosenA⟩
    · rcases spareA with same | ⟨ne, _⟩
      · exact xy same
      · exact ne rfl
    · rcases spareA with same | ⟨_, spareA⟩
      · exact ay same
      · exact sel.notMem_spare chosenA spareA
  · by_cases ax : a = x
    · subst ax
      exact iff_of_true (Or.inl (Finset.mem_insert_self a _)) positiveIn
    by_cases ay : a = y
    · subst ay
      exact iff_of_true (Or.inr (Finset.mem_insert_self a _)) positiveOut
    rw [agree a ax ay, ← sel.support a]
    simp [ax, ay]
  · simp only [Finset.mem_insert, Finset.mem_erase] at chosenA spareB
    rcases spareB with rfl | ⟨bx, spareB⟩
    · rcases chosenA with rfl | ⟨_, chosenA⟩
      · exact beats
      · exact lightest a chosenA
    · rcases chosenA with rfl | ⟨ay, chosenA⟩
      · exact heaviest b spareB bx
      · have ax : a ≠ x := fun same => incoming (same ▸ chosenA)
        have b_y : b ≠ y := fun same => sel.notMem_spare outgoing (same ▸ spareB)
        rw [agree a ax ay, agree b bx b_y]
        exact sel.ranked a chosenA b spareB

/-- **Drop a spare.** A spare of weight zero leaves. -/
theorem dropSpare (sel : Selection limit w chosen spare) (agree : ∀ a, a ≠ x → w' a = w a)
    (leaving : x ∈ spare) (zero : w' x = 0) : Selection limit w' chosen (spare.erase x) where
  disjoint := Finset.disjoint_of_subset_right (Finset.erase_subset x spare) sel.disjoint
  card_le := sel.card_le
  full nonempty := sel.full ⟨x, leaving⟩
  support a := by
    by_cases same : a = x
    · subst same
      have notChosen : a ∉ chosen := fun member => sel.notMem_spare member leaving
      rw [zero]
      exact iff_of_false (by simp [notChosen]) (Nat.lt_irrefl 0)
    · rw [agree a same, ← sel.support a]
      simp [same]
  ranked a chosenA b spareB := by
    have ax : a ≠ x := fun same => sel.notMem_spare chosenA (same ▸ leaving)
    obtain ⟨bx, spareB⟩ := Finset.mem_erase.mp spareB
    rw [agree a ax, agree b bx]
    exact sel.ranked a chosenA b spareB

/-- **Drop a chosen one.** With nothing spare, a chosen element of weight zero leaves. -/
theorem dropChosen (sel : Selection limit w chosen spare) (agree : ∀ a, a ≠ x → w' a = w a)
    (leaving : x ∈ chosen) (zero : w' x = 0) (empty : spare = ∅) :
    Selection limit w' (chosen.erase x) spare := by
  subst empty
  refine ⟨Finset.disjoint_empty_right _, ?_, fun nonempty => absurd nonempty
    Finset.not_nonempty_empty, fun a => ?_, fun a _ b spareB => absurd spareB
    (Finset.notMem_empty b)⟩
  · exact (Finset.card_erase_le).trans sel.card_le
  · by_cases same : a = x
    · subst same
      rw [zero]
      exact iff_of_false (by simp) (Nat.lt_irrefl 0)
    · rw [agree a same, ← sel.support a]
      simp [same]

/-- **Promote.** A chosen element of weight zero leaves, and the heaviest spare takes its place. -/
theorem promote {p : α} (sel : Selection limit w chosen spare) (agree : ∀ a, a ≠ x → w' a = w a)
    (leaving : x ∈ chosen) (zero : w' x = 0) (best : p ∈ spare)
    (heaviest : ∀ b ∈ spare, w b ≤ w p) :
    Selection limit w' (insert p (chosen.erase x)) (spare.erase p) := by
  have px : p ≠ x := fun same => sel.notMem_spare leaving (same ▸ best)
  have filled := sel.full ⟨p, best⟩
  have card : (insert p (chosen.erase x)).card = chosen.card := by
    rw [Finset.card_insert_of_notMem fun member =>
        sel.notMem_spare (Finset.mem_of_mem_erase member) best,
      Finset.card_erase_add_one leaving]
  refine ⟨?_, by rw [card]; exact sel.card_le, fun _ => by rw [card]; exact filled,
    fun a => ?_, fun a chosenA b spareB => ?_⟩
  · rw [Finset.disjoint_left]
    intro a chosenA spareA
    obtain ⟨ap, spareA⟩ := Finset.mem_erase.mp spareA
    rcases Finset.mem_insert.mp chosenA with same | chosenA
    · exact ap same
    · exact sel.notMem_spare (Finset.mem_of_mem_erase chosenA) spareA
  · by_cases ax : a = x
    · subst ax
      rw [zero]
      refine iff_of_false ?_ (Nat.lt_irrefl 0)
      simp [px.symm, sel.notMem_spare leaving]
    by_cases ap : a = p
    · subst ap
      rw [agree a ax]
      exact iff_of_true (Or.inl (Finset.mem_insert_self a _)) (sel.pos_of_spare best)
    rw [agree a ax, ← sel.support a]
    simp [ax, ap]
  · obtain ⟨bp, inSpare⟩ := Finset.mem_erase.mp spareB
    have bx : b ≠ x := fun same => sel.notMem_spare leaving (same ▸ inSpare)
    rw [agree b bx]
    rcases Finset.mem_insert.mp chosenA with rfl | chosenA
    · rw [agree a px]
      exact heaviest b inSpare
    · obtain ⟨ax, chosenA⟩ := Finset.mem_erase.mp chosenA
      rw [agree a ax]
      exact sel.ranked a chosenA b inSpare

end Selection

/-! ### The first of the heaviest

In a sequence of weighted elements, the first one of greatest weight is what a loop keeps that
replaces its candidate only by a strictly heavier element. `topWeight` is the greatest weight, `0`
for none. Appending an element heavier than every one before makes it the first heaviest
(`firstHeaviest_append_of_lt`); appending one no heavier than the top leaves the first heaviest as it
was (`firstHeaviest_append_of_le`). -/

section FirstHeaviest

/-- `x` is the first element of `xs` of greatest weight: every element before it is lighter, and no
element after it is heavier. -/
def FirstHeaviest (w : α → Nat) (xs : List α) (x : α) : Prop :=
  ∃ before after, xs = before ++ x :: after ∧ (∀ y ∈ before, w y < w x) ∧ ∀ y ∈ after, w y ≤ w x

/-- The greatest weight in `xs`, `0` for none. -/
def topWeight (w : α → Nat) (xs : List α) : Nat :=
  xs.foldl (fun top y => max top (w y)) 0

variable {w : α → Nat}

theorem topWeight_nil : topWeight w [] = 0 := rfl

theorem topWeight_append_singleton (xs : List α) (x : α) :
    topWeight w (xs ++ [x]) = max (topWeight w xs) (w x) := by
  rw [topWeight, List.foldl_append, List.foldl_cons, List.foldl_nil, topWeight]

theorem le_foldl_max (xs : List α) (top : Nat) :
    top ≤ xs.foldl (fun top y => max top (w y)) top ∧
      ∀ y ∈ xs, w y ≤ xs.foldl (fun top y => max top (w y)) top := by
  induction xs generalizing top with
  | nil => exact ⟨Nat.le_refl top, fun y member => nomatch member⟩
  | cons x xs ih =>
    obtain ⟨above, bound⟩ := ih (max top (w x))
    refine ⟨(Nat.le_max_left top (w x)).trans above, fun y member => ?_⟩
    rcases List.mem_cons.mp member with rfl | later
    · exact (Nat.le_max_right top (w y)).trans above
    · exact bound y later

theorem le_topWeight {xs : List α} {y : α} (member : y ∈ xs) : w y ≤ topWeight w xs :=
  (le_foldl_max xs 0).2 y member

/-- A nonempty sequence reaches its top weight. -/
theorem exists_topWeight {xs : List α} (nonempty : xs ≠ []) : ∃ y ∈ xs, w y = topWeight w xs := by
  induction xs using List.reverseRecOn with
  | nil => exact absurd rfl nonempty
  | append_singleton xs x ih =>
    rw [topWeight_append_singleton]
    by_cases heavier : topWeight w xs ≤ w x
    · exact ⟨x, List.mem_append_right xs (List.mem_singleton_self x), (Nat.max_eq_right heavier).symm⟩
    · have earlier : xs ≠ [] := by
        rintro rfl
        exact heavier (Nat.zero_le _)
      obtain ⟨y, member, top⟩ := ih earlier
      rw [Nat.max_eq_left (Nat.le_of_not_le heavier)]
      exact ⟨y, List.mem_append_left [x] member, top⟩

/-- The first heaviest element has the top weight. -/
theorem FirstHeaviest.weight {xs : List α} {x : α} (first : FirstHeaviest w xs x) :
    w x = topWeight w xs := by
  obtain ⟨before, after, rfl, lighter, notHeavier⟩ := first
  refine Nat.le_antisymm (le_topWeight (List.mem_append_right before (List.mem_cons_self))) ?_
  obtain ⟨y, member, top⟩ := exists_topWeight (List.append_ne_nil_of_right_ne_nil before
    (List.cons_ne_nil x after))
  rw [← top]
  rcases List.mem_append.mp member with early | rest
  · exact Nat.le_of_lt (lighter y early)
  · rcases List.mem_cons.mp rest with rfl | late
    · exact Nat.le_refl _
    · exact notHeavier y late

theorem not_firstHeaviest_nil (x : α) : ¬ FirstHeaviest w [] x := by
  rintro ⟨before, after, split, -, -⟩
  exact List.append_ne_nil_of_right_ne_nil before (List.cons_ne_nil x after) split.symm

/-- An element splitting a sequence ending in `x`: either `x` itself, or one before it. -/
theorem append_singleton_eq_split {xs before after : List α} {x y : α}
    (split : xs ++ [x] = before ++ y :: after) :
    (before = xs ∧ y = x ∧ after = []) ∨ ∃ rest, xs = before ++ y :: rest ∧ after = rest ++ [x] := by
  rcases List.eq_nil_or_concat after with rfl | ⟨rest, z, rfl⟩
  · obtain ⟨same, last⟩ := List.append_inj' split rfl
    exact .inl ⟨same.symm, (List.singleton_inj.mp last).symm, rfl⟩
  · rw [List.concat_eq_append] at split ⊢
    rw [← List.cons_append, ← List.append_assoc] at split
    obtain ⟨same, last⟩ := List.append_inj' split rfl
    exact .inr ⟨rest, same, by rw [List.singleton_inj.mp last]⟩

/-- An element heavier than every one before becomes the first heaviest. -/
theorem firstHeaviest_append_of_lt {xs : List α} {x : α} (heavier : topWeight w xs < w x)
    (y : α) : FirstHeaviest w (xs ++ [x]) y ↔ y = x := by
  constructor
  · rintro ⟨before, after, split, -, notHeavier⟩
    rcases append_singleton_eq_split split with ⟨-, rfl, -⟩ | ⟨rest, rfl, rfl⟩
    · rfl
    · have atMost := notHeavier x (List.mem_append_right rest (List.mem_singleton_self x))
      have earlier : w y ≤ topWeight w (before ++ y :: rest) := le_topWeight (by simp)
      omega
  · rintro rfl
    exact ⟨xs, [], rfl, fun z member => (le_topWeight member).trans_lt heavier, fun z member => nomatch member⟩

/-- An element no heavier than the top of a nonempty sequence leaves its first heaviest as it was. -/
theorem firstHeaviest_append_of_le {xs : List α} {x : α} (nonempty : xs ≠ [])
    (lighter : w x ≤ topWeight w xs) (y : α) :
    FirstHeaviest w (xs ++ [x]) y ↔ FirstHeaviest w xs y := by
  constructor
  · rintro ⟨before, after, split, earlier, notHeavier⟩
    rcases append_singleton_eq_split split with ⟨rfl, rfl, -⟩ | ⟨rest, rfl, rfl⟩
    · have reached : ∃ z ∈ before, w z = topWeight w before := exists_topWeight nonempty
      obtain ⟨z, member, top⟩ := reached
      have := earlier z member
      omega
    · exact ⟨before, rest, rfl, earlier, fun z member => notHeavier z (List.mem_append_left [x] member)⟩
  · intro first
    have top := first.weight
    obtain ⟨before, after, rfl, earlier, notHeavier⟩ := first
    refine ⟨before, after ++ [x], by simp, earlier, fun z member => ?_⟩
    rcases List.mem_append.mp member with late | last
    · exact notHeavier z late
    · rw [List.mem_singleton.mp last, top]
      exact lighter

end FirstHeaviest

end Ipc.Lib
