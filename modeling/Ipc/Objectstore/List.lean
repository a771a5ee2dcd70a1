/-
**Listing an object store (`State::list`).**

The object store keeps its objects in a HAMT keyed by byte strings. `list` walks the HAMT in its
iteration order (`entries`) and sorts the keys that start with `prefix` in two. A key in which
`delimiter` occurs after the prefix is filed under a common prefix: the key up to the first
occurrence, and then only one byte of the delimiter (`delimitedPrefix`, the source's
`utf8_key[..=(index + prefix_length)]`). Every other key is an object: the first `offset` of them
are skipped and at most `limit` kept (`0` meaning `MAX_LIST_LIMIT`, 10000), and the walk stops at
the last one it keeps. The prefix, the key and the delimiter are read as UTF-8 strings and the key
is sliced at byte positions, which Rust refuses off a char boundary with a panic.

* **`list_objects`** — the objects are the listed entries (`listed`) in the walk's order, after
  the first `offset`, at most `limit` of them;
* **`mem_commonPrefixes_list`** — every common prefix is a key that starts with the prefix, cut one
  byte after the first occurrence of the delimiter after the prefix;
* **`list_isOk`** — with a valid prefix and valid keys, and a delimiter that is empty or starts
  with an ASCII byte, the listing succeeds;
* `delimitedPrefix_panics` — a delimiter that starts with a multi-byte character panics on every
  key that holds it after the prefix.

The loop lemmas (`listLoop_objects`, `listLoop_commonPrefixes`, `listLoop_isOk`) carry each of
them over the walk, by induction on the entries still to visit.
-/

import Mathlib
import Ipc.Lib.Utf8
import Ipc.Lib.System
import Ipc.Api.FvmAddress

namespace Ipc.Objectstore

open Ipc.Lib
open Ipc.Api (Fault)

/-! ### The listing -/

/-- `MAX_LIST_LIMIT`. -/
def maxListLimit : Nat := 10000

/-- The source's `limit`: `0` asks for `MAX_LIST_LIMIT`, and no more than that is given. -/
def listLimit (limit : UInt64) : Nat :=
  if limit = 0 then maxListLimit else min limit.toNat maxListLimit

/-- `ObjectList`: the listed objects with their keys, and the common prefixes. -/
structure ObjectList (α : Type) where
  objects : List (List UInt8 × α)
  commonPrefixes : List (List UInt8)
  deriving DecidableEq

/-- `String::from_utf8(bytes)?`. -/
def fromUtf8 (bs : List UInt8) : Except Fault (List UInt8) :=
  if utf8Valid bs then .ok bs else .error (.error "invalid utf-8 sequence")

/-- A slice of a string, or the panic of slicing it at `i` off a char boundary. -/
def slice (sliced : Option (List UInt8)) (i : Nat) : Except Fault (List UInt8) :=
  match sliced with
  | some bs => .ok bs
  | none => .error (.panic ("byte index " ++ toString i ++ " is not a char boundary"))

/-- The common prefix a key is filed under when the delimiter occurs in it after the prefix: the
key up to the occurrence and one more byte, `utf8_key[..=(index + prefix_length)]`. -/
def delimitedPrefix (keyPrefix delimiter key : List UInt8) :
    Except Fault (Option (List UInt8)) := do
  let utf8Prefix ← fromUtf8 keyPrefix
  let prefixLength := utf8Prefix.length
  let utf8Key ← fromUtf8 key
  let utf8Delimiter ← fromUtf8 delimiter
  let tail ← slice (sliceFrom utf8Key prefixLength) prefixLength
  match findSub utf8Delimiter tail with
  | some index =>
    let subset ← slice (sliceTo utf8Key (index + prefixLength + 1)) (index + prefixLength + 1)
    pure (some subset)
  | none => pure none

/-- `BTreeSet::insert`: in order, once. -/
def setInsert (x : List UInt8) : List (List UInt8) → List (List UInt8)
  | [] => [x]
  | y :: ys => if x < y then x :: y :: ys else if x = y then y :: ys else y :: setInsert x ys

/-- What the walk has gathered: the objects, the common prefixes, and how many keys it has counted
as objects. -/
structure Listing (α : Type) where
  objects : List (List UInt8 × α)
  commonPrefixes : List (List UInt8)
  count : Nat

variable {α : Type}

/-- The loop of `list` over the HAMT's entries, from the one it visits next; it stops once it
holds `limit` objects. -/
def listLoop (keyPrefix delimiter : List UInt8) (offset limit : Nat) :
    List (List UInt8 × α) → Listing α → Except Fault (Listing α)
  | [], acc => .ok acc
  | (key, object) :: rest, acc =>
    if !keyPrefix.isEmpty && !keyPrefix.isPrefixOf key then
      listLoop keyPrefix delimiter offset limit rest acc
    else do
      let filed ←
        (if !delimiter.isEmpty then delimitedPrefix keyPrefix delimiter key else pure none)
      match filed with
      | some subset =>
        listLoop keyPrefix delimiter offset limit rest
          { acc with commonPrefixes := setInsert subset acc.commonPrefixes }
      | none =>
        let count := acc.count + 1
        if count ≤ offset then listLoop keyPrefix delimiter offset limit rest { acc with count }
        else
          let objects := acc.objects ++ [(key, object)]
          if 0 < limit ∧ limit ≤ objects.length then .ok { acc with count, objects }
          else listLoop keyPrefix delimiter offset limit rest { acc with count, objects }

/-- Whether the walk counts a key as an object: it starts with the prefix, and the delimiter is
empty or does not occur after the prefix. -/
def listed (keyPrefix delimiter key : List UInt8) : Bool :=
  keyPrefix.isPrefixOf key &&
    (delimiter.isEmpty || (findSub delimiter (key.drop keyPrefix.length)).isNone)

/-- `State::list` over the HAMT's entries in its iteration order. -/
def list (entries : List (List UInt8 × α)) (keyPrefix delimiter : List UInt8)
    (offset limit : UInt64) : Except Fault (ObjectList α) := do
  let acc ← listLoop keyPrefix delimiter offset.toNat (listLimit limit) entries ⟨[], [], 0⟩
  pure ⟨acc.objects, acc.commonPrefixes⟩

/-! ### Filing a key under a common prefix -/

section Filing

variable {keyPrefix delimiter key : List UInt8}

theorem fromUtf8_of_valid {bs : List UInt8} (valid : utf8Valid bs = true) :
    fromUtf8 bs = .ok bs := by
  rw [fromUtf8, if_pos valid]

theorem eq_of_fromUtf8 {bs out : List UInt8} (read : fromUtf8 bs = .ok out) : out = bs := by
  unfold fromUtf8 at read
  split at read
  · exact (Except.ok.inj read).symm
  · cases read

theorem slice_some (bs : List UInt8) (i : Nat) : slice (some bs) i = .ok bs := rfl

theorem eq_of_slice {sliced : Option (List UInt8)} {i : Nat} {out : List UInt8}
    (cut : slice sliced i = .ok out) : sliced = some out := by
  cases sliced with
  | some bs => exact congrArg some (Except.ok.inj cut)
  | none => cases cut

/-- **What a key is filed under**, whenever the filing returns: the key cut one byte after the
first occurrence of the delimiter after the prefix, if there is one. -/
theorem delimitedPrefix_eq_ok {filed : Option (List UInt8)}
    (result : delimitedPrefix keyPrefix delimiter key = .ok filed) :
    filed = (findSub delimiter (key.drop keyPrefix.length)).map fun index =>
      key.take (index + keyPrefix.length + 1) := by
  unfold delimitedPrefix at result
  obtain ⟨utf8Prefix, prefixRead, result⟩ := bind_eq_ok.mp result
  cases eq_of_fromUtf8 prefixRead
  obtain ⟨utf8Key, keyRead, result⟩ := bind_eq_ok.mp result
  cases eq_of_fromUtf8 keyRead
  obtain ⟨utf8Delimiter, delimiterRead, result⟩ := bind_eq_ok.mp result
  cases eq_of_fromUtf8 delimiterRead
  obtain ⟨tail, sliced, result⟩ := bind_eq_ok.mp result
  have tailIs : tail = key.drop keyPrefix.length := by
    have cut := eq_of_slice sliced
    unfold sliceFrom at cut
    split at cut
    · exact (Option.some.inj cut).symm
    · cases cut
  subst tailIs
  cases found : findSub delimiter (key.drop keyPrefix.length) with
  | none =>
    rw [found] at result
    exact (Except.ok.inj result).symm
  | some index =>
    rw [found] at result
    obtain ⟨subset, cut, done⟩ := bind_eq_ok.mp result
    cases Except.ok.inj done
    have taken := eq_of_slice cut
    unfold sliceTo at taken
    split at taken
    · rw [← Option.some.inj taken]
      rfl
    · cases taken

/-- **A delimiter that starts with an ASCII byte never panics**: with a valid prefix, key and
delimiter, the key is filed under its cut, or under nothing. -/
theorem delimitedPrefix_of_ascii (prefixValid : utf8Valid keyPrefix = true)
    (keyValid : utf8Valid key = true) (delimiterValid : utf8Valid delimiter = true)
    (starts : keyPrefix <+: key) {a : UInt8} {more : List UInt8} (lead : delimiter = a :: more)
    (ascii : a < 0x80) :
    delimitedPrefix keyPrefix delimiter key =
      .ok ((findSub delimiter (key.drop keyPrefix.length)).map fun index =>
        key.take (index + keyPrefix.length + 1)) := by
  obtain ⟨tail, rfl⟩ := starts
  have cutPrefix : sliceFrom (keyPrefix ++ tail) keyPrefix.length = some tail := by
    rw [sliceFrom, if_pos (isCharBoundary_append keyValid prefixValid), List.drop_left]
  rw [delimitedPrefix, fromUtf8_of_valid prefixValid, ok_bind, fromUtf8_of_valid keyValid, ok_bind,
    fromUtf8_of_valid delimiterValid, ok_bind, cutPrefix, slice_some, ok_bind, List.drop_left]
  cases found : findSub delimiter tail with
  | none => rfl
  | some index =>
    -- the delimiter's first byte, at `prefix_length + index`, is a whole character
    obtain ⟨after, occurs⟩ := (findSub_eq_some_iff.mp found).1
    have atDelimiter : (keyPrefix ++ tail).drop (index + keyPrefix.length) = a :: (more ++ after) := by
      rw [Nat.add_comm, ← List.drop_drop, List.drop_left, ← occurs, lead]
      rfl
    have boundary := isCharBoundary_after_ascii_at ascii keyValid atDelimiter
    show slice (sliceTo (keyPrefix ++ tail) (index + keyPrefix.length + 1)) _ >>= _ = _
    rw [sliceTo, if_pos boundary, slice_some, ok_bind]
    rfl

/-- **A delimiter that starts with a multi-byte character panics** on every key that holds it
after the prefix: the slice ends inside the character. -/
theorem delimitedPrefix_panics (prefixValid : utf8Valid keyPrefix = true)
    (keyValid : utf8Valid key = true) (delimiterValid : utf8Valid delimiter = true)
    (starts : keyPrefix <+: key) {a : UInt8} {more : List UInt8} (lead : delimiter = a :: more)
    (wide : 0x80 ≤ a) {index : Nat}
    (found : findSub delimiter (key.drop keyPrefix.length) = some index) :
    delimitedPrefix keyPrefix delimiter key =
      .error (.panic ("byte index " ++ toString (index + keyPrefix.length + 1) ++
        " is not a char boundary")) := by
  obtain ⟨tail, rfl⟩ := starts
  obtain ⟨c, rest, rfl, continues⟩ := utf8Valid_lead (lead ▸ delimiterValid) wide
  have cutPrefix : sliceFrom (keyPrefix ++ tail) keyPrefix.length = some tail := by
    rw [sliceFrom, if_pos (isCharBoundary_append keyValid prefixValid), List.drop_left]
  rw [List.drop_left] at found
  obtain ⟨after, occurs⟩ := (findSub_eq_some_iff.mp found).1
  have atDelimiter :
      (keyPrefix ++ tail).drop (index + keyPrefix.length) = a :: c :: (rest ++ after) := by
    rw [Nat.add_comm, ← List.drop_drop, List.drop_left, ← occurs, lead]
    rfl
  have inside := isCharBoundary_continuation atDelimiter continues
  rw [delimitedPrefix, fromUtf8_of_valid prefixValid, ok_bind, fromUtf8_of_valid keyValid, ok_bind,
    fromUtf8_of_valid delimiterValid, ok_bind, cutPrefix, slice_some, ok_bind, found]
  show slice (sliceTo (keyPrefix ++ tail) (index + keyPrefix.length + 1)) _ >>= _ = _
  rw [sliceTo, if_neg (by rw [inside]; exact Bool.false_ne_true)]
  rfl

end Filing

/-! ### The walk -/

section Walk

variable {keyPrefix delimiter : List UInt8} {offset limit : Nat}

/-- A key the walk does not skip starts with the prefix. -/
theorem isPrefixOf_of_not_skipped {key : List UInt8}
    (kept : ¬ (!keyPrefix.isEmpty && !keyPrefix.isPrefixOf key) = true) :
    keyPrefix.isPrefixOf key = true := by
  cases keyPrefix with
  | nil => rfl
  | cons b more => simpa using kept

/-- What the filing of a key returns, when it returns. -/
theorem filing_eq_ok {key : List UInt8} {filed : Option (List UInt8)}
    (filing : (if !delimiter.isEmpty then delimitedPrefix keyPrefix delimiter key else pure none) =
      .ok filed) :
    filed = if delimiter.isEmpty then none
      else (findSub delimiter (key.drop keyPrefix.length)).map fun index =>
        key.take (index + keyPrefix.length + 1) := by
  by_cases empty : delimiter.isEmpty
  · rw [if_neg (by simp [empty])] at filing
    rw [if_pos empty]
    exact (Except.ok.inj filing).symm
  · rw [if_pos (by simpa using empty)] at filing
    rw [if_neg empty]
    exact delimitedPrefix_eq_ok filing

/-- A key the walk reaches is listed exactly when the filing puts it under no common prefix. -/
theorem listed_eq_isNone {key : List UInt8} {filed : Option (List UInt8)}
    (starts : keyPrefix.isPrefixOf key = true)
    (filedIs : filed = if delimiter.isEmpty then none
      else (findSub delimiter (key.drop keyPrefix.length)).map fun index =>
        key.take (index + keyPrefix.length + 1)) :
    listed keyPrefix delimiter key = filed.isNone := by
  subst filedIs
  rw [listed, starts, Bool.true_and]
  by_cases empty : delimiter.isEmpty
  · rw [if_pos empty, empty]
    rfl
  · rw [if_neg empty]
    cases findSub delimiter (key.drop keyPrefix.length) <;> simp [empty]

/-- **The walk's objects**: from a gathering that holds fewer than `limit` objects, as many as the
keys counted past `offset`, the walk adds the listed entries it has not passed yet, past
`offset`, up to `limit` in all. -/
theorem listLoop_objects {rest : List (List UInt8 × α)} {acc acc' : Listing α}
    (run : listLoop keyPrefix delimiter offset limit rest acc = .ok acc')
    (room : acc.objects.length < limit) (counted : acc.objects.length = acc.count - offset) :
    acc'.objects = acc.objects ++
      ((rest.filter fun entry => listed keyPrefix delimiter entry.1).drop
        (offset - acc.count)).take (limit - acc.objects.length) := by
  induction rest generalizing acc with
  | nil =>
    cases run
    simp
  | cons entry rest ih =>
    obtain ⟨key, object⟩ := entry
    rw [listLoop] at run
    by_cases skipped : (!keyPrefix.isEmpty && !keyPrefix.isPrefixOf key) = true
    · -- outside the prefix: neither filed nor listed
      rw [if_pos skipped] at run
      have notListed : listed keyPrefix delimiter key = false := by
        simp only [Bool.and_eq_true, Bool.not_eq_true'] at skipped
        rw [listed, skipped.2, Bool.false_and]
      rw [List.filter_cons_of_neg (by simp [notListed])]
      exact ih run room counted
    · rw [if_neg skipped] at run
      obtain ⟨filed, filing, run⟩ := bind_eq_ok.mp run
      have isListed := listed_eq_isNone (isPrefixOf_of_not_skipped skipped) (filing_eq_ok filing)
      cases filed with
      | some subset =>
        -- filed under a common prefix: not listed
        rw [List.filter_cons_of_neg (by simp [isListed])]
        dsimp only at run
        have kept := ih run (by exact room) (by exact counted)
        exact kept
      | none =>
        rw [List.filter_cons_of_pos (by simp [isListed])]
        dsimp only at run
        by_cases early : acc.count + 1 ≤ offset
        · -- counted among the first `offset`
          rw [if_pos early] at run
          have skipIs : offset - acc.count = offset - (acc.count + 1) + 1 := by omega
          rw [ih run room (by dsimp only; omega), skipIs, List.drop_succ_cons]
        · rw [if_neg early] at run
          have noSkip : offset - acc.count = 0 := by omega
          have moreIs : limit - acc.objects.length = limit - (acc.objects.length + 1) + 1 := by
            omega
          rw [noSkip, List.drop_zero, moreIs, List.take_succ_cons]
          by_cases full : limit ≤ acc.objects.length + 1
          · -- the walk stops at its `limit`-th object
            rw [if_pos ⟨by omega, by simpa using full⟩] at run
            cases run
            rw [Nat.sub_eq_zero_of_le full, List.take_zero]
          · rw [if_neg (by simp; omega)] at run
            have kept := ih run (by simp; omega) (by simp; omega)
            dsimp only at kept
            rw [kept, Nat.sub_eq_zero_of_le (by omega : offset ≤ acc.count + 1), List.drop_zero,
              List.length_append, List.length_singleton, List.append_assoc, List.singleton_append]

theorem mem_setInsert {x y : List UInt8} :
    ∀ {set : List (List UInt8)}, y ∈ setInsert x set ↔ y = x ∨ y ∈ set
  | [] => by simp [setInsert]
  | z :: zs => by
    rw [setInsert]
    split_ifs with before same
    · exact List.mem_cons
    · subst same
      simp
    · rw [List.mem_cons, mem_setInsert, List.mem_cons]
      tauto

/-- **The walk's common prefixes**: each is one the gathering held, or a key of the entries still
to visit that starts with the prefix, cut one byte after the first occurrence of the delimiter
after the prefix. -/
theorem listLoop_commonPrefixes {rest : List (List UInt8 × α)} {acc acc' : Listing α}
    (run : listLoop keyPrefix delimiter offset limit rest acc = .ok acc') {subset : List UInt8}
    (member : subset ∈ acc'.commonPrefixes) :
    subset ∈ acc.commonPrefixes ∨ ∃ key object, (key, object) ∈ rest ∧ keyPrefix <+: key ∧
      ∃ index, findSub delimiter (key.drop keyPrefix.length) = some index ∧
        subset = key.take (index + keyPrefix.length + 1) := by
  induction rest generalizing acc with
  | nil =>
    cases run
    exact Or.inl member
  | cons entry rest ih =>
    obtain ⟨key, object⟩ := entry
    -- a common prefix found further on is found in the longer walk too
    have later : ∀ {acc₁ : Listing α}, listLoop keyPrefix delimiter offset limit rest acc₁ = .ok acc' →
        subset ∈ acc₁.commonPrefixes ∨ ∃ stored value, (stored, value) ∈ (key, object) :: rest ∧
          keyPrefix <+: stored ∧
            ∃ index, findSub delimiter (stored.drop keyPrefix.length) = some index ∧
              subset = stored.take (index + keyPrefix.length + 1) := fun walked =>
      (ih walked).imp_right fun ⟨stored, value, inRest, found⟩ =>
        ⟨stored, value, List.mem_cons_of_mem _ inRest, found⟩
    rw [listLoop] at run
    by_cases skipped : (!keyPrefix.isEmpty && !keyPrefix.isPrefixOf key) = true
    · rw [if_pos skipped] at run
      exact later run
    · rw [if_neg skipped] at run
      obtain ⟨filed, filing, run⟩ := bind_eq_ok.mp run
      have filedIs := filing_eq_ok filing
      cases filed with
      | some filedUnder =>
        dsimp only at run
        rcases later run with inserted | further
        · rcases mem_setInsert.mp inserted with rfl | held
          · -- the key just filed
            split at filedIs
            · cases filedIs
            · obtain ⟨index, found, cut⟩ := Option.map_eq_some_iff.mp filedIs.symm
              refine Or.inr ⟨key, object, List.mem_cons_self, ?_, index, found, cut.symm⟩
              exact List.isPrefixOf_iff_prefix.mp (isPrefixOf_of_not_skipped skipped)
          · exact Or.inl held
        · exact Or.inr further
      | none =>
        -- an object: the common prefixes are left as they were
        dsimp only at run
        split at run
        · have kept := later run
          exact kept
        · split at run
          · cases run
            exact Or.inl member
          · have kept := later run
            exact kept

/-- **The walk returns** on valid keys, from a valid prefix, with a valid delimiter that is empty or
starts with an ASCII byte. -/
theorem listLoop_isOk (prefixValid : utf8Valid keyPrefix = true)
    (delimiterValid : utf8Valid delimiter = true) (ascii : ∀ a ∈ delimiter.head?, a < 0x80)
    {rest : List (List UInt8 × α)} (keysValid : ∀ entry ∈ rest, utf8Valid entry.1 = true)
    (acc : Listing α) : ∃ acc', listLoop keyPrefix delimiter offset limit rest acc = .ok acc' := by
  induction rest generalizing acc with
  | nil => exact ⟨acc, rfl⟩
  | cons entry rest ih =>
    obtain ⟨key, object⟩ := entry
    have restValid := fun entry member => keysValid entry (List.mem_cons_of_mem _ member)
    rw [listLoop]
    by_cases skipped : (!keyPrefix.isEmpty && !keyPrefix.isPrefixOf key) = true
    · rw [if_pos skipped]
      exact ih restValid acc
    · rw [if_neg skipped]
      -- the filing returns: nothing to file under, or a cut that ends on a char boundary
      obtain ⟨filed, filing⟩ : ∃ filed, (if !delimiter.isEmpty then
          delimitedPrefix keyPrefix delimiter key else pure none) = .ok filed := by
        cases delimiter with
        | nil => exact ⟨none, rfl⟩
        | cons a more =>
          rw [if_pos (show (!(a :: more).isEmpty) = true from rfl)]
          exact ⟨_, delimitedPrefix_of_ascii prefixValid (keysValid _ List.mem_cons_self)
            delimiterValid (List.isPrefixOf_iff_prefix.mp (isPrefixOf_of_not_skipped skipped)) rfl
            (ascii a rfl)⟩
      rw [filing, ok_bind]
      cases filed with
      | some filedUnder => exact ih restValid _
      | none =>
        dsimp only
        split
        · exact ih restValid _
        · split
          · exact ⟨_, rfl⟩
          · exact ih restValid _

end Walk

/-! ### The listing -/

section Listing

variable {keyPrefix delimiter : List UInt8} {offset limit : UInt64}
  {entries : List (List UInt8 × α)} {result : ObjectList α}

theorem listLimit_pos (limit : UInt64) : 0 < listLimit limit := by
  unfold listLimit maxListLimit
  split_ifs with zero
  · omega
  · have positive : limit.toNat ≠ 0 := fun none => zero (UInt64.toNat_inj.mp none)
    omega

/-- **The objects `list` returns** are the listed entries, in the walk's order, after the first
`offset` of them, at most `limit` of them (`MAX_LIST_LIMIT` when `limit` is `0`). -/
theorem list_objects (listing : list entries keyPrefix delimiter offset limit = .ok result) :
    result.objects = ((entries.filter fun entry => listed keyPrefix delimiter entry.1).drop
      offset.toNat).take (listLimit limit) := by
  obtain ⟨acc, run, done⟩ := bind_eq_ok.mp listing
  cases Except.ok.inj done
  have walked := listLoop_objects run (listLimit_pos limit) (by simp)
  simpa using walked

/-- **Every common prefix `list` returns** is a stored key that starts with the prefix, cut one
byte after the first occurrence of the delimiter after the prefix. -/
theorem mem_commonPrefixes_list (listing : list entries keyPrefix delimiter offset limit = .ok result)
    {subset : List UInt8} (member : subset ∈ result.commonPrefixes) :
    ∃ key object, (key, object) ∈ entries ∧ keyPrefix <+: key ∧
      ∃ index, findSub delimiter (key.drop keyPrefix.length) = some index ∧
        subset = key.take (index + keyPrefix.length + 1) := by
  obtain ⟨acc, run, done⟩ := bind_eq_ok.mp listing
  cases Except.ok.inj done
  rcases listLoop_commonPrefixes run member with held | found
  · cases held
  · exact found

/-- **`list` returns** on valid keys, from a valid prefix, with a valid delimiter that is empty or
starts with an ASCII byte. -/
theorem list_isOk (prefixValid : utf8Valid keyPrefix = true)
    (delimiterValid : utf8Valid delimiter = true) (ascii : ∀ a ∈ delimiter.head?, a < 0x80)
    (keysValid : ∀ entry ∈ entries, utf8Valid entry.1 = true) :
    ∃ result, list entries keyPrefix delimiter offset limit = .ok result := by
  obtain ⟨acc, run⟩ := @listLoop_isOk α keyPrefix delimiter offset.toNat (listLimit limit)
    prefixValid delimiterValid ascii entries keysValid ⟨[], [], 0⟩
  exact ⟨_, by rw [list, run, ok_bind]; rfl⟩

/-- The delimiter `é`, two bytes, on the key `aéb`: the slice ends inside the `é`. -/
theorem list_panics_inside_delimiter :
    list [([0x61, 0xC3, 0xA9, 0x62], ())] [] [0xC3, 0xA9] 0 0 =
      .error (.panic "byte index 2 is not a char boundary") := by
  rfl

/-- With the two-byte delimiter `//` the common prefix of `a//b` keeps one slash. -/
example : list [([0x61, 0x2F, 0x2F, 0x62], ())] [] [0x2F, 0x2F] 0 0 =
    .ok ⟨[], [[0x61, 0x2F]]⟩ := by
  rfl

end Listing


end Ipc.Objectstore
