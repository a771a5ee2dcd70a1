/-
**Encodings of numbers in bytes.**

`beBytes k n` is the `k` bytes of `n`, most significant first, as `to_be_bytes` writes a `k`-byte
unsigned integer, and `beValue` reads such bytes back (`beValue_beBytes`). The bytes determine the
number modulo `256 ^ k` (`mod_eq_of_beBytes_eq`), so an encoding of numbers below `256 ^ k` is
injective (`beBytes_injective`), and a fixed-width encoding can be split off a concatenation
(`length_beBytes`, `beBytes_add`). `decodeVarintU64` reads the LEB128 numbers of
`unsigned_varint`.
-/

import Mathlib

namespace Ipc.Lib

/-- The `k` bytes of `n` in big-endian order. -/
def beBytes (k n : Nat) : List UInt8 :=
  (List.range k).reverse.map fun i => (n / 256 ^ i % 256).toUInt8

@[simp]
theorem length_beBytes (k n : Nat) : (beBytes k n).length = k := by
  simp [beBytes]

theorem beBytes_succ (k n : Nat) :
    beBytes (k + 1) n = (n / 256 ^ k % 256).toUInt8 :: beBytes k n := by
  simp [beBytes, List.range_succ]

/-- The bytes of a number determine it modulo `256 ^ k`. -/
theorem mod_eq_of_beBytes_eq {k a b : Nat} (same : beBytes k a = beBytes k b) :
    a % 256 ^ k = b % 256 ^ k := by
  -- induction on the width, one leading byte per step
  induction k with
  | zero => simp [Nat.mod_one]
  | succ k ih =>
    rw [beBytes_succ, beBytes_succ, List.cons.injEq] at same
    obtain ⟨top, rest⟩ := same
    have digit : a / 256 ^ k % 256 = b / 256 ^ k % 256 := by
      have bytes := congrArg UInt8.toNat top
      simpa using bytes
    rw [Nat.mod_pow_succ, Nat.mod_pow_succ, ih rest, digit]

/-- The number a big-endian byte string holds (`from_big_endian`). -/
def beValue : List UInt8 → Nat
  | [] => 0
  | b :: rest => b.toNat * 256 ^ rest.length + beValue rest

/-- Reading the `k` bytes of `n` back gives `n` modulo `256 ^ k`. -/
@[simp]
theorem beValue_beBytes (k n : Nat) : beValue (beBytes k n) = n % 256 ^ k := by
  induction k with
  | zero => simp [beBytes, beValue, Nat.mod_one]
  | succ k ih =>
    have digit : (n / 256 ^ k % 256).toUInt8.toNat = n / 256 ^ k % 256 := by simp
    rw [beBytes_succ, beValue, ih, length_beBytes, digit, Nat.mod_pow_succ, Nat.add_comm,
      Nat.mul_comm]

/-- The bytes of `n` split into its high and its low bytes. -/
theorem beBytes_add (a b n : Nat) : beBytes (a + b) n = beBytes a (n / 256 ^ b) ++ beBytes b n := by
  induction a with
  | zero => simp [beBytes]
  | succ a ih =>
    rw [Nat.add_right_comm, beBytes_succ, ih, beBytes_succ, Nat.div_div_eq_div_mul, ← Nat.pow_add,
      List.cons_append, Nat.add_comm b a]

/-- The bytes of zero are zero bytes. -/
theorem beBytes_zero (k : Nat) : beBytes k 0 = List.replicate k 0 := by
  induction k with
  | zero => rfl
  | succ k ih =>
    rw [beBytes_succ, ih, Nat.zero_div, Nat.zero_mod, List.replicate_succ]
    rfl

theorem beBytes_injective {k a b : Nat} (ha : a < 256 ^ k) (hb : b < 256 ^ k)
    (same : beBytes k a = beBytes k b) : a = b := by
  have low := mod_eq_of_beBytes_eq same
  rwa [Nat.mod_eq_of_lt ha, Nat.mod_eq_of_lt hb] at low

/-- `unsigned_varint::decode::u64`: LEB128, seven bits a byte from the least significant, a set top
bit marking that more follow; at most ten bytes, and a zero last byte after the first is not
minimal. Returns the number and the bytes after it. -/
def decodeVarintU64 (buf : List UInt8) : Except String (UInt64 × List UInt8) := go buf 0 0
where
  /-- The loop over the bytes, with the index `i` of the byte and the bits `n` read so far. -/
  go : List UInt8 → Nat → UInt64 → Except String (UInt64 × List UInt8)
  | [], _, _ => .error "insufficient"
  | b :: rest, i, n =>
    let n := n ||| ((b &&& 0x7F).toUInt64 <<< (7 * i).toUInt64)
    if b &&& 0x80 = 0 then
      if b = 0 ∧ 0 < i then .error "not minimal" else .ok (n, rest)
    else if i = 9 then .error "overflow"
    else go rest (i + 1) n

end Ipc.Lib
