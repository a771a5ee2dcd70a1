/-
**Solidity ABI words, as `ethabi` reads and writes them.**

The ABI lays a value out in 32-byte words: a `uintN` is one big-endian word (`word`), and a
dynamic `bytes` value is an offset word in its place, pointing at a length word followed by the
bytes, right-padded with zeros to whole words (`padRight`). The decoder of `ethabi` reads a word at
an offset (`peekWord`, `peek_32_bytes`), reads offsets and lengths from words whose first 28 bytes
are zero (`asUsize`, `as_usize`), and takes a run of bytes (`takeBytes`, `take_bytes` without
validation); each step fails when it reads past the data.

* `peekWord_append`, `takeBytes_append` — a word or a run of bytes laid at an offset is read back
  there, whatever comes before and after it;
* `beValue_word`, `asUsize_word` — a word reads back as its number, and as an offset when the
  number is below `2 ^ 32`.
-/

import Mathlib
import Ipc.Lib.Bytes

namespace Ipc.Lib

/-- A 32-byte word holding `n`, big-endian (`uint256`). -/
def word (n : Nat) : List UInt8 := beBytes 32 n

/-- `bytes` right-padded with zero bytes to a whole number of words. -/
def padRight (bs : List UInt8) : List UInt8 :=
  bs ++ List.replicate ((32 - bs.length % 32) % 32) 0

/-- `peek_32_bytes`: the word at `offset`, when it lies inside the data. -/
def peekWord (data : List UInt8) (offset : Nat) : Except String (List UInt8) :=
  if offset + 32 ≤ data.length then .ok ((data.drop offset).take 32) else .error "Invalid data"

/-- `as_usize`: a word read as an offset or a length, which its first 28 bytes must leave
below `2 ^ 32`. -/
def asUsize (w : List UInt8) : Except String Nat :=
  if (w.take 28).all (· == 0) then .ok (beValue (w.drop 28)) else .error "Invalid data"

/-- `take_bytes` without validation: `len` bytes at `offset`, when they lie inside the data. -/
def takeBytes (data : List UInt8) (offset len : Nat) : Except String (List UInt8) :=
  if offset + len ≤ data.length then .ok ((data.drop offset).take len) else .error "Invalid data"

@[simp]
theorem length_word (n : Nat) : (word n).length = 32 := length_beBytes 32 n

/-- A run of bytes laid at an offset is taken back there. -/
theorem takeBytes_append (pre bs post : List UInt8) {offset : Nat} (before : pre.length = offset) :
    takeBytes (pre ++ (bs ++ post)) offset bs.length = .ok bs := by
  subst before
  rw [takeBytes, if_pos (by simp), List.drop_left, List.take_left]

/-- A word laid at an offset is read back there. -/
theorem peekWord_append (pre post : List UInt8) {w : List UInt8} {offset : Nat}
    (before : pre.length = offset) (len : w.length = 32) :
    peekWord (pre ++ (w ++ post)) offset = .ok w := by
  subst before
  rw [peekWord, if_pos (by simp [len]), List.drop_left, ← len, List.take_left]

theorem beValue_word {n : Nat} (lt : n < 2 ^ 256) : beValue (word n) = n := by
  rw [word, beValue_beBytes, Nat.mod_eq_of_lt (by simpa using lt)]

/-- A word below `2 ^ 32` reads as an offset: its 28 high bytes are zero. -/
theorem asUsize_word {n : Nat} (lt : n < 2 ^ 32) : asUsize (word n) = .ok n := by
  have split : word n = beBytes 28 0 ++ beBytes 4 n := by
    rw [word, show 32 = 28 + 4 from rfl, beBytes_add, Nat.div_eq_of_lt (by simpa using lt)]
  rw [asUsize, split, List.take_left' (length_beBytes 28 0), List.drop_left' (length_beBytes 28 0),
    beBytes_zero, if_pos (by simp), beValue_beBytes, Nat.mod_eq_of_lt (by simpa using lt)]

end Ipc.Lib
