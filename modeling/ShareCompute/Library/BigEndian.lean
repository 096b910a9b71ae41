import Mathlib.Algebra.Order.Ring.Nat
import Mathlib.Data.List.Induction

namespace ShareCompute.Library

/-!
# Big-endian numbers and texts in a byte stream

* `packBE`, `unpackBE` — a natural number in a fixed number of bytes, and back.
* `utf8`, `decodeUtf8` — a text in bytes, and back.
* `takeBytes` — the next bytes of a stream; what was written first is read first.
-/

/-- Bytes in the order in which they are written. -/
abbrev Bytes := List UInt8

/-! ### Numbers -/

/-- The last `width` digits of `n` in base 256, most significant first. -/
def packBE : ℕ → ℕ → Bytes
  | 0, _ => []
  | width + 1, n => packBE width (n / 256) ++ [UInt8.ofNat n]

/-- The number that bytes stand for, the most significant byte first. -/
def unpackBE (bytes : Bytes) : ℕ := bytes.foldl (fun n byte => 256 * n + byte.toNat) 0

/-- A number is packed into exactly as many bytes as asked for. -/
@[simp] theorem length_packBE (width n : ℕ) : (packBE width n).length = width := by
  induction width generalizing n with
  | zero => rfl
  | succ width ih => simp [packBE, ih]

/-- A byte behind others is the least significant one. -/
@[simp] theorem unpackBE_snoc (bytes : Bytes) (byte : UInt8) :
    unpackBE (bytes ++ [byte]) = 256 * unpackBE bytes + byte.toNat := by
  simp [unpackBE]

/-- So many bytes stand for a number below the power of 256 with this exponent. -/
theorem unpackBE_lt (bytes : Bytes) : unpackBE bytes < 256 ^ bytes.length := by
  induction bytes using List.reverseRecOn with
  | nil => simp [unpackBE]
  | append_singleton bytes byte ih =>
    have hbyte : byte.toNat < 256 := byte.toNat_lt
    rw [unpackBE_snoc, List.length_append, List.length_singleton, pow_succ]
    omega

/-- A number that fits is read back. -/
theorem unpackBE_packBE {width n : ℕ} (h : n < 256 ^ width) :
    unpackBE (packBE width n) = n := by
  induction width generalizing n with
  | zero =>
    have hzero : n = 0 := by simpa using h
    rw [hzero]
    rfl
  | succ width ih =>
    have hhigh : n / 256 < 256 ^ width := by
      rw [pow_succ] at h
      exact Nat.div_lt_of_lt_mul (by omega)
    rw [packBE, unpackBE_snoc, ih hhigh, UInt8.toNat_ofNat']
    omega

/-! ### Texts -/

/-- The bytes of a text in UTF-8. -/
def utf8 (text : String) : Bytes := text.toUTF8.data.toList

/-- The text of bytes in UTF-8; none where they are malformed. -/
def decodeUtf8 (bytes : Bytes) : Option String := String.fromUTF8? ⟨bytes.toArray⟩

/-- A text comes back from its bytes. -/
@[simp] theorem decodeUtf8_utf8 (text : String) : decodeUtf8 (utf8 text) = some text := by
  rw [decodeUtf8, utf8, Array.toArray_toList, String.fromUTF8?]
  exact dif_pos text.isValidUTF8

/-- The bytes of a text are those of its characters, one after the other. -/
theorem utf8_ofList (chars : List Char) :
    utf8 (.ofList chars) = chars.flatMap String.utf8EncodeChar := by
  rw [utf8, String.toUTF8_eq_toByteArray, String.toByteArray_ofList, List.utf8Encode]
  simp

/-- An ASCII character is encoded as one byte, its own number. -/
theorem utf8EncodeChar_ascii {c : Char} (h : c.toNat < 128) :
    String.utf8EncodeChar c = [UInt8.ofNat c.toNat] := by
  rw [String.utf8EncodeChar_eq_singleton (Char.utf8Size_eq_one_iff.mpr ?_)]
  · rfl
  · show c.val.toNat ≤ 127
    exact Nat.le_of_lt_succ h

/-! ### Streams -/

/-- The next `n` bytes and the stream after them, once they are there. -/
def takeBytes (n : ℕ) (stream : Bytes) : Option (Bytes × Bytes) :=
  if n ≤ stream.length then some (stream.take n, stream.drop n) else none

/-- What was written first is read first, and what follows it stays in the stream. -/
theorem takeBytes_append {n : ℕ} {bytes : Bytes} (h : bytes.length = n) (stream : Bytes) :
    takeBytes n (bytes ++ stream) = some (bytes, stream) := by
  subst h
  rw [takeBytes, if_pos (by rw [List.length_append]; omega), List.take_left, List.drop_left]

end ShareCompute.Library
