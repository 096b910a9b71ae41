import ShareCompute.Library.BigEndian
import Mathlib.Data.List.DropRight

namespace ShareCompute.Library

/-!
# Base64

Bytes as letters of an alphabet of 64, six bits a letter, and the decoders that differ in what
they want behind the last letter.

* `sextets`, `unsextets` — the numbers that the letters stand for, and the bytes back.
* `Alphabet.encode` — with the padding to a multiple of four.
* `Alphabet.decodePadded`, `Alphabet.decodeOptional` — a decoder that insists on the padding, and
  one that does not.
-/

/-! ### Sixes of bits -/

/-- Three bytes are four numbers of six bits; one is two, two are three. -/
def sextets : Bytes → List ℕ
  | [] => []
  | [a] => [a.toNat / 4, a.toNat % 4 * 16]
  | [a, b] => [a.toNat / 4, a.toNat % 4 * 16 + b.toNat / 16, b.toNat % 16 * 4]
  | a :: b :: c :: bytes =>
    a.toNat / 4 :: (a.toNat % 4 * 16 + b.toNat / 16) :: (b.toNat % 16 * 4 + c.toNat / 64) ::
      c.toNat % 64 :: sextets bytes

/-- The bytes of numbers of six bits; what is left of the last byte is dropped. -/
def unsextets : List ℕ → Option Bytes
  | [] => some []
  | [_] => none
  | [w, x] => some [UInt8.ofNat (w * 4 + x / 16)]
  | [w, x, y] => some [UInt8.ofNat (w * 4 + x / 16), UInt8.ofNat (x % 16 * 16 + y / 4)]
  | w :: x :: y :: z :: rest => do
    let bytes ← unsextets rest
    return UInt8.ofNat (w * 4 + x / 16) :: UInt8.ofNat (x % 16 * 16 + y / 4) ::
      UInt8.ofNat (y % 4 * 64 + z) :: bytes

/-- Every sextet is a number below 64. -/
theorem sextets_lt (bytes : Bytes) : ∀ n ∈ sextets bytes, n < 64 := by
  fun_induction sextets bytes with
  | case1 => simp
  | case2 a =>
    have ha := a.toNat_lt
    simp
    omega
  | case3 a b =>
    have ha := a.toNat_lt
    have hb := b.toNat_lt
    simp
    omega
  | case4 a b c bytes ih =>
    have ha := a.toNat_lt
    have hb := b.toNat_lt
    have hc := c.toNat_lt
    simp only [List.forall_mem_cons]
    exact ⟨by omega, by omega, by omega, by omega, ih⟩

/-- A byte from its value, in whichever form the value is given. -/
theorem ofNat_eq (byte : UInt8) {n : ℕ} (h : n = byte.toNat) : UInt8.ofNat n = byte := by
  rw [h, UInt8.ofNat_toNat]

/-- **The bytes come back**, whatever their number is modulo three. -/
theorem unsextets_sextets (bytes : Bytes) : unsextets (sextets bytes) = some bytes := by
  fun_induction sextets bytes with
  | case1 => rfl
  | case2 a =>
    have ha := a.toNat_lt
    rw [unsextets, ofNat_eq a (by omega)]
  | case3 a b =>
    have ha := a.toNat_lt
    have hb := b.toNat_lt
    rw [unsextets, ofNat_eq a (by omega), ofNat_eq b (by omega)]
  | case4 a b c bytes ih =>
    have ha := a.toNat_lt
    have hb := b.toNat_lt
    have hc := c.toNat_lt
    rw [unsextets, ih, ofNat_eq a (by omega), ofNat_eq b (by omega), ofNat_eq c (by omega)]
    rfl

/-- As many bytes have as many sextets: three bytes have four, and one or two at the end have one
    more each. -/
theorem length_sextets (bytes : Bytes) :
    (sextets bytes).length = (4 * bytes.length + 2) / 3 := by
  fun_induction sextets bytes with
  | case1 => rfl
  | case2 a => simp
  | case3 a b => simp
  | case4 a b c bytes ih =>
    simp only [List.length_cons, ih]
    omega

/-- As many paddings as bytes are missing, or letters. -/
theorem pads_eq (n : ℕ) : (3 - n % 3) % 3 = (4 - (4 * n + 2) / 3 % 4) % 4 ∧
    ((4 * n + 2) / 3 + (3 - n % 3) % 3) % 4 = 0 := by
  obtain h | h | h : n % 3 = 0 ∨ n % 3 = 1 ∨ n % 3 = 2 := by omega
  all_goals omega

/-! ### Letters -/

/-- The letters for the numbers of six bits; the padding is none of them. -/
structure Alphabet where
  letters : List Char
  length_letters : letters.length = 64
  nodup : letters.Nodup
  pad_not_mem : '=' ∉ letters

namespace Alphabet

/-- The letters and digits, which the alphabets have in common. -/
def alphanumerics : List Char :=
  ['A', 'B', 'C', 'D', 'E', 'F', 'G', 'H', 'I', 'J', 'K', 'L', 'M', 'N', 'O', 'P', 'Q', 'R', 'S',
    'T', 'U', 'V', 'W', 'X', 'Y', 'Z', 'a', 'b', 'c', 'd', 'e', 'f', 'g', 'h', 'i', 'j', 'k', 'l',
    'm', 'n', 'o', 'p', 'q', 'r', 's', 't', 'u', 'v', 'w', 'x', 'y', 'z', '0', '1', '2', '3', '4',
    '5', '6', '7', '8', '9']

/-- The alphabet of base64, with plus and slash as its last letters. -/
def standard : Alphabet where
  letters := alphanumerics ++ ['+', '/']
  length_letters := rfl
  nodup := by decide
  pad_not_mem := by decide

/-- The alphabet of base64 for URLs and file names. -/
def urlSafe : Alphabet where
  letters := alphanumerics ++ ['-', '_']
  length_letters := rfl
  nodup := by decide
  pad_not_mem := by decide

variable (alphabet : Alphabet)

/-- The letter of a sextet; the padding stands where there is none. -/
def letter (n : ℕ) : Char := alphabet.letters.getD n '='

/-- The sextet of a letter, if it is one. -/
def value (c : Char) : Option ℕ := alphabet.letters.idxOf? c

/-- The letters that spell the bytes, without a padding. -/
def spell (bytes : Bytes) : List Char := (sextets bytes).map alphabet.letter

/-- The letters of the bytes, padded to a multiple of four. -/
def encode (bytes : Bytes) : List Char :=
  alphabet.spell bytes ++ List.replicate ((3 - bytes.length % 3) % 3) '='

/-- Groups of four, with one or two paddings in the last one when it is not full. -/
def decodePadded (text : List Char) : Option Bytes :=
  let digits := text.rdropWhile (· = '=')
  if text.length % 4 = 0 ∧ text.length ≤ digits.length + 2 then
    (digits.mapM alphabet.value).bind unsextets
  else none

/-- The padding is optional; what is no letter is skipped. -/
def decodeOptional (text : List Char) : Option Bytes :=
  let kept := text.filter fun c => (alphabet.value c).isSome || c = '='
  let digits := kept.takeWhile (· ≠ '=')
  let pads := kept.dropWhile (· ≠ '=')
  if pads = [] ∨ pads = List.replicate ((4 - digits.length % 4) % 4) '=' then
    (digits.mapM alphabet.value).bind unsextets
  else none

variable {alphabet}

/-- The letter of a number below 64 is in its place of the alphabet. -/
theorem letter_eq {n : ℕ} (h : n < 64) :
    ∃ hn : n < alphabet.letters.length, alphabet.letter n = alphabet.letters[n] := by
  have hn : n < alphabet.letters.length := by
    rw [alphabet.length_letters]
    exact h
  exact ⟨hn, by rw [letter, List.getD_eq_getElem?_getD, List.getElem?_eq_getElem hn,
    Option.getD_some]⟩

/-- The letter of a number below 64 is one of the alphabet. -/
theorem letter_mem {n : ℕ} (h : n < 64) : alphabet.letter n ∈ alphabet.letters := by
  obtain ⟨hn, hletter⟩ := letter_eq h
  rw [hletter]
  exact List.getElem_mem hn

/-- The value of a letter is the number that it stands for. -/
theorem value_letter {n : ℕ} (h : n < 64) : alphabet.value (alphabet.letter n) = some n := by
  obtain ⟨hn, hletter⟩ := letter_eq h
  rw [value, hletter, List.idxOf?_eq_some_iff]
  refine ⟨hn, rfl, fun j hj hsame => ?_⟩
  have heq : j = n := (List.getElem_inj alphabet.nodup).mp hsame
  omega

/-- The values of letters are the numbers that they stand for. -/
theorem mapM_value {ns : List ℕ} (h : ∀ n ∈ ns, n < 64) :
    (ns.map alphabet.letter).mapM alphabet.value = some ns := by
  induction ns with
  | nil => rfl
  | cons n ns ih =>
    rw [List.forall_mem_cons] at h
    rw [List.map_cons, List.mapM_cons, value_letter h.1, ih h.2]
    rfl

/-- Bytes are spelled with letters of the alphabet only. -/
theorem mem_spell {bytes : Bytes} {c : Char} (h : c ∈ alphabet.spell bytes) :
    c ∈ alphabet.letters := by
  obtain ⟨n, hn, rfl⟩ := List.mem_map.mp h
  exact letter_mem (sextets_lt bytes n hn)

/-- No letter of an alphabet is the padding. -/
theorem ne_pad_of_mem {c : Char} (h : c ∈ alphabet.letters) : c ≠ '=' := by
  rintro rfl
  exact alphabet.pad_not_mem h

/-- The bytes come back from their letters. -/
theorem decode_spell (bytes : Bytes) :
    ((alphabet.spell bytes).mapM alphabet.value).bind unsextets = some bytes := by
  rw [spell, mapM_value (sextets_lt bytes)]
  exact unsextets_sextets bytes

/-- Taking the padding off leaves the letters, since none of them is the sign of the padding. -/
theorem unpad (bytes : Bytes) (pads : ℕ) :
    (alphabet.spell bytes ++ List.replicate pads '=').rdropWhile (· = '=')
      = alphabet.spell bytes := by
  induction pads with
  | zero =>
    rw [List.replicate_zero, List.append_nil, List.rdropWhile_eq_self_iff]
    intro hne
    rw [decide_eq_true_eq]
    exact ne_pad_of_mem (mem_spell (List.getLast_mem hne))
  | succ pads ih =>
    rw [List.replicate_succ', ← List.append_assoc, List.rdropWhile_concat_pos _ _ _ (by simp), ih]

/-- Bytes have as many letters as sextets. -/
@[simp] theorem length_spell (bytes : Bytes) :
    (alphabet.spell bytes).length = (4 * bytes.length + 2) / 3 := by
  rw [spell, List.length_map, length_sextets]

/-- The padding that is put is the one that completes the last group. -/
theorem encode_eq (bytes : Bytes) : alphabet.encode bytes = alphabet.spell bytes ++
    List.replicate ((4 - (alphabet.spell bytes).length % 4) % 4) '=' := by
  have hpads : (3 - bytes.length % 3) % 3 = (4 - (alphabet.spell bytes).length % 4) % 4 := by
    rw [length_spell]
    exact (pads_eq bytes.length).1
  rw [encode, hpads]

/-- **A decoder that insists on the padding** reads what was encoded. -/
theorem decodePadded_encode (bytes : Bytes) :
    alphabet.decodePadded (alphabet.encode bytes) = some bytes := by
  have hlength : (alphabet.encode bytes).length % 4 = 0 ∧
      (alphabet.encode bytes).length ≤ (alphabet.spell bytes).length + 2 := by
    rw [encode, List.length_append, List.length_replicate, length_spell]
    exact ⟨(pads_eq bytes.length).2, by omega⟩
  rw [decodePadded, encode, unpad, ← encode]
  exact (if_pos hlength).trans (decode_spell bytes)

/-- **A decoder that does without the padding** reads the letters alone, and skips what is behind
    them. -/
theorem decodeOptional_spell (bytes : Bytes) {behind : List Char}
    (hbehind : ∀ c ∈ behind, c ∉ alphabet.letters ∧ c ≠ '=') :
    alphabet.decodeOptional (alphabet.spell bytes ++ behind) = some bytes := by
  have hkept : (alphabet.spell bytes ++ behind).filter
      (fun c => (alphabet.value c).isSome || c = '=') = alphabet.spell bytes := by
    have hspell : (alphabet.spell bytes).filter (fun c => (alphabet.value c).isSome || c = '=')
        = alphabet.spell bytes := by
      rw [List.filter_eq_self]
      intro c hc
      obtain ⟨n, hn, rfl⟩ := List.mem_map.mp hc
      rw [value_letter (sextets_lt bytes n hn)]
      rfl
    have hskipped : behind.filter (fun c => (alphabet.value c).isSome || c = '=') = [] := by
      rw [List.filter_eq_nil_iff]
      intro c hc
      rw [value, List.idxOf?_eq_none_iff.mpr (hbehind c hc).1]
      simpa using (hbehind c hc).2
    rw [List.filter_append, hspell, hskipped, List.append_nil]
  have hletters : ∀ c ∈ alphabet.spell bytes, decide (c ≠ '=') = true := fun c hc =>
    decide_eq_true (ne_pad_of_mem (mem_spell hc))
  rw [decodeOptional, hkept, List.takeWhile_eq_self_iff.mpr hletters,
    List.dropWhile_eq_nil_iff.mpr hletters]
  exact (if_pos (.inl rfl)).trans (decode_spell bytes)

end Alphabet

end ShareCompute.Library
