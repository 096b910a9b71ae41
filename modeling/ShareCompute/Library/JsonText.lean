import ShareCompute.Library.Json
import Mathlib.Data.List.Nodup

namespace ShareCompute.Library.Json

/-!
# What stands in a JSON text

* `printMembers_cons` — the members of an object, one behind the other.
* `forall_print` — what holds of the printable characters and of the escapes of a writer holds of
  every character it writes.
* `readChar_hex4`, `readChar_surrogates` — the escapes that name a character by its number.
* `isNumber_intLiteral_append`, `readInt_intLiteral` — the decimal text of an integer.
-/

/-! ### Members -/

/-- The text of a member: its quoted name, a colon, and its value. -/
def printMember (escape : Char → List Char) (member : String × Value) : List Char :=
  quote escape member.1 ++ ':' :: member.2.print escape

/-- The members of an object that has some, one behind the other. -/
theorem printMembers_cons (escape : Char → List Char) (member : String × Value)
    (members : List (String × Value)) :
    printMembers escape (member :: members)
      = printMember escape member
        ++ (members.flatMap (fun m => ',' :: printMember escape m) ++ ['}']) := by
  induction members generalizing member with
  | nil => rw [printMembers, printMember]; simp
  | cons member' members ih =>
    rw [printMembers_cons_cons, ih]
    simp [printMember]

/-- The members of an object are well formed exactly if each value is. -/
theorem membersWellFormed_iff {members : List (String × Value)} :
    MembersWellFormed members ↔ ∀ m ∈ members, m.2.WellFormed := by
  induction members with
  | nil => simp [MembersWellFormed]
  | cons member members ih => simp [MembersWellFormed, ih]

/-! ### The characters of a text -/

/-- What the writer itself puts into a text. -/
def isPrintable (c : Char) : Prop := 32 ≤ c.toNat ∧ c.toNat ≤ 126

/-- Whether a character is printable can be computed. -/
instance (c : Char) : Decidable (isPrintable c) := inferInstanceAs (Decidable (_ ∧ _))

/-- What can stand in a number is printable. -/
theorem isPrintable_of_isNumberChar {c : Char} (h : isNumberChar c = true) : isPrintable c := by
  simp only [isNumberChar, isDigit, Bool.or_eq_true, Bool.and_eq_true, decide_eq_true_eq] at h
  rcases h with ((((⟨hle, hge⟩ | rfl) | rfl) | rfl) | rfl) | rfl
  · have hle' : '0'.toNat ≤ c.toNat := hle
    have hge' : c.toNat ≤ '9'.toNat := hge
    exact ⟨Nat.le_trans (by decide) hle', Nat.le_trans hge' (by decide)⟩
  all_goals decide

/-- The printable characters of a literal text can be checked all at once. -/
theorem forall_isPrintable {text : List Char} (h : text.all (fun c => isPrintable c) = true) :
    ∀ c ∈ text, isPrintable c := fun c hc =>
  of_decide_eq_true (List.all_eq_true.mp h c hc)

/-- A property of what the writer puts into a text. -/
structure Admits (escape : Char → List Char) (P : Char → Prop) : Prop where
  printable : ∀ c, isPrintable c → P c
  escape : ∀ c, ∀ d ∈ escape c, P d

variable {escape : Char → List Char} {P : Char → Prop}

/-- What holds of the printable characters and the escapes holds of every character of a quoted
    string. -/
theorem forall_quote (h : Admits escape P) (text : String) : ∀ d ∈ quote escape text, P d := by
  intro d hd
  simp only [quote, List.mem_cons, List.mem_append, List.mem_flatMap, List.not_mem_nil,
    or_false] at hd
  rcases hd with rfl | ⟨c, -, hd⟩ | rfl
  · exact h.printable _ (by decide)
  · exact h.escape c d hd
  · exact h.printable _ (by decide)

mutual

/-- What holds of printable characters and of the escapes holds of the whole text. -/
theorem forall_print (h : Admits escape P) :
    ∀ value : Value, value.WellFormed → ∀ d ∈ value.print escape, P d
  | .null, _ => by
      rw [Value.print]
      exact fun d hd => h.printable d (forall_isPrintable (by decide) d hd)
  | .bool true, _ => by
      rw [Value.print]
      exact fun d hd => h.printable d (forall_isPrintable (by decide) d hd)
  | .bool false, _ => by
      rw [Value.print]
      exact fun d hd => h.printable d (forall_isPrintable (by decide) d hd)
  | .num literal, hvalue => by
      rw [Value.WellFormed] at hvalue
      rw [Value.print]
      exact fun d hd => h.printable d (isPrintable_of_isNumberChar (all_of_isNumber hvalue d hd))
  | .str text, _ => by
      rw [Value.print]
      exact forall_quote h text
  | .arr items, hvalue => by
      rw [Value.WellFormed] at hvalue
      rw [Value.print]
      exact List.forall_mem_cons.mpr ⟨h.printable _ (by decide), forall_printItems h items hvalue⟩
  | .obj members, hvalue => by
      rw [Value.WellFormed] at hvalue
      rw [Value.print]
      exact List.forall_mem_cons.mpr
        ⟨h.printable _ (by decide), forall_printMembers h members hvalue⟩

/-- What holds of the printable characters and the escapes holds of every character that is written
    for the items of a list. -/
theorem forall_printItems (h : Admits escape P) :
    ∀ items : List Value, ItemsWellFormed items → ∀ d ∈ printItems escape items, P d
  | [], _ => by
      rw [printItems]
      exact List.forall_mem_singleton.mpr (h.printable _ (by decide))
  | [item], hitems => by
      rw [ItemsWellFormed] at hitems
      rw [printItems]
      exact List.forall_mem_append.mpr ⟨forall_print h item hitems.1,
        List.forall_mem_singleton.mpr (h.printable _ (by decide))⟩
  | item :: item' :: items, hitems => by
      rw [ItemsWellFormed] at hitems
      rw [printItems_cons_cons]
      exact List.forall_mem_append.mpr ⟨forall_print h item hitems.1,
        List.forall_mem_cons.mpr ⟨h.printable _ (by decide),
          forall_printItems h (item' :: items) hitems.2⟩⟩

/-- What holds of the printable characters and the escapes holds of every character that is written
    for the members of an object. -/
theorem forall_printMembers (h : Admits escape P) :
    ∀ members : List (String × Value), MembersWellFormed members →
      ∀ d ∈ printMembers escape members, P d
  | [], _ => by
      rw [printMembers]
      exact List.forall_mem_singleton.mpr (h.printable _ (by decide))
  | [(key, value)], hmembers => by
      rw [MembersWellFormed] at hmembers
      rw [printMembers]
      exact List.forall_mem_append.mpr ⟨forall_quote h key,
        List.forall_mem_cons.mpr ⟨h.printable _ (by decide),
          List.forall_mem_append.mpr ⟨forall_print h value hmembers.1,
            List.forall_mem_singleton.mpr (h.printable _ (by decide))⟩⟩⟩
  | (key, value) :: member :: members, hmembers => by
      rw [MembersWellFormed] at hmembers
      rw [printMembers_cons_cons]
      exact List.forall_mem_append.mpr ⟨forall_quote h key,
        List.forall_mem_cons.mpr ⟨h.printable _ (by decide),
          List.forall_mem_append.mpr ⟨forall_print h value hmembers.1,
            List.forall_mem_cons.mpr ⟨h.printable _ (by decide),
              forall_printMembers h (member :: members) hmembers.2⟩⟩⟩⟩

end

/-! ### Hexadecimal escapes -/

/-- A digit below 16, in lower case -/
def hexDigit (n : ℕ) : Char := if n < 10 then Char.ofNat (48 + n) else Char.ofNat (87 + n)

/-- `%04x` of a number below `16 ^ 4` -/
def hex4 (n : ℕ) : List Char :=
  [hexDigit (n / 4096), hexDigit (n / 256 % 16), hexDigit (n / 16 % 16), hexDigit (n % 16)]

/-- The value of a digit is the number that it was written for. -/
theorem hexValue_hexDigit {n : ℕ} (h : n < 16) : hexValue (hexDigit n) = some n := by
  revert n
  decide

/-- A hexadecimal digit is printable, as the letters of an escape must be. -/
theorem isPrintable_hexDigit {n : ℕ} (h : n < 16) : isPrintable (hexDigit n) := by
  revert n
  decide

/-- The reader gets the number of four hexadecimal digits back. -/
theorem readHex4_hex4 {n : ℕ} (h : n < 65536) (rest : List Char) :
    readHex4 (hex4 n ++ rest) = some (n, rest) := by
  have h3 := hexValue_hexDigit (show n / 4096 < 16 by omega)
  have h2 := hexValue_hexDigit (show n / 256 % 16 < 16 by omega)
  have h1 := hexValue_hexDigit (show n / 16 % 16 < 16 by omega)
  have h0 := hexValue_hexDigit (show n % 16 < 16 by omega)
  simp only [hex4, List.cons_append, List.nil_append, readHex4, h3, h2, h1, h0]
  congr 2
  omega

/-- Four hexadecimal digits are printable, as the letters of an escape must be. -/
theorem isPrintable_hex4 {n : ℕ} (h : n < 65536) : ∀ d ∈ hex4 n, isPrintable d := by
  intro d hd
  simp only [hex4, List.mem_cons, List.not_mem_nil, or_false] at hd
  rcases hd with rfl | rfl | rfl | rfl <;> exact isPrintable_hexDigit (by omega)

/-- A scalar that needs no escape is read as it is. -/
theorem readChar_self {c : Char} (hslash : c ≠ '\\') (hcontrol : ¬ c.toNat < 32)
    (rest : List Char) : readChar (c :: rest) = some (c, rest) := by
  unfold readChar
  split
  · next heq => exact absurd (List.cons.inj heq).1 hslash
  · next heq => exact absurd (List.cons.inj heq).1 hslash
  · next heq =>
    obtain ⟨rfl, rfl⟩ := List.cons.inj heq
    exact if_neg (not_or.mpr ⟨hcontrol, hslash⟩)
  · next heq => cases heq

/-- A scalar that is one code unit is read back from its escape. -/
theorem readChar_hex4 {c : Char} (h : c.toNat < 65536) (rest : List Char) :
    readChar ('\\' :: 'u' :: (hex4 c.toNat ++ rest)) = some (c, rest) := by
  have hread := readHex4_hex4 h rest
  have hvalid := c.valid
  have hscalar : c.toNat < 0xd800 ∨ 0xdfff < c.toNat ∧ c.toNat < 0x110000 := hvalid
  rw [readChar, hread]
  simp only [readUnit]
  rw [if_neg (by omega), if_neg (by omega), Char.ofNat_toNat]

/-- A scalar beyond is read back from the escapes of its surrogates. -/
theorem readChar_surrogates {c : Char} (h : ¬ c.toNat < 65536) (rest : List Char) :
    readChar ('\\' :: 'u' :: (hex4 (0xd800 + (c.toNat - 0x10000) / 0x400)
      ++ '\\' :: 'u' :: (hex4 (0xdc00 + (c.toNat - 0x10000) % 0x400) ++ rest)))
      = some (c, rest) := by
  have hvalid : c.toNat < 0xd800 ∨ 0xdfff < c.toNat ∧ c.toNat < 0x110000 := c.valid
  have hhigh := readHex4_hex4 (n := 0xd800 + (c.toNat - 0x10000) / 0x400) (by omega)
    ('\\' :: 'u' :: (hex4 (0xdc00 + (c.toNat - 0x10000) % 0x400) ++ rest))
  have hlow := readHex4_hex4 (n := 0xdc00 + (c.toNat - 0x10000) % 0x400) (by omega) rest
  rw [readChar, hhigh]
  simp only [readUnit, hlow]
  rw [if_pos (by omega), if_pos (by omega)]
  have hvalue : 0x10000 + (0xd800 + (c.toNat - 0x10000) / 0x400 - 0xd800) * 0x400
      + (0xdc00 + (c.toNat - 0x10000) % 0x400 - 0xdc00) = c.toNat := by omega
  rw [hvalue, Char.ofNat_toNat]

/-! ### Integers -/

/-- The decimal text of an integer, with a sign where it is negative. -/
def intLiteral (n : ℤ) : List Char :=
  if n < 0 then '-' :: Nat.toDigits 10 n.natAbs else Nat.toDigits 10 n.natAbs

/-- The integer of a literal that is neither a fraction nor has an exponent. -/
def readInt : List Char → Option ℤ
  | '-' :: digits => if digits.all isDigit then some (-(Nat.ofDigitChars 10 digits 0)) else none
  | digits => if digits.all isDigit then some (Nat.ofDigitChars 10 digits 0) else none

/-- The decimal digits of a number are digits for the reader. -/
theorem isDigit_of_mem_toDigits {n : ℕ} {c : Char} (h : c ∈ Nat.toDigits 10 n) :
    isDigit c = true := by
  have hdigit := Nat.isDigit_of_mem_toDigits (by decide) (by decide) h
  simpa [isDigit, Char.isDigit, Char.le_def] using hdigit

/-- A positive number does not begin with a zero. -/
theorem toDigits_head {n : ℕ} (h : n ≠ 0) :
    ∃ c digits, Nat.toDigits 10 n = c :: digits ∧ c ≠ '0' := by
  induction n using Nat.strong_induction_on with
  | _ n ih =>
    rw [Nat.toDigits_eq_if (by decide)]
    split
    · next hlt =>
      have hone : ∀ m < 10, m ≠ 0 → Nat.digitChar m ≠ '0' := by decide
      exact ⟨_, [], rfl, hone n hlt h⟩
    · next hge =>
      obtain ⟨c, digits, hdigits, hc⟩ := ih (n / 10) (by omega) (by omega)
      exact ⟨c, _, by rw [hdigits, List.cons_append], hc⟩

/-- The decimal digits of a number do not begin with a zero, unless that is all. -/
theorem isInt_toDigits (n : ℕ) : isInt (Nat.toDigits 10 n) = true := by
  by_cases hn : n = 0
  · subst hn
    decide
  · obtain ⟨c, digits, hdigits, hc⟩ := toDigits_head hn
    have hall : ∀ d ∈ c :: digits, isDigit d = true := fun d hd =>
      isDigit_of_mem_toDigits (hdigits ▸ hd)
    rw [hdigits]
    unfold isInt
    split
    · rfl
    · next heq =>
      obtain ⟨rfl, rfl⟩ := List.cons.inj heq
      rw [List.forall_mem_cons] at hall
      simp [hc, hall.1, List.all_eq_true.mpr hall.2]
    · next heq => cases heq

/-- Decimal digits with a fraction behind them; the digits end where the fraction begins. -/
theorem isUnsigned_toDigits_append (n : ℕ) {fraction : List Char} (h : isFraction fraction = true)
    (hstop : ∀ c ∈ fraction.head?, isDigit c = false) :
    isUnsigned (Nat.toDigits 10 n ++ fraction) = true := by
  have hall : ∀ c ∈ Nat.toDigits 10 n, isDigit c = true := fun c hc => isDigit_of_mem_toDigits hc
  have htake : fraction.takeWhile isDigit = [] ∧ fraction.dropWhile isDigit = fraction := by
    cases fraction with
    | nil => exact ⟨rfl, rfl⟩
    | cons c rest =>
      have hc : ¬ isDigit c = true := by simp [hstop c rfl]
      exact ⟨List.takeWhile_cons_of_neg hc, List.dropWhile_cons_of_neg hc⟩
  rw [isUnsigned, List.takeWhile_append_of_pos hall, List.dropWhile_append_of_pos hall, htake.1,
    htake.2, List.append_nil, isInt_toDigits, h]
  rfl

/-- A literal that does not begin with a sign is read as it is. -/
theorem toDigits_ne_minus (n : ℕ) (digits : List Char) : Nat.toDigits 10 n ≠ '-' :: digits := by
  intro heq
  have hminus := isDigit_of_mem_toDigits (n := n) (heq ▸ List.mem_cons_self)
  exact absurd hminus (by decide)

/-- The text of an integer with a fraction behind it is a number, such as `12.0`. -/
theorem isNumber_intLiteral_append (n : ℤ) {fraction : List Char} (h : isFraction fraction = true)
    (hstop : ∀ c ∈ fraction.head?, isDigit c = false) :
    isNumber (intLiteral n ++ fraction) = true := by
  rw [intLiteral]
  split
  · exact isUnsigned_toDigits_append _ h hstop
  · unfold isNumber
    split
    · next digits heq =>
      cases hdigits : Nat.toDigits 10 n.natAbs with
      | nil => exact absurd hdigits Nat.toDigits_ne_nil
      | cons c rest =>
        rw [hdigits] at heq
        obtain ⟨rfl, -⟩ := List.cons.inj heq
        exact absurd hdigits (toDigits_ne_minus _ _)
    · exact isUnsigned_toDigits_append _ h hstop

/-- The text of an integer is a number of JSON. -/
theorem isNumber_intLiteral (n : ℤ) : isNumber (intLiteral n) = true := by
  have hnone : ∀ c ∈ ([] : List Char).head?, isDigit c = false := by simp
  simpa using @isNumber_intLiteral_append n [] rfl hnone

/-- The reader gets an integer back from its text. -/
theorem readInt_intLiteral (n : ℤ) : readInt (intLiteral n) = some n := by
  have hall : (Nat.toDigits 10 n.natAbs).all isDigit = true :=
    List.all_eq_true.mpr fun c hc => isDigit_of_mem_toDigits hc
  rw [intLiteral]
  split
  · rw [readInt, if_pos hall, Nat.ofDigitChars_ten_toDigits]
    congr 1
    omega
  · unfold readInt
    split
    · next heq => exact absurd heq (toDigits_ne_minus _ _)
    · rw [if_pos hall, Nat.ofDigitChars_ten_toDigits]
      congr 1
      omega

end ShareCompute.Library.Json
