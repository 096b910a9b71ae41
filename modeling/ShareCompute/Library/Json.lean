import Mathlib.Data.List.Basic
import Mathlib.Data.List.TakeWhile

namespace ShareCompute.Library.Json

/-!
# JSON texts

A reader of JSON texts (RFC 8259) and a writer without blanks.  A number is kept as its literal,
and a string is a sequence of Unicode scalars, so that the escape of a surrogate without its
partner is not read.  The writer is given the escapes it uses for the characters of a string.

* `parse` — the reader.
* `Value.print` — the writer; `Escapes` says that the reader understands its escapes.
* `parse_print` — reading what was written gives the value back.
-/

/-- A JSON value; the members of an object are in the order of the text, and may repeat a key. -/
inductive Value
  | null
  | bool (value : Bool)
  | num (literal : List Char)
  | str (text : String)
  | arr (items : List Value)
  | obj (members : List (String × Value))

/-! ### Characters -/

/-- The blanks of JSON: `space`, `\t`, `\n` and `\r`. -/
def isBlank (c : Char) : Bool := c = ' ' || c = '\t' || c = '\n' || c = '\r'

/-- The text behind its leading blanks, which begins with none. -/
def skipBlanks (text : List Char) : List Char := text.dropWhile isBlank

/-- A decimal digit, of which the reader knows the ASCII ones only. -/
def isDigit (c : Char) : Bool := '0' ≤ c && c ≤ '9'

/-- The value of a hexadecimal digit in either case. -/
def hexValue (c : Char) : Option ℕ :=
  if '0' ≤ c ∧ c ≤ '9' then some (c.toNat - 48)
  else if 'a' ≤ c ∧ c ≤ 'f' then some (c.toNat - 87)
  else if 'A' ≤ c ∧ c ≤ 'F' then some (c.toNat - 55)
  else none

/-- Four hex digits, as the number they stand for and the text behind them. -/
def readHex4 : List Char → Option (ℕ × List Char)
  | a :: b :: c :: d :: rest =>
      match hexValue a, hexValue b, hexValue c, hexValue d with
      | some a, some b, some c, some d => some (4096 * a + 256 * b + 16 * c + d, rest)
      | _, _, _, _ => none
  | _ => none

/-- What a backslash and this character stand for. -/
def unescape (c : Char) : Option Char :=
  if c = '"' ∨ c = '\\' ∨ c = '/' then some c
  else if c = 'b' then some '\x08'
  else if c = 'f' then some '\x0c'
  else if c = 'n' then some '\n'
  else if c = 'r' then some '\r'
  else if c = 't' then some '\t'
  else none

/-- The scalar of a code unit and, for the first half of a surrogate pair, of the escape of the
    second half that has to follow. -/
def readUnit (unit : ℕ) (rest : List Char) : Option (Char × List Char) :=
  if 0xd800 ≤ unit ∧ unit < 0xdc00 then
    match rest with
    | '\\' :: 'u' :: rest =>
        match readHex4 rest with
        | some (low, rest) =>
            if 0xdc00 ≤ low ∧ low < 0xe000 then
              some (Char.ofNat (0x10000 + (unit - 0xd800) * 0x400 + (low - 0xdc00)), rest)
            else none
        | none => none
    | _ => none
  else if 0xdc00 ≤ unit ∧ unit < 0xe000 then none
  else some (Char.ofNat unit, rest)

/-- One character of a string; control characters have to be escaped. -/
def readChar : List Char → Option (Char × List Char)
  | '\\' :: 'u' :: rest =>
      match readHex4 rest with
      | some (unit, rest) => readUnit unit rest
      | none => none
  | '\\' :: c :: rest => (unescape c).map (fun c => (c, rest))
  | c :: rest => if c.toNat < 32 ∨ c = '\\' then none else some (c, rest)
  | [] => none

/-- A string from behind its opening quote.  A character takes at least one of `fuel`. -/
def readString : ℕ → List Char → Option (List Char × List Char)
  | 0, _ => none
  | _ + 1, '"' :: rest => some ([], rest)
  | fuel + 1, text =>
      match readChar text with
      | some (c, rest) => (readString fuel rest).map (fun p => (c :: p.1, p.2))
      | none => none

/-! ### Numbers -/

/-- The characters that can stand in a number, by which its literal is told from what follows. -/
def isNumberChar (c : Char) : Bool :=
  isDigit c || c = '-' || c = '+' || c = '.' || c = 'e' || c = 'E'

/-- `0`, or digits that do not begin with it -/
def isInt : List Char → Bool
  | ['0'] => true
  | c :: digits => c ≠ '0' && isDigit c && digits.all isDigit
  | [] => false

/-- One digit or more, as behind a point or in an exponent. -/
def isDigits (literal : List Char) : Bool := literal ≠ [] && literal.all isDigit

/-- Nothing, or an exponent with at least one digit. -/
def isExp : List Char → Bool
  | [] => true
  | e :: '+' :: digits => (e = 'e' || e = 'E') && isDigits digits
  | e :: '-' :: digits => (e = 'e' || e = 'E') && isDigits digits
  | e :: digits => (e = 'e' || e = 'E') && isDigits digits

/-- What may follow the whole part of a number -/
def isFraction : List Char → Bool
  | '.' :: rest => isDigits (rest.takeWhile isDigit) && isExp (rest.dropWhile isDigit)
  | rest => isExp rest

/-- A number without its sign: the whole part, and then a fraction or an exponent or nothing. -/
def isUnsigned (literal : List Char) : Bool :=
  isInt (literal.takeWhile isDigit) && isFraction (literal.dropWhile isDigit)

/-- The grammar of a number: an optional sign, and what stands behind it. -/
def isNumber : List Char → Bool
  | '-' :: literal => isUnsigned literal
  | literal => isUnsigned literal

/-- A number at the front of the text is as long as its characters go. -/
def readNumber (text : List Char) : Option (Value × List Char) :=
  let literal := text.takeWhile isNumberChar
  if isNumber literal then some (.num literal, text.dropWhile isNumberChar) else none

/-! ### Values -/

mutual

/-- A value at the front of the text and what follows it. -/
def readValue : ℕ → List Char → Option (Value × List Char)
  | 0, _ => none
  | fuel + 1, text =>
      match skipBlanks text with
      | '{' :: rest =>
          match skipBlanks rest with
          | '}' :: rest => some (.obj [], rest)
          | rest => (readMembers fuel rest).map (fun p => (.obj p.1, p.2))
      | '[' :: rest =>
          match skipBlanks rest with
          | ']' :: rest => some (.arr [], rest)
          | rest => (readItems fuel rest).map (fun p => (.arr p.1, p.2))
      | '"' :: rest => (readString fuel rest).map (fun p => (.str (.ofList p.1), p.2))
      | 't' :: 'r' :: 'u' :: 'e' :: rest => some (.bool true, rest)
      | 'f' :: 'a' :: 'l' :: 's' :: 'e' :: rest => some (.bool false, rest)
      | 'n' :: 'u' :: 'l' :: 'l' :: rest => some (.null, rest)
      | rest => readNumber rest

/-- The items of an array and its closing bracket. -/
def readItems : ℕ → List Char → Option (List Value × List Char)
  | 0, _ => none
  | fuel + 1, text =>
      match readValue fuel text with
      | none => none
      | some (item, rest) =>
          match skipBlanks rest with
          | ']' :: rest => some ([item], rest)
          | ',' :: rest => (readItems fuel rest).map (fun p => (item :: p.1, p.2))
          | _ => none

/-- The members of an object and its closing brace. -/
def readMembers : ℕ → List Char → Option (List (String × Value) × List Char)
  | 0, _ => none
  | fuel + 1, text =>
      match skipBlanks text with
      | '"' :: rest =>
          match readString fuel rest with
          | none => none
          | some (key, rest) =>
              match skipBlanks rest with
              | ':' :: rest =>
                  match readValue fuel rest with
                  | none => none
                  | some (value, rest) =>
                      match skipBlanks rest with
                      | '}' :: rest => some ([(.ofList key, value)], rest)
                      | ',' :: rest =>
                          (readMembers fuel rest).map (fun p => ((.ofList key, value) :: p.1, p.2))
                      | _ => none
              | _ => none
      | _ => none

end

/-- The value of a text that is nothing but the value. -/
def parse (text : List Char) : Option Value :=
  match readValue text.length text with
  | some (value, rest) => if skipBlanks rest = [] then some value else none
  | none => none

/-! ### The writer -/

/-- A string between quotes, with each character written as the writer escapes it. -/
def quote (escape : Char → List Char) (text : String) : List Char :=
  '"' :: (text.toList.flatMap escape ++ ['"'])

mutual

/-- The text of a value, without blanks. -/
def Value.print (escape : Char → List Char) : Value → List Char
  | .null => ['n', 'u', 'l', 'l']
  | .bool true => ['t', 'r', 'u', 'e']
  | .bool false => ['f', 'a', 'l', 's', 'e']
  | .num literal => literal
  | .str text => quote escape text
  | .arr items => '[' :: printItems escape items
  | .obj members => '{' :: printMembers escape members

/-- The items of an array and its closing bracket. -/
def printItems (escape : Char → List Char) : List Value → List Char
  | [] => [']']
  | [item] => item.print escape ++ [']']
  | item :: items => item.print escape ++ ',' :: printItems escape items

/-- The members of an object and its closing brace. -/
def printMembers (escape : Char → List Char) : List (String × Value) → List Char
  | [] => ['}']
  | [(key, value)] => quote escape key ++ ':' :: (value.print escape ++ ['}'])
  | (key, value) :: members =>
      quote escape key ++ ':' :: (value.print escape ++ ',' :: printMembers escape members)

end

mutual

/-- The numbers of a value are written as numbers. -/
def Value.WellFormed : Value → Prop
  | .num literal => isNumber literal = true
  | .arr items => ItemsWellFormed items
  | .obj members => MembersWellFormed members
  | _ => True

/-- Every item of a list is well formed. -/
def ItemsWellFormed : List Value → Prop
  | [] => True
  | item :: items => item.WellFormed ∧ ItemsWellFormed items

/-- Every value of an object is well formed. -/
def MembersWellFormed : List (String × Value) → Prop
  | [] => True
  | (_, value) :: members => value.WellFormed ∧ MembersWellFormed members

end

/-- The reader understands what the writer puts for a character. -/
structure Escapes (escape : Char → List Char) : Prop where
  read : ∀ c rest, readChar (escape c ++ rest) = some (c, rest)
  head : ∀ c, ∃ d rest, escape c = d :: rest ∧ d ≠ '"'

/-! ### Reading what was written -/

/-- A text that does not begin with a blank is left as it is. -/
theorem skipBlanks_cons {c : Char} (h : isBlank c = false) (text : List Char) :
    skipBlanks (c :: text) = c :: text :=
  List.dropWhile_cons_of_neg (by simp [h])

section

variable {escape : Char → List Char} (h : Escapes escape)

include h

/-- A text gets no shorter when its characters are escaped, so it is enough fuel for the reader. -/
theorem length_le_flatMap (text : List Char) : text.length ≤ (text.flatMap escape).length := by
  induction text with
  | nil => exact Nat.le_refl _
  | cons c text ih =>
    obtain ⟨d, rest, hc, -⟩ := h.head c
    rw [List.flatMap_cons, List.length_append, hc, List.length_cons, List.length_cons]
    omega

/-- A string is read up to its closing quote. -/
theorem readString_flatMap (text : List Char) {fuel : ℕ} (hfuel : text.length < fuel)
    (rest : List Char) :
    readString fuel (text.flatMap escape ++ '"' :: rest) = some (text, rest) := by
  induction text generalizing fuel with
  | nil =>
    cases fuel with
    | zero => exact absurd hfuel (Nat.not_lt_zero _)
    | succ fuel => rfl
  | cons c text ih =>
    cases fuel with
    | zero => exact absurd hfuel (Nat.not_lt_zero _)
    | succ fuel =>
      obtain ⟨d, units, hc, hd⟩ := h.head c
      have hread := h.read c (text.flatMap escape ++ '"' :: rest)
      rw [List.flatMap_cons, List.append_assoc]
      rw [hc] at hread ⊢
      rw [List.cons_append] at hread ⊢
      rw [readString, hread]
      · simp only [ih (by simpa using hfuel), Option.map_some]
      · rintro rest' heq
        exact hd (List.cons.inj heq).1

/-- The reader gets a quoted string back, and goes on behind the closing quote. -/
theorem readString_quote (text : String) {fuel : ℕ}
    (hfuel : (quote escape text).length ≤ fuel + 1) (rest : List Char) :
    readString fuel (text.toList.flatMap escape ++ '"' :: rest) = some (text.toList, rest) := by
  refine readString_flatMap h text.toList ?_ rest
  have hlength := length_le_flatMap h text.toList
  simp only [quote, List.length_cons, List.length_append, List.length_nil] at hfuel
  omega

end

/-- A number ends where no character of a number follows. -/
def Ends (rest : List Char) : Prop := ∀ c ∈ rest.head?, isNumberChar c = false

/-- A digit can stand in a number. -/
theorem isNumberChar_of_isDigit {c : Char} (h : isDigit c = true) : isNumberChar c = true := by
  simp [isNumberChar, h]

/-- A digit is no blank, so a number does not lose any to the blanks in front of it. -/
theorem isBlank_of_isDigit {c : Char} (h : isDigit c = true) : isBlank c = false := by
  by_contra hblank
  simp only [isBlank, Bool.not_eq_false, Bool.or_eq_true, decide_eq_true_eq] at hblank
  rcases hblank with ((rfl | rfl) | rfl) | rfl <;> exact absurd h (by decide)

/-- Digits can all stand in a number. -/
theorem all_of_isDigits {digits : List Char} (h : isDigits digits = true) :
    ∀ c ∈ digits, isNumberChar c = true := by
  intro c hc
  rw [isDigits, Bool.and_eq_true, List.all_eq_true] at h
  exact isNumberChar_of_isDigit (h.2 c hc)

/-- The characters of an exponent can all stand in a number. -/
theorem all_of_isExp {rest : List Char} (h : isExp rest = true) :
    ∀ c ∈ rest, isNumberChar c = true := by
  have he : ∀ {e : Char}, (decide (e = 'e') || decide (e = 'E')) = true →
      isNumberChar e = true := by
    intro e he
    rcases (Bool.or_eq_true _ _).mp he with he | he <;>
      simp only [decide_eq_true_eq] at he <;> rw [he] <;> decide
  unfold isExp at h
  split at h
  · simp
  all_goals
    rw [Bool.and_eq_true] at h
    have hdigits := all_of_isDigits h.2
    have hhead := he h.1
    simp only [List.mem_cons, forall_eq_or_imp]
  · exact ⟨hhead, by decide, hdigits⟩
  · exact ⟨hhead, by decide, hdigits⟩
  · exact ⟨hhead, hdigits⟩

/-- What holds of the digits at the front and of the rest holds of all. -/
theorem all_of_span {text : List Char} (h : ∀ c ∈ text.dropWhile isDigit, isNumberChar c = true) :
    ∀ c ∈ text, isNumberChar c = true := by
  intro c hc
  rw [← List.takeWhile_append_dropWhile (p := isDigit) (l := text), List.mem_append] at hc
  rcases hc with hc | hc
  · exact isNumberChar_of_isDigit (List.mem_takeWhile_imp hc)
  · exact h c hc

/-- The characters of a fraction can all stand in a number. -/
theorem all_of_isFraction {rest : List Char} (h : isFraction rest = true) :
    ∀ c ∈ rest, isNumberChar c = true := by
  unfold isFraction at h
  split at h
  · rw [Bool.and_eq_true] at h
    intro c hc
    rcases List.mem_cons.mp hc with rfl | hc
    · decide
    · exact all_of_span (all_of_isExp h.2) c hc
  · exact all_of_isExp h

/-- The characters of a number without a sign can all stand in a number. -/
theorem all_of_isUnsigned {literal : List Char} (h : isUnsigned literal = true) :
    ∀ c ∈ literal, isNumberChar c = true := by
  rw [isUnsigned, Bool.and_eq_true] at h
  exact all_of_span (all_of_isFraction h.2)

/-- A number without a sign begins with a digit. -/
theorem head_of_isUnsigned {literal : List Char} (h : isUnsigned literal = true) :
    ∃ c rest, literal = c :: rest ∧ isDigit c = true := by
  rw [isUnsigned, Bool.and_eq_true] at h
  cases literal with
  | nil => simp [isInt] at h
  | cons c rest =>
    refine ⟨c, rest, rfl, ?_⟩
    by_contra hc
    simp [List.takeWhile_cons_of_neg hc, isInt] at h

/-- The literal of a number is made of characters of a number. -/
theorem all_of_isNumber {literal : List Char} (h : isNumber literal = true) :
    ∀ c ∈ literal, isNumberChar c = true := by
  unfold isNumber at h
  split at h
  · intro c hc
    rcases List.mem_cons.mp hc with rfl | hc
    · decide
    · exact all_of_isUnsigned h c hc
  · exact all_of_isUnsigned h

/-- A number begins with a digit or a minus. -/
theorem head_of_isNumber {literal : List Char} (h : isNumber literal = true) :
    ∃ c rest, literal = c :: rest ∧ (c = '-' ∨ isDigit c = true) := by
  unfold isNumber at h
  split at h
  · exact ⟨_, _, rfl, .inl rfl⟩
  · obtain ⟨c, rest, rfl, hc⟩ := head_of_isUnsigned h
    exact ⟨c, rest, rfl, .inr hc⟩

/-- The reader gets a number back, provided that what follows cannot be a part of it. -/
theorem readNumber_append {literal rest : List Char} (h : isNumber literal = true)
    (hrest : Ends rest) : readNumber (literal ++ rest) = some (.num literal, rest) := by
  have hall := all_of_isNumber h
  have hstop : rest.takeWhile isNumberChar = [] ∧ rest.dropWhile isNumberChar = rest := by
    cases rest with
    | nil => exact ⟨rfl, rfl⟩
    | cons c rest =>
      have hc : ¬ isNumberChar c = true := by simp [hrest c rfl]
      exact ⟨List.takeWhile_cons_of_neg hc, List.dropWhile_cons_of_neg hc⟩
  rw [readNumber, List.takeWhile_append_of_pos hall, List.dropWhile_append_of_pos hall,
    hstop.1, hstop.2, List.append_nil]
  exact if_pos h

/-- The text of a value begins with a character that is neither a blank nor a closing bracket. -/
theorem head_print {escape : Char → List Char} {value : Value} (h : value.WellFormed) :
    ∃ c text, value.print escape = c :: text ∧ isBlank c = false ∧ c ≠ ']' := by
  cases value with
  | null => exact ⟨_, _, by rw [Value.print], by decide, by decide⟩
  | bool value => cases value <;> exact ⟨_, _, by rw [Value.print], by decide, by decide⟩
  | num literal =>
    rw [Value.WellFormed] at h
    obtain ⟨c, rest, rfl, hc⟩ := head_of_isNumber h
    refine ⟨c, rest, by rw [Value.print], ?_, ?_⟩
    · rcases hc with rfl | hc
      · decide
      · exact isBlank_of_isDigit hc
    · rintro rfl
      rcases hc with hc | hc
      · exact absurd hc (by decide)
      · exact absurd hc (by decide)
  | str text => exact ⟨'"', _, by rw [Value.print, quote], by decide, by decide⟩
  | arr items => exact ⟨'[', _, by rw [Value.print], by decide, by decide⟩
  | obj members => exact ⟨'{', _, by rw [Value.print], by decide, by decide⟩

section

variable (escape : Char → List Char)

/-- The items of a list are written with commas between them. -/
theorem printItems_cons_cons (item item' : Value) (items : List Value) :
    printItems escape (item :: item' :: items)
      = item.print escape ++ ',' :: printItems escape (item' :: items) := by
  rw [printItems]
  exact List.cons_ne_nil _ _

/-- The members of an object are written with commas between them. -/
theorem printMembers_cons_cons (key : String) (value : Value) (member : String × Value)
    (members : List (String × Value)) :
    printMembers escape ((key, value) :: member :: members)
      = quote escape key
        ++ ':' :: (value.print escape ++ ',' :: printMembers escape (member :: members)) := by
  rw [printMembers]
  exact List.cons_ne_nil _ _

/-- What is written for the items of a list begins neither with a blank nor with the closing
    bracket. -/
theorem head_printItems {item : Value} (items : List Value) (h : item.WellFormed) :
    ∃ c text, printItems escape (item :: items) = c :: text ∧ isBlank c = false ∧ c ≠ ']' := by
  obtain ⟨c, text, hprint, hc⟩ := @head_print escape item h
  cases items with
  | nil => exact ⟨c, text ++ [']'], by rw [printItems, hprint, List.cons_append], hc⟩
  | cons item' items =>
    exact ⟨c, _, by rw [printItems_cons_cons, hprint, List.cons_append], hc⟩

/-- What is written for the members of an object begins with the quote of the first key. -/
theorem head_printMembers (key : String) (value : Value) (members : List (String × Value)) :
    ∃ text, printMembers escape ((key, value) :: members) = '"' :: text := by
  cases members with
  | nil => exact ⟨_, by rw [printMembers, quote, List.cons_append]⟩
  | cons member members => exact ⟨_, by rw [printMembers_cons_cons, quote, List.cons_append]⟩

end

/-- A character that cannot stand in a number ends one. -/
theorem ends_cons {c : Char} (hc : isNumberChar c = false) (rest : List Char) :
    Ends (c :: rest) := by
  rintro _ ⟨⟩
  exact hc

/-- A number is none of the other values. -/
theorem readValue_num {literal rest : List Char} (h : isNumber literal = true) (hrest : Ends rest)
    (fuel : ℕ) : readValue (fuel + 1) (literal ++ rest) = some (.num literal, rest) := by
  have hread := readNumber_append h hrest
  obtain ⟨c, literal, rfl, hc⟩ := head_of_isNumber h
  have hblank : isBlank c = false := by
    rcases hc with rfl | hc
    · decide
    · exact isBlank_of_isDigit hc
  rw [List.cons_append] at hread ⊢
  rw [readValue, skipBlanks_cons hblank]
  have hne : ∀ d, isDigit d = false → d ≠ '-' → c ≠ d := by
    rintro d hd hminus rfl
    rcases hc with hc | hc
    · exact hminus hc
    · simp [hd] at hc
  split
  case h_7 => exact hread
  all_goals
    next heq =>
      exact absurd (List.cons.inj heq).1 (hne _ (by decide) (by decide))

/-- The reader at a member of an object, up to what follows its value. -/
theorem readMembers_member {escape : Char → List Char} (h : Escapes escape) {key : String}
    {fuel : ℕ} (hkey : (quote escape key).length ≤ fuel + 1) {value : Value}
    {text rest : List Char} (hvalue : readValue fuel text = some (value, rest)) :
    readMembers (fuel + 1) (quote escape key ++ ':' :: text)
      = match skipBlanks rest with
        | '}' :: rest => some ([(key, value)], rest)
        | ',' :: rest => (readMembers fuel rest).map (fun p => ((key, value) :: p.1, p.2))
        | _ => none := by
  have hread := readString_quote h key hkey (':' :: text)
  rw [quote, List.cons_append, List.append_assoc, List.singleton_append, readMembers,
    skipBlanks_cons (by decide)]
  simp only [hread, skipBlanks_cons (show isBlank ':' = false by decide), hvalue,
    String.ofList_toList]

mutual

/-- **A value is read back**, whatever stands behind it, unless it is a number that goes on. -/
theorem readValue_print {escape : Char → List Char} (h : Escapes escape) :
    ∀ (value : Value), value.WellFormed → ∀ (fuel : ℕ) (rest : List Char),
      (value.print escape).length ≤ fuel → Ends rest →
      readValue fuel (value.print escape ++ rest) = some (value, rest)
  | value, hvalue, 0, rest, hfuel, _ => by
      -- a printed value is not empty, so there is fuel
      obtain ⟨c, text, hprint, -⟩ := @head_print escape _ hvalue
      simp [hprint] at hfuel
  | .null, _, fuel + 1, rest, _, _ => by
      rw [Value.print]
      rfl
  | .bool true, _, fuel + 1, rest, _, _ => by
      rw [Value.print]
      rfl
  | .bool false, _, fuel + 1, rest, _, _ => by
      rw [Value.print]
      rfl
  | .num literal, hvalue, fuel + 1, rest, _, hrest => by
      rw [Value.WellFormed] at hvalue
      rw [Value.print]
      exact readValue_num hvalue hrest fuel
  | .str text, _, fuel + 1, rest, hfuel, _ => by
      rw [Value.print] at hfuel ⊢
      have hread := readString_quote h text hfuel rest
      rw [quote, List.cons_append, List.append_assoc, readValue, skipBlanks_cons (by decide)]
      simp only [List.singleton_append, hread, Option.map_some, String.ofList_toList]
  | .arr [], _, fuel + 1, rest, _, _ => by
      rw [Value.print, printItems]
      rfl
  | .arr (item :: items), hvalue, fuel + 1, rest, hfuel, _ => by
      rw [Value.WellFormed] at hvalue
      rw [Value.print] at hfuel ⊢
      have hread := readItems_print h item items hvalue fuel rest
        (by simpa using hfuel)
      -- the first item is not the bracket that closes an empty list
      obtain ⟨c, text, hprint, hblank, hc⟩ := head_printItems escape items hvalue.1
      rw [hprint, List.cons_append] at hread
      rw [hprint, List.cons_append, List.cons_append, readValue, skipBlanks_cons (by decide)]
      simp only [skipBlanks_cons hblank]
      split
      case h_1 heq => exact absurd (List.cons.inj heq).1 hc
      case h_2 => rw [hread, Option.map_some]
  | .obj [], _, fuel + 1, rest, _, _ => by
      rw [Value.print, printMembers]
      rfl
  | .obj ((key, value) :: members), hvalue, fuel + 1, rest, hfuel, _ => by
      rw [Value.WellFormed] at hvalue
      rw [Value.print] at hfuel ⊢
      have hread := readMembers_print h key value members hvalue fuel rest
        (by simpa using hfuel)
      obtain ⟨text, hprint⟩ := head_printMembers escape key value members
      rw [hprint, List.cons_append] at hread
      rw [hprint, List.cons_append, List.cons_append, readValue, skipBlanks_cons (by decide)]
      simp only [skipBlanks_cons (show isBlank '"' = false by decide)]
      exact congrArg (Option.map _) hread

/-- The reader gets the items of a list back, with fuel for the text and whatever follows it. -/
theorem readItems_print {escape : Char → List Char} (h : Escapes escape) :
    ∀ (item : Value) (items : List Value), ItemsWellFormed (item :: items) →
      ∀ (fuel : ℕ) (rest : List Char), (printItems escape (item :: items)).length ≤ fuel →
      readItems fuel (printItems escape (item :: items) ++ rest) = some (item :: items, rest)
  | item, items, hitems, 0, rest, hfuel => by
      cases items <;> simp [printItems] at hfuel
  | item, [], hitems, fuel + 1, rest, hfuel => by
      rw [ItemsWellFormed] at hitems
      rw [printItems] at hfuel ⊢
      rw [List.length_append, List.length_singleton] at hfuel
      have hread := readValue_print h item hitems.1 fuel (']' :: rest) (by omega)
        (ends_cons (by decide) rest)
      rw [List.append_assoc, List.singleton_append, readItems, hread]
      rfl
  | item, item' :: items, hitems, fuel + 1, rest, hfuel => by
      rw [ItemsWellFormed] at hitems
      rw [printItems_cons_cons] at hfuel ⊢
      rw [List.length_append, List.length_cons] at hfuel
      have hread := readValue_print h item hitems.1 fuel
        (',' :: (printItems escape (item' :: items) ++ rest)) (by omega) (ends_cons (by decide) _)
      have hrest := readItems_print h item' items hitems.2 fuel rest (by omega)
      rw [List.append_assoc, List.cons_append, readItems, hread]
      simp only [skipBlanks_cons (show isBlank ',' = false by decide), hrest, Option.map_some]

/-- The reader gets the members of an object back, with fuel for the text and whatever follows
    it. -/
theorem readMembers_print {escape : Char → List Char} (h : Escapes escape) :
    ∀ (key : String) (value : Value) (members : List (String × Value)),
      MembersWellFormed ((key, value) :: members) →
      ∀ (fuel : ℕ) (rest : List Char),
        (printMembers escape ((key, value) :: members)).length ≤ fuel →
      readMembers fuel (printMembers escape ((key, value) :: members) ++ rest)
        = some ((key, value) :: members, rest)
  | key, value, members, hmembers, 0, rest, hfuel => by
      cases members <;> simp [printMembers, quote] at hfuel
  | key, value, [], hmembers, fuel + 1, rest, hfuel => by
      rw [MembersWellFormed] at hmembers
      rw [printMembers] at hfuel ⊢
      simp only [List.length_append, List.length_cons, List.length_nil] at hfuel
      have hread := readValue_print h value hmembers.1 fuel ('}' :: rest) (by omega)
        (ends_cons (by decide) rest)
      rw [List.append_assoc, List.cons_append, List.append_assoc, List.singleton_append,
        readMembers_member h (by omega) hread]
      rfl
  | key, value, (key', value') :: members, hmembers, fuel + 1, rest, hfuel => by
      rw [MembersWellFormed] at hmembers
      rw [printMembers_cons_cons] at hfuel ⊢
      simp only [List.length_append, List.length_cons] at hfuel
      have hread := readValue_print h value hmembers.1 fuel
        (',' :: (printMembers escape ((key', value') :: members) ++ rest)) (by omega)
        (ends_cons (by decide) _)
      have hrest := readMembers_print h key' value' members hmembers.2 fuel rest (by omega)
      rw [List.append_assoc, List.cons_append, List.append_assoc, List.cons_append,
        readMembers_member h (by omega) hread]
      simp only [skipBlanks_cons (show isBlank ',' = false by decide), hrest, Option.map_some]

end

/-- **Reading what was written** gives the value back. -/
theorem parse_print {escape : Char → List Char} (h : Escapes escape) {value : Value}
    (hvalue : value.WellFormed) : parse (value.print escape) = some value := by
  have hread := readValue_print h value hvalue (value.print escape).length [] (Nat.le_refl _)
    (by rintro c ⟨⟩)
  rw [List.append_nil] at hread
  rw [parse, hread]
  rfl

end ShareCompute.Library.Json
