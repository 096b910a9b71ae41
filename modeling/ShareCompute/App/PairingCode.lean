import ShareCompute.Library.Base64
import ShareCompute.Simulation.ControlLine

namespace ShareCompute.App

open ShareCompute.Library ShareCompute.Cluster ShareCompute.Simulation

/-!
# Pairing codes

`pairing_code` in `split_launcher.py`, and how the two phones take a code apart:
`WorkerModel.start` in `WorkerModel.swift` and `WorkerSession.parse` in `WorkerSession.java`, up to
the text that is then read as JSON.

* `startText_code`, `parseText_code` — each phone recovers the text, with blanks around the code.
* `pairing_codes_round_trip` — both do.
* `no_break_space_is_kept` — what is a blank differs.

Swift's characters are a parameter, and so is what Java puts for malformed UTF-8.
-/

/-! ### The laptop -/

/-- `pairing_code(pair)`: the mark, and the pairing in URL-safe base64 without its padding. -/
def pairingCode (floats : Floats) (pair : Dict) : List Char :=
  "sc1.".toList ++
    (Alphabet.urlSafe.encode (utf8 (.ofList (floats.dumps (.dict pair))))).rdropWhile (· = '=')

/-! ### The iPhone -/

/-- The characters of a Swift string, which are grapheme clusters. -/
structure SwiftText where
  characters : List Char → List (List Char)
  flatten_characters : ∀ text, (characters text).flatten = text
  /-- no two printable ASCII characters make up one -/
  characters_printable : ∀ text, (∀ c ∈ text, Json.isPrintable c) →
    characters text = text.map fun c => [c]

/-- `.whitespacesAndNewlines`: the general category Zs, the tabulation, U+000A to U+000D, U+0085,
    U+2028 and U+2029. -/
def isWhitespaceOrNewline (c : Char) : Bool :=
  (9 ≤ c.toNat && c.toNat ≤ 13) || (0x2000 ≤ c.toNat && c.toNat ≤ 0x200A) ||
    [0x20, 0x85, 0xA0, 0x1680, 0x2028, 0x2029, 0x202F, 0x205F, 0x3000].contains c.toNat

/-- The text without the characters of a set at its ends. -/
def trimming (inSet : Char → Bool) (text : List Char) : List Char :=
  (text.dropWhile inSet).rdropWhile inSet

namespace SwiftText

variable (swift : SwiftText)

/-- `text.count`, which goes by characters and not by scalars. -/
def count (text : List Char) : ℕ := (swift.characters text).length

/-- `text.hasPrefix("sc1.")`, which compares characters rather than scalars. -/
def hasPrefix (text : List Char) : Bool :=
  (("sc1.".toList).map fun c => [c]).isPrefixOf (swift.characters text)

/-- `text.dropFirst(n)`, which counts characters rather than scalars. -/
def dropFirst (n : ℕ) (text : List Char) : List Char := ((swift.characters text).drop n).flatten

/-- `-` and `_` as the standard alphabet has them. -/
def standardLetter (c : Char) : Char := if c = '-' then '+' else if c = '_' then '/' else c

/-- `start()`: the text that is read as JSON, or why the pairing text is rejected. -/
def startText (pairingText : List Char) : Except (List Char) (List Char) :=
  let text := trimming isWhitespaceOrNewline pairingText
  if swift.count text ≤ 8192 then
    if swift.hasPrefix text then
      let encoded := (swift.dropFirst 4 text).map standardLetter
      let encoded := encoded ++ List.replicate ((4 - swift.count encoded % 4) % 4) '='
      match (Alphabet.standard.decodePadded encoded).bind decodeUtf8 with
      | some json => .ok json.toList
      | none => .error "sc1 code is not valid base64 text".toList
    else .ok text
  else .error ("pairing text is ".toList ++ Json.intLiteral (swift.count text) ++
    " characters; the limit is 8192".toList)

end SwiftText

/-! ### The Android phone -/

/-- What `String.trim()` takes off at both ends: everything up to the blank. -/
def isTrimmed (c : Char) : Bool := c.toNat ≤ 0x20

/-- `length()`: a character outside the basic plane counts twice. -/
def utf16Length (text : List Char) : ℕ := (text.map fun c => if c.toNat < 0x10000 then 1 else 2).sum

/-- `new String(bytes, UTF_8)`; `malformed` is what it makes of bytes that are not well formed. -/
def javaString (malformed : Bytes → List Char) (bytes : Bytes) : List Char :=
  match decodeUtf8 bytes with
  | some text => text.toList
  | none => malformed bytes

/-- `parse(text)`: the text that is read as JSON, or `why` it is rejected. -/
def parseText (malformed : Bytes → List Char) (text : List Char) : Except String (List Char) := do
  let text := trimming isTrimmed text
  let text ←
    if "sc1.".toList.isPrefixOf text then
      match Alphabet.urlSafe.decodeOptional (text.drop 4) with
      | some bytes => .ok (javaString malformed bytes)
      | none => .error "not decodable"
    else .ok text
  if 8192 < utf16Length text then .error "too long" else .ok text

/-! ### Codes -/

/-- The code of a text: the mark, and the bytes of the text in base64. -/
def codeOf (text : List Char) : List Char :=
  "sc1.".toList ++ Alphabet.urlSafe.spell (utf8 (.ofList text))

/-- `pairing_code` is the code of the text that `json.dumps` writes. -/
theorem pairingCode_eq (floats : Floats) (pair : Dict) :
    pairingCode floats pair = codeOf (floats.dumps (.dict pair)) := by
  rw [pairingCode, Alphabet.encode, Alphabet.unpad, codeOf]

/-- What codes are made of: visible ASCII characters. -/
def isCodeChar (c : Char) : Bool := 33 ≤ c.toNat && c.toNat ≤ 126

/-- The letters of the URL-safe alphabet are characters of a code. -/
theorem isCodeChar_of_mem {c : Char} (h : c ∈ Alphabet.urlSafe.letters) : isCodeChar c = true := by
  have hall : Alphabet.urlSafe.letters.all isCodeChar = true := by decide
  exact List.all_eq_true.mp hall c h

/-- A code consists of characters of a code, the marker included. -/
theorem isCodeChar_of_mem_codeOf {text : List Char} :
    ∀ c ∈ codeOf text, isCodeChar c = true := by
  intro c hc
  rcases List.mem_append.mp hc with hc | hc
  · have hall : "sc1.".toList.all isCodeChar = true := by decide
    exact List.all_eq_true.mp hall c hc
  · exact isCodeChar_of_mem (Alphabet.mem_spell hc)

/-- Nothing but what surrounds a code is trimmed; what is behind the code stays in front of a
    character that is not trimmed. -/
theorem trimming_code {inSet : Char → Bool} (hset : ∀ c, isCodeChar c = true → inSet c = false)
    {before code : List Char} (hcode : ∀ c ∈ code, isCodeChar c = true) (hne : code ≠ [])
    (hbefore : ∀ c ∈ before, inSet c = true) (after : List Char) :
    trimming inSet (before ++ code ++ after) = code ++ after.rdropWhile inSet := by
  have hfirst : (before ++ code ++ after).dropWhile inSet = code ++ after := by
    rw [List.append_assoc, List.dropWhile_append_of_pos hbefore]
    obtain ⟨c, rest, rfl⟩ := List.exists_cons_of_ne_nil hne
    apply List.dropWhile_cons_of_neg
    rw [hset c (hcode c List.mem_cons_self)]
    exact Bool.false_ne_true
  have hlast : code.rdropWhile inSet = code := by
    rw [List.rdropWhile_eq_self_iff]
    intro hl
    rw [hset _ (hcode _ (List.getLast_mem hl))]
    exact Bool.false_ne_true
  rw [trimming, hfirst]
  clear hfirst
  -- from the last character on: it is trimmed, or it keeps all that is in front of it
  induction after using List.reverseRecOn with
  | nil => rw [List.append_nil, hlast, List.rdropWhile_nil, List.append_nil]
  | append_singleton after c ih =>
    rw [← List.append_assoc]
    by_cases hc : inSet c = true
    · rw [List.rdropWhile_concat_pos _ _ _ hc, List.rdropWhile_concat_pos _ _ _ hc]
      exact ih
    · rw [List.rdropWhile_concat_neg _ _ _ hc, List.rdropWhile_concat_neg _ _ _ hc,
        List.append_assoc]

/-- No code is empty, since it begins with its marker. -/
theorem codeOf_ne_nil (text : List Char) : codeOf text ≠ [] := List.cons_ne_nil _ _

/-- No character of a code is one of Swift's blanks. -/
theorem isWhitespaceOrNewline_of_isCodeChar (c : Char) (h : isCodeChar c = true) :
    isWhitespaceOrNewline c = false := by
  simp [isCodeChar] at h
  simp [isWhitespaceOrNewline]
  omega

/-- No character of a code is one that Java's `trim` takes off. -/
theorem isTrimmed_of_isCodeChar (c : Char) (h : isCodeChar c = true) : isTrimmed c = false := by
  simp [isCodeChar] at h
  simp [isTrimmed]
  omega

/-- A blank of either phone is no letter of a code, and no padding. -/
theorem not_mem_letters_of_blank {c : Char}
    (h : isTrimmed c = true ∨ isWhitespaceOrNewline c = true) :
    c ∉ Alphabet.urlSafe.letters ∧ c ≠ '=' := by
  have hcode : ¬isCodeChar c = true := by
    intro hcode
    rcases h with h | h
    · rw [isTrimmed_of_isCodeChar c hcode] at h
      cases h
    · rw [isWhitespaceOrNewline_of_isCodeChar c hcode] at h
      cases h
  refine ⟨fun hmem => hcode (isCodeChar_of_mem hmem), ?_⟩
  rintro rfl
  exact hcode rfl

/-! ### What the phones recover -/

namespace SwiftText

variable {swift : SwiftText}

/-- The characters of a code have one scalar each. -/
theorem characters_code {text : List Char} (h : ∀ c ∈ text, isCodeChar c = true) :
    swift.characters text = text.map fun c => [c] := by
  apply swift.characters_printable
  intro c hc
  have hrange := h c hc
  simp only [isCodeChar, Bool.and_eq_true, decide_eq_true_eq] at hrange
  exact ⟨by omega, hrange.2⟩

/-- A code has as many of Swift's characters as it has scalars. -/
theorem count_code {text : List Char} (h : ∀ c ∈ text, isCodeChar c = true) :
    swift.count text = text.length := by
  rw [count, characters_code h, List.length_map]

/-- Replacing `-` and `_` takes the letters of the URL-safe alphabet to those of the standard
    one. -/
theorem standardLetter_letter (n : ℕ) :
    standardLetter (Alphabet.urlSafe.letter n) = Alphabet.standard.letter n := by
  have hletters : Alphabet.urlSafe.letters.map standardLetter = Alphabet.standard.letters := rfl
  have hpad : standardLetter '=' = '=' := rfl
  rw [Alphabet.letter, Alphabet.letter, List.getD_eq_getElem?_getD, List.getD_eq_getElem?_getD,
    ← hletters, List.getElem?_map]
  cases Alphabet.urlSafe.letters[n]? with
  | none => exact hpad
  | some c => rfl

/-- The two alphabets spell alike, but for two letters. -/
theorem map_standardLetter_spell (bytes : Bytes) :
    (Alphabet.urlSafe.spell bytes).map standardLetter = Alphabet.standard.spell bytes := by
  rw [Alphabet.spell, Alphabet.spell, List.map_map]
  apply List.map_congr_left
  intro n _
  exact standardLetter_letter n

/-- A code has the prefix that the phone looks for. -/
theorem hasPrefix_code (text : List Char) : swift.hasPrefix (codeOf text) = true := by
  rw [hasPrefix, characters_code isCodeChar_of_mem_codeOf, List.isPrefixOf_iff_prefix, codeOf,
    List.map_append]
  exact List.prefix_append _ _

/-- Behind its first four characters a code is the base64 of the text. -/
theorem dropFirst_code (text : List Char) :
    swift.dropFirst 4 (codeOf text) = Alphabet.urlSafe.spell (utf8 (.ofList text)) := by
  have hspell : ∀ c ∈ Alphabet.urlSafe.spell (utf8 (.ofList text)), isCodeChar c = true :=
    fun c hc => isCodeChar_of_mem (Alphabet.mem_spell hc)
  have hflatten := swift.flatten_characters (Alphabet.urlSafe.spell (utf8 (.ofList text)))
  rw [characters_code hspell] at hflatten
  rw [dropFirst, characters_code isCodeChar_of_mem_codeOf, ← List.map_drop]
  exact hflatten

/-- The letters of the standard alphabet are characters that `trim` keeps. -/
theorem isCodeChar_standard {c : Char} (h : c ∈ Alphabet.standard.letters) :
    isCodeChar c = true := by
  have hall : Alphabet.standard.letters.all isCodeChar = true := by decide
  exact List.all_eq_true.mp hall c h

/-- **The iPhone recovers the text**, with blanks around its code. -/
theorem startText_code {text before after : List Char} (hlength : (codeOf text).length ≤ 8192)
    (hblanks : ∀ c ∈ before ++ after, isWhitespaceOrNewline c = true) :
    swift.startText (before ++ codeOf text ++ after) = .ok text := by
  rw [List.forall_mem_append] at hblanks
  have htrim := trimming_code isWhitespaceOrNewline_of_isCodeChar isCodeChar_of_mem_codeOf
    (codeOf_ne_nil text) hblanks.1 after
  rw [List.rdropWhile_eq_nil_iff.mpr hblanks.2, List.append_nil] at htrim
  have hspell : swift.count (Alphabet.standard.spell (utf8 (.ofList text)))
      = (Alphabet.standard.spell (utf8 (.ofList text))).length :=
    count_code fun c hc => isCodeChar_standard (Alphabet.mem_spell hc)
  rw [startText, htrim]
  simp only [count_code isCodeChar_of_mem_codeOf, hlength, if_true, hasPrefix_code, dropFirst_code,
    map_standardLetter_spell, hspell]
  rw [← Alphabet.encode_eq, Alphabet.decodePadded_encode, Option.bind_some, decodeUtf8_utf8]
  show Except.ok (String.ofList text).toList = .ok text
  rw [String.toList_ofList]

end SwiftText

/-- A text has at most as many UTF-16 units as UTF-8 bytes. -/
theorem utf16Length_le (text : List Char) : utf16Length text ≤ (utf8 (.ofList text)).length := by
  rw [utf16Length, utf8_ofList]
  induction text with
  | nil => exact Nat.le_refl 0
  | cons c text ih =>
    rw [List.map_cons, List.sum_cons, List.flatMap_cons, List.length_append]
    have hc : (if c.toNat < 0x10000 then 1 else 2) ≤ (String.utf8EncodeChar c).length := by
      have hpos := c.utf8Size_pos
      rw [String.length_utf8EncodeChar]
      split
      case isTrue => exact hpos
      case isFalse hbig =>
        have hone : ¬c.utf8Size = 1 := by
          rw [Char.utf8Size_eq_one_iff]
          show ¬c.val.toNat ≤ 127
          have hval : c.toNat = c.val.toNat := rfl
          omega
        omega
    omega

/-- **The Android phone recovers the text**, with what it trims in front of its code and any blanks
    behind it, which its decoder skips where they are not trimmed. -/
theorem parseText_code (malformed : Bytes → List Char) {text before after : List Char}
    (hlength : (codeOf text).length ≤ 8192) (hbefore : ∀ c ∈ before, isTrimmed c = true)
    (hafter : ∀ c ∈ after, isTrimmed c = true ∨ isWhitespaceOrNewline c = true) :
    parseText malformed (before ++ codeOf text ++ after) = .ok text := by
  have htrim := trimming_code isTrimmed_of_isCodeChar isCodeChar_of_mem_codeOf
    (codeOf_ne_nil text) hbefore after
  have hskipped : ∀ c ∈ after.rdropWhile isTrimmed, c ∉ Alphabet.urlSafe.letters ∧ c ≠ '=' :=
    fun c hc => not_mem_letters_of_blank (hafter c ((List.rdropWhile_prefix _ _).subset hc))
  have hprefix : "sc1.".toList.isPrefixOf (codeOf text ++ after.rdropWhile isTrimmed) = true := by
    rw [List.isPrefixOf_iff_prefix, codeOf, List.append_assoc]
    exact List.prefix_append _ _
  have hdrop : (codeOf text ++ after.rdropWhile isTrimmed).drop 4
      = Alphabet.urlSafe.spell (utf8 (.ofList text)) ++ after.rdropWhile isTrimmed := rfl
  have hjava : javaString malformed (utf8 (.ofList text)) = text := by
    rw [javaString, decodeUtf8_utf8]
    exact String.toList_ofList
  -- the text is shorter than its code
  have hshort : ¬8192 < utf16Length text := by
    have hle := utf16Length_le text
    rw [codeOf, List.length_append, Alphabet.length_spell] at hlength
    omega
  rw [parseText, htrim, if_pos hprefix, hdrop, Alphabet.decodeOptional_spell _ hskipped]
  show (if 8192 < utf16Length (javaString malformed (utf8 (.ofList text))) then _ else _) = _
  rw [hjava, if_neg hshort]

/-- **Pairing codes round-trip on both phones.**  Each recovers the text that the laptop encoded,
    whatever its length is modulo three, also when the code is surrounded by blanks: any blanks of
    Unicode, of which those above U+0020 may only be behind the code on the Android phone. -/
theorem pairing_codes_round_trip (swift : SwiftText) (malformed : Bytes → List Char)
    (floats : Floats) (pair : Dict) (hlength : (pairingCode floats pair).length ≤ 8192) :
    (∀ before after, (∀ c ∈ before ++ after, isWhitespaceOrNewline c = true) →
      swift.startText (before ++ pairingCode floats pair ++ after)
        = .ok (floats.dumps (.dict pair))) ∧
      ∀ before after, (∀ c ∈ before, isTrimmed c = true) →
        (∀ c ∈ after, isTrimmed c = true ∨ isWhitespaceOrNewline c = true) →
        parseText malformed (before ++ pairingCode floats pair ++ after)
          = .ok (floats.dumps (.dict pair)) := by
  rw [pairingCode_eq] at hlength ⊢
  exact ⟨fun _ _ => SwiftText.startText_code hlength,
    fun _ _ => parseText_code malformed hlength⟩

/-- Swift's characters, of texts in which none has two scalars. -/
def scalars : SwiftText where
  characters text := text.map fun c => [c]
  flatten_characters text := by
    rw [← List.flatMap_def]
    exact List.flatMap_singleton' text
  characters_printable _ _ := rfl

/-- A dictionary with one of the fields of a pairing. -/
def androidPair : Dict := [("node", .str "android")]

/-- The code of this dictionary is short enough for the phone. -/
theorem length_pairingCode : (pairingCode oneAndAHalf androidPair).length ≤ 8192 := by
  rw [pairingCode_eq, codeOf, List.length_append, Alphabet.length_spell, utf8_ofList]
  decide

/-- A code between two line feeds, with a no-break space behind it. -/
theorem pairing_codes_round_trip_lines :
    parseText (fun _ => []) (['\n'] ++ pairingCode oneAndAHalf androidPair ++ ['\u00a0', '\n'])
      = .ok "\x7b\"node\":\"android\"\x7d".toList :=
  (pairing_codes_round_trip scalars (fun _ => []) oneAndAHalf androidPair length_pairingCode).2
    ['\n'] ['\u00a0', '\n'] (List.all_eq_true.mp rfl)
    fun c hc => .inr (List.all_eq_true.mp
      (show ['\u00a0', '\n'].all isWhitespaceOrNewline = true from rfl) c hc)

/-- The text of a dictionary begins with a brace. -/
theorem dumps_eq_cons (floats : Floats) (pair : Dict) :
    ∃ rest, floats.dumps (.dict pair) = '\x7b' :: rest :=
  ⟨Json.printMembers escapeAscii (floats.toMembers pair), by
    rw [Floats.dumps, Floats.toValue, Json.Value.print]⟩

/-- A code with a character in front of it that is not trimmed is not taken for one. -/
theorem parseText_of_not_trimmed (malformed : Bytes → List Char) {c : Char} {code : List Char}
    (htrim : isTrimmed c = false) (hs : c ≠ 's') (hcode : ∀ d ∈ code, isCodeChar d = true) :
    parseText malformed (c :: code) =
      if 8192 < utf16Length (c :: code) then .error "too long" else .ok (c :: code) := by
  have hfirst : (c :: code).dropWhile isTrimmed = c :: code :=
    List.dropWhile_cons_of_neg (by rw [htrim]; exact Bool.false_ne_true)
  have hlast : (c :: code).rdropWhile isTrimmed = c :: code := by
    rw [List.rdropWhile_eq_self_iff]
    intro hne
    rcases List.mem_cons.mp (List.getLast_mem hne) with hend | hend
    · rw [hend, htrim]
      exact Bool.false_ne_true
    · rw [isTrimmed_of_isCodeChar _ (hcode _ hend)]
      exact Bool.false_ne_true
  have hprefix : ¬"sc1.".toList.isPrefixOf (c :: code) = true := by
    rw [List.isPrefixOf_iff_prefix]
    intro h
    exact hs (List.cons_prefix_cons.mp h).1.symm
  rw [parseText, trimming, hfirst, hlast, if_neg hprefix]
  rfl

/-- **A no-break space in front of a code** is a blank too, but the Android phone keeps it, and
    does not recover the text. -/
theorem no_break_space_is_kept :
    ¬∀ before after, (∀ c ∈ before ++ after, isWhitespaceOrNewline c = true) →
      parseText (fun _ => []) (before ++ pairingCode oneAndAHalf androidPair ++ after)
        = .ok (oneAndAHalf.dumps (.dict androidPair)) := by
  intro h
  have hparse := h ['\u00a0'] [] (List.all_eq_true.mp rfl)
  obtain ⟨rest, hrest⟩ := dumps_eq_cons oneAndAHalf androidPair
  rw [List.append_nil, List.singleton_append, pairingCode_eq, hrest,
    parseText_of_not_trimmed _ (by decide) (by decide) isCodeChar_of_mem_codeOf] at hparse
  split at hparse
  case isTrue => cases hparse
  case isFalse =>
    have hspace := (List.cons.inj (Except.ok.inj hparse)).1
    exact absurd hspace (by decide)

end ShareCompute.App
