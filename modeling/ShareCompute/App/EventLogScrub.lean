import ShareCompute.Library.RedactionEncoding

namespace ShareCompute.App.EventLog

open ShareCompute.Library

/-!
# Scrubbing the event log

`EventLog.scrub` is the log's second line of defence: it works on the UTF-8 bytes of a text and
replaces what has the shape of a pairing code (`sc1.` and at least 16 characters of base64url)
or of a token or pin (at least 64 hex digits).

* `scrub_toList` — on the scalars of the text it is the same scanner.
* `hides_secrets_iff` — what is replaced does not show, unless two pairing codes stand so that
  the first takes the `sc1` of the second for its own end.
-/

/-! ### The scanner -/

/-- The UTF-8 bytes of a string, which the search for codes looks at. -/
def utf8 (text : String) : List UInt8 := text.toByteArray.data.toList

/-- The hexadecimal digits `0-9`, `A-F` and `a-f`, as bytes. -/
def isHex (b : ℕ) : Bool := (48 ≤ b && b ≤ 57) || (65 ≤ b && b ≤ 70) || (97 ≤ b && b ≤ 102)

/-- The base64url alphabet plus padding: what follows `sc1.` in a pairing code. -/
def isCode (b : ℕ) : Bool :=
  (48 ≤ b && b ≤ 57) || (65 ≤ b && b ≤ 90) || (97 ≤ b && b ≤ 122) || b = 45 || b = 95 || b = 61

/-- What `scrub` looks for, in units of which `unit` gives the one with a value. -/
def rules {α : Type} (value : α → ℕ) (unit : ℕ → α) (units : String → List α) : Rules α where
  head := unit 115
  mid := [unit 99, unit 49]
  stop := unit 46
  isCode a := isCode (value a)
  isRun a := isHex (value a)
  minCode := 16
  minRun := 64
  codeText := units "[redacted pairing code]"
  runText := units "[redacted]"

/-- The rules as the code applies them, to the UTF-8 bytes of a text. -/
def byteRules : Rules UInt8 := rules UInt8.toNat UInt8.ofNat utf8

/-- The same shapes in the scalars of a text. -/
def scalarRules : Rules Char := rules Char.toNat Char.ofNat String.toList

/-- The UTF-8 bytes of a text are those of its scalars, one after the other. -/
theorem utf8_eq_flatMap (text : String) :
    utf8 text = text.toList.flatMap String.utf8EncodeChar := by
  rw [utf8, ← String.utf8Encode_toList, List.utf8Encode, List.data_toByteArray]

/-- An ASCII scalar is encoded as one byte, its own number. -/
theorem utf8EncodeChar_of_lt {c : Char} (h : c.toNat < 128) :
    String.utf8EncodeChar c = [UInt8.ofNat c.toNat] := by
  have hle : c.val.toNat ≤ 127 := by
    rw [Char.toNat] at h
    omega
  simp only [String.utf8EncodeChar, hle, if_true]
  rfl

/-- The bytes of any other scalar are not ASCII. -/
theorem le_of_mem_utf8EncodeChar {c : Char} (h : ¬ c.toNat < 128) {b : UInt8}
    (hb : b ∈ String.utf8EncodeChar c) : 128 ≤ b.toNat := by
  have hlt : ¬ c.val.toNat ≤ 127 := by
    rw [Char.toNat] at h
    omega
  simp only [String.utf8EncodeChar, hlt, if_false] at hb
  split at hb
  · simp only [List.mem_cons, List.not_mem_nil, or_false] at hb
    rcases hb with rfl | rfl <;> simp <;> omega
  · split at hb
    · simp only [List.mem_cons, List.not_mem_nil, or_false] at hb
      rcases hb with rfl | rfl | rfl <;> simp <;> omega
    · simp only [List.mem_cons, List.not_mem_nil, or_false] at hb
      rcases hb with rfl | rfl | rfl | rfl <;> simp <;> omega

/-- A byte beyond ASCII is no hex digit. -/
theorem isHex_of_le {n : ℕ} (h : 128 ≤ n) : isHex n = false := by
  simp only [isHex, Bool.or_eq_false_iff, Bool.and_eq_false_iff, decide_eq_false_iff_not]
  omega

/-- A byte beyond ASCII is no character of a code. -/
theorem isCode_of_le {n : ℕ} (h : 128 ≤ n) : isCode n = false := by
  simp only [isCode, Bool.or_eq_false_iff, Bool.and_eq_false_iff, decide_eq_false_iff_not]
  omega

/-- Hex digits are characters of a code too. -/
theorem isCode_of_isHex {n : ℕ} (h : isHex n = true) : isCode n = true := by
  simp only [isHex, isCode, Bool.or_eq_true, Bool.and_eq_true, decide_eq_true_eq] at h ⊢
  omega

/-- What holds of no value from 128 on is the same of a scalar and of its bytes. -/
theorem unit_congr {p : ℕ → Bool} (hp : ∀ n, 128 ≤ n → p n = false) (c : Char) {b : UInt8}
    (hb : b ∈ String.utf8EncodeChar c) : p b.toNat = p c.toNat := by
  by_cases hc : c.toNat < 128
  · rw [utf8EncodeChar_of_lt hc, List.mem_singleton] at hb
    rw [hb, UInt8.toNat_ofNat', Nat.mod_eq_of_lt (by omega)]
  · rw [hp _ (le_of_mem_utf8EncodeChar hc hb), hp _ (not_lt.mp hc)]

/-- The byte of an ASCII scalar comes from that scalar only. -/
theorem eq_of_mem_utf8EncodeChar {c m : Char} (hm : m.toNat < 128)
    (h : UInt8.ofNat m.toNat ∈ String.utf8EncodeChar c) : c = m := by
  have hvalue : (UInt8.ofNat m.toNat).toNat = m.toNat := by
    rw [UInt8.toNat_ofNat', Nat.mod_eq_of_lt (by omega)]
  have hc : c.toNat < 128 := by
    by_contra hc
    have := le_of_mem_utf8EncodeChar hc h
    omega
  rw [utf8EncodeChar_of_lt hc, List.mem_singleton] at h
  have heq := congrArg UInt8.toNat h
  rw [hvalue, UInt8.toNat_ofNat', Nat.mod_eq_of_lt (by omega)] at heq
  rw [← Char.ofNat_toNat c, ← heq, Char.ofNat_toNat]

/-- The two sets of rules agree: a scalar that matters is one byte, and the others have no byte that
    does. -/
theorem encodes : Encodes String.utf8EncodeChar scalarRules byteRules where
  nonempty c h := by
    have hlength := congrArg List.length h
    rw [String.length_utf8EncodeChar, List.length_nil] at hlength
    have := c.utf8Size_pos
    omega
  isCode c b hb := unit_congr (fun _ => isCode_of_le) c hb
  isRun c b hb := unit_congr (fun _ => isHex_of_le) c hb
  single c hc := by
    have hlt : c.toNat < 128 := by
      by_contra hge
      have hnot : scalarRules.isCode c = false := isCode_of_le (not_lt.mp hge)
      rw [hnot] at hc
      cases hc
    exact ⟨_, utf8EncodeChar_of_lt hlt⟩
  marker := by
    have hunit : ∀ m : Char, m.toNat < 128 →
        String.utf8EncodeChar m = [UInt8.ofNat m.toNat] ∧
          ∀ c, UInt8.ofNat m.toNat ∈ String.utf8EncodeChar c → c = m :=
      fun m hm => ⟨utf8EncodeChar_of_lt hm, fun _ h => eq_of_mem_utf8EncodeChar hm h⟩
    exact .cons (hunit 's' (by decide)) (.cons (hunit 'c' (by decide))
      (.cons (hunit '1' (by decide)) (.cons (hunit '.' (by decide)) .nil)))
  minCode := rfl
  minRun := rfl
  codeText := utf8_eq_flatMap _
  runText := utf8_eq_flatMap _

/-- What stands between brackets, with no `s` and not too long, is neither a code nor a part of
    one. -/
theorem fenced_scalars (text : String) (hhead : 's' ∉ text.toList)
    (hshort : text.toList.length ≤ 64)
    (hopens : text.toList.head? = some '[') (hcloses : text.toList.getLast? = some ']') :
    scalarRules.Fenced text.toList where
  head := hhead
  short := hshort
  opens := by
    cases htext : text.toList with
    | nil => simp [htext] at hopens
    | cons c rest =>
      obtain rfl : c = '[' := by simpa [htext] using hopens
      exact ⟨_, rest, rfl, by decide, by decide⟩
  closes := by
    obtain ⟨rest, hrest⟩ := List.getLast?_eq_some_iff.mp hcloses
    exact ⟨rest, ']', hrest, by decide⟩

/-- The rules are lawful: runs are made of code characters, and the marker ends with one that is
    none. -/
theorem scalarRules_lawful : scalarRules.Lawful where
  code_of_run _ h := isCode_of_isHex h
  stem_code := List.all_eq_true.mp (by decide)
  stop_code := by decide
  head_run := by decide
  marker_le := by decide
  code_le := by decide
  codeText := fenced_scalars _ (by decide +kernel) (by decide +kernel) (by decide +kernel)
    (by decide +kernel)
  runText := fenced_scalars _ (by decide +kernel) (by decide +kernel) (by decide +kernel)
    (by decide +kernel)

/-- What the scanner leaves of the bytes of a text are the bytes of a text. -/
theorem scan_utf8 (text : String) :
    byteRules.scan (utf8 text)
      = (scalarRules.scan text.toList).flatMap String.utf8EncodeChar := by
  rw [utf8_eq_flatMap]
  exact encodes.scan_flatMap scalarRules_lawful text.toList

/-- `scrub`; the bytes that are left are well-formed, so that decoding them repairs nothing. -/
def scrub (text : String) : String :=
  .fromUTF8 (byteRules.scan (utf8 text)).toByteArray (by
    rw [scan_utf8]
    exact ⟨_, rfl⟩)

/-- **On the scalars of a text `scrub` is the same scanner.** -/
theorem scrub_toList (text : String) : (scrub text).toList = scalarRules.scan text.toList := by
  have hbytes : (scrub text).toByteArray = (scalarRules.scan text.toList).utf8Encode := by
    show (byteRules.scan (utf8 text)).toByteArray = _
    rw [scan_utf8]
    rfl
  rw [← String.toByteArray_ofList] at hbytes
  rw [String.toByteArray_inj.mp hbytes, String.toList_ofList]

/-! ### Secrets -/

/-- A run of hex digits with the length of a token or pin. -/
def LongHex (run : String) : Prop := (∀ c ∈ run.toList, isHex c.toNat = true) ∧ 64 ≤ run.length

/-- What may follow `sc1.` in a pairing code. -/
def LongCode (body : String) : Prop :=
  (∀ c ∈ body.toList, isCode c.toNat = true) ∧ 16 ≤ body.length

/-- The text holds a long run of hex digits. -/
def HasRun (text : String) : Prop := ∃ before run after, text = before ++ run ++ after ∧ LongHex run

/-- The text holds a pairing code: the mark, followed by a body that is long enough. -/
def HasCode (text : String) : Prop :=
  ∃ before body after, text = before ++ "sc1." ++ body ++ after ∧ LongCode body

/-- Nothing of a secret is left, nothing else is touched, and what is put in the place of a
    maximal run or code says nothing about it. -/
structure HidesSecrets (text : String) : Prop where
  no_run : ¬ HasRun (scrub text)
  no_code : ¬ HasCode (scrub text)
  idempotent : scrub (scrub text) = scrub text
  unchanged : ¬ HasRun text → ¬ HasCode text → scrub text = text
  run : ∀ before run after run', text = before ++ run ++ after → LongHex run → LongHex run' →
    (∀ c ∈ before.toList.getLast?, isHex c.toNat = false) →
    (∀ c ∈ after.toList.head?, isHex c.toNat = false) →
    scrub (before ++ run' ++ after) = scrub text
  code : ∀ before body after body', text = before ++ "sc1." ++ body ++ after → LongCode body →
    LongCode body' → (∀ c ∈ after.toList.head?, isCode c.toNat = false) →
    scrub (before ++ "sc1." ++ body' ++ after) = scrub text

/-- Two pairing codes of which the first reads the `sc1` of the second as its own end. -/
def GluedCodes (text : String) : Prop :=
  ∃ before body body' after, text = before ++ "sc1." ++ body ++ "sc1." ++ body' ++ after ∧
    (∀ c ∈ body.toList, isCode c.toNat = true) ∧ 13 ≤ body.length ∧ LongCode body'

/-- What a code begins with is `sc1.`. -/
theorem marker_eq : scalarRules.marker = "sc1.".toList := by decide +kernel

/-- A long run of the rules is one of the log. -/
theorem longRun_iff {run : String} : scalarRules.LongRun run.toList ↔ LongHex run := by
  rw [Rules.LongRun, LongHex, String.length_toList]
  rfl

/-- A long code of the rules is one of the log. -/
theorem longCode_iff {body : String} : scalarRules.LongCode body.toList ↔ LongCode body := by
  rw [Rules.LongCode, LongCode, String.length_toList]
  rfl

/-- A text has a run by the rules exactly if it has one for the log. -/
theorem hasRun_iff {text : String} : scalarRules.HasRun text.toList ↔ HasRun text := by
  constructor
  · rintro ⟨run, ⟨before, after, htext⟩, hrun⟩
    refine ⟨.ofList before, .ofList run, .ofList after, ?_, longRun_iff.mp ?_⟩
    · rw [← String.toList_inj]
      simp [← htext]
    · rw [String.toList_ofList]
      exact hrun
  · rintro ⟨before, run, after, rfl, hrun⟩
    refine ⟨run.toList, ⟨before.toList, after.toList, ?_⟩, longRun_iff.mpr hrun⟩
    simp

/-- A text has a code by the rules exactly if it has one for the log. -/
theorem hasCode_iff {text : String} : scalarRules.HasCode text.toList ↔ HasCode text := by
  constructor
  · rintro ⟨body, ⟨before, after, htext⟩, hbody⟩
    refine ⟨.ofList before, .ofList body, .ofList after, ?_, longCode_iff.mp ?_⟩
    · rw [← String.toList_inj, ← htext, marker_eq]
      simp
    · rw [String.toList_ofList]
      exact hbody
  · rintro ⟨before, body, after, rfl, hbody⟩
    refine ⟨body.toList, ⟨before.toList, after.toList, ?_⟩, longCode_iff.mpr hbody⟩
    rw [marker_eq]
    simp

/-- A text is clean by the rules if it has neither a code nor a run. -/
theorem clean_iff {text : String} :
    scalarRules.Clean text.toList ↔ ¬ HasCode text ∧ ¬ HasRun text := by
  rw [← hasCode_iff, ← hasRun_iff]
  exact ⟨fun h => ⟨h.code, h.run⟩, fun h => ⟨h.1, h.2⟩⟩

/-- Two codes are glued by the rules exactly if they are for the log. -/
theorem glued_iff {text : String} : scalarRules.Glued text.toList ↔ GluedCodes text := by
  constructor
  · rintro ⟨before, body, body', after, htext, hbody, hlong, hbody'⟩
    refine ⟨.ofList before, .ofList body, .ofList body', .ofList after, ?_, ?_, ?_,
      longCode_iff.mp ?_⟩
    · rw [← String.toList_inj, htext, marker_eq]
      simp
    · rw [String.toList_ofList]
      exact hbody
    · rw [← String.length_toList, String.toList_ofList]
      have hstem : scalarRules.stem.length = 3 := rfl
      have hmin : scalarRules.minCode = 16 := rfl
      omega
    · rw [String.toList_ofList]
      exact hbody'
  · rintro ⟨before, body, body', after, rfl, hbody, hlong, hbody'⟩
    refine ⟨before.toList, body.toList, body'.toList, after.toList, ?_, hbody, ?_,
      longCode_iff.mpr hbody'⟩
    · rw [marker_eq]
      simp
    · show 16 ≤ body.toList.length + 3
      rw [String.length_toList]
      omega

/-- What `scrub` returns has neither a code nor a run, whatever the text was. -/
theorem scrub_clean (text : String) : ¬ HasCode (scrub text) ∧ ¬ HasRun (scrub text) := by
  rw [← clean_iff, scrub_toList]
  exact Rules.scan_clean scalarRules_lawful _

/-- A text with neither shape is returned as it is. -/
theorem scrub_of_clean {text : String} (hcode : ¬ HasCode text) (hrun : ¬ HasRun text) :
    scrub text = text := by
  rw [← String.toList_inj, scrub_toList]
  exact Rules.scan_of_clean (clean_iff.mpr ⟨hcode, hrun⟩)

/-- **The log says nothing of a secret** if and only if no two pairing codes are glued: the first
    of two such codes is redacted up to the `sc1` of the second, and the body of the second is
    left in the text. -/
theorem hides_secrets_iff (text : String) : HidesSecrets text ↔ ¬ GluedCodes text := by
  constructor
  · intro h hglued
    obtain ⟨before, body, after, body', htext, hbody, hbody', hafter, hne⟩ :=
      Rules.exists_scan_ne_of_glued scalarRules_lawful (g := 'g') (by decide) (by decide)
        (by decide) (glued_iff.mpr hglued)
    refine hne ?_
    have hsame := h.code (.ofList before) (.ofList body) (.ofList after) (.ofList body') ?_ ?_ ?_ ?_
    · rw [← scrub_toList, ← hsame, scrub_toList, marker_eq]
      simp
    · rw [← String.toList_inj, htext, marker_eq]
      simp
    · rw [← longCode_iff, String.toList_ofList]
      exact hbody
    · rw [← longCode_iff, String.toList_ofList]
      exact hbody'
    · rw [String.toList_ofList]
      exact hafter
  · intro hglued
    refine ⟨(scrub_clean text).2, (scrub_clean text).1,
      scrub_of_clean (scrub_clean text).1 (scrub_clean text).2,
      fun hrun hcode => scrub_of_clean hcode hrun, ?_, ?_⟩
    · rintro before run after run' rfl hrun hrun' hbefore hafter
      have hsame := Rules.scan_run_congr scalarRules_lawful (longRun_iff.mpr hrun')
        (longRun_iff.mpr hrun) hbefore hafter
      rw [← String.toList_inj, scrub_toList, scrub_toList]
      simpa using hsame
    · rintro before body after body' rfl hbody hbody' hafter
      rw [← glued_iff] at hglued
      have htoList : ∀ body : String, (before ++ "sc1." ++ body ++ after).toList
          = before.toList ++ (scalarRules.marker ++ (body.toList ++ after.toList)) := by
        intro body
        rw [marker_eq]
        simp
      rw [htoList] at hglued
      rw [← String.toList_inj, scrub_toList, scrub_toList, htoList, htoList]
      exact (Rules.scan_code_congr scalarRules_lawful hglued (longCode_iff.mpr hbody)
        (longCode_iff.mpr hbody') hafter).symm

/-- Two pairing codes without anything between them. -/
def twoCodes : String := "sc1.GGGGGGGGGGGGGGGGsc1.HHHHHHHHHHHHHHHH"

/-- The second one stays in the log. -/
theorem two_codes_show : ¬ HidesSecrets twoCodes := by
  intro h
  have hsame := h.code "sc1.GGGGGGGGGGGGGGGG" "HHHHHHHHHHHHHHHH" "" "IIIIIIIIIIIIIIII"
    (by decide +kernel) ⟨List.all_eq_true.mp (by decide +kernel), by decide +kernel⟩
    ⟨List.all_eq_true.mp (by decide +kernel), by decide +kernel⟩ (by simp)
  rw [← String.toList_inj, scrub_toList, scrub_toList] at hsame
  revert hsame
  decide +kernel

example : scrub twoCodes = "[redacted pairing code].HHHHHHHHHHHHHHHH" := by
  rw [← String.toList_inj, scrub_toList]
  decide +kernel

end ShareCompute.App.EventLog
