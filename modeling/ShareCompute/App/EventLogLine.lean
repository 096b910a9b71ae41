import ShareCompute.App.EventLogScrub
import ShareCompute.Library.JsonText
import ShareCompute.Library.OrderedDict
import Mathlib.Algebra.Ring.Int.Defs
import Mathlib.Data.List.Nodup

namespace ShareCompute.App.EventLog

open ShareCompute.Library

/-!
# The lines of the event log

`EventLog.event` turns its fields into the body of a line and `EventLog.record`, on the log's
queue, makes the line of it.  The line is put together by hand, since `JSONSerialization` raises
on NaN and does not keep the order of the keys.

* `record_kept` — the ring stays within its bounds and knows its size.
* `record_line` — the line is what a JSON writer makes of `members`.
* `event_line` — so it is one line, and a JSON reader finds the texts of the event in it.

`String.count` and `String.prefix` go by grapheme clusters, which are a parameter, as is the
decimal text of a number.
-/

/-! ### Values -/

/-- A `Double`; `φ` are the finite ones. -/
inductive Double (φ : Type)
  | nan
  | infinity (negative : Bool)
  | finite (value : φ)

/-- The values that a field of an event can have. -/
inductive LogValue (φ : Type)
  | string (text : String)
  | int (number : ℤ)
  | double (number : Double φ)
  | bool (flag : Bool)
  | null

/-- The pairs of `LogFields`, in their order. -/
abbrev LogFields (φ : Type) := List (String × LogValue φ)

/-- What the standard library knows of strings and numbers. -/
structure Swift (φ : Type) where
  /-- the `Character`s of a string -/
  characters : String → List String
  flatten_characters : ∀ text, (characters text).flatMap String.toList = text.toList
  characters_nonempty : ∀ text, ∀ c ∈ characters text, c ≠ ""
  /-- `String(number)` -/
  description : φ → List Char
  isNumber_description : ∀ number, Json.isNumber (description number) = true

/-- How many lines the ring of the log keeps at most. -/
def maxRingLines : ℕ := 3000

/-- How many bytes the ring of the log keeps at most. -/
def maxRingBytes : ℤ := 2000000

/-- How many characters of a value are shown at most. -/
def maxValueCharacters : ℕ := 512

/-! ### Formatting -/

/-- What stands for a scalar between the quotes. -/
def escape (scalar : Char) : List Char :=
  if scalar = '"' then ['\\', '"']
  else if scalar = '\\' then ['\\', '\\']
  else if scalar = '\n' then ['\\', 'n']
  else if scalar = '\r' then ['\\', 'r']
  else if scalar = '\t' then ['\\', 't']
  else if scalar.toNat < 0x20 then '\\' :: 'u' :: Json.hex4 scalar.toNat
  else [scalar]

namespace Swift

variable {φ : Type} (swift : Swift φ)

/-- `String(text.prefix(maxValueCharacters))`: the first characters of a text, by grapheme
    clusters. -/
def clipped (text : String) : List Char :=
  ((swift.characters text).take maxValueCharacters).flatMap String.toList

/-- The text that `quote` puts between quotes. -/
def shown (raw : String) : String :=
  let text := scrub raw
  if (swift.characters text).length > maxValueCharacters then
    .ofList (swift.clipped text ++ ['…'])
  else text

/-- The text of a string in the line: what is shown of it, escaped and between quotes. -/
def quote (raw : String) : List Char := Json.quote escape (swift.shown raw)

/-- The text of a value in the line, as `EventLog.render` puts it together. -/
def render : LogValue φ → List Char
  | .string text => swift.quote text
  | .int number => Json.intLiteral number
  | .double (.finite number) => swift.description number
  | .double _ => ['n', 'u', 'l', 'l']
  | .bool flag => if flag then ['t', 'r', 'u', 'e'] else ['f', 'a', 'l', 's', 'e']
  | .null => ['n', 'u', 'l', 'l']

end Swift

/-- `%0<width>ld`: the sign counts for the width. -/
def padded (width : ℕ) (n : ℤ) : List Char :=
  let digits := Nat.toDigits 10 n.natAbs
  if n < 0 then '-' :: (List.replicate (width - 1 - digits.length) '0' ++ digits)
  else List.replicate (width - digits.length) '0' ++ digits

/-- A time in UTC, in the parts that are printed. -/
structure Stamp where
  year : ℤ
  month : ℤ
  day : ℤ
  hour : ℤ
  minute : ℤ
  second : ℤ
  millis : ℤ

/-- The time stamp in the format `%04ld-%02ld-%02ldT%02ld:%02ld:%02ld.%03ldZ`. -/
def Stamp.text (t : Stamp) : List Char :=
  padded 4 t.year ++ '-' :: (padded 2 t.month ++ '-' :: (padded 2 t.day ++ 'T' ::
    (padded 2 t.hour ++ ':' :: (padded 2 t.minute ++ ':' :: (padded 2 t.second ++ '.' ::
      (padded 3 t.millis ++ ['Z']))))))

end ShareCompute.App.EventLog

namespace ShareCompute.App

open ShareCompute.Library

/-! ### The log -/

/-- The state that is confined to the queue, without the file. -/
structure EventLog where
  /-- eight digits of a UUID, in lower case -/
  launchID : List Char
  hexLaunchID : ∀ c ∈ launchID, EventLog.isHex c.toNat = true
  ring : List (List Char)
  ringBytes : ℤ
  sequence : ℕ

namespace EventLog

/-- `line.utf8.count`, by which the size of the ring is bounded. -/
def utf8Count (line : List Char) : ℤ := (line.flatMap String.utf8EncodeChar).length

/-- The loop that drops the oldest lines of a ring that is too long or too large. -/
def trim : List (List Char) → ℤ → List (List Char) × ℤ
  | [], bytes => ([], bytes)
  | line :: ring, bytes =>
      if (line :: ring).length > maxRingLines ∨ bytes > maxRingBytes then
        trim ring (bytes - utf8Count line)
      else (line :: ring, bytes)

variable {φ : Type} (swift : Swift φ)

/-- The line is also appended to the file and printed. -/
def record (self : EventLog) (atMs : φ) (stamp : List Char) (name : String) (body : List Char) :
    EventLog × List Char :=
  let sequence := self.sequence + 1
  let line := "\x7b\"at_ms\":".toList ++ swift.description atMs ++ ",\"ts\":\"".toList ++ stamp
    ++ "\",\"launch\":\"".toList ++ self.launchID ++ "\",\"n\":".toList
    ++ Json.intLiteral sequence ++ ",\"ev\":".toList ++ swift.quote name ++ body ++ ['}']
  let (ring, ringBytes) := trim (self.ring ++ [line]) (self.ringBytes + utf8Count line)
  ({ self with ring := ring, ringBytes := ringBytes, sequence := sequence }, line)

/-- The body that `event` makes of its fields before it hands the line to the queue. -/
def body (fields : LogFields φ) : List Char :=
  fields.flatMap (fun field => ',' :: (swift.quote field.1 ++ ':' :: swift.render field.2))

/-- `event`; `atMs` is finite, since the clock's readings are. -/
def event (self : EventLog) (atMs : φ) (stamp : Stamp) (name : String) (fields : LogFields φ) :
    EventLog × List Char :=
  self.record swift atMs stamp.text name (body swift fields)

/-! ### The ring -/

/-- Dropping lines keeps the books, and stops within the bounds. -/
theorem trim_spec (ring : List (List Char)) (bytes : ℤ)
    (hbytes : bytes = (ring.map utf8Count).sum) :
    (trim ring bytes).2 = ((trim ring bytes).1.map utf8Count).sum ∧
      (trim ring bytes).1.length ≤ maxRingLines ∧ (trim ring bytes).2 ≤ maxRingBytes := by
  induction ring generalizing bytes with
  | nil =>
    rw [hbytes]
    exact ⟨rfl, Nat.zero_le _, by decide⟩
  | cons line ring ih =>
    rw [trim]
    split
    case isTrue => exact ih _ (by rw [hbytes, List.map_cons, List.sum_cons]; omega)
    case isFalse hfits =>
      rw [not_or] at hfits
      exact ⟨hbytes, Nat.not_lt.mp hfits.1, Int.not_lt.mp hfits.2⟩

/-- The ring is within its bounds and knows its size. -/
structure Kept (log : EventLog) : Prop where
  books : log.ringBytes = (log.ring.map utf8Count).sum
  lines : log.ring.length ≤ maxRingLines
  bytes : log.ringBytes ≤ maxRingBytes

/-- To record a line keeps the bounds of the ring and its count of bytes. -/
theorem record_kept {log : EventLog} (h : Kept log) (atMs : φ) (stamp : List Char) (name : String)
    (body : List Char) : Kept (record swift log atMs stamp name body).1 := by
  obtain ⟨hbooks, hlines, hbytes⟩ := trim_spec
    (log.ring ++ [(record swift log atMs stamp name body).2])
    (log.ringBytes + utf8Count (record swift log atMs stamp name body).2) (by simp [h.books])
  exact ⟨hbooks, hlines, hbytes⟩

/-! ### The escapes -/

/-- A scalar that is put between the quotes as it is. -/
def Plain (scalar : Char) : Prop :=
  scalar ≠ '"' ∧ scalar ≠ '\\' ∧ ¬ scalar.toNat < 0x20

/-- Whether a scalar is written as it is can be computed. -/
instance (scalar : Char) : Decidable (Plain scalar) := inferInstanceAs (Decidable (_ ∧ _ ∧ _))

/-- A plain scalar is written without an escape. -/
theorem escape_of_plain {scalar : Char} (h : Plain scalar) : escape scalar = [scalar] := by
  have hcontrol : ∀ c : Char, c.toNat < 0x20 → scalar ≠ c := by
    rintro c hc rfl
    exact h.2.2 hc
  unfold escape
  rw [if_neg h.1, if_neg h.2.1, if_neg (hcontrol _ (by decide)), if_neg (hcontrol _ (by decide)),
    if_neg (hcontrol _ (by decide)), if_neg h.2.2]

/-- A text of plain scalars is written as it is. -/
theorem flatMap_escape_of_plain {scalars : List Char} (h : ∀ c ∈ scalars, Plain c) :
    scalars.flatMap escape = scalars := by
  induction scalars with
  | nil => rfl
  | cons c scalars ih =>
    rw [List.forall_mem_cons] at h
    rw [List.flatMap_cons, escape_of_plain h.1, ih h.2, List.singleton_append]

/-- **The escapes of a string are read back.** -/
theorem escapes : Json.Escapes escape where
  read c rest := by
    unfold escape
    split_ifs with hquote hslash hline hreturn htab hcontrol
    · rw [hquote]; rfl
    · rw [hslash]; rfl
    · rw [hline]; rfl
    · rw [hreturn]; rfl
    · rw [htab]; rfl
    · exact Json.readChar_hex4 (by omega) rest
    · exact Json.readChar_self hslash hcontrol rest
  head c := by
    unfold escape
    split_ifs with hquote hslash hline hreturn htab hcontrol
    all_goals exact ⟨_, _, rfl, by first | decide | exact hquote⟩

/-- No escape holds a line feed, and the writer puts none in. -/
theorem admits : Json.Admits escape (· ≠ '\n') where
  printable c hc := by
    rintro rfl
    revert hc
    decide
  escape c d hd := by
    rintro rfl
    unfold escape at hd
    split_ifs at hd with hquote hslash hline hreturn htab hcontrol
    · revert hd; decide
    · revert hd; decide
    · revert hd; decide
    · revert hd; decide
    · revert hd; decide
    · have hfree : ∀ d ∈ Json.hex4 c.toNat, Json.isPrintable d :=
        Json.isPrintable_hex4 (by omega)
      simp only [List.mem_cons] at hd
      rcases hd with hd | hd | hd
      · revert hd; decide
      · revert hd; decide
      · exact absurd (hfree _ hd) (by decide)
    · exact hline (List.mem_singleton.mp hd).symm

/-! ### The line -/

/-- What `shown` leaves as it is: a text without `.` that is shorter than a token or pin. -/
def ShortKey (key : String) : Prop := '.' ∉ key.toList ∧ key.length < 64

/-- A key that is short has no code that the scrub could replace. -/
theorem scrub_of_shortKey {key : String} (h : ShortKey key) : scrub key = key := by
  refine scrub_of_clean ?_ ?_
  · rintro ⟨before, body, after, rfl, -⟩
    exact h.1 (by simp)
  · rintro ⟨before, run, after, rfl, hrun⟩
    have hlength := h.2
    rw [String.length_append, String.length_append] at hlength
    have := hrun.2
    omega

/-- No text has more `Character`s than scalars. -/
theorem length_characters_le (text : String) : (swift.characters text).length ≤ text.length := by
  have hle : ∀ characters : List String, (∀ c ∈ characters, c ≠ "") →
      characters.length ≤ (characters.flatMap String.toList).length := by
    intro characters hne
    induction characters with
    | nil => exact Nat.le_refl _
    | cons c characters ih =>
      rw [List.forall_mem_cons] at hne
      have hpos : c.toList.length ≠ 0 := by
        rw [Ne, List.length_eq_zero_iff, String.toList_eq_nil_iff]
        exact hne.1
      have htail := ih hne.2
      rw [List.flatMap_cons, List.length_append, List.length_cons]
      omega
  have hall := hle _ (swift.characters_nonempty text)
  rwa [swift.flatten_characters, String.length_toList] at hall

/-- A short key is shown as it is: nothing is replaced and nothing cut off. -/
theorem shown_of_shortKey {key : String} (h : ShortKey key) : swift.shown key = key := by
  have hlength := length_characters_le swift key
  have hshort := h.2
  simp only [Swift.shown, scrub_of_shortKey h]
  exact if_neg (by unfold maxValueCharacters; omega)

/-- The value of a field, as a JSON value. -/
def value : LogValue φ → Json.Value
  | .string text => .str (swift.shown text)
  | .int number => .num (Json.intLiteral number)
  | .double (.finite number) => .num (swift.description number)
  | .double _ => .null
  | .bool flag => .bool flag
  | .null => .null

/-- The members of the object that a line spells, in their order. -/
def members (self : EventLog) (atMs : φ) (stamp : List Char) (name : String)
    (fields : LogFields φ) : List (String × Json.Value) :=
  ("at_ms", .num (swift.description atMs)) :: ("ts", .str (.ofList stamp)) ::
    ("launch", .str (.ofList self.launchID)) ::
    ("n", .num (Json.intLiteral (self.sequence + 1))) :: ("ev", .str (swift.shown name)) ::
    fields.map (fun field => (swift.shown field.1, value swift field.2))

/-- The text that `render` puts together is what a JSON writer makes of the value. -/
theorem print_value (v : LogValue φ) : (value swift v).print escape = swift.render v := by
  cases v with
  | double number => cases number <;> rfl
  | bool flag => cases flag <;> rfl
  | string text => rfl
  | int number => rfl
  | null => rfl

/-- Every value of an event is well formed; a number that is not finite is written as `null`. -/
theorem value_wellFormed (v : LogValue φ) : (value swift v).WellFormed := by
  cases v with
  | double number =>
    cases number with
    | finite number => exact swift.isNumber_description number
    | nan => trivial
    | infinity negative => trivial
  | int number => exact Json.isNumber_intLiteral number
  | string text => trivial
  | bool flag => trivial
  | null => trivial

/-- The body that is handed to the queue is the text of the fields. -/
theorem body_eq (fields : LogFields φ) :
    body swift fields
      = (fields.map (fun field => (swift.shown field.1, value swift field.2))).flatMap
          (fun member => ',' :: Json.printMember escape member) := by
  induction fields with
  | nil => rfl
  | cons field fields ih =>
    rw [body, List.flatMap_cons, ← body, ih, List.map_cons, List.flatMap_cons, Json.printMember,
      print_value]
    rfl

/-- A text of plain scalars is quoted by putting quotes around it. -/
theorem quote_of_plain {scalars : List Char} (h : ∀ c ∈ scalars, Plain c) :
    Json.quote escape (.ofList scalars) = '"' :: (scalars ++ ['"']) := by
  rw [Json.quote, String.toList_ofList, flatMap_escape_of_plain h]

/-- A hexadecimal digit is written as it is. -/
theorem plain_of_isHex {scalar : Char} (h : isHex scalar.toNat = true) : Plain scalar := by
  have hplain : ∀ c : Char, isHex c.toNat = false → scalar ≠ c := by
    rintro c hc rfl
    rw [hc] at h
    cases h
  refine ⟨hplain _ (by decide), hplain _ (by decide), fun hlt => ?_⟩
  simp only [isHex, Bool.or_eq_true, Bool.and_eq_true, decide_eq_true_eq] at h
  omega

/-- **The line is what a JSON writer makes of its members.** -/
theorem record_line (self : EventLog) (atMs : φ) {stamp : List Char} (hstamp : ∀ c ∈ stamp, Plain c)
    (name : String) (fields : LogFields φ) :
    (record swift self atMs stamp name (body swift fields)).2
      = (Json.Value.obj (members swift self atMs stamp name fields)).print escape := by
  have hlaunch : ∀ c ∈ self.launchID, Plain c := fun c hc => plain_of_isHex (self.hexLaunchID c hc)
  have hkeys : ∀ key ∈ ["at_ms", "ts", "launch", "n", "ev"],
      Json.quote escape key = '"' :: (key.toList ++ ['"']) := by decide +kernel
  simp only [List.forall_mem_cons] at hkeys
  obtain ⟨hatMs, hts, hlaunchKey, hn, hev, -⟩ := hkeys
  rw [Json.Value.print, members, Json.printMembers_cons]
  simp [record, Json.printMember, Json.Value.print, Swift.quote, quote_of_plain hstamp,
    quote_of_plain hlaunch, hatMs, hts, hlaunchKey, hn, hev]
  exact body_eq swift fields

/-- The digits of a stamp are written as they are. -/
theorem plain_padded (width : ℕ) (n : ℤ) : ∀ c ∈ padded width n, Plain c := by
  have hdigits : ∀ c ∈ Nat.toDigits 10 n.natAbs, Plain c := by
    intro c hc
    have hdigit := Json.isDigit_of_mem_toDigits hc
    simp only [Json.isDigit, Bool.and_eq_true, decide_eq_true_eq] at hdigit
    have hle : '0'.toNat ≤ c.toNat := hdigit.1
    have hge : c.toNat ≤ '9'.toNat := hdigit.2
    have hhex : 48 ≤ c.toNat ∧ c.toNat ≤ 57 := ⟨hle, hge⟩
    exact plain_of_isHex (by simp [isHex, hhex])
  have hzeros : ∀ count, ∀ c ∈ List.replicate count '0', Plain c := by
    intro count c hc
    rw [List.eq_of_mem_replicate hc]
    decide
  unfold padded
  split
  · exact List.forall_mem_cons.mpr
      ⟨by decide, List.forall_mem_append.mpr ⟨hzeros _, hdigits⟩⟩
  · exact List.forall_mem_append.mpr ⟨hzeros _, hdigits⟩

/-- Nothing of a stamp needs an escape. -/
theorem plain_stamp (stamp : Stamp) : ∀ c ∈ stamp.text, Plain c := by
  have hsep : Plain '-' ∧ Plain 'T' ∧ Plain ':' ∧ Plain '.' ∧ Plain 'Z' := by decide
  obtain ⟨hminus, ht, hcolon, hdot, hz⟩ := hsep
  simp only [Stamp.text, List.forall_mem_append, List.forall_mem_cons]
  exact ⟨plain_padded 4 _, hminus, plain_padded 2 _, hminus, plain_padded 2 _, ht,
    plain_padded 2 _, hcolon, plain_padded 2 _, hcolon, plain_padded 2 _, hdot,
    plain_padded 3 _, hz, by simp⟩

/-! ### What a reader finds -/

/-- The text that is logged of another one: what is left after scrubbing, up to its first
    512 `Character`s. -/
structure Shows (raw text : String) : Prop where
  short : (swift.characters (scrub raw)).length ≤ 512 → text = scrub raw
  long : 512 < (swift.characters (scrub raw)).length → ∃ first rest,
    swift.characters (scrub raw) = first ++ rest ∧ first.length = 512 ∧
      text = String.join first ++ "…"

/-- What is shown of a text shows it. -/
theorem shows_shown (raw : String) : Shows swift raw (swift.shown raw) where
  short hle := if_neg (Nat.not_lt.mpr hle)
  long hlt := by
    refine ⟨(swift.characters (scrub raw)).take 512, (swift.characters (scrub raw)).drop 512,
      (List.take_append_drop 512 _).symm, by rw [List.length_take]; omega, ?_⟩
    have hshown : swift.shown raw = .ofList (swift.clipped (scrub raw) ++ ['…']) := if_pos hlt
    rw [hshown, ← String.toList_inj]
    simp [Swift.clipped, maxValueCharacters]

/-- The keys that every line begins with, in their order. -/
def fixedKeys : List String := ["at_ms", "ts", "launch", "n", "ev"]

/-- The keys of a line are the fixed ones and then those of the event's fields. -/
theorem keys_members (self : EventLog) (atMs : φ) (stamp : List Char) (name : String)
    {fields : LogFields φ} (hshort : ∀ field ∈ fields, ShortKey field.1) :
    (members swift self atMs stamp name fields).map Prod.fst
      = fixedKeys ++ fields.map Prod.fst := by
  have hshown : fields.map (Prod.fst ∘ fun field => (swift.shown field.1, value swift field.2))
      = fields.map Prod.fst :=
    List.map_congr_left fun field hfield => shown_of_shortKey swift (hshort field hfield)
  simp only [members, fixedKeys, List.map_cons, List.map_map, List.cons_append, List.nil_append,
    hshown]

/-- The line as a whole is well formed, so a reader gets it back. -/
theorem members_wellFormed (self : EventLog) (atMs : φ) (stamp : List Char) (name : String)
    (fields : LogFields φ) :
    (Json.Value.obj (members swift self atMs stamp name fields)).WellFormed := by
  rw [Json.Value.WellFormed, Json.membersWellFormed_iff]
  simp only [members, List.forall_mem_cons, List.forall_mem_map]
  exact ⟨swift.isNumber_description atMs, trivial, trivial, Json.isNumber_intLiteral _, trivial,
    fun field _ => value_wellFormed swift field.2⟩

/-- **Every event is one line of JSON** in which the texts of the event are found again. -/
theorem event_line (self : EventLog) (atMs : φ) (stamp : Stamp) (name : String)
    (fields : LogFields φ) (hshort : ∀ field ∈ fields, ShortKey field.1)
    (hkeys : (fixedKeys ++ fields.map Prod.fst).Nodup) :
    '\n' ∉ (event swift self atMs stamp name fields).2 ∧
      ∃ members, Json.parse (event swift self atMs stamp name fields).2 = some (.obj members) ∧
        members.map Prod.fst = fixedKeys ++ fields.map Prod.fst ∧
        (∃ text, members.lookup "ev" = some (.str text) ∧ Shows swift name text) ∧
        ∀ key raw, (key, .string raw) ∈ fields →
          ∃ text, members.lookup key = some (.str text) ∧ Shows swift raw text := by
  have hwellFormed := members_wellFormed swift self atMs stamp.text name fields
  have hmembers := keys_members swift self atMs stamp.text name hshort
  rw [← hmembers] at hkeys
  rw [event, record_line swift self atMs (plain_stamp stamp)]
  refine ⟨fun hfeed => Json.forall_print admits _ hwellFormed _ hfeed rfl, _,
    Json.parse_print escapes hwellFormed, hmembers, ⟨_, ?_, shows_shown swift name⟩, ?_⟩
  · exact OrderedDict.lookup_of_mem hkeys (by simp [members])
  · intro key raw hfield
    refine ⟨_, OrderedDict.lookup_of_mem hkeys ?_, shows_shown swift raw⟩
    have hkey := shown_of_shortKey swift (hshort _ hfield)
    simp only [members, List.mem_cons, List.mem_map]
    exact .inr (.inr (.inr (.inr (.inr ⟨_, hfield, by rw [hkey]; rfl⟩))))

/-- A standard library in which every scalar is a character, and the numbers are integers, which
    it prints as a `Double` is: `12.0`. -/
def scalarwise : Swift ℤ where
  characters text := text.toList.map String.singleton
  flatten_characters text := by
    rw [List.flatMap_map]
    simp
  characters_nonempty text c hc := by
    obtain ⟨scalar, -, rfl⟩ := List.mem_map.mp hc
    simp
  description number := Json.intLiteral number ++ ".0".toList
  isNumber_description number := by
    refine Json.isNumber_intLiteral_append number (by decide) fun c hc => ?_
    obtain rfl : '.' = c := by simpa using hc
    rfl

/-- A launch in which nothing was logged yet. -/
def launched : EventLog := ⟨"0a1b2c3d".toList, List.all_eq_true.mp (by decide +kernel), [], 0, 0⟩

/-- An event with a quotation and a line feed in its field is found again in the line. -/
theorem event_line_peer :
    ∃ members, Json.parse (event scalarwise launched 12 ⟨2025, 1, 2, 3, 4, 5, 6⟩ "joined"
        [("peer", .string "the \"desk\"\n"), ("load", .double .nan)]).2 = some (.obj members) ∧
      ∃ text, members.lookup "peer" = some (.str text) ∧
        Shows scalarwise "the \"desk\"\n" text := by
  obtain ⟨-, members, hparse, -, -, hfields⟩ := event_line scalarwise launched 12
    ⟨2025, 1, 2, 3, 4, 5, 6⟩ "joined"
    [("peer", .string "the \"desk\"\n"), ("load", .double .nan)]
    (by unfold ShortKey; decide +kernel) (by decide +kernel)
  exact ⟨members, hparse, hfields _ _ List.mem_cons_self⟩

end EventLog

end ShareCompute.App
