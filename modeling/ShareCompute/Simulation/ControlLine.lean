import ShareCompute.Cluster.Protocol
import ShareCompute.Library.JsonText
import ShareCompute.Library.LineSocket
import ShareCompute.Library.OrderedDict

namespace ShareCompute.Simulation

open ShareCompute.Library ShareCompute.Cluster

/-!
# Control messages over a socket

`four_platform_pool_lib.py`: a message is a line of JSON, `encode_msg`, and `recv_line` takes the
next one off a socket, with a buffer that outlives the call.

* `loads_dumps` — `json.loads` reads what `json.dumps` writes.
* `encodeMsg_line` — the text of a message is one line.
* `control_lines` — nothing is lost or duplicated, however the lines are split.

What Python's floats look like is a parameter.
-/

/-- `PROTOCOL_VERSION`, which a message carries unless it names its own. -/
def protocolVersion : ℤ := 1

/-- `float.__repr__` and `float`, on decimal literals, with what is documented of them. -/
structure Floats where
  /-- the numbers that a `float` can be -/
  isFloat : ℚ → Prop
  repr : Option ℚ → List Char
  read : List Char → Option ℚ
  isNumber_repr : ∀ q, isFloat q → Json.isNumber (repr (some q)) = true
  /-- it has a point or an exponent -/
  readInt_repr : ∀ q, isFloat q → Json.readInt (repr (some q)) = none
  read_repr : ∀ q, isFloat q → read (repr (some q)) = some q

/-! ### JSON -/

/-- `ESCAPE_DCT`: the characters that are escaped by a letter. -/
def escapeDct : List (Char × Char) :=
  [('\\', '\\'), ('"', '"'), ('\x08', 'b'), ('\x0c', 'f'), ('\n', 'n'), ('\r', 'r'), ('\t', 't')]

/-- What `json.dumps` puts for a character; it writes ASCII only. -/
def escapeAscii (c : Char) : List Char :=
  match escapeDct.lookup c with
  | some letter => ['\\', letter]
  | none =>
      if Json.isPrintable c then [c]
      else if c.toNat < 65536 then '\\' :: 'u' :: Json.hex4 c.toNat
      else
        '\\' :: 'u' :: (Json.hex4 (0xd800 + (c.toNat - 0x10000) / 0x400)
          ++ '\\' :: 'u' :: Json.hex4 (0xdc00 + (c.toNat - 0x10000) % 0x400))

namespace Floats

variable (floats : Floats)

mutual

/-- A Python value as a JSON value. -/
def toValue : Json → Json.Value
  | .null => .null
  | .bool value => .bool value
  | .int value => .num (Json.intLiteral value)
  | .float value => .num (floats.repr value)
  | .str value => .str value
  | .list items => .arr (toItems items)
  | .dict items => .obj (toMembers items)

/-- `json.dumps` of the items of a list, as values of JSON. -/
def toItems : List Json → List Json.Value
  | [] => []
  | item :: items => toValue item :: toItems items

/-- `json.dumps` of the members of a dictionary, as values of JSON. -/
def toMembers : List (String × Json) → List (String × Json.Value)
  | [] => []
  | (key, value) :: items => (key, toValue value) :: toMembers items

end

mutual

/-- A JSON value as a Python value: a number is an `int` if it has no point and no exponent, and
    the last member with a key is the one that counts. -/
def ofValue : Json.Value → Json
  | .null => .null
  | .bool value => .bool value
  | .num literal =>
      match Json.readInt literal with
      | some value => .int value
      | none => .float (floats.read literal)
  | .str text => .str text
  | .arr items => .list (ofItems items)
  | .obj members =>
      .dict ((ofMembers members).foldl (fun d item => OrderedDict.assign item.1 item.2 d) [])

/-- `json.loads` of the items of a list. -/
def ofItems : List Json.Value → List Json
  | [] => []
  | item :: items => ofValue item :: ofItems items

/-- `json.loads` of the members of an object. -/
def ofMembers : List (String × Json.Value) → List (String × Json)
  | [] => []
  | (key, value) :: members => (key, ofValue value) :: ofMembers members

end

/-- The text `json.dumps(value, separators=(",", ":"))`, in ASCII. -/
def dumps (value : Json) : List Char := (floats.toValue value).print escapeAscii

/-- `json.loads(text)`, of a text that is JSON. -/
def loads (text : List Char) : Option Json := (Json.parse text).map floats.ofValue

end Floats

/-! ### Messages -/

/-- `body.setdefault("v", PROTOCOL_VERSION)`: the version is added where there is none. -/
def setVersion (payload : Dict) : Dict :=
  if (payload.lookup "v").isSome then payload else payload ++ [("v", .int protocolVersion)]

/-- What `recv_line` comes to: it waits, returns, or raises. -/
inductive Reply
  /-- it still waits -/
  | waiting
  /-- it returns `None` -/
  | returnedNone
  | message (value : Json)
  /-- the line is not JSON, or not UTF-8 -/
  | raised

namespace Floats

variable (floats : Floats)

/-- `encode_msg(payload)`: the text of the dictionary with its version, and a line feed. -/
def encodeMsg (payload : Dict) : Bytes :=
  utf8 (.ofList (floats.dumps (.dict (setVersion payload)) ++ ['\n']))

/-- What `recv_line` makes of a line: the value of its JSON, if it has one. -/
def reply : LineRead → Reply
  | .waiting => .waiting
  | .nothing => .returnedNone
  | .line raw =>
      match (decodeUtf8 raw).bind (fun text => floats.loads text.toList) with
      | some value => .message value
      | none => .raised

/-- `recv_line(sock, buf, deadline)`, with the buffer and the socket it leaves. -/
def recvLine (sock : Socket) (buf : Bytes) : Reply × Bytes × Socket :=
  let (read, buf, sock) := receiveLine sock buf
  (floats.reply read, buf, sock)

/-- The results of `calls` calls with one buffer. -/
def recvLines : ℕ → Socket → Bytes → List Reply × Bytes × Socket
  | 0, sock, buf => ([], buf, sock)
  | calls + 1, sock, buf =>
      let (reply, buf, sock) := floats.recvLine sock buf
      let (replies, buf, sock) := recvLines calls sock buf
      (reply :: replies, buf, sock)

end Floats

/-! ### What is written is read -/

/-- The letters are read back as the characters that they escape. -/
theorem readChar_letter {c letter : Char} (h : escapeDct.lookup c = some letter)
    (rest : List Char) : Json.readChar ('\\' :: letter :: rest) = some (c, rest) := by
  have hall : ∀ entry ∈ escapeDct, Json.readChar ('\\' :: entry.2 :: rest)
      = some (entry.1, rest) := by
    simp only [escapeDct, List.forall_mem_cons]
    exact ⟨rfl, rfl, rfl, rfl, rfl, rfl, rfl, by simp⟩
  exact hall _ (OrderedDict.mem_of_lookup h)

/-- The letter of an escape is printable, as all of the text is. -/
theorem isPrintable_letter {c letter : Char} (h : escapeDct.lookup c = some letter) :
    Json.isPrintable letter :=
  of_decide_eq_true (List.all_eq_true.mp (by decide : escapeDct.all
    (fun entry => Json.isPrintable entry.2) = true) _ (OrderedDict.mem_of_lookup h))

/-- What has no letter needs an escape only if it is not printable. -/
theorem ne_of_lookup {c : Char} (h : escapeDct.lookup c = none) : c ≠ '\\' ∧ c ≠ '"' := by
  constructor
  · rintro rfl
    cases h
  · rintro rfl
    cases h

/-- What `json.dumps` writes for a character is understood by the reader, with surrogates for those
    beyond the first plane. -/
theorem escapeAscii_escapes : Json.Escapes escapeAscii where
  read c rest := by
    unfold escapeAscii
    split
    case h_1 letter hletter => exact readChar_letter hletter rest
    case h_2 hnone =>
      split
      case isTrue hplain =>
        exact Json.readChar_self (ne_of_lookup hnone).1 (not_lt.mpr hplain.1) rest
      case isFalse =>
        split
        case isTrue hunit => exact Json.readChar_hex4 hunit rest
        case isFalse hunit =>
          rw [List.cons_append, List.cons_append, List.append_assoc, List.cons_append,
            List.cons_append]
          exact Json.readChar_surrogates hunit rest
  head c := by
    unfold escapeAscii
    split
    case h_1 => exact ⟨_, _, rfl, by decide⟩
    case h_2 hnone =>
      split
      case isTrue => exact ⟨_, _, rfl, (ne_of_lookup hnone).2⟩
      case isFalse => split <;> exact ⟨_, _, rfl, by decide⟩

/-- The escape of a code unit is printable, so it is no newline. -/
theorem isPrintable_unit {n : ℕ} (h : n < 65536) : ∀ d ∈ '\\' :: 'u' :: Json.hex4 n,
    Json.isPrintable d := by
  rw [List.forall_mem_cons, List.forall_mem_cons]
  exact ⟨by decide, by decide, Json.isPrintable_hex4 h⟩

/-- `json.dumps` writes nothing but printable ASCII, so a message is one line. -/
theorem escapeAscii_admits : Json.Admits escapeAscii Json.isPrintable where
  printable _ hc := hc
  escape c := by
    have hvalid : c.toNat < 0xd800 ∨ 0xdfff < c.toNat ∧ c.toNat < 0x110000 := c.valid
    unfold escapeAscii
    split
    case h_1 letter hletter =>
      rw [List.forall_mem_cons, List.forall_mem_singleton]
      exact ⟨by decide, isPrintable_letter hletter⟩
    case h_2 =>
      split
      case isTrue hplain => rwa [List.forall_mem_singleton]
      case isFalse =>
        split
        case isTrue hunit => exact isPrintable_unit hunit
        case isFalse =>
          rw [← List.cons_append, ← List.cons_append, List.forall_mem_append]
          exact ⟨isPrintable_unit (by omega), isPrintable_unit (by omega)⟩

namespace Floats

variable {floats : Floats}

mutual

/-- A value that JSON has: its floats are finite, and its dictionaries have no key twice. -/
def Proper (floats : Floats) : Json → Prop
  | .float none => False
  | .float (some q) => floats.isFloat q
  | .list items => ProperItems floats items
  | .dict items => (items.map Prod.fst).Nodup ∧ ProperMembers floats items
  | _ => True

/-- Every item of a list is a proper value. -/
def ProperItems (floats : Floats) : List Json → Prop
  | [] => True
  | item :: items => Proper floats item ∧ ProperItems floats items

/-- Every member of a dictionary has a proper value. -/
def ProperMembers (floats : Floats) : List (String × Json) → Prop
  | [] => True
  | (_, value) :: items => Proper floats value ∧ ProperMembers floats items

end

/-- The members are proper exactly if each of them is. -/
theorem properMembers_iff {items : List (String × Json)} :
    floats.ProperMembers items ↔ ∀ item ∈ items, floats.Proper item.2 := by
  induction items with
  | nil => simp [ProperMembers]
  | cons item items ih => simp [ProperMembers, ih]

mutual

/-- A proper value is written as a well-formed one: its numbers are numbers of JSON. -/
theorem wellFormed_toValue : ∀ value : Json, floats.Proper value → (floats.toValue value).WellFormed
  | .null, _ => by simp [toValue, Json.Value.WellFormed]
  | .bool _, _ => by simp [toValue, Json.Value.WellFormed]
  | .int value, _ => by
      rw [toValue, Json.Value.WellFormed]
      exact Json.isNumber_intLiteral value
  | .float none, h => by rw [Proper] at h; exact h.elim
  | .float (some q), h => by
      rw [Proper] at h
      rw [toValue, Json.Value.WellFormed]
      exact floats.isNumber_repr q h
  | .str _, _ => by simp [toValue, Json.Value.WellFormed]
  | .list items, h => by
      rw [Proper] at h
      rw [toValue, Json.Value.WellFormed]
      exact wellFormed_toItems items h
  | .dict items, h => by
      rw [Proper] at h
      rw [toValue, Json.Value.WellFormed]
      exact wellFormed_toMembers items h.2

/-- The items of a proper list are written as well-formed values. -/
theorem wellFormed_toItems : ∀ items : List Json, floats.ProperItems items →
    Json.ItemsWellFormed (floats.toItems items)
  | [], _ => by rw [toItems, Json.ItemsWellFormed]; trivial
  | item :: items, h => by
      rw [ProperItems] at h
      rw [toItems, Json.ItemsWellFormed]
      exact ⟨wellFormed_toValue item h.1, wellFormed_toItems items h.2⟩

/-- The members of a proper dictionary are written as well-formed values. -/
theorem wellFormed_toMembers : ∀ items : List (String × Json), floats.ProperMembers items →
    Json.MembersWellFormed (floats.toMembers items)
  | [], _ => by rw [toMembers, Json.MembersWellFormed]; trivial
  | (key, value) :: items, h => by
      rw [ProperMembers] at h
      rw [toMembers, Json.MembersWellFormed]
      exact ⟨wellFormed_toValue value h.1, wellFormed_toMembers items h.2⟩

end

mutual

/-- `json.loads` gives a proper value back, by recursion over the value. -/
theorem ofValue_toValue : ∀ value : Json, floats.Proper value →
    floats.ofValue (floats.toValue value) = value
  | .null, _ => by rw [toValue, ofValue]
  | .bool _, _ => by rw [toValue, ofValue]
  | .int value, _ => by
      rw [toValue, ofValue]
      simp only [Json.readInt_intLiteral]
  | .float none, h => by rw [Proper] at h; exact h.elim
  | .float (some q), h => by
      rw [Proper] at h
      rw [toValue, ofValue]
      simp only [floats.readInt_repr q h, floats.read_repr q h]
  | .str _, _ => by rw [toValue, ofValue]
  | .list items, h => by
      rw [Proper] at h
      rw [toValue, ofValue, ofItems_toItems items h]
  | .dict items, h => by
      rw [Proper] at h
      rw [toValue, ofValue, ofMembers_toMembers items h.2]
      exact congrArg Json.dict (OrderedDict.foldl_assign_append h.1)

/-- `json.loads` gives the items of a proper list back. -/
theorem ofItems_toItems : ∀ items : List Json, floats.ProperItems items →
    floats.ofItems (floats.toItems items) = items
  | [], _ => by rw [toItems, ofItems]
  | item :: items, h => by
      rw [ProperItems] at h
      rw [toItems, ofItems, ofValue_toValue item h.1, ofItems_toItems items h.2]

/-- `json.loads` gives the members of a proper dictionary back. -/
theorem ofMembers_toMembers : ∀ items : List (String × Json), floats.ProperMembers items →
    floats.ofMembers (floats.toMembers items) = items
  | [], _ => by rw [toMembers, ofMembers]
  | (key, value) :: items, h => by
      rw [ProperMembers] at h
      rw [toMembers, ofMembers, ofValue_toValue value h.1, ofMembers_toMembers items h.2]

end

/-- **`json.loads` reads what `json.dumps` writes**, if the value is proper. -/
theorem loads_dumps {value : Json} (h : floats.Proper value) :
    floats.loads (floats.dumps value) = some value := by
  rw [loads, dumps, Json.parse_print escapeAscii_escapes (wellFormed_toValue value h),
    Option.map_some, ofValue_toValue value h]

/-- The text of a dictionary is printable ASCII between braces. -/
theorem dumps_dict {payload : Dict} (h : floats.Proper (.dict payload)) :
    (∀ c ∈ floats.dumps (.dict payload), Json.isPrintable c) ∧
      ∃ middle, floats.dumps (.dict payload) = '{' :: (middle ++ ['}']) := by
  refine ⟨Json.forall_print escapeAscii_admits _ (wellFormed_toValue _ h), ?_⟩
  rw [dumps, toValue, Json.Value.print]
  cases floats.toMembers payload with
  | nil => exact ⟨[], by rw [Json.printMembers]; rfl⟩
  | cons member members =>
    rw [Json.printMembers_cons]
    exact ⟨_, by rw [← List.append_assoc]⟩

/-- Setting the version of a proper message leaves it proper. -/
theorem proper_setVersion {payload : Dict} (h : floats.Proper (.dict payload)) :
    floats.Proper (.dict (setVersion payload)) := by
  rw [setVersion]
  split
  case isTrue => exact h
  case isFalse hmissing =>
    rw [Proper, properMembers_iff] at h ⊢
    rw [OrderedDict.lookup_isSome_iff] at hmissing
    constructor
    · rw [List.map_append]
      exact List.nodup_append_comm.mp (List.nodup_cons.mpr ⟨hmissing, h.1⟩)
    · intro item hitem
      rcases List.mem_append.mp hitem with hitem | hitem
      · exact h.2 item hitem
      · rw [List.mem_singleton.mp hitem, Proper.eq_def]
        trivial

/-- The bytes of a message before its newline. -/
def body (floats : Floats) (payload : Dict) : Bytes :=
  utf8 (.ofList (floats.dumps (.dict (setVersion payload))))

/-- A message is its body and a line feed. -/
theorem encodeMsg_eq (payload : Dict) :
    floats.encodeMsg payload = floats.body payload ++ [newline] := by
  rw [encodeMsg, body, utf8_ofList, utf8_ofList, List.flatMap_append]
  rfl

/-- **The text of a message is one line**, and nothing is to strip from it. -/
theorem encodeMsg_line {payload : Dict} (h : floats.Proper (.dict payload)) :
    newline ∉ floats.body payload ∧ strip (floats.body payload) = floats.body payload ∧
      floats.body payload ≠ [] := by
  obtain ⟨hprintable, middle, htext⟩ := dumps_dict (proper_setVersion h)
  -- each character of the text is one byte
  have hbytes : floats.body payload
      = (floats.dumps (.dict (setVersion payload))).map (fun c => UInt8.ofNat c.toNat) := by
    rw [body, utf8_ofList]
    generalize floats.dumps (.dict (setVersion payload)) = text at hprintable
    induction text with
    | nil => rfl
    | cons c text ih =>
      rw [List.forall_mem_cons] at hprintable
      rw [List.flatMap_cons, List.map_cons, ih hprintable.2,
        utf8EncodeChar_ascii (by have := hprintable.1.2; omega)]
      rfl
  refine ⟨?_, ?_, ?_⟩
  · rw [hbytes]
    intro hmem
    -- a line feed would be a character below the printable ones
    obtain ⟨c, hc, hnewline⟩ := List.mem_map.mp hmem
    have hrange := hprintable c hc
    have hvalue := congrArg UInt8.toNat hnewline
    have hten : newline.toNat = 10 := rfl
    rw [UInt8.toNat_ofNat', hten] at hvalue
    have h₁ := hrange.1
    have h₂ := hrange.2
    omega
  · rw [hbytes, htext, List.map_cons, List.map_append]
    exact strip_between (by decide) (by decide) _
  · rw [hbytes, htext]
    simp

/-- A message is read from its line. -/
theorem reply_body {payload : Dict} (h : floats.Proper (.dict payload)) :
    floats.reply (.line (floats.body payload)) = .message (.dict (setVersion payload)) := by
  have htext := decodeUtf8_utf8 (.ofList (floats.dumps (.dict (setVersion payload))))
  rw [reply, body, htext, Option.bind_some, String.toList_ofList,
    loads_dumps (proper_setVersion h)]

/-! ### Calls -/

/-- The replies of `recv_line` are what it makes of the lines that come off the socket. -/
theorem recvLines_eq (calls : ℕ) (sock : Socket) (buf : Bytes) :
    floats.recvLines calls sock buf = ((receiveLines calls sock buf).1.map floats.reply,
      (receiveLines calls sock buf).2) := by
  induction calls generalizing sock buf with
  | zero => rfl
  | succ calls ih =>
    rw [recvLines, recvLine, receiveLines]
    simp only [ih]
    rfl

end Floats

/-- What is sent: a message, or a line of blanks. -/
inductive Piece
  | blank (spaces : Bytes)
  | message (payload : Dict)

namespace Piece

variable (floats : Floats)

/-- The bytes of a piece before its newline. -/
def line : Piece → Bytes
  | .blank spaces => spaces
  | .message payload => floats.body payload

/-- The bytes of a piece of the stream: a message, or a line of blanks. -/
def bytes : Piece → Bytes
  | .blank spaces => spaces ++ [newline]
  | .message payload => floats.encodeMsg payload

/-- What is to be received of it. -/
def object? : Piece → Option Json
  | .blank _ => none
  | .message payload => some (.dict (setVersion payload))

/-- A piece is proper if its blanks are blanks, and its message is a proper dictionary. -/
def Proper : Piece → Prop
  | .blank spaces => ∀ byte ∈ spaces, isSpace byte = true ∧ byte ≠ newline
  | .message payload => floats.Proper (.dict payload)

end Piece

/-- The objects among the replies, without the waits and the failures. -/
def Reply.object? : Reply → Option Json
  | .message value => some value
  | _ => none

section

variable {floats : Floats} {pieces : List Piece}

/-- The bytes of the pieces are their lines, each with its line feed. -/
theorem bytes_eq_unlines (pieces : List Piece) :
    pieces.flatMap (Piece.bytes floats) = unlines (pieces.map (Piece.line floats)) := by
  induction pieces with
  | nil => rfl
  | cons piece pieces ih =>
    rw [List.flatMap_cons, List.map_cons, unlines_cons, ih]
    cases piece with
    | blank spaces => simp [Piece.bytes, Piece.line]
    | message payload => simp [Piece.bytes, Piece.line, Floats.encodeMsg_eq]

/-- No line of a proper piece holds a line feed, so the pieces can be told apart. -/
theorem newline_not_mem_line {piece : Piece} (h : piece.Proper floats) :
    newline ∉ piece.line floats := by
  cases piece with
  | blank spaces => exact fun hmem => (h newline hmem).2 rfl
  | message payload => exact (Floats.encodeMsg_line h).1

/-- The lines of the pieces are read as their objects. -/
theorem replies_texts (h : ∀ piece ∈ pieces, piece.Proper floats) :
    (texts (pieces.map (Piece.line floats))).map (fun raw => floats.reply (.line raw))
      = (pieces.filterMap Piece.object?).map Reply.message := by
  induction pieces with
  | nil => rfl
  | cons piece pieces ih =>
    rw [List.forall_mem_cons] at h
    have ih := ih h.2
    cases piece with
    | blank spaces =>
      have hblank : strip spaces = [] := strip_spaces fun byte hbyte => (h.1 byte hbyte).1
      rw [List.map_cons, Piece.line, texts, List.map_cons, hblank,
        List.filter_cons_of_neg (by simp)]
      exact ih
    | message payload =>
      obtain ⟨-, hstrip, hne⟩ := Floats.encodeMsg_line h.1
      rw [List.map_cons, Piece.line, texts, List.map_cons, hstrip,
        List.filter_cons_of_pos (by simpa using hne), List.map_cons, Floats.reply_body h.1,
        List.filterMap_cons, Piece.object?]
      exact congrArg (Reply.message (.dict (setVersion payload)) :: ·) ih

/-- The replies with a text are messages, and the others are `None` or still wait. -/
theorem objects_of_reads (reads : List LineRead) (objects : List Json)
    (h : (reads.filterMap LineRead.text?).map (fun raw => floats.reply (.line raw))
      = objects.map Reply.message) :
    (reads.map floats.reply).filterMap Reply.object? = objects ∧
      Reply.raised ∉ reads.map floats.reply := by
  induction reads generalizing objects with
  | nil =>
    obtain rfl := List.map_eq_nil_iff.mp h.symm
    exact ⟨rfl, List.not_mem_nil⟩
  | cons read reads ih =>
    cases read with
    | line raw =>
      cases objects with
      | nil => simp [LineRead.text?] at h
      | cons object objects =>
        obtain ⟨hobject, hrest⟩ := List.cons.inj h
        obtain ⟨hrest, hnone⟩ := ih objects hrest
        simp only at hobject
        rw [List.map_cons, hobject, List.filterMap_cons, Reply.object?, hrest]
        exact ⟨rfl, by simpa using hnone⟩
    | waiting =>
      obtain ⟨hrest, hnone⟩ := ih objects h
      exact ⟨hrest, by simpa [Floats.reply] using hnone⟩
    | nothing =>
      obtain ⟨hrest, hnone⟩ := ih objects h
      exact ⟨hrest, by simpa [Floats.reply] using hnone⟩

/-- A call that neither returned a message nor raised has read no line with a text. -/
theorem object?_eq_none {read : LineRead} (h : (floats.reply read).object? = none)
    (hraised : floats.reply read ≠ .raised) : read.text? = none := by
  cases read with
  | line raw =>
    rw [Floats.reply] at h hraised
    split at h
    case h_1 => cases h
    case h_2 hnone => exact absurd (by rw [hnone]) hraised
  | _ => rfl

end

/-- **Control messages over a socket.**  Of the pieces that are sent, every number of calls with
    one buffer has taken the first ones, whatever the chunks are and wherever calls gave up: it has
    returned their objects, once each and in their order, it has not returned one whose newline has
    not arrived, and what has arrived behind them is in the buffer. -/
theorem control_lines (floats : Floats) (pieces : List Piece) (sock : Socket)
    (hpieces : ∀ piece ∈ pieces, piece.Proper floats)
    (hsock : arrived sock = pieces.flatMap (Piece.bytes floats)) (calls : ℕ) :
    let result := floats.recvLines calls sock []
    (∃ front rest used, pieces = front ++ rest ∧ sock = used ++ result.2.2 ∧
      arrived used = front.flatMap (Piece.bytes floats) ++ result.2.1 ∧
      result.1.filterMap Reply.object? = front.filterMap Piece.object?) ∧
    Reply.raised ∉ result.1 ∧
    -- a call that gives up leaves what it has of a line
    ((∃ reply ∈ result.1.getLast?, reply.object? = none) → newline ∉ result.2.1) ∧
    -- all objects are returned in the end
    (pieces.length + sock.length < calls →
      result.1.filterMap Reply.object? = pieces.filterMap Piece.object?) := by
  simp only [Floats.recvLines_eq]
  rcases hresult : receiveLines calls sock [] with ⟨reads, buf, sock'⟩
  obtain ⟨used, lines, htook, hbound⟩ := receiveLines_took hresult
  have hsplit : unlines lines ++ (buf ++ arrived sock')
      = unlines (pieces.map (Piece.line floats)) := by
    rw [← bytes_eq_unlines, ← hsock, htook.socket, arrived_append, ← List.append_assoc,
      ← htook.bytes, List.nil_append]
  have hnewlines : ∀ l ∈ pieces.map (Piece.line floats), newline ∉ l := by
    intro l hl
    obtain ⟨piece, hpiece, rfl⟩ := List.mem_map.mp hl
    exact newline_not_mem_line (hpieces piece hpiece)
  obtain ⟨more, hmore, hrest⟩ := unlines_prefix htook.newlines hnewlines hsplit
  -- so the lines that were taken are those of the first pieces
  obtain ⟨front, rest, rfl, rfl, rfl⟩ := List.map_eq_append_iff.mp hmore
  have hfront : ∀ piece ∈ front, piece.Proper floats := fun piece hpiece =>
    hpieces piece (List.mem_append_left _ hpiece)
  have hreplies := replies_texts hfront
  rw [htook.texts] at hreplies
  obtain ⟨hobjects, hraised⟩ := objects_of_reads reads _ hreplies
  refine ⟨⟨front, rest, used, rfl, htook.socket, ?_, hobjects⟩, hraised, ?_, ?_⟩
  · rw [bytes_eq_unlines, ← htook.bytes, List.nil_append]
  · rintro ⟨reply, hlast, hnone⟩
    rw [List.getLast?_map] at hlast
    obtain ⟨read, hread, rfl⟩ := Option.map_eq_some_iff.mp hlast
    have hmem : floats.reply read ∈ reads.map floats.reply :=
      List.mem_map_of_mem (List.mem_of_getLast? hread)
    exact receiveLines_unfinished hresult
      ⟨read, hread, object?_eq_none hnone fun heq => hraised (heq ▸ hmem)⟩
  · intro hcalls
    rcases hbound with ⟨rfl, hopen⟩ | hbound
    · -- no piece is left, since there is no newline any more
      cases rest with
      | nil => rw [hobjects, List.append_nil]
      | cons piece rest =>
        rw [arrived, List.flatMap_nil, List.append_nil, List.map_cons, unlines_cons] at hrest
        exact absurd (by rw [hrest]; simp) hopen
    · exfalso
      have htexts : (texts (front.map (Piece.line floats))).length ≤ front.length := by
        refine le_trans (List.length_filter_le _ _) ?_
        rw [List.length_map, List.length_map]
      have hused : used.length ≤ sock.length := by
        rw [htook.socket, List.length_append]
        omega
      rw [List.length_append] at hcalls
      omega

/-- Enough of Python for the number 1.5. -/
def oneAndAHalf : Floats where
  isFloat q := q = 3 / 2
  repr _ := "1.5".toList
  read _ := some (3 / 2)
  isNumber_repr _ _ := by decide
  readInt_repr _ _ := by decide
  read_repr _ h := by rw [h]

/-- A line of blanks and a message, with a call that gives up in between. -/
theorem control_lines_one_message :
    let payload : Dict := [("x", .float (some (3 / 2)))]
    let bytes := oneAndAHalf.encodeMsg payload
    let sock : Socket :=
      [.chunk ([32, 13, newline] ++ bytes.take 3), .silence, .chunk (bytes.drop 3)]
    ((oneAndAHalf.recvLines 9 sock []).1.filterMap Reply.object?)
      = [.dict [("x", .float (some (3 / 2))), ("v", .int 1)]] := by
  intro payload bytes sock
  refine (control_lines oneAndAHalf [.blank [32, 13], .message payload] sock ?_ ?_ 9).2.2.2
    (by decide)
  · intro piece hpiece
    rcases List.mem_pair.mp hpiece with rfl | rfl
    · show ∀ byte ∈ [32, 13], isSpace byte = true ∧ byte ≠ newline
      rw [List.forall_mem_cons, List.forall_mem_singleton]
      decide
    · rw [Piece.Proper, Floats.Proper, Floats.properMembers_iff]
      refine ⟨by decide, fun item hitem => ?_⟩
      rw [List.mem_singleton.mp hitem, Floats.Proper.eq_def]
      rfl
  · show [32, 13, newline] ++ bytes.take 3 ++ ([] ++ (bytes.drop 3 ++ []))
      = [32, 13] ++ [newline] ++ (bytes ++ [])
    rw [List.nil_append, List.append_nil, List.append_nil, List.append_assoc,
      List.take_append_drop]
    rfl

end ShareCompute.Simulation
