import ShareCompute.Library.ChunkedSocket
import Mathlib.Data.List.TakeWhile

namespace ShareCompute.Library

/-!
# Lines off a socket

A reader that keeps what it has received in a buffer, takes the first line out of it that is not
blank, and waits for more when there is none.

* `nextLine` — the line out of the buffer; `receiveLine` — the reader.
* `receiveLine_spec` — a call takes lines off the stream and leaves everything behind them.
* `receiveLines_spec` — so do many calls, however the stream is split and wherever they give up.
-/

/-- The byte that ends a line, the line feed. -/
def newline : UInt8 := 10

/-- `\t`, `\n`, `\v`, `\f`, `\r` and the space -/
def isSpace (byte : UInt8) : Bool := byte = 32 || (9 ≤ byte && byte ≤ 13)

/-- The bytes without the blanks at their end. -/
def stripRight (bytes : Bytes) : Bytes := (bytes.reverse.dropWhile isSpace).reverse

/-- The bytes without the blanks at both ends. -/
def strip (bytes : Bytes) : Bytes := stripRight (bytes.dropWhile isSpace)

/-- Nothing is taken off bytes that begin and end with something else. -/
theorem strip_between {first last : UInt8} (hfirst : isSpace first = false)
    (hlast : isSpace last = false) (middle : Bytes) :
    strip (first :: (middle ++ [last])) = first :: (middle ++ [last]) := by
  rw [strip, List.dropWhile_cons_of_neg (by simp [hfirst]), stripRight, List.reverse_cons,
    List.reverse_append, List.reverse_singleton, List.singleton_append, List.cons_append,
    List.dropWhile_cons_of_neg (by simp [hlast])]
  simp

/-- Nothing is left of blanks when they are stripped off. -/
theorem strip_spaces {spaces : Bytes} (h : ∀ byte ∈ spaces, isSpace byte = true) :
    strip spaces = [] := by
  rw [strip, List.dropWhile_eq_nil_iff.mpr h]
  rfl

/-- The bytes before the first newline and those behind it. -/
def splitLine : Bytes → Option (Bytes × Bytes)
  | [] => none
  | byte :: buf =>
      if byte = newline then some ([], buf)
      else (splitLine buf).map (fun p => (byte :: p.1, p.2))

/-- The first line of a buffer goes up to its line feed. -/
theorem splitLine_append {line : Bytes} (h : newline ∉ line) (rest : Bytes) :
    splitLine (line ++ newline :: rest) = some (line, rest) := by
  induction line with
  | nil => exact if_pos rfl
  | cons byte line ih =>
    rw [List.mem_cons, not_or] at h
    rw [List.cons_append, splitLine, if_neg (Ne.symm h.1), ih h.2]
    rfl

/-- A buffer without a line feed holds no line yet. -/
theorem splitLine_eq_none {buf : Bytes} (h : newline ∉ buf) : splitLine buf = none := by
  induction buf with
  | nil => rfl
  | cons byte buf ih =>
    rw [List.mem_cons, not_or] at h
    rw [splitLine, if_neg (Ne.symm h.1), ih h.2]
    rfl

/-- Where there is a newline, there is a line. -/
theorem exists_line {buf : Bytes} (h : newline ∈ buf) :
    ∃ line rest, newline ∉ line ∧ buf = line ++ newline :: rest := by
  obtain ⟨line, rest, rfl, hline⟩ := List.eq_append_cons_of_mem h
  exact ⟨line, rest, hline, rfl⟩

/-- The line that was split off, its newline and the rest. -/
theorem splitLine_eq_some {buf line rest : Bytes} (h : splitLine buf = some (line, rest)) :
    newline ∉ line ∧ buf = line ++ newline :: rest := by
  by_cases hmem : newline ∈ buf
  · obtain ⟨before, behind, hbefore, rfl⟩ := exists_line hmem
    rw [splitLine_append hbefore] at h
    obtain ⟨rfl, rfl⟩ := Prod.mk.inj (Option.some.inj h)
    exact ⟨hbefore, rfl⟩
  · rw [splitLine_eq_none hmem] at h
    cases h

/-- More bytes do not change the first line. -/
theorem splitLine_more {buf line rest : Bytes} (h : splitLine buf = some (line, rest))
    (more : Bytes) : splitLine (buf ++ more) = some (line, rest ++ more) := by
  obtain ⟨hline, rfl⟩ := splitLine_eq_some h
  rw [List.append_assoc, List.cons_append, splitLine_append hline]

/-- When no line is found there is no line feed in the buffer. -/
theorem not_mem_of_splitLine {buf : Bytes} (h : splitLine buf = none) : newline ∉ buf := by
  intro hmem
  obtain ⟨before, behind, hbefore, rfl⟩ := exists_line hmem
  rw [splitLine_append hbefore] at h
  cases h

/-- Behind a line the buffer is shorter, so looking for the next one ends. -/
theorem length_of_splitLine {buf line rest : Bytes} (h : splitLine buf = some (line, rest)) :
    rest.length < buf.length := by
  obtain ⟨-, rfl⟩ := splitLine_eq_some h
  rw [List.length_append, List.length_cons]
  omega

/-- The first line of the buffer that is not blank, and what stays in the buffer. -/
def nextLine (buf : Bytes) : Option Bytes × Bytes :=
  match _hsplit : splitLine buf with
  | none => (none, buf)
  | some (line, rest) => if strip line = [] then nextLine rest else (some (strip line), rest)
termination_by buf.length
decreasing_by exact length_of_splitLine _hsplit

/-- What a call that reads a line comes to. -/
inductive LineRead
  /-- it still waits -/
  | waiting
  /-- nothing came before the deadline, or the stream has ended -/
  | nothing
  | line (raw : Bytes)
deriving DecidableEq

/-- A call of the reader: the next line that is not blank, or the reason why there is none yet. -/
def receiveLine : Socket → Bytes → LineRead × Bytes × Socket
  | [], buf =>
      match nextLine buf with
      | (some raw, buf) => (.line raw, buf, [])
      | (none, buf) => (.waiting, buf, [])
  | arrival :: socket, buf =>
      match nextLine buf with
      | (some raw, buf) => (.line raw, buf, arrival :: socket)
      | (none, buf) =>
          match arrival with
          | .silence => (.nothing, buf, socket)
          | .chunk bytes =>
              if bytes = [] then (.nothing, buf, socket) else receiveLine socket (buf ++ bytes)

/-- The results of `calls` calls with one buffer. -/
def receiveLines : ℕ → Socket → Bytes → List LineRead × Bytes × Socket
  | 0, socket, buf => ([], buf, socket)
  | calls + 1, socket, buf =>
      let (read, buf, socket) := receiveLine socket buf
      let (reads, buf, socket) := receiveLines calls socket buf
      (read :: reads, buf, socket)

/-! ### Lines in a buffer -/

/-- The bytes of lines, each with its newline. -/
def unlines (lines : List Bytes) : Bytes := (lines.map (· ++ [newline])).flatten

/-- No lines are no bytes, where the induction over lines begins. -/
@[simp] theorem unlines_nil : unlines [] = [] := rfl

/-- The bytes of a list of lines are those of the first one, a line feed, and those of the
    others. -/
@[simp] theorem unlines_cons (line : Bytes) (lines : List Bytes) :
    unlines (line :: lines) = line ++ newline :: unlines lines := by
  simp [unlines]

/-- The bytes of two lists of lines are those of the one and then of the other. -/
@[simp] theorem unlines_append (lines lines' : List Bytes) :
    unlines (lines ++ lines') = unlines lines ++ unlines lines' := by
  simp [unlines]

/-- **Lines are told apart by their newlines.** -/
theorem unlines_prefix {lines all : List Bytes} {rest : Bytes} (hlines : ∀ l ∈ lines, newline ∉ l)
    (hall : ∀ l ∈ all, newline ∉ l) (h : unlines lines ++ rest = unlines all) :
    ∃ more, all = lines ++ more ∧ rest = unlines more := by
  induction lines generalizing all with
  | nil => exact ⟨all, rfl, h⟩
  | cons line lines ih =>
    rw [List.forall_mem_cons] at hlines
    cases all with
    | nil => simp at h
    | cons line' all =>
      rw [List.forall_mem_cons] at hall
      rw [unlines_cons, unlines_cons, List.append_assoc, List.cons_append] at h
      have hsplit := splitLine_append hlines.1 (unlines lines ++ rest)
      rw [h, splitLine_append hall.1] at hsplit
      obtain ⟨rfl, hrest⟩ := Prod.mk.inj (Option.some.inj hsplit)
      obtain ⟨more, rfl, hmore⟩ := ih hlines.2 hall.2 hrest.symm
      exact ⟨more, rfl, hmore⟩

/-- The lines that are not blank, without the blanks at their ends. -/
def texts (lines : List Bytes) : List Bytes := (lines.map strip).filter (· ≠ [])

/-- The texts of two lists of lines are those of the one and then of the other. -/
theorem texts_append (lines lines' : List Bytes) :
    texts (lines ++ lines') = texts lines ++ texts lines' := by
  simp [texts]

/-- A blank line is skipped, and any other one is returned without its blanks. -/
theorem nextLine_line {line : Bytes} (h : newline ∉ line) (rest : Bytes) :
    nextLine (line ++ newline :: rest)
      = if strip line = [] then nextLine rest else (some (strip line), rest) := by
  rw [nextLine]
  split
  case h_1 hsplit =>
    rw [splitLine_append h] at hsplit
    cases hsplit
  case h_2 hsplit =>
    rw [splitLine_append h] at hsplit
    obtain ⟨rfl, rfl⟩ := Prod.mk.inj (Option.some.inj hsplit)
    rfl

/-- An unfinished line stays in the buffer. -/
theorem nextLine_unfinished {buf : Bytes} (h : newline ∉ buf) : nextLine buf = (none, buf) := by
  rw [nextLine]
  split
  case h_1 => rfl
  case h_2 hsplit =>
    rw [splitLine_eq_none h] at hsplit
    cases hsplit

/-- What is found in a buffer: some blank lines, and the first one that is not, if it is
    complete. -/
theorem nextLine_spec (buf : Bytes) : ∃ lines, buf = unlines lines ++ (nextLine buf).2 ∧
    (∀ l ∈ lines, newline ∉ l) ∧ texts lines = (nextLine buf).1.toList ∧
    ((nextLine buf).1 = none → newline ∉ (nextLine buf).2) := by
  -- by induction on the buffer, which a blank line makes shorter
  induction hlength : buf.length using Nat.strong_induction_on generalizing buf with
  | _ n ih =>
    by_cases hmem : newline ∈ buf
    · obtain ⟨line, rest, hline, rfl⟩ := exists_line hmem
      rw [nextLine_line hline]
      by_cases hblank : strip line = []
      · have hshorter : rest.length < n := by
          rw [← hlength, List.length_append, List.length_cons]
          omega
        obtain ⟨lines, hbuf, hlines, htexts, hnone⟩ := ih _ hshorter rest rfl
        rw [if_pos hblank]
        refine ⟨line :: lines, ?_, ?_, ?_, hnone⟩
        · rw [unlines_cons, List.append_assoc, List.cons_append, ← hbuf]
        · exact List.forall_mem_cons.mpr ⟨hline, hlines⟩
        · rw [← htexts]
          simp [texts, hblank]
      · rw [if_neg hblank]
        refine ⟨[line], by simp, by simpa using hline, by simp [texts, hblank], by simp⟩
    · rw [nextLine_unfinished hmem]
      exact ⟨[], rfl, by simp, rfl, fun _ => hmem⟩

/-! ### Calls -/

/-- The bytes that an arrival brings; a silence brings none. -/
def Arrival.bytes : Arrival → Bytes
  | .silence => []
  | .chunk bytes => bytes

/-- The bytes that arrivals bring, one after the other. -/
def arrived (socket : Socket) : Bytes := socket.flatMap Arrival.bytes

/-- What has arrived in two parts of a socket has arrived in the one and then in the other. -/
theorem arrived_append (socket socket' : Socket) :
    arrived (socket ++ socket') = arrived socket ++ arrived socket' := List.flatMap_append

/-- The text of a line that was read. -/
def LineRead.text? : LineRead → Option Bytes
  | .line raw => some raw
  | _ => none

/-- Calls took these arrivals and these lines, and left `buf'` and `socket'`: every byte is in one
    of them. -/
structure Took (socket : Socket) (buf : Bytes) (used : Socket) (lines : List Bytes)
    (reads : List LineRead) (buf' : Bytes) (socket' : Socket) : Prop where
  socket : socket = used ++ socket'
  bytes : buf ++ arrived used = unlines lines ++ buf'
  newlines : ∀ l ∈ lines, newline ∉ l
  texts : texts lines = reads.filterMap LineRead.text?

/-- Two calls one after the other take their lines one after the other, and nothing in between is
    lost. -/
theorem Took.append {socket socket' socket'' used used' : Socket} {buf buf' buf'' : Bytes}
    {lines lines' : List Bytes} {reads reads' : List LineRead}
    (h : Took socket buf used lines reads buf' socket')
    (h' : Took socket' buf' used' lines' reads' buf'' socket'') :
    Took socket buf (used ++ used') (lines ++ lines') (reads ++ reads') buf'' socket'' where
  socket := by rw [h.socket, h'.socket, List.append_assoc]
  bytes := by
    rw [arrived_append, ← List.append_assoc, h.bytes, List.append_assoc, h'.bytes, unlines_append,
      List.append_assoc]
  newlines l hl := (List.mem_append.mp hl).elim (h.newlines l) (h'.newlines l)
  texts := by rw [texts_append, h.texts, h'.texts, List.filterMap_append]

/-- A call that takes nothing leaves the buffer and the socket as they are. -/
theorem took_nothing (socket : Socket) (buf : Bytes) (reads : List LineRead)
    (h : reads.filterMap LineRead.text? = []) : Took socket buf [] [] reads buf socket where
  socket := rfl
  bytes := by simp [arrived]
  newlines := by simp
  texts := by rw [h]; rfl

/-- A line is in the buffer already, so the call takes nothing off the socket. -/
theorem took_line {buf buf' raw : Bytes} (socket : Socket) (h : nextLine buf = (some raw, buf')) :
    ∃ lines, Took socket buf [] lines [.line raw] buf' socket := by
  obtain ⟨lines, hbuf, hlines, htexts, -⟩ := nextLine_spec buf
  rw [h] at hbuf htexts
  exact ⟨lines, rfl, by rw [arrived, List.flatMap_nil, List.append_nil]; exact hbuf, hlines, htexts⟩

/-- There is none, and more is waited for. -/
theorem took_blanks {buf buf' : Bytes} (socket : Socket) (h : nextLine buf = (none, buf')) :
    ∃ lines, Took socket buf [] lines [] buf' socket := by
  obtain ⟨lines, hbuf, hlines, htexts, -⟩ := nextLine_spec buf
  rw [h] at hbuf htexts
  exact ⟨lines, rfl, by rw [arrived, List.flatMap_nil, List.append_nil]; exact hbuf, hlines, htexts⟩

/-- An arrival that is put into the buffer takes no line. -/
theorem took_arrival (arrival : Arrival) (socket : Socket) (buf : Bytes) :
    Took (arrival :: socket) buf [arrival] [] [] (buf ++ arrival.bytes) socket where
  socket := rfl
  bytes := by simp [arrived]
  newlines := by simp
  texts := rfl

/-- When the reader finds no line, what is left in the buffer is an unfinished one. -/
theorem unfinished_of_nextLine {buf buf' : Bytes} (h : nextLine buf = (none, buf')) :
    newline ∉ buf' := by
  obtain ⟨-, -, -, -, hnone⟩ := nextLine_spec buf
  rw [h] at hnone
  exact hnone rfl

/-- **A call.**  It takes whole lines off what is in the buffer and what arrives, and returns the
    only one that is not blank, if there is one. -/
theorem receiveLine_took {socket socket' : Socket} {buf buf' : Bytes} {read : LineRead}
    (h : receiveLine socket buf = (read, buf', socket')) :
    (∃ used lines, Took socket buf used lines [read] buf' socket' ∧
      (read = .nothing → used ≠ [])) ∧
    (read.text? = none → newline ∉ buf') ∧ (read = .waiting → socket' = []) := by
  induction socket generalizing buf with
  | nil =>
    rw [receiveLine] at h
    split at h
    case h_1 raw buf₁ hnext =>
      obtain ⟨rfl, hrest⟩ := Prod.mk.inj h
      obtain ⟨rfl, rfl⟩ := Prod.mk.inj hrest
      obtain ⟨lines, htook⟩ := took_line [] hnext
      exact ⟨⟨[], lines, htook, by rintro ⟨⟩⟩, by rintro ⟨⟩, by rintro ⟨⟩⟩
    case h_2 buf₁ hnext =>
      obtain ⟨rfl, hrest⟩ := Prod.mk.inj h
      obtain ⟨rfl, rfl⟩ := Prod.mk.inj hrest
      obtain ⟨lines, htook⟩ := took_blanks [] hnext
      have hcall := htook.append (took_nothing [] _ [.waiting] rfl)
      exact ⟨⟨_, _, hcall, by rintro ⟨⟩⟩, fun _ => unfinished_of_nextLine hnext, fun _ => rfl⟩
  | cons arrival socket ih =>
    rw [receiveLine.eq_def] at h
    simp only at h
    split at h
    case h_1 raw buf₁ hnext =>
      obtain ⟨rfl, hrest⟩ := Prod.mk.inj h
      obtain ⟨rfl, rfl⟩ := Prod.mk.inj hrest
      obtain ⟨lines, htook⟩ := took_line (arrival :: socket) hnext
      exact ⟨⟨[], lines, htook, by rintro ⟨⟩⟩, by rintro ⟨⟩, by rintro ⟨⟩⟩
    case h_2 buf₁ hnext =>
      obtain ⟨lines, htook⟩ := took_blanks (arrival :: socket) hnext
      have hwait := htook.append (took_arrival arrival socket buf₁)
      have hopen := unfinished_of_nextLine hnext
      -- nothing has come, or everything has
      have hgave : arrival.bytes = [] → (LineRead.nothing, buf₁, socket) = (read, buf', socket') →
          (∃ used lines, Took (arrival :: socket) buf used lines [read] buf' socket' ∧
            (read = .nothing → used ≠ [])) ∧
          (read.text? = none → newline ∉ buf') ∧ (read = .waiting → socket' = []) := by
        intro hempty hresult
        obtain ⟨rfl, hrest⟩ := Prod.mk.inj hresult
        obtain ⟨rfl, rfl⟩ := Prod.mk.inj hrest
        rw [hempty, List.append_nil buf₁] at hwait
        have hcall := hwait.append (took_nothing socket buf₁ [.nothing] rfl)
        exact ⟨⟨_, _, hcall, fun _ => by simp⟩, fun _ => hopen, by rintro ⟨⟩⟩
      cases arrival with
      | silence => exact hgave rfl h
      | chunk bytes =>
        simp only at h
        split at h
        case isTrue hempty => exact hgave hempty h
        case isFalse =>
          obtain ⟨⟨used, lines', hrest, -⟩, hnone, hwaiting⟩ := ih h
          exact ⟨⟨_, _, hwait.append hrest, fun _ => by simp⟩, hnone, hwaiting⟩

/-- Whoever waits goes on waiting, when nothing arrives. -/
theorem receiveLines_waiting {buf : Bytes} (h : newline ∉ buf) (calls : ℕ) :
    receiveLines calls [] buf = (List.replicate calls .waiting, buf, []) := by
  induction calls with
  | zero => rfl
  | succ calls ih =>
    have hcall : receiveLine [] buf = (.waiting, buf, []) := by
      rw [receiveLine, nextLine_unfinished h]
    rw [receiveLines, hcall]
    simp only [ih]
    rfl

/-- **Many calls with one buffer.**  They take the lines off the stream in their order and return
    those that are not blank, once each.  They cannot go on for long without a line, unless
    everything has arrived and been taken. -/
theorem receiveLines_took {calls : ℕ} {socket socket' : Socket} {buf buf' : Bytes}
    {reads : List LineRead} (h : receiveLines calls socket buf = (reads, buf', socket')) :
    ∃ used lines, Took socket buf used lines reads buf' socket' ∧
      (socket' = [] ∧ newline ∉ buf' ∨ calls ≤ (texts lines).length + used.length) := by
  induction calls generalizing socket buf reads with
  | zero =>
    obtain ⟨rfl, hrest⟩ := Prod.mk.inj h
    obtain ⟨rfl, rfl⟩ := Prod.mk.inj hrest
    exact ⟨[], [], took_nothing socket buf [] rfl, .inr (Nat.zero_le _)⟩
  | succ calls ih =>
    rcases hcall : receiveLine socket buf with ⟨read, buf₁, socket₁⟩
    rcases hrest : receiveLines calls socket₁ buf₁ with ⟨reads₁, buf₂, socket₂⟩
    rw [receiveLines, hcall] at h
    simp only [hrest] at h
    obtain ⟨rfl, hleft⟩ := Prod.mk.inj h
    obtain ⟨rfl, rfl⟩ := Prod.mk.inj hleft
    obtain ⟨⟨used, lines, htook, hnothing⟩, hopen, hwaiting⟩ := receiveLine_took hcall
    obtain ⟨used', lines', htook', hbound⟩ := ih hrest
    refine ⟨used ++ used', lines ++ lines', htook.append htook', ?_⟩
    rw [texts_append, List.length_append, List.length_append, htook.texts]
    rcases hbound with hdone | hbound
    · exact .inl hdone
    · cases read with
      | line raw =>
        simp only [List.filterMap_cons, LineRead.text?, List.filterMap_nil, List.length_singleton]
        exact .inr (by omega)
      | nothing =>
        have hpos := List.length_pos_of_ne_nil (hnothing rfl)
        exact .inr (by omega)
      | waiting =>
        -- nothing arrives any more, and nothing is in the buffer
        obtain rfl := hwaiting rfl
        rw [receiveLines_waiting (hopen rfl)] at hrest
        obtain ⟨-, hsame⟩ := Prod.mk.inj hrest
        obtain ⟨rfl, rfl⟩ := Prod.mk.inj hsame
        exact .inl ⟨rfl, hopen rfl⟩

/-- The last of the calls has not returned a line, so no line is in the buffer. -/
theorem receiveLines_unfinished {calls : ℕ} {socket socket' : Socket} {buf buf' : Bytes}
    {reads : List LineRead} (h : receiveLines calls socket buf = (reads, buf', socket'))
    (hlast : ∃ read ∈ reads.getLast?, read.text? = none) : newline ∉ buf' := by
  induction calls generalizing socket buf reads with
  | zero =>
    obtain ⟨rfl, -⟩ := Prod.mk.inj h
    simp at hlast
  | succ calls ih =>
    rcases hcall : receiveLine socket buf with ⟨read, buf₁, socket₁⟩
    rcases hrest : receiveLines calls socket₁ buf₁ with ⟨reads₁, buf₂, socket₂⟩
    rw [receiveLines, hcall] at h
    simp only [hrest] at h
    obtain ⟨rfl, hleft⟩ := Prod.mk.inj h
    obtain ⟨rfl, rfl⟩ := Prod.mk.inj hleft
    cases reads₁ with
    | cons read₁ reads₁ =>
      rw [List.getLast?_cons_cons] at hlast
      exact ih hrest hlast
    | nil =>
      -- this was the only call
      have hzero : calls = 0 := by
        cases calls with
        | zero => rfl
        | succ calls => simp [receiveLines] at hrest
      subst hzero
      obtain ⟨-, hsame⟩ := Prod.mk.inj hrest
      obtain ⟨rfl, rfl⟩ := Prod.mk.inj hsame
      obtain ⟨read', hread, hnone⟩ := hlast
      obtain rfl : read = read' := by simpa using hread
      exact (receiveLine_took hcall).2.1 hnone

end ShareCompute.Library
