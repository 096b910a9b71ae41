import ShareCompute.App.EventLogFile

namespace ShareCompute.App

open ShareCompute.Library

/-!
# The write loop of the Android log

`writeLoop` in `EventLog.java`, and what the files of both phones promise.  A turn of the loop
takes an item off the queue; what the file operations come to, and the clock, are arguments.

* `LoopCall.tears` — the write of a line fails between its first byte and its last.
* `WriteLoop.Sound.writeLine` — what a turn does to the files' promise.
* `event_files_keep_lines` — the promise over the runs of both phones.
* `event_files_glue_lines` — what becomes of the line behind one that was torn.
-/

/-! ### The loop -/

/-- What the file operations of a turn come to, and when the clock is read. -/
structure Turn where
  /-- `SystemClock.elapsedRealtime()` in front of the open, and in the handler -/
  now : ℤ
  caughtAt : ℤ
  /-- `new FileOutputStream(cur, true)` -/
  opened : Bool
  /-- `cur.length()`; it is 0 where it fails -/
  measured : Bool
  /-- how much is written when `write` throws -/
  thrown : Option ℕ
  /-- `close`, `delete` and `renameTo` of the rotation -/
  closed : Bool
  deleted : Bool
  renamed : Bool

/-- The variables of `writeLoop`, the counter of the drops and the files. -/
structure WriteLoop where
  /-- `out != null` -/
  isOpen : Bool
  size : ℤ
  retryAt : ℤ
  droppedWrite : ℕ
  files : LineFiles

namespace WriteLoop

/-- `FILE_LIMIT`, the size from which on the current file is set aside. -/
def fileLimit : ℤ := 512 * 1024

/-- The handler of the loop: the line is dropped, and the open is tried again later. -/
def dropLine (self : WriteLoop) (caughtAt : ℤ) : WriteLoop :=
  { self with
    isOpen := false
    retryAt := caughtAt + 10000
    droppedWrite := self.droppedWrite + 1 }

/-- The file is open, or it is opened. -/
def openOut (self : WriteLoop) (turn : Turn) : Option WriteLoop :=
  if self.isOpen then some self
  else if turn.opened then
    some { self with
      isOpen := true
      files := self.files.create
      size := if turn.measured then self.files.create.size else 0 }
  else none

/-- Keep one older file.  A rename replaces what is there. -/
def rotate (self : WriteLoop) (turn : Turn) : WriteLoop :=
  let files := if turn.deleted then self.files.removePrevious else self.files
  { self with
    isOpen := false
    files := if turn.renamed then files.replacePrevious else files }

/-- A turn of the loop with a line, and the line if its write reaches its end. -/
def writeLine (self : WriteLoop) (line : Line) (turn : Turn) : WriteLoop × List Line :=
  if !self.isOpen && decide (turn.now < self.retryAt) then
    ({ self with droppedWrite := self.droppedWrite + 1 }, [])
  else match self.openOut turn with
    | none => (self.dropLine turn.caughtAt, [])
    | some self =>
      match turn.thrown with
      | some count =>
        ({ self with files := self.files.write (line.bytes.take count) }.dropLine turn.caughtAt,
          [])
      | none =>
        let self := { self with
          files := (self.files.write line.bytes).complete line
          size := self.size + line.bytes.length }
        if fileLimit ≤ self.size then
          if turn.closed then (self.rotate turn, [line])
          else (self.dropLine turn.caughtAt, [line])
        else (self, [line])

/-- `writeLoop()` before its first turn, with the size that was measured if it could be. -/
def launch (files : LineFiles) (measured : Bool) : WriteLoop :=
  ⟨false, if measured then files.size else 0, 0, 0, files⟩

end WriteLoop

/-- What happens to the loop: an item of the queue, or another launch of the app. -/
inductive LoopCall
  | line (line : Line) (turn : Turn)
  /-- a `CountDownLatch`, which is counted down -/
  | latch
  | launch (measured : Bool)

/-- The write of the line throws, behind its first byte and before its last. -/
def LoopCall.tears : LoopCall → Bool
  | .line text turn => turn.thrown.any text.torn
  | _ => false

namespace WriteLoop

/-- The loop, with the lines whose writes reach their end. -/
def machine : Machine WriteLoop LoopCall (List Line) where
  step self call :=
    match call with
    | .line line turn => self.writeLine line turn
    | .latch => (self, [])
    | .launch measured => (launch self.files measured, [])

/-! ### The promise -/

/-- The files keep their promise, and a file that is open is there. -/
structure Sound (intact : Prop) (loop : WriteLoop) (lines : List Line) : Prop where
  promise : loop.files.Promise intact lines
  present : loop.isOpen = true → loop.files.current.isSome = true

variable {intact intact' : Prop} {self : WriteLoop} {lines : List Line}

/-- What is sound under a condition is sound under every stronger one. -/
theorem Sound.mono (h : self.Sound intact lines) (hintact : intact' → intact) :
    self.Sound intact' lines :=
  ⟨h.promise.mono hintact, h.present⟩

/-- To drop a line at an error concerns no file. -/
theorem Sound.dropLine (h : self.Sound intact lines) (caughtAt : ℤ) :
    (self.dropLine caughtAt).Sound intact lines :=
  ⟨h.promise, fun hopen => by cases hopen⟩

/-- Opening the file keeps soundness, and then there is a current file. -/
theorem Sound.openOut (h : self.Sound intact lines) {turn : Turn} {opened : WriteLoop}
    (hopen : self.openOut turn = some opened) :
    opened.Sound intact lines ∧ opened.files.current.isSome = true := by
  rw [WriteLoop.openOut] at hopen
  split at hopen
  case isTrue hisOpen =>
    obtain rfl := Option.some.inj hopen
    exact ⟨h, h.present hisOpen⟩
  case isFalse =>
    split at hopen
    case isTrue =>
      obtain rfl := Option.some.inj hopen
      exact ⟨⟨h.promise.create, fun _ => rfl⟩, rfl⟩
    case isFalse => cases hopen

/-- Rotation keeps soundness, whether the previous file could be deleted and the current one
    renamed. -/
theorem Sound.rotate (h : self.Sound intact lines) (turn : Turn) :
    (self.rotate turn).Sound intact lines := by
  have hdeleted : (if turn.deleted then self.files.removePrevious else self.files).Promise
      intact lines := by
    split
    case isTrue => exact h.promise.removePrevious
    case isFalse => exact h.promise
  refine ⟨?_, fun hopen => by cases hopen⟩
  show LineFiles.Promise intact (if turn.renamed then _ else _) lines
  split
  case isTrue => exact hdeleted.replacePrevious
  case isFalse => exact hdeleted

/-- **A turn of the loop** keeps the promise, and the line that it completes is part of it.  The
    files stay intact if the turn does not tear its line. -/
theorem Sound.writeLine (h : self.Sound intact lines) (line : Line) (turn : Turn) :
    (self.writeLine line turn).1.Sound (intact ∧ (LoopCall.line line turn).tears = false)
      (lines ++ (self.writeLine line turn).2) := by
  rw [WriteLoop.writeLine]
  split
  case isTrue =>
    rw [List.append_nil]
    exact ⟨h.promise.mono And.left, h.present⟩
  case isFalse =>
    split
    case h_1 =>
      rw [List.append_nil]
      exact (h.dropLine turn.caughtAt).mono And.left
    case h_2 opened hopened =>
      obtain ⟨hopen, hpresent⟩ := h.openOut hopened
      dsimp only
      split
      case h_1 count hthrown =>
        -- the write threw: what is in the file is no part of a line, if it is not torn
        rw [List.append_nil]
        refine Sound.dropLine ⟨hopen.promise.write fun ⟨hintact, htears⟩ => ⟨hintact, ?_⟩,
          by simpa using hopen.present⟩ turn.caughtAt
        refine Line.unfinished_take ?_
        rwa [LoopCall.tears, hthrown] at htears
      case h_2 =>
        have hwritten : Sound intact { opened with
            files := (opened.files.write line.bytes).complete line
            size := opened.size + line.bytes.length } (lines ++ [line]) :=
          ⟨hopen.promise.complete hpresent line, by simpa using hopen.present⟩
        -- what the rotation comes to does not matter to the promise
        refine Sound.mono ?_ And.left
        split
        case isFalse => exact hwritten
        case isTrue =>
          split
          case isTrue => exact hwritten.rotate turn
          case isFalse => exact hwritten.dropLine turn.caughtAt

/-- A loop that was just started is sound, if the files that it found keep the promise for no
    lines. -/
theorem Sound.launch {files : LineFiles} (h : files.Promise intact lines) (measured : Bool) :
    (launch files measured).Sound intact lines :=
  ⟨h, fun hopen => by cases hopen⟩

/-- One turn of the loop keeps soundness, with the line that it completes, unless it tears one. -/
theorem step_sound (intact : Prop) (loop : WriteLoop) (call : LoopCall) (lines : List Line)
    (h : loop.Sound intact lines) :
    (machine.step loop call).1.Sound (intact ∧ call.tears = false)
      (lines ++ (machine.step loop call).2) := by
  cases call with
  | line line turn => exact h.writeLine line turn
  | latch =>
    show Sound _ _ (lines ++ [])
    rw [List.append_nil]
    exact h.mono And.left
  | launch measured =>
    show Sound _ _ (lines ++ [])
    rw [List.append_nil]
    exact (Sound.launch h.promise measured).mono And.left

end WriteLoop

/-! ### Both phones -/

/-- **The event files keep whole lines apart**, on both phones, in every run that finds no part of
    a line at the end of the current file and in which no write tears a line: in every state reached
    the completed lines are, in their order, lines of their own of the previous and of the current
    file, but for those that went with a previous file. -/
theorem event_files_keep_lines (hasDirectory : Bool) (opening : Opening) (rotation : Rotation)
    (calls : List FileCall) (measured : Bool) (calls' : List LoopCall)
    (previous current previous' current' : Option Bytes) :
    let start := EventLogFile.launch hasDirectory (.found previous current) opening rotation
    let history := EventLogFile.machine.history start calls
    let start' := WriteLoop.launch (.found previous' current') measured
    let history' := WriteLoop.machine.history start' calls'
    (unfinished (current.getD []) = [] → (∀ call ∈ calls, call.tears = false) →
        (EventLogFile.machine.exec start calls).files.Kept (completedLines history)) ∧
      (unfinished (current'.getD []) = [] → (∀ call ∈ calls', call.tears = false) →
        (WriteLoop.machine.exec start' calls').files.Kept (completedLines history')) := by
  refine ⟨fun hfound htears => ?_, fun hfound htears => ?_⟩
  · exact (completedLines_induction EventLogFile.machine FileCall.tears
      (EventLogFile.Sound.launch (.found previous current) hasDirectory opening rotation)
      EventLogFile.Sound.mono EventLogFile.step_sound calls).promise.kept ⟨hfound, htears⟩
  · exact (completedLines_induction WriteLoop.machine LoopCall.tears
      (WriteLoop.Sound.launch (.found previous' current') measured)
      WriteLoop.Sound.mono WriteLoop.step_sound calls').promise.kept ⟨hfound, htears⟩

/-! Lines of one letter, and system calls that work. -/

/-- The line `a`, which is one byte long. -/
def letterA : Line := ⟨[97], by decide⟩

/-- The line `b`, which is one byte long. -/
def letterB : Line := ⟨[98], by decide⟩

/-- A rotation in which everything works, the removal, the move and the opening. -/
def noFailure : Rotation := ⟨true, true, ⟨true, true⟩⟩

/-- A write that throws behind `thrown` bytes, or none that does. -/
def turnAt (now : ℤ) (thrown : Option ℕ) : Turn := ⟨now, now, true, true, thrown, true, true, true⟩

/-- A write that is interrupted and one that is short, and one that fails at its first byte; on the
    other phone, behind the line of an earlier launch, one that throws before it writes. -/
theorem event_files_keep_lines_short_writes :
    let log := EventLogFile.machine.exec (.launch true (.found none none) ⟨true, true⟩ noFailure)
      [.append letterA ⟨⟨true, true⟩, noFailure, [.interrupted, .wrote 1], false⟩,
        .append letterB ⟨⟨true, true⟩, noFailure, [.interrupted], true⟩,
        .append letterB ⟨⟨true, true⟩, noFailure, [], false⟩]
    let loop := WriteLoop.machine.exec (.launch (.found none (some [97, 10])) true)
      [.line letterA (turnAt 0 (some 0)), .line letterB (turnAt 10000 none)]
    (log.files.Kept [letterA, letterB] ∧
        log.files.current.map LineFile.contents = some [97, 10, 98, 10]) ∧
      loop.files.Kept [letterB] ∧
        loop.files.current.map LineFile.contents = some [97, 10, 98, 10] := by
  have h := event_files_keep_lines true ⟨true, true⟩ noFailure
    [.append letterA ⟨⟨true, true⟩, noFailure, [.interrupted, .wrote 1], false⟩,
      .append letterB ⟨⟨true, true⟩, noFailure, [.interrupted], true⟩,
      .append letterB ⟨⟨true, true⟩, noFailure, [], false⟩] true
    [.line letterA (turnAt 0 (some 0)), .line letterB (turnAt 10000 none)]
    none none none (some [97, 10])
  exact ⟨⟨h.1 (by decide) (by decide), by decide⟩, h.2 (by decide) (by decide), by decide⟩

/-- **A write that fails behind the first byte of its line** leaves that byte in the file, and the
    next line is written behind it, as `ab`, on both phones. -/
theorem event_files_glue_lines :
    let start := EventLogFile.launch true (.found none none) ⟨true, true⟩ noFailure
    let calls : List FileCall :=
      [.append letterA ⟨⟨true, true⟩, noFailure, [.wrote 1], true⟩,
        .append letterB ⟨⟨true, true⟩, noFailure, [], false⟩]
    let start' := WriteLoop.launch (.found none none) true
    let calls' : List LoopCall :=
      [.line letterA (turnAt 0 (some 1)), .line letterB (turnAt 10000 none)]
    ¬(EventLogFile.machine.exec start calls).files.Kept
        (completedLines (EventLogFile.machine.history start calls)) ∧
      ¬(WriteLoop.machine.exec start' calls').files.Kept
        (completedLines (WriteLoop.machine.history start' calls')) := by
  intro start calls start' calls'
  have hglued : ¬LineFile.Whole ⟨[97, 98, 10], [letterB]⟩ := by
    rw [LineFile.Whole]
    decide
  refine ⟨fun h => ?_, fun h => ?_⟩
  · exact hglued (h.current ⟨[97, 98, 10], [letterB]⟩ rfl)
  · exact hglued (h.current ⟨[97, 98, 10], [letterB]⟩ rfl)

end ShareCompute.App
