import ShareCompute.Library.LineFiles

namespace ShareCompute.App

open ShareCompute.Library

/-!
# The file of the event log

The file side of `EventLog.swift`: `openFile`, `rotate`, `append` and `noteFailure`.  What the
system calls come to is an argument; a launch finds the files that the one before left.

* `FileCall.tears` — the write of a line fails between its first byte and its last.
* `Sound.append` — what a call of `append` does to the files' promise.
* `step_sound` — what any call does to it.
-/

/-! ### What the system calls come to -/

/-- `open` and `lseek` of `openFile`: whether each of them succeeds. -/
structure Opening where
  opened : Bool
  sought : Bool

/-- `removeItem`, `moveItem` and the open of `rotate`. -/
structure Rotation where
  removed : Bool
  moved : Bool
  opening : Opening

/-- A call of `write` that does not decide about the line. -/
inductive WriteCall
  /-- `EINTR` -/
  | interrupted
  | wrote (count : ℕ)

/-- How many bytes the call has taken. -/
def WriteCall.count : WriteCall → ℕ
  | .interrupted => 0
  | .wrote count => count

/-- The calls of `append`.  The last `write` fails, or it takes all that is left. -/
structure Appending where
  opening : Opening
  rotation : Rotation
  calls : List WriteCall
  fails : Bool

/-- How many bytes the calls before the last one have taken. -/
def Appending.taken (appending : Appending) : ℕ := (appending.calls.map WriteCall.count).sum

/-! ### The file side of the log -/

/-- The properties of `EventLog` that are about its files, and the files. -/
structure EventLogFile where
  /-- `directory != nil` -/
  hasDirectory : Bool
  /-- `descriptor >= 0` -/
  isOpen : Bool
  fileBytes : ℤ
  consecutiveFailures : ℕ
  gaveUp : Bool
  fileDegraded : Bool
  files : LineFiles

namespace EventLogFile

/-- `maxFileBytes`, the size that a file of the log should not exceed. -/
def maxFileBytes : ℤ := 2000000

/-- A failure closes the file; after twenty in a row the log gives up for this launch. -/
def noteFailure (self : EventLogFile) : EventLogFile :=
  { self with
    fileDegraded := true
    consecutiveFailures := self.consecutiveFailures + 1
    isOpen := false
    gaveUp := self.gaveUp || decide (20 ≤ self.consecutiveFailures + 1) }

/-- Open the current file for appending, and see how long it is. -/
def openFile (self : EventLogFile) (opening : Opening) : EventLogFile :=
  if self.isOpen || !self.hasDirectory then self
  else if opening.opened then
    { self with
      isOpen := true
      files := self.files.create
      fileBytes := if opening.sought then self.files.create.size else 0 }
  else self.noteFailure

/-- A move does not replace a previous file that could not be removed. -/
def rotate (self : EventLogFile) (rotation : Rotation) : EventLogFile :=
  let files :=
    if self.hasDirectory && rotation.removed then self.files.removePrevious else self.files
  let files := if self.hasDirectory && rotation.moved then files.moveToPrevious else files
  { self with isOpen := false, files := files, fileBytes := 0 }.openFile rotation.opening

/-- `if fileBytes > Self.maxFileBytes { rotate() }` -/
def rotateIfFull (self : EventLogFile) (rotation : Rotation) : EventLogFile :=
  if maxFileBytes < self.fileBytes then self.rotate rotation else self

/-- What is written of the bytes, and whether that is all of them. -/
def writeLoop : List WriteCall → Bool → Bytes → Bytes × Bool
  | _, _, [] => ([], true)
  | [], true, _ => ([], false)
  | [], false, bytes => (bytes, true)
  | .interrupted :: calls, fails, bytes => writeLoop calls fails bytes
  | .wrote count :: calls, fails, bytes =>
    let (written, finished) := writeLoop calls fails (bytes.drop count)
    (bytes.take count ++ written, finished)

/-- `append` before it writes: `openFile` and `rotate`. -/
def ready (self : EventLogFile) (appending : Appending) : EventLogFile :=
  (if self.isOpen then self else self.openFile appending.opening).rotateIfFull appending.rotation

/-- `append(line)`, and the line if its write reaches its end. -/
def append (self : EventLogFile) (line : Line) (appending : Appending) :
    EventLogFile × List Line :=
  if !self.hasDirectory || self.gaveUp then (self, [])
  else
    let self := self.ready appending
    if self.isOpen then
      let (written, finished) := writeLoop appending.calls appending.fails line.bytes
      let files := self.files.write written
      if finished then
        ({ self with
            files := files.complete line
            fileBytes := self.fileBytes + line.bytes.length
            consecutiveFailures := 0 }, [line])
      else ({ self with files := files }.noteFailure, [])
    else (self, [])

/-- `init()`, with the files that it finds. -/
def launch (hasDirectory : Bool) (files : LineFiles) (opening : Opening) (rotation : Rotation) :
    EventLogFile :=
  let self : EventLogFile := ⟨hasDirectory, false, 0, 0, false, false, files⟩
  let self := (self.openFile opening).rotateIfFull rotation
  { self with fileDegraded := self.fileDegraded || !self.hasDirectory || !self.isOpen }

end EventLogFile

/-- What happens to the log: a line, or another launch of the app. -/
inductive FileCall
  | append (line : Line) (appending : Appending)
  | launch (hasDirectory : Bool) (opening : Opening) (rotation : Rotation)

/-- The write of the line fails, behind its first byte and before its last. -/
def FileCall.tears : FileCall → Bool
  | .append line appending => appending.fails && line.torn appending.taken
  | .launch .. => false

namespace EventLogFile

/-- The log, with the lines whose writes reach their end. -/
def machine : Machine EventLogFile FileCall (List Line) where
  step self call :=
    match call with
    | .append line appending => self.append line appending
    | .launch hasDirectory opening rotation =>
      (launch hasDirectory self.files opening rotation, [])

/-! ### The promise -/

/-- The files keep their promise, and a file that is open is there. -/
structure Sound (intact : Prop) (log : EventLogFile) (lines : List Line) : Prop where
  promise : log.files.Promise intact lines
  present : log.isOpen = true → log.files.current.isSome = true

variable {intact intact' : Prop} {self : EventLogFile} {lines : List Line}

/-- What is sound under a condition is sound under every stronger one. -/
theorem Sound.mono (h : self.Sound intact lines) (hintact : intact' → intact) :
    self.Sound intact' lines :=
  ⟨h.promise.mono hintact, h.present⟩

/-- To note a failure concerns no file. -/
theorem Sound.noteFailure (h : self.Sound intact lines) : self.noteFailure.Sound intact lines :=
  ⟨h.promise, fun hopen => by cases hopen⟩

/-- Opening the file keeps soundness, whether it succeeds, and whether the file was there before. -/
theorem Sound.openFile (h : self.Sound intact lines) (opening : Opening) :
    (self.openFile opening).Sound intact lines := by
  rw [EventLogFile.openFile]
  split
  case isTrue => exact h
  case isFalse =>
    split
    case isTrue => exact ⟨h.promise.create, fun _ => rfl⟩
    case isFalse => exact h.noteFailure

/-- Rotation keeps soundness: the current file becomes the previous one, or stays if that fails. -/
theorem Sound.rotate (h : self.Sound intact lines) (rotation : Rotation) :
    (self.rotate rotation).Sound intact lines := by
  rw [EventLogFile.rotate]
  apply Sound.openFile
  refine ⟨?_, fun hopen => by cases hopen⟩
  have hremoved : (if self.hasDirectory && rotation.removed then self.files.removePrevious
      else self.files).Promise intact lines := by
    split
    case isTrue => exact h.promise.removePrevious
    case isFalse => exact h.promise
  dsimp only
  split
  case isTrue => exact hremoved.moveToPrevious
  case isFalse => exact hremoved

/-- Rotating only when the file is full keeps soundness. -/
theorem Sound.rotateIfFull (h : self.Sound intact lines) (rotation : Rotation) :
    (self.rotateIfFull rotation).Sound intact lines := by
  rw [EventLogFile.rotateIfFull]
  split
  case isTrue => exact h.rotate rotation
  case isFalse => exact h

/-- When the log is ready to append there is an open file, or the line is dropped; either way it is
    sound. -/
theorem Sound.ready (h : self.Sound intact lines) (appending : Appending) :
    (self.ready appending).Sound intact lines := by
  apply Sound.rotateIfFull
  split
  case isTrue => exact h
  case isFalse => exact h.openFile appending.opening

/-- A log that was just launched is sound, if the files that it found keep the promise for no
    lines. -/
theorem Sound.launch {files : LineFiles} (h : files.Promise intact lines) (hasDirectory : Bool)
    (opening : Opening) (rotation : Rotation) :
    (launch hasDirectory files opening rotation).Sound intact lines := by
  have hstart :
      (⟨hasDirectory, false, 0, 0, false, false, files⟩ : EventLogFile).Sound intact lines :=
    ⟨h, fun hopen => by cases hopen⟩
  have hopened := (hstart.openFile opening).rotateIfFull rotation
  exact ⟨hopened.promise, hopened.present⟩

/-- **What is written of a line**: all of it, or as much as the calls before the failing one have
    taken. -/
theorem writeLoop_eq (calls : List WriteCall) (fails : Bool) (bytes : Bytes) :
    writeLoop calls fails bytes =
      if fails = true ∧ (calls.map WriteCall.count).sum < bytes.length then
        (bytes.take (calls.map WriteCall.count).sum, false)
      else (bytes, true) := by
  fun_induction writeLoop calls fails bytes with
  | case1 => simp
  | case2 bytes hne => simp [List.length_pos_iff.mpr hne]
  | case3 => simp
  | case4 calls fails bytes hne ih => simpa [WriteCall.count] using ih
  | case5 count calls fails bytes hne written finished hrest ih =>
    rw [hrest, List.length_drop] at ih
    rw [List.map_cons, List.sum_cons, WriteCall.count]
    by_cases hfails : fails = true ∧ (calls.map WriteCall.count).sum < bytes.length - count
    · rw [if_pos hfails] at ih
      rw [if_pos ⟨hfails.1, by omega⟩, (Prod.mk.inj ih).1, (Prod.mk.inj ih).2, List.take_add]
    · -- what is left is all written, also where this call has left nothing
      rw [if_neg hfails] at ih
      rw [(Prod.mk.inj ih).1, (Prod.mk.inj ih).2, List.take_append_drop]
      have hpos : 0 < bytes.length := List.length_pos_iff.mpr hne
      split
      case isTrue hshort => exact absurd ⟨hshort.1, by omega⟩ hfails
      case isFalse => rfl

/-- **A call of `append`** keeps the promise, and the line that it completes is part of it.  The
    files stay intact if the call does not tear its line. -/
theorem Sound.append (h : self.Sound intact lines) (line : Line) (appending : Appending) :
    (self.append line appending).1.Sound
      (intact ∧ (FileCall.append line appending).tears = false)
      (lines ++ (self.append line appending).2) := by
  have hready := h.ready appending
  rw [EventLogFile.append]
  split
  case isTrue =>
    rw [List.append_nil]
    exact h.mono And.left
  case isFalse =>
    dsimp only
    split
    case isFalse =>
      rw [List.append_nil]
      exact hready.mono And.left
    case isTrue hopen =>
      rw [writeLoop_eq]
      by_cases hshort : appending.fails = true ∧ appending.taken < line.bytes.length
      · -- the write failed: what is in the file is no part of a line, if it is not torn
        rw [Appending.taken] at hshort
        rw [if_pos hshort, if_neg Bool.false_ne_true, List.append_nil]
        refine ⟨hready.promise.write fun ⟨hintact, htears⟩ => ⟨hintact, ?_⟩, fun hopen' => ?_⟩
        · refine Line.unfinished_take ?_
          rwa [FileCall.tears, hshort.1, Bool.true_and] at htears
        · cases hopen'
      · rw [Appending.taken] at hshort
        rw [if_neg hshort, if_pos rfl]
        refine ⟨(hready.promise.complete (hready.present hopen) line).mono And.left, fun _ => ?_⟩
        simpa using hready.present hopen

/-- One call keeps soundness, with the line that it completes, unless it tears one. -/
theorem step_sound (intact : Prop) (log : EventLogFile) (call : FileCall) (lines : List Line)
    (h : log.Sound intact lines) :
    (machine.step log call).1.Sound (intact ∧ call.tears = false)
      (lines ++ (machine.step log call).2) := by
  cases call with
  | append line appending => exact h.append line appending
  | launch hasDirectory opening rotation =>
    show Sound _ _ (lines ++ [])
    rw [List.append_nil]
    exact (Sound.launch h.promise hasDirectory opening rotation).mono And.left

end EventLogFile

end ShareCompute.App
