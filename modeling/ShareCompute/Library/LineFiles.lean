import ShareCompute.Library.LineSocket
import ShareCompute.Library.Runs
import Mathlib.Data.List.Forall2

namespace ShareCompute.Library

/-!
# A file of lines and the one before it

A log that is appended to line by line, and set aside now and then for a new one.  A write can
fail after part of a line, and then the file ends within a line.

* `wholeLines` — the lines of a file that are lines of their own.
* `LineFile`, `LineFiles` — the files, with the lines whose writes have reached their end.
* `LineFiles.Kept` — those lines are lines of their own, in their order.
* `LineFiles.Promise` — the invariant: every completed line ends a line of its file, and `Kept` as
  long as no write has torn a line.  Every operation on the files keeps it.
-/

/-! ### Lines of a file -/

/-- The lines of a file that are followed by a newline, when `line` has been read of the first. -/
def linesFrom (line : Bytes) : Bytes → List Bytes
  | [] => []
  | byte :: contents =>
    if byte = newline then line :: linesFrom [] contents else linesFrom (line ++ [byte]) contents

/-- What is behind the last newline, when `line` has been read of the first line. -/
def restFrom (line : Bytes) : Bytes → Bytes
  | [] => line
  | byte :: contents =>
    if byte = newline then restFrom [] contents else restFrom (line ++ [byte]) contents

/-- The lines of a file that have a newline behind them. -/
def wholeLines (contents : Bytes) : List Bytes := linesFrom [] contents

/-- The part of a line at the end of a file, which is empty where the file ends with a newline. -/
def unfinished (contents : Bytes) : Bytes := restFrom [] contents

/-- More bytes go on with the part of a line that the file ends with. -/
theorem linesFrom_append (line contents more : Bytes) :
    linesFrom line (contents ++ more)
      = linesFrom line contents ++ linesFrom (restFrom line contents) more := by
  induction contents generalizing line with
  | nil => rfl
  | cons byte contents ih =>
    rw [List.cons_append, linesFrom, linesFrom, restFrom]
    by_cases hbyte : byte = newline
    · rw [if_pos hbyte, if_pos hbyte, if_pos hbyte, ih, List.cons_append]
    · rw [if_neg hbyte, if_neg hbyte, if_neg hbyte, ih]

/-- What is left unfinished behind more bytes depends on no more than what was before them. -/
theorem restFrom_append (line contents more : Bytes) :
    restFrom line (contents ++ more) = restFrom (restFrom line contents) more := by
  induction contents generalizing line with
  | nil => rfl
  | cons byte contents ih =>
    rw [List.cons_append, restFrom, restFrom]
    by_cases hbyte : byte = newline
    · rw [if_pos hbyte, if_pos hbyte, ih]
    · rw [if_neg hbyte, if_neg hbyte, ih]

/-- A text with a newline behind it is one line, together with what has been read of it before. -/
theorem linesFrom_line {text : Bytes} (h : newline ∉ text) (line : Bytes) :
    linesFrom line (text ++ [newline]) = [line ++ text] := by
  induction text generalizing line with
  | nil => simp [linesFrom]
  | cons byte text ih =>
    rw [List.mem_cons, not_or] at h
    rw [List.cons_append, linesFrom, if_neg (Ne.symm h.1), ih h.2, List.append_assoc]
    rfl

/-- Nothing is unfinished behind a newline, whatever was unfinished in front of it. -/
theorem restFrom_newline (line text : Bytes) : restFrom line (text ++ [newline]) = [] := by
  rw [restFrom_append, restFrom, if_pos rfl, restFrom]

/-- **The whole lines** are what the file consists of, but for what is behind the last newline:
    each begins at the start of the file or behind a newline, and has a newline behind it. -/
theorem wholeLines_spec (contents : Bytes) :
    contents = unlines (wholeLines contents) ++ unfinished contents ∧
      (∀ line ∈ wholeLines contents, newline ∉ line) ∧ newline ∉ unfinished contents := by
  suffices hfrom : ∀ line : Bytes, newline ∉ line →
      line ++ contents = unlines (linesFrom line contents) ++ restFrom line contents ∧
        (∀ text ∈ linesFrom line contents, newline ∉ text) ∧ newline ∉ restFrom line contents from
    hfrom [] List.not_mem_nil
  induction contents with
  | nil => exact fun line hline => ⟨List.append_nil line, fun _ => by simp [linesFrom], hline⟩
  | cons byte contents ih =>
    intro line hline
    rw [linesFrom, restFrom]
    by_cases hbyte : byte = newline
    · obtain ⟨hcontents, htexts, hrest⟩ := ih [] List.not_mem_nil
      rw [if_pos hbyte, if_pos hbyte, unlines_cons, List.append_assoc, List.cons_append,
        ← hcontents, hbyte]
      exact ⟨rfl, List.forall_mem_cons.mpr ⟨hline, htexts⟩, hrest⟩
    · have hmore : newline ∉ line ++ [byte] := by
        rw [List.mem_append, List.mem_singleton, not_or]
        exact ⟨hline, Ne.symm hbyte⟩
      rw [if_neg hbyte, if_neg hbyte, List.append_cons]
      exact ih (line ++ [byte]) hmore

/-! ### Two files -/

/-- A line has no newline in it. -/
abbrev Line := {text : Bytes // newline ∉ text}

/-- The bytes that are written of a line: its text and a newline. -/
def Line.bytes (line : Line) : Bytes := line.1 ++ [newline]

/-- A write of the line that stops behind `count` bytes stops behind its first and before its last
    byte. -/
def Line.torn (line : Line) (count : ℕ) : Bool := decide (0 < count ∧ count < line.bytes.length)

/-- A write that does not tear its line writes nothing of it or all of it. -/
theorem Line.unfinished_take {line : Line} {count : ℕ} (h : line.torn count = false) :
    unfinished (line.bytes.take count) = [] := by
  have hcount : count = 0 ∨ line.bytes.length ≤ count := by
    have hnot := of_decide_eq_false h
    omega
  rcases hcount with rfl | hall
  · rw [List.take_zero]
    rfl
  · rw [List.take_of_length_le hall]
    exact restFrom_newline [] line.1

/-- A file, and the lines whose writes have reached their end in it. -/
structure LineFile where
  contents : Bytes
  completed : List Line

/-- A file that has just been created. -/
def LineFile.empty : LineFile := ⟨[], []⟩

/-- The file that is written and the one that was set aside, if they are there, and the completed
    lines of the files that are gone. -/
structure LineFiles where
  previous : Option LineFile
  current : Option LineFile
  discarded : List Line

/-- The completed lines of a file that may be missing. -/
def completedIn (file : Option LineFile) : List Line := (file.map LineFile.completed).getD []

namespace LineFiles

/-- Files that are found; what is in them is not of this run. -/
def found (previous current : Option Bytes) : LineFiles :=
  ⟨previous.map (⟨·, []⟩), current.map (⟨·, []⟩), []⟩

/-- Open the current file for appending, which creates it where it is missing. -/
def create (files : LineFiles) : LineFiles :=
  { files with current := some (files.current.getD .empty) }

/-- Remove the previous file, whose completed lines are discarded with it. -/
def removePrevious (files : LineFiles) : LineFiles :=
  { files with
    previous := none
    discarded := files.discarded ++ completedIn files.previous }

/-- Rename the current file to the previous one, in whose place it comes if that is there. -/
def replacePrevious (files : LineFiles) : LineFiles :=
  match files.current with
  | none => files
  | some file => { files.removePrevious with previous := some file, current := none }

/-- The same, but not where the previous file is there. -/
def moveToPrevious (files : LineFiles) : LineFiles :=
  match files.previous with
  | none => files.replacePrevious
  | some _ => files

/-- Bytes at the end of the current file. -/
def write (files : LineFiles) (bytes : Bytes) : LineFiles :=
  { files with
    current := files.current.map fun file => { file with contents := file.contents ++ bytes } }

/-- The write of a line has reached its end. -/
def complete (files : LineFiles) (line : Line) : LineFiles :=
  { files with
    current := files.current.map fun file => { file with completed := file.completed ++ [line] } }

/-- To write does not change whether there is a current file. -/
@[simp] theorem isSome_current_write (files : LineFiles) (bytes : Bytes) :
    (files.write bytes).current.isSome = files.current.isSome := Option.isSome_map

/-- To complete a line does not change whether there is a current file. -/
@[simp] theorem isSome_current_complete (files : LineFiles) (line : Line) :
    (files.complete line).current.isSome = files.current.isSome := Option.isSome_map

/-- How long the current file is, with nothing where there is none. -/
def size (files : LineFiles) : ℤ := ((files.current.map LineFile.contents).getD []).length

/-- The current file does not end within a line. -/
def endsLine (files : LineFiles) : Bool :=
  unfinished ((files.current.map LineFile.contents).getD []) = []

end LineFiles

/-! ### The promise -/

/-- The completed lines of a file are lines of their own in it, in their order. -/
def LineFile.Whole (file : LineFile) : Prop :=
  (file.completed.map Subtype.val).Sublist (wholeLines file.contents)

/-- What a file has of its completed lines: each is the end of a line of the file, in their order,
    and it is all of that line as long as the file is `intact`. -/
structure LineFile.Holds (intact : Prop) (file : LineFile) : Prop where
  ends : List.SublistForall₂ (fun line text => line.1 <:+ text) file.completed
    (wholeLines file.contents)
  whole : intact → file.Whole

namespace LineFile.Holds

variable {intact intact' : Prop} {file : LineFile}

/-- Nothing has been completed in a file that was found. -/
theorem found (contents : Bytes) : (⟨contents, []⟩ : LineFile).Holds intact :=
  ⟨.nil, fun _ => List.nil_sublist _⟩

/-- A file that holds its lines under a condition does so under every stronger one. -/
theorem mono (h : file.Holds intact) (hintact : intact' → intact) : file.Holds intact' :=
  ⟨h.ends, h.whole ∘ hintact⟩

/-- Bytes at the end of a file leave the lines in front of them as they are. -/
theorem write (h : file.Holds intact) (bytes : Bytes) :
    (⟨file.contents ++ bytes, file.completed⟩ : LineFile).Holds intact := by
  have hlines : List.Sublist (wholeLines file.contents) (wholeLines (file.contents ++ bytes)) := by
    rw [wholeLines, wholeLines, linesFrom_append]
    exact List.sublist_append_left _ _
  refine ⟨?_, fun hintact => (h.whole hintact).trans hlines⟩
  obtain ⟨texts, hends, hsub⟩ := List.sublistForall₂_iff.mp h.ends
  exact List.sublistForall₂_iff.mpr ⟨texts, hends, hsub.trans hlines⟩

/-- A line that is written out ends a line of the file, which is all of it behind a newline. -/
theorem complete (h : file.Holds intact) (hends : intact → unfinished file.contents = [])
    (line : Line) :
    (⟨file.contents ++ line.bytes, file.completed ++ [line]⟩ : LineFile).Holds intact := by
  have hlines : wholeLines (file.contents ++ line.bytes)
      = wholeLines file.contents ++ [unfinished file.contents ++ line.1] := by
    rw [wholeLines, linesFrom_append, Line.bytes, linesFrom_line line.2]
    rfl
  refine ⟨?_, fun hintact => ?_⟩
  · obtain ⟨texts, htexts, hsub⟩ := List.sublistForall₂_iff.mp h.ends
    have hlast : List.Forall₂ (fun line text => line.1 <:+ text) [line]
        [unfinished file.contents ++ line.1] :=
      .cons (List.suffix_append _ _) .nil
    refine List.sublistForall₂_iff.mpr ⟨_, List.rel_append htexts hlast, ?_⟩
    rw [hlines]
    exact hsub.append_right _
  · show List.Sublist ((file.completed ++ [line]).map Subtype.val) _
    rw [hlines, hends hintact, List.map_append]
    exact List.Sublist.append (h.whole hintact) (List.Sublist.refl _)

end LineFile.Holds

namespace LineFiles

/-- The completed lines are, in their order, those that went with a file, those of the previous
    file and those of the current one; and they are lines of their own there. -/
structure Kept (files : LineFiles) (lines : List Line) : Prop where
  previous : ∀ file ∈ files.previous, file.Whole
  current : ∀ file ∈ files.current, file.Whole
  order : lines = files.discarded ++ completedIn files.previous ++ completedIn files.current

/-- **What the files promise** of the lines that have been completed.  `intact` says that no write
    has torn a line so far and that the current file was found ending with a newline. -/
structure Promise (intact : Prop) (files : LineFiles) (lines : List Line) : Prop where
  previous : ∀ file ∈ files.previous, file.Holds intact
  current : ∀ file ∈ files.current, file.Holds intact
  order : lines = files.discarded ++ completedIn files.previous ++ completedIn files.current
  ends : intact → files.endsLine = true

namespace Promise

variable {intact intact' : Prop} {files : LineFiles} {lines : List Line}

/-- With no torn line, the promise is that the completed lines are kept. -/
theorem kept (h : files.Promise intact lines) (hintact : intact) : files.Kept lines :=
  ⟨fun file hfile => (h.previous file hfile).whole hintact,
    fun file hfile => (h.current file hfile).whole hintact, h.order⟩

/-- A promise under a condition is one under every stronger condition. -/
theorem mono (h : files.Promise intact lines) (hintact : intact' → intact) :
    files.Promise intact' lines where
  previous file hfile := (h.previous file hfile).mono hintact
  current file hfile := (h.current file hfile).mono hintact
  order := h.order
  ends := h.ends ∘ hintact

/-- Files that are found have none of the run's lines. -/
theorem found (previous current : Option Bytes) :
    (LineFiles.found previous current).Promise (unfinished (current.getD []) = []) [] where
  previous file hfile := by
    obtain ⟨contents, -, rfl⟩ := Option.map_eq_some_iff.mp hfile
    exact .found contents
  current file hfile := by
    obtain ⟨contents, -, rfl⟩ := Option.map_eq_some_iff.mp hfile
    exact .found contents
  order := by
    cases previous
    all_goals cases current
    all_goals rfl
  ends hends := by
    cases current
    all_goals exact decide_eq_true hends

/-- An empty file that is created in the place of the current one keeps the promise: the lines of
    the old one are deleted. -/
theorem create (h : files.Promise intact lines) : files.create.Promise intact lines := by
  obtain ⟨previous, current, discarded⟩ := files
  cases current with
  | some file => exact h
  | none =>
    refine ⟨h.previous, fun file hfile => ?_, h.order, h.ends⟩
    obtain rfl := Option.some.inj hfile
    exact .found []

/-- To remove the previous file keeps the promise for the lines that are left. -/
theorem removePrevious (h : files.Promise intact lines) :
    files.removePrevious.Promise intact lines where
  previous _ hfile := by cases hfile
  current := h.current
  order := by
    rw [h.order, LineFiles.removePrevious]
    simp [completedIn]
  ends := h.ends

/-- To set the current file aside over the previous one keeps the promise. -/
theorem replacePrevious (h : files.Promise intact lines) :
    files.replacePrevious.Promise intact lines := by
  rw [LineFiles.replacePrevious]
  split
  case h_1 => exact h
  case h_2 file hfile =>
    refine ⟨fun file' hfile' => ?_, ?_, ?_, fun _ => rfl⟩
    · obtain rfl := Option.some.inj hfile'
      exact h.current file hfile
    · intro _ hnone
      cases hnone
    · rw [h.order, hfile, LineFiles.removePrevious]
      simp [completedIn]

/-- To move the current file into the free place of the previous one keeps the promise. -/
theorem moveToPrevious (h : files.Promise intact lines) :
    files.moveToPrevious.Promise intact lines := by
  rw [LineFiles.moveToPrevious]
  split
  case h_1 => exact h.replacePrevious
  case h_2 => exact h

/-- **Bytes are written**, of a line whose write fails.  The files stay intact if it has not torn
    the line. -/
theorem write (h : files.Promise intact lines) {bytes : Bytes}
    (hintact : intact' → intact ∧ unfinished bytes = []) :
    (files.write bytes).Promise intact' lines where
  previous file hfile := (h.previous file hfile).mono fun hnow => (hintact hnow).1
  current file hfile := by
    obtain ⟨file', hfile', rfl⟩ := Option.map_eq_some_iff.mp hfile
    exact ((h.current file' hfile').mono fun hnow => (hintact hnow).1).write bytes
  order := by
    rw [h.order, LineFiles.write, completedIn, completedIn, completedIn, Option.map_map]
    rfl
  ends hnow := by
    obtain ⟨hbefore, hbytes⟩ := hintact hnow
    obtain ⟨previous, current, discarded⟩ := files
    cases current with
    | none => exact h.ends hbefore
    | some file =>
      have hends : restFrom [] file.contents = [] := of_decide_eq_true (h.ends hbefore)
      refine decide_eq_true ?_
      show restFrom [] (file.contents ++ bytes) = []
      rw [restFrom_append, hends]
      exact hbytes

/-- **A line is completed** in the current file, and the promise extends to it. -/
theorem complete (h : files.Promise intact lines) (hcurrent : files.current.isSome = true)
    (line : Line) :
    ((files.write line.bytes).complete line).Promise intact (lines ++ [line]) := by
  obtain ⟨previous, current, discarded⟩ := files
  obtain ⟨file, rfl⟩ := Option.isSome_iff_exists.mp hcurrent
  refine ⟨h.previous, ?_, ?_, fun _ => ?_⟩
  · intro file' hfile'
    obtain rfl := Option.some.inj hfile'
    exact (h.current file rfl).complete (fun hintact => of_decide_eq_true (h.ends hintact)) line
  · rw [h.order]
    simp [LineFiles.write, LineFiles.complete, completedIn]
  · refine decide_eq_true ?_
    show restFrom [] (file.contents ++ (line.1 ++ [newline])) = []
    rw [← List.append_assoc, restFrom_newline]

end Promise

end LineFiles

/-! ### Runs -/

variable {σ α : Type}

/-- The lines that the calls of a run have completed, when each returns its own. -/
def completedLines (history : List (Entry σ α (List Line))) : List Line :=
  history.flatMap Entry.returned

/-- What relates the completed lines to the state holds along a run, where `intact` has become
    false with the first call that tears a line, once each call keeps it so. -/
theorem completedLines_induction (m : Machine σ α (List Line)) (tears : α → Bool)
    {I : Prop → σ → List Line → Prop} {intact : Prop} {s : σ} (hinit : I intact s [])
    (hmono : ∀ {p q : Prop} {s lines}, I p s lines → (q → p) → I q s lines)
    (hstep : ∀ (p : Prop) s a lines, I p s lines →
      I (p ∧ tears a = false) (m.step s a).1 (lines ++ (m.step s a).2))
    (calls : List α) :
    I (intact ∧ ∀ a ∈ calls, tears a = false) (m.exec s calls)
      (completedLines (m.history s calls)) := by
  induction calls using List.reverseRecOn with
  | nil => exact hmono hinit And.left
  | append_singleton calls a ih =>
    rw [Machine.exec_snoc, Machine.history_snoc, completedLines, List.flatMap_append,
      List.flatMap_singleton]
    refine hmono (hstep _ _ a _ ih) fun ⟨hintact, hcalls⟩ => ?_
    obtain ⟨hbefore, hlast⟩ := List.forall_mem_append.mp hcalls
    exact ⟨⟨hintact, hbefore⟩, hlast a (List.mem_singleton_self a)⟩

end ShareCompute.Library
