import ShareCompute.App.WriteLoop
import Mathlib.Data.List.Perm.Basic

namespace ShareCompute.App

open ShareCompute.Library

/-!
# The books of the Android log

`EventLog.java` as a whole: callers of `event` put a line into the ring under the lock and then
offer it to the queue, the writer takes the queue's items one by one, and an export puts a barrier
into the queue.  Any number of callers run at once, so another thread may run between the two
halves of `event`.

* `WorkerLog` — the ring, the counters, the queue, the callers between the halves, and the loop.
* `Outcome` — what a step does to lines; the lists of a run are read off its history.
* `Books` — what the counters of the export say about those lists.
* `log_accounts` — the books balance in every run: each line that was logged is in a file or went
  with one, is on its way, is counted as dropped, or is older than the log's directory.
-/

namespace WorkerLog

/-- `RING`, the number of lines that are kept in memory. -/
def ringLimit : ℕ := 4000

/-- `QUEUE`, the number of items that can wait for the writer. -/
def queueLimit : ℕ := 2000

/-- What the queue holds: a line, or the latch of a `drain`. -/
inductive Item
  | line (text : Line)
  | latch
deriving DecidableEq

/-- The line of an item; the latch of a `drain` has none. -/
def Item.text? : Item → Option Line
  | .line text => some text
  | .latch => none

/-- An item that the writer has been through. -/
structure Handled where
  item : Item
  turn : Turn
  /-- the write reached the end of the line -/
  completed : Bool
  /-- `droppedWrite` went up -/
  dropped : Bool

/-- What the item was to the write loop. -/
def Handled.call (handled : Handled) : LoopCall :=
  match handled.item with
  | .line text => .line text handled.turn
  | .latch => .latch

/-- What a step does to lines: which of them are recorded, not taken, offered or handled in it. -/
structure Outcome where
  recorded : List Line := []
  /-- there is no directory yet -/
  homeless : List Line := []
  /-- the queue is full -/
  refused : List Line := []
  offered : List Item := []
  handled : List Handled := []

/-- One thing after another: what both of them did to lines, in their order. -/
def Outcome.append (first second : Outcome) : Outcome where
  recorded := first.recorded ++ second.recorded
  homeless := first.homeless ++ second.homeless
  refused := first.refused ++ second.refused
  offered := first.offered ++ second.offered
  handled := first.handled ++ second.handled

/-- What a thread does in one go. -/
inductive Call
  | init (measured : Bool)
  /-- the first half of `event`, under the lock -/
  | record (line : Line)
  /-- the second half, by the caller at `i` -/
  | offer (i : ℕ)
  | drain
  /-- the writer takes an item and handles it -/
  | turn (turn : Turn)

end WorkerLog

/-- The static fields of `EventLog`, the callers that are in `event`, and the files. -/
structure WorkerLog where
  ring : List Line
  logged : ℕ
  overwritten : ℕ
  droppedQueue : ℕ
  /-- between the two halves of `event` -/
  callers : List Line
  queue : List WorkerLog.Item
  /-- the writer, once there is a directory -/
  loop : Option WriteLoop
  /-- what an earlier process has left -/
  onDisk : LineFiles

namespace WorkerLog

/-- The log of a process that has just begun. -/
def start (onDisk : LineFiles) : WorkerLog := ⟨[], 0, 0, 0, [], [], none, onDisk⟩

/-- `init`: the log has its directory, and the writer is started, the first time. -/
def init (self : WorkerLog) (measured : Bool) : WorkerLog :=
  match self.loop with
  | some _ => self
  | none => { self with loop := some (.launch self.onDisk measured) }

/-- The first half of `event`: the line goes into the ring, and the oldest leaves a full one. -/
def record (self : WorkerLog) (line : Line) : WorkerLog × Outcome :=
  let ring := self.ring ++ [line]
  let self := { self with logged := self.logged + 1, callers := self.callers ++ [line] }
  (if ringLimit < ring.length then
      { self with ring := ring.tail, overwritten := self.overwritten + 1 }
    else { self with ring := ring },
    { recorded := [line] })

/-- The second half of `event`: the line is offered to the queue, once there is a directory. -/
def offer (self : WorkerLog) (i : ℕ) : WorkerLog × Outcome :=
  match self.callers[i]? with
  | none => (self, {})
  | some line =>
      let self := { self with callers := self.callers.eraseIdx i }
      if self.loop.isSome then
        if self.queue.length < queueLimit then
          ({ self with queue := self.queue ++ [.line line] }, { offered := [.line line] })
        else ({ self with droppedQueue := self.droppedQueue + 1 }, { refused := [line] })
      else (self, { homeless := [line] })

/-- `drain` offers a latch to the queue. -/
def drain (self : WorkerLog) : WorkerLog × Outcome :=
  if self.queue.length < queueLimit then
    ({ self with queue := self.queue ++ [.latch] }, { offered := [.latch] })
  else (self, {})

/-- The writer takes the first item of the queue and goes through its loop with it. -/
def turn (self : WorkerLog) (turn : Turn) : WorkerLog × Outcome :=
  match self.loop, self.queue with
  | some loop, .line line :: queue =>
      let (loop', completed) := loop.writeLine line turn
      ({ self with loop := some loop', queue := queue },
        { handled := [⟨.line line, turn, !completed.isEmpty,
            decide (loop.droppedWrite < loop'.droppedWrite)⟩] })
  | some _, .latch :: queue =>
      ({ self with queue := queue }, { handled := [⟨.latch, turn, false, false⟩] })
  | _, _ => (self, {})

/-- What the call of a thread does. -/
def perform (self : WorkerLog) : Call → WorkerLog × Outcome
  | .init measured => (self.init measured, {})
  | .record line => self.record line
  | .offer i => self.offer i
  | .drain => self.drain
  | .turn turn => self.turn turn

/-- The log, with what its calls do to lines. -/
def machine : Machine WorkerLog Call Outcome := ⟨perform⟩

/-! ### What a run has done -/

/-- What all steps of a run have done, in their order. -/
def outcomeOf (history : List (Entry WorkerLog Call Outcome)) : Outcome :=
  (history.map Entry.returned).foldl Outcome.append {}

/-- The outcome of a history with one call more is that of the calls before, and then what the call
    returned. -/
theorem outcomeOf_snoc (history : List (Entry WorkerLog Call Outcome))
    (e : Entry WorkerLog Call Outcome) :
    outcomeOf (history ++ [e]) = (outcomeOf history).append e.returned := by
  rw [outcomeOf, List.map_append, List.foldl_append]
  rfl

/-- The line of an item that was handled. -/
def Handled.text? (handled : Handled) : Option Line := handled.item.text?

/-- The lines whose writes have reached their end. -/
def completedLines (handled : List Handled) : List Line :=
  (handled.filter Handled.completed).filterMap Handled.text?

/-- `droppedWrite`; it is 0 while there is no writer. -/
def droppedWrite (self : WorkerLog) : ℕ := self.loop.elim 0 WriteLoop.droppedWrite

/-- The files, as the writer has them or as they were found. -/
def files (self : WorkerLog) : LineFiles := self.loop.elim self.onDisk WriteLoop.files

/-- No line of the run was torn. -/
def Untorn (outcome : Outcome) : Prop := ∀ x ∈ outcome.handled, x.call.tears = false

/-- **The books of the log**, where `outcome` has the lists of the run so far, and `intact` says
    that the current file was found ending with a newline. -/
structure Books (intact : Prop) (log : WorkerLog) (outcome : Outcome) : Prop where
  /-- the ring is the end of what was logged -/
  ring : log.ring = outcome.recorded.drop (outcome.recorded.length - ringLimit)
  logged : log.logged = outcome.recorded.length
  overwritten : log.overwritten + log.ring.length = outcome.recorded.length
  /-- every line is on its way to the queue, or has been offered to it -/
  offered : outcome.recorded.Perm
    (log.callers ++ outcome.homeless ++ outcome.refused ++ outcome.offered.filterMap Item.text?)
  droppedQueue : log.droppedQueue = outcome.refused.length
  /-- the queue is first in, first out -/
  queue : outcome.offered = outcome.handled.map Handled.item ++ log.queue
  bounded : log.queue.length ≤ queueLimit
  /-- the writer completes a line or counts it; it does both where a rotation cannot close -/
  counted : ∀ x ∈ outcome.handled, x.item.text?.isSome = true →
    (x.completed = true ∨ x.dropped = true) ∧
    (x.completed = true → x.dropped = true → x.turn.closed = false)
  latches : ∀ x ∈ outcome.handled, x.item = .latch → x.completed = false ∧ x.dropped = false
  droppedWrite : log.droppedWrite = outcome.handled.countP Handled.dropped
  /-- what is completed is in the files, or went with one -/
  writer : ∀ loop ∈ log.loop,
    loop.Sound (intact ∧ Untorn outcome) (completedLines outcome.handled)
  waiting : log.loop = none → outcome.handled = []
  onDisk : log.onDisk.Promise intact []

/-! ### Every step keeps the books -/

variable {intact : Prop} {self : WorkerLog} {outcome : Outcome}

/-- Before the log is told where to write, its books are those of the files that were found. -/
theorem Books.start {onDisk : LineFiles} (h : onDisk.Promise intact []) :
    Books intact (start onDisk) {} where
  ring := rfl
  logged := rfl
  overwritten := rfl
  offered := .refl _
  droppedQueue := rfl
  queue := rfl
  bounded := Nat.zero_le _
  counted _ h := absurd h List.not_mem_nil
  latches _ h := absurd h List.not_mem_nil
  droppedWrite := rfl
  writer loop hloop := by cases hloop
  waiting _ := rfl
  onDisk := h

/-- Nothing is added by a call that returns nothing. -/
theorem append_nothing (outcome : Outcome) : outcome.append {} = outcome := by
  simp [Outcome.append]

/-- One more line in the ring is still the end of what was logged. -/
theorem ring_snoc {ring recorded : List Line} (line : Line)
    (hring : ring = recorded.drop (recorded.length - ringLimit)) :
    (if ringLimit < (ring ++ [line]).length then (ring ++ [line]).tail else ring ++ [line])
      = (recorded ++ [line]).drop ((recorded ++ [line]).length - ringLimit) := by
  have hlength : ring.length = recorded.length - (recorded.length - ringLimit) := by
    rw [hring, List.length_drop]
  have happend : ring ++ [line]
      = (recorded ++ [line]).drop (recorded.length - ringLimit) := by
    rw [hring, List.drop_append_of_le_length (Nat.sub_le _ _)]
  rw [List.length_append, List.length_append, List.length_singleton, happend]
  split
  · next hfull =>
    have hindex : recorded.length + 1 - ringLimit = recorded.length - ringLimit + 1 := by omega
    rw [List.tail_drop, hindex]
  · next hroom =>
    have hindex : recorded.length + 1 - ringLimit = recorded.length - ringLimit := by omega
    rw [hindex]

/-- To record a line puts it into the queue, or counts it as dropped, and the books take it in. -/
theorem Books.record (h : self.Books intact outcome) (line : Line) :
    Books intact (self.record line).1 (outcome.append (self.record line).2) := by
  have hring := ring_snoc line h.ring
  have hover := h.overwritten
  have hlogged := h.logged
  have hmoved : (outcome.recorded ++ [line]).Perm ((self.callers ++ [line]) ++ outcome.homeless
      ++ outcome.refused ++ outcome.offered.filterMap Item.text?) := by
    refine (h.offered.append_right [line]).trans ?_
    simp only [List.append_assoc]
    refine List.Perm.append_left self.callers ?_
    rw [← List.append_assoc, ← List.append_assoc]
    exact (List.perm_append_singleton line _).trans (by simp)
  -- nothing happens to the queue and to the file
  have hsame : outcome.append { recorded := [line] }
      = { outcome with recorded := outcome.recorded ++ [line] } := by
    simp [Outcome.append]
  unfold WorkerLog.record
  dsimp only
  rw [hsame]
  split
  · next hfull =>
    rw [if_pos hfull] at hring
    rw [List.length_append, List.length_singleton] at hfull
    refine { h with ring := hring, logged := ?_, overwritten := ?_, offered := hmoved }
    · show self.logged + 1 = (outcome.recorded ++ [line]).length
      rw [List.length_append, List.length_singleton, hlogged]
    · show self.overwritten + 1 + (self.ring ++ [line]).tail.length
        = (outcome.recorded ++ [line]).length
      rw [List.length_tail, List.length_append, List.length_append]
      simp only [List.length_singleton]
      omega
  · next hroom =>
    rw [if_neg hroom] at hring
    refine { h with ring := hring, logged := ?_, overwritten := ?_, offered := hmoved }
    · show self.logged + 1 = (outcome.recorded ++ [line]).length
      rw [List.length_append, List.length_singleton, hlogged]
    · show self.overwritten + (self.ring ++ [line]).length = (outcome.recorded ++ [line]).length
      rw [List.length_append, List.length_append, ← hover]
      simp only [List.length_singleton]
      omega

/-- A caller leaves with its line, for one of the three other lists. -/
theorem perm_of_caller {callers homeless refused queued recorded : List Line} {i : ℕ} {line : Line}
    (h : recorded.Perm (callers ++ homeless ++ refused ++ queued))
    (hline : callers[i]? = some line) :
    recorded.Perm (line :: (callers.eraseIdx i ++ homeless ++ refused ++ queued)) := by
  obtain ⟨hi, hget⟩ := List.getElem?_eq_some_iff.mp hline
  have herase : callers.Perm (line :: callers.eraseIdx i) :=
    hget ▸ (List.getElem_cons_eraseIdx_perm hi).symm
  exact h.trans (((herase.append_right homeless).append_right refused).append_right queued)

/-- To offer a line to the writer moves it from the queue to where the writer is, and the books
    follow. -/
theorem Books.offer (h : self.Books intact outcome) (i : ℕ) :
    Books intact (self.offer i).1 (outcome.append (self.offer i).2) := by
  unfold WorkerLog.offer
  cases hline : self.callers[i]? with
  | none =>
    dsimp only
    rwa [append_nothing]
  | some line =>
    have hperm := perm_of_caller h.offered hline
    dsimp only
    split
    · split
      · next hroom =>
        -- there is room in the queue, and the line waits there
        have hsame : outcome.append { offered := [.line line] }
            = { outcome with offered := outcome.offered ++ [.line line] } := by
          simp [Outcome.append]
        rw [hsame]
        refine { h with offered := ?_, queue := ?_, bounded := ?_ }
        · rw [List.filterMap_append]
          refine hperm.trans ?_
          rw [← List.append_assoc]
          exact (List.perm_append_singleton line _).symm
        · show outcome.offered ++ [.line line]
            = outcome.handled.map Handled.item ++ (self.queue ++ [.line line])
          rw [h.queue, List.append_assoc]
        · show (self.queue ++ [Item.line line]).length ≤ queueLimit
          rw [List.length_append]
          exact hroom
      · -- the queue is full, and the line is counted as dropped
        have hsame : outcome.append { refused := [line] }
            = { outcome with refused := outcome.refused ++ [line] } := by
          simp [Outcome.append]
        rw [hsame]
        refine { h with offered := ?_, droppedQueue := ?_ }
        · refine hperm.trans ?_
          show (line :: (self.callers.eraseIdx i ++ outcome.homeless ++ outcome.refused ++ _)).Perm
            (self.callers.eraseIdx i ++ outcome.homeless ++ (outcome.refused ++ [line]) ++ _)
          rw [← List.append_assoc _ outcome.refused, List.append_assoc _ [line]]
          exact List.perm_middle.symm
        · show self.droppedQueue + 1 = (outcome.refused ++ [line]).length
          rw [h.droppedQueue, List.length_append]
          rfl
    · -- there is no directory yet, and the line is in the ring only
      have hsame : outcome.append { homeless := [line] }
          = { outcome with homeless := outcome.homeless ++ [line] } := by
        simp [Outcome.append]
      rw [hsame]
      refine { h with offered := ?_ }
      refine hperm.trans ?_
      show (line :: (self.callers.eraseIdx i ++ outcome.homeless ++ outcome.refused ++ _)).Perm
        (self.callers.eraseIdx i ++ (outcome.homeless ++ [line]) ++ outcome.refused ++ _)
      rw [← List.append_assoc _ outcome.homeless]
      simp only [List.append_assoc]
      rw [← List.append_assoc, ← List.append_assoc (self.callers.eraseIdx i)]
      exact List.perm_middle.symm

/-- To drain the queue writes what is left in it, and the books follow. -/
theorem Books.drain (h : self.Books intact outcome) :
    Books intact self.drain.1 (outcome.append self.drain.2) := by
  unfold WorkerLog.drain
  split
  · next hroom =>
    have hsame : outcome.append { offered := [.latch] }
        = { outcome with offered := outcome.offered ++ [.latch] } := by
      simp [Outcome.append]
    rw [hsame]
    refine { h with offered := ?_, queue := ?_, bounded := ?_ }
    · rw [List.filterMap_append]
      show outcome.recorded.Perm (_ ++ (_ ++ []))
      rw [List.append_nil]
      exact h.offered
    · show outcome.offered ++ [.latch]
        = outcome.handled.map Handled.item ++ (self.queue ++ [.latch])
      rw [h.queue, List.append_assoc]
    · show (self.queue ++ [Item.latch]).length ≤ queueLimit
      rw [List.length_append]
      exact hroom
  · rwa [append_nothing]

/-- To be told where to write starts the writer; no line moves by that. -/
theorem Books.init (h : self.Books intact outcome) (measured : Bool) :
    Books intact (self.init measured) outcome := by
  unfold WorkerLog.init
  split
  · exact h
  · next hnone =>
    have hhandled := h.waiting hnone
    refine { h with droppedWrite := ?_, writer := ?_, waiting := fun hloop => by cases hloop }
    · rw [hhandled]
      rfl
    · rintro _ ⟨⟩
      rw [hhandled]
      exact (WriteLoop.Sound.launch h.onDisk measured).mono And.left

/-- What a turn does to the counter, and to its line. -/
theorem writeLine_counted (loop : WriteLoop) (line : Line) (turn : Turn) :
    let written := loop.writeLine line turn
    (written.2 = [line] ∨ written.2 = []) ∧
    written.1.droppedWrite
      = loop.droppedWrite + (if loop.droppedWrite < written.1.droppedWrite then 1 else 0) ∧
    (written.2 = [line] ∨ loop.droppedWrite < written.1.droppedWrite) ∧
    (written.2 = [line] → loop.droppedWrite < written.1.droppedWrite → turn.closed = false) := by
  -- opening the file drops no line
  have hopen : ∀ opened, loop.openOut turn = some opened →
      opened.droppedWrite = loop.droppedWrite := by
    intro opened hopened
    unfold WriteLoop.openOut at hopened
    split at hopened
    · exact Option.some.inj hopened ▸ rfl
    · split at hopened
      · exact Option.some.inj hopened ▸ rfl
      · cases hopened
  intro written
  simp only [written]
  unfold WriteLoop.writeLine
  split
  · simp
  · split
    · simp [WriteLoop.dropLine]
    · next opened hopened =>
      -- the write fails, or it succeeds and the file may have to be rotated
      have hsame := hopen opened hopened
      dsimp only
      split
      · simp [WriteLoop.dropLine, hsame]
      · split
        · split
          · simp [WriteLoop.rotate, hsame]
          · next hclosed =>
            simp [WriteLoop.dropLine, hsame, hclosed]
        · simp [hsame]

/-- **A turn of the writer** moves the first item from the queue to what was handled. -/
theorem Books.turn (h : self.Books intact outcome) (turn : Turn) :
    Books intact (self.turn turn).1 (outcome.append (self.turn turn).2) := by
  -- in either case one item more has been handled
  have hsame : ∀ handled : Handled, outcome.append { handled := [handled] }
      = { outcome with handled := outcome.handled ++ [handled] } := by
    intro handled
    simp [Outcome.append]
  have hqueue := h.queue
  have hbounded := h.bounded
  unfold WorkerLog.turn
  split
  · next loop line queue hloop hitems =>
    rw [hitems] at hqueue hbounded
    obtain ⟨hcompleted, hcounter, heither, hboth⟩ := writeLine_counted loop line turn
    have hsound := (h.writer loop hloop).writeLine line turn
    generalize loop.writeLine line turn = written at hcompleted hcounter heither hboth hsound
    obtain ⟨loop', completed⟩ := written
    dsimp only at hcompleted hcounter heither hboth hsound ⊢
    rw [hsame]
    have hdropped : self.droppedWrite = loop.droppedWrite := by
      rw [WorkerLog.droppedWrite, hloop]
      rfl
    refine { h with
      queue := ?_, bounded := ?_, counted := ?_, latches := ?_, droppedWrite := ?_
      writer := ?_, waiting := fun hnone => by cases hnone }
    · show outcome.offered = (outcome.handled ++ [_]).map Handled.item ++ queue
      rw [hqueue, List.map_append, List.append_assoc]
      rfl
    · exact Nat.le_of_succ_le hbounded
    · intro x hx hline
      rcases List.mem_append.mp hx with hold | hnew
      · exact h.counted x hold hline
      · rw [List.mem_singleton.mp hnew]
        refine ⟨?_, fun hwhole hcount => ?_⟩
        · rcases heither with hwhole | hcount
          · exact .inl (by simp [hwhole])
          · exact .inr (decide_eq_true hcount)
        · refine hboth ?_ (of_decide_eq_true hcount)
          rcases hcompleted with hwhole' | hempty
          · exact hwhole'
          · simp [hempty] at hwhole
    · intro x hx hlatch
      rcases List.mem_append.mp hx with hold | hnew
      · exact h.latches x hold hlatch
      · rw [List.mem_singleton.mp hnew] at hlatch
        cases hlatch
    · show loop'.droppedWrite = (outcome.handled ++ [_]).countP Handled.dropped
      rw [List.countP_append, List.countP_singleton, ← h.droppedWrite, hdropped]
      simpa only [decide_eq_true_eq] using hcounter
    · rintro _ ⟨⟩
      have hlines : completedLines (outcome.handled ++ [⟨.line line, turn, !completed.isEmpty,
          decide (loop.droppedWrite < loop'.droppedWrite)⟩])
            = completedLines outcome.handled ++ completed := by
        rw [completedLines, List.filter_append, List.filterMap_append]
        congr 1
        rcases hcompleted with rfl | rfl <;> rfl
      rw [hlines]
      refine hsound.mono fun ⟨hintact, huntorn⟩ => ?_
      obtain ⟨hold, hnew⟩ := List.forall_mem_append.mp huntorn
      exact ⟨⟨hintact, hold⟩, hnew _ (List.mem_singleton_self _)⟩
  · next loop queue hloop hitems =>
    rw [hitems] at hqueue hbounded
    dsimp only
    rw [hsame]
    refine { h with
      queue := ?_, bounded := Nat.le_of_succ_le hbounded, counted := ?_, latches := ?_
      droppedWrite := ?_, writer := ?_, waiting := fun hnone => by cases hloop.symm.trans hnone }
    · show outcome.offered = (outcome.handled ++ [_]).map Handled.item ++ queue
      rw [hqueue, List.map_append, List.append_assoc]
      rfl
    · intro x hx hline
      rcases List.mem_append.mp hx with hold | hnew
      · exact h.counted x hold hline
      · rw [List.mem_singleton.mp hnew] at hline
        cases hline
    · intro x hx hlatch
      rcases List.mem_append.mp hx with hold | hnew
      · exact h.latches x hold hlatch
      · rw [List.mem_singleton.mp hnew]
        exact ⟨rfl, rfl⟩
    · show self.droppedWrite = (outcome.handled ++ [_]).countP Handled.dropped
      rw [List.countP_append, List.countP_singleton, ← h.droppedWrite]
      rfl
    · intro loop' hloop'
      have hlines : completedLines (outcome.handled ++ [⟨.latch, turn, false, false⟩])
          = completedLines outcome.handled := by
        rw [completedLines, List.filter_append, List.filterMap_append]
        exact List.append_nil _
      rw [hlines]
      refine (h.writer loop' hloop').mono fun ⟨hintact, huntorn⟩ => ⟨hintact, ?_⟩
      exact (List.forall_mem_append.mp huntorn).1
  · rwa [append_nothing]

/-- **Step lemma.**  Whatever a thread does keeps the books. -/
theorem Books.perform (h : self.Books intact outcome) (call : Call) :
    Books intact (self.perform call).1 (outcome.append (self.perform call).2) := by
  cases call with
  | init measured =>
    show Books intact (self.init measured) (outcome.append {})
    rw [append_nothing]
    exact h.init measured
  | record line => exact h.record line
  | offer i => exact h.offer i
  | drain => exact h.drain
  | turn turn => exact h.turn turn

/-- **Run lemma.**  The books are kept in every run. -/
theorem Books.of_run {onDisk : LineFiles} (h : onDisk.Promise intact []) (calls : List Call) :
    Books intact (machine.exec (WorkerLog.start onDisk) calls)
      (outcomeOf (machine.history (WorkerLog.start onDisk) calls)) := by
  refine machine.run_induction (P := fun _ => True)
    (I := fun history log => log.Books intact (outcomeOf history)) (.start h) ?_ calls
    fun _ _ => trivial
  intro history log call hbooks _
  rw [outcomeOf_snoc]
  exact hbooks.perform call

/-! ### Where the lines are -/

/-- The lines of the queue, without the latches that stand among them. -/
def queued (self : WorkerLog) : List Line := self.queue.filterMap Item.text?

/-- A line that was handled counts once, as completed or as dropped, unless it is both. -/
theorem countP_handled {handled : List Handled}
    (hcounted : ∀ x ∈ handled, x.item.text?.isSome = true → x.completed = true ∨ x.dropped = true)
    (hlatches : ∀ x ∈ handled, x.item = .latch → x.completed = false ∧ x.dropped = false) :
    (handled.filterMap Handled.text?).length
        + handled.countP (fun x => x.completed && x.dropped)
      = (completedLines handled).length + handled.countP Handled.dropped := by
  induction handled with
  | nil => rfl
  | cons x handled ih =>
    obtain ⟨hx, hrest⟩ := List.forall_mem_cons.mp hcounted
    obtain ⟨hlatch, hlatches⟩ := List.forall_mem_cons.mp hlatches
    have hih := ih hrest hlatches
    obtain ⟨item, turn, completed, dropped⟩ := x
    rw [completedLines] at hih ⊢
    cases item with
    | line text =>
      have heither : completed = true ∨ dropped = true := hx rfl
      rw [List.filterMap_cons_some (show Handled.text? ⟨.line text, turn, completed, dropped⟩
        = some text from rfl)]
      cases completed <;> cases dropped
      · simp at heither
      all_goals simp [Handled.text?, Item.text?] at hih ⊢; omega
    | latch =>
      obtain ⟨rfl, rfl⟩ : completed = false ∧ dropped = false := hlatch rfl
      rw [List.filterMap_cons_none (show Handled.text? ⟨.latch, turn, false, false⟩
        = none from rfl)]
      simpa using hih

/-- The lines that were completed are in the files, or went with a file that was rotated away. -/
theorem Books.promise (h : self.Books intact outcome) :
    self.files.Promise (intact ∧ Untorn outcome) (completedLines outcome.handled) := by
  cases hloop : self.loop with
  | none =>
    rw [files, hloop, h.waiting hloop]
    exact h.onDisk.mono And.left
  | some loop =>
    rw [files, hloop]
    exact (h.writer loop hloop).promise

/-- The counters of the export tell where the lines of a run are. -/
theorem Books.sum (h : self.Books intact outcome) :
    self.logged + outcome.handled.countP (fun x => x.completed && x.dropped)
      = self.files.discarded.length + (completedIn self.files.previous).length
        + (completedIn self.files.current).length + self.droppedWrite + self.droppedQueue
        + self.queued.length + self.callers.length + outcome.homeless.length := by
  have hoffered := h.offered.length_eq
  have hqueue := congrArg (fun items => (items.filterMap Item.text?).length) h.queue
  have hhandled := countP_handled (fun x hx hline => (h.counted x hx hline).1) h.latches
  have hfiles := congrArg List.length h.promise.order
  have htexts : (outcome.handled.map Handled.item).filterMap Item.text?
      = outcome.handled.filterMap Handled.text? := by
    rw [List.filterMap_map]
    rfl
  simp only [List.filterMap_append, List.length_append, htexts] at hoffered hqueue hfiles
  rw [h.logged, h.droppedWrite, h.droppedQueue, queued]
  omega

end WorkerLog

end ShareCompute.App
