import ShareCompute.Library.Runs
import Mathlib.Data.List.Infix
import Mathlib.Logic.Function.Basic

namespace ShareCompute.Cluster.Bridge

open ShareCompute.Library

/-!
# Bridging two connections

`split_cluster.py`, `bridge`: two tasks copy between the connections, one in each direction.  When
one of them ends, both are cancelled, both writers are closed, and `bridge` waits for all of it.

A task gives way only where it awaits, so a copy loop is kept as the place where it awaits.  A
cancelled task gets the cancellation there when it is resumed next, whatever it was waiting for.
What comes out of a read, and whether a read, a write or a drain fails, is the choice of the
environment, and so is the order in which the tasks move.

* `step` — one step of a loop, of a closing task or of `bridge` itself.
* `step_kept` — what every step keeps.
* `bridge_faithful` — what is written, what is counted, and how `bridge` returns.
-/

/-! ### State -/

/-- The index of a copy loop, by the stream that it writes to. -/
inductive Direction
  /-- `copy(left[0], right[1], 0)` -/
  | right
  /-- `copy(right[0], left[1], 1)` -/
  | left
deriving DecidableEq

/-- How a copy loop ended: at the end of its stream, by an exception, or by being cancelled. -/
inductive Outcome
  | returned
  | raised
  | cancelled
deriving DecidableEq

/-- Where a copy loop awaits, between two of its steps. -/
inductive CopyPoint
  /-- the task has not run yet -/
  | created
  /-- `await src.read(65536)` -/
  | reading
  /-- `await dst.drain()`, and the length of the chunk that was written -/
  | draining (size : ℕ)
  | ended (outcome : Outcome)
deriving DecidableEq

/-- A copy loop, with the bytes it has read and written. -/
structure Copy where
  point : CopyPoint
  /-- `task.cancel()` was called -/
  cancelled : Bool
  read : List UInt8
  written : List UInt8
  /-- `counts[index]` -/
  count : ℕ

/-- Where the task of a `close(writer)` awaits. -/
inductive Closer
  | created
  /-- `await asyncio.wait_for(writer.wait_closed(), 2)` -/
  | waiting
  | done
deriving DecidableEq

/-- Where `bridge` awaits, between two of its steps. -/
inductive MainPoint
  /-- `await asyncio.wait(tasks, ...)` -/
  | waiting
  /-- `await asyncio.gather(close(left[1]), close(right[1]))` -/
  | closing
  /-- `await asyncio.gather(*tasks, ...)` -/
  | joining
  | returned
deriving DecidableEq

/-- The two copy loops, the task that waits for them, and the two tasks that close the writers. -/
structure State where
  copies : Direction → Copy
  main : MainPoint
  /-- the task that closes the writer of a direction -/
  closers : Direction → Closer
  /-- the writer of a direction is closed -/
  closed : Direction → Bool
  /-- a loop that had ended has raised, and so does `bridge` -/
  failed : Bool

/-- `bridge` has created its tasks; `counts` are what was counted before. -/
def start (counts : Direction → ℕ) : State where
  copies direction := ⟨.created, false, [], [], counts direction⟩
  main := .waiting
  closers _ := .created
  closed _ := false
  failed := false

/-! ### Steps -/

/-- What can happen to a copy loop. -/
inductive Event
  | started
  /-- the read ended with a chunk, which is empty at the end of the input -/
  | received (chunk : List UInt8)
  | readFailed
  /-- the read ended with a chunk, and writing it raised -/
  | writeFailed (chunk : List UInt8)
  | drained
  | drainFailed
  /-- the cancellation arrived -/
  | stopped

/-- The loop has ended, with a result or an error or by the cancellation. -/
def CopyPoint.isEnded : CopyPoint → Bool
  | .ended _ => true
  | _ => false

/-- `copy`, from one `await` to the next; `counting` tells whether there are `counts`. -/
def Copy.step (counting : Bool) (copy : Copy) (event : Event) : Option Copy :=
  if copy.cancelled then
    match event with
    | .stopped =>
        if copy.point.isEnded then none else some { copy with point := .ended .cancelled }
    | _ => none
  else
    match copy.point, event with
    | .created, .started => some { copy with point := .reading }
    | .reading, .received chunk =>
        if chunk = [] then some { copy with point := .ended .returned }
        else if chunk.length ≤ 65536 then
          some { copy with
            point := .draining chunk.length
            read := copy.read ++ chunk
            written := copy.written ++ chunk }
        else none
    | .reading, .readFailed => some { copy with point := .ended .raised }
    | .reading, .writeFailed chunk =>
        if chunk ≠ [] ∧ chunk.length ≤ 65536 then
          some { copy with point := .ended .raised, read := copy.read ++ chunk }
        else none
    | .draining size, .drained =>
        some { copy with
          point := .reading
          count := if counting then copy.count + size else copy.count }
    | .draining _, .drainFailed => some { copy with point := .ended .raised }
    | _, _ => none

/-- `task.cancel()`, which does nothing to a task that has ended. -/
def Copy.cancel (copy : Copy) : Copy :=
  if copy.point.isEnded then copy else { copy with cancelled := true }

/-- What can happen: a loop is resumed, a closing task goes on, or `bridge` does. -/
inductive Action
  /-- a copy loop is resumed -/
  | copy (direction : Direction) (event : Event)
  /-- `bridge` learns that a loop has ended, cancels both and creates the closing tasks -/
  | wake
  /-- a closing task calls `writer.close()` -/
  | close (direction : Direction)
  /-- it has waited for the writer, or given up on that -/
  | closed (direction : Direction)
  /-- both closing tasks are done -/
  | join
  /-- both loops are done -/
  | leave

/-- One step of the bridge; none where the action is not possible. -/
def step (counting : Bool) (s : State) : Action → Option State
  | .copy direction event =>
      ((s.copies direction).step counting event).map
        (fun copy => { s with copies := Function.update s.copies direction copy })
  | .wake =>
      if s.main = .waiting ∧
          ((s.copies .right).point.isEnded ∨ (s.copies .left).point.isEnded) then
        some { s with
          main := .closing
          copies := fun direction => (s.copies direction).cancel
          failed := (s.copies .right).point = .ended .raised ∨
            (s.copies .left).point = .ended .raised }
      else none
  | .close direction =>
      if s.main = .closing ∧ s.closers direction = .created then
        some { s with
          closers := Function.update s.closers direction .waiting
          closed := Function.update s.closed direction true }
      else none
  | .closed direction =>
      if s.main = .closing ∧ s.closers direction = .waiting then
        some { s with closers := Function.update s.closers direction .done }
      else none
  | .join =>
      if s.main = .closing ∧ s.closers .right = .done ∧ s.closers .left = .done then
        some { s with main := .joining }
      else none
  | .leave =>
      if s.main = .joining ∧ (s.copies .right).point.isEnded ∧
          (s.copies .left).point.isEnded then
        some { s with main := .returned }
      else none

/-- A step, as a relation between two states of the bridge. -/
def Step (counting : Bool) (s : State) (action : Action) (s' : State) : Prop :=
  step counting s action = some s'

/-! ### A copy loop -/

/-- What a copy loop keeps; `before` is what was counted when it started. -/
structure Copy.Kept (counting : Bool) (before : ℕ) (copy : Copy) : Prop where
  order : copy.written <+: copy.read
  same : copy.point.isEnded = false → copy.written = copy.read
  count_le : copy.count ≤ before + copy.written.length
  count_eq : counting = true → copy.point = .created ∨ copy.point = .reading →
    copy.count = before + copy.written.length
  count_drain : counting = true → ∀ size, copy.point = .draining size →
    copy.count + size = before + copy.written.length
  count_room : ∀ size, copy.point = .draining size →
    copy.count + size ≤ before + copy.written.length

variable {counting : Bool} {before : ℕ} {copy copy' : Copy}

/-- A loop that has ended keeps what it has read, written and counted. -/
theorem Copy.Kept.of_ended (h : copy.Kept counting before) (outcome : Outcome) :
    ({ copy with point := .ended outcome } : Copy).Kept counting before where
  order := h.order
  same hended := by cases hended
  count_le := h.count_le
  count_eq _ hpoint := by rcases hpoint with hpoint | hpoint <;> cases hpoint
  count_drain _ _ hpoint := by cases hpoint
  count_room _ hpoint := by cases hpoint

/-- What a step of a loop can be. -/
theorem Copy.step_cases {event : Event} (h : copy.step counting event = some copy') :
    (∃ outcome, copy' = { copy with point := .ended outcome } ∧
      copy.point.isEnded = false) ∨
    (copy.cancelled = false ∧ copy.point = .created ∧ copy' = { copy with point := .reading }) ∨
    (copy.cancelled = false ∧ copy.point = .reading ∧ ∃ chunk,
      copy' = { copy with point := .ended .raised, read := copy.read ++ chunk }) ∨
    (copy.cancelled = false ∧ copy.point = .reading ∧ ∃ chunk, copy' = { copy with
      point := .draining chunk.length, read := copy.read ++ chunk,
      written := copy.written ++ chunk }) ∨
    (copy.cancelled = false ∧ ∃ size, copy.point = .draining size ∧ copy' = { copy with
      point := .reading, count := if counting then copy.count + size else copy.count }) := by
  unfold Copy.step at h
  split at h
  -- a cancelled copy can only end
  case isTrue =>
    split at h
    case h_1 =>
      split at h
      case isTrue => cases h
      case isFalse hended =>
        exact .inl ⟨.cancelled, (Option.some.inj h).symm, Bool.eq_false_iff.mpr hended⟩
    case h_2 => cases h
  case isFalse hcancelled =>
    have hcancelled := Bool.eq_false_iff.mpr hcancelled
    split at h
    case h_1 hpoint => exact .inr (.inl ⟨hcancelled, hpoint, (Option.some.inj h).symm⟩)
    case h_2 chunk hpoint =>
      split at h
      -- an empty chunk is the end of the stream
      case isTrue => exact .inl ⟨.returned, (Option.some.inj h).symm, by rw [hpoint]; rfl⟩
      case isFalse =>
        split at h
        case isTrue =>
          exact .inr (.inr (.inr (.inl
            ⟨hcancelled, hpoint, chunk, (Option.some.inj h).symm⟩)))
        case isFalse => cases h
    case h_3 hpoint => exact .inl ⟨.raised, (Option.some.inj h).symm, by rw [hpoint]; rfl⟩
    case h_4 chunk hpoint =>
      split at h
      case isTrue =>
        exact .inr (.inr (.inl ⟨hcancelled, hpoint, chunk, (Option.some.inj h).symm⟩))
      case isFalse => cases h
    case h_5 size hpoint =>
      exact .inr (.inr (.inr (.inr ⟨hcancelled, size, hpoint, (Option.some.inj h).symm⟩)))
    case h_6 hpoint => exact .inl ⟨.raised, (Option.some.inj h).symm, by rw [hpoint]; rfl⟩
    case h_7 => cases h

/-- **One step of a loop** keeps what holds of a loop in a run. -/
theorem Copy.step_kept {event : Event} (h : copy.Kept counting before)
    (hstep : copy.step counting event = some copy') : copy'.Kept counting before := by
  rcases Copy.step_cases hstep with ⟨outcome, rfl, -⟩ | ⟨-, hpoint, rfl⟩ | ⟨-, hpoint, chunk, rfl⟩ |
    ⟨-, hpoint, chunk, rfl⟩ | ⟨-, size, hpoint, rfl⟩
  · exact h.of_ended outcome
  -- the loop is started: nothing is read yet
  · exact {
      order := h.order
      same := fun _ => h.same (by rw [hpoint]; rfl)
      count_le := h.count_le
      count_eq := fun hcounting _ => h.count_eq hcounting (.inl hpoint)
      count_drain := fun _ _ hdraining => by cases hdraining
      count_room := fun _ hdraining => by cases hdraining }
  · -- the chunk was read, but not written
    exact {
      order := h.order.trans (List.prefix_append _ _)
      same := fun hended => by cases hended
      count_le := h.count_le
      count_eq := fun _ hpoint => by rcases hpoint with hpoint | hpoint <;> cases hpoint
      count_drain := fun _ _ hdraining => by cases hdraining
      count_room := fun _ hdraining => by cases hdraining }
  -- the chunk is read and written, and counted once it is drained
  · have hsame := h.same (by rw [hpoint]; rfl)
    have hle := h.count_le
    have hlength : (copy.written ++ chunk).length = copy.written.length + chunk.length :=
      List.length_append
    exact {
      order := by
        show copy.written ++ chunk <+: copy.read ++ chunk
        rw [hsame]
      same := fun _ => by
        show copy.written ++ chunk = copy.read ++ chunk
        rw [hsame]
      count_le := by
        show copy.count ≤ before + (copy.written ++ chunk).length
        omega
      count_eq := fun _ hpoint => by rcases hpoint with hpoint | hpoint <;> cases hpoint
      count_drain := by
        rintro hcounting _ ⟨⟩
        have heq := h.count_eq hcounting (.inr hpoint)
        show copy.count + chunk.length = before + (copy.written ++ chunk).length
        omega
      count_room := by
        rintro _ ⟨⟩
        show copy.count + chunk.length ≤ before + (copy.written ++ chunk).length
        omega }
  -- the chunk has been drained
  · have hroom := h.count_room size hpoint
    exact {
      order := h.order
      same := fun _ => h.same (by rw [hpoint]; rfl)
      count_le := by
        show (if counting then copy.count + size else copy.count) ≤ before + copy.written.length
        split <;> omega
      count_eq := fun hcounting _ => by
        show (if counting then copy.count + size else copy.count) = before + copy.written.length
        rw [if_pos hcounting]
        exact h.count_drain hcounting size hpoint
      count_drain := fun _ _ hdraining => by cases hdraining
      count_room := fun _ hdraining => by cases hdraining }

/-- A step does not change whether a loop is cancelled, and a cancelled loop can only end. -/
theorem Copy.step_frame {event : Event} (hstep : copy.step counting event = some copy') :
    copy'.cancelled = copy.cancelled ∧ copy.point.isEnded = false ∧
      (copy.cancelled = true → copy'.written = copy.written ∧ copy'.point.isEnded = true) := by
  rcases Copy.step_cases hstep with ⟨outcome, rfl, hended⟩ | ⟨hrunning, hpoint, rfl⟩ |
    ⟨hrunning, hpoint, chunk, rfl⟩ | ⟨hrunning, hpoint, chunk, rfl⟩ | ⟨hrunning, size, hpoint, rfl⟩
  · exact ⟨rfl, hended, fun _ => ⟨rfl, rfl⟩⟩
  all_goals
    refine ⟨rfl, by rw [hpoint]; rfl, fun hcancelled => ?_⟩
    rw [hrunning] at hcancelled
    cases hcancelled

/-- A cancellation reaches a loop only when it is resumed, so the loop is where it was. -/
theorem Copy.cancel_point (copy : Copy) : copy.cancel.point = copy.point := by
  unfold Copy.cancel
  split <;> rfl

/-- A loop that has not ended is cancelled from then on. -/
theorem Copy.cancel_cancelled (hended : copy.point.isEnded = false) :
    copy.cancel.cancelled = true := by
  unfold Copy.cancel
  rw [if_neg (by simp [hended])]

/-- A cancellation keeps what is true of the loop. -/
theorem Copy.Kept.cancel (h : copy.Kept counting before) : copy.cancel.Kept counting before := by
  unfold Copy.cancel
  split
  case isTrue => exact h
  case isFalse => exact ⟨h.order, h.same, h.count_le, h.count_eq, h.count_drain, h.count_room⟩

/-! ### The bridge -/

/-- What every step keeps, of the two loops, of the writers, and of the place where `bridge`
    awaits. -/
structure Kept (counting : Bool) (counts : Direction → ℕ) (s : State) : Prop where
  copies : ∀ direction, (s.copies direction).Kept counting (counts direction)
  /-- a loop that has not ended is cancelled as soon as `bridge` has woken up -/
  cancelled : ∀ direction, (s.copies direction).point.isEnded = false →
    ((s.copies direction).cancelled = true ↔ s.main ≠ .waiting)
  closed : ∀ direction, s.closed direction = true ↔ s.closers direction ≠ .created
  closers : s.main = .waiting → ∀ direction, s.closers direction = .created
  done : s.main = .joining ∨ s.main = .returned → ∀ direction, s.closers direction = .done
  ended : s.main = .returned → ∀ direction, (s.copies direction).point.isEnded = true

/-- At the start nothing was read and nothing counted beyond what was there before. -/
theorem start_kept (counting : Bool) (counts : Direction → ℕ) :
    Kept counting counts (start counts) where
  copies direction := {
    order := List.nil_prefix
    same := fun _ => rfl
    count_le := Nat.le_refl _
    count_eq := fun _ _ => rfl
    count_drain := fun _ _ hpoint => by cases hpoint
    count_room := fun _ hpoint => by cases hpoint }
  cancelled direction _ := by simp [start]
  closed direction := by simp [start]
  closers _ direction := rfl
  done hmain := by rcases hmain with hmain | hmain <;> cases hmain
  ended hmain := by cases hmain

variable {counts : Direction → ℕ} {s s' : State}

/-- **One step** of the bridge keeps all of it, whichever task takes it. -/
theorem step_kept {action : Action} (h : Kept counting counts s)
    (hstep : Step counting s action s') : Kept counting counts s' := by
  unfold Step step at hstep
  split at hstep
  case h_1 direction event =>
    -- only this loop changes, and it stays cancelled or not
    obtain ⟨copy, hcopy, rfl⟩ := Option.map_eq_some_iff.mp hstep
    obtain ⟨hcancelled, hended, -⟩ := Copy.step_frame hcopy
    have hkept := Copy.step_kept (h.copies direction) hcopy
    have hcases : ∀ P : Direction → Copy → Prop, P direction copy →
        (∀ other, other ≠ direction → P other (s.copies other)) →
        ∀ other, P other (Function.update s.copies direction copy other) := by
      intro P hsame hothers other
      by_cases heq : other = direction
      · rw [heq, Function.update_self]
        exact hsame
      · rw [Function.update_of_ne heq]
        exact hothers other heq
    exact {
      copies := hcases (fun d c => c.Kept counting (counts d)) hkept fun d _ => h.copies d
      cancelled := hcases (fun _ c => c.point.isEnded = false →
          (c.cancelled = true ↔ s.main ≠ .waiting))
        (fun _ => by rw [hcancelled]; exact h.cancelled direction hended)
        fun d _ => h.cancelled d
      closed := h.closed
      closers := h.closers
      done := h.done
      ended := fun hmain => by
        rw [h.ended hmain direction] at hended
        cases hended }
  case h_2 =>
    split at hstep
    case isFalse => cases hstep
    case isTrue hwake =>
      -- `bridge` wakes up: a loop that has not ended is cancelled now
      obtain rfl := Option.some.inj hstep
      exact {
        copies := fun direction => (h.copies direction).cancel
        cancelled := fun direction hended => by
          have hended : (s.copies direction).point.isEnded = false := by
            rw [← Copy.cancel_point]
            exact hended
          simp [Copy.cancel_cancelled hended]
        closed := h.closed
        closers := fun hmain => by cases hmain
        done := fun hmain => by rcases hmain with hmain | hmain <;> cases hmain
        ended := fun hmain => by cases hmain }
  case h_3 direction =>
    split at hstep
    case isFalse => cases hstep
    case isTrue hclose =>
      obtain rfl := Option.some.inj hstep
      exact {
        copies := h.copies
        cancelled := h.cancelled
        closed := fun other => by
          by_cases heq : other = direction
          · simp [heq]
          · simp only [Function.update_of_ne heq]
            exact h.closed other
        closers := fun hmain => by rw [hclose.1] at hmain; cases hmain
        done := fun hmain => by
          rw [hclose.1] at hmain
          rcases hmain with hmain | hmain <;> cases hmain
        ended := h.ended }
  case h_4 direction =>
    split at hstep
    case isFalse => cases hstep
    case isTrue hclosed =>
      obtain rfl := Option.some.inj hstep
      exact {
        copies := h.copies
        cancelled := h.cancelled
        closed := fun other => by
          by_cases heq : other = direction
          · have hopen := h.closed direction
            simp [heq, hclosed.2] at hopen ⊢
            exact hopen
          · simp only [Function.update_of_ne heq]
            exact h.closed other
        closers := fun hmain => by rw [hclosed.1] at hmain; cases hmain
        done := fun hmain => by
          rw [hclosed.1] at hmain
          rcases hmain with hmain | hmain <;> cases hmain
        ended := h.ended }
  case h_5 =>
    split at hstep
    case isFalse => cases hstep
    case isTrue hjoin =>
      obtain rfl := Option.some.inj hstep
      exact {
        copies := h.copies
        cancelled := fun direction hended => by
          have hrunning := h.cancelled direction hended
          simp [hjoin.1] at hrunning ⊢
          exact hrunning
        closed := h.closed
        closers := fun hmain => by cases hmain
        done := fun _ direction => by
          cases direction with
          | right => exact hjoin.2.1
          | left => exact hjoin.2.2
        ended := fun hmain => by cases hmain }
  case h_6 =>
    split at hstep
    case isFalse => cases hstep
    case isTrue hleave =>
      obtain rfl := Option.some.inj hstep
      exact {
        copies := h.copies
        cancelled := fun direction hended => by
          have hrunning := h.cancelled direction hended
          simp [hleave.1] at hrunning ⊢
          exact hrunning
        closed := h.closed
        closers := fun hmain => by cases hmain
        done := fun _ => h.done (.inl hleave.1)
        ended := fun _ direction => by
          cases direction with
          | right => exact hleave.2.1
          | left => exact hleave.2.2 }

/-! ### After a loop has ended -/

/-- The steps that a cancelled loop has left. -/
def Copy.remaining (copy : Copy) : ℕ := if copy.point.isEnded then 0 else 1

/-- How many steps a closing task has left. -/
def Closer.remaining : Closer → ℕ
  | .created => 2
  | .waiting => 1
  | .done => 0

/-- How many steps `bridge` has left once a loop has ended. -/
def MainPoint.remaining : MainPoint → ℕ
  | .waiting => 0
  | .closing => 2
  | .joining => 1
  | .returned => 0

/-- What is left to do once `bridge` has woken up. -/
def remaining (s : State) : ℕ :=
  (s.copies .right).remaining + (s.copies .left).remaining
    + ((s.closers .right).remaining + (s.closers .left).remaining) + s.main.remaining

/-- There are never more than eight steps left. -/
theorem remaining_le (s : State) : remaining s ≤ 8 := by
  have hcopy : ∀ direction, (s.copies direction).remaining ≤ 1 := by
    intro direction
    unfold Copy.remaining
    split <;> omega
  have hcloser : ∀ closer : Closer, closer.remaining ≤ 2 := by
    intro closer
    cases closer <;> decide
  have hmain : s.main.remaining ≤ 2 := by
    cases s.main <;> decide
  have hright := hcopy .right
  have hleft := hcopy .left
  have hright' := hcloser (s.closers .right)
  have hleft' := hcloser (s.closers .left)
  unfold remaining
  omega

/-- Nothing is written any more, and every step leaves less to do. -/
theorem remaining_lt {action : Action} (h : Kept counting counts s) (hmain : s.main ≠ .waiting)
    (hstep : Step counting s action s') :
    remaining s' < remaining s ∧ s'.main ≠ .waiting ∧
      ∀ direction, (s'.copies direction).written = (s.copies direction).written := by
  unfold Step step at hstep
  split at hstep
  case h_1 direction event =>
    -- the loop was cancelled when `bridge` woke up, so it can only end
    obtain ⟨copy, hcopy, rfl⟩ := Option.map_eq_some_iff.mp hstep
    obtain ⟨-, hended, hcancelled⟩ := Copy.step_frame hcopy
    obtain ⟨hwritten, hended'⟩ := hcancelled ((h.cancelled direction hended).mpr hmain)
    refine ⟨?_, hmain, fun other => ?_⟩
    · cases direction <;> simp [remaining, Copy.remaining, hended, hended']
    · by_cases heq : other = direction
      · rw [heq]
        simpa using hwritten
      · simp [heq]
  case h_2 =>
    split at hstep
    -- `bridge` wakes up once
    case isTrue hwake => exact absurd hwake.1 hmain
    case isFalse => cases hstep
  case h_3 direction =>
    split at hstep
    case isFalse => cases hstep
    case isTrue hclose =>
      obtain rfl := Option.some.inj hstep
      refine ⟨?_, hmain, fun _ => rfl⟩
      cases direction <;> simp [remaining, Closer.remaining, hclose.2]
  case h_4 direction =>
    split at hstep
    case isFalse => cases hstep
    case isTrue hclosed =>
      obtain rfl := Option.some.inj hstep
      refine ⟨?_, hmain, fun _ => rfl⟩
      cases direction <;> simp [remaining, Closer.remaining, hclosed.2]
  case h_5 =>
    split at hstep
    case isFalse => cases hstep
    case isTrue hjoin =>
      obtain rfl := Option.some.inj hstep
      refine ⟨?_, by simp, fun _ => rfl⟩
      simp [remaining, MainPoint.remaining, hjoin.1]
  case h_6 =>
    split at hstep
    case isFalse => cases hstep
    case isTrue hleave =>
      obtain rfl := Option.some.inj hstep
      refine ⟨?_, by simp, fun _ => rfl⟩
      simp [remaining, MainPoint.remaining, hleave.1]

/-- What every step keeps holds along a run. -/
theorem trace_kept {actions : List Action} (h : Kept counting counts s)
    (htrace : Trace (Step counting) s actions s') : Kept counting counts s' :=
  htrace.invariant (I := fun _ s => Kept counting counts s) h
    fun _ _ _ _ _ hkept hstep => step_kept hkept hstep

/-- What is left to do takes that many steps at most. -/
theorem trace_remaining {actions : List Action} (h : Kept counting counts s)
    (hmain : s.main ≠ .waiting) (htrace : Trace (Step counting) s actions s') :
    actions.length + remaining s' ≤ remaining s ∧ s'.main ≠ .waiting ∧
      ∀ direction, (s'.copies direction).written = (s.copies direction).written := by
  induction htrace with
  | nil => exact ⟨by simp, hmain, fun _ => rfl⟩
  | snoc htrace hstep ih =>
    obtain ⟨hle, hmain', hwritten⟩ := ih
    obtain ⟨hlt, hmain'', hwritten'⟩ := remaining_lt (trace_kept h htrace) hmain' hstep
    refine ⟨?_, hmain'', fun direction => (hwritten' direction).trans (hwritten direction)⟩
    rw [List.length_append, List.length_singleton]
    omega

/-- A cancelled loop that has not ended can be resumed. -/
theorem Copy.step_stopped (hcancelled : copy.cancelled = true)
    (hended : copy.point.isEnded = false) : (copy.step counting .stopped).isSome = true := by
  unfold Copy.step
  rw [if_pos hcancelled]
  simp [hended]

/-- Where nothing can happen any more, `bridge` has returned. -/
theorem returned_of_stuck (h : Kept counting counts s) (hmain : s.main ≠ .waiting)
    (hstuck : ∀ action, step counting s action = none) : s.main = .returned := by
  -- a loop that goes on could still be told of its cancellation
  have hended : ∀ direction, (s.copies direction).point.isEnded = true := by
    intro direction
    by_contra hrunning
    have hrunning := Bool.eq_false_iff.mpr hrunning
    have hsome : ((s.copies direction).step counting .stopped).isSome = true :=
      Copy.step_stopped ((h.cancelled direction hrunning).mpr hmain) hrunning
    have hnone : (s.copies direction).step counting .stopped = none :=
      Option.map_eq_none_iff.mp (hstuck (.copy direction .stopped))
    rw [hnone] at hsome
    cases hsome
  cases hpoint : s.main with
  | waiting => exact absurd hpoint hmain
  | returned => rfl
  | joining =>
    have hleave := hstuck .leave
    simp [step, hpoint, hended] at hleave
  | closing =>
    -- a closing task that is not done could go on
    have hcloser : ∀ direction, s.closers direction = .done := by
      intro direction
      cases hclosers : s.closers direction with
      | done => rfl
      | created =>
        have hclose := hstuck (.close direction)
        simp [step, hpoint, hclosers] at hclose
      | waiting =>
        have hclosed := hstuck (.closed direction)
        simp [step, hpoint, hclosers] at hclosed
    have hjoin := hstuck .join
    simp [step, hpoint, hcloser] at hjoin

/-- A loop that has ended is not resumed. -/
theorem Copy.step_ended (hended : copy.point.isEnded = true) (event : Event) :
    copy.step counting event = none := by
  cases hstep : copy.step counting event with
  | none => rfl
  | some copy' =>
    rw [(Copy.step_frame hstep).2.1] at hended
    cases hended

/-- Once `bridge` has returned, nothing happens any more. -/
theorem stuck_of_returned (h : Kept counting counts s) (hmain : s.main = .returned)
    (action : Action) : step counting s action = none := by
  cases action with
  | copy direction event =>
    exact Option.map_eq_none_iff.mpr (Copy.step_ended (h.ended hmain direction) event)
  | wake => simp [step, hmain]
  | close direction => simp [step, hmain]
  | closed direction => simp [step, hmain]
  | join => simp [step, hmain]
  | leave => simp [step, hmain]

/-- A loop has ended exactly if there is an outcome that it ended with. -/
theorem isEnded_iff {point : CopyPoint} :
    point.isEnded = true ↔ ∃ outcome, point = .ended outcome := by
  cases point <;> simp [CopyPoint.isEnded]

/-- **Bridging is faithful.**  What is written is what was read, up to its end; a chunk is counted
    when it has been drained, and never before it was written.  Once a loop has ended, `bridge`
    wakes up, nothing is written any more, and after at most eight steps it has returned, with both
    writers closed and both loops ended. -/
theorem bridge_faithful {actions : List Action}
    (htrace : Trace (Step counting) (start counts) actions s) :
    (∀ direction, (s.copies direction).written <+: (s.copies direction).read ∧
      (s.copies direction).count ≤ counts direction + (s.copies direction).written.length ∧
      (counting = true → (∀ outcome, (s.copies direction).point ≠ .ended outcome) →
        (∀ size, (s.copies direction).point ≠ .draining size) →
        (s.copies direction).count = counts direction + (s.copies direction).written.length)) ∧
    (s.main = .waiting → (∃ direction outcome, (s.copies direction).point = .ended outcome) →
      ∃ s', Step counting s .wake s') ∧
    (s.main ≠ .waiting → ∀ later s', Trace (Step counting) s later s' →
      later.length ≤ 8 ∧
      (∀ direction, (s'.copies direction).written = (s.copies direction).written) ∧
      ((∀ action s'', ¬ Step counting s' action s'') ↔ s'.main = .returned)) ∧
    (s.main = .returned → ∀ direction, s.closed direction = true ∧
      ∃ outcome, (s.copies direction).point = .ended outcome) := by
  have h := trace_kept (start_kept counting counts) htrace
  refine ⟨fun direction => ⟨(h.copies direction).order, (h.copies direction).count_le, ?_⟩, ?_, ?_,
    fun hmain direction => ⟨?_, isEnded_iff.mp (h.ended hmain direction)⟩⟩
  · intro hcounting hended hdraining
    -- a copy that drains, or has ended, may not have counted its last chunk
    refine (h.copies direction).count_eq hcounting ?_
    cases hpoint : (s.copies direction).point with
    | created => exact .inl rfl
    | reading => exact .inr rfl
    | draining size => exact absurd hpoint (hdraining size)
    | ended outcome => exact absurd hpoint (hended outcome)
  · rintro hmain ⟨direction, hended⟩
    -- one copy that has ended is enough to wake the bridge
    have hended := isEnded_iff.mpr hended
    refine ⟨_, if_pos ⟨hmain, ?_⟩⟩
    cases direction with
    | right => exact .inl hended
    | left => exact .inr hended
  · intro hmain later s' hlater
    -- the measure bounds what follows, whatever the order
    obtain ⟨hle, hmain', hwritten⟩ := trace_remaining h hmain hlater
    have h' := trace_kept h hlater
    have hbound := remaining_le s
    refine ⟨by omega, hwritten, ?_, ?_⟩
    · intro hstuck
      refine returned_of_stuck h' hmain' fun action => ?_
      exact Option.eq_none_iff_forall_ne_some.mpr fun s'' => hstuck action s''
    · intro hreturned action s'' hstep
      have hnone : step counting s' action = none := stuck_of_returned h' hreturned action
      rw [Step, hnone] at hstep
      cases hstep
  · rw [h.closed, h.done (.inr hmain)]
    decide

/-- Two bytes go through, the input ends, and `bridge` wakes up. -/
theorem bridge_faithful_two_bytes : ∃ s,
    Trace (Step true) (start fun _ => 0) [.copy .right .started, .copy .right (.received [7, 9]),
      .copy .right .drained, .copy .right (.received []), .wake] s ∧
    (s.copies .right).written = [7, 9] ∧
    ∀ later s', Trace (Step true) s later s' → later.length ≤ 8 ∧
      (s'.copies .right).written = [7, 9] := by
  have htrace : Trace (Step true) (start fun _ => 0) [.copy .right .started,
      .copy .right (.received [7, 9]), .copy .right .drained, .copy .right (.received []),
      .wake] _ :=
    .cons rfl (.cons rfl (.cons rfl (.cons rfl (.cons rfl .nil))))
  refine ⟨_, htrace, rfl, fun later s' hlater => ?_⟩
  obtain ⟨-, -, hafter, -⟩ := bridge_faithful htrace
  obtain ⟨hle, hwritten, -⟩ := hafter (by decide) later s' hlater
  exact ⟨hle, hwritten .right⟩

end ShareCompute.Cluster.Bridge
