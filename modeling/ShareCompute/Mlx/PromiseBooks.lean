import Mathlib.Data.List.Infix
import Mathlib.Data.List.Nodup
import Mathlib.Logic.Function.Basic
import ShareCompute.Library.Tiling
import ShareCompute.Mlx.SocketThread

namespace ShareCompute.Mlx

open ShareCompute.Library

/-!
# The books of the socket thread

What the events of a run say about the promises, and two invariants of the queues that every
operation on them keeps.  Nothing here knows the loop of the worker.

* `Books` — the ledger: every promise made is resolved or waits in one of the queues, and is so
  exactly once; what was moved for a queued task reaches from the start of its buffer to where
  the task stands.
* `InOrder` — while nothing has failed, the values so far and the queue, in this order, are the
  submissions of a direction.
-/

namespace SocketThread

/-! ### What the events say -/

/-- The promises that were resolved, in the order in which that happened. -/
def settled (es : List Event) : List ℕ :=
  es.filterMap fun
    | .resolved future _ => some future
    | _ => none

/-- The promises that were resolved with a value, in their order. -/
def valued (es : List Event) : List ℕ :=
  es.filterMap fun
    | .resolved future .value => some future
    | _ => none

/-- The futures handed out, in the order of submission. -/
def submissions (es : List Event) : List ℕ :=
  es.filterMap fun
    | .submitted _ future _ _ => some future
    | _ => none

/-- Those of one direction whose buffer is not empty. -/
def nonEmpty (direction : Direction) (es : List Event) : List ℕ :=
  es.filterMap fun
    | .submitted d future _ size => if d = direction ∧ size ≠ 0 then some future else none
    | _ => none

/-- The values given to submissions of one direction that are not empty. -/
def values (direction : Direction) (es : List Event) : List ℕ :=
  (valued es).filter (· ∈ nonEmpty direction es)

/-- The ranges of memory moved for a future. -/
def ranges (future : ℕ) (es : List Event) : List (ℤ × ℤ) :=
  es.filterMap fun
    | .moved f buffer count => if f = future then some (buffer, buffer + count) else none
    | _ => none

/-- What was settled in two parts of a run was settled in one of them, in this order. -/
@[simp] theorem settled_append (es es' : List Event) :
    settled (es ++ es') = settled es ++ settled es' := List.filterMap_append

/-- The values of two parts of a run are those of the one and then of the other. -/
@[simp] theorem valued_append (es es' : List Event) :
    valued (es ++ es') = valued es ++ valued es' := List.filterMap_append

/-- The submissions of two parts of a run are those of the one and then of the other. -/
@[simp] theorem submissions_append (es es' : List Event) :
    submissions (es ++ es') = submissions es ++ submissions es' := List.filterMap_append

/-- The non-empty submissions of two parts of a run are those of the one and then of the other. -/
@[simp] theorem nonEmpty_append (d : Direction) (es es' : List Event) :
    nonEmpty d (es ++ es') = nonEmpty d es ++ nonEmpty d es' := List.filterMap_append

/-- The ranges moved for a future in two parts of a run are those of the one and then of the
    other. -/
@[simp] theorem ranges_append (f : ℕ) (es es' : List Event) :
    ranges f (es ++ es') = ranges f es ++ ranges f es' := List.filterMap_append

/-- A future is settled exactly if some event resolves it. -/
theorem mem_settled {f : ℕ} {es : List Event} : f ∈ settled es ↔ ∃ r, .resolved f r ∈ es := by
  rw [settled, List.mem_filterMap]
  constructor
  · rintro ⟨e, he, heq⟩
    cases e with
    | resolved future r =>
      cases heq
      exact ⟨r, he⟩
    | submitted | moved => cases heq
  · rintro ⟨r, hr⟩
    exact ⟨_, hr, rfl⟩

/-- A future has a value exactly if some event resolves it with one. -/
theorem mem_valued {f : ℕ} {es : List Event} : f ∈ valued es ↔ .resolved f .value ∈ es := by
  rw [valued, List.mem_filterMap]
  constructor
  · rintro ⟨e, he, heq⟩
    split at heq
    · cases heq
      exact he
    · cases heq
  · intro h
    exact ⟨_, h, rfl⟩

/-- A future was submitted exactly if some event submits it. -/
theorem mem_submissions {f : ℕ} {es : List Event} :
    f ∈ submissions es ↔ ∃ d b size, .submitted d f b size ∈ es := by
  rw [submissions, List.mem_filterMap]
  constructor
  · rintro ⟨e, he, heq⟩
    cases e with
    | submitted d future b size =>
      cases heq
      exact ⟨d, b, size, he⟩
    | resolved | moved => cases heq
  · rintro ⟨d, b, size, h⟩
    exact ⟨_, h, rfl⟩

/-- A non-empty submission is one whose size is not zero. -/
theorem mem_nonEmpty {d : Direction} {f : ℕ} {es : List Event} :
    f ∈ nonEmpty d es ↔ ∃ b size, .submitted d f b size ∈ es ∧ size ≠ 0 := by
  rw [nonEmpty, List.mem_filterMap]
  constructor
  · rintro ⟨e, he, heq⟩
    cases e with
    | submitted d' future b size =>
      simp only [Option.ite_none_right_eq_some, Option.some.injEq] at heq
      obtain ⟨⟨rfl, hsize⟩, rfl⟩ := heq
      exact ⟨b, size, he, hsize⟩
    | resolved | moved => cases heq
  · rintro ⟨b, size, h, hsize⟩
    exact ⟨_, h, if_pos ⟨rfl, hsize⟩⟩

/-- What was moved for a future that appears in no event. -/
theorem ranges_eq_nil {f : ℕ} {es : List Event} (h : ∀ b count, .moved f b count ∉ es) :
    ranges f es = [] := by
  rw [ranges, List.filterMap_eq_nil_iff]
  intro e he
  cases e with
  | moved future b count =>
    by_cases hf : future = f
    · subst hf
      exact absurd he (h b count)
    · exact if_neg hf
  | submitted | resolved => rfl

/-! ### The ledger -/

/-- **The ledger**, for `n` promises made.  Each is resolved or queued, exactly once. -/
structure Books (es : List Event) (queue : Direction → TaskQueue) (n : ℕ) : Prop where
  numbered : submissions es = List.range n
  ledger : ∀ f, (settled es).count f
      + ((queue .recv).futures.count f + (queue .send).futures.count f) = if f < n then 1 else 0
  queued : ∀ d, ∀ task ∈ (queue d).tasks, ∀ (d' : Direction) (b size : ℕ),
    .submitted d' task.future b size ∈ es →
      d' = d ∧ size ≠ 0 ∧ Tiles b task.buffer (ranges task.future es)
        ∧ task.buffer + task.size = b + size
  moved : ∀ f b count, .moved f b count ∈ es → f < n
  whole : ∀ (d : Direction) (f b size : ℕ),
    .submitted d f b size ∈ es → .resolved f .value ∈ es →
      Tiles b (b + size : ℕ) (ranges f es)

namespace Books

variable {es : List Event} {queue : Direction → TaskQueue} {n : ℕ}

/-- Before the first event the books are empty. -/
theorem empty : Books [] (fun _ => .empty) 0 where
  numbered := rfl
  ledger _ := rfl
  queued _ _ hmem := absurd hmem List.not_mem_nil
  moved _ _ _ hmem := absurd hmem List.not_mem_nil
  whole _ _ _ _ hmem := absurd hmem List.not_mem_nil

/-- The futures that were submitted are numbered below the next one. -/
theorem submitted_lt (h : Books es queue n) {d : Direction} {f b size : ℕ}
    (hmem : .submitted d f b size ∈ es) : f < n := by
  have hf : f ∈ submissions es := mem_submissions.mpr ⟨d, b, size, hmem⟩
  rwa [h.numbered, List.mem_range] at hf

/-- Nothing was moved for a future that does not exist yet. -/
theorem ranges_new (h : Books es queue n) : ranges n es = [] :=
  ranges_eq_nil (fun b count hmem => lt_irrefl n (h.moved n b count hmem))

/-- The count of a future over both queues, where one of them is looked at. -/
theorem count_queue_le (queue : Direction → TaskQueue) (d : Direction) (f : ℕ) :
    (queue d).futures.count f
      ≤ (queue .recv).futures.count f + (queue .send).futures.count f := by
  cases d with
  | recv => exact Nat.le_add_right _ _
  | send => exact Nat.le_add_left _ _

/-- A future that is counted in one queue is counted in both together. -/
theorem count_queue_add_le (queue : Direction → TaskQueue) {d d' : Direction} (hd : d' ≠ d)
    (f : ℕ) : (queue d').futures.count f + (queue d).futures.count f
      ≤ (queue .recv).futures.count f + (queue .send).futures.count f := by
  cases d <;> cases d' <;> first | exact absurd rfl hd | omega

/-- The tasks in the queues belong to futures that were submitted. -/
theorem queued_lt (h : Books es queue n) {d : Direction} {task : SocketTask}
    (hmem : task ∈ (queue d).tasks) : task.future < n := by
  have hcount : 0 < (queue d).futures.count task.future :=
    List.count_pos_iff.mpr (List.mem_map_of_mem hmem)
  have hle := count_queue_le queue d task.future
  have hledger := h.ledger task.future
  by_contra hlt
  rw [if_neg hlt] at hledger
  omega

/-- The promise of a queued task is not resolved. -/
theorem not_settled (h : Books es queue n) {d : Direction} {task : SocketTask}
    (hmem : task ∈ (queue d).tasks) : task.future ∉ settled es := by
  intro hsettled
  have hcount : 0 < (queue d).futures.count task.future :=
    List.count_pos_iff.mpr (List.mem_map_of_mem hmem)
  have hle := count_queue_le queue d task.future
  have hpos : 0 < (settled es).count task.future := List.count_pos_iff.mpr hsettled
  have hledger := h.ledger task.future
  split at hledger <;> omega

/-- Only futures that were submitted are settled. -/
theorem settled_lt (h : Books es queue n) {f : ℕ} (hmem : f ∈ settled es) : f < n := by
  have hpos : 0 < (settled es).count f := List.count_pos_iff.mpr hmem
  have hledger := h.ledger f
  by_contra hlt
  rw [if_neg hlt] at hledger
  omega

/-- No future is settled twice, as the books count each of them once. -/
theorem nodup (h : Books es queue n) : (settled es).Nodup := by
  refine List.nodup_iff_count_le_one.mpr fun f => ?_
  have hledger := h.ledger f
  split at hledger <;> omega

/-- A task other than the front one of a queue has another future. -/
theorem ne_front (h : Books es queue n) {d d' : Direction} {task task' : SocketTask}
    {tasks : List SocketTask} (hqueue : (queue d).tasks = task :: tasks)
    (hmem : task' ∈ (Function.update queue d ⟨tasks, false⟩ d').tasks) :
    task'.future ≠ task.future := by
  intro heq
  have hledger := h.ledger task.future
  have hfront : (queue d).futures.count task.future
      = (tasks.map SocketTask.future).count task.future + 1 := by
    rw [TaskQueue.futures, hqueue, List.map_cons, List.count_cons_self]
  -- counted once as the front and once more as the other task
  have hother : 0 < (Function.update queue d ⟨tasks, false⟩ d').futures.count task.future :=
    List.count_pos_iff.mpr (heq ▸ List.mem_map_of_mem hmem)
  rcases eq_or_ne d' d with rfl | hd
  · have hle := count_queue_le queue d' task.future
    rw [Function.update_self] at hother
    change 0 < (tasks.map SocketTask.future).count task.future at hother
    split at hledger <;> omega
  · have hle := count_queue_add_le queue hd task.future
    rw [Function.update_of_ne hd] at hother
    split at hledger <;> omega

/-- A submission that is answered at once. -/
theorem settle (h : Books es queue n) {d : Direction} {b size : ℕ} {r : Resolution}
    (hvalue : r = .value → size = 0) :
    Books (es ++ [.submitted d n b size, .resolved n r]) queue (n + 1) where
  numbered := by
    rw [submissions_append, h.numbered, List.range_succ]
    rfl
  ledger f := by
    have hledger := h.ledger f
    have hsettles : settled [.submitted d n b size, .resolved n r] = [n] := rfl
    rw [settled_append, List.count_append, hsettles, List.count_singleton]
    -- the promise is settled at once, and was not queued before
    by_cases hf : n = f
    · subst hf
      simp at hledger ⊢
      omega
    · have hiff : f < n + 1 ↔ f < n := by omega
      simp only [hiff, beq_eq_false_iff_ne.mpr hf] at hledger ⊢
      simpa using hledger
  queued d' task hmem d'' b' size' hsub := by
    have hlt := h.queued_lt hmem
    have hold : .submitted d'' task.future b' size' ∈ es := by
      simpa [hlt.ne] using hsub
    have hranges : ranges task.future [.submitted d n b size, .resolved n r] = [] := rfl
    rw [ranges_append, hranges, List.append_nil]
    exact h.queued d' task hmem d'' b' size' hold
  moved f b' count hmem := by
    have hold : .moved f b' count ∈ es := by simpa using hmem
    exact Nat.lt_succ_of_lt (h.moved f b' count hold)
  whole d' f b' size' hsub hres := by
    have hranges : ranges f [.submitted d n b size, .resolved n r] = [] := rfl
    rw [ranges_append, hranges, List.append_nil]
    rcases eq_or_ne f n with rfl | hne
    · -- the submission that is answered: with a value only if there is nothing to move
      have hnew : .submitted d' f b' size' ∉ es := fun hmem => lt_irrefl f (h.submitted_lt hmem)
      have hnores : .resolved f .value ∉ es := fun hmem =>
        lt_irrefl f (h.settled_lt (mem_settled.mpr ⟨_, hmem⟩))
      obtain ⟨rfl, rfl, rfl⟩ : d' = d ∧ b' = b ∧ size' = size := by simpa [hnew] using hsub
      have hr : r = .value := by simpa [hnores, eq_comm] using hres
      rw [h.ranges_new, hvalue hr]
      rfl
    · have hold : .submitted d' f b' size' ∈ es := by simpa [hne] using hsub
      have hres : .resolved f .value ∈ es := by simpa [hne] using hres
      exact h.whole d' f b' size' hold hres

/-- A submission that is queued waits behind the others, and its promise is open. -/
theorem enqueue (h : Books es queue n) {d : Direction} {b size : ℕ} (hsize : size ≠ 0) :
    Books (es ++ [.submitted d n b size])
      (Function.update queue d ((queue d).emplaceBack ⟨n, b, size⟩)) (n + 1) where
  numbered := by
    rw [submissions_append, h.numbered, List.range_succ]
    rfl
  ledger f := by
    have hledger := h.ledger f
    have hback : ((queue d).emplaceBack ⟨n, b, size⟩).futures = (queue d).futures ++ [n] := by
      simp [TaskQueue.futures, TaskQueue.emplaceBack]
    have hsettles : settled [.submitted d n b size] = [] := rfl
    have hiff : n ≠ f → (f < n + 1 ↔ f < n) := by omega
    rw [settled_append, hsettles, List.append_nil]
    -- the new promise is in the back of its queue; the others are where they were
    by_cases hf : n = f
    · subst hf
      cases d <;> simp [hback, List.count_append] at hledger ⊢ <;> omega
    · cases d <;> simp [hback, List.count_append, hf, hiff hf] <;> omega
  queued d' task hmem d'' b' size' hsub := by
    have hranges : ranges task.future [.submitted d n b size] = [] := rfl
    rw [ranges_append, hranges, List.append_nil]
    rcases eq_or_ne task.future n with hnew | hne
    · -- the new task
      have hold : ∀ d', task ∉ (queue d').tasks := fun d' hmem =>
        (h.queued_lt hmem).ne hnew
      obtain ⟨rfl, rfl⟩ : d' = d ∧ task = ⟨n, b, size⟩ := by
        rcases eq_or_ne d' d with rfl | hd
        · simpa [TaskQueue.emplaceBack, hold] using hmem
        · rw [Function.update_of_ne hd] at hmem
          exact absurd hmem (hold d')
      have hnosub : .submitted d'' n b' size' ∉ es := fun hmem => lt_irrefl n (h.submitted_lt hmem)
      obtain ⟨rfl, rfl, rfl⟩ : d'' = d' ∧ b' = b ∧ size' = size := by simpa [hnosub] using hsub
      refine ⟨rfl, hsize, ?_, rfl⟩
      rw [h.ranges_new]
      rfl
    · have hold : .submitted d'' task.future b' size' ∈ es := by simpa [hne] using hsub
      have hmem : task ∈ (queue d').tasks := by
        rcases eq_or_ne d' d with rfl | hd
        · have hcases : task ∈ (queue d').tasks ∨ task = ⟨n, b, size⟩ := by
            simpa [TaskQueue.emplaceBack] using hmem
          exact hcases.resolve_right (fun heq => hne (heq ▸ rfl))
        · rwa [Function.update_of_ne hd] at hmem
      exact h.queued d' task hmem d'' b' size' hold
  moved f b' count hmem := by
    have hold : .moved f b' count ∈ es := by simpa using hmem
    exact Nat.lt_succ_of_lt (h.moved f b' count hold)
  whole d' f b' size' hsub hres := by
    have hres : .resolved f .value ∈ es := by simpa using hres
    have hlt : f < n := h.settled_lt (mem_settled.mpr ⟨_, hres⟩)
    have hold : .submitted d' f b' size' ∈ es := by simpa [hlt.ne] using hsub
    have hranges : ranges f [.submitted d n b size] = [] := rfl
    rw [ranges_append, hranges, List.append_nil]
    exact h.whole d' f b' size' hold hres

/-- The front of a queue is resolved, with a value only if nothing of it is left. -/
theorem front (h : Books es queue n) {d : Direction} {task : SocketTask}
    {tasks : List SocketTask} {flag : Bool} {r : Resolution}
    (hqueue : (queue d).tasks = task :: tasks) (hvalue : r = .value → task.size = 0) :
    Books (es ++ [.resolved task.future r]) (Function.update queue d ⟨tasks, flag⟩) n where
  numbered := by
    have hnone : submissions [.resolved task.future r] = [] := rfl
    rw [submissions_append, hnone, List.append_nil, h.numbered]
  ledger f := by
    have hledger := h.ledger f
    have hsettles : settled [.resolved task.future r] = [task.future] := rfl
    have hfront : (queue d).futures = task.future :: tasks.map SocketTask.future := by
      rw [TaskQueue.futures, hqueue, List.map_cons]
    have hrest : (⟨tasks, flag⟩ : TaskQueue).futures = tasks.map SocketTask.future := rfl
    rw [settled_append, List.count_append, hsettles]
    -- it leaves its queue and is settled
    cases d <;> simp only [Function.update_self, Function.update_of_ne, ne_eq, reduceCtorEq,
        not_false_eq_true, hrest, hfront, List.count_cons, List.count_nil] at hledger ⊢ <;> omega
  queued d' task' hmem d'' b size hsub := by
    have hmem' : task' ∈ (queue d').tasks := by
      rcases eq_or_ne d' d with rfl | hd
      · rw [Function.update_self] at hmem
        exact hqueue ▸ List.mem_cons_of_mem _ hmem
      · rwa [Function.update_of_ne hd] at hmem
    have hold : .submitted d'' task'.future b size ∈ es := by simpa using hsub
    have hranges : ranges task'.future [.resolved task.future r] = [] := rfl
    rw [ranges_append, hranges, List.append_nil]
    exact h.queued d' task' hmem' d'' b size hold
  moved f b count hmem := h.moved f b count (by simpa using hmem)
  whole d' f b size hsub hres := by
    have hold : .submitted d' f b size ∈ es := by simpa using hsub
    have hranges : ranges f [.resolved task.future r] = [] := rfl
    rw [ranges_append, hranges, List.append_nil]
    rcases List.mem_append.mp hres with hres | hres
    · exact h.whole d' f b size hold hres
    · -- the front task stands at the end of its buffer
      obtain ⟨rfl, rfl⟩ : f = task.future ∧ .value = r := by simpa using hres
      obtain ⟨-, -, htiles, hend⟩ :=
        h.queued d task (hqueue ▸ List.mem_cons_self ..) d' b size hold
      rwa [← hend, hvalue rfl]

/-- Every promise of a queue is resolved, without a value. -/
theorem resolveAll (h : Books es queue n) (d : Direction) {r : Resolution} (hr : r ≠ .value) :
    Books (es ++ ((queue d).resolveAll r).2)
      (Function.update queue d ((queue d).resolveAll r).1) n := by
  generalize hq : queue d = q
  obtain ⟨tasks, flag⟩ := q
  induction tasks generalizing es queue with
  | nil =>
    have hsame : Function.update queue d ⟨[], flag⟩ = queue := hq ▸ Function.update_eq_self d queue
    simpa [TaskQueue.resolveAll, TaskQueue.futures, hsame] using h
  | cons task tasks ih =>
    have hfront : Books (es ++ [.resolved task.future r])
        (Function.update queue d ⟨tasks, flag⟩) n :=
      h.front (by rw [hq]) (fun heq => absurd heq hr)
    have hrest := ih hfront (Function.update_self ..)
    rw [Function.update_idem] at hrest
    simpa [TaskQueue.resolveAll, TaskQueue.futures] using hrest

/-- The front task is done, if there is one, and is taken off its queue. -/
theorem collect (h : Books es queue n) (d : Direction)
    (hdone : ∀ task ∈ (queue d).tasks.head?, (queue d).delete = true → task.size = 0) :
    Books (es ++ (queue d).collect.2) (Function.update queue d (queue d).collect.1) n := by
  rw [TaskQueue.collect]
  split
  case h_1 task tasks hdelete hqueue =>
    exact h.front hqueue (fun _ => hdone task (by rw [hqueue]; rfl) hdelete)
  case h_2 => rwa [List.append_nil, Function.update_eq_self]

/-- Bytes of the front task are moved. -/
theorem advance (h : Books es queue n) {d : Direction} {task : SocketTask}
    {tasks : List SocketTask} {r : ℕ} (hqueue : (queue d).tasks = task :: tasks)
    (hr : 0 < r) (hle : r ≤ task.size) :
    Books (es ++ ((queue d).advance r).2)
      (Function.update queue d ((queue d).advance r).1) n := by
  -- the front task goes on behind what has been moved
  have hadvance : (queue d).advance r
      = (⟨{ task with buffer := task.buffer + r, size := task.size - r } :: tasks,
          task.size - r == 0⟩, [.moved task.future task.buffer r]) := by
    rw [TaskQueue.advance, hqueue]
  have hfront : task ∈ (queue d).tasks := hqueue ▸ List.mem_cons_self ..
  have hranges : ranges task.future [.moved task.future task.buffer r]
      = [((task.buffer : ℤ), (task.buffer : ℤ) + r)] := by simp [ranges]
  have hothers : ∀ f, f ≠ task.future → ranges f [.moved task.future task.buffer r] = [] :=
    fun f hf => by simp [ranges, hf.symm]
  rw [hadvance]
  constructor
  · have hnone : submissions [.moved task.future task.buffer r] = [] := rfl
    rw [submissions_append, hnone, List.append_nil, h.numbered]
  · intro f
    have hnone : settled [.moved task.future task.buffer r] = [] := rfl
    have hsame : (queue d).futures = task.future :: tasks.map SocketTask.future := by
      rw [TaskQueue.futures, hqueue, List.map_cons]
    have hledger := h.ledger f
    rw [settled_append, hnone, List.append_nil]
    cases d <;> simpa [TaskQueue.futures, hqueue] using hledger
  · intro d' task' hmem d'' b size hsub
    have hold : .submitted d'' task'.future b size ∈ es := by simpa using hsub
    rw [ranges_append]
    by_cases hother : task' ∈ (Function.update queue d ⟨tasks, false⟩ d').tasks
    · have hne := h.ne_front hqueue hother
      have hmem' : task' ∈ (queue d').tasks := by
        rcases eq_or_ne d' d with rfl | hd
        · rw [Function.update_self] at hother
          exact hqueue ▸ List.mem_cons_of_mem _ hother
        · rwa [Function.update_of_ne hd] at hother
      rw [hothers _ hne, List.append_nil]
      exact h.queued d' task' hmem' d'' b size hold
    · -- the task that was moved
      obtain ⟨rfl, rfl⟩ : d' = d ∧
          task' = { task with buffer := task.buffer + r, size := task.size - r } := by
        rcases eq_or_ne d' d with rfl | hd
        · rw [Function.update_self] at hmem hother
          exact ⟨rfl, (List.mem_cons.mp hmem).resolve_right hother⟩
        · rw [Function.update_of_ne hd] at hmem hother
          exact absurd hmem hother
      obtain ⟨hd, hsize, htiles, hend⟩ := h.queued d' task hfront d'' b size hold
      refine ⟨hd, hsize, ?_, ?_⟩
      · rw [hranges]
        push_cast
        exact htiles.snoc (by omega)
      · dsimp only
        omega
  · intro f b count hmem
    rcases List.mem_append.mp hmem with hmem | hmem
    · exact h.moved f b count hmem
    · obtain ⟨rfl, -, -⟩ : f = task.future ∧ b = task.buffer ∧ count = r := by simpa using hmem
      exact h.queued_lt hfront
  · intro d' f b size hsub hres
    have hres : .resolved f .value ∈ es := by simpa using hres
    -- what has a value is not queued any more
    have hne : f ≠ task.future := fun heq =>
      h.not_settled hfront (heq ▸ mem_settled.mpr ⟨_, hres⟩)
    rw [ranges_append, hothers f hne, List.append_nil]
    exact h.whole d' f b size (by simpa using hsub) hres

end Books

/-! ### The order of the values -/

/-- No event gives a value to a submission that is not empty and was made before. -/
theorem values_append {es es' : List Event} {queue : Direction → TaskQueue} {n : ℕ}
    (h : Books es queue n) {d : Direction} (hnew : ∀ f ∈ nonEmpty d es', n ≤ f) :
    values d (es ++ es') = values d es ++ (valued es').filter (· ∈ nonEmpty d (es ++ es')) := by
  have hold : (valued es).filter (· ∈ nonEmpty d (es ++ es')) = values d es := by
    refine List.filter_congr fun f hf => ?_
    have hlt : f < n := h.settled_lt (mem_settled.mpr ⟨_, mem_valued.mp hf⟩)
    have hnot : f ∉ nonEmpty d es' := fun hmem => absurd (hnew f hmem) (not_le.mpr hlt)
    simp [hnot]
  rw [values, valued_append, List.filter_append, hold]

/-- The values of each direction follow its submissions. -/
def Ordered (es : List Event) : Prop := ∀ d, values d es <+: nonEmpty d es

/-- If values come for nothing but empty submissions, those of each direction still follow its
    submissions. -/
theorem Ordered.append {es es' : List Event} {queue : Direction → TaskQueue} {n : ℕ}
    (ho : Ordered es) (h : Books es queue n) (hnew : ∀ d, ∀ f ∈ nonEmpty d es', n ≤ f)
    (hvalued : ∀ d, ∀ f ∈ valued es', f ∉ nonEmpty d (es ++ es')) : Ordered (es ++ es') := by
  intro d
  have hnone : (valued es').filter (· ∈ nonEmpty d (es ++ es')) = [] :=
    List.filter_eq_nil_iff.mpr (fun f hf => by simpa using hvalued d f hf)
  rw [values_append h (hnew d), hnone, List.append_nil, nonEmpty_append]
  exact (ho d).trans (List.prefix_append _ _)

/-- What waits in two queues is resolved without a value. -/
theorem Ordered.resolveAll {es : List Event} {queue : Direction → TaskQueue} {n : ℕ}
    (ho : Ordered es) (h : Books es queue n) (q q' : TaskQueue) {r : Resolution}
    (hr : r ≠ .value) : Ordered (es ++ ((q.resolveAll r).2 ++ (q'.resolveAll r).2)) := by
  have hnone : ∀ q : TaskQueue, ∀ d, nonEmpty d (q.resolveAll r).2 = [] := fun q d => by
    simp [nonEmpty, TaskQueue.resolveAll, List.filterMap_map]
  refine ho.append h (fun d f hf => ?_) (fun d f hf => ?_)
  · simp [hnone] at hf
  · have hmem := mem_valued.mp hf
    simp [TaskQueue.resolveAll, hr] at hmem

/-- **Nothing is overtaken**: with the queue, the values so far are the submissions.  A flag
    stands for a front task that is done. -/
structure InOrder (es : List Event) (queue : Direction → TaskQueue) : Prop where
  order : ∀ d, values d es ++ (queue d).futures = nonEmpty d es
  flagged : ∀ d, (queue d).delete = true →
    ∃ task tasks, (queue d).tasks = task :: tasks ∧ task.size = 0

namespace InOrder

variable {es : List Event} {queue : Direction → TaskQueue} {n : ℕ}

/-- While nothing has failed, the values of a direction come in the order of its submissions. -/
theorem ordered (ho : InOrder es queue) : Ordered es := fun d =>
  ⟨(queue d).futures, ho.order d⟩

/-- An empty submission that is answered at once is in neither list, so the order stays. -/
theorem settle (ho : InOrder es queue) (h : Books es queue n) {d : Direction} {b : ℕ} :
    InOrder (es ++ [.submitted d n b 0, .resolved n .value]) queue where
  order d' := by
    have hnone : nonEmpty d' [.submitted d n b 0, .resolved n .value] = [] := by simp [nonEmpty]
    have hnew : n ∉ nonEmpty d' es := fun hmem => by
      obtain ⟨b', size, hsub, -⟩ := mem_nonEmpty.mp hmem
      exact lt_irrefl n (h.submitted_lt hsub)
    rw [values_append h (by simp [hnone]), nonEmpty_append, hnone, List.append_nil]
    simpa [valued, hnew] using ho.order d'
  flagged := ho.flagged

/-- A submission is put at the end of the queue of its direction. -/
theorem enqueue (ho : InOrder es queue) (h : Books es queue n) {d : Direction} {b size : ℕ}
    (hsize : size ≠ 0) :
    InOrder (es ++ [.submitted d n b size])
      (Function.update queue d ((queue d).emplaceBack ⟨n, b, size⟩)) where
  order d' := by
    have hvalued : valued [.submitted d n b size] = [] := rfl
    have hnew : ∀ f ∈ nonEmpty d' [.submitted d n b size], n ≤ f := fun f hmem => by
      obtain ⟨b', size', hsub, -⟩ := mem_nonEmpty.mp hmem
      simp at hsub
      exact hsub.2.1.ge
    rw [values_append h hnew, hvalued, List.filter_nil, List.append_nil, nonEmpty_append,
      ← ho.order d', List.append_assoc]
    congr 1
    rcases eq_or_ne d' d with rfl | hd
    · simp [nonEmpty, hsize, TaskQueue.futures, TaskQueue.emplaceBack]
    · simp [nonEmpty, hd.symm, Function.update_of_ne hd]
  flagged d' hdelete := by
    rcases eq_or_ne d' d with rfl | hd
    · rw [Function.update_self] at hdelete ⊢
      obtain ⟨task, tasks, hqueue, hdone⟩ := ho.flagged d' hdelete
      exact ⟨task, tasks ++ [⟨n, b, size⟩], by simp [TaskQueue.emplaceBack, hqueue], hdone⟩
    · rw [Function.update_of_ne hd] at hdelete ⊢
      exact ho.flagged d' hdelete

/-- What the worker collects moves from the done tasks to the values, in the order of the queue. -/
theorem collect (ho : InOrder es queue) (h : Books es queue n) (d : Direction) :
    InOrder (es ++ (queue d).collect.2) (Function.update queue d (queue d).collect.1) := by
  rw [TaskQueue.collect]
  split
  case h_2 => rwa [List.append_nil, Function.update_eq_self]
  case h_1 task tasks hdelete hqueue =>
    have hmem : task ∈ (queue d).tasks := hqueue ▸ List.mem_cons_self ..
    have hnone : ∀ d', nonEmpty d' [.resolved task.future .value] = [] := fun _ => rfl
    have hfront : (queue d).futures = task.future :: tasks.map SocketTask.future := by
      rw [TaskQueue.futures, hqueue, List.map_cons]
    have horder := ho.order d
    constructor
    · intro d'
      rw [values_append h (by simp [hnone d']), nonEmpty_append, hnone d', List.append_nil]
      rcases eq_or_ne d' d with rfl | hd
      · rw [← horder, hfront]
        simp [valued, TaskQueue.futures]
      · -- the value belongs to the other direction
        have hout : task.future ∉ nonEmpty d' es := fun hin => by
          obtain ⟨b, size, hsub, -⟩ := mem_nonEmpty.mp hin
          exact hd (h.queued d task hmem d' b size hsub).1
        simpa [valued, hout, Function.update_of_ne hd] using ho.order d'
    · intro d' hdelete'
      rcases eq_or_ne d' d with rfl | hd
      · rw [Function.update_self] at hdelete'
        cases hdelete'
      · rw [Function.update_of_ne hd] at hdelete' ⊢
        exact ho.flagged d' hdelete'

/-- A front task that is moved on stays where it is in the order. -/
theorem advance (ho : InOrder es queue) (h : Books es queue n) {d : Direction}
    {task : SocketTask} {tasks : List SocketTask} {r : ℕ}
    (hqueue : (queue d).tasks = task :: tasks) :
    InOrder (es ++ ((queue d).advance r).2)
      (Function.update queue d ((queue d).advance r).1) := by
  have hadvance : (queue d).advance r
      = (⟨{ task with buffer := task.buffer + r, size := task.size - r } :: tasks,
          task.size - r == 0⟩, [.moved task.future task.buffer r]) := by
    rw [TaskQueue.advance, hqueue]
  have hnone : ∀ d', nonEmpty d' [.moved task.future task.buffer r] = [] := fun _ => rfl
  have hvalued : valued [.moved task.future task.buffer r] = [] := rfl
  rw [hadvance]
  constructor
  · intro d'
    rw [values_append h (by simp [hnone d']), hvalued, List.filter_nil, List.append_nil,
      nonEmpty_append, hnone d', List.append_nil, ← ho.order d']
    rcases eq_or_ne d' d with rfl | hd
    · simp [TaskQueue.futures, hqueue]
    · rw [Function.update_of_ne hd]
  · intro d' hdelete
    rcases eq_or_ne d' d with rfl | hd
    · rw [Function.update_self] at hdelete ⊢
      exact ⟨_, tasks, rfl, by simpa using hdelete⟩
    · rw [Function.update_of_ne hd] at hdelete ⊢
      exact ho.flagged d' hdelete

/-- What `Books.collect` asks of the front tasks. -/
theorem done (ho : InOrder es queue) (d : Direction) :
    ∀ task ∈ (queue d).tasks.head?, (queue d).delete = true → task.size = 0 := by
  intro task hhead hdelete
  obtain ⟨task', tasks, hqueue, hdone⟩ := ho.flagged d hdelete
  rw [hqueue, List.head?_cons, Option.mem_some_iff] at hhead
  rwa [← hhead]

end InOrder

end SocketThread

end ShareCompute.Mlx
