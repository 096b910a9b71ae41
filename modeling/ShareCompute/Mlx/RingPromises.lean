import ShareCompute.Mlx.PromiseBooks

namespace ShareCompute.Mlx

open ShareCompute.Library

/-!
# What the ring promises

* `SocketThread.Promises` — the invariant of the thread: its books are in order, and it is
  `aborted` exactly when it has recorded a failure and cleared its queues.
* `SocketThread.RunLaw` — what follows for the futures, over every run.
* `RingGroup.GuardLaw` — the first failure of a dispatched task is the one that is rethrown.
* `ring_promises` — both, over every interleaving.
-/

namespace SocketThread

/-! ### The thread -/

/-- Replacing the queue of a direction changes the queues at this direction only. -/
theorem queue_withQueue (s : SocketThread) (d : Direction) (q : TaskQueue) :
    (s.withQueue d q).queue = Function.update s.queue d q := by
  funext d'
  cases d <;> cases d' <;> rfl

/-- Both queues are replaced, that of `recvs` first. -/
theorem queue_both (s s' : SocketThread) :
    s'.queue = Function.update (Function.update s.queue .recv s'.recvs) .send s'.sends := by
  funext d
  cases d <;> rfl

/-- When the sends stay, the queues change at most in the receiving direction. -/
theorem queue_recvs {s s' : SocketThread} (hsends : s'.sends = s.sends) :
    s'.queue = Function.update s.queue .recv s'.recvs := by
  funext d
  cases d with
  | recv => rfl
  | send => exact hsends

/-- When the receives stay, the queues change at most in the sending direction. -/
theorem queue_sends {s s' : SocketThread} (hrecvs : s'.recvs = s.recvs) :
    s'.queue = Function.update s.queue .send s'.sends := by
  funext d
  cases d with
  | recv => exact hrecvs
  | send => rfl

/-- Nothing has failed, and the destructor has not ended. -/
structure Working (es : List Event) (s : SocketThread) : Prop where
  books : Books es s.queue s.submitted
  inOrder : InOrder es s.queue
  failure : s.failure = none
  destroyed : s.destroyed = false
  recorded : ∀ f what, .resolved f (.exception what) ∉ es

/-- What holds after every run, of what was seen and of the thread. -/
structure Promises (es : List Event) (s : SocketThread) : Prop where
  books : Books es s.queue s.submitted
  ordered : Ordered es
  working : s.failure = none → s.destroyed = false → Working es s
  aborted : s.point = .aborted ↔ s.failure.isSome
  closed : s.failure.isSome → ∀ d, (s.queue d).tasks = []
  recorded : ∀ f what, .resolved f (.exception what) ∈ es → s.failure = some what
  joined : s.destroyed = true → s.point = .stopped ∨ s.point = .aborted

namespace Working

variable {es : List Event} {s s' : SocketThread}

/-- A thread that was just started is working, and its books are empty. -/
theorem start : Working [] start where
  books := by
    have hqueue : SocketThread.start.queue = fun _ => TaskQueue.empty := by
      funext d
      cases d <;> rfl
    rw [hqueue]
    exact .empty
  inOrder :=
    { order := fun d => by cases d <;> rfl
      flagged := fun d hdelete => by cases d <;> cases hdelete }
  failure := rfl
  destroyed := rfl
  recorded _ _ := List.not_mem_nil

/-- A working thread that is not aborted keeps all promises. -/
theorem promises (h : Working es s) (hpoint : s.point ≠ .aborted) : Promises es s where
  books := h.books
  ordered := h.inOrder.ordered
  working _ _ := h
  aborted := iff_of_false hpoint (by simp [h.failure])
  closed hfailure := by simp [h.failure] at hfailure
  recorded f what hmem := absurd hmem (h.recorded f what)
  joined hdestroyed := by simp [h.destroyed] at hdestroyed

/-- The worker goes on to another point, and its counters may change. -/
theorem go (h : Working es s) (hqueue : s'.queue = s.queue)
    (hsubmitted : s'.submitted = s.submitted)
    (hfailure : s'.failure = s.failure) (hdestroyed : s'.destroyed = s.destroyed) :
    Working es s' where
  books := by rw [hqueue, hsubmitted]; exact h.books
  inOrder := by rw [hqueue]; exact h.inOrder
  failure := hfailure.trans h.failure
  destroyed := hdestroyed.trans h.destroyed
  recorded := h.recorded

/-- Collecting the done tasks of both queues resolves their futures with values, and the thread
    works on. -/
theorem collect (h : Working es s) : Working (es ++ s.collect.2) s.collect.1 where
  books := by
    have hrecv := h.books.collect .recv (h.inOrder.done .recv)
    have hsend := hrecv.collect .send ((h.inOrder.collect h.books .recv).done .send)
    rw [List.append_assoc] at hsend
    rw [queue_both s s.collect.1]
    exact hsend
  inOrder := by
    have hrecv := h.books.collect .recv (h.inOrder.done .recv)
    have hsend := (h.inOrder.collect h.books .recv).collect hrecv .send
    rw [List.append_assoc] at hsend
    rw [queue_both s s.collect.1]
    exact hsend
  failure := h.failure
  destroyed := h.destroyed
  recorded f what hmem := by
    have hnone : ∀ q : TaskQueue, .resolved f (.exception what) ∉ q.collect.2 := fun q => by
      rw [TaskQueue.collect]
      split <;> simp
    rcases List.mem_append.mp hmem with hmem | hmem
    · exact h.recorded f what hmem
    · exact (List.mem_append.mp hmem).elim (hnone _) (hnone _)

/-- Bytes of a front task are moved. -/
theorem advance (h : Working es s) {d : Direction} {task : SocketTask} {tasks : List SocketTask}
    {r : ℕ} (hqueue : (s.queue d).tasks = task :: tasks) (hr : 0 < r) (hle : r ≤ task.size)
    (hafter : s'.queue = Function.update s.queue d ((s.queue d).advance r).1)
    (hsubmitted : s'.submitted = s.submitted) (hfailure : s'.failure = s.failure)
    (hdestroyed : s'.destroyed = s.destroyed) :
    Working (es ++ ((s.queue d).advance r).2) s' where
  books := by rw [hafter, hsubmitted]; exact h.books.advance hqueue hr hle
  inOrder := by rw [hafter]; exact h.inOrder.advance h.books hqueue
  failure := hfailure.trans h.failure
  destroyed := hdestroyed.trans h.destroyed
  recorded f what hmem := by
    rw [TaskQueue.advance, hqueue] at hmem
    exact h.recorded f what (by simpa using hmem)

/-- A non-empty submission waits in its queue. -/
theorem enqueue (h : Working es s) {d : Direction} {b size : ℕ} (hsize : size ≠ 0) :
    Working (es ++ (s.submit d b size).2) (s.submit d b size).1 := by
  have hsubmit : s.submit d b size
      = ({ s with submitted := s.submitted + 1 }.withQueue d
          ((s.queue d).emplaceBack ⟨s.submitted, b, size⟩), [.submitted d s.submitted b size]) := by
    simp [SocketThread.submit, hsize, h.failure]
  rw [hsubmit]
  constructor
  · rw [queue_withQueue]
    have hbooks := h.books.enqueue (d := d) (b := b) hsize
    cases d <;> exact hbooks
  · rw [queue_withQueue]
    exact h.inOrder.enqueue h.books hsize
  · cases d <;> exact h.failure
  · cases d <;> exact h.destroyed
  · intro f what hmem
    exact h.recorded f what (by simpa using hmem)

/-- `fail_all`: every promise that waits is resolved with the failure. -/
theorem failAll (h : Working es s) (hpoint : s.point = .aborted) (reason : String) :
    Promises (es ++ (s.failAll reason).2) (s.failAll reason).1 where
  books := by
    have hvalue : Resolution.exception ("[ring] " ++ reason) ≠ .value := by simp
    have hboth := (h.books.resolveAll .recv hvalue).resolveAll .send hvalue
    rw [List.append_assoc] at hboth
    rw [queue_both s (s.failAll reason).1]
    exact hboth
  ordered := h.inOrder.ordered.resolveAll h.books _ _ (by simp)
  working hfailure := by cases hfailure
  aborted := iff_of_true hpoint rfl
  closed _ d := by cases d <;> rfl
  recorded f what hmem := by
    rcases List.mem_append.mp hmem with hmem | hmem
    · exact absurd hmem (h.recorded f what)
    · have hwhat : "[ring] " ++ reason = what := by
        rcases List.mem_append.mp hmem with hmem | hmem <;>
        · simp [TaskQueue.resolveAll] at hmem
          exact hmem.2
      rw [← hwhat]
      rfl
  joined _ := .inr hpoint

end Working

namespace Promises

variable {es : List Event} {s s' : SocketThread}

/-- A submission, whatever became of the thread before. -/
theorem submit (h : Promises es s) (hdestroyed : s.destroyed = false) (d : Direction)
    (b size : ℕ) : Promises (es ++ (s.submit d b size).2) (s.submit d b size).1 := by
  rcases hfailure : s.failure with _ | failure
  · have hworking := h.working hfailure hdestroyed
    have hpoint : s.point ≠ .aborted := fun hpoint => by simpa [hfailure] using h.aborted.mp hpoint
    rcases eq_or_ne size 0 with rfl | hsize
    -- an empty submission has its value at once
    · have hafter : Working (es ++ [.submitted d s.submitted b 0, .resolved s.submitted .value])
          { s with submitted := s.submitted + 1 } :=
        { books := hworking.books.settle (fun _ => rfl)
          inOrder := hworking.inOrder.settle hworking.books
          failure := hfailure
          destroyed := hdestroyed
          recorded := fun f what hmem => hworking.recorded f what (by simpa using hmem) }
      simpa [SocketThread.submit] using hafter.promises hpoint
    · refine (hworking.enqueue hsize).promises ?_
      rw [SocketThread.submit, if_neg hsize, hfailure]
      cases d <;> exact hpoint
  · -- nothing is queued any more
    have hr : ∃ r, (r = Resolution.value ∧ size = 0 ∨ r = .exception failure ∧ size ≠ 0) ∧
        s.submit d b size = ({ s with submitted := s.submitted + 1 },
          [.submitted d s.submitted b size, .resolved s.submitted r]) := by
      rcases eq_or_ne size 0 with hsize | hsize
      · exact ⟨.value, .inl ⟨rfl, hsize⟩, by simp [SocketThread.submit, hsize]⟩
      · exact ⟨.exception failure, .inr ⟨rfl, hsize⟩, by
          simp [SocketThread.submit, hsize, hfailure]⟩
    obtain ⟨r, hr, hsubmit⟩ := hr
    rw [hsubmit]
    have hnew : ∀ d', ∀ f ∈ nonEmpty d' [.submitted d s.submitted b size,
        .resolved s.submitted r], f = s.submitted ∧ size ≠ 0 := fun d' f hf => by
      obtain ⟨b', size', hsub, hsize⟩ := mem_nonEmpty.mp hf
      simp at hsub
      exact ⟨hsub.2.1, hsub.2.2.2 ▸ hsize⟩
    constructor
    · refine h.books.settle fun hvalue => ?_
      rcases hr with ⟨-, hsize⟩ | ⟨rfl, -⟩
      · exact hsize
      · cases hvalue
    · refine h.ordered.append h.books (fun d' f hf => (hnew d' f hf).1.ge) (fun d' f hf hmem => ?_)
      obtain ⟨rfl, rfl⟩ : f = s.submitted ∧ .value = r := by simpa using mem_valued.mp hf
      rw [nonEmpty_append] at hmem
      rcases List.mem_append.mp hmem with hmem | hmem
      · obtain ⟨b', size', hsub, -⟩ := mem_nonEmpty.mp hmem
        exact lt_irrefl _ (h.books.submitted_lt hsub)
      · rcases hr with ⟨-, hsize⟩ | ⟨heq, -⟩
        · exact (hnew d' _ hmem).2 hsize
        · cases heq
    · intro hf
      simp [hfailure] at hf
    · exact h.aborted
    · exact h.closed
    · intro f what hmem
      rcases List.mem_append.mp hmem with hmem | hmem
      · exact h.recorded f what hmem
      · obtain ⟨-, rfl⟩ : f = s.submitted ∧ .exception what = r := by simpa using hmem
        rcases hr with ⟨heq, -⟩ | ⟨heq, -⟩
        · cases heq
        · cases heq
          exact hfailure
    · exact h.joined

/-- The destructor resolves what still waits as broken promises, after its worker has ended. -/
theorem destroy (h : Promises es s) (hpoint : s.point = .stopped ∨ s.point = .aborted) :
    Promises (es ++ s.destroy.2) s.destroy.1 where
  books := by
    have hboth := (h.books.resolveAll .recv (r := .broken) (by simp)).resolveAll .send
      (r := .broken) (by simp)
    rw [List.append_assoc] at hboth
    rw [queue_both s s.destroy.1]
    exact hboth
  ordered := h.ordered.resolveAll h.books _ _ (by simp)
  working _ hdestroyed := by cases hdestroyed
  aborted := h.aborted
  closed _ d := by cases d <;> rfl
  recorded f what hmem := by
    have hnone : ∀ q : TaskQueue, .resolved f (.exception what) ∉ (q.resolveAll .broken).2 :=
      fun q => by simp [TaskQueue.resolveAll]
    rcases List.mem_append.mp hmem with hmem | hmem
    · exact h.recorded f what hmem
    · exact absurd (List.mem_append.mp hmem) (by simp [hnone])
  joined _ := hpoint

/-- While the worker runs nothing has failed. -/
theorem running (h : Promises es s) (hstopped : s.point ≠ .stopped)
    (haborted : s.point ≠ .aborted) :
    Working es s := by
  have hfailure : s.failure = none := by
    rw [← Option.not_isSome_iff_eq_none, ← h.aborted]
    exact haborted
  refine h.working hfailure (Bool.eq_false_iff.mpr fun hdestroyed => ?_)
  exact (h.joined hdestroyed).elim hstopped haborted

/-- At the end of a round the worker goes on, or gives up and fails everything that waits. -/
theorem finishRound (h : Working es s) :
    Promises (es ++ s.finishRound.2) s.finishRound.1 := by
  rw [SocketThread.finishRound]
  split
  · have haborted : Working es { s with point := .aborted } := h.go rfl rfl rfl rfl
    exact haborted.failAll rfl _
  · rw [List.append_nil]
    exact Working.promises (h.go rfl rfl rfl rfl) (by simp)

/-- The worker goes on without calling the socket. -/
theorem work {events : List Event} (h : Promises es s) (hwork : s.work = some (s', events)) :
    Promises (es ++ events) s' := by
  rw [SocketThread.work] at hwork
  split at hwork
  case h_1 hpoint =>
    cases hwork
    -- the front tasks that are done leave, each with its value
    refine (h.running (by simp [hpoint]) (by simp [hpoint])).collect.promises ?_
    simp only [SocketThread.collect]
    split_ifs <;> simp
  case h_2 hpoint =>
    have hworking := h.running (by simp [hpoint]) (by simp [hpoint])
    -- the thread wakes up, and no promise moves
    obtain ⟨t, hwake, heq⟩ := Option.map_eq_some_iff.mp hwork
    cases heq
    rw [SocketThread.wake] at hwake
    rw [List.append_nil]
    split at hwake
    · cases hwake
      exact Working.promises (hworking.go rfl rfl rfl rfl) (by simp)
    · split at hwake <;> cases hwake
      exact Working.promises (hworking.go rfl rfl rfl rfl) (by simp)
  case h_3 hpoint =>
    have hworking := h.running (by simp [hpoint]) (by simp [hpoint])
    split at hwork <;> cases hwork
    rw [List.append_nil]
    exact Working.promises (hworking.go rfl rfl rfl rfl) (by simp)
  case h_4 hpoint =>
    have hworking := h.running (by simp [hpoint]) (by simp [hpoint])
    split at hwork <;> cases hwork
    rw [List.append_nil]
    exact Working.promises (hworking.go rfl rfl rfl rfl) (by simp)
  case h_5 hpoint =>
    -- the end of a round, with a failure or without one
    have hround := finishRound (h.running (by simp [hpoint]) (by simp [hpoint]))
    rwa [Option.some.inj hwork] at hround
  case h_6 => cases hwork
  case h_7 => cases hwork

/-- A call of the socket for the front of a queue, with bytes moved. -/
theorem call {transfer : Transfer} {events : List Event} (h : Promises es s)
    (hstep : s.step (.call transfer) = some (s', events)) : Promises (es ++ events) s' := by
  rw [SocketThread.step] at hstep
  split at hstep
  case h_1 hpoint =>
    have hworking := h.running (by simp [hpoint]) (by simp [hpoint])
    rw [SocketThread.receive] at hstep
    split at hstep
    case h_1 => cases hstep
    -- bytes of the front task are moved, or nothing happens that the books would tell
    case h_2 task tasks hqueue =>
      split at hstep
      case isTrue => cases hstep
      case isFalse hle =>
        split_ifs at hstep with hr hzero hagain
        · cases hstep
          exact Working.promises (hworking.advance (d := .recv) hqueue (by omega) (by omega)
            (queue_recvs rfl) rfl rfl rfl) (by simp)
        all_goals
          cases hstep
          rw [List.append_nil]
          exact Working.promises (hworking.go rfl rfl rfl rfl) (by simp)
  case h_2 hpoint =>
    have hworking := h.running (by simp [hpoint]) (by simp [hpoint])
    rw [SocketThread.transmit] at hstep
    split at hstep
    case h_1 => cases hstep
    case h_2 task tasks hqueue =>
      split at hstep
      case isTrue => cases hstep
      case isFalse hle =>
        split_ifs at hstep with hr hagain
        · cases hstep
          exact Working.promises (hworking.advance (d := .send) hqueue (by omega) (by omega)
            (queue_sends rfl) rfl rfl rfl) (by simp)
        all_goals
          cases hstep
          rw [List.append_nil]
          exact Working.promises (hworking.go rfl rfl rfl rfl) (by simp)
  case h_3 => cases hstep

/-- **One step** of the worker or of a caller keeps the promises. -/
theorem step {label : Action × List Event} (h : Promises es s) (hs : Steps s label s') :
    Promises (es ++ label.2) s' := by
  obtain ⟨action, events⟩ := label
  change s.step action = some (s', events) at hs
  cases action with
  | submit d b size =>
    rw [SocketThread.step] at hs
    split at hs
    case isTrue => cases hs
    case isFalse hdestroyed =>
      have hsubmit := h.submit (by simpa using hdestroyed) d b size
      rwa [Option.some.inj hs] at hsubmit
  | work => exact h.work hs
  | call transfer => exact h.call hs
  | stop =>
    obtain ⟨rfl, rfl⟩ := Prod.mk.inj (Option.some.inj hs)
    rw [List.append_nil]
    exact ⟨h.books, h.ordered,
      fun hf hd => Working.go (h.working hf hd) rfl rfl rfl rfl,
      h.aborted, h.closed, h.recorded, h.joined⟩
  | destroy =>
    rw [SocketThread.step] at hs
    split at hs
    case isTrue hwhen =>
      have hdestroy := h.destroy hwhen.2.2
      rwa [Option.some.inj hs] at hdestroy
    case isFalse => cases hs

/-- **Every run**: whatever is submitted when, and whatever the socket does. -/
theorem run {labels : List (Action × List Event)} (h : Trace Steps SocketThread.start labels s) :
    Promises (seen labels) s := by
  refine h.invariant (I := fun labels s => Promises (seen labels) s)
    (Working.start.promises (by simp [SocketThread.start])) ?_
  intro labels s label s' _ hpromises hs
  have hseen : seen (labels ++ [label]) = seen labels ++ label.2 := by simp [seen]
  rw [hseen]
  exact hpromises.step hs

end Promises

/-! ### Submissions that are answered at once -/

/-- `send_impl` and `recv_impl` return before they take the lock when there is nothing to move:
    the future has its value, and the queues are what they were. -/
theorem answered_step {s s' : SocketThread} {d : Direction} {b : ℕ} {events : List Event}
    (hs : Steps s (.submit d b 0, events) s') :
    ∃ f, events = [.submitted d f b 0, .resolved f .value] ∧ s'.queue = s.queue := by
  change s.step (.submit d b 0) = some (s', events) at hs
  rw [SocketThread.step] at hs
  split at hs
  case isTrue => cases hs
  case isFalse =>
    rw [SocketThread.submit, if_pos rfl] at hs
    obtain ⟨rfl, rfl⟩ := Prod.mk.inj (Option.some.inj hs)
    refine ⟨_, rfl, ?_⟩
    funext d'
    cases d' <;> rfl

/-! ### After the worker gave up -/

/-- A submission is failed with `what` at once. -/
def Refused (what : String) (label : Action × List Event) : Prop :=
  ∀ d b size, label.1 = .submit d b size → size ≠ 0 →
    ∃ f, label.2 = [.submitted d f b size, .resolved f (.exception what)]

/-- After the worker gave up a step of anyone changes neither the place nor the failure, and refuses
    what is submitted. -/
theorem refused_step {s s' : SocketThread} {what : String} {label : Action × List Event}
    (hpoint : s.point = .aborted) (hfailure : s.failure = some what) (hs : Steps s label s') :
    s'.point = .aborted ∧ s'.failure = some what ∧ Refused what label := by
  obtain ⟨action, events⟩ := label
  change s.step action = some (s', events) at hs
  cases action with
  | submit d b size =>
    rw [SocketThread.step] at hs
    split at hs
    case isTrue => cases hs
    case isFalse =>
      by_cases hsize : size = 0
      · rw [SocketThread.submit, if_pos hsize] at hs
        obtain ⟨rfl, rfl⟩ := Prod.mk.inj (Option.some.inj hs)
        refine ⟨hpoint, hfailure, fun d' b' size' heq hne => ?_⟩
        cases heq
        exact absurd hsize hne
      · rw [SocketThread.submit, if_neg hsize, hfailure] at hs
        obtain ⟨rfl, rfl⟩ := Prod.mk.inj (Option.some.inj hs)
        refine ⟨hpoint, rfl, fun d' b' size' heq _ => ?_⟩
        cases heq
        exact ⟨_, rfl⟩
  | work => simp [SocketThread.step, SocketThread.work, hpoint] at hs
  | call transfer => simp [SocketThread.step, hpoint] at hs
  | stop =>
    obtain ⟨rfl, rfl⟩ := Prod.mk.inj (Option.some.inj hs)
    exact ⟨hpoint, hfailure, fun d b size heq => by cases heq⟩
  | destroy =>
    rw [SocketThread.step] at hs
    split at hs <;> cases hs
    exact ⟨hpoint, hfailure, fun d b size heq => by cases heq⟩

/-- Nothing is queued again, and the failure stays the recorded one. -/
theorem refused_run {s s' : SocketThread} {what : String} {labels : List (Action × List Event)}
    (hpoint : s.point = .aborted) (hfailure : s.failure = some what)
    (h : Trace Steps s labels s') :
    s'.point = .aborted ∧ s'.failure = some what ∧ ∀ label ∈ labels, Refused what label := by
  refine h.invariant (I := fun labels s' => s'.point = .aborted ∧ s'.failure = some what ∧
    ∀ label ∈ labels, Refused what label) ⟨hpoint, hfailure, by simp⟩ ?_
  rintro labels t label t' - ⟨htpoint, htfailure, hrefused⟩ hs
  obtain ⟨hpoint', hfailure', hlabel⟩ := refused_step htpoint htfailure hs
  refine ⟨hpoint', hfailure', fun other hmem => ?_⟩
  rcases List.mem_append.mp hmem with hmem | hmem
  · exact hrefused other hmem
  · rwa [List.mem_singleton.mp hmem]

/-- What the thread promises of a run that led to `s`. -/
structure RunLaw (es : List Event) (s : SocketThread) : Prop where
  /-- no future is resolved twice -/
  once : (settled es).Nodup
  /-- a value means that the whole buffer was moved, from its start to its end -/
  moved : ∀ (d : Direction) (f b size : ℕ), .submitted d f b size ∈ es →
    .resolved f .value ∈ es → Tiles b (b + size : ℕ) (ranges f es)
  /-- the values of a direction come in the order of its submissions, and skip none -/
  order : ∀ d, values d es <+: nonEmpty d es
  /-- an empty submission has its value at once, whatever is queued before it -/
  empty : ∀ d b events s', Steps s (.submit d b 0, events) s' →
    ∃ f, events = [.submitted d f b 0, .resolved f .value] ∧ s'.queue = s.queue
  /-- when the worker gave up, everything is resolved, and so is what comes later -/
  gaveUp : s.point = .aborted → ∃ what, s.failure = some what
    ∧ (∀ f ∈ submissions es, f ∈ settled es)
    ∧ ∀ later s', Trace Steps s later s' →
        s'.failure = some what ∧ ∀ label ∈ later, Refused what label

/-- What the thread promises follows from the invariant. -/
theorem Promises.runLaw {es : List Event} {s : SocketThread} (h : Promises es s) :
    RunLaw es s where
  once := h.books.nodup
  moved := h.books.whole
  order := h.ordered
  empty _ _ _ _ := answered_step
  gaveUp hpoint := by
    obtain ⟨what, hfailure⟩ := Option.isSome_iff_exists.mp (h.aborted.mp hpoint)
    refine ⟨what, hfailure, fun f hf => ?_, fun later s' hlater =>
      (refused_run hpoint hfailure hlater).2⟩
    have hempty : ∀ d, (s.queue d).futures = [] := fun d => by
      rw [TaskQueue.futures, h.closed (h.aborted.mp hpoint) d, List.map_nil]
    have hlt : f < s.submitted := by rwa [h.books.numbered, List.mem_range] at hf
    have hledger := h.books.ledger f
    rw [hempty, hempty, if_pos hlt] at hledger
    exact List.count_pos_iff.mp (by simp at hledger; omega)

end SocketThread

/-! ### The guard -/

namespace RingGroup

variable {ε : Type}

/-- What the body of a dispatched task threw. -/
def Call.thrown : Call ε → Option ε
  | .dispatched (.error exception) => some exception
  | _ => none

/-- The first failure that a dispatched task has thrown, if there was one. -/
def firstFailure (calls : List (Call ε)) : Option ε := calls.findSome? Call.thrown

/-- The failure that is kept is the first one. -/
theorem exec_failure (calls : List (Call ε)) (failure : Option ε) :
    (machine.exec ⟨failure⟩ calls).failure = failure.or (firstFailure calls) := by
  induction calls generalizing failure with
  | nil => cases failure <;> rfl
  | cons call calls ih =>
    rcases call with (exception | _) | _
    · cases failure with
      | none => exact (ih (some exception)).trans rfl
      | some first => exact (ih (some first)).trans rfl
    · cases failure <;> exact ih _
    · cases failure <;> exact ih _

/-- Nothing is thrown out of a dispatched task. -/
theorem runGuarded_ok (self : RingGroup ε) (result : Except ε Unit) :
    (self.runGuarded result).2 = .ok () := by
  obtain ⟨failure⟩ := self
  rcases result with exception | _
  · cases failure <;> rfl
  · rfl

/-- What the guard promises of the calls made of a new group. -/
structure GuardLaw (calls : List (Call ε)) : Prop where
  contained : ∀ entry ∈ machine.history ⟨none⟩ calls, ∀ result,
    entry.call = .dispatched result → entry.returned = .ok ()
  /-- every check throws what was thrown first before it -/
  rethrown : ∀ before after, calls = before ++ .checkHealthy :: after →
    ∀ failure, firstFailure before = some failure →
      ((machine.exec ⟨none⟩ before).perform .checkHealthy).2 = .error failure
  healthy : ∀ before after, calls = before ++ .checkHealthy :: after →
    firstFailure before = none →
      ((machine.exec ⟨none⟩ before).perform .checkHealthy).2 = .ok ()

/-- The guard keeps its promises for every order of calls. -/
theorem guardLaw (calls : List (Call ε)) : GuardLaw calls where
  contained entry hentry result hcall := by
    obtain ⟨before, call, after, -, rfl⟩ := machine.mem_history.mp hentry
    obtain rfl : call = .dispatched result := hcall
    exact runGuarded_ok _ result
  rethrown before after _ failure hfirst := by
    have hfailure := exec_failure before none
    rw [Option.none_or, hfirst] at hfailure
    show checkHealthy _ = _
    rw [checkHealthy, hfailure]
  healthy before after _ hfirst := by
    have hfailure := exec_failure before none
    rw [Option.none_or, hfirst] at hfailure
    show checkHealthy _ = _
    rw [checkHealthy, hfailure]

end RingGroup

section

open SocketThread

/-- **What the ring promises**, over every interleaving of submissions, worker and socket, and
    over every order of dispatched tasks and checks. -/
theorem ring_promises {ε : Type} {labels : List (Action × List Event)} {s : SocketThread}
    (h : Trace Steps start labels s) (calls : List (RingGroup.Call ε)) :
    RunLaw (seen labels) s ∧ RingGroup.GuardLaw calls :=
  ⟨(Promises.run h).runLaw, RingGroup.guardLaw calls⟩

/-- The peer closes in the very round that completes a send: both futures fail. -/
theorem ring_promises_closing_round : ∃ labels s, Trace Steps start labels s ∧
    s.point = .aborted ∧ settled (seen labels) = [0, 1] ∧ valued (seen labels) = [] ∧
    RunLaw (seen labels) s ∧
    RingGroup.GuardLaw [.dispatched (.error "first"), .dispatched (.error "second"),
      .checkHealthy] := by
  have hrun : Trace.perform step start [.submit .recv 0 8, .submit .send 8 4, .work,
    .call ⟨0, true⟩, .call ⟨4, false⟩, .work] = some _ := rfl
  have h : Trace Steps start _ _ := Trace.of_perform hrun
  exact ⟨_, _, h, rfl, by decide +kernel, by decide +kernel, ring_promises h _⟩

/-- The futures submitted in one direction, with the empty ones. -/
def inDirection (direction : Direction) (es : List Event) : List ℕ :=
  es.filterMap fun
    | .submitted d future _ _ => if d = direction then some future else none
    | _ => none

/-- An empty submission is answered before an earlier one that still waits. -/
theorem empty_submission_overtakes : ¬ ∀ labels s, Trace Steps start labels s →
    ∀ d, ((valued (seen labels)).filter (· ∈ inDirection d (seen labels))).Sublist
      (inDirection d (seen labels)) := by
  intro h
  have hrun : Trace.perform step start [.submit .recv 0 4, .submit .recv 4 0, .work,
    .call ⟨4, false⟩, .work, .work, .work] = some _ := rfl
  exact absurd (h _ _ (Trace.of_perform hrun) .recv) (by decide +kernel)

end

end ShareCompute.Mlx
