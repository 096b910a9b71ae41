import Mathlib.Data.Int.Basic
import ShareCompute.Library.Runs

namespace ShareCompute.Mlx

open ShareCompute.Library

/-!
# The socket thread of the ring backend

`0001-ring-fail-instead-of-hang.patch`, with the rest of the upstream loop as
`tests/socket_thread_failure_test.cpp` has it: the program submits buffers to send and to
receive and waits for their futures; one worker thread moves the bytes of the front task of
each queue over a socket that does not block.

What is done under `queue_mutex_` is one step here.  The loop of `worker` is cut where another
thread can run: before and after each lock, and between the two calls of the socket.

* `SocketThread.step` — a submission, the destructor, or the worker going on to its next point.
* `Event` — what the program and the peer can see of a step.
* `RingGroup` — the guard around a dispatched collective.
-/

/-- The two queues of the thread, one for each direction of its socket. -/
inductive Direction
  | recv
  | send
deriving DecidableEq

/-- `future` is the number of the task's promise; promises are numbered as they are made. -/
structure SocketTask where
  future : ℕ
  buffer : ℕ
  size : ℕ
deriving DecidableEq

/-- How a promise is resolved: with a value, with an exception, or by being destroyed. -/
inductive Resolution
  | value
  | exception (what : String)
  /-- the promise was destroyed with its queue -/
  | broken
deriving DecidableEq

/-- What can be seen of a step: a submission, a transfer, and a future that is resolved. -/
inductive Event
  | submitted (direction : Direction) (future buffer size : ℕ)
  | moved (future buffer count : ℕ)
  | resolved (future : ℕ) (resolution : Resolution)
deriving DecidableEq

/-! ### The two queues -/

/-- `recvs_` with `delete_recv`, or `sends_` with `delete_send`. -/
structure TaskQueue where
  tasks : List SocketTask
  delete : Bool
deriving DecidableEq

namespace TaskQueue

/-- A queue without tasks, nothing of which is to be deleted. -/
def empty : TaskQueue := ⟨[], false⟩

/-- The futures of the tasks that wait, the oldest first. -/
def futures (self : TaskQueue) : List ℕ := self.tasks.map SocketTask.future

/-- A task is put at the end of the queue. -/
def emplaceBack (self : TaskQueue) (task : SocketTask) : TaskQueue :=
  { self with tasks := self.tasks ++ [task] }

/-- The front task is done, if its flag says so. -/
def collect (self : TaskQueue) : TaskQueue × List Event :=
  match self.delete, self.tasks with
  | true, task :: tasks => (⟨tasks, false⟩, [.resolved task.future .value])
  | _, _ => (self, [])

/-- `r` bytes of the front task were moved. -/
def advance (self : TaskQueue) (r : ℕ) : TaskQueue × List Event :=
  match self.tasks with
  | task :: tasks =>
      (⟨{ task with buffer := task.buffer + r, size := task.size - r } :: tasks,
        task.size - r == 0⟩,
       [.moved task.future task.buffer r])
  | [] => (self, [])

/-- Every promise of the queue is resolved, front first, and the queue is cleared. -/
def resolveAll (self : TaskQueue) (resolution : Resolution) : TaskQueue × List Event :=
  ({ self with tasks := [] }, self.futures.map (Event.resolved · resolution))

end TaskQueue

/-! ### The worker -/

/-- Where the worker is, in its loop or behind it. -/
inductive Point
  /-- at the top of the loop -/
  | collecting
  /-- in `condition_.wait` -/
  | waiting
  | receiving
  | sending
  /-- at the test of `error_count` and `peer_closed` -/
  | deciding
  /-- returned because of `stop_` -/
  | stopped
  /-- returned after `fail_all` -/
  | aborted
deriving DecidableEq

/-- What `recv` or `send` of the socket gives back; `again` says that `errno` is `EAGAIN`, which
    it may still be from an earlier call when `r` is 0. -/
structure Transfer where
  r : ℤ
  again : Bool
deriving DecidableEq

/-- The members of a `SocketThread`, and the place where its worker is. -/
structure SocketThread where
  point : Point
  stop : Bool
  recvs : TaskQueue
  sends : TaskQueue
  failure : Option String
  errorCount : ℕ
  peerClosed : Bool
  /-- the number of promises made -/
  submitted : ℕ
  destroyed : Bool
deriving DecidableEq

namespace SocketThread

/-- A thread that was just started: its worker is about to collect, and nothing was submitted. -/
def start : SocketThread := ⟨.collecting, false, .empty, .empty, none, 0, false, 0, false⟩

/-- How many errors in a row the worker bears. -/
def maxErrors : ℕ := 10

/-- The queue of a direction, in which its tasks wait. -/
def queue (self : SocketThread) : Direction → TaskQueue
  | .recv => self.recvs
  | .send => self.sends

/-- The queue of a direction is replaced. -/
def withQueue (self : SocketThread) (direction : Direction) (queue : TaskQueue) : SocketThread :=
  match direction with
  | .recv => { self with recvs := queue }
  | .send => { self with sends := queue }

/-- There is something to send or to receive. -/
def haveTasks (self : SocketThread) : Bool :=
  !(self.sends.tasks.isEmpty && self.recvs.tasks.isEmpty)

/-- `send_impl` and `recv_impl`, which differ in the queue only. -/
def submit (self : SocketThread) (direction : Direction) (buffer size : ℕ) :
    SocketThread × List Event :=
  let future := self.submitted
  let made := { self with submitted := self.submitted + 1 }
  let event := Event.submitted direction future buffer size
  if size = 0 then
    (made, [event, .resolved future .value])
  else
    match self.failure with
    | some failure => (made, [event, .resolved future (.exception failure)])
    | none =>
        (made.withQueue direction ((self.queue direction).emplaceBack ⟨future, buffer, size⟩),
         [event])

/-- `fail_all(reason)`: the failure is recorded, and every promise that waits is resolved with
    it. -/
def failAll (self : SocketThread) (reason : String) : SocketThread × List Event :=
  let what := "[ring] " ++ reason
  let recvs := self.recvs.resolveAll (.exception what)
  let sends := self.sends.resolveAll (.exception what)
  ({ self with failure := some what, recvs := recvs.1, sends := sends.1 }, recvs.2 ++ sends.2)

/-- The locked section at the top of the loop. -/
def collect (self : SocketThread) : SocketThread × List Event :=
  let recvs := self.recvs.collect
  let sends := self.sends.collect
  let self := { self with recvs := recvs.1, sends := sends.1 }
  let point :=
    if self.stop then .stopped else if self.haveTasks then .receiving else .waiting
  ({ self with point := point }, recvs.2 ++ sends.2)

/-- The worker goes on from `condition_.wait`, if its predicate holds. -/
def wake (self : SocketThread) : Option SocketThread :=
  if self.stop then
    some { self with point := .stopped }
  else if self.haveTasks then
    some { self with point := .receiving }
  else
    none

/-- `::recv` for the front of `recvs_`.  It never gives back more than was asked for. -/
def receive (self : SocketThread) (transfer : Transfer) : Option (SocketThread × List Event) :=
  match self.recvs.tasks with
  | [] => none
  | task :: _ =>
      let self := { self with point := .sending }
      if task.size < transfer.r then
        none
      else if 0 < transfer.r then
        let recvs := self.recvs.advance transfer.r.toNat
        some ({ self with recvs := recvs.1, errorCount := 0 }, recvs.2)
      else if transfer.r = 0 then
        some ({ self with peerClosed := true }, [])
      else if transfer.again then
        some (self, [])
      else
        some ({ self with errorCount := self.errorCount + 1 }, [])

/-- `::send` for the front of `sends_`; an `r` of 0 is judged by `errno` like an error. -/
def transmit (self : SocketThread) (transfer : Transfer) : Option (SocketThread × List Event) :=
  match self.sends.tasks with
  | [] => none
  | task :: _ =>
      let self := { self with point := .deciding }
      if task.size < transfer.r then
        none
      else if 0 < transfer.r then
        let sends := self.sends.advance transfer.r.toNat
        some ({ self with sends := sends.1, errorCount := 0 }, sends.2)
      else if transfer.again then
        some (self, [])
      else
        some ({ self with errorCount := self.errorCount + 1 }, [])

/-- The end of one round of the loop. -/
def finishRound (self : SocketThread) : SocketThread × List Event :=
  if maxErrors ≤ self.errorCount ∨ self.peerClosed then
    { self with point := .aborted }.failAll
      (if self.peerClosed then "peer closed the connection" else "too many socket errors")
  else
    ({ self with point := .collecting }, [])

/-- The worker goes on without calling the socket. -/
def work (self : SocketThread) : Option (SocketThread × List Event) :=
  match self.point with
  | .collecting => some self.collect
  | .waiting => self.wake.map (·, [])
  | .receiving =>
      if self.recvs.tasks.isEmpty then some ({ self with point := .sending }, []) else none
  | .sending =>
      if self.sends.tasks.isEmpty then some ({ self with point := .deciding }, []) else none
  | .deciding => some self.finishRound
  | .stopped | .aborted => none

/-- The end of the destructor: the worker was joined, and the members go. -/
def destroy (self : SocketThread) : SocketThread × List Event :=
  let sends := self.sends.resolveAll .broken
  let recvs := self.recvs.resolveAll .broken
  ({ self with sends := sends.1, recvs := recvs.1, destroyed := true }, recvs.2 ++ sends.2)

/-- What can happen to a thread: a submission, a step of the worker, a call of the socket, and its
    end. -/
inductive Action
  | submit (direction : Direction) (buffer size : ℕ)
  | work
  | call (transfer : Transfer)
  /-- the destructor sets `stop_` -/
  | stop
  | destroy
deriving DecidableEq

/-- One step of the thread, with what can be seen of it. -/
def step (self : SocketThread) : Action → Option (SocketThread × List Event)
  | .submit direction buffer size =>
      if self.destroyed then none else some (self.submit direction buffer size)
  | .work => self.work
  | .call transfer =>
      match self.point with
      | .receiving => self.receive transfer
      | .sending => self.transmit transfer
      | _ => none
  | .stop => some ({ self with stop := true }, [])
  | .destroy =>
      if self.stop ∧ self.destroyed = false ∧ (self.point = .stopped ∨ self.point = .aborted) then
        some self.destroy
      else
        none

/-- One step of the program, the destructor or the worker, with what can be seen of it. -/
def Steps (self : SocketThread) (label : Action × List Event) (after : SocketThread) : Prop :=
  self.step label.1 = some (after, label.2)

/-- What was seen of a run: the events of its steps, in their order. -/
def seen (labels : List (Action × List Event)) : List Event := labels.flatMap Prod.snd

end SocketThread

/-! ### The guard of the collectives -/

/-- The failure that `RingGroup` keeps; `ε` stands for the exceptions. -/
structure RingGroup (ε : Type) where
  failure : Option ε

namespace RingGroup

variable {ε : Type}

/-- What a scheduler thread and a caller do with the group: a dispatched task whose body ends
    with `result`, and the check at every entry point. -/
inductive Call (ε : Type)
  | dispatched (result : Except ε Unit)
  | checkHealthy

/-- `run_guarded` after its body ended: nothing is thrown on. -/
def runGuarded (self : RingGroup ε) (result : Except ε Unit) : RingGroup ε × Except ε Unit :=
  match result with
  | .ok () => (self, .ok ())
  | .error exception =>
      match self.failure with
      | none => (⟨some exception⟩, .ok ())
      | some _ => (self, .ok ())

/-- `check_healthy()`: the first failure is thrown again, if there was one. -/
def checkHealthy (self : RingGroup ε) : Except ε Unit :=
  match self.failure with
  | some failure => .error failure
  | none => .ok ()

/-- One call of the guard, with what it returns or throws. -/
def perform (self : RingGroup ε) : Call ε → RingGroup ε × Except ε Unit
  | .dispatched result => self.runGuarded result
  | .checkHealthy => (self, self.checkHealthy)

/-- The guard as a machine, for the laws about whole histories. -/
def machine : Machine (RingGroup ε) (Call ε) (Except ε Unit) := ⟨perform⟩

end RingGroup

end ShareCompute.Mlx
