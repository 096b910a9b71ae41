import ShareCompute.Cluster.Protocol
import ShareCompute.Library.Dictionary
import ShareCompute.Library.Runs

namespace ShareCompute.Cluster

open ShareCompute.Library

/-!
# The relay

`split_cluster.py`, class `Relay`.  Workers connect to it from outside; for each of them it
listens on a local port, and a local connection is bridged to a data connection that the
worker opens on request.

`accept` and `forward` are coroutines, of which any number run at once.  They give way to one
another only where they await, so a handler is kept here as the place where it awaits, and one
step takes one handler from there to the next place.  Which handler moves, and whether what
it awaits succeeds, is the choice of the environment.  Of `uuid.uuid4` it is assumed that no
two channels get the same name.

* `Relay.step` — one step, with the event it makes visible.
* `Move` — what a step can do to the relay, and `move_of_step`, that it can do nothing else.
-/

/-! ### State -/

/-- The record of a worker, which its control connection has made and keeps up. -/
structure Record where
  /-- the control connection -/
  writer : ℕ
  hello : Dict
  peer : String
  stats : Stats
  statsAt : Option ℚ
  bytes : ℕ × ℕ

/-- Where `accept` awaits, with the local variables that it still needs. -/
inductive AcceptPoint
  /-- `await receive(reader)`, the first message -/
  | receiving
  /-- `await asyncio.start_server(...)` -/
  | starting (node : String)
  /-- `await send(writer, {'ok': True})` of a control connection -/
  | joining (node : String)
  /-- `await receive(reader)`, a heartbeat -/
  | listening (node : String)
  /-- `await send(writer, {'ok': True})` of a data connection -/
  | acknowledging (node channel : String) (future : ℕ)
  /-- `await completed.wait()`, and whether `completed` is set -/
  | waiting (completed : Bool)
  /-- `await close(writer)` -/
  | closing
  | closed
deriving DecidableEq

/-- A running `accept`: its connection and where it awaits. -/
structure Handler where
  plain : Bool
  peer : String
  hello : Option Dict
  point : AcceptPoint

/-- The future that `forward` awaits and a data connection completes. -/
inductive Future
  | pending
  | result (connection : ℕ)
  | cancelled
deriving DecidableEq

/-- Where `forward` awaits, with the local variables that it still needs. -/
inductive ForwardPoint
  /-- `await send(..., {'op': 'open', ...})` -/
  | opening
  /-- `await asyncio.wait_for(future, 10)` -/
  | waiting
  /-- `await bridge(...)` -/
  | bridging (remote : ℕ)
  /-- `await close(writer)` -/
  | closing
  | closed
deriving DecidableEq

/-- A running `forward`.  Futures are named by the `forward` that made them. -/
structure Forward where
  node : String
  channel : String
  future : Future
  point : ForwardPoint
deriving DecidableEq

/-- The fields of a `Relay`, and of each coroutine that has not ended the place where it awaits. -/
structure Relay where
  nodes : Dictionary String Record
  pending : Dictionary (String × String) ℕ
  handlers : ℕ → Option Handler
  forwards : ℕ → Option Forward
  /-- what `uuid.uuid4` has returned so far -/
  issued : List String
  failure : Bool
  closing : Bool

/-- What the environment can do: make connections, let them speak, and let tasks go on or be
    cancelled. -/
inductive Action
  /-- a connection from outside; `plain` tells the loopback listener from the TLS one -/
  | connect (connection : ℕ) (plain : Bool) (peer : String)
  | inbound (connection : ℕ) (inbound : Inbound) (now : ℚ)
  /-- what `accept` awaits, other than a message, succeeds or raises -/
  | proceed (connection : ℕ) (ok : Bool)
  | cancel (connection : ℕ)
  /-- a connection to the local port of `node`; `channel` is the new `uuid4().hex` -/
  | connectLocal (forward : ℕ) (node channel : String)
  /-- what `forward` awaits succeeds or raises, by a timeout for instance -/
  | proceedForward (forward : ℕ) (ok : Bool)
  | cancelForward (forward : ℕ)
  /-- a bridge has copied a chunk: towards the worker, or back -/
  | copied (forward : ℕ) (toWorker : Bool) (size : ℕ)
  | stop
deriving DecidableEq

/-- What a step makes visible to the rest of the run. -/
inductive Effect
  /-- `self.nodes[node] = record` -/
  | recordCreated (node : String) (connection : ℕ)
  /-- `pending.set_result(...)` -/
  | bound (node channel : String) (connection : ℕ)
  /-- `bridge(...)` is entered -/
  | bridged (node channel : String) (connection : ℕ)
deriving DecidableEq

namespace Relay

/-- A relay that nobody has connected to yet. -/
def init : Relay where
  nodes := ∅
  pending := ∅
  handlers := fun _ => none
  forwards := fun _ => none
  issued := []
  failure := false
  closing := false

/-- The coroutine of a connection has moved to another place. -/
def setHandler (self : Relay) (connection : ℕ) (handler : Handler) : Relay :=
  { self with handlers := Function.update self.handlers connection (some handler) }

/-- The coroutine of a local connection has moved to another place. -/
def setForward (self : Relay) (forward : ℕ) (frame : Forward) : Relay :=
  { self with forwards := Function.update self.forwards forward (some frame) }

/-- Change the record of a node, if there is one. -/
def modifyRecord (self : Relay) (node : String) (f : Record → Record) : Relay :=
  match self.nodes.lookup node with
  | none => self
  | some record => { self with nodes := self.nodes.insert node (f record) }

/-- `fail(reason)`: the relay has failed, unless it is being closed. -/
def fail (self : Relay) : Relay := { self with failure := self.failure || !self.closing }

/-! ### `accept` -/

/-- `pending.done()`: the future of a forward has a result or was cancelled. -/
def done (self : Relay) (future : ℕ) : Bool :=
  match self.forwards future with
  | some frame => decide (frame.future ≠ .pending)
  | none => true

/-- What a first message that is let in asks for. -/
inductive Admission
  | control (node : String)
  | data (node channel : String) (future : ℕ)

/-- The checks between the first message and the next `await`. -/
def examine (config : Config) (self : Relay) (plain : Bool) (hello : Dict) :
    Except String Admission :=
  match authenticate config hello with
  | .error text => .error text
  | .ok (node, pair) =>
      if (hello.get "kind").isStr "control" then
        if plain then .error "Control connections require TLS"
        else if node ∈ self.nodes then .error "Duplicate worker"
        else if !(hello.get "runtime").isStr config.rev ||
            !(hello.get "budget_mib").isInt pair.budgetMib then
          .error "Runtime or memory budget mismatch"
        else .ok (.control node)
      else if (hello.get "kind").isStr "data" then
        match hello.get "channel" with
        | .str channel =>
            match self.pending.lookup (node, channel) with
            | none => .error "Unsolicited data channel"
            | some future =>
                if self.done future then .error "Unsolicited data channel"
                else .ok (.data node channel future)
        | _ => .error "Invalid channel"
      else .error "Unknown connection kind"

/-- The record of a worker that has just joined. -/
def newRecord (connection : ℕ) (handler : Handler) (hello : Dict) : Record where
  writer := connection
  hello := hello
  peer := handler.peer
  stats := .zero
  statsAt := none
  bytes := (0, 0)

/-- `accept` leaves through its exception handler; `control` tells whether the worker had
    joined. -/
def leave (self : Relay) (connection : ℕ) (handler : Handler) (control : Bool) : Relay :=
  (if control then self.fail else self).setHandler connection { handler with point := .closing }

/-- `accept`, from the first message on, up to what it awaits next. -/
def greet (config : Config) (loads : List UInt8 → Option Json) (self : Relay) (connection : ℕ)
    (handler : Handler) (inbound : Inbound) : Relay × Option Effect :=
  match receive loads inbound with
  | .error _ => (self.leave connection handler false, none)
  | .ok hello =>
      let handler := { handler with hello := some hello }
      match self.examine config handler.plain hello with
      | .error _ => (self.leave connection handler false, none)
      | .ok (.control node) =>
          -- the record is there before its port is, so no local connection can miss it
          ({ self with
              nodes := self.nodes.insert node (newRecord connection handler hello) }.setHandler
            connection { handler with point := .starting node },
            some (.recordCreated node connection))
      | .ok (.data node channel future) =>
          (self.setHandler connection
            { handler with point := .acknowledging node channel future }, none)

/-- `accept`, from a heartbeat on, up to the next one. -/
def hear (loads : List UInt8 → Option Json) (self : Relay) (connection : ℕ) (handler : Handler)
    (node : String) (inbound : Inbound) (now : ℚ) : Relay :=
  match (receive loads inbound).bind telemetry with
  | .error _ => self.leave connection handler true
  | .ok stats =>
      self.modifyRecord node (fun record => { record with stats := stats, statsAt := some now })

/-- `accept`, from what else it awaits on. -/
def proceed (self : Relay) (connection : ℕ) (handler : Handler) (ok : Bool) :
    Option (Relay × Option Effect) :=
  match handler.point, ok with
  | .starting node, true =>
      some (self.setHandler connection { handler with point := .joining node }, none)
  | .joining node, true =>
      some (self.setHandler connection { handler with point := .listening node }, none)
  | .starting _, false | .joining _, false => some (self.leave connection handler true, none)
  | .acknowledging node channel future, true =>
      match self.forwards future with
      | none => none
      | some frame =>
          -- the future was pending before the acknowledgement was sent, and need not be now
          if frame.future = .pending then
            some ((self.setForward future { frame with future := .result connection }).setHandler
              connection { handler with point := .waiting false },
              some (.bound node channel connection))
          else
            -- `set_result` raises on a future that is done
            some (self.leave connection handler false, none)
  | .acknowledging _ _ _, false => some (self.leave connection handler false, none)
  | .waiting true, true =>
      -- only `completed.set()` wakes a data connection
      some (self.setHandler connection { handler with point := .closing }, none)
  | .closing, _ => some (self.setHandler connection { handler with point := .closed }, none)
  | _, _ => none

/-! ### `forward` -/

/-- The number of entries that are pending for a node. -/
def pendingCount (self : Relay) (node : String) : ℕ :=
  self.pending.keys.countP (fun key => decide (key.1 = node))

/-- `forward`, up to its first `await`: the channel is issued, and offered unless four are
    pending. -/
def openChannel (self : Relay) (forward : ℕ) (node channel : String) : Relay :=
  let self := { self with issued := channel :: self.issued }
  if 4 ≤ self.pendingCount node then
    -- `RuntimeError('Worker channel limit')`; there is no entry to remove and no future
    self.fail.setForward forward ⟨node, channel, .cancelled, .closing⟩
  else
    { self with pending := self.pending.insert (node, channel) forward }.setForward
      forward ⟨node, channel, .pending, .opening⟩

/-- `completed.set()`, which lets the handler go on that waits for it. -/
def complete (self : Relay) (connection : ℕ) : Relay :=
  match self.handlers connection with
  | some handler =>
      if handler.point = .waiting false then
        self.setHandler connection { handler with point := .waiting true }
      else self
  | none => self

/-- The `finally` of `forward`, up to its `await`. -/
def finish (self : Relay) (forward : ℕ) (frame : Forward) : Relay :=
  let self := { self with pending := self.pending.erase (frame.node, frame.channel) }
  let self :=
    match frame.point with
    | .bridging remote => self.complete remote
    -- `completed` is bound only when `wait_for` has returned
    | _ => self
  self.setForward forward { frame with point := .closing }

/-- A task that awaits a future cancels it when it is interrupted. -/
def interrupted (frame : Forward) : Forward :=
  if frame.point = .waiting ∧ frame.future = .pending then { frame with future := .cancelled }
  else frame

/-- `forward`, from what it awaits on, which has succeeded or raised. -/
def proceedForward (self : Relay) (forward : ℕ) (frame : Forward) (ok : Bool) :
    Option (Relay × Option Effect) :=
  match frame.point, ok with
  | .opening, true => some (self.setForward forward { frame with point := .waiting }, none)
  -- nobody awaits the future yet, so it is not cancelled and may still be completed
  | .opening, false => some (self.fail.finish forward frame, none)
  | .waiting, true =>
      -- `wait_for` returns what the future was completed with
      match frame.future with
      | .result remote =>
          some (self.setForward forward { frame with point := .bridging remote },
            some (.bridged frame.node frame.channel remote))
      | _ => none
  | .waiting, false => some (self.fail.finish forward (interrupted frame), none)
  | .bridging _, true => some (self.finish forward frame, none)
  | .bridging _, false => some (self.fail.finish forward frame, none)
  | .closing, _ => some (self.setForward forward { frame with point := .closed }, none)
  | .closed, _ => none

/-! ### Steps -/

/-- One step of the relay, with what it makes visible; `none` where the action is not possible. -/
def step (config : Config) (loads : List UInt8 → Option Json) (self : Relay) :
    Action → Option (Relay × Option Effect)
  | .connect connection plain peer =>
      match self.handlers connection with
      | some _ => none
      | none => some (self.setHandler connection ⟨plain, peer, none, .receiving⟩, none)
  | .inbound connection inbound now =>
      match self.handlers connection with
      | none => none
      | some handler =>
          match handler.point with
          | .receiving => some (self.greet config loads connection handler inbound)
          | .listening node => some (self.hear loads connection handler node inbound now, none)
          | _ => none
  | .proceed connection ok =>
      match self.handlers connection with
      | none => none
      | some handler => self.proceed connection handler ok
  | .cancel connection =>
      match self.handlers connection with
      | none => none
      | some handler =>
          -- `CancelledError` is raised again, so it reports no failure
          if handler.point = .closing ∨ handler.point = .closed then none
          else some (self.leave connection handler false, none)
  | .connectLocal forward node channel =>
      match self.forwards forward with
      | some _ => none
      | none =>
          -- the port opens while `start_server` is awaited, so after the record is there;
          -- `uuid4` never repeats itself
          if node ∈ self.nodes ∧ channel ∉ self.issued then
            some (self.openChannel forward node channel, none)
          else none
  | .proceedForward forward ok =>
      match self.forwards forward with
      | none => none
      | some frame => self.proceedForward forward frame ok
  | .cancelForward forward =>
      match self.forwards forward with
      | none => none
      | some frame =>
          if frame.point = .closing ∨ frame.point = .closed then none
          else some (self.finish forward (interrupted frame), none)
  | .copied forward toWorker size =>
      match self.forwards forward with
      | none => none
      | some frame =>
          match frame.point with
          | .bridging _ =>
              some (self.modifyRecord frame.node (fun record =>
                { record with
                  bytes := if toWorker then (record.bytes.1 + size, record.bytes.2)
                    else (record.bytes.1, record.bytes.2 + size) }), none)
          | _ => none
  | .stop => some ({ self with closing := true }, none)

/-! ### What a step can do -/

/-- The handler that was set is found again, and the others are what they were. -/
@[simp] theorem setHandler_handlers (self : Relay) (c : ℕ) (handler : Handler) :
    (self.setHandler c handler).handlers = Function.update self.handlers c (some handler) := rfl
/-- Setting a handler moves no forward, since the two are kept apart. -/
@[simp] theorem setHandler_forwards (self : Relay) (c : ℕ) (handler : Handler) :
    (self.setHandler c handler).forwards = self.forwards := rfl
/-- Setting a handler leaves the records of the nodes as they were. -/
@[simp] theorem setHandler_nodes (self : Relay) (c : ℕ) (handler : Handler) :
    (self.setHandler c handler).nodes = self.nodes := rfl
/-- Setting a handler leaves the channels that are waited for as they were. -/
@[simp] theorem setHandler_pending (self : Relay) (c : ℕ) (handler : Handler) :
    (self.setHandler c handler).pending = self.pending := rfl
/-- Setting a handler issues no channel name. -/
@[simp] theorem setHandler_issued (self : Relay) (c : ℕ) (handler : Handler) :
    (self.setHandler c handler).issued = self.issued := rfl

/-- Setting a forward moves no handler, since the two are kept apart. -/
@[simp] theorem setForward_handlers (self : Relay) (f : ℕ) (frame : Forward) :
    (self.setForward f frame).handlers = self.handlers := rfl
/-- The forward that was set is found again, and the others are what they were. -/
@[simp] theorem setForward_forwards (self : Relay) (f : ℕ) (frame : Forward) :
    (self.setForward f frame).forwards = Function.update self.forwards f (some frame) := rfl
/-- Setting a forward leaves the records of the nodes as they were. -/
@[simp] theorem setForward_nodes (self : Relay) (f : ℕ) (frame : Forward) :
    (self.setForward f frame).nodes = self.nodes := rfl
/-- Setting a forward leaves the channels that are waited for as they were. -/
@[simp] theorem setForward_pending (self : Relay) (f : ℕ) (frame : Forward) :
    (self.setForward f frame).pending = self.pending := rfl
/-- Setting a forward issues no channel name. -/
@[simp] theorem setForward_issued (self : Relay) (f : ℕ) (frame : Forward) :
    (self.setForward f frame).issued = self.issued := rfl

/-- To change the record of a node moves no handler, whether or not the node is known. -/
@[simp] theorem modifyRecord_handlers (self : Relay) (node : String) (f : Record → Record) :
    (self.modifyRecord node f).handlers = self.handlers := by unfold modifyRecord; split <;> rfl
/-- To change the record of a node moves no forward. -/
@[simp] theorem modifyRecord_forwards (self : Relay) (node : String) (f : Record → Record) :
    (self.modifyRecord node f).forwards = self.forwards := by unfold modifyRecord; split <;> rfl
/-- To change the record of a node leaves the channels that are waited for. -/
@[simp] theorem modifyRecord_pending (self : Relay) (node : String) (f : Record → Record) :
    (self.modifyRecord node f).pending = self.pending := by unfold modifyRecord; split <;> rfl
/-- To change the record of a node issues no channel name. -/
@[simp] theorem modifyRecord_issued (self : Relay) (node : String) (f : Record → Record) :
    (self.modifyRecord node f).issued = self.issued := by unfold modifyRecord; split <;> rfl

/-- The records after one of them was changed. -/
theorem lookup_modifyRecord (self : Relay) (node node' : String) (f : Record → Record) :
    (self.modifyRecord node f).nodes.lookup node' =
      if node' = node then (self.nodes.lookup node').map f else self.nodes.lookup node' := by
  unfold modifyRecord
  by_cases h : node' = node
  · subst h
    rw [if_pos rfl]
    split
    · rename_i hnone
      rw [hnone, Option.map_none]
    · rename_i record hrecord
      rw [hrecord, Option.map_some, AList.lookup_insert]
  · rw [if_neg h]
    split
    · rfl
    · exact AList.lookup_insert_ne h

/-- Completing a data connection leaves the records of the nodes as they were. -/
@[simp] theorem complete_nodes (self : Relay) (c : ℕ) : (self.complete c).nodes = self.nodes := by
  unfold complete; split <;> [split <;> rfl; rfl]
/-- Completing a data connection leaves the waiting channels; the forward takes its own out when it
    goes on. -/
@[simp] theorem complete_pending (self : Relay) (c : ℕ) :
    (self.complete c).pending = self.pending := by
  unfold complete; split <;> [split <;> rfl; rfl]
/-- Completing a data connection moves no forward yet. -/
@[simp] theorem complete_forwards (self : Relay) (c : ℕ) :
    (self.complete c).forwards = self.forwards := by
  unfold complete; split <;> [split <;> rfl; rfl]
/-- Completing a data connection issues no channel name. -/
@[simp] theorem complete_issued (self : Relay) (c : ℕ) :
    (self.complete c).issued = self.issued := by
  unfold complete; split <;> [split <;> rfl; rfl]

/-- A forward that ends leaves the records of the nodes as they were. -/
@[simp] theorem finish_nodes (self : Relay) (f : ℕ) (frame : Forward) :
    (self.finish f frame).nodes = self.nodes := by
  unfold finish; split <;> simp
/-- A forward that ends takes its own channel out of those that are waited for. -/
@[simp] theorem finish_pending (self : Relay) (f : ℕ) (frame : Forward) :
    (self.finish f frame).pending = self.pending.erase (frame.node, frame.channel) := by
  unfold finish; split <;> simp
/-- A forward that ends goes on to close its connection, and the others are where they were. -/
@[simp] theorem finish_forwards (self : Relay) (f : ℕ) (frame : Forward) :
    (self.finish f frame).forwards =
      Function.update self.forwards f (some { frame with point := .closing }) := by
  unfold finish; split <;> simp
/-- A forward that ends issues no channel name. -/
@[simp] theorem finish_issued (self : Relay) (f : ℕ) (frame : Forward) :
    (self.finish f frame).issued = self.issued := by
  unfold finish; split <;> simp

/-- A forward that is interrupted still belongs to its node. -/
@[simp] theorem interrupted_node (frame : Forward) : (interrupted frame).node = frame.node := by
  unfold interrupted; split <;> rfl
/-- A forward that is interrupted keeps the name of its channel. -/
@[simp] theorem interrupted_channel (frame : Forward) :
    (interrupted frame).channel = frame.channel := by
  unfold interrupted; split <;> rfl
/-- A forward that is interrupted is where it was; it only finds its future failed when it goes
    on. -/
@[simp] theorem interrupted_point (frame : Forward) : (interrupted frame).point = frame.point := by
  unfold interrupted; split <;> rfl

/-- Only a forward that waits for its future is touched by an interruption. -/
theorem interrupted_of_point {frame : Forward} (h : frame.point ≠ .waiting) :
    interrupted frame = frame := by
  unfold interrupted
  rw [if_neg (fun hand => h hand.1)]

/-- What one step can do: which handler moves, from where, and what it leaves behind. -/
inductive Move (config : Config) (loads : List UInt8 → Option Json) (s : Relay) :
    Action → Relay → Option Effect → Prop
  | connect {c : ℕ} {plain : Bool} {peer : String} (h : s.handlers c = none) :
      Move config loads s (.connect c plain peer)
        (s.setHandler c ⟨plain, peer, none, .receiving⟩) none
  /-- `accept` moves on and nothing that is shared changes -/
  | advance {a : Action} {c : ℕ} {handler handler' : Handler} (failure : Bool)
      (h : s.handlers c = some handler) (hplain : handler'.plain = handler.plain)
      (hpeer : handler'.peer = handler.peer)
      (hquiet : ∀ node channel f, handler'.point ≠ .acknowledging node channel f) :
      Move config loads s a ({ s with failure := failure }.setHandler c handler') none
  | join {c : ℕ} {handler : Handler} {node : String} {hello : Dict} {inbound : Inbound} {now : ℚ}
      (h : s.handlers c = some handler) (hpoint : handler.point = .receiving)
      (hreceive : receive loads inbound = .ok hello)
      (hexamine : s.examine config handler.plain hello = .ok (.control node)) :
      Move config loads s (.inbound c inbound now)
        ({ s with
            nodes := s.nodes.insert node
              (newRecord c { handler with hello := some hello } hello) }.setHandler c
          { handler with hello := some hello, point := .starting node })
        (some (.recordCreated node c))
  | solicit {c f : ℕ} {handler : Handler} {node channel : String} {hello : Dict}
      {inbound : Inbound} {now : ℚ}
      (h : s.handlers c = some handler) (hpoint : handler.point = .receiving)
      (hreceive : receive loads inbound = .ok hello)
      (hexamine : s.examine config handler.plain hello = .ok (.data node channel f)) :
      Move config loads s (.inbound c inbound now)
        (s.setHandler c
          { handler with hello := some hello, point := .acknowledging node channel f }) none
  | report {c : ℕ} {handler : Handler} {node : String} {message : Dict} {stats : Stats}
      {inbound : Inbound} {now : ℚ}
      (h : s.handlers c = some handler) (hpoint : handler.point = .listening node)
      (hreceive : receive loads inbound = .ok message)
      (hstats : telemetry message = .ok stats) :
      Move config loads s (.inbound c inbound now)
        (s.modifyRecord node (fun record => { record with stats := stats, statsAt := some now }))
        none
  | bind {c f : ℕ} {handler : Handler} {node channel : String} {frame : Forward}
      (h : s.handlers c = some handler) (hpoint : handler.point = .acknowledging node channel f)
      (hframe : s.forwards f = some frame) (hpending : frame.future = .pending) :
      Move config loads s (.proceed c true)
        ((s.setForward f { frame with future := .result c }).setHandler c
          { handler with point := .waiting false })
        (some (.bound node channel c))
  | refuse {f : ℕ} {node channel : String} (h : s.forwards f = none)
      (hnode : node ∈ s.nodes) (hfresh : channel ∉ s.issued) :
      Move config loads s (.connectLocal f node channel)
        ({ s with issued := channel :: s.issued }.fail.setForward f
          ⟨node, channel, .cancelled, .closing⟩) none
  | openChannel {f : ℕ} {node channel : String} (h : s.forwards f = none)
      (hnode : node ∈ s.nodes) (hfresh : channel ∉ s.issued) (hroom : s.pendingCount node < 4) :
      Move config loads s (.connectLocal f node channel)
        ({ s with
            issued := channel :: s.issued
            pending := s.pending.insert (node, channel) f }.setForward f
          ⟨node, channel, .pending, .opening⟩) none
  | advanceForward {a : Action} {f : ℕ} {frame : Forward} {point : ForwardPoint}
      (h : s.forwards f = some frame)
      (hpoint : (frame.point = .opening ∧ point = .waiting) ∨
        (frame.point = .closing ∧ point = .closed)) :
      Move config loads s a (s.setForward f { frame with point := point }) none
  | bridge {f remote : ℕ} {frame : Forward} (h : s.forwards f = some frame)
      (hpoint : frame.point = .waiting) (hresult : frame.future = .result remote) :
      Move config loads s (.proceedForward f true)
        (s.setForward f { frame with point := .bridging remote })
        (some (.bridged frame.node frame.channel remote))
  /-- `forward` leaves, by its `return` or with an exception -/
  | finish {a : Action} {f : ℕ} {frame : Forward} (failure : Bool)
      (h : s.forwards f = some frame) :
      Move config loads s a ({ s with failure := failure }.finish f (interrupted frame)) none
  | copied {f size : ℕ} {frame : Forward} {toWorker : Bool} (change : ℕ × ℕ → ℕ × ℕ)
      (h : s.forwards f = some frame) :
      Move config loads s (.copied f toWorker size)
        (s.modifyRecord frame.node (fun record => { record with bytes := change record.bytes }))
        none
  | stop : Move config loads s .stop { s with closing := true } none

variable {config : Config} {loads : List UInt8 → Option Json} {s s' : Relay}

/-- A handler that leaves only moves on. -/
theorem Move.leave {a : Action} {c : ℕ} {handler handler' : Handler} {control : Bool}
    (h : s.handlers c = some handler) (hplain : handler'.plain = handler.plain)
    (hpeer : handler'.peer = handler.peer) :
    Move config loads s a (s.leave c handler' control) none := by
  have hmove : Move config loads s a ({ s with failure := if control then
      s.failure || !s.closing else s.failure }.setHandler c
        { handler' with point := .closing }) none :=
    .advance _ h hplain hpeer (by simp)
  cases control <;> exact hmove

/-- The first line of a connection leads to one of the listed moves, whatever it holds. -/
theorem move_greet {c : ℕ} {handler : Handler} {inbound : Inbound} {now : ℚ}
    (h : s.handlers c = some handler) (hpoint : handler.point = .receiving) :
    Move config loads s (.inbound c inbound now) (s.greet config loads c handler inbound).1
      (s.greet config loads c handler inbound).2 := by
  unfold greet
  split
  · exact .leave h rfl rfl
  case h_2 hello hreceive =>
    dsimp only
    split
    · exact .leave h rfl rfl
    · exact .join h hpoint hreceive ‹_›
    · exact .solicit h hpoint hreceive ‹_›

/-- A later line of a control connection leads to one of the listed moves. -/
theorem move_hear {c : ℕ} {handler : Handler} {node : String} {inbound : Inbound} {now : ℚ}
    (h : s.handlers c = some handler) (hpoint : handler.point = .listening node) :
    Move config loads s (.inbound c inbound now) (s.hear loads c handler node inbound now)
      none := by
  unfold hear
  split
  · exact .leave h rfl rfl
  case h_2 stats hstats =>
    cases hreceive : receive loads inbound with
    | error text => simp [hreceive, Except.bind] at hstats
    | ok message =>
      rw [hreceive] at hstats
      exact .report h hpoint hreceive hstats

/-- What a handler awaited has succeeded or failed, and the step is one of the listed moves. -/
theorem move_proceed {c : ℕ} {handler : Handler} {ok : Bool} {e : Option Effect}
    (h : s.handlers c = some handler) (hstep : s.proceed c handler ok = some (s', e)) :
    Move config loads s (.proceed c ok) s' e := by
  unfold proceed at hstep
  split at hstep
  case h_5 node channel f hpoint =>
    -- the future may have been completed while the acknowledgement was sent
    split at hstep
    · simp at hstep
    case h_2 frame hframe =>
      split at hstep
      case isTrue hpending =>
        obtain ⟨rfl, rfl⟩ := Prod.mk.inj (Option.some.inj hstep)
        exact .bind h hpoint hframe hpending
      case isFalse =>
        obtain ⟨rfl, rfl⟩ := Prod.mk.inj (Option.some.inj hstep)
        exact .leave h rfl rfl
  case h_9 => simp at hstep
  all_goals
    obtain ⟨rfl, rfl⟩ := Prod.mk.inj (Option.some.inj hstep)
    first
    | exact .leave h rfl rfl
    | exact .advance s.failure h rfl rfl (by simp)

/-- What a forward awaited has succeeded or failed, and the step is one of the listed moves. -/
theorem move_proceedForward {f : ℕ} {frame : Forward} {ok : Bool} {e : Option Effect}
    (h : s.forwards f = some frame) (hstep : s.proceedForward f frame ok = some (s', e)) :
    Move config loads s (.proceedForward f ok) s' e := by
  have hfinish : ∀ failure : Bool, frame.point ≠ .waiting →
      Move config loads s (.proceedForward f ok)
        ({ s with failure := failure }.finish f frame) none := by
    intro failure hpoint
    have hmove : Move config loads s (.proceedForward f ok)
        ({ s with failure := failure }.finish f (interrupted frame)) none := .finish _ h
    rwa [interrupted_of_point hpoint] at hmove
  unfold proceedForward at hstep
  split at hstep
  case h_3 hpoint =>
    split at hstep
    case h_1 remote hresult =>
      obtain ⟨rfl, rfl⟩ := Prod.mk.inj (Option.some.inj hstep)
      exact .bridge h hpoint hresult
    case h_2 => simp at hstep
  case h_8 => simp at hstep
  all_goals
    obtain ⟨rfl, rfl⟩ := Prod.mk.inj (Option.some.inj hstep)
  case h_1 hpoint => exact .advanceForward h (.inl ⟨hpoint, rfl⟩)
  case h_2 hpoint => exact hfinish _ (by simp [hpoint])
  case h_4 hpoint => exact .finish _ h
  case h_5 hpoint => exact hfinish s.failure (by simp [hpoint])
  case h_6 hpoint => exact hfinish _ (by simp [hpoint])
  case h_7 hpoint => exact .advanceForward h (.inr ⟨hpoint, rfl⟩)

/-- A step does one of these things. -/
theorem move_of_step {a : Action} {e : Option Effect}
    (h : s.step config loads a = some (s', e)) : Move config loads s a s' e := by
  cases a with
  | connect c plain peer =>
    simp only [step] at h
    split at h
    · simp at h
    · obtain ⟨rfl, rfl⟩ := Prod.mk.inj (Option.some.inj h)
      exact .connect ‹_›
  | inbound c inbound now =>
    simp only [step] at h
    split at h
    · simp at h
    · split at h
      · -- the first message of a connection
        rename_i handler hhandler _ hpoint
        have hmove : Move config loads s (.inbound c inbound now) _ _ := move_greet hhandler hpoint
        rwa [Option.some.inj h] at hmove
      · -- a message of a node that has joined
        obtain ⟨rfl, rfl⟩ := Prod.mk.inj (Option.some.inj h)
        exact move_hear ‹_› ‹_›
      · simp at h
  | proceed c ok =>
    simp only [step] at h
    split at h
    · simp at h
    · exact move_proceed ‹_› h
  | cancel c =>
    simp only [step] at h
    split at h
    · simp at h
    · split at h
      · simp at h
      · obtain ⟨rfl, rfl⟩ := Prod.mk.inj (Option.some.inj h)
        exact .leave ‹_› rfl rfl
  | connectLocal f node channel =>
    simp only [step] at h
    split at h
    · simp at h
    · split at h
      · rename_i hnone hguard
        obtain ⟨rfl, rfl⟩ := Prod.mk.inj (Option.some.inj h)
        -- no more than the limit are open at a time
        unfold openChannel
        dsimp only
        split
        · exact .refuse hnone hguard.1 hguard.2
        · rename_i hroom
          exact .openChannel hnone hguard.1 hguard.2 (Nat.not_le.mp hroom)
      · simp at h
  | proceedForward f ok =>
    simp only [step] at h
    split at h
    · simp at h
    · exact move_proceedForward ‹_› h
  | cancelForward f =>
    simp only [step] at h
    split at h
    · simp at h
    · split at h
      · simp at h
      · obtain ⟨rfl, rfl⟩ := Prod.mk.inj (Option.some.inj h)
        exact .finish s.failure ‹_›
  | copied f toWorker size =>
    simp only [step] at h
    split at h
    · simp at h
    · split at h
      · obtain ⟨rfl, rfl⟩ := Prod.mk.inj (Option.some.inj h)
        exact .copied (fun bytes => if toWorker then (bytes.1 + size, bytes.2)
          else (bytes.1, bytes.2 + size)) ‹_›
      · simp at h
  | stop =>
    obtain ⟨rfl, rfl⟩ := Prod.mk.inj (Option.some.inj h)
    exact .stop

end Relay

end ShareCompute.Cluster
