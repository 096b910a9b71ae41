import ShareCompute.Cluster.Protocol
import ShareCompute.Library.Dictionary
import ShareCompute.Library.Runs

namespace ShareCompute.Simulation

open ShareCompute.Library ShareCompute.Cluster

/-!
# The hub of the portable simulation

`portable_dual_topology_hub.py`, `run_hub`.  The main thread accepts connections until both
seats are taken, plans, broadcasts the plan and waits; each connection is served by a thread of
its own, `handle_client`.  They share the two dictionaries, two events and the list of failure
reasons.

A thread is kept as the place where another thread can run next, and one step takes one thread
from there to the next place; whatever a thread does under the lock is one step.  Clients send
whatever they like, whenever they like.  Deadlines pass, sends fail and connections break
whenever the environment wants them to.

What `str`, `float` and `int` make of the values of a message, and what `plan_portable_shards`
answers, is a parameter.
-/

/-- Python's conversions of the values that `json.loads` returns; `none` is an exception. -/
structure Conversions (φ : Type) where
  str : Json → String
  float : Json → Option φ
  int : Json → Option ℤ
  str_str : ∀ text, str (.str text) = text

/-- The expression `value or default`, by the truth of its value. -/
def orElse (value default : Json) : Json := if value.truthy then value else default

/-- The two seats of the portable simulation. -/
def portableSeats : List String := ["ios", "windows"]

/-- `PORTABLE_DEFAULT_USABLE_GB[platform]`, for a join that tells no memory. -/
def defaultUsableGb (platform : String) : Json :=
  if platform = "ios" then .float (some 6) else .float (some 16)

/-- What the hub keeps of a client that has joined. -/
structure PortablePeer (φ : Type) where
  platform : String
  nodeId : String
  usableGb : φ
  role : String
  dataHost : String
  dataPort : ℤ

/-! ### The first message of a client -/

/-- What the hub makes of the first message of a connection. -/
inductive Admission (φ : Type)
  /-- not a `join`; the thread returns -/
  | ignored
  | rejected (reason : String)
  /-- an exception was raised -/
  | raised
  | peer (peer : PortablePeer φ)

section

variable {φ : Type} (python : Conversions φ) (frontendPlatform : String)

/-- The role a `join` asks for, or that of its platform. -/
def joinRole (msg : Dict) (platform : String) : String :=
  python.str (orElse (msg.get "role")
    (.str (if platform = frontendPlatform then "frontend" else "worker")))

/-- The checks of a `join` up to the lock. -/
def examineJoin (msg : Dict) : Admission φ :=
  let platform := python.str (msg.getD "platform" (.str ""))
  if platform ∉ portableSeats then .rejected "non-product-platform"
  else
    let role := joinRole python frontendPlatform msg platform
    if role ≠ "frontend" ∧ role ≠ "worker" then .rejected "bad-role"
    else if role = "frontend" ∧ platform ≠ frontendPlatform then
      .rejected "frontend-role-reserved"
    else if platform = frontendPlatform ∧ role ≠ "frontend" then
      .rejected "frontend-must-join-as-frontend"
    else
      let nodeId := python.str (orElse (msg.get "node_id") (.str ("sim-" ++ platform)))
      match python.float (msg.getD "usable_gb" (defaultUsableGb platform)) with
      | none => .raised
      | some usableGb =>
          let dataHost := python.str (orElse (msg.get "data_host") (.str "127.0.0.1"))
          match python.int (orElse (msg.get "data_port") (.int 0)) with
          | none => .raised
          | some dataPort =>
              if dataPort ≤ 0 then .rejected "missing-data-port"
              else .peer ⟨platform, nodeId, usableGb, role, dataHost, dataPort⟩

/-- `msg is None or msg.get("type") != "join"`, and what follows. -/
def greet (msg : Json) : Admission φ :=
  match msg with
  | .null => .ignored
  | .dict items =>
      if (Dict.get items "type").isStr "join" then examineJoin python frontendPlatform items
      else .ignored
  | _ => .raised

end

/-! ### Later messages -/

/-- What the thread of a seated client does about a line. -/
inductive Reaction
  /-- as if nothing had been read -/
  | nothing
  | done
  | failed (reason : String)
  | other

/-- What a message of the client seated at `platform` means. -/
def react {φ : Type} (python : Conversions φ) (frontendPlatform platform : String) :
    Json → Reaction
  | .null => .nothing
  | .dict msg =>
      if (Dict.get msg "type").isStr "done" then
        if platform = frontendPlatform then .done
        else .failed ("unexpected-done-from-" ++ platform)
      else if (Dict.get msg "type").isStr "pipeline-error" then
        .failed (python.str (orElse (Dict.get msg "reason") (.str "peer-error")))
      else .other
  | _ => .failed "client-error"

/-! ### State -/

/-- A line that a client has sent; `none` is one that `json.loads` raises on.  `late` records,
    for reference, whether the plan had been broadcast when it was sent. -/
structure Line where
  value : Option Json
  late : Bool

/-- Where a thread of `handle_client` is, with the local variables it still needs. -/
inductive HandlerPoint (φ : Type)
  /-- `recv_line(conn, buf, deadline)` -/
  | joining
  /-- `send_msg` of a rejection -/
  | rejecting
  /-- before the lock -/
  | registering (peer : PortablePeer φ)
  /-- at the test of the loop -/
  | looping (platform : String)
  /-- `recv_line(conn, buf, peek_deadline)` -/
  | reading (platform : String)
  /-- `select` and `MSG_PEEK` -/
  | probing (platform : String)
  /-- before `fail_reason.append(reason)` -/
  | failing (reason : String)
  /-- before `pipeline_done.set()` -/
  | setting
  | finished

/-- Where the main thread is; `σ` stands for the list of shards. -/
inductive MainPoint (σ : Type)
  | accepting
  /-- at the test of `all_joined` after the loop -/
  | checking
  | planning
  /-- before `conns_snapshot` is taken -/
  | planned (shards : σ)
  /-- before the plan is sent to the connections that are left -/
  | broadcasting (shards : σ) (conns : List ℕ)
  /-- in the loop that waits for `pipeline_done` -/
  | waiting
  /-- before `reasons` is taken -/
  | collecting
  /-- at the tests of `reasons` and of `pipeline_done` -/
  | deciding (reasons : List String)
  | returned (code : ℕ)

/-- The plan has been broadcast, and the main thread has not returned. -/
def MainPoint.afterBroadcast {σ : Type} : MainPoint σ → Bool
  | .waiting | .collecting | .deciding _ => true
  | _ => false

/-- Connections are numbered; each has its thread and the lines that were not read. -/
structure Hub (φ σ : Type) where
  main : MainPoint σ
  handlers : ℕ → Option (HandlerPoint φ)
  lines : ℕ → List Line
  connected : Dictionary String (PortablePeer φ)
  clientConns : Dictionary String ℕ
  allJoined : Bool
  pipelineDone : Bool
  failReason : List String

/-- How `recv_line` ends: with a line, with nothing, or by raising. -/
inductive Reading
  | line
  /-- the deadline has passed, or the client has closed its side -/
  | nothing
  | raises
deriving DecidableEq

/-- What can happen: the clients send and leave, the threads of the hub go on, or the main thread
    does. -/
inductive Action
  /-- a client sends a line -/
  | send (conn : ℕ) (value : Option Json)
  /-- `server.accept()`, and the new thread -/
  | accept (conn : ℕ)
  /-- the loop of `accept` ends: everybody has joined, or the deadline has passed -/
  | leave
  | check
  | plan
  | snapshot
  /-- `send_msg(conn, plan)` to the next connection -/
  | sendPlan (ok : Bool)
  /-- the loop that waits ends -/
  | stopWaiting
  | collect
  | decide
  | read (conn : ℕ) (reading : Reading)
  | reject (conn : ℕ) (ok : Bool)
  /-- the locked section of a `join`, and whether the acknowledgement was sent -/
  | register (conn : ℕ) (ok : Bool)
  /-- the test of the loop; `again` if the deadline has not passed -/
  | test (conn : ℕ) (again : Bool)
  | probe (conn : ℕ) (gone : Bool)
  | record (conn : ℕ)
  | set (conn : ℕ)

/-- What a step makes visible to the clients and to the caller. -/
inductive Effect (σ : Type)
  | planned (shards : σ)
  /-- `shards_to_plan_dict(epoch, shards, token_count)` was sent -/
  | planSent (conn : ℕ) (shards : σ)
  | broadcastEnded
  | succeeded
deriving DecidableEq

namespace Hub

variable {φ σ : Type}

/-- `expected_set == set(PORTABLE_SEATS)`, and the frontend is one of them. -/
def seatsExpected (expected : List String) (frontendPlatform : String) : Bool :=
  decide ((∀ seat ∈ expected, seat ∈ portableSeats) ∧ (∀ seat ∈ portableSeats, seat ∈ expected) ∧
    frontendPlatform ∈ expected)

/-- `run_hub` after its first checks, before any client connects. -/
def start (expected : List String) (frontendPlatform : String) : Hub φ σ where
  main := if seatsExpected expected frontendPlatform then .accepting else .returned 2
  handlers := fun _ => none
  lines := fun _ => []
  connected := ∅
  clientConns := ∅
  allJoined := false
  pipelineDone := false
  failReason := []

/-- The thread of a connection has moved to another point. -/
def setHandler (self : Hub φ σ) (conn : ℕ) (point : HandlerPoint φ) : Hub φ σ :=
  { self with handlers := Function.update self.handlers conn (some point) }

/-- The lines that are on their way over a connection are replaced. -/
def setLines (self : Hub φ σ) (conn : ℕ) (lines : List Line) : Hub φ σ :=
  { self with lines := Function.update self.lines conn lines }

/-- `return code`, with the `finally` of `run_hub`. -/
def return_ (self : Hub φ σ) (code : ℕ) : Hub φ σ :=
  { self with main := .returned code, pipelineDone := true }

/-- The locked section of a `join`, which takes a seat that is free or rejects the peer. -/
def register (self : Hub φ σ) (conn : ℕ) (peer : PortablePeer φ) (ok : Bool) : Hub φ σ :=
  if peer.platform ∈ self.connected then
    -- `send_msg` of the rejection; it raises when the connection is broken
    self.setHandler conn (if ok then .finished else .failing "client-error")
  else
    let self := { self with
      connected := self.connected.insert peer.platform peer
      clientConns := self.clientConns.insert peer.platform conn }
    if ok then
      { self with
        allJoined := self.allJoined ||
          portableSeats.all (fun seat => decide (seat ∈ self.connected)) }.setHandler conn
            (.looping peer.platform)
    else
      -- the acknowledgement was not sent, but the seat is taken
      self.setHandler conn (.failing "client-error")

section

variable (python : Conversions φ) (frontendPlatform : String)
  (planPortableShards : List (PortablePeer φ) → Option σ)

/-- The thread of `conn` reads a line while it waits for a `join`. -/
def readJoin (self : Hub φ σ) (conn : ℕ) (value : Option Json) : Hub φ σ :=
  match value with
  | none => self.setHandler conn (.failing "client-error")
  | some value =>
      match greet python frontendPlatform value with
      | .ignored => self.setHandler conn .finished
      | .rejected _ => self.setHandler conn .rejecting
      | .raised => self.setHandler conn (.failing "client-error")
      | .peer peer => self.setHandler conn (.registering peer)

/-- The thread of `conn` reads a line in its loop. -/
def readLine (self : Hub φ σ) (conn : ℕ) (platform : String) (value : Option Json) : Hub φ σ :=
  match value with
  | none => self.setHandler conn (.failing "client-error")
  | some value =>
      match react python frontendPlatform platform value with
      | .nothing => self.setHandler conn (.probing platform)
      | .done => self.setHandler conn .setting
      | .failed reason => self.setHandler conn (.failing reason)
      | .other => self.setHandler conn (.looping platform)

/-- `recv_line` ends, for the thread of `conn`. -/
def read (self : Hub φ σ) (conn : ℕ) (reading : Reading) : Option (Hub φ σ) :=
  match self.handlers conn, reading with
  | some .joining, .line =>
      match self.lines conn with
      | [] => none
      | line :: lines =>
          some ((self.setLines conn lines).readJoin python frontendPlatform conn line.value)
  | some .joining, .nothing => some (self.setHandler conn .finished)
  | some .joining, .raises => some (self.setHandler conn (.failing "client-error"))
  | some (.reading platform), .line =>
      match self.lines conn with
      | [] => none
      | line :: lines =>
          some ((self.setLines conn lines).readLine python frontendPlatform conn platform
            line.value)
  | some (.reading platform), .nothing => some (self.setHandler conn (.probing platform))
  | some (.reading _), .raises => some (self.setHandler conn (.failing "client-error"))
  | _, _ => none

/-- Exactly one peer is the frontend, it is the one that was configured, and the plan. -/
def plan (self : Hub φ σ) : Hub φ σ × List (Effect σ) :=
  let peers := Dictionary.values self.connected
  match peers.filter (fun peer => peer.role = "frontend") with
  | [frontend] =>
      if frontend.platform ≠ frontendPlatform then (self.return_ 1, [])
      else
        match planPortableShards peers with
        | none => (self.return_ 1, [])
        | some shards => ({ self with main := .planned shards }, [.planned shards])
  | _ => (self.return_ 1, [])

/-- The next step of the main thread. -/
def mainStep (self : Hub φ σ) (action : Action) : Option (Hub φ σ × List (Effect σ)) :=
  match self.main, action with
  | .accepting, .accept conn =>
      match self.handlers conn with
      | none => some (self.setHandler conn .joining, [])
      | some _ => none
  | .accepting, .leave => some ({ self with main := .checking }, [])
  | .checking, .check =>
      some (if self.allJoined then { self with main := .planning } else self.return_ 1, [])
  | .planning, .plan => some (self.plan frontendPlatform planPortableShards)
  | .planned shards, .snapshot =>
      some ({ self with main := .broadcasting shards (Dictionary.values self.clientConns) }, [])
  | .broadcasting shards (conn :: conns), .sendPlan true =>
      some ({ self with main := .broadcasting shards conns }, [.planSent conn shards])
  | .broadcasting _ (_ :: _), .sendPlan false => some (self.return_ 1, [])
  | .broadcasting _ [], .sendPlan _ => some ({ self with main := .waiting }, [.broadcastEnded])
  | .waiting, .stopWaiting => some ({ self with main := .collecting }, [])
  | .collecting, .collect => some ({ self with main := .deciding self.failReason }, [])
  | .deciding reasons, .decide =>
      if reasons ≠ [] then some (self.return_ 1, [])
      else if self.pipelineDone = false then some (self.return_ 1, [])
      else some (self.return_ 0, [.succeeded])
  | _, _ => none

/-- The next step of the thread of a connection. -/
def handlerStep (self : Hub φ σ) : Action → Option (Hub φ σ)
  | .read conn reading => self.read python frontendPlatform conn reading
  | .reject conn ok =>
      match self.handlers conn with
      | some .rejecting =>
          some (self.setHandler conn (if ok then .finished else .failing "client-error"))
      | _ => none
  | .register conn ok =>
      match self.handlers conn with
      | some (.registering peer) => some (self.register conn peer ok)
      | _ => none
  | .test conn again =>
      match self.handlers conn with
      | some (.looping platform) =>
          some (self.setHandler conn
            (if self.pipelineDone = false ∧ again then .reading platform else .finished))
      | _ => none
  | .probe conn gone =>
      match self.handlers conn with
      | some (.probing platform) =>
          some (self.setHandler conn
            (if gone then .failing ("peer-" ++ platform ++ "-disconnected")
              else .looping platform))
      | _ => none
  | .record conn =>
      match self.handlers conn with
      | some (.failing reason) =>
          some ({ self with failReason := self.failReason ++ [reason] }.setHandler conn .setting)
      | _ => none
  | .set conn =>
      match self.handlers conn with
      | some .setting => some ({ self with pipelineDone := true }.setHandler conn .finished)
      | _ => none
  | _ => none

/-- One step of a client, of the main thread or of a thread of a connection. -/
def step (self : Hub φ σ) (action : Action) : Option (Hub φ σ × List (Effect σ)) :=
  match action with
  | .send conn value =>
      some (self.setLines conn (self.lines conn ++ [⟨value, self.main.afterBroadcast⟩]), [])
  | .accept _ | .leave | .check | .plan | .snapshot | .sendPlan _ | .stopWaiting | .collect
  | .decide => self.mainStep frontendPlatform planPortableShards action
  | .read _ _ | .reject _ _ | .register _ _ | .test _ _ | .probe _ _ | .record _ | .set _ =>
      (self.handlerStep python frontendPlatform action).map (·, [])

end

end Hub

end ShareCompute.Simulation
