import ShareCompute.Library.Dictionary
import ShareCompute.Library.Runs
import ShareCompute.Simulation.InferenceWire

namespace ShareCompute.Simulation

open ShareCompute.Library ShareCompute.Cluster

/-!
# The peers of the inference pipeline

`inference_pipeline_peer.py`, from the plan to the last activation: `run_peer`,
`_run_frontend` and `_run_worker`.  There is one process a platform.  It listens at the
address that it joined with, connects to the one after it, and accepts one connection.

A step takes one process to the next place where another one can run.  What a process sends
is appended to the stream of its connection and read in that order.  A process that waits can
reach its deadline, find a connection broken or be told to shut down whenever the environment
wants it to.
-/

/-! ### What a peer reports to the hub -/

/-- The `reason` of a `pipeline-error`, with its numbers. -/
inductive Report
  /-- `epoch-mismatch` of the plan -/
  | epochMismatch
  | bufferBudget (budget requested : ℤ)
  /-- `buffer-budget` with the text of the `ValueError` that `int` raises -/
  | bufferBudgetUnread
  /-- the text of an exception -/
  | exception
  | activationExceedsBudget (nbytes : ℕ) (budget : ℤ)
  | forwardBroken
  | noResultChannel
  | resultFrame (error : FrameError)
  | missingResult (tokenId : ℕ)
  | resultEpochMismatch
  | tokenMismatch (tokenId : ℕ)
  /-- `rank-mm`, of the frontend and of a worker -/
  | rankMm (rankFrom rankTo expectedFrom expectedTo : ℤ)
  | noInbound
  | activationFrame (error : FrameError)
  | inboundBroken
  | actTimeout
  /-- `epoch-mm` of an activation -/
  | epochMm
  | outboundBroken

/-- The reports of a rank, epoch, token or budget that does not match, or of a frame that is
    not one. -/
def Report.isMismatch : Report → Bool
  | .epochMismatch | .bufferBudget _ _ | .bufferBudgetUnread | .activationExceedsBudget _ _
  | .resultFrame _ | .resultEpochMismatch | .tokenMismatch _ | .rankMm _ _ _ _
  | .activationFrame _ | .epochMm => true
  | _ => false

/-! ### From the plan to the data plane -/

/-- The arguments of `_run_frontend` and `_run_worker`, as the plan and the setup give them. -/
structure Seat where
  shards : List InferShard
  my : InferShard
  epoch : String
  tokenCount : ℤ
  bufBudget : ℤ
  actNbytes : ℤ

/-- What a process makes of the plan before it opens its data plane. -/
inductive Prepared
  /-- the platform is not in the plan, or an exception is raised before the hub is told -/
  | gone
  | refused (report : Report)
  | ready (seat : Seat)

/-- What a process sends to, and what it expects of the frames that it receives. -/
structure Route where
  dest : InferShard
  expectedFrom : ℤ
  expectedTo : ℤ

namespace Seat

/-- `my.role == "frontend" or my.rank == 0` -/
def isFrontend (self : Seat) : Bool := self.my.role = "frontend" || self.my.rank = 0

/-- `shards[1]` and `shards[-1]`; none where one is missing. -/
def frontendRoute (self : Seat) : Option Route :=
  match self.shards[1]?, self.shards.getLast? with
  | some next, some last => some ⟨next, last.rank, self.my.rank⟩
  | _, _ => none

/-- The dictionary `{s.rank: s for s in shards}`, in which the last shard of a rank counts. -/
def byRank (self : Seat) : Dictionary ℤ InferShard :=
  Dictionary.file InferShard.rank self.shards

/-- The destination of a worker; none where the dictionary has no such rank. -/
def workerRoute (self : Seat) : Option Route :=
  match self.byRank.keys.max? with
  | none => none
  | some top =>
      (self.byRank.lookup (if self.my.rank = top then 0 else self.my.rank + 1)).map
        (⟨·, self.my.rank - 1, self.my.rank⟩)

end Seat

/-- What every process of a run is given. -/
structure Setup where
  outside : Outside
  /-- the plan, as the hub sends it -/
  planMsg : Dict
  /-- `str(ack.get("epoch") or "")` -/
  joinEpoch : String
  prompt : String

/-! ### Processes -/

/-- Where a process is, with the values that it goes on with. -/
inductive Place
  /-- a worker waits for a connection -/
  | accepting
  /-- `connect_with_deadline` -/
  | connecting
  /-- the frontend, at the head of its loop -/
  | looping (tokenId : ℕ) (seed : Bytes)
  /-- before `send_activation(forward, msg)` -/
  | sending (tokenId : ℕ) (seed : Bytes) (msg : ActivationMsg)
  /-- before the result of the token -/
  | awaiting (tokenId : ℕ) (seed : Bytes)
  /-- a worker, at the head of its loop -/
  | receiving (processed : ℕ)
  /-- before `send_activation(outbound, out)` -/
  | forwarding (processed : ℕ) (out : ActivationMsg)
  /-- `_wait_shutdown` -/
  | waiting

/-- A running process; `inbound` is whose connection was accepted. -/
structure Peer where
  seat : Seat
  route : Route
  inbound : Option String
  place : Place

/-- What has become of the process of a platform. -/
inductive Process
  /-- before the plan -/
  | joined
  | running (peer : Peer)
  | finished

/-- `targets` is what address a process has connected to, `streams` what it has sent over that
    connection and was not read. -/
structure Pipeline where
  processes : String → Process
  targets : String → Option (String × ℤ)
  streams : String → Bytes

/-- Why a process that waits gives up. -/
inductive Failure
  | deadline
  | broken
  | shutdown

/-- What one process can do, and what the environment can do to it. -/
inductive Move
  /-- the plan arrives -/
  | plan (platform : String)
  /-- the connection of `origin` is accepted -/
  | accept (platform origin : String)
  | connect (platform : String) (ok : Bool)
  /-- the frontend goes on with the next token, or is done -/
  | compute (platform : String)
  | send (platform : String)
  /-- a frame is read, and a worker computes -/
  | receive (platform : String)
  /-- a worker leaves its loop -/
  | leave (platform : String)
  | fail (platform : String) (failure : Failure)

/-- What a step makes visible to the hub and to the other processes. -/
inductive Happening
  /-- a frame was read and passed every check -/
  | accepted (platform : String) (msg : ActivationMsg)
  | sent (platform : String) (msg : ActivationMsg)
  | reported (platform : String) (report : Report)
  /-- `{"type": "done", "tokens": tokens}` -/
  | done (tokens : ℤ)

namespace Setup

variable (self : Setup)

/-- `run_peer` once the plan has arrived, up to the data plane. -/
def prepare (platform : String) : Prepared :=
  match self.outside.planDictToShards self.planMsg with
  | none => .gone
  | some (planEpoch, tokenCount, shards) =>
      if planEpoch ≠ self.joinEpoch then .refused .epochMismatch
      else
        match shards.find? (fun s => s.platform = platform) with
        | none => .gone
        | some my =>
            match bufferBudgetBytes my.estimatedGb with
            | none => .gone
            | some bufBudget =>
                let activationBytes :=
                  self.planMsg.getD "activation_bytes" (.int defaultActivationBytes)
                match self.outside.int activationBytes with
                -- only a `ValueError` is caught and reported
                | none =>
                    if self.outside.intValueError activationBytes then .refused .bufferBudgetUnread
                    else .gone
                | some requested =>
                    match activationNbytesForBudget bufBudget requested with
                    | none => .refused (.bufferBudget bufBudget requested)
                    | some actNbytes =>
                        .ready ⟨shards, my, planEpoch, tokenCount, bufBudget, actNbytes⟩

/-- The first activation that the frontend sends, made of the prompt alone. -/
def initialSeed (seat : Seat) : Bytes :=
  self.outside.makePromptActivation self.prompt seat.actNbytes

/-- The next seed `make_prompt_activation(f"{prompt}|tok{tid}", act_nbytes)` of the frontend. -/
def nextSeed (seat : Seat) (tokenId : ℕ) : Bytes :=
  self.outside.makePromptActivation (self.prompt ++ "|tok" ++ toString tokenId) seat.actNbytes

end Setup

namespace Pipeline

/-- Every process has joined, nobody has connected, and nothing is in flight. -/
def start : Pipeline where
  processes := fun _ => .joined
  targets := fun _ => none
  streams := fun _ => []

/-- One process is replaced, and the others are what they were. -/
def setProcess (self : Pipeline) (platform : String) (process : Process) : Pipeline :=
  { self with processes := Function.update self.processes platform process }

/-- What is in flight from one platform is replaced, and the other streams are what they were. -/
def setStream (self : Pipeline) (platform : String) (stream : Bytes) : Pipeline :=
  { self with streams := Function.update self.streams platform stream }

/-- The process is elsewhere in its program, and the rest of it is as before. -/
def go (self : Pipeline) (platform : String) (peer : Peer) (place : Place) : Pipeline :=
  self.setProcess platform (.running { peer with place := place })

/-- The process returns 1, having told the hub why. -/
def giveUp (self : Pipeline) (platform : String) (report : Report) :
    Pipeline × List Happening :=
  (self.setProcess platform .finished, [.reported platform report])

section

variable (setup : Setup)

/-- The plan arrives, and the process begins its part, reports a failure, or ends. -/
def plan (self : Pipeline) (platform : String) : Pipeline × List Happening :=
  match setup.prepare platform with
  -- the exception leaves `run_peer`, and the hub only sees the connection close
  | .gone => (self.setProcess platform .finished, [])
  | .refused report => self.giveUp platform report
  | .ready seat =>
      if seat.isFrontend then
        if seat.shards.length < 2 then
          -- a single seat computes alone; then it only waits for the shutdown
          (self.setProcess platform .finished, [.done seat.tokenCount])
        else
          match seat.frontendRoute with
          | none => self.giveUp platform .exception
          | some route => (self.setProcess platform (.running ⟨seat, route, none, .connecting⟩), [])
      else
        match seat.workerRoute with
        | none => self.giveUp platform .exception
        | some route => (self.setProcess platform (.running ⟨seat, route, none, .accepting⟩), [])

/-- `data_sock.accept()`, by a worker or by the frontend's thread. -/
def accept (self : Pipeline) (platform : String) (peer : Peer) (origin : String) :
    Option (Pipeline × List Happening) :=
  if peer.inbound = none ∧ self.targets origin = some peer.seat.my.address then
    match peer.place with
    | .accepting =>
        some (self.setProcess platform
          (.running { peer with inbound := some origin, place := .connecting }), [])
    -- the thread of the frontend accepts while the loop goes on
    | .looping _ _ | .sending _ _ _ | .awaiting _ _ =>
        some (self.setProcess platform (.running { peer with inbound := some origin }), [])
    | _ => none
  else none

/-- The call `connect_with_deadline(dest.data_host, dest.data_port, deadline)`, which succeeds or
    raises. -/
def connect (self : Pipeline) (platform : String) (peer : Peer) (ok : Bool) :
    Option (Pipeline × List Happening) :=
  match peer.place with
  | .connecting =>
      if ok then
        let self := { self with
          targets := Function.update self.targets platform (some peer.route.dest.address) }
        let place := if peer.seat.isFrontend then .looping 0 (setup.initialSeed peer.seat)
          else .receiving 0
        some (self.go platform peer place, [])
      else some (self.giveUp platform .exception)
  | _ => none

/-- The head of the frontend's loop, which computes the activation of the next token. -/
def compute (self : Pipeline) (platform : String) (peer : Peer) :
    Option (Pipeline × List Happening) :=
  match peer.place with
  | .looping tokenId seed =>
      let seat := peer.seat
      if (tokenId : ℤ) < seat.tokenCount then
        let activation :=
          setup.outside.fakeCompute seed seat.my.layerCount tokenId seat.my.rank
        if (activation.length : ℤ) > seat.bufBudget then
          some (self.giveUp platform (.activationExceedsBudget activation.length seat.bufBudget))
        else
          let msg := ⟨seat.epoch, tokenId, seat.my.rank, peer.route.dest.rank, activation⟩
          some (self.go platform peer (.sending tokenId (setup.nextSeed seat tokenId) msg), [])
      -- `completed` is the number of results, which is that of the rounds
      else some (self.go platform peer .waiting, [.done tokenId])
  | _ => none

/-- `send_activation(sock, msg)`; afterwards the process is at `place`. -/
def sendActivation (self : Pipeline) (platform : String) (peer : Peer) (msg : ActivationMsg)
    (place : Place) : Pipeline × List Happening :=
  match setup.outside.encodeActivation msg with
  -- `struct.error` is no `OSError`, so it goes up to `run_peer`
  | none => self.giveUp platform .exception
  | some bytes =>
      ((self.setStream platform (self.streams platform ++ bytes)).go platform peer place,
        [.sent platform msg])

/-- `send_activation` of the frontend or a worker: the frame goes behind what is in flight on the
    connection. -/
def send (self : Pipeline) (platform : String) (peer : Peer) :
    Option (Pipeline × List Happening) :=
  match peer.place with
  | .sending tokenId seed msg =>
      some (self.sendActivation setup platform peer msg (.awaiting tokenId seed))
  | .forwarding processed out =>
      some (self.sendActivation setup platform peer out (.receiving (processed + 1)))
  | _ => none

/-- The frontend's checks of a result: the epoch, the token and the two ranks. -/
def acceptResult (self : Pipeline) (platform : String) (peer : Peer) (tokenId : ℕ)
    (seed : Bytes) (result : ActivationMsg) : Pipeline × List Happening :=
  let route := peer.route
  if result.epoch ≠ peer.seat.epoch then self.giveUp platform .resultEpochMismatch
  else if result.tokenId ≠ tokenId then self.giveUp platform (.tokenMismatch result.tokenId)
  else if result.rankFrom ≠ route.expectedFrom ∨ result.rankTo ≠ route.expectedTo then
    self.giveUp platform
      (.rankMm result.rankFrom result.rankTo route.expectedFrom route.expectedTo)
  else (self.go platform peer (.looping (tokenId + 1) seed), [.accepted platform result])

/-- A worker's checks of an activation, and its computation. -/
def acceptActivation (self : Pipeline) (platform : String) (peer : Peer) (processed : ℕ)
    (act : ActivationMsg) : Pipeline × List Happening :=
  let seat := peer.seat
  let route := peer.route
  if act.epoch ≠ seat.epoch then self.giveUp platform .epochMm
  else if act.rankFrom ≠ route.expectedFrom ∨ act.rankTo ≠ route.expectedTo then
    self.giveUp platform (.rankMm act.rankFrom act.rankTo route.expectedFrom route.expectedTo)
  else
    let outPayload :=
      setup.outside.fakeCompute act.payload seat.my.layerCount act.tokenId seat.my.rank
    if (outPayload.length : ℤ) > seat.bufBudget then
      self.giveUp platform (.activationExceedsBudget outPayload.length seat.bufBudget)
    else
      let out := ⟨seat.epoch, act.tokenId, seat.my.rank, route.dest.rank, outPayload⟩
      (self.go platform peer (.forwarding processed out), [.accepted platform act])

/-- A frame of the accepted connection is read. -/
def receive (self : Pipeline) (platform : String) (peer : Peer) :
    Option (Pipeline × List Happening) :=
  match peer.inbound with
  | none => none
  | some origin =>
      match setup.outside.recvActivation peer.seat.bufBudget (self.streams origin), peer.place with
      | .raised error, .awaiting _ _ => some (self.giveUp platform (.resultFrame error))
      | .message result rest, .awaiting tokenId seed =>
          some ((self.setStream origin rest).acceptResult platform peer tokenId seed result)
      | .raised error, .receiving processed =>
          if (processed : ℤ) < peer.seat.tokenCount then
            some (self.giveUp platform (.activationFrame error))
          -- the loop has ended, and nothing is read any more
          else none
      | .message act rest, .receiving processed =>
          if (processed : ℤ) < peer.seat.tokenCount then
            some ((self.setStream origin rest).acceptActivation setup platform peer processed act)
          else none
      | _, _ => none

/-- A worker has processed every token, or its deadline has passed. -/
def leave (self : Pipeline) (platform : String) (peer : Peer) :
    Option (Pipeline × List Happening) :=
  match peer.place with
  | .receiving _ => some (self.go platform peer .waiting, [])
  | _ => none

/-- What a process that gives up reports, where it can. -/
def failureReports (peer : Peer) : Failure → Option (List Report)
  | .deadline =>
      match peer.place with
      | .accepting => some [.noInbound]
      | .awaiting tokenId _ =>
          some [if peer.inbound = none then .noResultChannel else .missingResult tokenId]
      | .receiving _ => some [.actTimeout]
      | .waiting => some []
      | _ => none
  | .broken =>
      match peer.place with
      | .accepting | .awaiting _ _ | .waiting => some [.exception]
      | .sending _ _ _ => some [.forwardBroken]
      | .receiving _ => some [.inboundBroken]
      | .forwarding _ _ => some [.outboundBroken]
      | _ => none
  | .shutdown =>
      match peer.place with
      | .accepting | .receiving _ | .waiting => some []
      | _ => none

/-- The environment ends what a process waits for; what the process reports depends on where it
    waited. -/
def fail (self : Pipeline) (platform : String) (peer : Peer) (failure : Failure) :
    Option (Pipeline × List Happening) :=
  (failureReports peer failure).map
    (fun reports => (self.setProcess platform .finished, reports.map (.reported platform ·)))

/-- What the running process of a platform does. -/
def act (self : Pipeline) (platform : String)
    (body : Peer → Option (Pipeline × List Happening)) : Option (Pipeline × List Happening) :=
  match self.processes platform with
  | .running peer => body peer
  | _ => none

/-- One step of one process; `none` where it cannot be taken. -/
def step (self : Pipeline) : Move → Option (Pipeline × List Happening)
  | .plan platform =>
      match self.processes platform with
      | .joined => some (self.plan setup platform)
      | _ => none
  | .accept platform origin => self.act platform (self.accept platform · origin)
  | .connect platform ok => self.act platform (self.connect setup platform · ok)
  | .compute platform => self.act platform (self.compute setup platform)
  | .send platform => self.act platform (self.send setup platform)
  | .receive platform => self.act platform (self.receive setup platform)
  | .leave platform => self.act platform (self.leave platform)
  | .fail platform failure => self.act platform (self.fail platform · failure)

end

end Pipeline

end ShareCompute.Simulation
