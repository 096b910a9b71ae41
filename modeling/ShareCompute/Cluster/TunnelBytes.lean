import ShareCompute.Cluster.Bridge
import ShareCompute.Cluster.RelayBinding
import ShareCompute.Cluster.ValidateProof
import ShareCompute.Simulation.ControlLine

namespace ShareCompute.Cluster

open ShareCompute.Library ShareCompute.Simulation

/-!
# The bytes of a tunnel

`split_cluster.py`, `Relay.forward`, `Relay.accept` and `Worker.tunnel` together.  A worker opens a
connection to the relay, offers a channel on it in one line, reads one line of answer, and from then
on the connection carries the bytes of the channel.  Both ends bridge it: the relay to the local
connection that `forward` serves, the worker to its native listener.

A connection carries two streams of bytes.  What one end has written and the other has not read is
in flight; the other end takes it in chunks of any size, and a line with `readline`.  Connections
that no `tunnel` has opened may carry anything.

* `Network.step` — one step of the relay, of a bridge or of a worker.
* `splitLine_sentLine`, `loadsLine_sentLine` — a line comes off the stream as it was sent.
* `Bridge.step_streams` — what a step of a bridge reads and writes.
* `Flow` — how the bytes of the two ends and those in flight belong together.
-/

/-! ### Lines -/

/-- What `send(writer, message)` writes: the message as one line of JSON. -/
def sentLine (floats : Floats) (message : Dict) : Bytes :=
  utf8 (.ofList (floats.dumps (.dict message))) ++ [newline]

/-- `json.loads(line)`, of bytes, which must be UTF-8. -/
def loadsLine (floats : Floats) (line : List UInt8) : Option Json :=
  (decodeUtf8 line).bind (fun text => floats.loads text.toList)

/-- `{'kind': 'data', 'node': ..., 'token': ..., 'channel': ...}` -/
def dataOffer (node token channel : String) : Dict :=
  [("kind", .str "data"), ("node", .str node), ("token", .str token), ("channel", .str channel)]

/-- `{'ok': True}`, with which the relay acknowledges an offer. -/
def okAnswer : Dict := [("ok", .bool true)]

/-- What `readline` takes off the bytes in flight when it comes to `inbound`, as what is left. -/
def readBy (wire : Bytes) : Inbound → Option Bytes
  | .line bytes =>
      match splitLine wire with
      | some (line, rest) => if bytes = line ++ [newline] then some rest else none
      -- the connection has ended within a line
      | none => if bytes = wire then some [] else none
  | .silence => some wire
  | .broken => some wire

/-! ### The network -/

/-- Where `tunnel` awaits, between two of its steps. -/
inductive TunnelPoint
  /-- `await receive(remote[0])`; the offer has been sent -/
  | greeting
  /-- `await asyncio.open_connection('127.0.0.1', self.port)` -/
  | dialing
  /-- `await bridge(remote, local)` -/
  | bridging
  | ended
deriving DecidableEq

/-- A running `tunnel`: its pairing, its channel and where it awaits. -/
structure Tunnel where
  node : String
  token : String
  channel : String
  point : TunnelPoint
  /-- a line of answer was read -/
  greeted : Bool
  bridge : Bridge.State

/-- A bridge that has not moved yet. -/
def idleBridge : Bridge.State := Bridge.start (fun _ => 0)

/-- The relay, its bridges, the tunnels of the workers, and the bytes in flight between them. -/
structure Network where
  relay : Relay
  /-- the bridge of a `forward` -/
  bridges : ℕ → Bridge.State
  /-- the `tunnel` that has opened a connection -/
  tunnels : ℕ → Option Tunnel
  /-- what the relay has written and the worker has not read -/
  outward : ℕ → Bytes
  /-- what the worker has written and the relay has not read -/
  inward : ℕ → Bytes

/-- What can happen, at the relay, in its bridges, and at the workers. -/
inductive Act
  /-- a handler of the relay moves -/
  | relay (action : Action)
  /-- a task of the bridge of a `forward` moves -/
  | bridge (forward : ℕ) (action : Bridge.Action)
  /-- a worker connects and offers a channel -/
  | offer (connection : ℕ) (node token channel : String) (plain : Bool) (peer : String)
  /-- it reads the answer -/
  | answered (connection : ℕ)
  /-- it has connected to its native listener -/
  | connected (connection : ℕ)
  /-- a task of its bridge moves -/
  | workerBridge (connection : ℕ) (action : Bridge.Action)
  /-- `tunnel` raises, is cancelled, or returns -/
  | leave (connection : ℕ)

namespace Bridge

/-- What a step of a bridge reads in a direction. -/
def taken (action : Action) (direction : Direction) : Bytes :=
  match action with
  | .copy d (.received chunk) => if d = direction then chunk else []
  | .copy d (.writeFailed chunk) => if d = direction then chunk else []
  | _ => []

/-- What a step of a bridge writes in a direction. -/
def sent (action : Action) (direction : Direction) : Bytes :=
  match action with
  | .copy d (.received chunk) => if d = direction then chunk else []
  | _ => []

end Bridge

/-- What is left when `chunk` is read off the bytes in flight. -/
def dropChunk (chunk wire : Bytes) : Option Bytes :=
  if chunk <+: wire then some (wire.drop chunk.length) else none

namespace Network

variable (config : Config) (floats : Floats)

/-- Nobody has connected, and nothing is in flight. -/
def start : Network where
  relay := .init
  bridges _ := idleBridge
  tunnels _ := none
  outward _ := []
  inward _ := []

/-- The line that `accept` has just sent on a connection. -/
def answer (relay : Relay) (connection : ℕ) : Bytes :=
  match relay.handlers connection with
  | some handler =>
      match handler.point with
      | .acknowledging _ _ _ => sentLine floats okAnswer
      | _ => []
  | none => []

/-- A handler moves, and nothing passes a connection of a tunnel. -/
def move (s : Network) (action : Action) : Option Network :=
  (s.relay.step config (loadsLine floats) action).map (fun p => { s with relay := p.1 })

/-- `bridge` has returned, or raised, as `ok` says. -/
def bridgeDone (s : Network) (forward : ℕ) (ok : Bool) : Bool :=
  match s.relay.forwards forward with
  | some frame =>
      match frame.point with
      | .bridging _ =>
          decide ((s.bridges forward).main = .returned) && (ok == !(s.bridges forward).failed)
      | _ => true
  | none => true

/-- One step of a handler, which reads what has arrived of its worker and may answer. -/
def relayStep (s : Network) (action : Action) : Option Network :=
  match action with
  -- the bridges count what they copy
  | .copied _ _ _ => none
  | .inbound connection inbound now =>
      match s.tunnels connection with
      | none => s.move config floats (.inbound connection inbound now)
      | some _ =>
          (readBy (s.inward connection) inbound).bind (fun rest =>
            (s.move config floats (.inbound connection inbound now)).map (fun s' =>
              { s' with
                inward := Function.update s.inward connection rest
                outward := Function.update s.outward connection
                  (s.outward connection ++ answer floats s'.relay connection) }))
  | .proceedForward forward ok =>
      if s.bridgeDone forward ok then s.move config floats (.proceedForward forward ok) else none
  | action => s.move config floats action

/-- `counts[index] += len(chunk)`, once a chunk has been drained. -/
def counted (s : Network) (forward : ℕ) (action : Bridge.Action) : Relay :=
  match action with
  | .copy direction .drained =>
      match ((s.bridges forward).copies direction).point with
      | .draining size =>
          match s.relay.step config (loadsLine floats)
              (.copied forward (decide (direction = .right)) size) with
          | some (relay, _) => relay
          | none => s.relay
      | _ => s.relay
  | _ => s.relay

/-- One step of the bridge of a `forward`: its right end is the connection of the worker. -/
def bridgeStep (s : Network) (forward : ℕ) (action : Bridge.Action) : Option Network :=
  match s.relay.forwards forward with
  | none => none
  | some frame =>
      match frame.point with
      | .bridging remote =>
          (Bridge.step false (s.bridges forward) action).bind (fun bridge =>
            let s' : Network := { s with
              relay := s.counted config floats forward action
              bridges := Function.update s.bridges forward bridge }
            match s.tunnels remote with
            | none => some s'
            | some _ =>
                (dropChunk (Bridge.taken action .left) (s.inward remote)).map (fun rest =>
                  { s' with
                    inward := Function.update s.inward remote rest
                    outward := Function.update s.outward remote
                      (s.outward remote ++ Bridge.sent action .right) }))
      | _ => none

/-- The tunnel of a connection has moved on. -/
def setTunnel (s : Network) (connection : ℕ) (tunnel : Tunnel) : Network :=
  { s with tunnels := Function.update s.tunnels connection (some tunnel) }

/-- A worker connects and offers a channel. -/
def offerStep (s : Network) (connection : ℕ) (node token channel : String) (plain : Bool)
    (peer : String) : Option Network :=
  match s.tunnels connection with
  | some _ => none
  | none =>
      (s.move config floats (.connect connection plain peer)).map (fun s' =>
        { s'.setTunnel connection ⟨node, token, channel, .greeting, false, idleBridge⟩ with
          inward := Function.update s.inward connection
            (sentLine floats (dataOffer node token channel))
          outward := Function.update s.outward connection [] })

/-- Where `Worker.tunnel` goes on after a line. -/
def afterAnswer (line : Bytes) : TunnelPoint :=
  match receive (loadsLine floats) (.line (line ++ [newline])) with
  | .ok message => if (message.get "ok").truthy then .dialing else .ended
  | .error _ => .ended

/-- A worker reads the answer, if the line is complete, and dials or gives up. -/
def answeredStep (s : Network) (connection : ℕ) (tunnel : Tunnel) : Option Network :=
  if tunnel.point = .greeting then
    (splitLine (s.outward connection)).map (fun p =>
      { s.setTunnel connection { tunnel with
          greeted := true
          point := afterAnswer floats p.1 } with
        outward := Function.update s.outward connection p.2 })
  else none

/-- One step of the bridge of a worker: its left end is the connection to the relay. -/
def workerBridgeStep (s : Network) (connection : ℕ) (tunnel : Tunnel) (action : Bridge.Action) :
    Option Network :=
  if tunnel.point = .bridging then
    (Bridge.step false tunnel.bridge action).bind (fun bridge =>
      (dropChunk (Bridge.taken action .right) (s.outward connection)).map (fun rest =>
        { s.setTunnel connection { tunnel with bridge := bridge } with
          outward := Function.update s.outward connection rest
          inward := Function.update s.inward connection
            (s.inward connection ++ Bridge.sent action .left) }))
  else none

/-- One step of the network; `none` where it is not possible. -/
def step (s : Network) : Act → Option Network
  | .relay action => s.relayStep config floats action
  | .bridge forward action => s.bridgeStep config floats forward action
  | .offer connection node token channel plain peer =>
      s.offerStep config floats connection node token channel plain peer
  | .answered connection => (s.tunnels connection).bind (s.answeredStep floats connection)
  | .connected connection =>
      (s.tunnels connection).bind (fun tunnel =>
        if tunnel.point = .dialing then
          some (s.setTunnel connection { tunnel with point := .bridging })
        else none)
  | .workerBridge connection action =>
      (s.tunnels connection).bind (fun tunnel => s.workerBridgeStep connection tunnel action)
  | .leave connection =>
      (s.tunnels connection).bind (fun tunnel =>
        if tunnel.point = .ended then none
        else some (s.setTunnel connection { tunnel with point := .ended }))

/-- A step, as a relation between two states of the network. -/
def Step (s : Network) (act : Act) (s' : Network) : Prop := s.step config floats act = some s'

/-- A run of the network, from its start on. -/
abbrev Run (acts : List Act) (s : Network) : Prop := Trace (Step config floats) start acts s

end Network

/-! ### A line comes off the stream as it was sent -/

variable {floats : Floats}

/-- A text of printable characters has no line feed among its bytes. -/
theorem newline_not_mem_utf8 {text : List Char} (h : ∀ c ∈ text, Json.isPrintable c) :
    newline ∉ utf8 (.ofList text) := by
  rw [utf8_ofList, List.mem_flatMap]
  rintro ⟨c, hc, hmem⟩
  obtain ⟨hlow, hhigh⟩ := h c hc
  rw [utf8EncodeChar_ascii (by omega), List.mem_singleton] at hmem
  have hvalue := congrArg UInt8.toNat hmem
  have hten : newline.toNat = 10 := rfl
  rw [UInt8.toNat_ofNat', hten] at hvalue
  omega

/-- A message that was sent comes off the stream as one line, and what follows it stays. -/
theorem splitLine_sentLine {message : Dict} (h : floats.Proper (.dict message)) (rest : Bytes) :
    ∃ line, sentLine floats message = line ++ [newline] ∧
      splitLine (sentLine floats message ++ rest) = some (line, rest) := by
  have hline := newline_not_mem_utf8 (floats.dumps_dict h).1
  refine ⟨_, rfl, ?_⟩
  rw [sentLine, List.append_assoc, List.singleton_append, splitLine_append hline]

/-- A newline behind a text is a blank. -/
theorem loads_newline {value : Json} (h : floats.Proper value) :
    floats.loads (floats.dumps value ++ ['\n']) = some value := by
  rw [Floats.loads, Floats.dumps]
  have hread := Json.readValue_print escapeAscii_escapes _ (floats.wellFormed_toValue value h)
    ((floats.toValue value).print escapeAscii ++ ['\n']).length ['\n'] (by simp)
    (Json.ends_cons (by decide) _)
  have hparse : Json.parse ((floats.toValue value).print escapeAscii ++ ['\n'])
      = some (floats.toValue value) := by
    rw [Json.parse, hread]
    rfl
  rw [hparse, Option.map_some, floats.ofValue_toValue value h]

/-- The line of a message is read as the message. -/
theorem loadsLine_sentLine {message : Dict} (h : floats.Proper (.dict message)) :
    loadsLine floats (sentLine floats message) = some (.dict message) := by
  have hline : sentLine floats message
      = utf8 (.ofList (floats.dumps (.dict message) ++ ['\n'])) := by
    rw [sentLine, utf8_ofList, utf8_ofList, List.flatMap_append]
    rfl
  rw [loadsLine, hline, decodeUtf8_utf8, Option.bind_some, String.toList_ofList, loads_newline h]

/-- The offer of a channel can be written as JSON, whatever the names in it are. -/
theorem proper_dataOffer (node token channel : String) :
    floats.Proper (.dict (dataOffer node token channel)) := by
  rw [Floats.Proper, Floats.properMembers_iff]
  refine ⟨?_, ?_⟩
  · show ["kind", "node", "token", "channel"].Nodup
    decide
  · intro item hitem
    simp only [dataOffer, List.mem_cons, List.not_mem_nil, or_false] at hitem
    rcases hitem with rfl | rfl | rfl | rfl <;> simp [Floats.Proper]

/-- The answer to an offer can be written as JSON. -/
theorem proper_okAnswer : floats.Proper (.dict okAnswer) := by
  rw [Floats.Proper, Floats.properMembers_iff]
  refine ⟨?_, ?_⟩
  · show ["ok"].Nodup
    decide
  · intro item hitem
    rw [okAnswer, List.mem_singleton] at hitem
    simp [hitem, Floats.Proper]

/-- What a handler receives is what was loaded from the line. -/
theorem loads_of_receive {loads : List UInt8 → Option Json} {bytes : List UInt8} {message : Dict}
    (h : receive loads (.line bytes) = .ok message) : loads bytes = some (.dict message) := by
  rw [receive] at h
  split_ifs at h with hempty hlong
  split at h
  case h_1 message' hloads => rw [hloads, Except.ok.inj h]
  all_goals cases h

/-- An offer that is read whole is the offer that was sent, and nothing stands behind it. -/
theorem readBy_offer {node token channel : String} {inbound : Inbound} {rest : Bytes}
    {hello : Dict} (hread : readBy (sentLine floats (dataOffer node token channel)) inbound
      = some rest) (hreceive : receive (loadsLine floats) inbound = .ok hello) :
    rest = [] ∧ hello = dataOffer node token channel := by
  have hproper : floats.Proper (.dict (dataOffer node token channel)) :=
    proper_dataOffer node token channel
  obtain ⟨line, hline, hsplit⟩ := splitLine_sentLine hproper []
  rw [List.append_nil] at hsplit
  cases inbound with
  | silence => cases hreceive
  | broken => cases hreceive
  | line bytes =>
    rw [readBy] at hread
    simp only [hsplit] at hread
    split at hread
    case isFalse => cases hread
    case isTrue hbytes =>
      have hloads := loads_of_receive hreceive
      rw [hbytes, ← hline, loadsLine_sentLine hproper] at hloads
      exact ⟨(Option.some.inj hread).symm, (Json.dict.inj (Option.some.inj hloads)).symm⟩

/-! ### What a step of a bridge reads and writes -/

namespace Bridge

/-- A cancellation neither reads nor writes, so the two streams of a loop stay. -/
theorem cancel_streams (copy : Copy) :
    copy.cancel.read = copy.read ∧ copy.cancel.written = copy.written := by
  unfold Copy.cancel
  split <;> exact ⟨rfl, rfl⟩

/-- Only a chunk that came out of a read makes a difference. -/
theorem copy_streams {counting : Bool} {copy copy' : Copy} {event : Event}
    (h : copy.step counting event = some copy') (direction : Direction) :
    copy'.read = copy.read ++ taken (.copy direction event) direction ∧
      copy'.written = copy.written ++ sent (.copy direction event) direction := by
  unfold Copy.step at h
  split at h
  · split at h
    · split at h
      · cases h
      · obtain rfl := Option.some.inj h
        simp [taken, sent]
    · cases h
  · split at h
    case h_2 chunk hpoint =>
      split at h
      case isTrue hempty =>
        obtain rfl := Option.some.inj h
        simp [taken, sent, hempty]
      case isFalse =>
        split at h
        case isTrue =>
          obtain rfl := Option.some.inj h
          simp [taken, sent]
        case isFalse => cases h
    case h_4 chunk hpoint =>
      split at h
      case isTrue =>
        obtain rfl := Option.some.inj h
        simp [taken, sent]
      case isFalse => cases h
    case h_7 => cases h
    all_goals
      obtain rfl := Option.some.inj h
      simp [taken, sent]

/-- A step of a bridge reads and writes only what its action says, in the direction of the
    action. -/
theorem step_streams {counting : Bool} {b b' : State} {action : Action}
    (h : step counting b action = some b') (direction : Direction) :
    (b'.copies direction).read = (b.copies direction).read ++ taken action direction ∧
      (b'.copies direction).written = (b.copies direction).written ++ sent action direction := by
  cases action with
  | copy d event =>
    obtain ⟨copy, hcopy, rfl⟩ := Option.map_eq_some_iff.mp h
    by_cases hd : direction = d
    · -- the copy of this direction
      subst hd
      simp only [Function.update_self]
      exact copy_streams hcopy direction
    · simp only [Function.update_of_ne hd]
      cases event <;> simp [taken, sent, Ne.symm hd]
  | wake =>
    simp only [step] at h
    split at h
    case isTrue =>
      obtain rfl := Option.some.inj h
      -- cancelling a copy moves none of its bytes
      obtain ⟨hread, hwritten⟩ := cancel_streams (b.copies direction)
      exact ⟨by simp [hread, taken], by simp [hwritten, sent]⟩
    case isFalse => cases h
  | close d =>
    simp only [step] at h
    split at h
    case isTrue =>
      obtain rfl := Option.some.inj h
      simp [taken, sent]
    case isFalse => cases h
  | closed d =>
    simp only [step] at h
    split at h
    case isTrue =>
      obtain rfl := Option.some.inj h
      simp [taken, sent]
    case isFalse => cases h
  | join =>
    simp only [step] at h
    split at h
    case isTrue =>
      obtain rfl := Option.some.inj h
      simp [taken, sent]
    case isFalse => cases h
  | leave =>
    simp only [step] at h
    split at h
    case isTrue =>
      obtain rfl := Option.some.inj h
      simp [taken, sent]
    case isFalse => cases h

end Bridge

/-- A chunk can be taken off the wire exactly if it is at the front. -/
theorem dropChunk_eq_some {chunk wire rest : Bytes} (h : dropChunk chunk wire = some rest) :
    wire = chunk ++ rest := by
  rw [dropChunk] at h
  split at h
  case isTrue hprefix =>
    obtain ⟨behind, rfl⟩ := hprefix
    rw [List.drop_left] at h
    rw [Option.some.inj h]
  case isFalse => cases h

/-! ### The two ends of a connection -/

/-- What the relay's bridge, the worker's `tunnel` and the bytes in flight come to: between the
    answer and the first byte of the channel nothing is lost, doubled or moved. -/
structure Flow (floats : Floats) (bridge : Bridge.State) (tunnel : Tunnel)
    (outward inward : Bytes) : Prop where
  outward : sentLine floats okAnswer ++ (bridge.copies .right).written
    = (if tunnel.greeted then sentLine floats okAnswer else [])
      ++ ((tunnel.bridge.copies .right).read ++ outward)
  inward : (tunnel.bridge.copies .left).written = (bridge.copies .left).read ++ inward

namespace Flow

variable {bridge bridge' : Bridge.State} {tunnel : Tunnel} {outward inward rest : Bytes}
  {action : Bridge.Action}

/-- A connection on which only the answer was sent. -/
theorem answered (hgreeted : tunnel.greeted = false) (hbridge : tunnel.bridge = idleBridge) :
    Flow floats idleBridge tunnel (sentLine floats okAnswer) [] where
  outward := by
    rw [hgreeted, hbridge]
    exact List.append_nil _
  inward := by
    rw [hbridge]
    rfl

/-- The relay's bridge moves: what it writes is on the way to the worker, and what it reads was. -/
theorem bridge_step (h : Flow floats bridge tunnel outward inward)
    (hstep : Bridge.step false bridge action = some bridge')
    (hrest : dropChunk (Bridge.taken action .left) inward = some rest) :
    Flow floats bridge' tunnel (outward ++ Bridge.sent action .right) rest where
  outward := by
    rw [(Bridge.step_streams hstep .right).2, ← List.append_assoc, h.outward]
    simp only [List.append_assoc]
  inward := by
    rw [(Bridge.step_streams hstep .left).1, h.inward, dropChunk_eq_some hrest, List.append_assoc]

/-- The worker's bridge moves: what it writes is on the way to the relay, and what it reads was. -/
theorem worker_step (h : Flow floats bridge tunnel outward inward)
    (hstep : Bridge.step false tunnel.bridge action = some bridge')
    (hrest : dropChunk (Bridge.taken action .right) outward = some rest) :
    Flow floats bridge { tunnel with bridge := bridge' } rest
      (inward ++ Bridge.sent action .left) where
  outward := by
    rw [h.outward, dropChunk_eq_some hrest]
    simp only [(Bridge.step_streams hstep .right).1, List.append_assoc]
  inward := by
    simp only [(Bridge.step_streams hstep .left).2, h.inward, List.append_assoc]

/-- The worker reads a line: it is the answer. -/
theorem read_answer {line : Bytes} (h : Flow floats bridge tunnel outward inward)
    (hgreeted : tunnel.greeted = false) (hbridge : tunnel.bridge = idleBridge)
    (hline : splitLine outward = some (line, rest)) (point : TunnelPoint) :
    Flow floats bridge { tunnel with greeted := true, point := point } rest inward where
  outward := by
    have hflow := h.outward
    rw [hgreeted, hbridge] at hflow
    have hproper : floats.Proper (.dict okAnswer) := proper_okAnswer
    obtain ⟨text, -, hsplit⟩ := splitLine_sentLine hproper (bridge.copies .right).written
    have houtward : sentLine floats okAnswer ++ (bridge.copies .right).written = outward := hflow
    rw [houtward, hline] at hsplit
    obtain ⟨-, hrest⟩ := Prod.mk.inj (Option.some.inj hsplit)
    rw [hrest, hbridge]
    rfl
  inward := h.inward

/-- Where the tunnel is makes no difference to what is in flight. -/
theorem point (h : Flow floats bridge tunnel outward inward) (point : TunnelPoint) :
    Flow floats bridge { tunnel with point := point } outward inward := ⟨h.outward, h.inward⟩

end Flow

end ShareCompute.Cluster
