import ShareCompute.Simulation.HubRuns

namespace ShareCompute.Simulation

open ShareCompute.Library ShareCompute.Cluster

/-!
# The hub of the Phase A simulation

`inference_pipeline_hub.py`, `run_hub`.  The portable hub is a copy of this one, so the state,
the places of the threads and most steps are those of `PortableHub`.  What differs is what the
copy has since changed:

* the seats are the platforms of the pool, of which some are expected;
* a `join` takes over a seat that is taken, while the thread of the old connection listens on;
* a `done` ends the run whoever sends it.

`InferenceHub.Turn` is what a step can do: what a step of the copy can, with these differences.
-/

namespace InferenceHub

open Hub (setHandler setLines return_)

variable {φ σ : Type}

/-- The platforms of the pool, of which the hub is told some to expect. -/
def platforms : List String := ["windows", "macos", "ios", "android"]

/-- `DEFAULT_USABLE_GB[platform]`, for a join that tells no memory. -/
def defaultUsableGb (platform : String) : Json :=
  if platform = "windows" then .int 16
  else if platform = "macos" then .int 32
  else if platform = "ios" then .int 6
  else .int 8

section

variable (python : Conversions φ) (frontendPlatform : String)

/-! ### Messages -/

/-- The checks of a `join` up to the lock; `InferPeer` has the fields of `PortablePeer`. -/
def examineJoin (msg : Dict) : Admission φ :=
  let platform := python.str (msg.getD "platform" (.str ""))
  -- an unknown platform gets no answer
  if platform ∉ platforms then .ignored
  else
    let role := joinRole python frontendPlatform msg platform
    if role ≠ "frontend" ∧ role ≠ "worker" then .rejected "bad-role"
    else if role = "frontend" ∧ platform ≠ frontendPlatform then
      .rejected "frontend-role-reserved"
    else if platform = frontendPlatform ∧ role ≠ "frontend" then
      .rejected "frontend-must-join-as-frontend"
    else
      let nodeId := python.str (orElse (msg.get "node_id") (.str ("sim-" ++ platform)))
      match python.float (msg.getD "usable_gb" (defaultUsableGb platform)) with
      | none => .raised
      | some usableGb =>
          let dataHost := python.str (orElse (msg.get "data_host") (.str "127.0.0.1"))
          match python.int (orElse (msg.get "data_port") (.int 0)) with
          | none => .raised
          | some dataPort =>
              if dataPort ≤ 0 then .rejected "missing-data-port"
              else .peer ⟨platform, nodeId, usableGb, role, dataHost, dataPort⟩

/-- `msg is None or msg.get("type") != "join"`, and what follows. -/
def greet (msg : Json) : Admission φ :=
  match msg with
  | .null => .ignored
  | .dict items =>
      if (Dict.get items "type").isStr "join" then examineJoin python frontendPlatform items
      else .ignored
  | _ => .raised

/-- What a later message means, whoever sends it. -/
def react : Json → Reaction
  | .null => .nothing
  | .dict msg =>
      if (Dict.get msg "type").isStr "done" then .done
      else if (Dict.get msg "type").isStr "pipeline-error" then
        .failed (python.str (orElse (Dict.get msg "reason") (.str "peer-error")))
      else .other
  | _ => .failed "client-error"

/-! ### Steps -/

/-- The thread of `conn` reads a line while it waits for a `join`. -/
def readJoin (self : Hub φ σ) (conn : ℕ) (value : Option Json) : Hub φ σ :=
  match value with
  | none => self.setHandler conn (.failing "client-error")
  | some value =>
      match greet python frontendPlatform value with
      | .ignored => self.setHandler conn .finished
      | .rejected _ => self.setHandler conn .rejecting
      | .raised => self.setHandler conn (.failing "client-error")
      | .peer peer => self.setHandler conn (.registering peer)

/-- The thread of `conn` reads a line in its loop. -/
def readLine (self : Hub φ σ) (conn : ℕ) (platform : String) (value : Option Json) : Hub φ σ :=
  match value with
  | none => self.setHandler conn (.failing "client-error")
  | some value =>
      match react python value with
      | .nothing => self.setHandler conn (.probing platform)
      | .done => self.setHandler conn .setting
      | .failed reason => self.setHandler conn (.failing reason)
      | .other => self.setHandler conn (.looping platform)

/-- `recv_line` ends, for the thread of `conn`. -/
def read (self : Hub φ σ) (conn : ℕ) (reading : Reading) : Option (Hub φ σ) :=
  match self.handlers conn, reading with
  | some .joining, .line =>
      match self.lines conn with
      | [] => none
      | line :: lines =>
          some (readJoin python frontendPlatform (self.setLines conn lines) conn line.value)
  | some .joining, .nothing => some (self.setHandler conn .finished)
  | some .joining, .raises => some (self.setHandler conn (.failing "client-error"))
  | some (.reading platform), .line =>
      match self.lines conn with
      | [] => none
      | line :: lines =>
          some (readLine python (self.setLines conn lines) conn platform line.value)
  | some (.reading platform), .nothing => some (self.setHandler conn (.probing platform))
  | some (.reading _), .raises => some (self.setHandler conn (.failing "client-error"))
  | _, _ => none

end

/-- `p not in PLATFORMS` for no expected platform, and the frontend is one of them. -/
def seatsExpected (expected : List String) (frontendPlatform : String) : Bool :=
  decide ((∀ platform ∈ expected, platform ∈ platforms) ∧ frontendPlatform ∈ expected)

/-- `run_hub` after its first checks, before any client connects. -/
def start (expected : List String) (frontendPlatform : String) : Hub φ σ where
  main := if seatsExpected expected frontendPlatform then .accepting else .returned 2
  handlers := fun _ => none
  lines := fun _ => []
  connected := ∅
  clientConns := ∅
  allJoined := false
  pipelineDone := false
  failReason := []

/-- The locked section of a `join`, which may take over a seat. -/
def register (expected : List String) (self : Hub φ σ) (conn : ℕ) (peer : PortablePeer φ)
    (ok : Bool) : Hub φ σ :=
  let self := { self with
    connected := self.connected.insert peer.platform peer
    clientConns := self.clientConns.insert peer.platform conn }
  if ok then
    { self with
      allJoined := self.allJoined ||
        expected.all (fun platform => decide (platform ∈ self.connected)) }.setHandler conn
          (.looping peer.platform)
  else
    -- the acknowledgement was not sent, but the seat is taken
    self.setHandler conn (.failing "client-error")

section

variable (python : Conversions φ) (frontendPlatform : String) (expected : List String)
  (planInferShards : List (PortablePeer φ) → Option σ)

/-- One step of a client, of the main thread or of a thread of a connection; but for what is
    read and who is seated, one of the copy. -/
def step (self : Hub φ σ) (action : Action) : Option (Hub φ σ × List (Effect σ)) :=
  match action with
  | .read conn reading => (read python frontendPlatform self conn reading).map (·, [])
  | .register conn ok =>
      match self.handlers conn with
      | some (.registering peer) => some (register expected self conn peer ok, [])
      | _ => none
  | action => self.step python frontendPlatform planInferShards action

/-- The steps that meet `guard`, a condition on the state before them. -/
def guarded (guard : Hub φ σ → Action → Bool) (s : Hub φ σ) (action : Action) :
    Option (Hub φ σ × List (Effect σ)) :=
  if guard s action then step python frontendPlatform expected planInferShards s action else none

/-- A step of the hub that the guard allows, with the messages it sends, as a relation between its
    states. -/
def Steps (guard : Hub φ σ → Action → Bool) (s : Hub φ σ) (l : Hub.Label σ) (s' : Hub φ σ) : Prop :=
  guarded python frontendPlatform expected planInferShards guard s l.1 = some (s', l.2)

end

/-! ### What a step can do -/

/-- The peer has the role that its platform requires. -/
structure Admissible (frontendPlatform : String) (peer : PortablePeer φ) : Prop where
  platform : peer.platform ∈ platforms
  role : peer.role = if peer.platform = frontendPlatform then "frontend" else "worker"

/-- The test `msg2.get("type") == "done"` of what a client has sent. -/
def isDone : Option Json → Bool
  | some (.dict msg) => (Dict.get msg "type").isStr "done"
  | _ => false

/-- What one step can do, as a relation between the states of this hub. -/
inductive Turn (expected : List String) (frontendPlatform : String) (s : Hub φ σ) :
    Action → Hub φ σ → List (Effect σ) → Prop
  /-- what a step of the copy can do, other than reading and seating -/
  | copy {a : Action} {s' : Hub φ σ} {effects : List (Effect σ)}
      (h : Hub.Turn frontendPlatform s a s' effects)
      (hread : ∀ conn reading, a ≠ .read conn reading)
      (hregister : ∀ conn ok, a ≠ .register conn ok) :
      Turn expected frontendPlatform s a s' effects
  /-- a thread has read something and is not about to set the event -/
  | read {conn : ℕ} {reading : Reading} {point : HandlerPoint φ} {lines : ℕ → List Line}
      (hpoint : point ≠ .setting)
      (hregistering : ∀ peer, point = .registering peer → Admissible frontendPlatform peer) :
      Turn expected frontendPlatform s (.read conn reading)
        ({ s with lines := lines }.setHandler conn point) []
  /-- a `done` is read -/
  | done {conn : ℕ} {platform : String} {line : Line} {rest : List Line}
      (hreading : s.handlers conn = some (.reading platform))
      (hlines : s.lines conn = line :: rest) (hdone : isDone line.value = true) :
      Turn expected frontendPlatform s (.read conn .line)
        ((s.setLines conn rest).setHandler conn .setting) []
  /-- a seat is taken, or taken over -/
  | seat {conn : ℕ} {ok : Bool} {peer : PortablePeer φ} {point : HandlerPoint φ} {joined : Bool}
      (hregistering : s.handlers conn = some (.registering peer))
      (hjoined : joined = true → s.allJoined = true ∨
        ∀ platform ∈ expected, platform ∈ s.connected.insert peer.platform peer)
      (hpoint : point ≠ .setting) (hnot : ∀ other, point ≠ .registering other) :
      Turn expected frontendPlatform s (.register conn ok)
        ({ s with
            connected := s.connected.insert peer.platform peer
            clientConns := s.clientConns.insert peer.platform conn
            allJoined := joined }.setHandler conn point) []

variable {python : Conversions φ} {frontendPlatform : String} {expected : List String}
  {planInferShards : List (PortablePeer φ) → Option σ}
  {guard : Hub φ σ → Action → Bool} {s s' : Hub φ σ} {effects : List (Effect σ)}

/-- A join that is examined and becomes a peer has a platform and a role that this hub admits. -/
theorem admissible_of_examineJoin {msg : Dict} {peer : PortablePeer φ}
    (h : examineJoin python frontendPlatform msg = .peer peer) :
    Admissible frontendPlatform peer := by
  unfold examineJoin at h
  dsimp only at h
  generalize python.str (Dict.getD msg "platform" (Json.str "")) = platform at h
  generalize joinRole python frontendPlatform msg platform = role at h
  split_ifs at h with hseat hrole hreserved hmust
  split at h
  case h_1 => cases h
  case h_2 usableGb _ =>
    split at h
    case h_1 => cases h
    case h_2 dataPort _ =>
      split at h
      case isTrue => cases h
      case isFalse =>
        cases h
        refine ⟨by simpa using hseat, ?_⟩
        show role = if platform = frontendPlatform then "frontend" else "worker"
        by_cases hfrontend : platform = frontendPlatform
        · rw [if_pos hfrontend]
          by_contra hother
          exact hmust ⟨hfrontend, hother⟩
        · rw [if_neg hfrontend]
          have hnot : role ≠ "frontend" := fun hrole => hreserved ⟨hrole, hfrontend⟩
          by_contra hother
          exact hrole ⟨hnot, hother⟩

/-- A first message that becomes a peer is a join that this hub admits. -/
theorem admissible_of_greet {msg : Json} {peer : PortablePeer φ}
    (h : greet python frontendPlatform msg = .peer peer) : Admissible frontendPlatform peer := by
  unfold greet at h
  split at h
  case h_1 => cases h
  case h_3 => cases h
  case h_2 items =>
    split at h
    case isTrue => exact admissible_of_examineJoin h
    case isFalse => cases h

/-- The reaction to a line is `done` only if the line is a dictionary of that type. -/
theorem isDone_of_react {value : Json} (h : react python value = .done) :
    isDone (some value) = true := by
  unfold react at h
  split at h
  case h_1 => cases h
  case h_3 => cases h
  case h_2 msg =>
    split_ifs at h with hdone
    exact hdone

/-- A thread that has read something, and is neither registering nor about to set the event. -/
theorem Turn.settle {conn : ℕ} {reading : Reading} {point : HandlerPoint φ}
    (lines : ℕ → List Line) (hpoint : point ≠ .setting)
    (hnot : ∀ peer, point ≠ .registering peer) :
    Turn expected frontendPlatform s (.read conn reading)
      ({ s with lines := lines }.setHandler conn point) [] :=
  .read hpoint fun peer heq => absurd heq (hnot peer)

/-- Reading a first message is a turn, whether it is a join, another message or no message at
    all. -/
theorem turn_readJoin {conn : ℕ} {lines : List Line} {value : Option Json} :
    Turn expected frontendPlatform s (.read conn .line)
      (readJoin python frontendPlatform (s.setLines conn lines) conn value) [] := by
  unfold readJoin
  split
  · exact .settle _ (by simp) (by simp)
  · split
    case h_1 => exact .settle _ (by simp) (by simp)
    case h_2 => exact .settle _ (by simp) (by simp)
    case h_3 => exact .settle _ (by simp) (by simp)
    case h_4 peer hgreet =>
      refine .read (by simp) fun other heq => ?_
      cases heq
      exact admissible_of_greet hgreet

/-- Reading a later line of a client is a turn, whatever the line holds and whoever holds the seat
    by now. -/
theorem turn_readLine {conn : ℕ} {platform : String} {line : Line} {rest : List Line}
    (hreading : s.handlers conn = some (.reading platform))
    (hlines : s.lines conn = line :: rest) :
    Turn expected frontendPlatform s (.read conn .line)
      (readLine python (s.setLines conn rest) conn platform line.value) [] := by
  unfold readLine
  split
  case h_1 => exact .settle _ (by simp) (by simp)
  case h_2 value hvalue =>
    split
    case h_1 => exact .settle _ (by simp) (by simp)
    case h_2 hdone => exact .done hreading hlines (hvalue ▸ isDone_of_react hdone)
    case h_3 => exact .settle _ (by simp) (by simp)
    case h_4 => exact .settle _ (by simp) (by simp)

/-- Every way in which a read can end is a turn of this hub. -/
theorem turn_read {conn : ℕ} {reading : Reading}
    (h : read python frontendPlatform s conn reading = some s') :
    Turn expected frontendPlatform s (.read conn reading) s' [] := by
  have hsettle : ∀ point : HandlerPoint φ, point ≠ .setting → (∀ peer, point ≠ .registering peer) →
      Turn expected frontendPlatform s (.read conn reading) (s.setHandler conn point) [] :=
    fun point hpoint hnot => .settle s.lines hpoint hnot
  unfold read at h
  split at h
  case h_1 =>
    split at h
    case h_1 => cases h
    case h_2 line lines hlines => exact Option.some.inj h ▸ turn_readJoin
  case h_2 => exact Option.some.inj h ▸ hsettle _ (by simp) (by simp)
  case h_3 => exact Option.some.inj h ▸ hsettle _ (by simp) (by simp)
  case h_4 platform hpoint =>
    split at h
    case h_1 => cases h
    case h_2 line lines hlines => exact Option.some.inj h ▸ turn_readLine hpoint hlines
  case h_5 platform hpoint => exact Option.some.inj h ▸ hsettle _ (by simp) (by simp)
  case h_6 => exact Option.some.inj h ▸ hsettle _ (by simp) (by simp)
  case h_7 => cases h

/-- To register a peer is a turn, whether its seat was free or is taken over. -/
theorem turn_register {conn : ℕ} {peer : PortablePeer φ} {ok : Bool}
    (hpoint : s.handlers conn = some (.registering peer)) :
    Turn expected frontendPlatform s (.register conn ok) (register expected s conn peer ok) [] := by
  cases ok with
  | true =>
    refine .seat hpoint (fun hjoined => ?_) (by simp) (by simp)
    rcases Bool.or_eq_true_iff.mp hjoined with hbefore | hall
    · exact .inl hbefore
    · exact .inr fun seat hseat => of_decide_eq_true (List.all_eq_true.mp hall seat hseat)
  | false => exact .seat hpoint .inl (by simp) (by simp)

/-- A step of a guarded run is one that the guard allows. -/
theorem guard_of_steps {l : Hub.Label σ}
    (h : Steps python frontendPlatform expected planInferShards guard s l s') :
    guard s l.1 = true := by
  rw [Steps, guarded] at h
  split at h
  case isTrue hguard => exact hguard
  case isFalse => cases h

/-- Whatever step this hub takes, it is one of the turns. -/
theorem turn_of_steps {l : Hub.Label σ}
    (h : Steps python frontendPlatform expected planInferShards guard s l s') :
    Turn expected frontendPlatform s l.1 s' l.2 := by
  have hguard := guard_of_steps h
  rw [Steps, guarded, if_pos hguard] at h
  obtain ⟨action, effects⟩ := l
  cases action with
  | read conn reading =>
    obtain ⟨t, ht, heq⟩ := Option.map_eq_some_iff.mp h
    obtain ⟨rfl, rfl⟩ := Prod.mk.inj heq
    exact turn_read ht
  | register conn ok =>
    unfold step at h
    dsimp only at h
    split at h
    case h_1 peer hpoint =>
      obtain ⟨rfl, rfl⟩ := Prod.mk.inj (Option.some.inj h)
      exact turn_register hpoint
    case h_2 => cases h
  | _ =>
    refine .copy (@Hub.turn_of_steps φ σ python frontendPlatform planInferShards Hub.anyStep s s'
      (_, effects) ?_) (by simp) (by simp)
    exact h

end InferenceHub

end ShareCompute.Simulation
