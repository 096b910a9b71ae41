import ShareCompute.Simulation.PortableHub

namespace ShareCompute.Simulation

open ShareCompute.Library ShareCompute.Cluster

/-!
# Runs of the hub

What a step of `run_hub` can do, and what holds in every run, whatever the clients send.

* `Hub.Turn` — what a step can do; `Hub.turn_of_steps` reads it off the code.
* `Hub.Seats` — who is seated, with which role.
* `Hub.Progress` — what was planned and sent.
-/

/-- Points at which a thread knows nothing yet, or has nothing to do but fail. -/
def HandlerPoint.quiet {φ : Type} : HandlerPoint φ → Bool
  | .joining | .rejecting | .failing _ | .finished => true
  | _ => false

/-- The seat that a thread serves in its loop. -/
def HandlerPoint.seat {φ : Type} : HandlerPoint φ → Option String
  | .looping platform | .reading platform | .probing platform => some platform
  | _ => none

/-- The main thread has seen that everybody has joined. -/
def MainPoint.allSeated {σ : Type} : MainPoint σ → Bool
  | .accepting | .checking | .returned _ => false
  | _ => true

/-- What `run_hub` has returned, if it has. -/
def MainPoint.exitCode {σ : Type} : MainPoint σ → Option ℕ
  | .returned code => some code
  | _ => none

namespace Hub

variable {φ σ : Type}

/-- A step with what it makes visible. -/
abbrev Label (σ : Type) := Action × List (Effect σ)

section

variable (python : Conversions φ) (frontendPlatform : String)
  (planPortableShards : List (PortablePeer φ) → Option σ)

/-- The steps that meet `guard`, a condition on the state before them. -/
def guarded (guard : Hub φ σ → Action → Bool) (s : Hub φ σ) (action : Action) :
    Option (Hub φ σ × List (Effect σ)) :=
  if guard s action then s.step python frontendPlatform planPortableShards action else none

/-- A step of the hub that the guard allows, with the messages it sends, as a relation. -/
def Steps (guard : Hub φ σ → Action → Bool) (s : Hub φ σ) (l : Label σ) (s' : Hub φ σ) : Prop :=
  s.guarded python frontendPlatform planPortableShards guard l.1 = some (s', l.2)

end

/-- The guard that allows every step, so that its runs are all runs. -/
def anyStep : Hub φ σ → Action → Bool := fun _ _ => true

/-! ### What a step can do -/

/-- The peer has the role that its platform requires. -/
structure Admissible (frontendPlatform : String) (peer : PortablePeer φ) : Prop where
  platform : peer.platform ∈ portableSeats
  role : peer.role = if peer.platform = frontendPlatform then "frontend" else "worker"

variable {python : Conversions φ} {frontendPlatform : String}
  {planPortableShards : List (PortablePeer φ) → Option σ}

/-- A join that is examined and becomes a peer has a platform and a role that the hub admits. -/
theorem admissible_of_examineJoin {msg : Dict} {peer : PortablePeer φ}
    (h : examineJoin python frontendPlatform msg = .peer peer) :
    Admissible frontendPlatform peer := by
  unfold examineJoin at h
  dsimp only at h
  generalize python.str (Dict.getD msg "platform" (Json.str "")) = platform at h
  generalize joinRole python frontendPlatform msg platform = role at h
  split_ifs at h with hseat hrole hreserved hmust
  split at h
  case h_1 => cases h
  case h_2 usableGb _ =>
    split at h
    case h_1 => cases h
    case h_2 dataPort _ =>
      split at h
      case isTrue => cases h
      case isFalse =>
        cases h
        refine ⟨by simpa using hseat, ?_⟩
        by_cases hfrontend : platform = frontendPlatform
        · rw [if_pos hfrontend]
          by_contra hother
          exact hmust ⟨hfrontend, hother⟩
        · rw [if_neg hfrontend]
          have hnot : role ≠ "frontend" := fun hrole => hreserved ⟨hrole, hfrontend⟩
          by_contra hother
          exact hrole ⟨hnot, hother⟩

/-- A first message that becomes a peer is a join that the hub admits. -/
theorem admissible_of_greet {msg : Json} {peer : PortablePeer φ}
    (h : greet python frontendPlatform msg = .peer peer) : Admissible frontendPlatform peer := by
  unfold greet at h
  split at h
  case h_1 => cases h
  case h_3 => cases h
  case h_2 items =>
    split at h
    case isTrue => exact admissible_of_examineJoin h
    case isFalse => cases h

/-- A `done` is heard only from the frontend. -/
theorem done_of_react {platform : String} {value : Json}
    (h : react python frontendPlatform platform value = .done) :
    platform = frontendPlatform ∧
      ∃ msg, value = .dict msg ∧ (Dict.get msg "type").isStr "done" = true := by
  unfold react at h
  split at h
  case h_1 => cases h
  case h_3 => cases h
  case h_2 msg =>
    split_ifs at h with hdone hplatform
    exact ⟨hplatform, msg, rfl, hdone⟩

/-! The steps of the threads. -/

/-- Where a thread can go without changing what is shared. -/
inductive Follows (frontendPlatform : String) (s : Hub φ σ) (conn : ℕ) : HandlerPoint φ → Prop
  | quiet {point : HandlerPoint φ} (h : point.quiet = true) : Follows frontendPlatform s conn point
  | registering {peer : PortablePeer φ} (h : Admissible frontendPlatform peer) :
      Follows frontendPlatform s conn (.registering peer)
  | seated {point point' : HandlerPoint φ} {platform : String} (hwas : s.handlers conn = some point)
      (hseat : point.seat = some platform) (hseat' : point'.seat = some platform) :
      Follows frontendPlatform s conn point'

/-- What one step can do, as a relation between the states of the hub. -/
inductive Turn (frontendPlatform : String) (s : Hub φ σ) :
    Action → Hub φ σ → List (Effect σ) → Prop
  | send {conn : ℕ} {value : Option Json} :
      Turn frontendPlatform s (.send conn value)
        (s.setLines conn (s.lines conn ++ [⟨value, s.main.afterBroadcast⟩])) []
  /-- a thread moves on, and may have read a line -/
  | thread {a : Action} {conn : ℕ} {point : HandlerPoint φ} {lines : ℕ → List Line}
      (hfollows : Follows frontendPlatform s conn point)
      (hlines : ∀ c, lines c ⊆ s.lines c) :
      Turn frontendPlatform s a ({ s with lines := lines }.setHandler conn point) []
  /-- the frontend's `done` is read -/
  | done {conn : ℕ} {line : Line} {rest : List Line} {msg : Dict}
      (hreading : s.handlers conn = some (.reading frontendPlatform))
      (hlines : s.lines conn = line :: rest) (hvalue : line.value = some (.dict msg))
      (htype : (msg.get "type").isStr "done" = true) :
      Turn frontendPlatform s (.read conn .line)
        ((s.setLines conn rest).setHandler conn .setting) []
  /-- a seat is taken -/
  | seat {conn : ℕ} {ok : Bool} {peer : PortablePeer φ} {point : HandlerPoint φ} {joined : Bool}
      (hregistering : s.handlers conn = some (.registering peer))
      (hfree : peer.platform ∉ s.connected)
      (hjoined : joined = true → s.allJoined = true ∨
        ∀ seat ∈ portableSeats, seat ∈ s.connected.insert peer.platform peer)
      (hpoint : point = .looping peer.platform ∨ point.quiet = true) :
      Turn frontendPlatform s (.register conn ok)
        ({ s with
            connected := s.connected.insert peer.platform peer
            clientConns := s.clientConns.insert peer.platform conn
            allJoined := joined }.setHandler conn point) []
  | record {conn : ℕ} {reason : String} (hfailing : s.handlers conn = some (.failing reason)) :
      Turn frontendPlatform s (.record conn)
        ({ s with failReason := s.failReason ++ [reason] }.setHandler conn .setting) []
  | set {conn : ℕ} (hsetting : s.handlers conn = some .setting) :
      Turn frontendPlatform s (.set conn)
        ({ s with pipelineDone := true }.setHandler conn .finished) []
  | leave (hmain : s.main = .accepting) :
      Turn frontendPlatform s .leave { s with main := .checking } []
  | joined (hmain : s.main = .checking) (hjoined : s.allJoined = true) :
      Turn frontendPlatform s .check { s with main := .planning } []
  | plan {shards : σ} (hmain : s.main = .planning) :
      Turn frontendPlatform s .plan { s with main := .planned shards } [.planned shards]
  | snapshot {shards : σ} (hmain : s.main = .planned shards) :
      Turn frontendPlatform s .snapshot
        { s with main := .broadcasting shards (Dictionary.values s.clientConns) } []
  | sendPlan {shards : σ} {conn : ℕ} {conns : List ℕ}
      (hmain : s.main = .broadcasting shards (conn :: conns)) :
      Turn frontendPlatform s (.sendPlan true)
        { s with main := .broadcasting shards conns } [.planSent conn shards]
  | broadcastEnded {shards : σ} {ok : Bool} (hmain : s.main = .broadcasting shards []) :
      Turn frontendPlatform s (.sendPlan ok) { s with main := .waiting } [.broadcastEnded]
  | stopWaiting (hmain : s.main = .waiting) :
      Turn frontendPlatform s .stopWaiting { s with main := .collecting } []
  | collect (hmain : s.main = .collecting) :
      Turn frontendPlatform s .collect { s with main := .deciding s.failReason } []
  | failed {a : Action} : Turn frontendPlatform s a (s.return_ 1) []
  | succeeded (hmain : s.main = .deciding []) (hdone : s.pipelineDone = true) :
      Turn frontendPlatform s .decide (s.return_ 0) [.succeeded]

variable {guard : Hub φ σ → Action → Bool} {s s' : Hub φ σ} {effects : List (Effect σ)}

/-- A handler moves to a point that follows where it was, and nothing is sent. -/
theorem Turn.move {a : Action} {conn : ℕ} {point : HandlerPoint φ}
    (hfollows : Follows frontendPlatform s conn point) :
    Turn frontendPlatform s a (s.setHandler conn point) [] :=
  have hlines : ∀ c, s.lines c ⊆ s.lines c := fun _ => List.Subset.refl _
  .thread hfollows hlines

/-- A thread has read the first of its lines. -/
theorem subset_setLines {conn : ℕ} {line : Line} {rest : List Line}
    (hlines : s.lines conn = line :: rest) (c : ℕ) :
    Function.update s.lines conn rest c ⊆ s.lines c := by
  rcases eq_or_ne c conn with rfl | hne
  · rw [Function.update_self, hlines]
    exact List.subset_cons_self _ _
  · rw [Function.update_of_ne hne]
    exact List.Subset.refl _

/-- Reading a first message is a turn, whether it is a join, another message or no message at
    all. -/
theorem turn_readJoin {a : Action} {conn : ℕ} {line : Line} {rest : List Line}
    (hlines : s.lines conn = line :: rest) :
    Turn frontendPlatform s a
      ((s.setLines conn rest).readJoin python frontendPlatform conn line.value) [] := by
  have hmove : ∀ point, Follows frontendPlatform s conn point →
      Turn frontendPlatform s a ((s.setLines conn rest).setHandler conn point) [] :=
    fun point hfollows => .thread hfollows (subset_setLines hlines)
  unfold readJoin
  split
  · exact hmove _ (.quiet rfl)
  · split
    case h_1 => exact hmove _ (.quiet rfl)
    case h_2 => exact hmove _ (.quiet rfl)
    case h_3 => exact hmove _ (.quiet rfl)
    case h_4 peer hgreet => exact hmove _ (.registering (admissible_of_greet hgreet))

/-- Reading a later line of a seated client is a turn, whatever the line holds. -/
theorem turn_readLine {conn : ℕ} {platform : String} {line : Line} {rest : List Line}
    (hreading : s.handlers conn = some (.reading platform))
    (hlines : s.lines conn = line :: rest) :
    Turn frontendPlatform s (.read conn .line)
      ((s.setLines conn rest).readLine python frontendPlatform conn platform line.value) [] := by
  have hmove : ∀ point, Follows frontendPlatform s conn point →
      Turn frontendPlatform s (.read conn .line)
        ((s.setLines conn rest).setHandler conn point) [] :=
    fun point hfollows => .thread hfollows (subset_setLines hlines)
  unfold readLine
  split
  case h_1 => exact hmove _ (.quiet rfl)
  case h_2 value hvalue =>
    split
    case h_1 => exact hmove _ (.seated hreading rfl rfl)
    case h_2 hdone =>
      obtain ⟨rfl, msg, rfl, htype⟩ := done_of_react hdone
      exact .done hreading hlines hvalue htype
    case h_3 => exact hmove _ (.quiet rfl)
    case h_4 => exact hmove _ (.seated hreading rfl rfl)

/-- Every way in which a read can end is a turn. -/
theorem turn_read {conn : ℕ} {reading : Reading}
    (h : s.read python frontendPlatform conn reading = some s') :
    Turn frontendPlatform s (.read conn reading) s' [] := by
  unfold read at h
  split at h
  case h_1 =>
    split at h
    case h_1 => cases h
    case h_2 line lines hlines =>
      obtain rfl := Option.some.inj h
      exact turn_readJoin hlines
  case h_2 => exact Option.some.inj h ▸ .move (.quiet rfl)
  case h_3 => exact Option.some.inj h ▸ .move (.quiet rfl)
  case h_4 platform hpoint =>
    split at h
    case h_1 => cases h
    case h_2 line lines hlines =>
      obtain rfl := Option.some.inj h
      exact turn_readLine hpoint hlines
  case h_5 platform hpoint => exact Option.some.inj h ▸ .move (.seated hpoint rfl rfl)
  case h_6 => exact Option.some.inj h ▸ .move (.quiet rfl)
  case h_7 => cases h

/-- To register a peer is a turn, whether the reply reaches the client or not. -/
theorem turn_register {conn : ℕ} {peer : PortablePeer φ} {ok : Bool}
    (hpoint : s.handlers conn = some (.registering peer)) :
    Turn frontendPlatform s (.register conn ok) (s.register conn peer ok) [] := by
  unfold register
  split
  case isTrue => cases ok <;> exact .move (.quiet rfl)
  case isFalse hfree =>
    cases ok with
    | true =>
      refine .seat hpoint hfree (fun hjoined => ?_) (.inl rfl)
      rcases Bool.or_eq_true_iff.mp hjoined with hbefore | hall
      · exact .inl hbefore
      · exact .inr (fun seat hseat => of_decide_eq_true (List.all_eq_true.mp hall seat hseat))
    | false => exact .seat hpoint hfree .inl (.inr rfl)

/-- Every step of a handler is a turn. -/
theorem turn_handler {a : Action}
    (h : s.handlerStep python frontendPlatform a = some s') : Turn frontendPlatform s a s' [] := by
  unfold handlerStep at h
  split at h
  case h_1 conn reading => exact turn_read h
  case h_2 conn ok =>
    split at h
    case h_1 => cases ok <;> exact Option.some.inj h ▸ .move (.quiet rfl)
    case h_2 => cases h
  case h_3 conn ok =>
    split at h
    case h_1 peer hpoint => exact Option.some.inj h ▸ turn_register hpoint
    case h_2 => cases h
  case h_4 conn again =>
    split at h
    case h_1 platform hpoint =>
      split at h
      · exact Option.some.inj h ▸ .move (.seated hpoint rfl rfl)
      · exact Option.some.inj h ▸ .move (.quiet rfl)
    case h_2 => cases h
  case h_5 conn gone =>
    split at h
    case h_1 platform hpoint =>
      cases gone with
      | true => exact Option.some.inj h ▸ .move (.quiet rfl)
      | false => exact Option.some.inj h ▸ .move (.seated hpoint rfl rfl)
    case h_2 => cases h
  case h_6 conn =>
    split at h
    case h_1 reason hpoint => exact Option.some.inj h ▸ .record hpoint
    case h_2 => cases h
  case h_7 conn =>
    split at h
    case h_1 hpoint => exact Option.some.inj h ▸ .set hpoint
    case h_2 => cases h
  case h_8 => cases h

/-- Planning is a turn: there is a plan, or the run fails with a reason. -/
theorem turn_plan (hmain : s.main = .planning) :
    Turn frontendPlatform s .plan (s.plan frontendPlatform planPortableShards).1
      (s.plan frontendPlatform planPortableShards).2 := by
  unfold plan
  dsimp only
  split
  case h_1 =>
    split
    case isTrue => exact .failed
    case isFalse =>
      split
      case h_1 => exact .failed
      case h_2 => exact .plan hmain
  case h_2 => exact .failed

/-- Every step of the main thread is a turn. -/
theorem turn_main {a : Action}
    (h : s.mainStep frontendPlatform planPortableShards a = some (s', effects)) :
    Turn frontendPlatform s a s' effects := by
  unfold mainStep at h
  split at h
  case h_1 conn _ =>
    split at h
    case h_1 =>
      obtain ⟨rfl, rfl⟩ := Prod.mk.inj (Option.some.inj h)
      exact .move (.quiet rfl)
    case h_2 => cases h
  case h_2 hmain =>
    obtain ⟨rfl, rfl⟩ := Prod.mk.inj (Option.some.inj h)
    exact .leave hmain
  case h_3 hmain =>
    obtain ⟨hs, rfl⟩ := Prod.mk.inj (Option.some.inj h)
    split at hs
    · exact hs ▸ .joined hmain ‹_›
    · exact hs ▸ .failed
  case h_4 hmain =>
    have hplan : Turn frontendPlatform s .plan (s.plan frontendPlatform planPortableShards).1
      (s.plan frontendPlatform planPortableShards).2 := turn_plan hmain
    rwa [Option.some.inj h] at hplan
  case h_5 shards hmain =>
    obtain ⟨rfl, rfl⟩ := Prod.mk.inj (Option.some.inj h)
    exact .snapshot hmain
  case h_6 shards conn conns hmain =>
    obtain ⟨rfl, rfl⟩ := Prod.mk.inj (Option.some.inj h)
    exact .sendPlan hmain
  case h_7 =>
    obtain ⟨rfl, rfl⟩ := Prod.mk.inj (Option.some.inj h)
    exact .failed
  case h_8 shards ok hmain =>
    obtain ⟨rfl, rfl⟩ := Prod.mk.inj (Option.some.inj h)
    exact .broadcastEnded hmain
  case h_9 hmain =>
    obtain ⟨rfl, rfl⟩ := Prod.mk.inj (Option.some.inj h)
    exact .stopWaiting hmain
  case h_10 hmain =>
    obtain ⟨rfl, rfl⟩ := Prod.mk.inj (Option.some.inj h)
    exact .collect hmain
  case h_11 reasons hmain =>
    -- the run succeeds only with no failure noted and `done` set
    split_ifs at h with hreasons hdone
    · obtain ⟨rfl, rfl⟩ := Prod.mk.inj (Option.some.inj h)
      exact .failed
    · obtain ⟨rfl, rfl⟩ := Prod.mk.inj (Option.some.inj h)
      exact .failed
    · obtain ⟨rfl, rfl⟩ := Prod.mk.inj (Option.some.inj h)
      exact .succeeded (by simpa [hmain] using hreasons) (by simpa using hdone)
  case h_12 => cases h

/-- A step of a guarded run is one that the guard allows. -/
theorem guard_of_steps {l : Label σ}
    (h : Steps python frontendPlatform planPortableShards guard s l s') :
    guard s l.1 = true := by
  rw [Steps, guarded] at h
  split at h
  case isTrue hguard => exact hguard
  case isFalse => cases h

/-- Whatever step the hub takes, it is one of the turns. -/
theorem turn_of_steps {l : Label σ}
    (h : Steps python frontendPlatform planPortableShards guard s l s') :
    Turn frontendPlatform s l.1 s' l.2 := by
  have hguard := guard_of_steps h
  rw [Steps, guarded, if_pos hguard] at h
  obtain ⟨action, effects⟩ := l
  cases action with
  | send conn value =>
    obtain ⟨rfl, rfl⟩ := Prod.mk.inj (Option.some.inj h)
    exact .send
  | accept | leave | check | plan | snapshot | sendPlan | stopWaiting | collect | decide =>
    exact turn_main h
  | read | reject | register | test | probe | record | set =>
    obtain ⟨t, ht, heq⟩ := Option.map_eq_some_iff.mp h
    obtain ⟨rfl, rfl⟩ := Prod.mk.inj heq
    exact turn_handler ht

/-- Where a thread is after one of them has moved. -/
theorem handlers_of_update {conn c : ℕ} {point other : HandlerPoint φ}
    (hhandlers : s'.handlers = Function.update s.handlers conn (some point))
    (h : s'.handlers c = some other) :
    c = conn ∧ other = point ∨ c ≠ conn ∧ s.handlers c = some other := by
  rw [hhandlers] at h
  rcases eq_or_ne c conn with rfl | hne
  · rw [Function.update_self] at h
    exact .inl ⟨rfl, (Option.some.inj h).symm⟩
  · rw [Function.update_of_ne hne] at h
    exact .inr ⟨hne, h⟩

/-! ### Who is seated -/

/-- The two dictionaries and the threads agree on who is seated, and everybody has the role
    that the platform requires. -/
structure Seats (frontendPlatform : String) (s : Hub φ σ) : Prop where
  peers : ∀ platform peer, s.connected.lookup platform = some peer →
    peer.platform = platform ∧ Admissible frontendPlatform peer
  conns : ∀ platform, platform ∈ s.connected ↔ platform ∈ s.clientConns
  joined : s.allJoined = true → ∀ seat ∈ portableSeats, seat ∈ s.connected
  registering : ∀ conn peer, s.handlers conn = some (.registering peer) →
    Admissible frontendPlatform peer
  seated : ∀ conn point platform, s.handlers conn = some point → point.seat = some platform →
    s.clientConns.lookup platform = some conn

namespace Seats

/-- At the start nobody is seated, and no thread is about to be. -/
theorem start (expected : List String) (frontendPlatform : String) :
    Seats frontendPlatform (Hub.start expected frontendPlatform : Hub φ σ) where
  peers _ _ h := by simp [Hub.start] at h
  conns _ := by simp [Hub.start]
  joined h := by cases h
  registering _ _ h := by cases h
  seated _ _ _ h := by cases h

/-- A thread moves, and who is seated stays the same. -/
theorem move (h : Seats frontendPlatform s) {conn : ℕ} {point : HandlerPoint φ}
    (hconnected : s'.connected = s.connected) (hconns : s'.clientConns = s.clientConns)
    (hjoined : s'.allJoined = s.allJoined)
    (hhandlers : s'.handlers = Function.update s.handlers conn (some point))
    (hregistering : ∀ peer, point = .registering peer → Admissible frontendPlatform peer)
    (hseat : ∀ platform, point.seat = some platform → s.clientConns.lookup platform = some conn) :
    Seats frontendPlatform s' where
  peers := by rw [hconnected]; exact h.peers
  conns := by rw [hconnected, hconns]; exact h.conns
  joined := by rw [hconnected, hjoined]; exact h.joined
  registering c peer hpoint := by
    rcases handlers_of_update hhandlers hpoint with ⟨rfl, heq⟩ | ⟨-, hbefore⟩
    · exact hregistering peer heq.symm
    · exact h.registering c peer hbefore
  seated c point' platform hpoint hseat' := by
    rw [hconns]
    rcases handlers_of_update hhandlers hpoint with ⟨rfl, rfl⟩ | ⟨-, hbefore⟩
    · exact hseat platform hseat'
    · exact h.seated c point' platform hbefore hseat'

/-- A handler that moves to a point that follows keeps the seats as they are. -/
theorem follows (h : Seats frontendPlatform s) {conn : ℕ} {point : HandlerPoint φ}
    {lines : ℕ → List Line} (hfollows : Follows frontendPlatform s conn point) :
    Seats frontendPlatform ({ s with lines := lines }.setHandler conn point) := by
  refine h.move rfl rfl rfl rfl (fun peer hpoint => ?_) (fun platform hseat => ?_)
  · cases hfollows with
    | quiet hquiet => simp [hpoint, HandlerPoint.quiet] at hquiet
    | registering hadmissible =>
      cases hpoint
      exact hadmissible
    | seated hwas hseat hseat' => simp [hpoint, HandlerPoint.seat] at hseat'
  · cases hfollows with
    | quiet hquiet => cases point <;> simp [HandlerPoint.quiet, HandlerPoint.seat] at hquiet hseat
    | registering hadmissible => cases hseat
    | seated hwas hseat₀ hseat' =>
      rw [hseat'] at hseat
      exact h.seated conn _ platform hwas (hseat₀.trans hseat)

/-- A seat is taken, which was free before, by a peer that has joined. -/
theorem seat (h : Seats frontendPlatform s) {conn : ℕ} {peer : PortablePeer φ}
    {point : HandlerPoint φ} {joined : Bool}
    (hregistering : s.handlers conn = some (.registering peer))
    (hfree : peer.platform ∉ s.connected)
    (hjoined : joined = true → s.allJoined = true ∨
      ∀ seat ∈ portableSeats, seat ∈ s.connected.insert peer.platform peer)
    (hpoint : point = .looping peer.platform ∨ point.quiet = true) :
    Seats frontendPlatform ({ s with
      connected := s.connected.insert peer.platform peer
      clientConns := s.clientConns.insert peer.platform conn
      allJoined := joined }.setHandler conn point) where
  peers platform other hlookup := by
    change (s.connected.insert peer.platform peer).lookup platform = some other at hlookup
    rcases eq_or_ne platform peer.platform with rfl | hne
    · rw [AList.lookup_insert] at hlookup
      obtain rfl := Option.some.inj hlookup
      exact ⟨rfl, h.registering conn peer hregistering⟩
    · rw [AList.lookup_insert_ne hne] at hlookup
      exact h.peers platform other hlookup
  conns platform := by
    show platform ∈ s.connected.insert _ _ ↔ platform ∈ s.clientConns.insert _ _
    rw [AList.mem_insert, AList.mem_insert, h.conns]
  joined hall seat hseat := by
    rcases hjoined hall with hbefore | hnow
    · exact (AList.mem_insert _).mpr (.inr (h.joined hbefore seat hseat))
    · exact hnow seat hseat
  registering c other hother := by
    rcases handlers_of_update (s := s) rfl hother with ⟨-, rfl⟩ | ⟨-, hbefore⟩
    · rcases hpoint with heq | hquiet
      · cases heq
      · simp [HandlerPoint.quiet] at hquiet
    · exact h.registering c other hbefore
  -- a handler that is at a seat keeps it: the new peer has taken one that was free
  seated c other platform hother hseat := by
    show (s.clientConns.insert peer.platform conn).lookup platform = some c
    rcases handlers_of_update (s := s) rfl hother with ⟨rfl, rfl⟩ | ⟨-, hbefore⟩
    · rcases hpoint with rfl | hquiet
      · obtain rfl := Option.some.inj hseat
        exact AList.lookup_insert _
      · cases other <;> simp [HandlerPoint.quiet, HandlerPoint.seat] at hquiet hseat
    · have hlookup := h.seated c other platform hbefore hseat
      have hne' : platform ≠ peer.platform := fun heq => hfree (by
        rw [h.conns, ← heq]
        exact AList.lookup_isSome.mp (by rw [hlookup]; rfl))
      rw [AList.lookup_insert_ne hne', hlookup]

/-- A turn keeps what is true of the seats. -/
theorem turn {a : Action} (h : Seats frontendPlatform s)
    (ht : Turn frontendPlatform s a s' effects) : Seats frontendPlatform s' := by
  cases ht with
  | thread hfollows hlines => exact h.follows hfollows
  | seat hregistering hfree hjoined hpoint => exact h.seat hregistering hfree hjoined hpoint
  | done | record | set =>
    exact h.move rfl rfl rfl rfl (fun _ heq => by cases heq) (fun _ heq => by cases heq)
  | _ => exact ⟨h.peers, h.conns, h.joined, h.registering, h.seated⟩

end Seats

/-! ### What was planned and sent -/

/-- All messages that the hub has sent along a run. -/
def events (ls : List (Label σ)) : List (Effect σ) := ls.flatMap Prod.snd

/-- One step more adds its messages at the end. -/
@[simp] theorem events_snoc (ls : List (Label σ)) (l : Label σ) :
    events (ls ++ [l]) = events ls ++ l.2 := by simp [events]

/-- The step that ends the broadcast of the plan. -/
def endsBroadcast (l : Label σ) : Bool :=
  l.2.any (fun | .broadcastEnded => true | _ => false)

/-- The plan was made and sent to everybody who is seated. -/
def Sent (ls : List (Label σ)) (s : Hub φ σ) : Prop :=
  ∃ shards, .planned shards ∈ events ls ∧
    ∀ conn ∈ Dictionary.values s.clientConns, .planSent conn shards ∈ events ls

/-- What was planned and sent so far, by the place where the main thread is. -/
structure Progress (ls : List (Label σ)) (s : Hub φ σ) : Prop where
  seats : s.main.allSeated = true → ∀ seat ∈ portableSeats, seat ∈ s.connected
  planned : ∀ shards, s.main = .planned shards → .planned shards ∈ events ls
  broadcasting : ∀ shards conns, s.main = .broadcasting shards conns →
    .planned shards ∈ events ls ∧ ∀ conn ∈ Dictionary.values s.clientConns,
      conn ∈ conns ∨ .planSent conn shards ∈ events ls
  sent : s.main.afterBroadcast = true → Sent ls s
  ended : s.main.afterBroadcast = true → ls.any endsBroadcast = true

namespace Progress

variable {ls : List (Label σ)}

/-- Behind the broadcast all seats are taken. -/
theorem allSeated_of_afterBroadcast {main : MainPoint σ} (h : main.afterBroadcast = true) :
    main.allSeated = true := by
  cases main <;> simp [MainPoint.afterBroadcast, MainPoint.allSeated] at h ⊢

/-- At the start nothing was planned and nothing was sent. -/
theorem start (expected : List String) (frontendPlatform : String) :
    Progress [] (Hub.start expected frontendPlatform : Hub φ σ) := by
  have hmain : (Hub.start expected frontendPlatform : Hub φ σ).main = .accepting ∨
      (Hub.start expected frontendPlatform : Hub φ σ).main = .returned 2 := by
    simp only [Hub.start]
    split
    · exact .inl rfl
    · exact .inr rfl
  constructor <;> rcases hmain with hmain | hmain <;>
    simp [hmain, MainPoint.allSeated, MainPoint.afterBroadcast]

/-- Where nothing changes that the main thread looks at. -/
theorem same (h : Progress ls s) (l : Label σ) (hmain : s'.main = s.main)
    (hconnected : s'.connected = s.connected) (hconns : s'.clientConns = s.clientConns) :
    Progress (ls ++ [l]) s' where
  seats := by rw [hmain, hconnected]; exact h.seats
  planned shards hplanned := by
    rw [events_snoc]
    exact List.mem_append_left _ (h.planned shards (hmain ▸ hplanned))
  broadcasting shards conns hpoint := by
    rw [hmain] at hpoint
    obtain ⟨hplanned, hsent⟩ := h.broadcasting shards conns hpoint
    rw [events_snoc, hconns]
    exact ⟨List.mem_append_left _ hplanned,
      fun conn hconn => (hsent conn hconn).imp_right (List.mem_append_left _)⟩
  sent hafter := by
    obtain ⟨shards, hplanned, hsent⟩ := h.sent (hmain ▸ hafter)
    refine ⟨shards, ?_, fun conn hconn => ?_⟩
    · rw [events_snoc]
      exact List.mem_append_left _ hplanned
    · rw [events_snoc]
      exact List.mem_append_left _ (hsent conn (hconns ▸ hconn))
  ended hafter := by
    rw [List.any_append, h.ended (hmain ▸ hafter), Bool.true_or]

/-- The main thread is at a point before the plan, or has returned. -/
theorem early (l : Label σ) {main : MainPoint σ} {done : Bool}
    (hseats : main.allSeated = true → ∀ seat ∈ portableSeats, seat ∈ s.connected)
    (hplanned : ∀ shards, main ≠ .planned shards)
    (hbroadcasting : ∀ shards conns, main ≠ .broadcasting shards conns)
    (hafter : main.afterBroadcast = false) :
    Progress (ls ++ [l]) { s with main := main, pipelineDone := done } where
  seats := hseats
  planned shards heq := absurd heq (hplanned shards)
  broadcasting shards conns heq := absurd heq (hbroadcasting shards conns)
  sent heq := by simp [hafter] at heq
  ended heq := by simp [hafter] at heq

/-- The main thread moves on after the broadcast. -/
theorem late (h : Progress ls s) (l : Label σ) {main : MainPoint σ}
    (hwas : s.main.afterBroadcast = true) (hplanned : ∀ shards, main ≠ .planned shards)
    (hbroadcasting : ∀ shards conns, main ≠ .broadcasting shards conns) :
    Progress (ls ++ [l]) { s with main := main } where
  seats _ := h.seats (allSeated_of_afterBroadcast hwas)
  planned shards heq := absurd heq (hplanned shards)
  broadcasting shards conns heq := absurd heq (hbroadcasting shards conns)
  sent _ := by
    obtain ⟨shards, hmade, hsent⟩ := h.sent hwas
    refine ⟨shards, ?_, fun conn hconn => ?_⟩
    · rw [events_snoc]
      exact List.mem_append_left _ hmade
    · rw [events_snoc]
      exact List.mem_append_left _ (hsent conn hconn)
  ended _ := by rw [List.any_append, h.ended hwas, Bool.true_or]

/-- A turn keeps the progress, with the messages that it sends. -/
theorem turn {l : Label σ} (h : Progress ls s) (hseats : Seats frontendPlatform s)
    (ht : Turn frontendPlatform s l.1 s' l.2) : Progress (ls ++ [l]) s' := by
  obtain ⟨a, effects⟩ := l
  cases ht with
  | send | thread | done | record | set => exact h.same _ rfl rfl rfl
  | @seat conn ok peer point joined hregistering hfree hjoined hpoint =>
    -- a seat is free only while the main thread still accepts
    have hnot : s.main.allSeated ≠ true := fun hall =>
      hfree (h.seats hall _ (hseats.registering conn peer hregistering).platform)
    have hafter : s.main.afterBroadcast ≠ true := fun hafter =>
      hnot (allSeated_of_afterBroadcast hafter)
    constructor
    · exact fun hall => absurd hall hnot
    · exact fun shards heq => absurd (by rw [show s.main = _ from heq]; rfl) hnot
    · exact fun shards conns heq => absurd (by rw [show s.main = _ from heq]; rfl) hnot
    · exact fun heq => absurd heq hafter
    · exact fun heq => absurd heq hafter
  | leave hmain =>
    exact early _ (by simp [MainPoint.allSeated]) (by simp) (by simp) rfl
  | joined hmain hjoined =>
    exact early _ (fun _ => hseats.joined hjoined) (by simp) (by simp) rfl
  | failed => exact early _ (by simp [MainPoint.allSeated]) (by simp) (by simp) rfl
  | succeeded => exact early _ (by simp [MainPoint.allSeated]) (by simp) (by simp) rfl
  | @plan shards hmain =>
    constructor
    · exact fun _ => h.seats (by rw [hmain]; rfl)
    · intro shards' heq
      cases heq
      rw [events_snoc]
      exact List.mem_append_right _ (List.mem_singleton_self _)
    · exact fun _ _ heq => by cases heq
    · exact fun heq => by cases heq
    · exact fun heq => by cases heq
  | @snapshot shards hmain =>
    constructor
    · exact fun _ => h.seats (by rw [hmain]; rfl)
    · exact fun _ heq => by cases heq
    · intro shards' conns heq
      cases heq
      rw [events_snoc]
      exact ⟨List.mem_append_left _ (h.planned shards hmain), fun conn hconn => .inl hconn⟩
    · exact fun heq => by cases heq
    · exact fun heq => by cases heq
  | @sendPlan shards conn conns hmain =>
    obtain ⟨hplanned, hsent⟩ := h.broadcasting shards (conn :: conns) hmain
    constructor
    · exact fun _ => h.seats (by rw [hmain]; rfl)
    · exact fun _ heq => by cases heq
    · intro shards' conns' heq
      cases heq
      rw [events_snoc]
      refine ⟨List.mem_append_left _ hplanned, fun c hc => ?_⟩
      rcases hsent c hc with hrest | hbefore
      · rcases List.mem_cons.mp hrest with rfl | hrest
        · exact .inr (List.mem_append_right _ (List.mem_singleton_self _))
        · exact .inl hrest
      · exact .inr (List.mem_append_left _ hbefore)
    · exact fun heq => by cases heq
    · exact fun heq => by cases heq
  | @broadcastEnded shards ok hmain =>
    obtain ⟨hplanned, hsent⟩ := h.broadcasting shards [] hmain
    constructor
    · exact fun _ => h.seats (by rw [hmain]; rfl)
    · exact fun _ heq => by cases heq
    · exact fun _ _ heq => by cases heq
    · intro _
      refine ⟨shards, ?_, fun conn hconn => ?_⟩
      · rw [events_snoc]
        exact List.mem_append_left _ hplanned
      · rw [events_snoc]
        exact List.mem_append_left _ ((hsent conn hconn).resolve_left List.not_mem_nil)
    · intro _
      rw [List.any_append]
      exact Bool.or_eq_true_iff.mpr (.inr rfl)
  | stopWaiting hmain =>
    exact h.late _ (by rw [hmain]; rfl) (by simp) (by simp)
  | collect hmain =>
    exact h.late _ (by rw [hmain]; rfl) (by simp) (by simp)

end Progress

end Hub

end ShareCompute.Simulation
