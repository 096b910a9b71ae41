import ShareCompute.Simulation.HubSuccess
import ShareCompute.Simulation.InferenceHub
import ShareCompute.Simulation.ShardPlans

namespace ShareCompute.Simulation

open ShareCompute.Library ShareCompute.Cluster

/-!
# When the Phase A hub succeeds

A return of 0 means that the event was set and that no reason had been recorded when the main
thread looked.  The event is set by any `done`, from whoever holds a connection, at any time
after a `join`; seats can change hands at any time; and a failure may be recorded just after
the main thread has looked.

* `InferenceHub.orderly` — none of the three happens.
* `InferenceHub.Clean` — the event is then set only for a failure that was recorded or for a
  `done` that the seated frontend sent after the broadcast.
* `inference_hub_success` — success is sound then; `worker_done`, `late_takeover` and
  `unseen_disconnect` are runs where one of the three happens and it is not.
-/

/-- The main thread has not copied the connections yet. -/
def MainPoint.beforeSnapshot {σ : Type} : MainPoint σ → Bool
  | .accepting | .checking | .planning | .planned _ | .returned _ => true
  | _ => false

/-- Before the snapshot the broadcast has not ended. -/
theorem MainPoint.not_afterBroadcast_of_beforeSnapshot {σ : Type} {main : MainPoint σ}
    (h : main.beforeSnapshot = true) : main.afterBroadcast = false := by
  cases main <;> simp [beforeSnapshot, afterBroadcast] at h ⊢

namespace InferenceHub

open Hub (setHandler setLines return_ events events_snoc handlers_of_update)

variable {φ σ : Type} {python : Conversions φ} {frontendPlatform : String} {expected : List String}
  {planInferShards : List (PortablePeer φ) → Option σ}
  {guard : Hub φ σ → Action → Bool} {s s' : Hub φ σ} {effects : List (Effect σ)}
  {ls : List (Hub.Label σ)}

/-! ### Orderly runs -/

/-- A `done` is read only by the thread of the connection that is seated as the frontend, and
    after the broadcast. -/
def seatedDone (frontendPlatform : String) (s : Hub φ σ) : Action → Bool
  | .read conn .line =>
      match s.handlers conn, s.lines conn with
      | some (.reading _), line :: _ =>
          !isDone line.value ||
            (s.main.afterBroadcast && decide (s.clientConns.lookup frontendPlatform = some conn))
      | _, _ => true
  | _ => true

/-- No seat is taken over once the connections have been copied. -/
def steadySeats (s : Hub φ σ) : Action → Bool
  | .register _ _ => s.main.beforeSnapshot
  | _ => true

/-- No failure is recorded while the main thread decides on the copy of none, unless the event
    has been set before. -/
def steadyReasons (s : Hub φ σ) : Action → Bool
  | .record _ =>
      match s.main with
      | .deciding [] => s.pipelineDone
      | _ => true
  | _ => true

/-- The three conditions on a step together. -/
def orderly (frontendPlatform : String) (s : Hub φ σ) (a : Action) : Bool :=
  seatedDone frontendPlatform s a && steadySeats s a && steadyReasons s a

/-- The thread of `conn`, which is seated as the frontend, is about to read a `done` after the
    broadcast. -/
structure ReadsDone (frontendPlatform : String) (s : Hub φ σ) (conn : ℕ) : Prop where
  broadcast : s.main.afterBroadcast = true
  seated : s.clientConns.lookup frontendPlatform = some conn
  done : ∃ platform line rest, s.handlers conn = some (.reading platform) ∧
    s.lines conn = line :: rest ∧ isDone line.value = true

/-- In an orderly step, a `done` is read from the seated frontend and behind the broadcast. -/
theorem readsDone_of_orderly {conn : ℕ} {platform : String} {line : Line} {rest : List Line}
    (hreading : s.handlers conn = some (.reading platform))
    (hlines : s.lines conn = line :: rest) (hdone : isDone line.value = true)
    (h : orderly frontendPlatform s (.read conn .line) = true) :
    ReadsDone frontendPlatform s conn := by
  have hseated : s.main.afterBroadcast = true ∧
      s.clientConns.lookup frontendPlatform = some conn := by
    simpa [orderly, seatedDone, steadySeats, steadyReasons, hreading, hlines, hdone] using h
  exact ⟨hseated.1, hseated.2, platform, line, rest, hreading, hlines, hdone⟩

/-- In an orderly step, a client is registered only before the main thread copies the
    connections. -/
theorem beforeSnapshot_of_orderly {conn : ℕ} {ok : Bool}
    (h : orderly frontendPlatform s (.register conn ok) = true) :
    s.main.beforeSnapshot = true := by
  simpa [orderly, seatedDone, steadySeats, steadyReasons] using h

/-- In an orderly step, a failure that comes while the main thread decides on none finds the event
    set. -/
theorem pipelineDone_of_orderly {conn : ℕ}
    (h : orderly frontendPlatform s (.record conn) = true) (hmain : s.main = .deciding []) :
    s.pipelineDone = true := by
  simpa [orderly, seatedDone, steadySeats, steadyReasons, hmain] using h

/-! ### Who is seated -/

/-- The two dictionaries agree on who is seated, everybody has the role that the platform
    requires, and the main thread goes on only when everybody is there. -/
structure Seats (expected : List String) (frontendPlatform : String) (s : Hub φ σ) : Prop where
  peers : ∀ platform peer, s.connected.lookup platform = some peer →
    peer.platform = platform ∧ Admissible frontendPlatform peer
  conns : ∀ platform, platform ∈ s.connected ↔ platform ∈ s.clientConns
  joined : s.allJoined = true → ∀ platform ∈ expected, platform ∈ s.connected
  registering : ∀ conn peer, s.handlers conn = some (.registering peer) →
    Admissible frontendPlatform peer
  seated : s.main.allSeated = true → ∀ platform ∈ expected, platform ∈ s.connected

namespace Seats

/-- At the start nobody is seated, and no thread is about to be. -/
theorem start (expected : List String) (frontendPlatform : String) :
    Seats expected frontendPlatform (InferenceHub.start expected frontendPlatform : Hub φ σ) where
  peers _ _ h := by simp [InferenceHub.start] at h
  conns _ := by simp [InferenceHub.start]
  joined h := by cases h
  registering _ _ h := by cases h
  seated h := by
    simp only [InferenceHub.start] at h
    split at h <;> cases h

/-- A thread moves, and who is seated stays the same. -/
theorem move (h : Seats expected frontendPlatform s) {conn : ℕ} {point : HandlerPoint φ}
    (hconnected : s'.connected = s.connected) (hconns : s'.clientConns = s.clientConns)
    (hjoined : s'.allJoined = s.allJoined) (hmain : s'.main = s.main)
    (hhandlers : s'.handlers = Function.update s.handlers conn (some point))
    (hregistering : ∀ peer, point = .registering peer → Admissible frontendPlatform peer) :
    Seats expected frontendPlatform s' where
  peers := by rw [hconnected]; exact h.peers
  conns := by rw [hconnected, hconns]; exact h.conns
  joined := by rw [hconnected, hjoined]; exact h.joined
  registering c peer hpoint := by
    rcases handlers_of_update hhandlers hpoint with ⟨-, heq⟩ | ⟨-, hbefore⟩
    · exact hregistering peer heq.symm
    · exact h.registering c peer hbefore
  seated := by rw [hmain, hconnected]; exact h.seated

/-- The main thread moves, and goes on only if everybody is there. -/
theorem main (h : Seats expected frontendPlatform s) {main : MainPoint σ} {done : Bool}
    (hseated : main.allSeated = true → s.main.allSeated = true ∨ s.allJoined = true) :
    Seats expected frontendPlatform { s with main := main, pipelineDone := done } where
  peers := h.peers
  conns := h.conns
  joined := h.joined
  registering := h.registering
  seated hall := (hseated hall).elim h.seated h.joined

/-- A role of the copy's seats is one of the platforms'. -/
theorem admissible_of_copy {peer : PortablePeer φ} (h : Hub.Admissible frontendPlatform peer) :
    Admissible frontendPlatform peer := by
  refine ⟨?_, h.role⟩
  have hseat := h.platform
  simp only [portableSeats, List.mem_cons, List.not_mem_nil, or_false] at hseat
  rcases hseat with heq | heq <;> simp [platforms, heq]

/-- A seat is taken, or taken over. -/
theorem seat (h : Seats expected frontendPlatform s) {conn : ℕ} {peer : PortablePeer φ}
    {point : HandlerPoint φ} {joined : Bool}
    (hregistering : s.handlers conn = some (.registering peer))
    (hjoined : joined = true → s.allJoined = true ∨
      ∀ platform ∈ expected, platform ∈ s.connected.insert peer.platform peer)
    (hnot : ∀ other, point ≠ .registering other) :
    Seats expected frontendPlatform ({ s with
      connected := s.connected.insert peer.platform peer
      clientConns := s.clientConns.insert peer.platform conn
      allJoined := joined }.setHandler conn point) where
  peers platform other hlookup := by
    change (s.connected.insert peer.platform peer).lookup platform = some other at hlookup
    rcases eq_or_ne platform peer.platform with rfl | hne
    · rw [AList.lookup_insert] at hlookup
      obtain rfl := Option.some.inj hlookup
      exact ⟨rfl, h.registering conn peer hregistering⟩
    · rw [AList.lookup_insert_ne hne] at hlookup
      exact h.peers platform other hlookup
  conns platform := by
    show platform ∈ s.connected.insert _ _ ↔ platform ∈ s.clientConns.insert _ _
    rw [AList.mem_insert, AList.mem_insert, h.conns]
  joined hall platform hmem := by
    rcases hjoined hall with hbefore | hnow
    · exact (AList.mem_insert _).mpr (.inr (h.joined hbefore platform hmem))
    · exact hnow platform hmem
  registering c other hother := by
    rcases handlers_of_update (s := s) rfl hother with ⟨-, heq⟩ | ⟨-, hbefore⟩
    · exact absurd heq.symm (hnot other)
    · exact h.registering c other hbefore
  seated hall platform hmem := (AList.mem_insert _).mpr (.inr (h.seated hall platform hmem))

/-- A turn that registers nobody keeps what is true of the seats, since it is one of the portable
    hub's. -/
theorem copy {a : Action} (h : Seats expected frontendPlatform s)
    (ht : Hub.Turn frontendPlatform s a s' effects)
    (hregister : ∀ conn ok, a ≠ .register conn ok) : Seats expected frontendPlatform s' := by
  cases ht with
  | send => exact ⟨h.peers, h.conns, h.joined, h.registering, h.seated⟩
  | thread hfollows hlines =>
    refine h.move rfl rfl rfl rfl rfl fun peer hpoint => ?_
    cases hfollows with
    | quiet hquiet => simp [hpoint, HandlerPoint.quiet] at hquiet
    | registering hadmissible =>
      cases hpoint
      exact admissible_of_copy hadmissible
    | seated hwas hseat hseat' => simp [hpoint, HandlerPoint.seat] at hseat'
  | done | record | set => exact h.move rfl rfl rfl rfl rfl (by simp)
  | seat => exact absurd rfl (hregister _ _)
  | joined hmain hjoined => exact h.main fun _ => .inr hjoined
  | leave hmain => exact h.main (by simp [MainPoint.allSeated])
  | failed => exact h.main (by simp [MainPoint.allSeated])
  | succeeded => exact h.main (by simp [MainPoint.allSeated])
  | plan hmain | snapshot hmain | sendPlan hmain | broadcastEnded hmain | stopWaiting hmain
  | collect hmain =>
    exact h.main fun _ => .inl (by rw [hmain]; rfl)

/-- Every turn keeps what is true of the seats. -/
theorem turn {a : Action} (h : Seats expected frontendPlatform s)
    (ht : Turn expected frontendPlatform s a s' effects) : Seats expected frontendPlatform s' := by
  cases ht with
  | copy hcopy hread hregister => exact h.copy hcopy hregister
  | read hpoint hregistering => exact h.move rfl rfl rfl rfl rfl hregistering
  | done => exact h.move rfl rfl rfl rfl rfl (by simp)
  | seat hregistering hjoined hpoint hnot => exact h.seat hregistering hjoined hnot

end Seats

/-! ### What was planned and sent -/

/-- How far the plan has got: it was made, and sent to all clients but those still waiting for
    it. -/
structure Progress (ls : List (Hub.Label σ)) (s : Hub φ σ) : Prop where
  planned : ∀ shards, s.main = .planned shards → .planned shards ∈ events ls
  broadcasting : ∀ shards conns, s.main = .broadcasting shards conns →
    .planned shards ∈ events ls ∧ ∀ conn ∈ Dictionary.values s.clientConns,
      conn ∈ conns ∨ .planSent conn shards ∈ events ls
  sent : s.main.afterBroadcast = true → Hub.Sent ls s

namespace Progress

/-- At the start nothing was planned and nothing was sent. -/
theorem start (expected : List String) (frontendPlatform : String) :
    Progress [] (InferenceHub.start expected frontendPlatform : Hub φ σ) := by
  have hmain : (InferenceHub.start expected frontendPlatform : Hub φ σ).main = .accepting ∨
      (InferenceHub.start expected frontendPlatform : Hub φ σ).main = .returned 2 := by
    simp only [InferenceHub.start]
    split
    · exact .inl rfl
    · exact .inr rfl
  constructor <;> rcases hmain with hmain | hmain <;> simp [hmain, MainPoint.afterBroadcast]

/-- What was sent to the seated clients stays sent, as long as the seats are the same. -/
theorem sent_append (h : Hub.Sent ls s) (l : Hub.Label σ)
    (hconns : s'.clientConns = s.clientConns) :
    Hub.Sent (ls ++ [l]) s' := by
  obtain ⟨shards, hplanned, hsent⟩ := h
  refine ⟨shards, ?_, fun conn hconn => ?_⟩
  · rw [events_snoc]
    exact List.mem_append_left _ hplanned
  · rw [events_snoc]
    exact List.mem_append_left _ (hsent conn (hconns ▸ hconn))

/-- Where nothing changes that the main thread looks at. -/
theorem same (h : Progress ls s) (l : Hub.Label σ) (hmain : s'.main = s.main)
    (hconns : s'.clientConns = s.clientConns) : Progress (ls ++ [l]) s' where
  planned shards hplanned := by
    rw [events_snoc]
    exact List.mem_append_left _ (h.planned shards (hmain ▸ hplanned))
  broadcasting shards conns hpoint := by
    rw [hmain] at hpoint
    obtain ⟨hplanned, hsent⟩ := h.broadcasting shards conns hpoint
    rw [events_snoc, hconns]
    exact ⟨List.mem_append_left _ hplanned,
      fun conn hconn => (hsent conn hconn).imp_right (List.mem_append_left _)⟩
  sent hafter := sent_append (h.sent (hmain ▸ hafter)) l hconns

/-- The main thread is where nothing is planned and nothing has been sent. -/
theorem early (l : Hub.Label σ) {main : MainPoint σ} {done : Bool}
    (hplanned : ∀ shards, main ≠ .planned shards)
    (hbroadcasting : ∀ shards conns, main ≠ .broadcasting shards conns)
    (hafter : main.afterBroadcast = false) :
    Progress (ls ++ [l]) { s with main := main, pipelineDone := done } where
  planned shards heq := absurd heq (hplanned shards)
  broadcasting shards conns heq := absurd heq (hbroadcasting shards conns)
  sent heq := by simp [hafter] at heq

/-- The main thread moves on after the broadcast. -/
theorem late (h : Progress ls s) (l : Hub.Label σ) {main : MainPoint σ}
    (hwas : s.main.afterBroadcast = true) (hplanned : ∀ shards, main ≠ .planned shards)
    (hbroadcasting : ∀ shards conns, main ≠ .broadcasting shards conns) :
    Progress (ls ++ [l]) { s with main := main } where
  planned shards heq := absurd heq (hplanned shards)
  broadcasting shards conns heq := absurd heq (hbroadcasting shards conns)
  sent _ := sent_append (h.sent hwas) l rfl

/-- Before the connections are copied, seats may change. -/
theorem seat (h : Progress ls s) (l : Hub.Label σ) (hmain : s'.main = s.main)
    (hbefore : s.main.beforeSnapshot = true) : Progress (ls ++ [l]) s' where
  planned shards hplanned := by
    rw [events_snoc]
    exact List.mem_append_left _ (h.planned shards (hmain ▸ hplanned))
  broadcasting shards conns heq := by
    rw [← hmain, heq] at hbefore
    cases hbefore
  sent hafter := by
    rw [hmain, MainPoint.not_afterBroadcast_of_beforeSnapshot hbefore] at hafter
    cases hafter

/-- A turn that registers nobody keeps the progress. -/
theorem copy {l : Hub.Label σ} (h : Progress ls s)
    (ht : Hub.Turn frontendPlatform s l.1 s' l.2)
    (hregister : ∀ conn ok, l.1 ≠ .register conn ok) : Progress (ls ++ [l]) s' := by
  obtain ⟨a, effects⟩ := l
  cases ht with
  | send | thread | done | record | set => exact h.same _ rfl rfl
  | seat => exact absurd rfl (hregister _ _)
  | leave | joined | failed | succeeded => exact early _ (by simp) (by simp) rfl
  | @plan shards hmain =>
    refine ⟨fun shards' heq => ?_, (fun _ _ heq => by cases heq), (fun heq => by cases heq)⟩
    cases heq
    rw [events_snoc]
    exact List.mem_append_right _ (List.mem_singleton_self _)
  | @snapshot shards hmain =>
    refine ⟨(fun _ heq => by cases heq), fun shards' conns heq => ?_, (fun heq => by cases heq)⟩
    cases heq
    rw [events_snoc]
    exact ⟨List.mem_append_left _ (h.planned shards hmain), fun conn hconn => .inl hconn⟩
  | @sendPlan shards conn conns hmain =>
    obtain ⟨hplanned, hsent⟩ := h.broadcasting shards (conn :: conns) hmain
    refine ⟨(fun _ heq => by cases heq), fun shards' conns' heq => ?_, (fun heq => by cases heq)⟩
    cases heq
    rw [events_snoc]
    refine ⟨List.mem_append_left _ hplanned, fun c hc => ?_⟩
    rcases hsent c hc with hrest | hbefore
    -- the connection is the one the plan goes to now, comes later, or had it before
    · rcases List.mem_cons.mp hrest with rfl | hrest
      · exact .inr (List.mem_append_right _ (List.mem_singleton_self _))
      · exact .inl hrest
    · exact .inr (List.mem_append_left _ hbefore)
  | @broadcastEnded shards ok hmain =>
    obtain ⟨hplanned, hsent⟩ := h.broadcasting shards [] hmain
    refine ⟨(fun _ heq => by cases heq), (fun _ _ heq => by cases heq), fun _ => ?_⟩
    have hall : Hub.Sent ls s :=
      ⟨shards, hplanned, fun conn hconn => (hsent conn hconn).resolve_left List.not_mem_nil⟩
    exact sent_append hall _ rfl
  | stopWaiting hmain => exact h.late _ (by rw [hmain]; rfl) (by simp) (by simp)
  | collect hmain => exact h.late _ (by rw [hmain]; rfl) (by simp) (by simp)

/-- An orderly turn keeps the progress: nobody is seated behind the snapshot. -/
theorem turn {l : Hub.Label σ} (h : Progress ls s)
    (horderly : orderly frontendPlatform s l.1 = true)
    (ht : Turn expected frontendPlatform s l.1 s' l.2) : Progress (ls ++ [l]) s' := by
  obtain ⟨a, effects⟩ := l
  cases ht with
  | copy hcopy hread hregister => exact h.copy hcopy hregister
  | read | done => exact h.same _ rfl rfl
  | seat => exact h.seat _ rfl (beforeSnapshot_of_orderly horderly)

end Progress

/-! ### Why the event is set -/

section

variable (python frontendPlatform expected planInferShards)

/-- In the run `ls`, the connection `conn`, then seated as the frontend, was heard to be done
    after the broadcast. -/
def Received (ls : List (Hub.Label σ)) (conn : ℕ) : Prop :=
  ∃ pre post s, ls = pre ++ (.read conn .line, []) :: post ∧
    Trace (Steps python frontendPlatform expected planInferShards Hub.anyStep)
      (start expected frontendPlatform) pre s ∧
    ReadsDone frontendPlatform s conn

/-- The broadcast has ended, and the frontend was heard to be done. -/
def Finished (ls : List (Hub.Label σ)) (s : Hub φ σ) : Prop :=
  s.main.afterBroadcast = true ∧ ∃ conn, s.clientConns.lookup frontendPlatform = some conn ∧
    Received python frontendPlatform expected planInferShards ls conn

/-- The event is set for a reason. -/
structure Clean (ls : List (Hub.Label σ)) (s : Hub φ σ) : Prop where
  signalled : s.main.exitCode = none → s.Signalled →
    s.failReason ≠ [] ∨ Finished python frontendPlatform expected planInferShards ls s
  deciding : s.main = .deciding [] →
    s.failReason = [] ∨ Finished python frontendPlatform expected planInferShards ls s

end

/-- What the hub has received it has received for the rest of the run. -/
theorem Received.append {conn : ℕ}
    (h : Received python frontendPlatform expected planInferShards ls conn) (l : Hub.Label σ) :
    Received python frontendPlatform expected planInferShards (ls ++ [l]) conn := by
  obtain ⟨pre, post, s, rfl, htrace, hreads⟩ := h
  exact ⟨pre, post ++ [l], s, by simp, htrace, hreads⟩

/-- A run that finished stays finished, as long as the seats are the same. -/
theorem Finished.append (h : Finished python frontendPlatform expected planInferShards ls s)
    (l : Hub.Label σ) (hafter : s'.main.afterBroadcast = true)
    (hconns : s'.clientConns = s.clientConns) :
    Finished python frontendPlatform expected planInferShards (ls ++ [l]) s' := by
  obtain ⟨-, conn, hconn, hreceived⟩ := h
  exact ⟨hafter, conn, hconns ▸ hconn, hreceived.append l⟩

namespace Clean

/-- At the start the event is not set and no reason is recorded. -/
theorem start (expected : List String) (frontendPlatform : String) :
    Clean python frontendPlatform expected planInferShards []
      (InferenceHub.start expected frontendPlatform) where
  signalled _ h := by
    rcases h with hdone | ⟨_, hsetting⟩
    · cases hdone
    · cases hsetting
  deciding h := by
    simp only [InferenceHub.start] at h
    split at h <;> cases h

/-- A thread moves, and nobody is newly about to set the event. -/
theorem same (h : Clean python frontendPlatform expected planInferShards ls s) (l : Hub.Label σ)
    (hmain : s'.main = s.main) (hsignalled : s'.Signalled → s.Signalled)
    (hreason : s'.failReason = s.failReason) (hconns : s'.clientConns = s.clientConns) :
    Clean python frontendPlatform expected planInferShards (ls ++ [l]) s' where
  signalled hrunning hsig := by
    rw [hmain] at hrunning
    rw [hreason]
    refine (h.signalled hrunning (hsignalled hsig)).imp_right fun hfinished => ?_
    exact hfinished.append l (hmain ▸ hfinished.1) hconns
  deciding heq := by
    rw [hreason]
    refine (h.deciding (hmain ▸ heq)).imp_right fun hfinished => ?_
    exact hfinished.append l (hmain ▸ hfinished.1) hconns

/-- The main thread moves on: from before the end of the broadcast, where nothing can have
    finished, or from after it, where it stays. -/
theorem main (h : Clean python frontendPlatform expected planInferShards ls s) (l : Hub.Label σ)
    {main : MainPoint σ} (hrunning : s.main.exitCode = none)
    (hafter : s.main.afterBroadcast = true → main.afterBroadcast = true)
    (hdeciding : main = .deciding [] → s.failReason = []) :
    Clean python frontendPlatform expected planInferShards (ls ++ [l]) { s with main := main } where
  signalled _ hsig := (h.signalled hrunning hsig).imp_right fun hfinished =>
    hfinished.append l (hafter hfinished.1) rfl
  deciding heq := .inl (hdeciding heq)

/-- The main thread returns, and the run stays clean. -/
theorem return_ (l : Hub.Label σ) (code : ℕ) :
    Clean python frontendPlatform expected planInferShards (ls ++ [l]) (s.return_ code) where
  signalled hrunning := by cases hrunning
  deciding heq := by cases heq

/-- Before the connections are copied, seats may change: nothing can have finished. -/
theorem seat (h : Clean python frontendPlatform expected planInferShards ls s) (l : Hub.Label σ)
    (hbefore : s.main.beforeSnapshot = true) (hmain : s'.main = s.main)
    (hsignalled : s'.Signalled → s.Signalled) (hreason : s'.failReason = s.failReason) :
    Clean python frontendPlatform expected planInferShards (ls ++ [l]) s' where
  signalled hrunning hsig := by
    rw [hmain] at hrunning
    rw [hreason]
    refine (h.signalled hrunning (hsignalled hsig)).imp_right fun hfinished => ?_
    rw [Finished, MainPoint.not_afterBroadcast_of_beforeSnapshot hbefore] at hfinished
    exact absurd hfinished.1 Bool.false_ne_true
  deciding heq := by
    rw [← hmain, heq] at hbefore
    cases hbefore

/-- A failure is recorded, by a step that the guard allows. -/
theorem record (h : Clean python frontendPlatform expected planInferShards ls s) {conn : ℕ}
    (reason : String) (horderly : orderly frontendPlatform s (.record conn) = true) :
    Clean python frontendPlatform expected planInferShards (ls ++ [(.record conn, [])])
      ({ s with failReason := s.failReason ++ [reason] }.setHandler conn .setting) where
  signalled _ _ := .inl (by simp [setHandler])
  deciding heq := by
    have hmain : s.main = .deciding [] := heq
    refine .inr ?_
    -- the event had been set, and not for a failure
    rcases h.deciding hmain with hnone | hfinished
    · have hset := pipelineDone_of_orderly horderly hmain
      rcases h.signalled (by rw [hmain]; rfl) (.inl hset) with hfailed | hfinished
      · exact absurd hnone hfailed
      · exact hfinished.append _ hfinished.1 rfl
    · exact hfinished.append _ hfinished.1 rfl

/-- The event is set, by a thread that was about to do it. -/
theorem set (h : Clean python frontendPlatform expected planInferShards ls s) {conn : ℕ}
    (hsetting : s.handlers conn = some .setting) :
    Clean python frontendPlatform expected planInferShards (ls ++ [(.set conn, [])])
      ({ s with pipelineDone := true }.setHandler conn .finished) where
  signalled hrunning _ := (h.signalled hrunning (.inr ⟨conn, hsetting⟩)).imp_right
    fun hfinished => hfinished.append _ hfinished.1 rfl
  deciding hmain := (h.deciding hmain).imp_right fun hfinished =>
    hfinished.append _ hfinished.1 rfl

/-- The seated frontend is heard to be done. -/
theorem done {conn : ℕ} {rest : List Line}
    (htrace : Trace (Steps python frontendPlatform expected planInferShards Hub.anyStep)
      (InferenceHub.start expected frontendPlatform) ls s)
    (hreads : ReadsDone frontendPlatform s conn) :
    Clean python frontendPlatform expected planInferShards (ls ++ [(.read conn .line, [])])
      ((s.setLines conn rest).setHandler conn .setting) := by
  have hfinished : Finished python frontendPlatform expected planInferShards
      (ls ++ [(.read conn .line, [])]) ((s.setLines conn rest).setHandler conn .setting) :=
    ⟨hreads.broadcast, conn, hreads.seated, ls, [], s, rfl, htrace, hreads⟩
  exact ⟨fun _ _ => .inr hfinished, fun _ => .inr hfinished⟩

/-- An orderly turn that neither reads nor registers keeps the run clean. -/
theorem copy {l : Hub.Label σ} (h : Clean python frontendPlatform expected planInferShards ls s)
    (horderly : orderly frontendPlatform s l.1 = true)
    (ht : Hub.Turn frontendPlatform s l.1 s' l.2)
    (hread : ∀ conn reading, l.1 ≠ .read conn reading)
    (hregister : ∀ conn ok, l.1 ≠ .register conn ok) :
    Clean python frontendPlatform expected planInferShards (ls ++ [l]) s' := by
  obtain ⟨a, effects⟩ := l
  cases ht with
  | send => exact h.same _ rfl id rfl rfl
  | thread hfollows hlines =>
    have hpoint := Hub.Clean.not_setting_of_follows hfollows
    exact h.same _ rfl (Hub.Clean.signalled_of_setHandler rfl rfl hpoint) rfl rfl
  | done => exact absurd rfl (hread _ _)
  | seat => exact absurd rfl (hregister _ _)
  | @record conn reason hfailing => exact h.record reason horderly
  | set hsetting => exact h.set hsetting
  | leave hmain | joined hmain | plan hmain | snapshot hmain | sendPlan hmain
  | broadcastEnded hmain | stopWaiting hmain =>
    exact h.main _ (by rw [hmain]; rfl) (by simp [hmain, MainPoint.afterBroadcast]) (by simp)
  | collect hmain => exact h.main _ (by rw [hmain]; rfl) (fun _ => rfl) (by simp)
  | failed => exact return_ _ 1
  | succeeded => exact return_ _ 0

/-- Every orderly turn keeps the run clean. -/
theorem turn {l : Hub.Label σ} (h : Clean python frontendPlatform expected planInferShards ls s)
    (htrace : Trace (Steps python frontendPlatform expected planInferShards Hub.anyStep)
      (InferenceHub.start expected frontendPlatform) ls s)
    (horderly : orderly frontendPlatform s l.1 = true)
    (ht : Turn expected frontendPlatform s l.1 s' l.2) :
    Clean python frontendPlatform expected planInferShards (ls ++ [l]) s' := by
  obtain ⟨a, effects⟩ := l
  cases ht with
  | copy hcopy hread hregister => exact h.copy horderly hcopy hread hregister
  | read hpoint hregistering =>
    exact h.same _ rfl (Hub.Clean.signalled_of_setHandler rfl rfl hpoint) rfl rfl
  | done hreading hlines hdone =>
    exact done htrace (readsDone_of_orderly hreading hlines hdone horderly)
  | seat hregistering hjoined hpoint hnot =>
    exact h.seat _ (beforeSnapshot_of_orderly horderly) rfl
      (Hub.Clean.signalled_of_setHandler rfl rfl hpoint) rfl

end Clean

/-! ### Success -/

section

variable (python frontendPlatform expected planInferShards)

/-- What a return of 0 is to mean, at the decision. -/
structure Success (ls : List (Hub.Label σ)) (s : Hub φ σ) : Prop where
  seated : ∀ platform ∈ expected, ∃ peer, s.connected.lookup platform = some peer ∧
    peer.role = if platform = frontendPlatform then "frontend" else "worker"
  sent : Hub.Sent ls s
  received : ∃ conn, s.clientConns.lookup frontendPlatform = some conn ∧
    Received python frontendPlatform expected planInferShards ls conn

/-- In every run of steps that meet `guard`, the hub returns 0 only on success. -/
def Sound (guard : Hub φ σ → Action → Bool) : Prop :=
  ∀ ls s l s',
    Trace (Steps python frontendPlatform expected planInferShards guard)
      (start expected frontendPlatform) ls s →
    Steps python frontendPlatform expected planInferShards guard s l s' →
    s.main.exitCode = none → s'.main.exitCode = some 0 →
      Success python frontendPlatform expected planInferShards ls s

end

/-- The only step to a return of 0. -/
theorem deciding_of_exitCode {a : Action} (h : Turn expected frontendPlatform s a s' effects)
    (hrunning : s.main.exitCode = none) (hzero : s'.main.exitCode = some 0) :
    s.main = .deciding [] ∧ s.pipelineDone = true := by
  cases h with
  | copy hcopy => exact Hub.deciding_of_exitCode hcopy hrunning hzero
  | read | done | seat =>
    change s.main.exitCode = some 0 at hzero
    rw [hrunning] at hzero
    cases hzero

/-- Steps that meet a condition are steps. -/
theorem steps_anyStep {l : Hub.Label σ}
    (h : Steps python frontendPlatform expected planInferShards guard s l s') :
    Steps python frontendPlatform expected planInferShards Hub.anyStep s l s' := by
  have hguard := guard_of_steps h
  rw [Steps, guarded, if_pos hguard] at h
  exact h

/-- **Success is sound** in every orderly run. -/
theorem inference_hub_success (python : Conversions φ) (frontendPlatform : String)
    (expected : List String) (planInferShards : List (PortablePeer φ) → Option σ) :
    Sound python frontendPlatform expected planInferShards (orderly frontendPlatform) := by
  intro ls s l s' htrace hstep hrunning hzero
  have hinv : Seats expected frontendPlatform s ∧ Progress ls s ∧
      Clean python frontendPlatform expected planInferShards ls s := by
    refine Trace.invariant
      (I := fun ls s => Seats expected frontendPlatform s ∧ Progress ls s ∧
        Clean python frontendPlatform expected planInferShards ls s) ?_ ?_ htrace
    · exact ⟨.start expected frontendPlatform, .start expected frontendPlatform,
        .start expected frontendPlatform⟩
    · intro ls s l s' htrace ⟨hseats, hprogress, hclean⟩ hs
      have ht := turn_of_steps hs
      have horderly := guard_of_steps hs
      have hany := htrace.mono fun _ _ _ => steps_anyStep
      exact ⟨hseats.turn ht, hprogress.turn horderly ht, hclean.turn hany horderly ht⟩
  obtain ⟨hseats, hprogress, hclean⟩ := hinv
  -- a return of 0 is decided on no reasons and on the event
  obtain ⟨hmain, hdone⟩ := deciding_of_exitCode (turn_of_steps hstep) hrunning hzero
  have hafter : s.main.afterBroadcast = true := by rw [hmain]; rfl
  refine ⟨fun platform hmem => ?_, hprogress.sent hafter, ?_⟩
  · -- the main thread would not have gone on without the platform
    have hseated := hseats.seated (by rw [hmain]; rfl) platform hmem
    obtain ⟨peer, hpeer⟩ := Option.isSome_iff_exists.mp (AList.lookup_isSome.mpr hseated)
    obtain ⟨rfl, hadmissible⟩ := hseats.peers platform peer hpeer
    exact ⟨peer, hpeer, hadmissible.role⟩
  · -- the event is set for a failure, which the empty copy rules out, or by the frontend
    rcases hclean.signalled (by rw [hmain]; rfl) (.inl hdone) with hfailed | hfinished
    · exact ((hclean.deciding hmain).resolve_left hfailed).2
    · exact hfinished.2

/-! ### Runs that are not orderly -/

/-- After the broadcast, the thread of `conn` reads a line. -/
def readsAfterBroadcast (conn : ℕ) (ls : List (Hub.Label σ)) : Bool :=
  (ls.dropWhile (fun l => !Hub.endsBroadcast l)).any fun l =>
    match l.1 with
    | .read c .line => decide (c = conn)
    | _ => false

/-- The broadcast has been seen to end. -/
theorem ended_of_afterBroadcast
    (h : Trace (Steps python frontendPlatform expected planInferShards guard)
      (start expected frontendPlatform) ls s) :
    s.main.afterBroadcast = true → ls.any Hub.endsBroadcast = true := by
  refine h.invariant (I := fun ls s => s.main.afterBroadcast = true →
    ls.any Hub.endsBroadcast = true) ?_ ?_
  · intro hafter
    simp only [start] at hafter
    split at hafter <;> cases hafter
  · intro ls s l s' _ ih hs hafter
    have hkept : s.main.afterBroadcast = true → (ls ++ [l]).any Hub.endsBroadcast = true := by
      intro hbefore
      rw [List.any_append, ih hbefore, Bool.true_or]
    have ht := turn_of_steps hs
    obtain ⟨a, effects⟩ := l
    cases ht with
    | read | done | seat => exact hkept hafter
    | copy hcopy =>
      cases hcopy with
      | broadcastEnded =>
        rw [List.any_append]
        exact Bool.or_eq_true_iff.mpr (.inr rfl)
      | stopWaiting hmain | collect hmain => exact hkept (by rw [hmain]; rfl)
      | send | thread | done | seat | record | set => exact hkept hafter
      | _ => cases hafter

/-- Who was heard to be done was read after the broadcast. -/
theorem readsAfterBroadcast_of_received {conn : ℕ}
    (h : Received python frontendPlatform expected planInferShards ls conn) :
    readsAfterBroadcast conn ls = true := by
  obtain ⟨pre, post, s, rfl, htrace, hreads⟩ := h
  obtain ⟨l, hmem, hends⟩ :=
    List.any_eq_true.mp (ended_of_afterBroadcast htrace hreads.broadcast)
  have hne : (pre.dropWhile (fun l => !Hub.endsBroadcast l)).isEmpty = false := by
    rw [List.isEmpty_eq_false_iff, Ne, List.dropWhile_eq_nil_iff]
    intro hall
    simpa [hends] using hall l hmem
  rw [readsAfterBroadcast, List.dropWhile_append, hne]
  refine List.any_eq_true.mpr ⟨(.read conn .line, []), ?_, by simp⟩
  exact List.mem_append_right _ (List.mem_cons_self ..)

/-- The plan was sent to `conn` in a step of the run. -/
def sendsPlan (conn : ℕ) (ls : List (Hub.Label σ)) : Bool :=
  (events ls).any fun
    | .planSent c _ => decide (c = conn)
    | _ => false

/-- `plan_infer_shards(peers)` with its defaults: 48 layers of 24 GB, and half a GB of overhead for
    each peer.  A plan that it rejects has no result. -/
def planWithDefaults (peers : List (PortablePeer ℚ)) : Option (List InferShard) :=
  match Planners.planInferShards (peers.length + 1) peers 48 24 (1 / 2) with
  | some (.ok shards) => some shards
  | _ => none

/-- A `join` of a device that has 32 GB to give. -/
def joinsWith32 (platform : String) (dataPort : ℤ) : Option Json :=
  some (.dict [("type", .str "join"), ("platform", .str platform), ("usable_gb", .int 32),
    ("data_port", .int dataPort)])

/-- The client of `conn` connects and joins. -/
def seated (conn : ℕ) (platform : String) : List Action :=
  [.accept conn, .send conn (joinsWith32 platform (9000 + conn)), .read conn .line,
    .register conn true]

/-- Two such devices share the layers evenly. -/
example : (planWithDefaults [⟨"ios", "sim-ios", 32, "frontend", "127.0.0.1", 9000⟩,
    ⟨"windows", "sim-windows", 32, "worker", "127.0.0.1", 9001⟩]).map
      (List.map fun s => (s.platform, s.startLayer, s.endLayer))
    = some [("ios", 0, 24), ("windows", 24, 48)] := by
  decide +kernel

/-- The hub of the runs below: two seats, with an iPhone as the frontend. -/
abbrev TwoSeats (guard : Hub ℚ (List InferShard) → Action → Bool) : Prop :=
  Sound Hub.someConversions "ios" ["ios", "windows"] planWithDefaults guard

/-- The run leads to a return of 0 that is not a success. -/
def betrays (guard : Hub ℚ (List InferShard) → Action → Bool) (actions : List Action) :
    Bool :=
  (Trace.perform (guarded Hub.someConversions "ios" ["ios", "windows"] planWithDefaults
      guard) (start ["ios", "windows"] "ios") actions).any fun result =>
    decide (result.2.main.exitCode = none) &&
      (guarded Hub.someConversions "ios" ["ios", "windows"] planWithDefaults guard result.2
        .decide).any (fun last => decide (last.1.main.exitCode = some 0)) &&
      ((Dictionary.values result.2.clientConns).any (fun conn => !sendsPlan conn result.1) ||
        !(result.2.clientConns.lookup "ios").any (fun conn => readsAfterBroadcast conn result.1))

/-- A run of the guarded hub that betrays its success shows that the guard is not enough. -/
theorem not_sound_of_betrays {guard : Hub ℚ (List InferShard) → Action → Bool}
    {actions : List Action} (h : betrays guard actions = true) : ¬ TwoSeats guard := by
  intro hsound
  obtain ⟨⟨ls, s⟩, hrun, hlast⟩ := (Option.any_eq_true _ _).mp h
  simp only [Bool.and_eq_true, decide_eq_true_eq] at hlast
  obtain ⟨⟨hrunning, hdecide⟩, hwrong⟩ := hlast
  obtain ⟨⟨s', effects⟩, hs, hzero⟩ := (Option.any_eq_true _ _).mp hdecide
  have hsuccess := hsound ls s (.decide, effects) s' (Trace.of_perform hrun) hs hrunning
    (of_decide_eq_true hzero)
  rcases Bool.or_eq_true_iff.mp hwrong with hunsent | hunheard
  · obtain ⟨conn, hconn, hnot⟩ := List.any_eq_true.mp hunsent
    obtain ⟨shards, -, hsent⟩ := hsuccess.sent
    have hsends : sendsPlan conn ls = true :=
      List.any_eq_true.mpr ⟨_, hsent conn hconn, by simp⟩
    simp [hsends] at hnot
  · obtain ⟨conn, hconn, hreceived⟩ := hsuccess.received
    simp [hconn, readsAfterBroadcast_of_received hreceived] at hunheard

/-- The client of `conn` sends a `done`, and its thread reads it and sets the event. -/
def heardDone (conn : ℕ) : List Action :=
  [.send conn (Hub.reportsDone 8), .test conn true, .read conn .line, .set conn]

/-- The worker reports that it is done; the frontend says nothing. -/
theorem worker_done : ¬ TwoSeats Hub.anyStep := by
  have hrun : betrays Hub.anyStep
      (seated 0 "ios" ++ seated 1 "windows" ++ Hub.broadcasts ++ heardDone 1 ++
        [.stopWaiting, .collect]) = true := by
    decide +kernel
  exact not_sound_of_betrays hrun

/-- A second worker takes over the seat after the broadcast, and never gets the plan. -/
theorem late_takeover : ¬ TwoSeats (fun s a => seatedDone "ios" s a && steadyReasons s a) := by
  have hrun : betrays (fun s a => seatedDone "ios" s a && steadyReasons s a)
      (seated 0 "ios" ++ [.accept 2] ++ seated 1 "windows" ++ Hub.broadcasts ++
        [.send 2 (joinsWith32 "windows" 9002), .read 2 .line, .register 2 true] ++ heardDone 0 ++
        [.stopWaiting, .collect]) = true := by
    decide +kernel
  exact not_sound_of_betrays hrun

/-- Nobody reports anything; the worker's connection breaks at the deadline, when the reasons
    have been copied, and its thread sets the event. -/
theorem unseen_disconnect : ¬ TwoSeats (fun s a => seatedDone "ios" s a && steadySeats s a) := by
  have hrun : betrays (fun s a => seatedDone "ios" s a && steadySeats s a)
      (seated 0 "ios" ++ seated 1 "windows" ++ Hub.broadcasts ++
        [.stopWaiting, .test 1 true, .read 1 .raises, .collect, .record 1, .set 1]) = true := by
    decide +kernel
  exact not_sound_of_betrays hrun

/-- The frontend reports that it is done after the broadcast. -/
theorem inference_hub_success_two_seats : ∃ ls s l s',
    Trace (Steps Hub.someConversions "ios" ["ios", "windows"] planWithDefaults
      (orderly "ios")) (start ["ios", "windows"] "ios") ls s ∧
    Steps Hub.someConversions "ios" ["ios", "windows"] planWithDefaults (orderly "ios")
      s l s' ∧
    s'.main.exitCode = some 0 ∧
    Success Hub.someConversions "ios" ["ios", "windows"] planWithDefaults ls s := by
  have hrun : ((Trace.perform
      (guarded Hub.someConversions "ios" ["ios", "windows"] planWithDefaults (orderly "ios"))
      (start ["ios", "windows"] "ios")
      (seated 0 "ios" ++ seated 1 "windows" ++ Hub.broadcasts ++ heardDone 0 ++
        [.stopWaiting, .collect])).any fun result => decide (result.2.main.exitCode = none) &&
      (guarded Hub.someConversions "ios" ["ios", "windows"] planWithDefaults (orderly "ios")
        result.2 .decide).any (fun last => decide (last.1.main.exitCode = some 0))) = true := by
    decide +kernel
  obtain ⟨⟨ls, s⟩, hperform, hlast⟩ := (Option.any_eq_true _ _).mp hrun
  obtain ⟨hrunning, hdecide⟩ := Bool.and_eq_true_iff.mp hlast
  obtain ⟨⟨s', effects⟩, hs, hzero⟩ := (Option.any_eq_true _ _).mp hdecide
  have htrace : Trace (Steps Hub.someConversions "ios" ["ios", "windows"] planWithDefaults
    (orderly "ios")) (start ["ios", "windows"] "ios") ls s := Trace.of_perform hperform
  have hzero : s'.main.exitCode = some 0 := of_decide_eq_true hzero
  exact ⟨ls, s, (.decide, effects), s', htrace, hs, hzero,
    inference_hub_success Hub.someConversions "ios" ["ios", "windows"] planWithDefaults
      ls s (.decide, effects) s' htrace hs (of_decide_eq_true hrunning) hzero⟩

end InferenceHub

end ShareCompute.Simulation
