import ShareCompute.Core.PoolSeats

namespace ShareCompute.Core

open ShareCompute.Library

/-!
# The pool as its events tell it

A host that mirrors the pool keeps the occupant of each seat and the current epoch, and
updates both from the events the calls return.  Every call reports what it does to them,
except one: `planRAMPool` ticks the pool and keeps the events of that tick to itself.
`pool_replay_iff` says that the mirror is right after every call of a run exactly when every
such inner tick is uneventful (`TicksQuietly`).
-/

namespace CrossPlatformPool

/-- What a host keeps of the pool. -/
@[ext] structure PoolView where
  seats : PlatformKind → Option NodeID
  epoch : Epoch

/-- The view of a host that has seen nothing yet. -/
def PoolView.initial : PoolView := ⟨fun _ => none, .initial⟩

/-- The platforms that the mirror believes to be connected. -/
def PoolView.connectedPlatforms (v : PoolView) : Finset PlatformKind :=
  PlatformKind.allRequired.filter (fun P => (v.seats P).isSome)

/-- What an event does to the view. -/
def followed (v : PoolView) : PoolConnectionEvent → PoolView
  | .peerConnected P n | .peerAlreadyPresent P n =>
      { v with seats := fun Q => if Q = P then some n else v.seats Q }
  | .peerEvicted P n _ =>
      { v with seats := fun Q => if Q = P ∧ v.seats P = some n then none else v.seats Q }
  | .epochChanged epoch _ => { v with epoch := epoch }
  | .peerDraining _ _ | .allRequiredPlatformsConnected _ | .epochChangeDeferred _ => v

/-- The host's view as a view kept from events; nothing is assumed of the events. -/
def poolMirror : Mirror PoolView PoolConnectionEvent := ⟨followed, fun _ _ => True⟩

/-- What the mirror makes of an event is what a listener does that follows it. -/
@[simp] theorem poolMirror_apply (v : PoolView) (e : PoolConnectionEvent) :
    poolMirror.apply v e = followed v e := rfl

/-- The pool as the host should see it. -/
def view (self : CrossPlatformPool) : PoolView := ⟨self.nodeID, self.membership.currentEpoch⟩

/-- The host's view has the pool's seats, its connected platforms and its epoch. -/
structure Mirrored (v : PoolView) (pool : CrossPlatformPool) : Prop where
  seats : ∀ P, v.seats P = pool.nodeID P
  connectedPlatforms : v.connectedPlatforms = pool.connectedPlatforms
  epoch : v.epoch = pool.membership.currentEpoch

/-- The mirror shows a pool exactly if it equals what can be seen of the pool. -/
theorem mirrored_iff {v : PoolView} {self : CrossPlatformPool} :
    Mirrored v self ↔ v = self.view := by
  constructor
  · rintro ⟨hseats, -, hepoch⟩
    exact PoolView.ext (funext hseats) hepoch
  · rintro rfl
    refine ⟨fun _ => rfl, ?_, rfl⟩
    ext P
    rw [PoolView.connectedPlatforms, Finset.mem_filter, mem_connectedPlatforms,
      and_iff_right (PlatformKind.mem_allRequired P), Option.isSome_iff_exists]
    rfl

/-! ### Calls that report their effect -/

/-- The call's events report its effect on the view. -/
def Reported (self : CrossPlatformPool) (op : Operation) : Prop :=
  poolMirror.replay self.view (self.perform op).2 = (self.perform op).1.view

/-- A call that touches records only and returns nothing that moves the view. -/
theorem reported_of_same {self : CrossPlatformPool} {op : Operation}
    (hevents : poolMirror.replay self.view (self.perform op).2 = self.view)
    (hseats : (self.perform op).1.nodeByPlatform = self.nodeByPlatform)
    (hepoch : (self.perform op).1.membership.currentEpoch = self.membership.currentEpoch) :
    self.Reported op := by
  rw [Reported, hevents]
  refine PoolView.ext (funext fun P => ?_) hepoch.symm
  show self.nodeID P = (self.perform op).1.nodeID P
  rw [nodeID, nodeID, hseats]

/-- To connect never changes the epoch; that is left to the next tick. -/
theorem currentEpoch_connect (self : CrossPlatformPool) (drained now : Date)
    (platform : PlatformKind) (profile : CapabilityProfile) :
    (self.connect drained now platform profile).1.membership.currentEpoch
      = self.membership.currentEpoch := by
  rw [membership_connect]
  refine (MembershipService.perform_frame _ (.nodeAppeared now profile)
    (fun _ => MembershipService.Operation.noConfusion)).currentEpoch.trans ?_
  rw [membership_replaceOccupant]
  split
  · split
    · exact (MembershipService.perform_frame _ (.nodeAnnouncedDrain drained _)
        (fun _ => MembershipService.Operation.noConfusion)).currentEpoch
    · rfl
  · rfl

/-- What `connect` reports takes the view before the call to the view after it. -/
theorem reported_connect (self : CrossPlatformPool) (drained now : Date) (platform : PlatformKind)
    (profile : CapabilityProfile) : self.Reported (.connect drained now platform profile) := by
  -- both reports seat the node, and the report of a complete roster moves nothing
  have hreplay : poolMirror.replay self.view (self.connect drained now platform profile).2 =
      { self.view with seats := fun Q =>
          if Q = platform then some profile.nodeID else self.nodeID Q } := by
    rw [connect_events]
    split <;> split <;> rfl
  rw [Reported, perform, hreplay]
  refine PoolView.ext (funext fun P => ?_) (self.currentEpoch_connect ..).symm
  exact (self.nodeID_connect drained now platform profile P).symm

/-- The epoch after some membership events: the last one that was announced. -/
def epochAfter (epoch : Epoch) (es : List MembershipEvent) : Epoch :=
  es.foldl (fun epoch e => match e with
    | .epochChanged epoch' _ => epoch'
    | _ => epoch) epoch

/-- The loop of `tick` reports every seat it clears and the epoch it is told of. -/
theorem replay_observeAll (self : CrossPlatformPool) (es : List MembershipEvent) (epoch : Epoch) :
    poolMirror.replay ⟨self.nodeID, epoch⟩ (self.observeAll es).2
      = ⟨(self.observeAll es).1.nodeID, epochAfter epoch es⟩ := by
  induction es generalizing self epoch with
  | nil => rfl
  | cons e es ih =>
    rw [observeAll, poolMirror.replay_append]
    cases e with
    | nodeEvicted n reason =>
      have hhere : poolMirror.replay ⟨self.nodeID, epoch⟩ (self.observe (.nodeEvicted n reason)).2
          = ⟨(self.observe (.nodeEvicted n reason)).1.nodeID, epoch⟩ := by
        refine PoolView.ext (funext fun P => ?_) ?_
        · refine Eq.trans ?_ (self.nodeID_observe_nodeEvicted n reason P).symm
          simp only [observe]
          cases hplatform : self.platform n with
          | none => simp
          | some platform =>
            by_cases hP : P = platform
            · simp [followed, hP]
            · simp [followed, hP, Ne.symm hP]
        · simp only [observe]
          split <;> rfl
      rw [hhere]
      exact ih _ epoch
    | epochChanged epoch' members => exact ih self epoch'
    | _ => exact ih self epoch

/-- The epoch a membership tick leaves is the one its events tell. -/
theorem epochAfter_tick (self : MembershipService) (now : Date) :
    epochAfter self.currentEpoch (self.tick now).2 = (self.tick now).1.currentEpoch := by
  have hevict : ∀ es : List MembershipEvent,
      (∀ e ∈ es, ∃ k reason, e = .nodeEvicted k reason) →
      epochAfter self.currentEpoch es = self.currentEpoch := by
    intro es hes
    induction es with
    | nil => rfl
    | cons e es ih =>
      obtain ⟨k, reason, rfl⟩ := hes e (List.mem_cons_self ..)
      exact ih fun e' he' => hes e' (List.mem_cons_of_mem _ he')
  have hevicted := hevict (self.evict now).2 fun e he => by
    obtain ⟨k, _, _, reason, -, -, rfl⟩ := MembershipService.mem_evict_events.mp he
    exact ⟨k, reason, rfl⟩
  rw [MembershipService.tick_eq, epochAfter, List.foldl_append]
  show epochAfter (epochAfter _ _) _ = _
  rw [hevicted]
  rcases MembershipService.settleEpoch_cases (self.evict now).1 now with
    ⟨-, heq⟩ | ⟨-, -, heq⟩ | ⟨-, -, heq⟩ <;> rw [heq] <;> rfl

/-- What a tick reports takes the view before the tick to the view after it. -/
theorem reported_tick (self : CrossPlatformPool) (now : Date) : self.Reported (.tick now) := by
  rw [Reported, perform]
  refine (replay_observeAll { self with membership := (self.membership.tick now).1 }
    (self.membership.tick now).2 self.membership.currentEpoch).trans ?_
  refine PoolView.ext rfl ?_
  rw [epochAfter_tick, ← membership_tick]
  rfl

/-! ### The inner tick of `planRAMPool` -/

/-- A tick at `now` neither clears a seat nor changes the epoch: no seated node is due to
    leave, and the planning members that stay are the ones last announced, unless it is too
    early for a new epoch. -/
structure QuietAt (pool : CrossPlatformPool) (now : Date) : Prop where
  seats : ∀ P n, pool.nodeID P = some n → pool.platform n = some P →
    pool.membership.leaving now n = none
  epoch : pool.membership.planningSet.filter (fun n => pool.membership.leaving now n = none)
      = pool.membership.lastEpochMembers ∨
    now - pool.membership.lastEpochChangedAt < pool.membership.config.minimumEpochDwellTime

/-- If the call is a `planRAMPool` that gets as far as its tick, the tick is uneventful. -/
def TicksQuietly (self : CrossPlatformPool) : Operation → Prop
  | .planRAMPool _ instant _ => self.hasAllRequiredPlatforms = true → self.QuietAt instant
  | _ => True

/-- The first half of a tick takes the nodes that are leaving out of the planning set. -/
theorem planningSet_evict (self : MembershipService) (now : Date) :
    (self.evict now).1.planningSet
      = self.planningSet.filter (fun n => self.leaving now n = none) := by
  ext n
  rw [MembershipService.mem_planningSet_evict, Finset.mem_filter]

/-- The epoch of a tick stays exactly when the set that remains is the announced one or it is
    too early. -/
theorem currentEpoch_tick_iff (self : MembershipService) (now : Date) :
    (self.tick now).1.currentEpoch = self.currentEpoch ↔
      self.planningSet.filter (fun n => self.leaving now n = none) = self.lastEpochMembers ∨
        now - self.lastEpochChangedAt < self.config.minimumEpochDwellTime := by
  rw [← planningSet_evict, MembershipService.tick_eq]
  rcases MembershipService.settleEpoch_cases (self.evict now).1 now with
    ⟨hset, heq⟩ | ⟨hset, hdwell, heq⟩ | ⟨-, hdwell, heq⟩
  · rw [heq]
    exact iff_of_true rfl (.inl hset)
  · rw [heq]
    refine iff_of_false (fun hepoch => ?_) ?_
    · exact Nat.succ_ne_self _ (congrArg Epoch.value hepoch)
    · rintro (h | h)
      · exact hset h
      · exact absurd h (not_lt.mpr hdwell)
  · rw [heq]
    exact iff_of_true rfl (.inr hdwell)

/-- A tick leaves the view alone exactly when it is quiet. -/
theorem view_tick_iff (self : CrossPlatformPool) (now : Date) :
    (self.tick now).1.view = self.view ↔ self.QuietAt now := by
  have hview : (self.tick now).1.view = self.view ↔
      (∀ P, (self.tick now).1.nodeID P = self.nodeID P) ∧
        (self.membership.tick now).1.currentEpoch = self.membership.currentEpoch := by
    rw [PoolView.ext_iff, ← membership_tick]
    exact and_congr_left fun _ => funext_iff
  rw [hview, currentEpoch_tick_iff]
  constructor
  · rintro ⟨hseats, hepoch⟩
    refine ⟨fun P n hseat hplatform => ?_, hepoch⟩
    by_contra hleaves
    -- the tick would clear the seat
    have hkept := (self.nodeID_tick now P n).mp ((hseats P).trans hseat)
    exact hkept.2 ⟨evicts_tick.mpr hleaves, hplatform⟩
  · rintro ⟨hseats, hepoch⟩
    refine ⟨fun P => Option.ext fun n => ?_, hepoch⟩
    refine (self.nodeID_tick now P n).trans (and_iff_left_of_imp fun hseat => ?_)
    rintro ⟨hevicted, hplatform⟩
    exact evicts_tick.mp hevicted (hseats P n hseat hplatform)

/-- What `planRAMPool` reports is complete exactly if its own tick has nothing to report. -/
theorem reported_planRAMPool_iff (self : CrossPlatformPool) (model : ModelPlacementSpec)
    (instant : Date) (estimatedStageDuration : TimeInterval) :
    self.Reported (.planRAMPool model instant estimatedStageDuration) ↔
      self.TicksQuietly (.planRAMPool model instant estimatedStageDuration) := by
  rw [Reported, perform, planRAMPool_fst, poolMirror.replay_nil, TicksQuietly]
  cases self.hasAllRequiredPlatforms with
  | false => simp
  | true => simpa using eq_comm.trans (self.view_tick_iff instant)

/-- **Step lemma.**  A call reports its effect exactly when it keeps no tick's events back. -/
theorem reported_iff (self : CrossPlatformPool) (op : Operation) :
    self.Reported op ↔ self.TicksQuietly op := by
  cases op with
  | connect drained now platform profile =>
    exact iff_of_true (self.reported_connect drained now platform profile) trivial
  | tick now => exact iff_of_true (self.reported_tick now) trivial
  | planRAMPool model instant estimatedStageDuration =>
    exact self.reported_planRAMPool_iff model instant estimatedStageDuration
  | heartbeatSucceeded now nodeID =>
    refine iff_of_true (reported_of_same rfl rfl ?_) trivial
    exact (MembershipService.perform_frame _ (.heartbeatSucceeded now nodeID)
      (fun _ => MembershipService.Operation.noConfusion)).currentEpoch
  | heartbeatFailed nodeID =>
    refine iff_of_true (reported_of_same rfl rfl ?_) trivial
    exact (MembershipService.perform_frame _ (.heartbeatFailed nodeID)
      (fun _ => MembershipService.Operation.noConfusion)).currentEpoch
  | announceDrain now nodeID =>
    refine iff_of_true (reported_of_same ?_ rfl ?_) trivial
    · simp only [perform, announceDrain]
      split
      · split <;> rfl
      · rfl
    · exact (MembershipService.perform_frame _ (.nodeAnnouncedDrain now nodeID)
        (fun _ => MembershipService.Operation.noConfusion)).currentEpoch

/-! ### Whole runs -/

/-- What a host knows after the calls `ops`. -/
def hostView (start : CrossPlatformPool) (ops : List Operation) : PoolView :=
  poolMirror.replay .initial (Machine.events (machine.history start ops))

/-- **Event replay.**  Along every run of a new pool, the host's view has the pool's seats,
    connected platforms and epoch after every operation exactly when no `planRAMPool` of the
    run ticks away a seat or an epoch. -/
theorem pool_replay_iff (start : Date) (localNodeID : NodeID) (config : MembershipConfig)
    (planner : StagePlanner) (ops : List Operation) :
    (∀ pre post, ops = pre ++ post →
      Mirrored (hostView (init start localNodeID config planner) pre)
        (machine.exec (init start localNodeID config planner) pre)) ↔
    ∀ e ∈ machine.history (init start localNodeID config planner) ops,
      e.before.TicksQuietly e.call := by
  have hinit : (init start localNodeID config planner).view = .initial := by
    refine PoolView.ext (funext fun P => ?_) rfl
    simp [view, CrossPlatformPool.init, nodeID, PoolView.initial]
  generalize init start localNodeID config planner = pool at hinit ⊢
  simp only [mirrored_iff, hostView, ← hinit]
  refine (machine.replays_iff poolMirror view pool ops).trans ?_
  refine forall₂_congr fun e he => ?_
  obtain ⟨pre, op, post, -, rfl⟩ := machine.mem_history.mp he
  exact reported_iff _ op

/-- Four simulated peers connect and are planned for five seconds later. -/
def silentEpoch : List Operation :=
  connectAllSimulatedPlatforms 0 ++ [.planRAMPool ⟨"m", 8, 1024, 16⟩ 5 10]

/-- The planning call begins epoch `1`; the host is still told of epoch `0`. -/
theorem silent_epoch :
    ¬ ∀ (start : Date) (localNodeID : NodeID) (config : MembershipConfig)
      (planner : StagePlanner) (ops : List Operation),
      Mirrored (hostView (init start localNodeID config planner) ops)
        (machine.exec (init start localNodeID config planner) ops) := by
  intro h
  have hepoch := (h 0 ⟨"pool-hub"⟩ {} {} silentEpoch).epoch
  exact absurd hepoch (by decide +kernel)

end CrossPlatformPool

end ShareCompute.Core
