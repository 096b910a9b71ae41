import ShareCompute.App.RingHealthMonitor
import ShareCompute.Core.LeaseGrant

namespace ShareCompute.App

open ShareCompute.Library ShareCompute.Core

/-!
# A healthy ring and its leases

When every peer answers every ping, is the ring ever declared lost?  Peers are kept alive by
`heartbeatSucceeded`, which renews their leases in the round that pings them.  The local node
is kept alive by `nodeAppeared` alone, which does not; so its lease runs out, and the tick
that notices evicts the device the monitor runs on.

* `Attended` — no member has missed a heartbeat or left its planning state; a round of
  answered pings keeps it, and after the round the leases that may have expired are those
  of the members that were not pinged (`unexpired_foldl_probe`).
* `healthy_ring_kept_iff` — a run of answered rounds keeps its ring exactly when the members
  that are not pinged hold leases that reach each round.
* `local_lease_expires` — a two-device ring that loses itself after a minute and a half.
-/

/-! ### Attended members -/

/-- Every member is in a planning state and has missed no heartbeat. -/
structure Attended (membership : MembershipService) : Prop where
  config : membership.config = RingHealthMonitor.membershipConfig
  records : ∀ id record, membership.storage.get? id = some record →
    record.state.participatesInPlanning = true ∧ record.consecutiveMissedHeartbeats = 0

/-- The lease filed under `id`, if there is one, is valid at `now`. -/
def Unexpired (membership : MembershipService) (now : Date) (id : NodeID) : Prop :=
  ∀ record ∈ membership.storage.get? id, ∀ lease ∈ record.lease, lease.isValid now = true

variable {membership : MembershipService} {now : Date} {id : NodeID}

/-- Where every member is attended to, nobody is suspended. -/
theorem Attended.not_suspended (h : Attended membership) {record : MemberRecord}
    (hrecord : membership.storage.get? id = some record) : record.state ≠ .suspended := by
  intro hstate
  have hparticipates := (h.records id record hrecord).1
  rw [hstate] at hparticipates
  cases hparticipates

/-- A lease the monitor's membership issues now is valid now. -/
theorem isValid_issueLease (hconfig : membership.config = RingHealthMonitor.membershipConfig)
    (profile : CapabilityProfile) (state : NodeState) (score : ℚ) :
    (membership.issueLease profile state now score).isValid now = true := by
  have hpos := profile.maximumSupportableLeaseDuration_pos
  have hmin : 0 < min membership.config.leaseDuration profile.maximumSupportableLeaseDuration := by
    rw [hconfig]
    exact lt_min (by decide +kernel) hpos
  exact decide_eq_true (lt_add_of_pos_right now hmin)

/-! ### A round of answered pings -/

/-- A node that appears is in its planning state and has missed nothing, so all members are still
    attended to. -/
theorem Attended.nodeAppeared (h : Attended membership) (profile : CapabilityProfile) :
    Attended (membership.nodeAppeared now profile).1 := by
  refine ⟨?_, fun id record hrecord => ?_⟩
  · exact (membership.perform_frame (.nodeAppeared now profile) (by simp)).config.trans h.config
  rw [MembershipService.get?_nodeAppeared] at hrecord
  split at hrecord
  · obtain rfl := Option.some.inj hrecord
    cases hold : membership.storage.get? profile.nodeID with
    | none => exact ⟨NodeStateMachine.initialState_participates profile, rfl⟩
    | some existing =>
      simp only [h.not_suspended hold, if_false]
      exact ⟨(h.records _ existing hold).1, rfl⟩
  · exact h.records id record hrecord

/-- Appearing renews nothing: only a newcomer gets a lease. -/
theorem Attended.unexpired_nodeAppeared (h : Attended membership) (profile : CapabilityProfile) :
    Unexpired (membership.nodeAppeared now profile).1 now id ↔ Unexpired membership now id := by
  unfold Unexpired
  rw [MembershipService.get?_nodeAppeared]
  by_cases hid : id = profile.nodeID
  · subst hid
    rw [if_pos rfl]
    cases hold : membership.storage.get? profile.nodeID with
    | none =>
      refine iff_of_true ?_ (by simp)
      rintro _ ⟨⟩ _ ⟨⟩
      exact isValid_issueLease h.config ..
    | some existing =>
      simp only [h.not_suspended hold, if_false]
      simp [MembershipService.refreshed]
  · rw [if_neg hid]

/-- An answered heartbeat clears the count of its node, so all members are still attended to. -/
theorem Attended.heartbeatSucceeded (h : Attended membership) (nodeID : NodeID) :
    Attended (membership.heartbeatSucceeded now nodeID) := by
  refine ⟨?_, fun id record hrecord => ?_⟩
  · exact (membership.perform_frame (.heartbeatSucceeded now nodeID) (by simp)).config.trans
      h.config
  rw [MembershipService.get?_heartbeatSucceeded] at hrecord
  split at hrecord
  · obtain ⟨old, hold, rfl⟩ := Option.map_eq_some_iff.mp hrecord
    exact ⟨(h.records id old hold).1, rfl⟩
  · exact h.records id record hrecord

/-- A heartbeat renews the lease of the node it comes from. -/
theorem Attended.unexpired_heartbeatSucceeded (h : Attended membership) (nodeID : NodeID) :
    Unexpired (membership.heartbeatSucceeded now nodeID) now id
      ↔ id = nodeID ∨ Unexpired membership now id := by
  unfold Unexpired
  rw [MembershipService.get?_heartbeatSucceeded]
  by_cases hid : id = nodeID
  · refine iff_of_true ?_ (.inl hid)
    rw [if_pos hid]
    intro record hrecord lease hlease
    obtain ⟨old, hold, rfl⟩ := Option.map_eq_some_iff.mp hrecord
    simp only [MembershipService.renewed, (h.records id old hold).1, if_true,
      Option.mem_def, Option.some.injEq] at hlease
    exact hlease ▸ isValid_issueLease h.config ..
  · simp [hid]

/-- The identities of a list of devices. -/
def nodeIDs (devices : List RingDevice) : List NodeID :=
  devices.map (fun device => ⟨device.name⟩)

/-- Pinging peers that all answer keeps the members attended and renews exactly the leases of
    the peers. -/
theorem Attended.foldl_probe {round : Round} {peers : List RingDevice}
    (hanswers : ∀ peer ∈ peers, round.answers peer = true) (h : Attended membership) :
    Attended (peers.foldl (RingHealthMonitor.probe round) membership) ∧
      ∀ id, Unexpired (peers.foldl (RingHealthMonitor.probe round) membership) round.now id
        ↔ id ∈ nodeIDs peers ∨ Unexpired membership round.now id := by
  induction peers generalizing membership with
  | nil => exact ⟨h, fun id => by simp [nodeIDs]⟩
  | cons peer peers ih =>
    rw [List.foldl_cons]
    have hprobe : Attended (RingHealthMonitor.probe round membership peer) ∧
        ∀ id, Unexpired (RingHealthMonitor.probe round membership peer) round.now id
          ↔ id = ⟨peer.name⟩ ∨ Unexpired membership round.now id := by
      rw [RingHealthMonitor.probe, if_pos (hanswers peer (List.mem_cons_self ..))]
      cases peer.hardwareProfile with
      | none => exact ⟨h.heartbeatSucceeded _, fun _ => h.unexpired_heartbeatSucceeded _⟩
      | some profile =>
        have hknown : Attended (membership.nodeAppeared round.now
            (capabilityProfile round.thermalState profile ⟨peer.name⟩)).1 := h.nodeAppeared _
        refine ⟨hknown.heartbeatSucceeded _, fun id => ?_⟩
        rw [hknown.unexpired_heartbeatSucceeded, h.unexpired_nodeAppeared]
    obtain ⟨hattended, hunexpired⟩ :=
      ih (fun p hp => hanswers p (List.mem_cons_of_mem _ hp)) hprobe.1
    refine ⟨hattended, fun id => ?_⟩
    rw [hunexpired, hprobe.2]
    simp only [nodeIDs, List.map_cons, List.mem_cons]
    tauto

/-! ### The tick -/

/-- An attended member leaves at a tick exactly when its lease has expired. -/
theorem Attended.departure_iff (h : Attended membership) {record : MemberRecord}
    (hrecord : membership.storage.get? id = some record) :
    MembershipService.departure membership.config now record = none
      ↔ ∀ lease ∈ record.lease, lease.isValid now = true := by
  obtain ⟨hparticipates, hmissed⟩ := h.records id record hrecord
  have hdraining : record.state ≠ .draining := by
    intro hstate
    rw [hstate] at hparticipates
    cases hparticipates
  have hbeats : ¬ membership.config.missedHeartbeatsBeforeEviction ≤ 0 := by
    rw [h.config]
    decide
  rw [MembershipService.departure, if_neg hdraining, hparticipates, hmissed, if_neg (by simp),
    if_neg hbeats]
  cases record.lease with
  | none => simp
  | some lease => by_cases hvalid : lease.isValid now = true <;> simp [hvalid]

/-- A tick evicts nobody exactly when no lease has expired. -/
theorem Attended.evict_eq_nil_iff (h : Attended membership) :
    (membership.evict now).2 = [] ↔ ∀ id, Unexpired membership now id := by
  constructor
  · intro hnil id record hrecord
    refine (h.departure_iff hrecord).mp ?_
    by_contra hdeparture
    obtain ⟨⟨event, reason⟩, hdeparture⟩ := Option.ne_none_iff_exists'.mp hdeparture
    have hevicted : .nodeEvicted id reason ∈ (membership.evict now).2 :=
      MembershipService.mem_evict_events.mpr
        ⟨id, record, event, reason, hrecord, hdeparture, rfl⟩
    rw [hnil] at hevicted
    cases hevicted
  · intro hunexpired
    refine List.eq_nil_iff_forall_not_mem.mpr fun e he => ?_
    obtain ⟨id, record, event, reason, hrecord, hdeparture, -⟩ :=
      MembershipService.mem_evict_events.mp he
    rw [(h.departure_iff hrecord).mpr (hunexpired id record hrecord)] at hdeparture
    cases hdeparture

/-- Settling the epoch reports no loss, since all it publishes is an epoch. -/
theorem lossReasons_settleEpoch (membership : MembershipService) (now : Date) :
    RingWatchdog.lossReasons (membership.settleEpoch now).2 = [] := by
  rcases membership.settleEpoch_cases now with ⟨-, heq⟩ | ⟨-, -, heq⟩ | ⟨-, -, heq⟩ <;>
    rw [heq] <;> rfl

/-- Every eviction is a loss, so where no loss is reported nobody was evicted. -/
theorem not_evicted_of_lossReasons {events : List MembershipEvent}
    (h : RingWatchdog.lossReasons events = []) (node : NodeID) (reason : EvictionReason) :
    .nodeEvicted node reason ∉ events := by
  intro hmem
  have hnone := List.filterMap_eq_nil_iff.mp h _ hmem
  cases reason <;> cases hnone

/-- A tick at which no lease has expired keeps the members attended. -/
theorem Attended.tick (h : Attended membership) (hunexpired : ∀ id, Unexpired membership now id) :
    Attended (membership.tick now).1 ∧ RingWatchdog.lossReasons (membership.tick now).2 = [] := by
  have hnil := h.evict_eq_nil_iff.mpr hunexpired
  have hevicted : Attended (membership.evict now).1 := by
    refine ⟨h.config, fun id record hrecord => ?_⟩
    rw [MembershipService.get?_evict] at hrecord
    obtain ⟨old, hold, rfl⟩ := Option.map_eq_some_iff.mp hrecord
    rw [MembershipService.evictedRecord,
      (h.departure_iff hold).mpr (hunexpired id old hold)]
    exact h.records id old hold
  rw [MembershipService.tick_eq]
  refine ⟨?_, ?_⟩
  · rcases (membership.evict now).1.settleEpoch_cases now with
      ⟨-, heq⟩ | ⟨-, -, heq⟩ | ⟨-, -, heq⟩
    · rw [heq]; exact hevicted
    · rw [heq]
      refine ⟨hevicted.config, fun id record hrecord => ?_⟩
      -- a new epoch re-issues leases and touches neither states nor missed heartbeats
      rw [MembershipService.get?_reissueLeases] at hrecord
      obtain ⟨old, hold, rfl⟩ := Option.map_eq_some_iff.mp hrecord
      rw [MembershipService.reissuedRecord, if_pos (hevicted.records id old hold).1]
      exact hevicted.records id old hold
    · rw [heq]; exact hevicted
  · rw [hnil, List.nil_append]
    exact lossReasons_settleEpoch _ now

/-! ### The monitor -/

namespace RingHealthMonitor

variable {self : RingHealthMonitor}

/-- The members that a round pings: the peers of this device in the coordinator's ring. -/
def pinged (self : RingHealthMonitor) (round : Round) : List NodeID :=
  match round.devices with
  | none => []
  | some devices => nodeIDs (self.ringPeers devices)

/-- Nothing disturbs the step: in a round every peer answers and every profile is there, and
    nobody announces a drain. -/
def Undisturbed (self : RingHealthMonitor) : Step → Prop
  | .probePeers round => round.localProfile.isSome = true ∧
      ∃ devices ∈ round.devices, ∀ peer ∈ self.ringPeers devices,
        peer.hardwareProfile.isSome = true ∧ round.answers peer = true
  | .peerAnnouncedDrain .. => False
  | .start _ | .beginGeneration _ | .recordProgress _ | .refreshHealth _
  | .reformationFinished .. => True

/-- Whether a step is undisturbed can be computed, so that runs of rounds can be evaluated. -/
instance (self : RingHealthMonitor) : DecidablePred self.Undisturbed
  | .probePeers round => inferInstanceAs (Decidable (round.localProfile.isSome = true ∧
      ∃ devices ∈ round.devices, ∀ peer ∈ self.ringPeers devices,
        peer.hardwareProfile.isSome = true ∧ round.answers peer = true))
  | .peerAnnouncedDrain .. => isFalse not_false
  | .start _ | .beginGeneration _ | .recordProgress _ | .refreshHealth _
  | .reformationFinished .. => isTrue trivial

/-- The members that a round does not ping (the local node, and devices that have left the
    ring) hold leases that reach it. -/
def LeasesReach (self : RingHealthMonitor) : Step → Prop
  | .probePeers round =>
      ∀ id, id ∉ self.pinged round → Unexpired self.membership round.now id
  | _ => True

/-- The ring is kept: the step evicts nobody, and after it the watchdog runs and admits a
    generation whenever it is asked. -/
structure Kept (e : Entry RingHealthMonitor Step Outcome) : Prop where
  evicts_nobody : ∀ events node reason, e.returned = .events events →
    .nodeEvicted node reason ∉ events
  running : e.after.watchdog.phase = .running
  admits : ∀ now, (e.after.watchdog.beginGeneration now).2 = true

/-- All members attended, no loss pending, no rebuild under way. -/
structure Healthy (monitor : RingHealthMonitor) : Prop where
  attended : Attended monitor.membership
  running : monitor.watchdog.phase = .running
  quiet : monitor.watchdog.pendingLoss = none
  resting : monitor.isReforming = false

/-- A monitor without a ring is healthy, since it watches nobody. -/
theorem Healthy.init (bonjourName : String) (canReform : Bool) (now : Date) :
    Healthy (init bonjourName canReform now) where
  attended := by
    refine ⟨rfl, fun id record hrecord => ?_⟩
    simp [RingHealthMonitor.init, MembershipService.init] at hrecord
  running := rfl
  quiet := rfl
  resting := rfl

/-- Evaluating a watchdog that runs with no loss pending changes nothing. -/
theorem evaluate_resting {watchdog : RingWatchdog} (hrunning : watchdog.phase = .running)
    (hquiet : watchdog.pendingLoss = none) (now : Date) :
    (watchdog.evaluate now).1 = watchdog ∧
      ∀ reason since, (watchdog.evaluate now).2 ≠ .reforming reason since := by
  rw [RingWatchdog.evaluate_of_quiet hrunning hquiet]
  refine ⟨rfl, fun reason since => ?_⟩
  dsimp only
  split <;> simp

/-- A healthy monitor admits every generation, since no loss is recorded. -/
theorem Healthy.admits (h : Healthy self) (now : Date) :
    (self.watchdog.beginGeneration now).2 = true := by
  rw [RingWatchdog.beginGeneration_iff, (evaluate_resting h.running h.quiet now).1]
  exact h.running

/-- Refreshing the health of a healthy monitor starts no re-formation, since no loss is recorded. -/
theorem Healthy.refreshHealth (h : Healthy self) (now : Date) :
    Healthy (self.refreshHealth now) := by
  obtain ⟨hsame, hhealth⟩ := evaluate_resting h.running h.quiet now
  unfold RingHealthMonitor.refreshHealth
  dsimp only
  split
  · next hreforming => exact absurd hreforming (hhealth _ _)
  · refine ⟨h.attended, ?_, ?_, h.resting⟩
    · show (self.watchdog.evaluate now).1.phase = .running
      rw [hsame]
      exact h.running
    · show (self.watchdog.evaluate now).1.pendingLoss = none
      rw [hsame]
      exact h.quiet

/-- Publishing the local profile renews no lease, and all members are still attended to. -/
theorem Healthy.attended_publish (h : Healthy self) (round : Round) :
    Attended (self.publishLocalProfile round) ∧
      ∀ id, Unexpired (self.publishLocalProfile round) round.now id
        ↔ Unexpired self.membership round.now id := by
  unfold publishLocalProfile
  split
  · exact ⟨h.attended, fun _ => Iff.rfl⟩
  · exact ⟨h.attended.nodeAppeared _, fun id => h.attended.unexpired_nodeAppeared _⟩

/-- To begin a round of pings changes nothing that health depends on. -/
theorem Healthy.start (h : Healthy self) (round : Round) : Healthy (self.start round) :=
  { h with attended := (h.attended_publish round).1 }

/-- **A round of answered pings** reports no loss exactly when the leases reach it, and then
    leaves the monitor healthy. -/
theorem Healthy.probePeers (h : Healthy self) {round : Round}
    (hround : self.Undisturbed (.probePeers round)) :
    ((∀ node reason, .nodeEvicted node reason ∉ (self.probePeers round).2)
      ↔ self.LeasesReach (.probePeers round)) ∧
    (self.LeasesReach (.probePeers round) → Healthy (self.probePeers round).1) := by
  obtain ⟨-, devices, hdevices, hpeers⟩ := hround
  -- the membership as the tick finds it
  let membership := (self.ringPeers devices).foldl (probe round) (self.publishLocalProfile round)
  have hpublished := h.attended_publish round
  have hanswers : ∀ peer ∈ self.ringPeers devices, round.answers peer = true :=
    fun peer hpeer => (hpeers peer hpeer).2
  have hattended : Attended membership := (hpublished.1.foldl_probe hanswers).1
  have hreach : self.LeasesReach (.probePeers round) ↔ ∀ id, Unexpired membership round.now id := by
    refine forall_congr' fun id => ?_
    rw [(hpublished.1.foldl_probe hanswers).2, hpublished.2, pinged, hdevices]
    tauto
  -- the monitor as it refreshes its health
  let ticked : RingHealthMonitor :=
    { self with
      membership := (membership.tick round.now).1
      watchdog := self.watchdog.consume (membership.tick round.now).2 round.now }
  have hprobe : self.probePeers round
      = (ticked.refreshHealth round.now, (membership.tick round.now).2) := by
    rw [RingHealthMonitor.probePeers, hdevices]
  rw [hprobe, hreach]
  have hhealthy : (∀ id, Unexpired membership round.now id) →
      Healthy (ticked.refreshHealth round.now) := by
    intro hunexpired
    obtain ⟨hticked, hlosses⟩ := hattended.tick hunexpired
    have hwatchdog : ticked.watchdog = self.watchdog := by
      show self.watchdog.consume (membership.tick round.now).2 round.now = _
      rw [RingWatchdog.consume_eq, hlosses]
      rfl
    have hhealthy' : Healthy ticked :=
      ⟨hticked, hwatchdog ▸ h.running, hwatchdog ▸ h.quiet, h.resting⟩
    exact hhealthy'.refreshHealth round.now
  refine ⟨⟨fun hnobody => hattended.evict_eq_nil_iff.mp ?_, fun hunexpired => ?_⟩, hhealthy⟩
  · refine List.eq_nil_iff_forall_not_mem.mpr fun e he => ?_
    obtain ⟨id, _, _, reason, -, -, rfl⟩ := MembershipService.mem_evict_events.mp he
    refine hnobody id reason ?_
    rw [MembershipService.tick_eq]
    exact List.mem_append_left _ he
  · exact not_evicted_of_lossReasons (hattended.tick hunexpired).2

/-- An admitted generation only restarts the clock of the watchdog. -/
theorem Healthy.beginGeneration (h : Healthy self) (now : Date) :
    Healthy (self.beginGeneration now).1 := by
  let fresh : RingWatchdog := { self.watchdog with lastProgressAt := now, pendingLoss := none }
  have hadmitted : self.watchdog.beginGeneration now = (fresh, true) := by
    have hsame := (evaluate_resting h.running h.quiet now).1
    rcases self.watchdog.beginGeneration_cases now with ⟨hphase, -⟩ | ⟨-, heq⟩
    · rw [hsame] at hphase
      exact absurd h.running hphase
    · rw [heq, hsame]
  have hsame := (evaluate_resting (show fresh.phase = .running from h.running)
    (show fresh.pendingLoss = none from rfl) now).1
  unfold RingHealthMonitor.beginGeneration
  rw [hadmitted]
  refine ⟨h.attended, ?_, ?_, h.resting⟩
  · show (fresh.evaluate now).1.phase = .running
    rw [hsame]
    exact h.running
  · show (fresh.evaluate now).1.pendingLoss = none
    rw [hsame]

/-- A token that arrives only tells the watchdog of progress. -/
theorem Healthy.recordProgress (h : Healthy self) (now : Date) :
    Healthy (self.recordProgress now) := by
  refine ⟨h.attended, ?_, ?_, h.resting⟩ <;>
    simp [RingHealthMonitor.recordProgress, RingWatchdog.recordProgress, h.running, h.quiet]

/-- No rebuild is under way, so none can finish. -/
theorem Healthy.reformationFinished (h : Healthy self) (error : Option String) (now : Date) :
    Healthy (self.reformationFinished error now) := by
  unfold RingHealthMonitor.reformationFinished
  rw [if_neg (by simp [h.resting])]
  exact h

/-- **Step lemma.**  An undisturbed step of a healthy monitor keeps the ring exactly when the
    leases reach it, and then leaves the monitor healthy. -/
theorem Healthy.perform (h : Healthy self) {step : Step} (hstep : self.Undisturbed step) :
    (Kept (machine.entry self step) ↔ self.LeasesReach step) ∧
      (self.LeasesReach step → Healthy (self.perform step).1) := by
  have hkept : Healthy (self.perform step).1 →
      (∀ events node reason, (self.perform step).2 = .events events →
        .nodeEvicted node reason ∉ events) → Kept (machine.entry self step) :=
    fun hafter hevicts => ⟨hevicts, hafter.running, hafter.admits⟩
  cases step with
  | start round =>
    have hafter := h.start round
    exact ⟨iff_of_true (hkept hafter (by rintro _ _ _ ⟨⟩)) trivial, fun _ => hafter⟩
  | probePeers round =>
    obtain ⟨hiff, hafter⟩ := h.probePeers hstep
    refine ⟨⟨fun hkeeps => ?_, fun hreach => ?_⟩, hafter⟩
    · exact hiff.mp fun node reason => hkeeps.evicts_nobody _ node reason rfl
    · refine hkept (hafter hreach) ?_
      rintro _ node reason ⟨⟩
      exact hiff.mpr hreach node reason
  | beginGeneration now =>
    have hafter := h.beginGeneration now
    exact ⟨iff_of_true (hkept hafter (by rintro _ _ _ ⟨⟩)) trivial, fun _ => hafter⟩
  | recordProgress now =>
    have hafter := h.recordProgress now
    exact ⟨iff_of_true (hkept hafter (by rintro _ _ _ ⟨⟩)) trivial, fun _ => hafter⟩
  | refreshHealth now =>
    have hafter := h.refreshHealth now
    exact ⟨iff_of_true (hkept hafter (by rintro _ _ _ ⟨⟩)) trivial, fun _ => hafter⟩
  | reformationFinished error now =>
    have hafter := h.reformationFinished error now
    exact ⟨iff_of_true (hkept hafter (by rintro _ _ _ ⟨⟩)) trivial, fun _ => hafter⟩
  | peerAnnouncedDrain nodeName now => exact absurd hstep id

/-- **A run keeps its ring exactly when the leases reach.**  Along every run in which all
    peers answer, all profiles are there and nobody announces a drain: no tick evicts anyone,
    the watchdog never leaves its running phase and admits every generation, if and only if
    at every round the members that are not pinged hold leases that reach it. -/
theorem healthy_ring_kept_iff (bonjourName : String) (canReform : Bool) (start : Date)
    (steps : List Step)
    (hsteps : ∀ e ∈ machine.history (init bonjourName canReform start) steps,
      e.before.Undisturbed e.call) :
    (∀ e ∈ machine.history (init bonjourName canReform start) steps, Kept e) ↔
      ∀ e ∈ machine.history (init bonjourName canReform start) steps,
        e.before.LeasesReach e.call := by
  have hhealthy := Healthy.init bonjourName canReform start
  generalize init bonjourName canReform start = monitor at hhealthy hsteps ⊢
  induction steps generalizing monitor with
  | nil => simp
  | cons step steps ih =>
    rw [Machine.history, List.forall_mem_cons] at hsteps
    obtain ⟨hiff, hafter⟩ := hhealthy.perform hsteps.1
    rw [Machine.history, List.forall_mem_cons, List.forall_mem_cons]
    constructor
    · rintro ⟨hkept, hrest⟩
      have hreach := hiff.mp hkept
      exact ⟨hreach, (ih _ (hafter hreach) hsteps.2).mp hrest⟩
    · rintro ⟨hreach, hrest⟩
      exact ⟨hiff.mpr hreach, (ih _ (hafter hreach) hsteps.2).mpr hrest⟩

/-! ### The lease nobody renews -/

/-- The second of two consecutive rounds comes sooner after the first than any member's lease
    is long. -/
def Spaced (round round' : Round) (monitor : RingHealthMonitor) : Prop :=
  ∀ record ∈ monitor.membership.storage.values,
    round'.now - round.now <
      MembershipService.leaseLength monitor.membership.config record.profile

/-- Consecutive rounds are `Spaced` by the members the monitor then has. -/
def AllSpaced (monitor : RingHealthMonitor) : List Round → Prop
  | round :: round' :: rounds =>
      Spaced round round' (monitor.probePeers round).1 ∧
        AllSpaced (monitor.probePeers round).1 (round' :: rounds)
  | _ => True

/-- Whether two rounds are far enough apart can be computed. -/
instance (round round' : Round) (monitor : RingHealthMonitor) :
    Decidable (Spaced round round' monitor) :=
  inferInstanceAs (Decidable (∀ record ∈ monitor.membership.storage.values, _))

/-- A round of two desktops, thirty seconds after the last. -/
def thirtySeconds (n : ℕ) : Round where
  now := 30 * n
  localProfile := some ⟨64, 48, .mac⟩
  devices := some [⟨"mini", some ⟨64, 48, .mac⟩⟩, ⟨"studio", some ⟨64, 48, .mac⟩⟩]
  answers := fun _ => true

/-- Four such rounds: the lease of the local node, renewed for the last time by the epoch
    change at second `30`, runs out at second `90`. -/
theorem local_lease_expires :
    ¬ ∀ (bonjourName : String) (canReform : Bool) (start : Date) (rounds : List Round),
      (∀ e ∈ machine.history (init bonjourName canReform start) (rounds.map Step.probePeers),
        e.before.Undisturbed e.call) →
      AllSpaced (init bonjourName canReform start) rounds →
      ∀ e ∈ machine.history (init bonjourName canReform start) (rounds.map Step.probePeers),
        Kept e := by
  intro h
  have hkept := h "studio" true 0
    [thirtySeconds 0, thirtySeconds 1, thirtySeconds 2, thirtySeconds 3] (by decide +kernel)
    ⟨by decide +kernel, by decide +kernel, by decide +kernel, trivial⟩
    (machine.entry (machine.exec (init "studio" true 0)
      [.probePeers (thirtySeconds 0), .probePeers (thirtySeconds 1), .probePeers (thirtySeconds 2)])
      (.probePeers (thirtySeconds 3)))
    (machine.mem_history.mpr
      ⟨[.probePeers (thirtySeconds 0), .probePeers (thirtySeconds 1),
        .probePeers (thirtySeconds 2)], _, [], rfl, rfl⟩)
  exact hkept.evicts_nobody _ ⟨"studio"⟩ .leaseExpired rfl (by decide +kernel)

/-- The first two of these rounds, with a generation in between. -/
theorem healthy_ring_kept_iff_two_rounds :
    (∀ e ∈ machine.history (init "studio" true 0)
      [.probePeers (thirtySeconds 0), .beginGeneration 10, .probePeers (thirtySeconds 1)], Kept e) ↔
    ∀ e ∈ machine.history (init "studio" true 0)
      [.probePeers (thirtySeconds 0), .beginGeneration 10, .probePeers (thirtySeconds 1)],
      e.before.LeasesReach e.call :=
  healthy_ring_kept_iff "studio" true 0 _ (by decide +kernel)

end RingHealthMonitor

end ShareCompute.App
