import ShareCompute.Core.MembershipSpec
import ShareCompute.Library.Replay

namespace ShareCompute.Core

open ShareCompute.Library

/-!
# The ring as its events tell it

An adapter sees the membership service through the events its calls return.  It keeps a set
of nodes: a join adds the node, a drain and an eviction remove it.  `event_replay` says that
this set is the planning set after every call, and that every event fits the set it meets:
nobody joins twice, nobody drains or is evicted from outside, except that a drained node is
evicted after it has left the set, and an announced epoch names exactly the set.

The loop of `tick` is the one place where several events come from one call.  Each of its
iterations is about a node of its own, which is what `replay_evictions` rests on.
-/

namespace MembershipService

/-- What an event does to the adapter's set. -/
def followed (ring : Finset NodeID) : MembershipEvent → Finset NodeID
  | .nodeJoined node => insert node ring
  | .nodeDraining node => ring.erase node
  | .nodeEvicted node _ => ring.erase node
  | .epochChanged _ _ | .epochChangeDeferred _ => ring

/-- What an event assumes of the set it meets. -/
def Expected (ring : Finset NodeID) : MembershipEvent → Prop
  | .nodeJoined node => node ∉ ring
  | .nodeDraining node => node ∈ ring
  -- a drained node has left with its `nodeDraining`
  | .nodeEvicted node reason => node ∈ ring ↔ reason ≠ .drained
  | .epochChanged _ members => members.toFinset = ring ∧ members.Pairwise (· < ·)
  | .epochChangeDeferred _ => True

/-- The adapter's set as a view kept from events. -/
def ringMirror : Mirror (Finset NodeID) MembershipEvent := ⟨followed, Expected⟩

/-- What the mirror makes of an event is what a listener does that follows it. -/
@[simp] theorem ringMirror_apply (ring : Finset NodeID) (e : MembershipEvent) :
    ringMirror.apply ring e = followed ring e := rfl

/-- An event fits the mirror exactly if it is one to expect with this ring. -/
@[simp] theorem ringMirror_fits (ring : Finset NodeID) (e : MembershipEvent) :
    ringMirror.fits ring e ↔ Expected ring e := Iff.rfl

/-! ### The evictions of a tick -/

/-- The evictions of distinct nodes `ks`: the set loses the evicted ones, and every event
    fits when those in the set do not leave as drained and the others do. -/
theorem replay_evictions (reason : NodeID → Option EvictionReason) (ks : List NodeID)
    (hks : ks.Nodup) (ring : Finset NodeID)
    (hfits : ∀ k ∈ ks, ∀ r ∈ reason k, k ∈ ring ↔ r ≠ .drained) :
    let es := ks.filterMap (fun k => (reason k).map (MembershipEvent.nodeEvicted k))
    (∀ n, n ∈ ringMirror.replay ring es ↔ n ∈ ring ∧ ¬ (n ∈ ks ∧ (reason n).isSome)) ∧
      ringMirror.Admits ring es := by
  induction ks generalizing ring with
  | nil => simp
  | cons k ks ih =>
    obtain ⟨hk, hks'⟩ := List.nodup_cons.mp hks
    cases hr : reason k with
    | none =>
      have htail := ih hks' ring fun k' hk' => hfits k' (List.mem_cons_of_mem _ hk')
      simp only [List.filterMap_cons, hr, Option.map_none]
      refine ⟨fun n => (htail.1 n).trans ?_, htail.2⟩
      by_cases hn : n = k
      · simp [hn, hk, hr]
      · simp [hn]
    | some r =>
      -- the later iterations are about other nodes, for which nothing has changed
      have htail := ih hks' (ring.erase k) fun k' hk' r' hr' => by
        have hne : k' ≠ k := ne_of_mem_of_not_mem hk' hk
        rw [Finset.mem_erase, and_iff_right hne]
        exact hfits k' (List.mem_cons_of_mem _ hk') r' hr'
      simp only [List.filterMap_cons, hr, Option.map_some]
      refine ⟨fun n => (htail.1 n).trans ?_, hfits k (List.mem_cons_self ..) r hr, htail.2⟩
      by_cases hn : n = k
      · simp [hn, hk, hr]
      · simp [hn]

/-- Why the node `k` leaves at `now`, if it does. -/
def leaving (self : MembershipService) (now : Date) (k : NodeID) : Option EvictionReason :=
  ((self.storage.get? k).bind (departure self.config now)).map Prod.snd

/-- The first half of a tick tells of every node that leaves, in the order of the nodes, with the
    reason. -/
theorem evict_events (self : MembershipService) (now : Date) :
    (self.evict now).2 = (Dictionary.sortedKeys self.storage.records).filterMap
      (fun k => (self.leaving now k).map (MembershipEvent.nodeEvicted k)) := by
  refine (Dictionary.sweep_reports _ _ (Dictionary.nodup_sortedKeys _) _).trans ?_
  refine List.filterMap_congr fun k _ => ?_
  show _ = Option.map _ (Option.map _ (((self.storage.records).lookup k).bind _))
  cases (self.storage.records).lookup k with
  | none => rfl
  | some record =>
    simp only [Option.bind_some, departed_eq, Option.map_map]
    rfl

/-- A node that leaves was in the planning set, unless it leaves because its drain is over. -/
theorem planning_of_departure {config : MembershipConfig} {now : Date} {record : MemberRecord}
    {d : NodeEvent × EvictionReason} (h : departure config now record = some d) :
    record.state.participatesInPlanning = true ↔ d.2 ≠ .drained := by
  unfold departure at h
  split at h
  · next hdraining =>
    obtain rfl := Option.some.inj h
    simp [hdraining]
  split at h
  · simp at h
  · next hplanning =>
    have hstays : record.state.participatesInPlanning = true := by simpa using hplanning
    have hreason : d.2 ≠ .drained := by
      split at h
      · obtain rfl := Option.some.inj h
        simp
      · split at h
        · split at h
          · obtain rfl := Option.some.inj h
            simp
          · simp at h
        · simp at h
    exact iff_of_true hstays hreason

/-- A node that leaves was in the planning set before, unless it leaves because it has drained. -/
theorem mem_planningSet_iff_of_leaving {self : MembershipService} {now : Date} {k : NodeID}
    {r : EvictionReason} (h : self.leaving now k = some r) :
    k ∈ self.planningSet ↔ r ≠ .drained := by
  obtain ⟨d, hd, rfl⟩ := Option.map_eq_some_iff.mp h
  obtain ⟨record, hrecord, hdeparture⟩ := Option.bind_eq_some_iff.mp hd
  rw [← planning_of_departure hdeparture, mem_planningSet]
  simp [hrecord]

/-- Whoever leaves is suspended, the others keep their state. -/
theorem stateOf_evict (self : MembershipService) (now : Date) (k : NodeID) :
    (self.evict now).1.stateOf k =
      if (self.leaving now k).isSome then some .suspended else self.stateOf k := by
  rw [stateOf, get?_evict, leaving, stateOf]
  cases self.storage.get? k with
  | none => rfl
  | some record =>
    cases hdeparture : departure self.config now record <;> simp [evictedRecord, hdeparture]

/-- Settling the epoch changes leases only, so states change by evictions alone. -/
theorem stateOf_tick (self : MembershipService) (now : Date) (k : NodeID) :
    (self.tick now).1.stateOf k =
      if (self.leaving now k).isSome then some .suspended else self.stateOf k := by
  rw [← stateOf_evict, tick_eq]
  rcases settleEpoch_cases (self.evict now).1 now with ⟨-, heq⟩ | ⟨-, -, heq⟩ | ⟨-, -, heq⟩
  · rw [heq]
  · rw [heq]
    exact stateOf_reissueLeases _ now k
  · rw [heq]

/-- After the first half of a tick the planning set has the nodes that were in it and do not
    leave. -/
theorem mem_planningSet_evict (self : MembershipService) (now : Date) (k : NodeID) :
    k ∈ (self.evict now).1.planningSet ↔ k ∈ self.planningSet ∧ self.leaving now k = none := by
  rw [mem_planningSet_iff_stateOf, mem_planningSet_iff_stateOf, stateOf_evict]
  cases self.leaving now k <;> simp

/-- A tick reports an eviction of exactly the nodes that leave. -/
theorem nodeEvicted_mem_tick {self : MembershipService} {now : Date} {k : NodeID}
    {reason : EvictionReason} :
    .nodeEvicted k reason ∈ (self.tick now).2 ↔ self.leaving now k = some reason := by
  rw [tick_eq, List.mem_append, mem_evict_events]
  have hsettle : .nodeEvicted k reason ∉ ((self.evict now).1.settleEpoch now).2 := by
    rcases settleEpoch_cases (self.evict now).1 now with ⟨-, heq⟩ | ⟨-, -, heq⟩ | ⟨-, -, heq⟩ <;>
      simp [heq]
  rw [or_iff_left hsettle]
  simp only [leaving, Option.map_eq_some_iff, Option.bind_eq_some_iff,
    MembershipEvent.nodeEvicted.injEq]
  constructor
  · rintro ⟨_, record, event, _, hrecord, hdeparture, rfl, rfl⟩
    exact ⟨(event, reason), ⟨record, hrecord, hdeparture⟩, rfl⟩
  · rintro ⟨⟨event, _⟩, ⟨record, hrecord, hdeparture⟩, rfl⟩
    exact ⟨k, record, event, _, hrecord, hdeparture, rfl, rfl⟩

/-- The first loop of a tick reports its own effect on the planning set. -/
theorem replay_evict (self : MembershipService) (now : Date) :
    ringMirror.replay self.planningSet (self.evict now).2 = (self.evict now).1.planningSet ∧
      ringMirror.Admits self.planningSet (self.evict now).2 := by
  rw [evict_events]
  obtain ⟨hmem, hadmits⟩ := replay_evictions (self.leaving now)
    (Dictionary.sortedKeys self.storage.records) (Dictionary.nodup_sortedKeys _) self.planningSet
    (fun k _ r hr => mem_planningSet_iff_of_leaving hr)
  refine ⟨Finset.ext fun k => (hmem k).trans ?_, hadmits⟩
  rw [mem_planningSet_evict]
  have hkey : (self.leaving now k).isSome → k ∈ Dictionary.sortedKeys self.storage.records := by
    intro hsome
    obtain ⟨r, hr⟩ := Option.isSome_iff_exists.mp hsome
    obtain ⟨d, hd, -⟩ := Option.map_eq_some_iff.mp hr
    obtain ⟨record, hrecord, -⟩ := Option.bind_eq_some_iff.mp hd
    exact Dictionary.mem_sortedKeys.mpr (AList.lookup_isSome.mp (by
      rw [show self.storage.records.lookup k = some record from hrecord]; rfl))
  rw [and_iff_right_of_imp hkey, Option.not_isSome_iff_eq_none]

/-! ### One call -/

/-- The call reports its own effect on the planning set, in events that fit it. -/
def Told (self : MembershipService) (op : Operation) : Prop :=
  ringMirror.replay self.planningSet (self.perform op).2 = (self.perform op).1.planningSet ∧
    ringMirror.Admits self.planningSet (self.perform op).2

/-- A call that returns no event and changes no state. -/
theorem told_of_silent {self : MembershipService} {op : Operation}
    (hevents : (self.perform op).2 = [])
    (hstates : ∀ k, (self.perform op).1.stateOf k = self.stateOf k) : self.Told op := by
  rw [Told, hevents]
  refine ⟨Finset.ext fun k => ?_, trivial⟩
  rw [ringMirror.replay_nil, mem_planningSet_iff_stateOf, mem_planningSet_iff_stateOf, hstates]

/-- What is told when a node appears takes the ring before the call to the ring after it. -/
theorem told_nodeAppeared (self : MembershipService) (now : Date) (profile : CapabilityProfile) :
    self.Told (.nodeAppeared now profile) := by
  have hstate := self.stateOf_nodeAppeared now profile
  have hevents := self.nodeAppeared_events now profile
  by_cases hjoins : (self.storage.get? profile.nodeID).all
      (fun existing => existing.state = .suspended)
  · -- the node was outside the planning set and is inside it afterwards
    rw [if_pos hjoins] at hevents
    have hold : self.stateOf profile.nodeID = none ∨
        self.stateOf profile.nodeID = some .suspended := by
      rw [stateOf]
      cases hget : self.storage.get? profile.nodeID with
      | none => exact .inl rfl
      | some existing => exact .inr (by simpa [hget] using hjoins)
    rw [Told, perform, hevents]
    refine ⟨Finset.ext fun k => ?_, ?_, trivial⟩
    · by_cases hk : k = profile.nodeID
      · rcases hold with hold | hold <;>
          simp [followed, mem_planningSet_iff_stateOf, hstate, hk, hold, -mem_planningSet]
      · simp [followed, mem_planningSet_iff_stateOf, hstate, hk, -mem_planningSet]
    · show profile.nodeID ∉ self.planningSet
      rw [mem_planningSet_iff_stateOf]
      rcases hold with hold | hold <;> simp [hold]
  · -- a refresh leaves the state alone
    rw [if_neg hjoins] at hevents
    refine told_of_silent hevents fun k => ?_
    rw [perform, hstate]
    by_cases hk : k = profile.nodeID
    · subst hk
      rw [if_pos rfl, stateOf]
      cases hget : self.storage.get? profile.nodeID with
      | none => simp [hget] at hjoins
      | some existing =>
        rw [Option.map_some]
        cases hexisting : existing.state with
        | suspended => simp [hget, hexisting] at hjoins
        | _ => rfl
    · rw [if_neg hk]

/-- What is told when a node announces its drain takes the ring before the call to the ring after
    it. -/
theorem told_nodeAnnouncedDrain (self : MembershipService) (now : Date) (nodeID : NodeID) :
    self.Told (.nodeAnnouncedDrain now nodeID) := by
  have hstate := self.stateOf_nodeAnnouncedDrain now nodeID
  have hevents := self.nodeAnnouncedDrain_events now nodeID
  by_cases hdrains : (self.storage.get? nodeID).any
      (fun record => record.state.participatesInPlanning)
  · rw [if_pos hdrains] at hevents
    obtain ⟨record, hold, hplanning⟩ := (Option.any_eq_true _ _).mp hdrains
    have holdState : self.stateOf nodeID = some record.state := by rw [stateOf, hold]; rfl
    rw [Told, perform, hevents]
    refine ⟨Finset.ext fun k => ?_, mem_planningSet.mpr ⟨record, hold, hplanning⟩, trivial⟩
    by_cases hk : k = nodeID
    · simp [followed, mem_planningSet_iff_stateOf, hstate, hk, holdState, hplanning,
        -mem_planningSet]
    · simp [followed, mem_planningSet_iff_stateOf, hstate, hk, -mem_planningSet]
  · rw [if_neg hdrains] at hevents
    refine told_of_silent hevents fun k => ?_
    rw [perform, hstate]
    by_cases hk : k = nodeID
    · subst hk
      rw [if_pos rfl, stateOf]
      cases hold : self.storage.get? k with
      | none => rfl
      | some record =>
        have hplanning : record.state.participatesInPlanning = false := by
          simpa [hold] using hdrains
        simp [hplanning]
    · rw [if_neg hk]

/-- A tick tells its evictions, and an epoch it announces names the set they leave. -/
theorem told_tick (self : MembershipService) (now : Date) : self.Told (.tick now) := by
  obtain ⟨hring, hadmits⟩ := self.replay_evict now
  rw [Told, perform, tick_eq, ringMirror.replay_append, ringMirror.admits_append, hring]
  rcases settleEpoch_cases (self.evict now).1 now with
    ⟨-, heq⟩ | ⟨-, -, heq⟩ | ⟨-, -, heq⟩
  · rw [heq]
    exact ⟨rfl, hadmits, trivial⟩
  · rw [heq]
    refine ⟨?_, hadmits, ⟨rfl, planningMembers_sorted _⟩, trivial⟩
    rw [planningSet_reissueLeases]
    rfl
  · rw [heq]
    exact ⟨rfl, hadmits, trivial, trivial⟩

/-- **Step lemma.**  Every call but `apply` tells what it does to the planning set. -/
theorem told_perform (self : MembershipService) (op : Operation)
    (hop : ∀ event nodeID, op ≠ .apply event nodeID) : self.Told op := by
  cases op with
  | nodeAppeared now profile => exact self.told_nodeAppeared now profile
  | heartbeatSucceeded now nodeID =>
    exact told_of_silent rfl (self.stateOf_heartbeatSucceeded now nodeID)
  | heartbeatFailed nodeID => exact told_of_silent rfl (self.stateOf_heartbeatFailed nodeID)
  | nodeAnnouncedDrain now nodeID => exact self.told_nodeAnnouncedDrain now nodeID
  | apply event nodeID => exact absurd rfl (hop event nodeID)
  | tick now => exact self.told_tick now

/-! ### Whole runs -/

/-- The events the calls of a run returned. -/
def returnedEvents (start : MembershipService) (ops : List Operation) : List MembershipEvent :=
  Machine.events (machine.history start ops)

/-- In a new service nobody takes part in planning. -/
theorem planningSet_init (localNodeID : NodeID) (now : Date) (config : MembershipConfig)
    (epoch : Epoch) : (init localNodeID now config epoch).planningSet = ∅ := by
  refine Finset.eq_empty_of_forall_notMem fun k hk => ?_
  obtain ⟨record, hrecord, -⟩ := mem_planningSet.mp hk
  simp [MembershipService.init] at hrecord

/-- **Event replay.**  Along every run of a new service over all its operations but `apply`,
    with any arguments and times, the set kept from the events, starting empty, is the set of
    the planning members after every call; and every event fits the set it meets, so that an
    `epochChanged` names exactly that set. -/
theorem event_replay (localNodeID : NodeID) (now : Date) (config : MembershipConfig)
    (epoch : Epoch) (ops : List Operation) (hops : ∀ event nodeID, .apply event nodeID ∉ ops) :
    (∀ pre post, ops = pre ++ post →
      ringMirror.replay ∅ (returnedEvents (init localNodeID now config epoch) pre)
        = ((machine.exec (init localNodeID now config epoch) pre).planningMembers.map
            PlannedMember.nodeID).toFinset) ∧
    ∀ pre e post, returnedEvents (init localNodeID now config epoch) ops = pre ++ e :: post →
      Expected (ringMirror.replay ∅ pre) e := by
  have hinit := planningSet_init localNodeID now config epoch
  generalize init localNodeID now config epoch = start at hinit ⊢
  have htold : ∀ e ∈ machine.history start ops, Told e.before e.call ∧
      e = machine.entry e.before e.call := by
    intro e he
    obtain ⟨pre, op, post, rfl, rfl⟩ := machine.mem_history.mp he
    refine ⟨told_perform _ op fun event nodeID heq => hops event nodeID ?_, rfl⟩
    exact heq ▸ List.mem_append_right _ (List.mem_cons_self ..)
  constructor
  · intro pre post hpre
    rw [← hinit]
    refine (machine.replays_iff ringMirror planningSet start ops).mpr (fun e he => ?_) pre post hpre
    obtain ⟨htold, heq⟩ := htold e he
    rw [heq]
    exact htold.1
  · intro pre e post hevents
    have hadmits := machine.admits_events ringMirror planningSet start ops fun e he => by
      obtain ⟨htold, heq⟩ := htold e he
      rw [heq]
      exact htold
    rw [hinit, show Machine.events (machine.history start ops) = _ from hevents] at hadmits
    exact hadmits.fits

/-- A phone that may host required stages. -/
def phone (name : String) : CapabilityProfile where
  nodeID := ⟨name⟩
  connectivity := .elasticMobile
  backgroundLink := .androidForegroundService
  memory := { totalBytes := 8, usableBytes := 6, reclaimModel := .linuxCgroupOOM }
  runtimeBackends := [.liteRT]
  power := { isWallPowered := false, batteryFraction := some (7 / 10) }
  trust := .trustedCore
  declaresCanHostRequiredStage := true

/-- Two phones join; `a` drains, is evicted after its drain and comes back, while `b` stops
    answering and is evicted by the last tick. -/
def drainAndRejoin : List Operation :=
  [.nodeAppeared 0 (phone "a"), .nodeAppeared 1 (phone "b"), .tick 6,
   .nodeAnnouncedDrain 7 ⟨"a"⟩, .tick 8, .nodeAppeared 9 (phone "a"),
   .heartbeatFailed ⟨"b"⟩, .heartbeatFailed ⟨"b"⟩, .heartbeatFailed ⟨"b"⟩, .tick 20]

/-- Only `a` is left, and the events say so. -/
theorem event_replay_drainAndRejoin :
    ringMirror.replay ∅ (returnedEvents (init ⟨"a"⟩ 0) drainAndRejoin) = {⟨"a"⟩} :=
  ((event_replay ⟨"a"⟩ 0 {} .initial drainAndRejoin (by simp [drainAndRejoin])).1
    drainAndRejoin [] (by simp)).trans (by decide +kernel)

end MembershipService

end ShareCompute.Core
