import ShareCompute.Core.Capability
import ShareCompute.Library.Dictionary
import Mathlib.Data.Finset.Sort

namespace ShareCompute.Core

open ShareCompute.Library

/-!
# The membership service

`MembershipService.swift`: who is in the ring, in which state, under which lease, and when
that has changed enough to require a new epoch.  The injected clock's reading is an argument
`now` of every operation that reads it.

The dictionary `storage` files every record under the node it describes; `Storage.keyed`
carries that fact, so a record under a foreign key cannot be built.  What an operation does
to one record is a function of its own (`rejoined`, `refreshed`, `renewed`, …), and the
operation itself only says when it applies.
-/

/-! ### Configuration, events and records -/

/-- The four bounds of the service, with the source's defaults; times are in seconds. -/
structure MembershipConfig where
  leaseDuration : TimeInterval := 60
  heartbeatInterval : TimeInterval := 2
  missedHeartbeatsBeforeEviction : ℤ := 3
  minimumEpochDwellTime : TimeInterval := 5
deriving DecidableEq, Repr

/-- Why a node was taken out of the ring. -/
inductive EvictionReason
  | heartbeatLost | leaseExpired | drained
deriving DecidableEq, Repr

/-- What the service tells its owner about a call. -/
inductive MembershipEvent
  | nodeJoined (node : NodeID)
  | nodeDraining (node : NodeID)
  | nodeEvicted (node : NodeID) (reason : EvictionReason)
  | epochChanged (epoch : Epoch) (members : List NodeID)
  | epochChangeDeferred (untilDwellElapsed : TimeInterval)
deriving DecidableEq, Repr

/-- What the service knows of a node. -/
structure MemberRecord where
  profile : CapabilityProfile
  state : NodeState
  lease : Option Lease
  consecutiveMissedHeartbeats : ℤ
  lastHeardFrom : Date
  stabilityScore : ℚ
deriving DecidableEq

/-- Two profiles that are equal name the same node. -/
theorem MemberRecord.nodeID_of_profile {record : MemberRecord} {profile : CapabilityProfile}
    (h : record.profile = profile) : record.profile.nodeID = profile.nodeID :=
  congrArg CapabilityProfile.nodeID h

/-- A node offered to the planner, with its lease if it has one. -/
structure PlannedMember where
  profile : CapabilityProfile
  state : NodeState
  lease : Option Lease := none
deriving DecidableEq

/-- A planned member is identified by its profile. -/
def PlannedMember.nodeID (member : PlannedMember) : NodeID := member.profile.nodeID

/-! ### The record store -/

/-- The member records, each filed under the node it describes. -/
structure Storage where
  records : Dictionary NodeID MemberRecord
  keyed : ∀ id record, records.lookup id = some record → record.profile.nodeID = id

namespace Storage

/-- A storage without records, as a service has at its start. -/
def empty : Storage := ⟨∅, fun _ _ h => by simp at h⟩

/-- The record that is filed under a node, if there is one. -/
def get? (storage : Storage) (id : NodeID) : Option MemberRecord := storage.records.lookup id

/-- A record read from the store stays under its key when its profile is kept. -/
theorem keyed_of (storage : Storage) {id : NodeID} {record record' : MemberRecord}
    (h : storage.get? id = some record) (hprofile : record'.profile = record.profile) :
    record'.profile.nodeID = id := by
  rw [hprofile]
  exact storage.keyed id record h

/-- `storage[id] = record`, for a record of the node `id`. -/
def set (storage : Storage) (id : NodeID) (record : MemberRecord)
    (hrecord : record.profile.nodeID = id) : Storage where
  records := storage.records.insert id record
  keyed := by
    intro id' record' h
    by_cases hid : id' = id
    · subst hid
      rw [AList.lookup_insert] at h
      exact Option.some.inj h ▸ hrecord
    · rw [AList.lookup_insert_ne hid] at h
      exact storage.keyed id' record' h

/-- The loop over the store that rewrites some records and reports on them; `f` may not
    change the node a record describes. -/
def sweep {ε : Type} (storage : Storage) (f : NodeID → MemberRecord → Option (MemberRecord × ε))
    (hf : ∀ {id record record' e}, f id record = some (record', e) →
      record'.profile = record.profile) : Storage × List ε :=
  (⟨(Dictionary.sweep f (Dictionary.sortedKeys storage.records) storage.records).1, by
      intro id record h
      rw [Dictionary.lookup_sweep_sortedKeys] at h
      obtain ⟨old, hold, rfl⟩ := Option.map_eq_some_iff.mp h
      have hprofile : (Dictionary.replaced f id old).profile = old.profile := by
        unfold Dictionary.replaced
        cases hfo : f id old with
        | none => rfl
        | some r => exact hf (show f id old = some (r.1, r.2) from hfo)
      rw [hprofile]
      exact storage.keyed id old hold⟩,
    (Dictionary.sweep f (Dictionary.sortedKeys storage.records) storage.records).2)

/-- The records of the storage, in no order that matters. -/
def values (storage : Storage) : List MemberRecord := Dictionary.values storage.records

/-- In an empty storage no record is found. -/
@[simp] theorem get?_empty (id : NodeID) : empty.get? id = none := rfl

/-- A record that was set is found. -/
@[simp] theorem get?_set_self (storage : Storage) (id : NodeID) (record : MemberRecord)
    (h : record.profile.nodeID = id) : (storage.set id record h).get? id = some record :=
  AList.lookup_insert _

/-- A record that was set is found under its node, and elsewhere what was found before. -/
theorem get?_set (storage : Storage) (id : NodeID) (record : MemberRecord)
    (h : record.profile.nodeID = id) (k : NodeID) :
    (storage.set id record h).get? k = if k = id then some record else storage.get? k := by
  by_cases hk : k = id
  · subst hk; simp
  · rw [if_neg hk]
    exact AList.lookup_insert_ne hk

/-- A sweep looks at every record once: it is kept, replaced or removed as the function says. -/
theorem get?_sweep {ε : Type} (storage : Storage)
    (f : NodeID → MemberRecord → Option (MemberRecord × ε)) (hf) (k : NodeID) :
    (storage.sweep f hf).1.get? k = (storage.get? k).map (Dictionary.replaced f k) :=
  Dictionary.lookup_sweep_sortedKeys f storage.records k

/-- A sweep that turns every record into `g` of it. -/
theorem get?_sweep_of {ε : Type} (storage : Storage)
    (f : NodeID → MemberRecord → Option (MemberRecord × ε)) (hf) {k : NodeID}
    {g : MemberRecord → MemberRecord} (hg : ∀ record, Dictionary.replaced f k record = g record) :
    (storage.sweep f hf).1.get? k = (storage.get? k).map g := by
  rw [get?_sweep, funext hg]

/-- The values are the records that are found under some node. -/
theorem mem_values {storage : Storage} {record : MemberRecord} :
    record ∈ storage.values ↔ ∃ id, storage.get? id = some record :=
  Dictionary.mem_values

/-- Distinct records describe distinct nodes, since each is stored under its own name. -/
theorem nodup_nodeIDs (storage : Storage) :
    (storage.values.map (fun record => record.profile.nodeID)).Nodup := by
  rw [values, Dictionary.map_values_eq_keys storage.keyed]
  exact storage.records.keys_nodup

end Storage

/-! ### The service -/

/-- Owns ring membership: the records of all nodes, and the epoch with its members. -/
structure MembershipService where
  localNodeID : NodeID
  config : MembershipConfig
  storage : Storage
  currentEpoch : Epoch
  lastEpochChangedAt : Date
  lastEpochMembers : Finset NodeID

namespace MembershipService

/-- A new service has no records, the first epoch, and no change behind it. -/
def init (localNodeID : NodeID) (now : Date) (config : MembershipConfig := {})
    (epoch : Epoch := .initial) : MembershipService where
  localNodeID := localNodeID
  config := config
  storage := .empty
  currentEpoch := epoch
  lastEpochChangedAt := now
  lastEpochMembers := ∅

/-- Nodes that belong in the next shard plan. -/
def planningMembers (self : MembershipService) : List PlannedMember :=
  ((self.storage.values.filter (fun record => record.state.participatesInPlanning)).map
    (fun record => { profile := record.profile, state := record.state, lease := record.lease }
      : MemberRecord → PlannedMember)).insertionSort (fun a b => a.nodeID ≤ b.nodeID)

/-- A lease of the current epoch for the node, from now on, with the roles its state allows. -/
def issueLease (self : MembershipService) (profile : CapabilityProfile) (state : NodeState)
    (now : Date) (stabilityScore : ℚ) : Lease where
  nodeID := profile.nodeID
  epoch := self.currentEpoch
  issuedAt := now
  -- never promise a node more time than its OS can honour
  expiresAt := now + min self.config.leaseDuration profile.maximumSupportableLeaseDuration
  allowedStageTypes :=
    if state.canHostRequiredStage then StageType.allCases
    else StageType.allCases.filter (fun stage => !stage.isRequired)
  stabilityScore := stabilityScore

/-- The event by which a node that appears enters its state machine. -/
def joinEvent (profile : CapabilityProfile) : NodeEvent :=
  match NodeStateMachine.initialState profile with
  | .activeCore => .joinedAsCore
  | .activeElastic => .joinedAsElastic
  | .opportunistic | .draining | .suspended => .joinedAsOpportunistic

/-- How much a new sample counts for the stability of a node. -/
def stabilitySmoothing : ℚ := 3 / 10

/-- The stability after a sample, as a weighted mean of the old value and the sample. -/
def smoothed (current sample : ℚ) : ℚ :=
  current * (1 - stabilitySmoothing) + sample * stabilitySmoothing

/-! ### Input -/

/-- A suspended member that reappears must explicitly rejoin into an active state. -/
def rejoined (self : MembershipService) (now : Date) (profile : CapabilityProfile)
    (existing : MemberRecord) : MemberRecord :=
  let state := (NodeStateMachine.apply (joinEvent profile) existing.state).2
  { existing with
    state := state
    profile := profile
    lastHeardFrom := now
    consecutiveMissedHeartbeats := 0
    stabilityScore := 1
    lease := some (self.issueLease profile state now 1) }

/-- A refresh adopts the new facts; it neither revives the node nor renews its lease. -/
def refreshed (now : Date) (profile : CapabilityProfile) (existing : MemberRecord) :
    MemberRecord :=
  { existing with
    profile := profile
    lastHeardFrom := now
    consecutiveMissedHeartbeats := 0 }

/-- The record of a node seen for the first time. -/
def joined (self : MembershipService) (now : Date) (profile : CapabilityProfile) : MemberRecord :=
  let state := NodeStateMachine.initialState profile
  { profile := profile
    state := state
    lease := some (self.issueLease profile state now 1)
    consecutiveMissedHeartbeats := 0
    lastHeardFrom := now
    stabilityScore := 1 }

/-- A node has been discovered, or has re-published its capabilities. -/
def nodeAppeared (self : MembershipService) (now : Date) (profile : CapabilityProfile) :
    MembershipService × List MembershipEvent :=
  match self.storage.get? profile.nodeID with
  | some existing =>
      -- without the rejoin an evicted node would stay out of every later plan
      if existing.state = .suspended then
        ({ self with
            storage := self.storage.set profile.nodeID (self.rejoined now profile existing)
              (MemberRecord.nodeID_of_profile rfl) },
          [.nodeJoined profile.nodeID])
      else
        ({ self with
            storage := self.storage.set profile.nodeID (refreshed now profile existing)
              (MemberRecord.nodeID_of_profile rfl) }, [])
  | none =>
      ({ self with
          storage := self.storage.set profile.nodeID (self.joined now profile)
            (MemberRecord.nodeID_of_profile rfl) },
        [.nodeJoined profile.nodeID])

/-- The record after an answered heartbeat.  Renewing on success is what keeps a healthy
    node's lease ahead of the scheduler. -/
def renewed (self : MembershipService) (now : Date) (record : MemberRecord) : MemberRecord :=
  let stabilityScore := smoothed record.stabilityScore 1
  { record with
    consecutiveMissedHeartbeats := 0
    lastHeardFrom := now
    stabilityScore := stabilityScore
    lease :=
      if record.state.participatesInPlanning then
        some (self.issueLease record.profile record.state now stabilityScore)
      else record.lease }

/-- A heartbeat was answered: the node was heard from now, and its lease is renewed if it has
    one. -/
def heartbeatSucceeded (self : MembershipService) (now : Date) (nodeID : NodeID) :
    MembershipService :=
  match h : self.storage.get? nodeID with
  | none => self
  | some record =>
      { self with
        storage := self.storage.set nodeID (self.renewed now record)
          (self.storage.keyed_of h rfl) }

/-- The record after an unanswered heartbeat: one more was missed, and the node is less stable. -/
def missed (record : MemberRecord) : MemberRecord :=
  { record with
    consecutiveMissedHeartbeats := record.consecutiveMissedHeartbeats + 1
    stabilityScore := smoothed record.stabilityScore 0 }

/-- A heartbeat was missed: the node has one more in a row. -/
def heartbeatFailed (self : MembershipService) (nodeID : NodeID) : MembershipService :=
  match h : self.storage.get? nodeID with
  | none => self
  | some record =>
      { self with
        storage := self.storage.set nodeID (missed record)
          (self.storage.keyed_of h rfl) }

/-- A node told us it is going away. -/
def nodeAnnouncedDrain (self : MembershipService) (now : Date) (nodeID : NodeID) :
    MembershipService × List MembershipEvent :=
  match h : self.storage.get? nodeID with
  | none => (self, [])
  | some record =>
      match NodeStateMachine.apply .enteredBackground record.state with
      -- the record is written back only after a legal transition
      | (false, _) => (self, [])
      | (true, state) =>
          ({ self with
              storage := self.storage.set nodeID
                { record with state := state, lastHeardFrom := now }
                (self.storage.keyed_of h rfl) },
            [.nodeDraining nodeID])

/-- Applies an arbitrary lifecycle event, e.g. `.powerDuress` from a thermal reading. -/
def apply (self : MembershipService) (event : NodeEvent) (nodeID : NodeID) :
    MembershipService × Bool :=
  match h : self.storage.get? nodeID with
  | none => (self, false)
  | some record =>
      match NodeStateMachine.apply event record.state with
      | (false, _) => (self, false)
      -- the state moves alone: the node keeps the lease it has
      | (true, state) =>
          ({ self with
              storage := self.storage.set nodeID { record with state := state }
                (self.storage.keyed_of h rfl) }, true)

/-! ### The tick -/

/-- Whether a node leaves at `now`, and why: the tests of the loop of `tick`, in order. -/
def departure (config : MembershipConfig) (now : Date) (record : MemberRecord) :
    Option (NodeEvent × EvictionReason) :=
  -- a draining node leaves as soon as it has been given the chance to hand work back
  if record.state = .draining then some (.drainCompleted, .drained)
  else if !record.state.participatesInPlanning then none
  else if config.missedHeartbeatsBeforeEviction ≤ record.consecutiveMissedHeartbeats then
    some (.heartbeatLost, .heartbeatLost)
  else
    match record.lease with
    | some lease => if !lease.isValid now then some (.leaseExpired, .leaseExpired) else none
    | none => none

/-- One iteration of the loop of `tick`. -/
def departed (config : MembershipConfig) (now : Date) (nodeID : NodeID) (record : MemberRecord) :
    Option (MemberRecord × MembershipEvent) :=
  match departure config now record with
  | none => none
  | some (event, reason) =>
      some ({ record with state := (NodeStateMachine.apply event record.state).2 },
        .nodeEvicted nodeID reason)

/-- One iteration of the loop of `reissueLeases`. -/
def reissued (self : MembershipService) (now : Date) (_nodeID : NodeID) (record : MemberRecord) :
    Option (MemberRecord × Unit) :=
  if record.state.participatesInPlanning then
    some ({ record with
      lease := some (self.issueLease record.profile record.state now record.stabilityScore) }, ())
  else none

/-- Every departure ends in `suspended`, and is reported with its reason. -/
theorem departed_eq (config : MembershipConfig) (now : Date) (nodeID : NodeID)
    (record : MemberRecord) :
    departed config now nodeID record = (departure config now record).map
      (fun d => ({ record with state := .suspended }, .nodeEvicted nodeID d.2)) := by
  unfold departed
  cases h : departure config now record with
  | none => rfl
  | some d =>
    obtain ⟨event, reason⟩ := d
    have hsuspended : (NodeStateMachine.apply event record.state).2 = .suspended := by
      refine NodeStateMachine.apply_departure ?_
      -- the reason decides the event, and `drainCompleted` is for draining nodes only
      simp only [departure] at h
      split at h
      · next hdraining => simp_all
      split at h
      · simp at h
      split at h
      · simp_all
      split at h
      · split at h <;> simp_all
      · simp at h
    simp [hsuspended]

/-- A departure keeps the profile of the node. -/
theorem departed_profile {config : MembershipConfig} {now : Date} {nodeID : NodeID}
    {record record' : MemberRecord} {e : MembershipEvent}
    (h : departed config now nodeID record = some (record', e)) :
    record'.profile = record.profile := by
  rw [departed_eq, Option.map_eq_some_iff] at h
  obtain ⟨d, -, hd⟩ := h
  simp only [Prod.mk.injEq] at hd
  exact hd.1 ▸ rfl

/-- A lease that is issued anew keeps the profile of the node. -/
theorem reissued_profile {self : MembershipService} {now : Date} {nodeID : NodeID}
    {record record' : MemberRecord} {e : Unit}
    (h : self.reissued now nodeID record = some (record', e)) :
    record'.profile = record.profile := by
  unfold reissued at h
  split at h
  · simp only [Option.some.injEq, Prod.mk.injEq] at h
    exact h.1 ▸ rfl
  · simp at h

/-- The first loop of `tick`: expires leases, evicts unreachable nodes, completes drains. -/
def evict (self : MembershipService) (now : Date) : MembershipService × List MembershipEvent :=
  let swept := self.storage.sweep (departed self.config now) departed_profile
  ({ self with storage := swept.1 }, swept.2)

/-- Leases are epoch-scoped, so a new generation re-issues them. -/
def reissueLeases (self : MembershipService) (now : Date) : MembershipService :=
  { self with storage := (self.storage.sweep (self.reissued now) reissued_profile).1 }

/-- The nodes of the planning set, by name. -/
def planningSet (self : MembershipService) : Finset NodeID :=
  (self.planningMembers.map PlannedMember.nodeID).toFinset

/-- The new generation begun at `now`, before its leases are issued. -/
def nextEpoch (self : MembershipService) (now : Date) : MembershipService :=
  { self with
    currentEpoch := self.currentEpoch.next
    lastEpochChangedAt := now
    lastEpochMembers := self.planningSet }

/-- The end of `tick`: starts a new epoch if the planning set has changed and the current
    epoch is old enough to replace. -/
def settleEpoch (self : MembershipService) (now : Date) :
    MembershipService × List MembershipEvent :=
  if self.planningSet ≠ self.lastEpochMembers then
    let elapsed := now - self.lastEpochChangedAt
    if self.config.minimumEpochDwellTime ≤ elapsed then
      let self := self.nextEpoch now
      (self.reissueLeases now,
        [.epochChanged self.currentEpoch (self.lastEpochMembers.sort (· ≤ ·))])
    else
      (self, [.epochChangeDeferred (self.config.minimumEpochDwellTime - elapsed)])
  else (self, [])

/-- Advances membership to `now`: expires leases, evicts unreachable nodes, completes drains,
    and settles the epoch. -/
def tick (self : MembershipService) (now : Date) : MembershipService × List MembershipEvent :=
  let (self, evictions) := self.evict now
  let (self, epochEvents) := self.settleEpoch now
  (self, evictions ++ epochEvents)

end MembershipService

end ShareCompute.Core
